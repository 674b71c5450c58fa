import ActorFramework.Net.Http.HeaderText

/-!
# Multipart content

A body with several parts.  Each part has fields and a content, and a delimiter
stands before each part and after the last one.  The reader takes the boundary
from the content type of the message and searches for it in the body.
-/

namespace ActorFramework.Net.Http

open ActorFramework.Core
open Foundation List

structure Part where
  fields : List Field
  content : List Byte
  deriving DecidableEq

def boundaryDelimiter : List Byte := ascii "--"

def defaultBoundary : List Byte := ascii "gc0p4Jq0M2Yt08j34c0p"

structure MultipartWriter where
  boundary : List Byte := defaultBoundary
  buf : List Byte := []

namespace MultipartWriter

variable (w : MultipartWriter)

def writeString (str : List Byte) : MultipartWriter :=
  { w with buf := w.buf ++ str }

def add (field : Field) : MultipartWriter :=
  (((w.writeString field.1).writeString (ascii ": ")).writeString
    field.2).writeString eol

def append (part : Part) : MultipartWriter :=
  let w := ((w.writeString boundaryDelimiter).writeString
    w.boundary).writeString eol
  let w := (part.fields.foldl add w).writeString eol
  (w.writeString part.content).writeString eol

def finalize : MultipartWriter :=
  ((w.writeString boundaryDelimiter).writeString w.boundary).writeString
    (ascii "--\r\n")

end MultipartWriter

def multipartBody (boundary : List Byte) (parts : List Part) : List Byte :=
  (parts.foldl MultipartWriter.append ⟨boundary, []⟩).finalize.buf

structure MultipartReader where
  body : List Byte
  mimeType : List Byte

namespace MultipartReader

def new (fields : List Field) (body : List Byte) : MultipartReader :=
  ⟨body, (findByKey fields (ascii "Content-Type")).getD []⟩

def removeQuotes (str : List Byte) : List Byte :=
  if 2 ≤ str.length ∧ str.head? = some 34#8 ∧ str.getLast? = some 34#8 then
    str.tail.dropLast
  else str

def separator (mimeType : List Byte) : Option (List Byte) :=
  if search (ascii "multipart/") mimeType = some 0 then
    match search (ascii "boundary=") mimeType with
    | none => none
    | some pos =>
      let rest := mimeType.drop (pos + (ascii "boundary=").length)
      let str := removeQuotes (rest.take
        ((search (ascii ";") rest).getD rest.length))
      if str = [] then none else some str
  else none

def findFrom (separator payload : List Byte) : Nat → Nat → Option Nat
  | 0, _ => none
  | fuel + 1, offset =>
    if offset < payload.length then
      match search boundaryDelimiter (payload.drop offset) with
      | none => none
      | some n =>
        let pos := offset + n
        let candidate := payload.drop (pos + boundaryDelimiter.length)
        if candidate.take separator.length = separator then some pos
        else findFrom separator payload fuel (pos + boundaryDelimiter.length)
    else none

def findBoundary (separator payload : List Byte) : Option Nat :=
  findFrom separator payload (payload.length + 1) 0

def removeEol (content : List Byte) : List Byte :=
  if eol <:+ content then content.take (content.length - eol.length)
  else content

def skipEol (payload : List Byte) : List Byte :=
  if eol <+: payload then payload.drop eol.length else payload

/-- The loop over the parts, with the parts that have been consumed and whether
parsing has succeeded. -/
def parseParts (separator : List Byte) :
    Nat → List Byte → List Part × Bool
  | 0, _ => ([], false)
  | fuel + 1, payload =>
    if boundaryDelimiter <+: payload then ([], true)
    else
      match processLines ((skipEol payload).length + 1) (skipEol payload) with
      | none => ([], false)
      | some (fields, rest) =>
        match findBoundary separator rest with
        | none => ([], true)
        | some next =>
          let res := parseParts separator fuel
            (rest.drop (next + (boundaryDelimiter ++ separator).length))
          (⟨fields, removeEol (rest.take next)⟩ :: res.1, res.2)

def parse (r : MultipartReader) : List Part × Bool :=
  match separator r.mimeType with
  | none => ([], false)
  | some sep =>
    match findBoundary sep r.body with
    | none => ([], false)
    | some pos =>
      parseParts sep (r.body.length + 1)
        (r.body.drop (pos + (boundaryDelimiter ++ sep).length))

end MultipartReader

theorem length_boundaryDelimiter : boundaryDelimiter.length = 2 := rfl

def partText (part : Part) : List Byte :=
  eol ++ (headerText (part.fields.map fieldLine) ++ (part.content ++ eol))

def partsText (boundary : List Byte) : List Part → List Byte
  | [] => ascii "--\r\n"
  | part :: parts =>
    partText part ++ (boundaryDelimiter ++ boundary ++ partsText boundary parts)

namespace MultipartWriter

section

variable (w : MultipartWriter)

theorem add_eq (field : Field) :
    w.add field = w.writeString (fieldLine field ++ eol) := by
  simp [add, writeString, fieldLine]

theorem foldl_add (fields : List Field) :
    fields.foldl add w =
      w.writeString ((fields.map fieldLine).flatMap (· ++ eol)) := by
  induction fields generalizing w with
  | nil => simp [writeString]
  | cons field fields ih =>
    rw [foldl_cons, ih, add_eq]
    simp [writeString]

theorem append_eq (part : Part) :
    w.append part =
      w.writeString (boundaryDelimiter ++ w.boundary ++ partText part) := by
  simp [append, foldl_add, writeString, partText, headerText]

theorem finalize_foldl_append (parts : List Part) :
    (parts.foldl append w).finalize.buf =
      w.buf ++ (boundaryDelimiter ++ w.boundary ++
        partsText w.boundary parts) := by
  induction parts generalizing w with
  | nil => simp [finalize, writeString, partsText]
  | cons part parts ih =>
    rw [foldl_cons, ih, append_eq]
    simp [writeString, partsText]

end

end MultipartWriter

theorem multipartBody_eq (boundary : List Byte) (parts : List Part) :
    multipartBody boundary parts =
      boundaryDelimiter ++ boundary ++ partsText boundary parts :=
  MultipartWriter.finalize_foldl_append ⟨boundary, []⟩ parts

structure Part.Valid (boundary : List Byte) (part : Part) : Prop where
  fields : ∀ field ∈ part.fields, IsField field ∧ trimmed field = field
  content : ¬ boundaryDelimiter ++ boundary <:+: part.content

namespace MultipartReader

variable {boundary content rest : List Byte} {part : Part} {parts : List Part}

def contentText (boundary content rest : List Byte) : List Byte :=
  content ++ (eol ++ (boundaryDelimiter ++ boundary ++ rest))

theorem length_contentText (boundary content rest : List Byte) :
    (contentText boundary content rest).length =
      content.length + 4 + boundary.length + rest.length := by
  simp only [contentText, length_append, eol_eq, length_boundaryDelimiter,
    length_cons, length_nil]
  omega

theorem drop_contentText (boundary content rest : List Byte) :
    (contentText boundary content rest).drop (content.length + 2) =
      boundaryDelimiter ++ boundary ++ rest := by
  rw [contentText, ← append_assoc, drop_left' (by simp [eol, ascii])]

section

variable (hreturn : 13#8 ∉ boundary)
  (hcontent : ¬ boundaryDelimiter ++ boundary <:+: content)
include hreturn hcontent

/-- No place before the delimiter matches.  The line break keeps the steps of
the search from passing over the delimiter. -/
theorem candidate_ne {pos : Nat} (hpos : pos < content.length + 2)
    (h : boundaryDelimiter <+: (contentText boundary content rest).drop pos) :
    pos + 2 ≤ content.length + 2 ∧
      ((contentText boundary content rest).drop (pos + 2)).take
        boundary.length ≠ boundary := by
  have hle : pos ≤ content.length := by
    by_contra hlt
    obtain rfl : pos = content.length + 1 := by omega
    have hfeed : (contentText boundary content rest).drop
        (content.length + 1) =
          10#8 :: (boundaryDelimiter ++ boundary ++ rest) := by
      rw [contentText, eol_eq, ← singleton_append, append_assoc,
        ← append_assoc content, drop_left' (by simp)]
      rfl
    rw [hfeed] at h
    cases (cons_prefix_cons.mp h).1
  refine ⟨Nat.add_le_add_right hle 2, fun htake => hcontent ?_⟩
  have hmatch : boundaryDelimiter ++ boundary <+:
      (contentText boundary content rest).drop pos := by
    obtain ⟨tail, htail⟩ := h
    have hrest : (contentText boundary content rest).drop (pos + 2) = tail := by
      rw [← drop_drop, ← htail]
      exact drop_left' rfl
    have hstart : boundary <+: tail := by
      rw [hrest] at htake
      exact prefix_iff_eq_take.mpr htake.symm
    rw [← htail]
    exact (prefix_append_right_inj _).mpr hstart
  have hdelimiter : 13#8 ∉ boundaryDelimiter ++ boundary := by
    rw [mem_append, not_or]
    exact ⟨by decide, hreturn⟩
  rw [contentText, drop_append_of_le_length hle] at hmatch
  have hinside := prefix_of_not_mem hdelimiter hmatch
  exact hinside.isInfix.trans (drop_suffix pos content).isInfix

theorem findFrom_content {fuel offset : Nat}
    (hoff : offset ≤ content.length + 2)
    (hfuel : content.length + 2 < offset + fuel) :
    findFrom boundary (contentText boundary content rest) fuel offset =
      some (content.length + 2) := by
  induction fuel generalizing offset with
  | zero => omega
  | succ fuel ih =>
    have hthere : boundaryDelimiter <+:
        ((contentText boundary content rest).drop offset).drop
          (content.length + 2 - offset) := by
      rw [drop_drop, Nat.add_sub_cancel' hoff, drop_contentText, append_assoc]
      exact prefix_append _ _
    obtain ⟨n, hn, hfound⟩ := search_le hthere
    have hinside : offset < (contentText boundary content rest).length := by
      rw [length_contentText]
      omega
    rw [findFrom, if_pos hinside]
    simp only [hfound]
    change (if ((contentText boundary content rest).drop
      (offset + n + 2)).take boundary.length = boundary then _ else _) = _
    by_cases hhere : offset + n = content.length + 2
    · have hnext : (contentText boundary content rest).drop
          (content.length + 2 + 2) = boundary ++ rest := by
        rw [← drop_drop, drop_contentText, append_assoc]
        exact drop_left' rfl
      rw [hhere, hnext, take_left, if_pos rfl]
    · have hpos : boundaryDelimiter <+:
          (contentText boundary content rest).drop (offset + n) := by
        rw [← drop_drop]
        exact prefix_of_search hfound
      obtain ⟨hle, hne⟩ := candidate_ne hreturn hcontent (by omega) hpos
      have hbound : content.length + 2 < offset + n + 2 + fuel := by
        omega
      rw [if_neg hne]
      exact ih hle hbound

theorem findBoundary_content :
    findBoundary boundary (contentText boundary content rest) =
      some (content.length + 2) := by
  apply findFrom_content hreturn hcontent (Nat.zero_le _)
  rw [length_contentText]
  omega

end

theorem findBoundary_first :
    findBoundary boundary (boundaryDelimiter ++ boundary ++ rest) = some 0 := by
  have hfound : search boundaryDelimiter
      (boundaryDelimiter ++ (boundary ++ rest)) = some 0 :=
    search_of_not_mem (not_mem_nil) (boundary ++ rest)
  have hpos : 0 < (boundaryDelimiter ++ (boundary ++ rest)).length := by
    simp [length_boundaryDelimiter]
  rw [append_assoc, findBoundary, findFrom, if_pos hpos, drop_zero, hfound]
  simp

theorem removeEol_append (content : List Byte) :
    removeEol (content ++ eol) = content := by
  rw [removeEol, if_pos (suffix_append _ _), length_append,
    Nat.add_sub_cancel, take_left]

variable {fuel : Nat}

theorem parseParts_partsText (hreturn : 13#8 ∉ boundary)
    (h : ∀ part ∈ parts, part.Valid boundary) (hfuel : parts.length < fuel) :
    parseParts boundary fuel (partsText boundary parts) = (parts, true) := by
  induction parts generalizing fuel with
  | nil =>
    obtain ⟨fuel, rfl⟩ := Nat.exists_eq_add_of_lt hfuel
    rfl
  | cons part parts ih =>
    obtain ⟨fuel, rfl⟩ := Nat.exists_eq_add_of_lt hfuel
    obtain ⟨hpart, hparts⟩ := forall_mem_cons.mp h
    have htext : partsText boundary (part :: parts) =
        eol ++ (headerText (part.fields.map fieldLine) ++
          contentText boundary part.content (partsText boundary parts)) := by
      simp [partsText, partText, contentText]
    have hopen :
        ¬ boundaryDelimiter <+: partsText boundary (part :: parts) := by
      rw [htext]
      intro hstart
      cases (cons_prefix_cons.mp hstart).1
    have hfuel' : part.fields.length <
        (headerText (part.fields.map fieldLine) ++ contentText boundary
          part.content (partsText boundary parts)).length + 1 := by
      have hle := length_le_headerText (part.fields.map fieldLine)
      rw [length_map] at hle
      rw [length_append]
      omega
    have hfields := processLines_headerText
      (fun field hfield => (hpart.fields field hfield).1)
      (contentText boundary part.content (partsText boundary parts)) hfuel'
    have hsame := (map_congr_left fun field hfield =>
        (hpart.fields field hfield).2).trans (map_id _)
    have htake : (contentText boundary part.content
        (partsText boundary parts)).take (part.content.length + 2) =
          part.content ++ eol := by
      rw [contentText, ← append_assoc, take_left' (by simp [eol_eq])]
    have hdrop : (contentText boundary part.content
        (partsText boundary parts)).drop (part.content.length + 2 +
          (boundaryDelimiter ++ boundary).length) =
            partsText boundary parts := by
      rw [← drop_drop, drop_contentText, drop_left]
    rw [parseParts, if_neg hopen, htext, skipEol,
      if_pos (prefix_append _ _), drop_left, hfields]
    simp only [findBoundary_content hreturn hpart.content, htake, hdrop,
      removeEol_append, hsame]
    rw [ih hparts (by rw [length_cons]; omega)]

/-- The parts that have been written are read, with their fields and contents
and in their order. -/
theorem parse_multipartBody {fields : List Field}
    (hseparator : separator ((findByKey fields (ascii "Content-Type")).getD [])
      = some boundary)
    (hreturn : 13#8 ∉ boundary) (h : ∀ part ∈ parts, part.Valid boundary) :
    (new fields (multipartBody boundary parts)).parse = (parts, true) := by
  have hlen : ∀ parts, parts.length ≤ (partsText boundary parts).length := by
    intro parts
    induction parts with
    | nil => simp [partsText]
    | cons part parts ih =>
      simp only [partsText, partText, List.length_append, List.length_cons,
        eol_eq]
      omega
  have hle := hlen parts
  have hfuel : parts.length < (boundaryDelimiter ++ boundary ++
      partsText boundary parts).length + 1 := by
    rw [List.length_append]
    omega
  rw [parse, new]
  simp only [hseparator, multipartBody_eq, findBoundary_first, Nat.zero_add,
    List.drop_left]
  exact parseParts_partsText hreturn h hfuel

/-- Two parts.  The first content ends with a line break and has dashes, the
second one is empty and has no fields. -/
theorem parse_multipartBody_two :
    (new [(ascii "content-type", ascii "multipart/form-data; boundary=\"-x\"")]
      (multipartBody (ascii "-x")
        [⟨[(ascii "Name", ascii "a: b"), (ascii "Empty", [])],
          ascii "--\r\n--y\r\n"⟩, ⟨[], []⟩])).parse =
      ([⟨[(ascii "Name", ascii "a: b"), (ascii "Empty", [])],
        ascii "--\r\n--y\r\n"⟩, ⟨[], []⟩], true) := by
  apply parse_multipartBody (by decide) (by decide)
  intro part hpart
  rw [List.mem_pair] at hpart
  obtain rfl | rfl := hpart
  · refine ⟨fun field hfield => ?_, by decide⟩
    rw [List.mem_pair] at hfield
    obtain rfl | rfl := hfield
    · exact ⟨⟨by decide, by decide, by decide, by decide⟩, by decide⟩
    · exact ⟨⟨by decide, by decide, by decide, by decide⟩, by decide⟩
  · exact ⟨fun field hfield => absurd hfield List.not_mem_nil, by decide⟩

/-- Blanks at the ends of a name are not read, a name without other characters
is an error, and a boundary with a line break can be found too early. -/
theorem parse_multipartBody_changed :
    (new [(ascii "Content-Type", ascii "multipart/mixed; boundary=x")]
      (multipartBody (ascii "x") [⟨[(ascii " Name", ascii "a")], []⟩])).parse =
        ([⟨[(ascii "Name", ascii "a")], []⟩], true) ∧
    (new [(ascii "Content-Type", ascii "multipart/mixed; boundary=x")]
      (multipartBody (ascii "x")
        [⟨[], ascii "first"⟩, ⟨[([], ascii "a")], []⟩])).parse =
          ([⟨[], ascii "first"⟩], false) ∧
    (new [(ascii "Content-Type", ascii "multipart/mixed; boundary=\"\r\"")]
      (multipartBody (ascii "\r") [⟨[], ascii "--"⟩])).parse =
        ([⟨[], []⟩], false) := by
  decide +kernel

abbrev partFields (payload : List Byte) : Option (List Field × List Byte) :=
  processLines ((skipEol payload).length + 1) (skipEol payload)

inductive Closed (sep : List Byte) : List Byte → List Part → Prop where
  | closing {payload : List Byte} (h : boundaryDelimiter <+: payload) :
      Closed sep payload []
  | part {payload rest : List Byte} {fields : List Field} {next : Nat}
      {parts : List Part} (h : ¬ boundaryDelimiter <+: payload)
      (hfields : partFields payload = some (fields, rest))
      (hnext : findBoundary sep rest = some next)
      (hrest : Closed sep
        (rest.drop (next + (boundaryDelimiter ++ sep).length)) parts) :
      Closed sep payload (⟨fields, removeEol (rest.take next)⟩ :: parts)

def opened (r : MultipartReader) : Option (List Byte × List Byte) :=
  (separator r.mimeType).bind fun sep =>
    (findBoundary sep r.body).map fun pos =>
    (sep, r.body.drop (pos + (boundaryDelimiter ++ sep).length))

def HasParts (r : MultipartReader) (parts : List Part) : Prop :=
  ∃ x ∈ r.opened, Closed x.1 x.2 parts

variable {sep payload : List Byte}

theorem length_processLines {input : List Byte} {fields : List Field}
    (h : processLines fuel input = some (fields, rest)) :
    rest.length ≤ input.length := by
  induction fuel generalizing input fields with
  | zero => cases h
  | succ fuel ih =>
    rw [processLines] at h
    split at h
    · cases h
    · cases h
      simp
    · split at h
      · cases h
      · obtain ⟨res, hrest, heq⟩ := Option.map_eq_some_iff.mp h
        cases heq
        have hle := ih hrest
        rw [length_drop] at hle
        omega

theorem length_skipEol (payload : List Byte) :
    (skipEol payload).length ≤ payload.length := by
  unfold skipEol
  split <;> simp

theorem Closed.parseParts (h : Closed sep payload parts)
    (hfuel : payload.length < fuel) :
    parseParts sep fuel payload = (parts, true) := by
  induction h generalizing fuel with
  | closing h =>
    obtain ⟨fuel, rfl⟩ := Nat.exists_eq_add_of_lt hfuel
    simp [MultipartReader.parseParts, h]
  | @part payload rest _ next _ h hfields hnext _ ih =>
    obtain ⟨fuel, rfl⟩ := Nat.exists_eq_add_of_lt hfuel
    have hskip := length_skipEol payload
    have hle := length_processLines hfields
    have hne : rest ≠ [] := by
      rintro rfl
      cases hnext
    have hpos := length_pos_iff.mpr hne
    simp only [MultipartReader.parseParts, if_neg h, hfields, hnext]
    rw [ih (by
      simp only [length_drop, length_append, length_boundaryDelimiter]
      omega)]

theorem parse_eq (r : MultipartReader) :
    r.parse = r.opened.elim ([], false) fun x =>
      parseParts x.1 (r.body.length + 1) x.2 := by
  unfold parse opened
  cases separator r.mimeType with
  | none => rfl
  | some sep =>
    simp only [Option.bind_some]
    cases findBoundary sep r.body <;> rfl

theorem length_opened {r : MultipartReader}
    (h : r.opened = some (sep, payload)) :
    payload.length < r.body.length + 1 := by
  simp only [opened, Option.bind_eq_some_iff, Option.map_eq_some_iff] at h
  obtain ⟨_, -, pos, -, heq⟩ := h
  cases heq
  rw [length_drop]
  omega

/-- What `parse` reports is right exactly if a body that opens with the boundary
has parts up to a closing boundary, or a first part without fields. -/
theorem parse_closed_iff (r : MultipartReader) :
    ((∀ parts, r.parse = (parts, true) → r.HasParts parts) ∧
      ((∀ parts, ¬ r.HasParts parts) → r.parse = ([], false))) ↔
    ∀ x ∈ r.opened, (∃ parts, Closed x.1 x.2 parts) ∨
      ¬ boundaryDelimiter <+: x.2 ∧ partFields x.2 = none := by
  rw [parse_eq]
  unfold HasParts
  cases hopened : r.opened with
  | none => simp
  | some x =>
    obtain ⟨sep, payload⟩ := x
    have hfuel := length_opened hopened
    simp only [Option.elim_some, Option.mem_some_iff, exists_eq_left',
      forall_eq']
    constructor
    · rintro ⟨-, hfails⟩
      by_contra hcond
      simp only [not_or, not_exists] at hcond
      have hparse := hfails hcond.1
      have hopen : ¬ boundaryDelimiter <+: payload := fun h =>
        hcond.1 [] (.closing h)
      rw [parseParts, if_neg hopen] at hparse
      split at hparse
      · rename_i hfields
        exact hcond.2 ⟨hopen, hfields⟩
      · split at hparse <;> cases hparse
    · rintro (⟨parts, hclosed⟩ | ⟨hopen, hfields⟩)
      · rw [hclosed.parseParts hfuel]
        refine ⟨fun parts' heq => ?_, fun hnone => absurd hclosed (hnone parts)⟩
        cases heq
        exact hclosed
      · simp [parseParts, hopen, hfields]

theorem parse_cut_off :
    (new [(ascii "Content-Type", ascii "multipart/mixed; boundary=x")]
      (ascii "--x\r\n\r\nfirst\r\n--x\r\n\r\nsecond")).parse =
        ([⟨[], ascii "first"⟩], true) ∧
    (new [(ascii "Content-Type", ascii "multipart/mixed; boundary=x")]
      (ascii "--x\r\n\r\nfirst\r\n--x\r\nName")).parse =
        ([⟨[], ascii "first"⟩], false) := by
  decide +kernel

end MultipartReader

end ActorFramework.Net.Http

import ActorFramework.Net.Http.V1

/-!
# The text of a header

The lines of a header can be recovered from its text, and the end of the text
is the first place where a header ends.
-/

namespace ActorFramework.Net.Http

open ActorFramework.Core Option
open Foundation

structure IsLine (line : List Byte) : Prop where
  nonempty : line ≠ []
  noReturn : 13#8 ∉ line

def headerText (lines : List (List Byte)) : List Byte :=
  lines.flatMap (· ++ eol) ++ eol

theorem eol_eq : eol = [13#8, 10#8] := rfl

theorem endOfHeader_eq : V1.endOfHeader = [13#8, 10#8, 13#8, 10#8] := rfl

theorem headerText_cons (line : List Byte) (lines : List (List Byte)) :
    headerText (line :: lines) = line ++ (eol ++ headerText lines) := by
  simp [headerText]

variable {line : List Byte} {lines : List (List Byte)} {field : Field}
  {fields : List Field}

theorem search_eol (h : 13#8 ∉ line) (rest : List Byte) :
    search eol (line ++ (eol ++ rest)) = some line.length :=
  search_of_not_mem h rest

theorem splitBy_eol (h : 13#8 ∉ line) (rest : List Byte) :
    splitBy (line ++ (eol ++ rest)) eol = (line, rest) := by
  simp only [splitBy, search_eol h, List.take_left]
  rw [← List.append_assoc, List.drop_left' (by simp)]

theorem splitBy_space {word : List Byte} (h : 32#8 ∉ word) (rest : List Byte) :
    splitBy (word ++ (ascii " " ++ rest)) (ascii " ") = (word, rest) := by
  have hfound : search (ascii " ") (word ++ (ascii " " ++ rest)) =
      some word.length := search_of_not_mem h rest
  simp only [splitBy, hfound, List.take_left]
  rw [← List.append_assoc, List.drop_left' (by simp)]

theorem search_endOfHeader_eol {c : Byte} (h : c ≠ 13#8) (rest : List Byte) :
    search V1.endOfHeader (eol ++ c :: rest) =
      (search V1.endOfHeader (c :: rest)).map (2 + ·) := by
  have hfirst : ¬ V1.endOfHeader <+: 13#8 :: 10#8 :: c :: rest := by
    simp only [endOfHeader_eq, List.cons_prefix_cons, not_and]
    exact fun _ _ hc => absurd hc.symm h
  have hsecond : ¬ V1.endOfHeader <+: 10#8 :: c :: rest := by
    simp only [endOfHeader_eq, List.cons_prefix_cons, not_and]
    intro hten
    cases hten
  change search V1.endOfHeader (13#8 :: 10#8 :: c :: rest) = _
  rw [search_later hfirst, search_later hsecond, map_map]
  refine congrArg (fun f => Option.map f _) (funext fun n => ?_)
  simp only [Function.comp_apply]
  omega

theorem search_headerText (h : ∀ l ∈ line :: lines, IsLine l)
    (rest : List Byte) :
    (search V1.endOfHeader (headerText (line :: lines) ++ rest)).map (· + 4) =
      some (headerText (line :: lines)).length := by
  induction lines generalizing line with
  | nil =>
    have hline := (h line List.mem_cons_self).noReturn
    have htext : headerText [line] ++ rest =
        line ++ (V1.endOfHeader ++ rest) := by
      simp [headerText, V1.endOfHeader, eol, ascii]
    have hfound : search V1.endOfHeader (line ++ (V1.endOfHeader ++ rest)) =
        some line.length := search_of_not_mem hline rest
    rw [htext, hfound]
    simp [headerText, eol, ascii]
  | cons next lines ih =>
    have hline := (h line List.mem_cons_self).noReturn
    obtain ⟨hnext, hlater⟩ := List.forall_mem_cons.mp
      (List.forall_mem_cons.mp h).2
    have hrest := ih (List.forall_mem_cons.mpr ⟨hnext, hlater⟩)
    obtain ⟨c, cs, rfl⟩ := List.exists_cons_of_ne_nil hnext.nonempty
    have hc : c ≠ 13#8 := fun heq =>
      hnext.noReturn (heq ▸ List.mem_cons_self)
    rw [headerText_cons line, List.append_assoc, List.append_assoc,
      endOfHeader_eq, search_skip hline, ← endOfHeader_eq]
    rw [headerText_cons] at hrest ⊢
    rw [List.cons_append, List.cons_append] at hrest ⊢
    rw [search_endOfHeader_eol hc, map_map, map_map]
    obtain ⟨i, hi, hlen⟩ := map_eq_some_iff.mp hrest
    rw [hi]
    simp only [map_some, Function.comp_apply, List.length_append,
      List.length_cons, eol_eq, List.length_nil] at hlen ⊢
    congr 1
    omega

theorem splitHeader_headerText (h : ∀ l ∈ line :: lines, IsLine l)
    (rest : List Byte) :
    V1.splitHeader (headerText (line :: lines) ++ rest) =
      some (headerText (line :: lines), rest) := by
  obtain ⟨i, hi, hlen⟩ := map_eq_some_iff.mp (search_headerText h rest)
  have hfour : i + V1.endOfHeader.length =
      (headerText (line :: lines)).length := hlen
  rw [V1.splitHeader, hi, map_some, hfour, List.take_left, List.drop_left]

def fieldLine (field : Field) : List Byte :=
  field.1 ++ ascii ": " ++ field.2

structure IsField (field : Field) : Prop where
  key : trim field.1 ≠ []
  noColon : 58#8 ∉ field.1
  keyLine : 13#8 ∉ field.1
  valueLine : 13#8 ∉ field.2

theorem isField_of_key {key value : List Byte}
    (hkey : trim key ≠ [] ∧ 58#8 ∉ key ∧ 13#8 ∉ key) (hval : 13#8 ∉ value) :
    IsField (key, value) :=
  ⟨hkey.1, hkey.2.1, hkey.2.2, hval⟩

def trimmed (field : Field) : Field := (trim field.1, trim field.2)

theorem isLine_fieldLine (h : IsField field) : IsLine (fieldLine field) := by
  have hsep : 13#8 ∉ ascii ": " := by decide
  refine ⟨?_, ?_⟩
  · simp [fieldLine, ascii]
  · simp [fieldLine, h.keyLine, h.valueLine, hsep]

theorem parseField_fieldLine (h : IsField field) :
    parseField (fieldLine field) = some (trimmed field) := by
  have hline : fieldLine field = field.1 ++ ([58#8] ++ (32#8 :: field.2)) := by
    simp [fieldLine, ascii]
  have hfound : search [58#8] (field.1 ++ ([58#8] ++ (32#8 :: field.2))) =
      some field.1.length := search_of_not_mem h.noColon _
  have hdrop : (field.1 ++ ([58#8] ++ (32#8 :: field.2))).drop
      (field.1.length + 1) = 32#8 :: field.2 := by
    rw [← List.append_assoc, List.drop_left' (by simp)]
  rw [parseField, hline, hfound]
  simp only [List.take_left, hdrop, h.key, if_false]
  rw [trim_cons (by decide)]
  rfl

theorem findByKey_cons (field : Field) (fields : List Field) (key : List Byte) :
    findByKey (field :: fields) key =
      if icaseEqual field.1 key then some field.2
      else findByKey fields key := by
  unfold findByKey
  rw [List.find?_cons]
  cases icaseEqual field.1 key <;> rfl

theorem processLines_headerText (h : ∀ field ∈ fields, IsField field)
    (rest : List Byte) {fuel : Nat} (hfuel : fields.length < fuel) :
    processLines fuel (headerText (fields.map fieldLine) ++ rest) =
      some (fields.map trimmed, rest) := by
  induction fields generalizing fuel with
  | nil =>
    obtain ⟨fuel, rfl⟩ := Nat.exists_eq_add_of_lt hfuel
    have hfound : search eol (eol ++ rest) = some 0 :=
      search_of_not_mem (List.not_mem_nil) rest
    simp [headerText, processLines, hfound]
  | cons field fields ih =>
    obtain ⟨fuel, rfl⟩ := Nat.exists_eq_add_of_lt hfuel
    obtain ⟨hfield, hfields⟩ := List.forall_mem_cons.mp h
    have hline := isLine_fieldLine hfield
    have hpos : ∃ n, (fieldLine field).length = n + 1 :=
      Nat.exists_eq_succ_of_ne_zero
        (mt List.length_eq_zero_iff.mp hline.nonempty)
    obtain ⟨n, hn⟩ := hpos
    have htext : headerText ((field :: fields).map fieldLine) ++ rest =
        fieldLine field ++
          (eol ++ (headerText (fields.map fieldLine) ++ rest)) := by
      rw [List.map_cons, headerText_cons]
      simp
    have hfound := search_eol hline.noReturn
      (headerText (fields.map fieldLine) ++ rest)
    have htake : (fieldLine field ++ (eol ++ (headerText
        (fields.map fieldLine) ++ rest))).take (n + 1) = fieldLine field :=
      hn ▸ List.take_left
    have hdrop : (fieldLine field ++ (eol ++ (headerText
        (fields.map fieldLine) ++ rest))).drop (n + 1 + eol.length) =
          headerText (fields.map fieldLine) ++ rest := by
      rw [← List.append_assoc, List.drop_left' (by simp [hn])]
    rw [htext, processLines, hfound, hn]
    simp only [htake, hdrop, parseField_fieldLine hfield]
    rw [ih hfields (by simp at hfuel ⊢; omega)]
    rfl

theorem length_le_headerText (lines : List (List Byte)) :
    lines.length ≤ (headerText lines).length := by
  induction lines with
  | nil => simp
  | cons line lines ih =>
    rw [headerText_cons]
    simp only [List.length_cons, List.length_append, eol_eq]
    omega

theorem parseFields_headerText (h : ∀ field ∈ fields, IsField field) :
    parseFields (headerText (fields.map fieldLine)) =
      some (fields.map trimmed) := by
  have hfuel : fields.length <
      (headerText (fields.map fieldLine)).length + 1 := by
    have hle := length_le_headerText (fields.map fieldLine)
    rw [List.length_map] at hle
    omega
  have hlines := processLines_headerText h [] hfuel
  rw [List.append_nil] at hlines
  rw [parseFields, hlines]
  rfl

end ActorFramework.Net.Http

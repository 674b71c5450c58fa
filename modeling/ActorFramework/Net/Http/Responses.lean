import ActorFramework.Net.Http.HeaderText

/-!
# What the client reads of a response

The client reads the header that the functions for writing have put together,
and the size of each chunk.
-/

namespace ActorFramework.Net.Http

open ActorFramework.Core
open Foundation

def statusLine (code : Status) : List Byte :=
  ascii "HTTP/1.1 " ++ toString10 code.toNat ++ ascii " " ++ ascii code.phrase

def responseText (code : Status) (fields : List Field) : List Byte :=
  headerText (statusLine code :: fields.map fieldLine)

theorem phrase_spec (code : Status) :
    13#8 ∉ ascii code.phrase ∧ trim (ascii code.phrase) ≠ [] := by
  unfold Status.phrase
  split <;> decide

theorem noReturn_number (base n : Nat) (hbase : 1 < base)
    (hsmall : base ≤ 16) : 13#8 ∉ numberText base n :=
  not_mem_numberText hbase hsmall (by decide)

theorem isLine_statusLine (code : Status) : IsLine (statusLine code) := by
  have hversion : 13#8 ∉ ascii "HTTP/1.1 " := by decide
  have hblank : 13#8 ∉ ascii " " := by decide
  have hcode : 13#8 ∉ toString10 code.toNat :=
    noReturn_number 10 _ (by decide) (by decide)
  refine ⟨?_, ?_⟩
  · simp [statusLine, ascii]
  · simp [statusLine, hversion, hblank, hcode, (phrase_spec code).1]

variable {code : Status} {fields : List Field}

theorem isLine_response (h : ∀ field ∈ fields, IsField field) :
    ∀ line ∈ statusLine code :: fields.map fieldLine, IsLine line := by
  simp only [List.forall_mem_cons, List.forall_mem_map]
  exact ⟨isLine_statusLine code, fun field hfield =>
    isLine_fieldLine (h field hfield)⟩

def responseHeader (code : Status) (fields : List Field) : ResponseHeader :=
  { version := ascii "HTTP/1.1"
    status := code.toNat
    statusText := trim (ascii code.phrase)
    fields := fields.map trimmed }

theorem parse_responseText {real : List Byte → Option Int}
    (h : ∀ field ∈ fields, IsField field) :
    ResponseHeader.parse real (responseText code fields) =
      .ok (responseHeader code fields) := by
  have hline := (isLine_statusLine code).noReturn
  have hnil : responseText code fields ≠ [] := by
    simp [responseText, headerText, eol, ascii]
  have hfirst : splitBy (responseText code fields) eol =
      (statusLine code, headerText (fields.map fieldLine)) := by
    rw [responseText, headerText_cons, splitBy_eol hline]
  have hversion : splitBy (statusLine code) (ascii " ") =
      (ascii "HTTP/1.1", toString10 code.toNat ++
        (ascii " " ++ ascii code.phrase)) := by
    have hline : statusLine code = ascii "HTTP/1.1" ++ (ascii " " ++
        (toString10 code.toNat ++ (ascii " " ++ ascii code.phrase))) := by
      simp [statusLine, ascii]
    rw [hline, splitBy_space (by decide)]
  have hstatus : splitBy (toString10 code.toNat ++
      (ascii " " ++ ascii code.phrase)) (ascii " ") =
        (toString10 code.toNat, ascii code.phrase) :=
    splitBy_space (not_mem_numberText (by decide) (by decide) (by decide)) _
  have hcode : code.toNat < 2 ^ 16 := code.isLt
  rw [ResponseHeader.parse, if_neg hnil]
  simp only [hfirst, hversion, hstatus]
  rw [getAsUnsigned_toString10 hcode (by omega)]
  have hvalid : validateHttpVersion (ascii "HTTP/1.1") = true := by decide
  simp only [hvalid, Bool.not_true, Bool.false_eq_true, if_false,
    (phrase_spec code).2, parseFields_headerText h]
  rfl

theorem splitHeader_responseText (h : ∀ field ∈ fields, IsField field) :
    V1.splitHeader (responseText code fields) =
      some (responseText code fields, []) := by
  have hsplit := splitHeader_headerText (@isLine_response code fields h) []
  rw [List.append_nil] at hsplit
  exact hsplit

theorem length_responseText (code : Status) (fields : List Field) :
    10 ≤ (responseText code fields).length := by
  have hversion : (ascii "HTTP/1.1 ").length = 9 := by decide
  rw [responseText, headerText_cons, statusLine]
  simp only [List.length_append, hversion, eol_eq, List.length_cons]
  omega

theorem foldl_toString16 (n : Nat) :
    (toString16 n).foldl (fun x c => x * 16 + asciiToInt 16 c) 0 = n := by
  obtain ⟨d, ds, htext, hlt, -, hval⟩ :=
    numberText_eq_map (by decide : 1 < 16) n
  have hfold : ∀ (es : List Nat) (x : Nat), (∀ e ∈ es, e < 16) →
      (es.map digitByte).foldl (fun x c => x * 16 + asciiToInt 16 c) x =
        es.foldl (fun x e => x * 16 + e) x := by
    intro es
    induction es with
    | nil => exact fun _ _ => rfl
    | cons e es ih =>
      intro x hes
      obtain ⟨he, hes⟩ := List.forall_mem_cons.mp hes
      rw [List.map_cons, List.foldl_cons, List.foldl_cons,
        asciiToInt_digitByte (.inr rfl) he, ih _ hes]
  rw [toString16, htext, hfold _ _ hlt, hval]

theorem digits_toString16 (n : Nat) :
    (toString16 n).all (isDigit 16) = true := by
  rw [List.all_eq_true]
  intro c hc
  obtain ⟨d, hd, rfl⟩ := mem_numberText (by decide) hc
  exact isDigit_digitByte (.inr rfl) hd

theorem not_mem_digits {c : Byte} {digits : List Byte}
    (h : digits.all (isDigit 16) = true) (hc : isDigit 16 c = false) :
    c ∉ digits := fun hmem =>
  absurd (List.all_eq_true.mp h c hmem) (by simp [hc])

variable {n i : Nat} {input more : List Byte}

theorem parseChunk_incomplete (h : search eol input = none) :
    V1.parseChunk input = .error (if 10 ≤ input.length then
      some ⟨.protocolError, "Chunk size part is too long."⟩ else none) := by
  simp only [V1.parseChunk, splitBy, h, if_true]
  split <;> rfl

theorem parseChunk_complete (h : search eol input = some i) :
    if (input.take i).all (isDigit 16) = true ∧ i ≤ 8 then
      V1.parseChunk input = .ok ((input.take i).foldl
        (fun x c => x * 16 + asciiToInt 16 c) 0, input.drop (i + 2))
    else ∃ reason, V1.parseChunk input = .error (some reason) := by
  have hle : i + 2 ≤ input.length := search_length_le h
  have hlen : (input.take i).length = i :=
    List.length_take_of_le (by omega)
  have hrest : input.length - (input.drop (i + 2)).length = i + 2 := by
    rw [List.length_drop]
    omega
  have hlonger : i ≠ input.length := by omega
  simp only [V1.parseChunk, splitBy, h, hlen, hlonger, if_false]
  by_cases hdigits : (input.take i).all (isDigit 16) = true
  · simp only [not_mem_digits hdigits (by decide : isDigit 16 59#8 = false),
      hdigits, true_and, if_false, Bool.not_true, Bool.false_eq_true]
    by_cases hsmall : i ≤ 8
    · rw [if_pos hsmall, if_neg (by omega)]
      exact congrArg (fun k => Except.ok (_, input.drop k)) hrest
    · rw [if_neg hsmall, if_pos (by omega)]
      exact ⟨_, rfl⟩
  · rw [if_neg (fun h => hdigits h.1)]
    simp only [hdigits, Bool.not_false, if_true]
    split
    · exact ⟨_, rfl⟩
    · exact ⟨_, rfl⟩

theorem search_size (n : Nat) (more : List Byte) :
    search eol (toString16 n ++ (eol ++ more)) = some (toString16 n).length :=
  search_eol (not_mem_digits (digits_toString16 n) (by decide)) more

section

variable (hin : input <+: toString16 n ++ (eol ++ more))
include hin

theorem parseChunk_short (hn : n < 16 ^ 8)
    (hshort : input.length < (toString16 n).length + 2) :
    V1.parseChunk input = .error none := by
  have hlen : (toString16 n).length ≤ 8 :=
    (length_numberText_le_iff (by decide) (by decide)).mpr hn
  rw [parseChunk_incomplete (search_eq_none (search_size n more) hin hshort),
    if_neg (by omega)]

theorem parseChunk_size (hlong : (toString16 n).length + 2 ≤ input.length) :
    if n < 16 ^ 8 then
      V1.parseChunk input = .ok (n, input.drop ((toString16 n).length + 2))
    else ∃ reason, V1.parseChunk input = .error (some reason) := by
  have hline := List.prefix_iff_eq_take.mp (List.prefix_of_prefix_length_le
    (List.prefix_append (toString16 n) (eol ++ more)) hin (by omega))
  have hparse := parseChunk_complete (search_eq_some (search_size n more) hin
    hlong)
  have hsmall : (toString16 n).length ≤ 8 ↔ n < 16 ^ 8 :=
    length_numberText_le_iff (by decide) (by decide)
  simpa only [← hline, digits_toString16, true_and, foldl_toString16,
    hsmall] using hparse

theorem parseChunk_large (hn : 16 ^ 8 ≤ n) :
    if input.length < 10 then V1.parseChunk input = .error none
    else ∃ reason, V1.parseChunk input = .error (some reason) := by
  by_cases hlong : (toString16 n).length + 2 ≤ input.length
  · have hlen : 8 < (toString16 n).length := Nat.lt_of_not_le fun hle =>
      absurd ((length_numberText_le_iff (by decide) (by decide)).mp hle)
        (by omega)
    have hparse := parseChunk_size hin hlong
    rw [if_neg (by omega)] at hparse
    rwa [if_neg (by omega)]
  · rw [parseChunk_incomplete (search_eq_none (search_size n more) hin
      (Nat.lt_of_not_le hlong))]
    split
    · rw [if_neg (by omega)]
    · rw [if_pos (by omega)]
      exact ⟨_, rfl⟩

end

/-- The size of a chunk in a line of its own. -/
theorem parseChunk_iff (input : List Byte) (h : ¬ eol <+: input) :
    (∀ n rest, V1.parseChunk input = .ok (n, rest) ↔
      ∃ digits, input = digits ++ (eol ++ rest) ∧ digits ≠ [] ∧
        digits.length ≤ 8 ∧ digits.all (isDigit 16) = true ∧
        Nat.ofDigits 16 (digits.reverse.map (asciiToInt 16)) = n) ∧
      (V1.parseChunk input = .error none ↔
        ¬ eol <:+: input ∧ input.length < 10) := by
  have hval : ∀ digits : List Byte,
      Nat.ofDigits 16 (digits.reverse.map (asciiToInt 16)) =
        digits.foldl (fun x c => x * 16 + asciiToInt 16 c) 0 := by
    intro digits
    simp [Nat.ofDigits_eq_foldr, Nat.add_comm, Nat.mul_comm, List.foldl_map]
  refine ⟨fun n rest => ⟨fun hok => ?_, ?_⟩, ?_⟩
  · cases hfound : search eol input with
    | none =>
      rw [parseChunk_incomplete hfound] at hok
      cases hok
    | some i =>
      have hparse := parseChunk_complete hfound
      obtain ⟨more, hmore⟩ := prefix_of_search hfound
      split_ifs at hparse with hdigits
      · rw [hparse, Except.ok.injEq, Prod.mk.injEq] at hok
        have hrest : more = rest := by
          rw [← hok.2, ← List.drop_drop, ← hmore]
          rfl
        refine ⟨input.take i, ?_, ?_, ?_, hdigits.1, (hval _).trans hok.1⟩
        · rw [← hrest, hmore, List.take_append_drop]
        · intro hnil
          rw [← List.take_append_drop i input, hnil, ← hmore] at h
          exact h (List.prefix_append eol more)
        · exact (List.length_take_le i input).trans hdigits.2
      · obtain ⟨reason, hreason⟩ := hparse
        rw [hreason] at hok
        cases hok
  · rintro ⟨digits, rfl, -, hsize, hdigits, rfl⟩
    have hparse := parseChunk_complete
      (search_eol (not_mem_digits hdigits (by decide)) rest)
    rw [List.take_left, if_pos ⟨hdigits, hsize⟩, ← List.drop_drop,
      List.drop_left] at hparse
    rw [hparse, hval]
    rfl
  · rw [← search_none_iff]
    cases hfound : search eol input with
    | none => simp [parseChunk_incomplete hfound]
    | some i =>
      have hparse := parseChunk_complete hfound
      split at hparse
      · simp [hparse]
      · obtain ⟨reason, hreason⟩ := hparse
        simp [hreason]

theorem parseChunk_iff_hex :
    V1.parseChunk (ascii "1f\r\nabc") = .ok (31, ascii "abc") :=
  ((parseChunk_iff (ascii "1f\r\nabc") (by decide)).1 31 (ascii "abc")).mpr
    ⟨ascii "1f", by decide⟩

/-- The size is only read once its line is complete, and a line without any
digit is a size. -/
theorem parseChunk_no_digits :
    V1.parseChunk (ascii "xyz") = .error none ∧
      V1.parseChunk (ascii "\r\nabc") = .ok (0, ascii "abc") := by
  decide

end ActorFramework.Net.Http

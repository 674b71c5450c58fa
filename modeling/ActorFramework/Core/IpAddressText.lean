import ActorFramework.Core.IpAddress

/-!
# The text of an IP address

Each IP address is read back from its text.  The groups before the two colons
are read from the left, the groups after them are rotated in from the right, and
what lies between them is zero.
-/

namespace ActorFramework.Core.Ipv6Address

open Foundation List ActorFramework.Core.Parser
open Scanner

variable {d : Nat} {ds : List Nat} {suffix pre : List Byte}
  {chunks xs : List Chunk} {x : Ipv6Address}

theorem isDigit_hexChar (h : d < 16) : isDigit 16 (hexChar d) = true := by
  have hall : ∀ d < 16, isDigit 16 (hexChar d) = true := by decide
  exact hall d h

theorem asciiToInt_hexChar (h : d < 16) : asciiToInt 16 (hexChar d) = d := by
  have hall : ∀ d < 16, asciiToInt 16 (hexChar d) = d := by decide
  exact hall d h

def chunkValue (chunk : Chunk) : Nat := chunk.1.toNat * 256 + chunk.2.toNat

def nibbles (chunk : Chunk) : List Nat :=
  [chunk.1.toNat / 16, chunk.1.toNat % 16, chunk.2.toNat / 16,
    chunk.2.toNat % 16]

theorem foldl_nibbles (chunk : Chunk) :
    (nibbles chunk).foldl (fun x d => x * 16 + d) 0 = chunkValue chunk := by
  simp [nibbles, chunkValue]
  omega

theorem foldl_dropWhile_zero (ds : List Nat) :
    (ds.dropWhile (· == 0)).foldl (fun x d => x * 16 + d) 0 =
      ds.foldl (fun x d => x * 16 + d) 0 := by
  induction ds with
  | nil => rfl
  | cons d ds ih =>
    rw [dropWhile_cons]
    split_ifs with hzero
    · rw [ih, foldl_cons, beq_iff_eq.mp hzero]
    · rfl

theorem dropWhile_map_hexChar (h : ∀ d ∈ ds, d < 16) :
    (ds.map hexChar).dropWhile (· == 48#8) =
      (ds.dropWhile (· == 0)).map hexChar := by
  have hzero : ∀ d < 16, (hexChar d == 48#8) = (d == 0) := by decide
  induction ds with
  | nil => rfl
  | cons d ds ih =>
    obtain ⟨hd, hds⟩ := forall_mem_cons.mp h
    rw [map_cons, dropWhile_cons, dropWhile_cons, hzero d hd]
    split
    · exact ih hds
    · rfl

theorem nibbles_lt (chunk : Chunk) : ∀ d ∈ nibbles chunk, d < 16 := by
  simp only [nibbles, forall_mem_cons]
  refine ⟨by omega, by omega, by omega, by omega, by simp⟩

theorem appendV6Hex_eq (chunk : Chunk) :
    ∃ d ds, appendV6Hex chunk = (d :: ds).map hexChar ∧
      (∀ e ∈ d :: ds, e < 16) ∧ (d :: ds).length ≤ 4 ∧
      (d :: ds).foldl (fun x e => x * 16 + e) 0 = chunkValue chunk := by
  have hbuf : appendV6Hex chunk =
      if ((nibbles chunk).map hexChar).dropWhile (· == 48#8) = [] then [48#8]
      else ((nibbles chunk).map hexChar).dropWhile (· == 48#8) := rfl
  have hval := foldl_dropWhile_zero (nibbles chunk)
  rw [foldl_nibbles] at hval
  rw [hbuf, dropWhile_map_hexChar (nibbles_lt chunk)]
  have hsub := dropWhile_sublist (· == 0) (l := nibbles chunk)
  cases hds : (nibbles chunk).dropWhile (· == 0) with
  | nil =>
    rw [hds] at hval
    exact ⟨0, [], rfl, by simp, by simp, hval⟩
  | cons d ds =>
    rw [hds] at hval hsub
    refine ⟨d, ds, rfl, ?_, hsub.length_le, hval⟩
    exact fun e he => nibbles_lt chunk e (hsub.subset he)

theorem networkOrder_chunkValue (chunk : Chunk) :
    networkOrder (chunkValue chunk) = [chunk.1, chunk.2] := by
  have hhigh : ((chunkValue chunk : Nat) : Int) / 256 = chunk.1.toNat := by
    rw [chunkValue]
    omega
  have hlow : BitVec.ofInt 8 ((chunkValue chunk : Nat) : Int) = chunk.2 := by
    rw [BitVec.ofInt_natCast]
    apply BitVec.eq_of_toNat_eq
    rw [BitVec.toNat_ofNat, chunkValue]
    omega
  rw [networkOrder, hhigh, hlow, BitVec.ofInt_natCast, BitVec.ofNat_toNat,
    BitVec.setWidth_eq]

theorem le_foldl_hex (ds : List Nat) (x : Nat) :
    x ≤ ds.foldl (fun x d => x * 16 + d) x := by
  induction ds generalizing x with
  | nil => exact le_rfl
  | cons d ds ih =>
    have hle := ih (x * 16 + d)
    rw [foldl_cons]
    omega

theorem chunkValue_le (chunk : Chunk) : chunkValue chunk ≤ 65535 := by
  rw [chunkValue]
  omega

def NoHex (rest : List Byte) : Prop := isDigit 16 (rest.headD 0#8) = false

theorem h16Digits_append {x room : Nat} {rest : List Byte}
    (hds : ∀ d ∈ ds, d < 16) (hroom : ds.length ≤ room)
    (hmax : ds.foldl (fun x d => x * 16 + d) x ≤ 65535) (hrest : NoHex rest) :
    h16Digits room x (ds.map hexChar ++ rest) =
      .ok (networkOrder (ds.foldl (fun x d => x * 16 + d) x : Nat), rest) := by
  induction ds generalizing x room with
  | nil =>
    cases rest with
    | nil => cases room <;> rfl
    | cons c rest =>
      have hc : isDigit 16 c = false := hrest
      cases room with
      | zero => rfl
      | succ room => simp [h16Digits, hc]
  | cons d ds ih =>
    obtain ⟨hd, hlater⟩ := forall_mem_cons.mp hds
    have hle := le_foldl_hex ds (x * 16 + d)
    rw [foldl_cons] at hmax
    cases room with
    | zero => simp at hroom
    | succ room =>
      rw [map_cons, cons_append, h16Digits, isDigit_hexChar hd, if_pos rfl,
        addAscii_add (by decide) (asciiToInt_hexChar hd) (by push_cast; omega)]
      exact ih hlater (by simpa using hroom) hmax

theorem reads_h16 (chunk : Chunk) :
    Reads readIpv6H16 (appendV6Hex chunk) [chunk.1, chunk.2] NoHex := by
  obtain ⟨d, ds, htext, hds, hlen, hval⟩ := appendV6Hex_eq chunk
  rw [htext, map_cons]
  apply reads_fsmEpsilon (isDigit_hexChar (hds d mem_cons_self))
  intro rest hrest
  have hread := @h16Digits_append (d :: ds) 0 4 rest hds hlen
    (by rw [hval]; exact chunkValue_le chunk) hrest
  rw [hval, networkOrder_chunkValue] at hread
  exact hread

def NoGroup (rest : List Byte) : Prop := NoHex rest ∧ rest.headD 0#8 ≠ 46#8

theorem readGroup_append {x : Nat} {dec : Option Int} {rest : List Byte}
    (hds : ∀ d ∈ ds, d < 16)
    (hmax : ds.foldl (fun x d => x * 16 + d) x ≤ 65535) (hrest : NoGroup rest) :
    readGroup x dec (ds.map hexChar ++ rest) =
      .ok (networkOrder (ds.foldl (fun x d => x * 16 + d) x : Nat), rest) := by
  induction ds generalizing x dec with
  | nil =>
    cases rest with
    | nil => rfl
    | cons c rest =>
      have hc : isDigit 16 c = false := hrest.1
      have hdot : c ≠ 46#8 := hrest.2
      cases dec <;> simp [readGroup, hc, hdot]
  | cons d ds ih =>
    obtain ⟨hd, hlater⟩ := forall_mem_cons.mp hds
    have hle := le_foldl_hex ds (x * 16 + d)
    rw [foldl_cons] at hmax
    have hadd := @Parser.addAscii_add _ 16 x 65535 d (by decide)
      (asciiToInt_hexChar hd) (by push_cast; omega)
    simp only [map_cons, cons_append, readGroup,
      isDigit_hexChar hd, if_true, hadd]
    exact ih hlater hmax

theorem reads_h16OrL32 (chunk : Chunk) :
    Reads readIpv6H16OrL32 (appendV6Hex chunk) [chunk.1, chunk.2] NoGroup := by
  obtain ⟨d, ds, htext, hds, -, hval⟩ := appendV6Hex_eq chunk
  rw [htext, map_cons]
  apply reads_fsmEpsilon (isDigit_hexChar (hds d mem_cons_self))
  intro rest hrest
  have hread := @readGroup_append (d :: ds) 0 (some 0) rest hds
    (by rw [hval]; exact chunkValue_le chunk) hrest
  rw [hval, networkOrder_chunkValue] at hread
  exact hread

def laterChunks (chunks : List Chunk) : List Byte :=
  chunks.flatMap fun chunk => 58#8 :: appendV6Hex chunk

theorem addChunks_cons (chunk : Chunk) (chunks : List Chunk) :
    addChunks (chunk :: chunks) = appendV6Hex chunk ++ laterChunks chunks := by
  induction chunks generalizing chunk with
  | nil => simp [addChunks, laterChunks]
  | cons next chunks ih =>
    have hnext := ih next
    simp only [addChunks, map_cons, intersperse_cons_cons,
      flatten_cons] at hnext ⊢
    rw [hnext]
    simp [laterChunks]

def bytesOf (chunks : List Chunk) : List Byte :=
  chunks.flatMap fun chunk => [chunk.1, chunk.2]

theorem length_bytesOf (chunks : List Chunk) :
    (bytesOf chunks).length = 2 * chunks.length := by
  induction chunks with
  | nil => rfl
  | cons chunk chunks ih =>
    simp only [bytesOf, flatMap_cons, length_append] at ih ⊢
    rw [ih]
    simp only [length_cons, length_nil]
    omega

theorem bytesOf_cons (chunk : Chunk) (chunks : List Chunk) :
    bytesOf (chunk :: chunks) = [chunk.1, chunk.2] ++ bytesOf chunks := rfl

theorem bytesOf_append (xs ys : List Chunk) :
    bytesOf (xs ++ ys) = bytesOf xs ++ bytesOf ys :=
  flatMap_append

theorem bytesOf_chunksOf : ∀ (n : Nat) (bytes : List Byte),
    bytes.length = 2 * n →
      bytesOf (chunksOf bytes) = bytes ∧ (chunksOf bytes).length = n
  | 0, [], _ => ⟨rfl, rfl⟩
  | n + 1, hi :: lo :: rest, h => by
    have hrest := bytesOf_chunksOf n rest (by simp at h; omega)
    rw [chunksOf, bytesOf_cons, hrest.1, length_cons, hrest.2]
    exact ⟨rfl, rfl⟩

theorem headD_appendV6Hex (chunk : Chunk) (rest : List Byte) :
    isDigit 16 ((appendV6Hex chunk ++ rest).headD 0#8) = true ∧
      (appendV6Hex chunk ++ rest).headD 0#8 ≠ 58#8 := by
  obtain ⟨d, ds, htext, hds, -⟩ := appendV6Hex_eq chunk
  have hall : ∀ d < 16, hexChar d ≠ 58#8 := by decide
  have hd := hds d mem_cons_self
  rw [htext, map_cons, cons_append, headD_cons]
  exact ⟨isDigit_hexChar hd, hall d hd⟩

section Prefix

variable {f : List Byte → Parser (List Byte × List Byte)} {pre rest : List Byte}
  {fuel : Nat}

theorem rdPrefixSep_chunk (chunk : Chunk) :
    rdPrefixSep f pre (58#8 :: (appendV6Hex chunk ++ rest)) =
      f pre (appendV6Hex chunk ++ rest) := by
  rw [rdPrefixSep, char_bind, current_bind,
    if_neg (headD_appendV6Hex chunk rest).2]

theorem rdPrefixSep_sep :
    rdPrefixSep f pre (58#8 :: 58#8 :: rest) = hasSep pre rest := rfl

theorem noHex_colon (rest : List Byte) : NoHex (58#8 :: rest) :=
  (by decide : isDigit 16 58#8 = false)

theorem rdPrefix_chunk {chunk : Chunk} (hpre : pre.length ≤ 10)
    (hrest : NoHex rest) :
    rdPrefix (fuel + 1) pre (appendV6Hex chunk ++ rest) =
      rdPrefixSep (rdPrefix fuel) (pre ++ [chunk.1, chunk.2]) rest := by
  have hmany : 4 < 16 - pre.length := by omega
  rw [rdPrefix]
  simp only [hmany, if_true]
  rw [bind_of_eq (reads_h16 chunk rest hrest)]

theorem rdPrefixSep_chunks {chunks : List Chunk}
    (hpre : pre.length + 2 * chunks.length ≤ 12)
    (hfuel : chunks.length ≤ fuel) :
    rdPrefixSep (rdPrefix fuel) pre (laterChunks chunks ++ 58#8 :: rest) =
      rdPrefixSep (rdPrefix (fuel - chunks.length)) (pre ++ bytesOf chunks)
        (58#8 :: rest) := by
  induction chunks generalizing pre fuel with
  | nil => simp [laterChunks, bytesOf]
  | cons chunk chunks ih =>
    have htext : laterChunks (chunk :: chunks) ++ 58#8 :: rest =
        58#8 :: (appendV6Hex chunk ++
          (laterChunks chunks ++ 58#8 :: rest)) := by
      simp [laterChunks]
    have hnext : NoHex (laterChunks chunks ++ 58#8 :: rest) := by
      cases chunks <;> exact noHex_colon _
    rw [length_cons] at hpre hfuel
    obtain ⟨fuel, rfl⟩ := Nat.exists_eq_add_of_lt hfuel
    rw [htext, rdPrefixSep_chunk, rdPrefix_chunk (by omega) hnext,
      ih (by simp; omega) (by omega), bytesOf_cons, append_assoc,
      length_cons, Nat.add_sub_add_right]

end Prefix

theorem pushSuffix_chunk (h : suffix.length = 16) (chunk : Chunk) :
    pushSuffix suffix [chunk.1, chunk.2] =
      suffix.drop 2 ++ [chunk.1, chunk.2] := by
  have hlen : ([chunk.1, chunk.2] ++ suffix.drop 2).length = 16 := by
    simp [h]
  simp only [pushSuffix, List.rotateLeft, length_cons, length_nil,
    Nat.zero_add, Nat.reduceAdd, hlen]
  rfl

def NoAddress (rest : List Byte) : Prop :=
  NoGroup rest ∧ rest.headD 0#8 ≠ 58#8

theorem rdSuffix_chunks {chunk : Chunk} {rest : List Byte} {filled fuel : Nat}
    (hsuffix : suffix.length = 16)
    (hfilled : filled + 2 * (chunks.length + 1) ≤ 14)
    (hfuel : chunks.length < fuel) (hrest : NoAddress rest) :
    rdSuffix fuel filled suffix
        (appendV6Hex chunk ++ (laterChunks chunks ++ rest)) =
      .ok (suffix.drop (2 * (chunks.length + 1)) ++ bytesOf (chunk :: chunks),
        rest) := by
  induction chunks generalizing chunk suffix filled fuel with
  | nil =>
    obtain ⟨fuel, rfl⟩ := Nat.exists_eq_add_of_lt hfuel
    have hmany : 4 ≤ 16 - filled := by simp at hfilled; omega
    simp only [rdSuffix, hmany, if_true]
    rw [show laterChunks [] ++ rest = rest from rfl,
      bind_of_eq (reads_h16OrL32 chunk rest hrest.1), current_bind,
      if_neg hrest.2, pushSuffix_chunk hsuffix]
    rfl
  | cons next chunks ih =>
    obtain ⟨fuel, rfl⟩ := Nat.exists_eq_add_of_lt hfuel
    rw [length_cons] at hfilled
    have hmany : 4 ≤ 16 - filled := by omega
    have htext : laterChunks (next :: chunks) ++ rest =
        58#8 :: (appendV6Hex next ++ (laterChunks chunks ++ rest)) := by
      simp [laterChunks]
    have hgroup : NoGroup (58#8 :: (appendV6Hex next ++
        (laterChunks chunks ++ rest))) :=
      ⟨noHex_colon _, (by decide : 58#8 ≠ 46#8)⟩
    simp only [rdSuffix, hmany, if_true]
    rw [htext, bind_of_eq (reads_h16OrL32 chunk _ hgroup),
      current_bind, headD_cons, if_pos rfl, next_bind,
      pushSuffix_chunk hsuffix, ih (by simp [hsuffix]) (by simp; omega)
        (by simp; omega)]
    have hdrop : (suffix.drop 2 ++ [chunk.1, chunk.2]).drop
        (2 * (chunks.length + 1)) =
          suffix.drop (2 + 2 * (chunks.length + 1)) ++
            [chunk.1, chunk.2] := by
      rw [drop_append_of_le_length (by simp; omega), drop_drop]
    rw [hdrop, append_assoc, ← bytesOf_cons, length_cons]
    congr 4
    omega

theorem hasSep_chunks {rest : List Byte}
    (hpre : pre.length + 2 * chunks.length ≤ 14) (hrest : NoAddress rest) :
    hasSep pre (addChunks chunks ++ rest) =
      .ok ((pre, zeros.drop (2 * chunks.length) ++ bytesOf chunks), rest) := by
  cases chunks with
  | nil =>
    have hhex : ¬ isDigit 16 (rest.headD 0#8) = true := by
      rw [hrest.1.1]
      decide
    rw [hasSep, show addChunks [] ++ rest = rest from rfl,
      current_bind, if_neg hhex]
    rfl
  | cons chunk chunks =>
    rw [addChunks_cons, append_assoc, hasSep, current_bind,
      if_pos (headD_appendV6Hex chunk _).1,
      bind_of_eq (rdSuffix_chunks rfl hpre (by simp at hpre; omega) hrest)]
    rfl

theorem readParts_chunks {first sixth last : Chunk}
    (hchunks : chunks.length = 5) :
    Reads readParts (addChunks (first :: (chunks ++ [sixth, last])))
      (bytesOf (first :: (chunks ++ [sixth, last])), zeros) NoAddress := by
  intro rest hrest
  have htext : addChunks (first :: (chunks ++ [sixth, last])) ++ rest =
      appendV6Hex first ++ (laterChunks chunks ++ 58#8 :: (appendV6Hex sixth ++
        58#8 :: (appendV6Hex last ++ rest))) := by
    simp [addChunks_cons, laterChunks]
  have hgroup : ∀ rest, NoGroup (58#8 :: rest) := fun rest =>
    ⟨noHex_colon rest, (by decide : 58#8 ≠ 46#8)⟩
  have hcolon : ∀ rest, NoGroup (laterChunks chunks ++ 58#8 :: rest) := by
    intro rest
    cases chunks <;> exact hgroup _
  have hsixth : ([first.1, first.2] ++ bytesOf chunks).length = 12 := by
    simp [length_bytesOf, hchunks]
  rw [htext, readParts, current_bind, if_neg (headD_appendV6Hex _ _).2,
    bind_of_eq (reads_h16OrL32 first _ (hcolon _)), if_neg (by simp),
    rdPrefixSep_chunks (by simp [hchunks]) (by omega), hchunks,
    rdPrefixSep_chunk, rdPrefix]
  simp only [hsixth, length_append]
  rw [if_neg (by decide), if_pos (by decide),
    bind_of_eq (reads_h16OrL32 sixth _ (hgroup _)), if_neg (by simp),
    rdPrefixSep_chunk, rdPrefix]
  simp only [hsixth, length_append, length_cons, length_nil]
  rw [if_neg (by decide), if_neg (by decide), if_pos (by decide),
    bind_of_eq (reads_h16 last rest hrest.1.1)]
  simp [bytesOf]
  rfl

theorem readParts_gap {before behind : List Chunk}
    (h : before.length + behind.length ≤ 6) :
    Reads readParts (addChunks before ++ ascii "::" ++ addChunks behind)
      (bytesOf before, zeros.drop (2 * behind.length) ++ bytesOf behind)
      NoAddress := by
  intro rest hrest
  have hsep := @hasSep_chunks (bytesOf before) behind rest
    (by rw [length_bytesOf]; omega) hrest
  rw [append_assoc, append_assoc]
  cases before with
  | nil => exact hsep
  | cons chunk chunks =>
    rw [length_cons] at h
    have hcolon : NoGroup (laterChunks chunks ++ 58#8 :: 58#8 ::
        (addChunks behind ++ rest)) := by
      cases chunks <;> exact ⟨noHex_colon _, (by decide : 58#8 ≠ 46#8)⟩
    rw [addChunks_cons, append_assoc, readParts, current_bind,
      if_neg (headD_appendV6Hex _ _).2]
    change (readIpv6H16OrL32 >>= _) (appendV6Hex chunk ++ (laterChunks chunks ++
      58#8 :: 58#8 :: (addChunks behind ++ rest))) = _
    rw [bind_of_eq (reads_h16OrL32 chunk _ hcolon), if_neg (by simp),
      rdPrefixSep_chunks (by simp; omega) (by omega), rdPrefixSep_sep]
    exact hsep

def Streak (xs : List Chunk) (range : Nat × Nat) : Prop :=
  range.1 + 2 ≤ range.2 ∧ range.2 ≤ xs.length ∧
    ∀ i, range.1 ≤ i → i < range.2 → xs[i]? = some (0, 0)

theorem adjacentFind_spec (p : Chunk → Chunk → Bool) (xs : List Chunk) :
    adjacentFind p xs = xs.length ∨
      ∃ x y, p x y = true ∧ xs[adjacentFind p xs]? = some x ∧
        xs[adjacentFind p xs + 1]? = some y := by
  fun_induction adjacentFind p xs with
  | case1 x y rest h => exact .inr ⟨x, y, h, rfl, rfl⟩
  | case2 x y rest h ih => simpa using ih
  | case3 x => exact .inl rfl
  | case4 => exact .inl rfl

theorem streak_findIdx {first : Nat} (hx : xs[first]? = some (0, 0))
    (hy : xs[first + 1]? = some (0, 0)) :
    Streak xs (first, first + 2 +
      (xs.drop (first + 2)).findIdx fun x => x != (0, 0)) := by
  have hfirst := (List.getElem?_eq_some_iff.mp hy).1
  have hle : first + 2 + (xs.drop (first + 2)).findIdx (fun x => x != (0, 0)) ≤
      xs.length := by
    have hdrop := @List.findIdx_le_length _ (fun x => x != (0, 0))
      (xs.drop (first + 2))
    rw [length_drop] at hdrop
    omega
  refine ⟨Nat.le_add_right _ _, hle, fun i hi hlt => ?_⟩
  obtain rfl | rfl | hmore : i = first ∨ i = first + 1 ∨ first + 2 ≤ i := by
    omega
  · exact hx
  · exact hy
  · obtain ⟨i, rfl⟩ := Nat.exists_eq_add_of_le hmore
    have hnot := @List.not_of_lt_findIdx _ (fun x => x != (0, 0))
      (xs.drop (first + 2)) i (by simpa using hlt)
    rw [getElem_drop] at hnot
    rw [getElem?_eq_getElem (Nat.lt_of_lt_of_le hlt hle)]
    simpa using hnot

theorem longestStreak_spec (fuel : Nat) (xs : List Chunk) :
    longestStreak fuel xs = (xs.length, xs.length) ∨
      Streak xs (longestStreak fuel xs) := by
  induction fuel generalizing xs with
  | zero => exact .inl rfl
  | succ fuel ih =>
    simp only [longestStreak]
    obtain hend | ⟨x, y, hxy, hx, hy⟩ := adjacentFind_spec
      (fun x y => x == (0, 0) && y == (0, 0)) xs
    · exact .inl (if_pos hend)
    · obtain ⟨rfl, rfl⟩ : x = (0, 0) ∧ y = (0, 0) := by simpa using hxy
      have hrange := streak_findIdx hx hy
      have hfirst := (List.getElem?_eq_some_iff.mp hx).1
      generalize adjacentFind (fun x y => x == (0, 0) && y == (0, 0)) xs =
        first at hfirst hrange ⊢
      generalize first + 2 +
        (xs.drop (first + 2)).findIdx (fun x => x != (0, 0)) =
          second at hrange ⊢
      rw [if_neg (Nat.ne_of_lt hfirst)]
      split_ifs with hend hlonger
      · exact .inr hrange
      · exact .inr hrange
      · obtain hnone | ⟨hlong, hlast, hnext⟩ := ih (xs.drop second)
        · rw [hnone] at hlonger
          simp at hlonger
        · rw [length_drop] at hlast
          refine .inr ⟨by simp; omega, by simp; omega, fun i hi hlt => ?_⟩
          obtain ⟨i, rfl⟩ := Nat.exists_eq_add_of_le (Nat.le_of_add_right_le hi)
          rw [← getElem?_drop]
          exact hnext i (by simpa using hi) (by simpa using hlt)

theorem Streak.eq_append {range : Nat × Nat} (h : Streak xs range) :
    xs = xs.take range.1 ++ (List.replicate (range.2 - range.1) (0, 0) ++
      xs.drop range.2) := by
  obtain ⟨hlong, hlast, hzero⟩ := h
  have hmid : (xs.drop range.1).take (range.2 - range.1) =
      List.replicate (range.2 - range.1) (0, 0) := by
    rw [eq_replicate_iff]
    refine ⟨by simp; omega, fun x hx => ?_⟩
    obtain ⟨i, hi, rfl⟩ := mem_iff_getElem.mp hx
    have hget := hzero (range.1 + i) (by omega) (by simp at hi; omega)
    simpa using (List.getElem?_eq_some_iff.mp hget).2
  have hdrop : xs.drop range.2 =
      (xs.drop range.1).drop (range.2 - range.1) := by
    rw [drop_drop]
    congr 1
    omega
  rw [← hmid, hdrop, take_append_drop, take_append_drop]

/-- The octet is at least the square root of what it is as a group. -/
theorem readGroup_octet {x hex : Nat} {rest : List Byte}
    (hds : ∀ d ∈ ds, d < 10) (hmax : ds.foldl (fun x d => x * 10 + d) x ≤ 255)
    (hhex : hex ≤ x * x) :
    readGroup hex (some x) (ds.map digitByte ++ 46#8 :: rest) =
      readOctets (BitVec.ofNat 8 (ds.foldl (fun x d => x * 10 + d) x))
        rest := by
  induction ds generalizing x hex with
  | nil => rfl
  | cons d ds ih =>
    obtain ⟨hd, hlater⟩ := forall_mem_cons.mp hds
    rw [foldl_cons] at hmax
    have hle := le_foldl_digits ds (x * 10 + d)
    have hsquare : hex * 16 + d ≤ (x * 10 + d) * (x * 10 + d) := by
      nlinarith only [hhex, Nat.le_mul_self d, Nat.zero_le (x * d)]
    have hbound : hex * 16 + d ≤ 255 * 255 :=
      hsquare.trans (Nat.mul_self_le_mul_self (hle.trans hmax))
    have hgroup := @Parser.addAscii_add _ 16 hex 65535 d (by decide)
      (asciiToInt_digitByte (.inr rfl) (by omega)) (by push_cast; omega)
    have hoctet := @Parser.addAscii_add _ 10 x 255 d (by decide)
      (asciiToInt_digitByte (.inl (by decide)) hd) (by push_cast; omega)
    simp only [map_cons, cons_append, readGroup, hgroup,
      isDigit_digitByte (.inr rfl) (by omega : d < 16), if_true,
      isDigit_digitByte (.inl (Nat.le_refl 10)) hd, Option.bind_some, hoctet]
    exact ih hlater hmax hsquare

theorem octet_eq_map (octet : Byte) :
    ∃ d ds, toString10 octet.toNat = (d :: ds).map digitByte ∧
      (∀ e ∈ d :: ds, e < 10) ∧
      (d :: ds).foldl (fun x e => x * 10 + e) 0 = octet.toNat := by
  obtain ⟨d, ds, htext, hlt, -, hval⟩ :=
    numberText_eq_map (by decide : 1 < 10) octet.toNat
  exact ⟨d, ds, htext, hlt, hval⟩

def NoDecimal (rest : List Byte) : Prop := isDigit 10 (rest.headD 0#8) = false

theorem reads_octetDigits (octet : Byte) :
    Reads (Parser.startDigits (Parser.addAscii 255) 10)
      (toString10 octet.toNat) octet.toNat NoDecimal ∧
    Reads (Parser.digits (Parser.addAscii 255) 10 0)
      (toString10 octet.toNat) octet.toNat NoDecimal := by
  obtain ⟨d, ds, htext, hds, hval⟩ := octet_eq_map octet
  have hread : Reads (Parser.digits (Parser.addAscii 255) 10 0)
      (toString10 octet.toNat) octet.toNat NoDecimal := by
    intro rest hrest
    have hdigits := @Parser.digits_append rest 0 255 (d :: ds) hds
      (by rw [hval]; omega) hrest
    rw [hval, ← htext] at hdigits
    exact hdigits
  refine ⟨?_, hread⟩
  rw [htext, map_cons] at hread ⊢
  exact reads_fsmEpsilon
    (isDigit_digitByte (.inl (by decide)) (hds d mem_cons_self)) hread

theorem reads_octet (octet : Byte) (after : List Byte → Prop) :
    Reads readOctet (toString10 octet.toNat ++ [46#8]) octet after := by
  have hdot : ∀ rest, NoDecimal ([46#8] ++ rest) := fun rest =>
    (by decide : isDigit 10 46#8 = false)
  refine (reads_octetDigits octet).1.bind ?_ fun rest _ => hdot rest
  rw [show BitVec.ofInt 8 octet.toNat = octet by simp]
  exact (reads_char 46#8 after).finish (Scanner.reads_pure octet after)

theorem reads_v4 (addr : Ipv4Address) :
    Reads readIpv6H16OrL32 addr.toString addr.bytes NoDecimal := by
  intro rest hrest
  obtain ⟨bytes, hsize⟩ := addr
  obtain ⟨a, bytes, rfl⟩ := exists_cons_of_length_eq_add_one hsize
  obtain ⟨b, c, d, rfl⟩ := length_eq_three.mp (Nat.succ.inj hsize)
  obtain ⟨da, as, ha, hda, hva⟩ := octet_eq_map a
  have htext : Ipv4Address.toString ⟨[a, b, c, d], hsize⟩ ++ rest =
      (da :: as).map digitByte ++ 46#8 :: ((toString10 b.toNat ++ [46#8]) ++
        ((toString10 c.toNat ++ [46#8]) ++ (toString10 d.toNat ++ rest))) := by
    simp [Ipv4Address.toString, ← ha]
  have hfirst := fun rest => @readGroup_octet (da :: as) 0 0 rest hda
    (by rw [hva]; omega) (Nat.le_refl 0)
  rw [htext, readIpv6H16OrL32, Parser.fsmEpsilon, Parser.current_bind,
    map_cons, cons_append, headD_cons,
    if_pos (isDigit_digitByte (.inr rfl)
      (Nat.lt_of_lt_of_le (hda da mem_cons_self) (by decide)))]
  refine (hfirst _).trans ?_
  rw [hva, BitVec.ofNat_toNat, BitVec.setWidth_eq, readOctets,
    bind_of_eq (reads_octet b (fun _ => True) _ trivial),
    bind_of_eq (reads_octet c (fun _ => True) _ trivial),
    bind_of_eq ((reads_octetDigits d).2 rest hrest),
    show BitVec.ofInt 8 d.toNat = d by simp]
  rfl

theorem zipWith_or (pre suffix : List Byte) (gap : Nat) :
    List.zipWith (· ||| ·)
        (pre ++ List.replicate (gap + suffix.length) 0#8)
        (List.replicate (pre.length + gap) 0#8 ++ suffix) =
      pre ++ (List.replicate gap 0#8 ++ suffix) := by
  induction pre with
  | nil =>
    induction gap with
    | zero =>
      induction suffix with
      | nil => rfl
      | cons b suffix ih => simpa [replicate_succ] using ih
    | succ gap ih =>
      simpa [Nat.succ_add, replicate_succ] using ih
  | cons b pre ih =>
    simpa [Nat.succ_add, replicate_succ] using ih

theorem combine_eq {gap : Nat}
    (hx : x.bytes = pre ++ (List.replicate gap 0#8 ++ suffix)) :
    combine (pre, zeros.drop suffix.length ++ suffix) = x := by
  have hsize := x.size
  rw [hx] at hsize
  simp only [length_append, length_replicate] at hsize
  have hpre : array pre = pre ++ List.replicate (gap + suffix.length) 0#8 := by
    rw [array, zeros, take_append, take_of_length_le (by omega), take_replicate]
    congr 2
    omega
  have hsuffix : array (zeros.drop suffix.length ++ suffix) =
      List.replicate (pre.length + gap) 0#8 ++ suffix := by
    rw [array, zeros, drop_replicate, take_left' (by simp; omega)]
    congr 2
    omega
  rw [combine, Ipv6Address.mk.injEq, hpre, hsuffix, zipWith_or, hx]

theorem bytesOf_zeros (n : Nat) :
    bytesOf (List.replicate n (0, 0)) = List.replicate (2 * n) 0#8 := by
  induction n with
  | zero => rfl
  | succ n ih =>
    rw [replicate_succ, bytesOf_cons, ih]
    rfl

theorem ofV4_embeddedV4 (h : x.embedsV4 = true) : ofV4 x.embeddedV4 = x := by
  rw [embedsV4, decide_eq_true_eq] at h
  simp [ofV4, embeddedV4, ← h]

theorem readParts_v4 (addr : Ipv4Address) :
    Reads readParts addr.toString (v4Prefix ++ addr.bytes, zeros)
      NoAddress := by
  intro rest hrest
  have hdigit : isDigit 10 (rest.headD 0#8) = false := by
    have hhex : isDigit 16 (rest.headD 0#8) = false := hrest.1.1
    simp only [isDigit, decide_eq_false_iff_not] at hhex ⊢
    omega
  have hread := reads_v4 addr rest hdigit
  have hcolon : (addr.toString ++ rest).headD 0#8 ≠ 58#8 := by
    intro hcolon
    rw [readIpv6H16OrL32, fsmEpsilon, current_bind, hcolon] at hread
    cases hread
  rw [readParts, current_bind, if_neg hcolon, bind_of_eq hread,
    if_pos addr.size]
  rfl

theorem combine_bytes (x : Ipv6Address) : combine (x.bytes, zeros) = x :=
  @combine_eq [] x.bytes x 0 (by simp)

theorem reads_toString (x : Ipv6Address) :
    Reads readIpv6Address x.toString x NoAddress := by
  obtain ⟨hbytes, hlen⟩ := bytesOf_chunksOf 8 x.bytes x.size
  have hfinish : ∀ {text parts}, Reads readParts text parts NoAddress →
      combine parts = x → Reads readIpv6Address text x NoAddress := by
    intro text parts hread hcombine
    exact hcombine ▸ hread.finish (Scanner.reads_pure _ _)
  simp only [toString]
  split_ifs with hv4 hzero hnone
  · exact hfinish (readParts_v4 x.embeddedV4)
      ((combine_bytes (ofV4 x.embeddedV4)).trans (ofV4_embeddedV4 hv4))
  · have hx : x.bytes = List.replicate 16 0#8 :=
      eq_replicate_iff.mpr ⟨x.size, by simpa [zero] using hzero⟩
    exact hfinish (@readParts_gap [] [] (by simp))
      (@combine_eq [] [] x 16 (by simp [hx]))
  · obtain ⟨first, chunks, hchunks⟩ :=
      exists_cons_of_length_eq_add_one hlen
    rw [hchunks, length_cons] at hlen
    obtain ⟨sixth, last, hends⟩ := length_eq_two.mp
      (by simp; omega : (chunks.drop 5).length = 2)
    have hread := @readParts_chunks (chunks.take 5) first sixth last
      (by simp; omega)
    rw [← hends, take_append_drop, ← hchunks, hbytes] at hread
    exact hfinish hread (combine_bytes x)
  · have hsegments : x.octSegments.length = 8 := hlen
    obtain hend | hstreak := longestStreak_spec (x.octSegments.length + 1)
      x.octSegments
    · exact absurd (congrArg Prod.fst hend) hnone
    · generalize longestStreak (x.octSegments.length + 1) x.octSegments =
        range at hstreak ⊢
      have hx := congrArg bytesOf hstreak.eq_append
      rw [bytesOf_append, bytesOf_append, bytesOf_zeros] at hx
      obtain ⟨hlong, hlast, -⟩ := hstreak
      have hread := @readParts_gap (x.octSegments.take range.1)
        (x.octSegments.drop range.2) (by simp; omega)
      rw [← length_bytesOf] at hread
      exact hfinish hread (combine_eq (hbytes.symm.trans hx))

theorem parse_toString (x : Ipv6Address) : parse x.toString = .ok x := by
  apply complete_eq
  intro rest hrest
  subst hrest
  exact reads_toString x [] (by unfold NoAddress NoGroup NoHex; decide)

end ActorFramework.Core.Ipv6Address

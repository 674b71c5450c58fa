import ActorFramework.Core.BinaryFormat

/-!
# Reading the binary format back

Each reader takes the bytes of a value and nothing else, whatever follows them,
if the sizes of all sequences fit into 32 bits.
-/

namespace ActorFramework.Core

open Foundation List Serializer Reader Deserializer
open BitVec (ofNat eq_of_toNat_eq toNat_or toNat_ofNat toNat)

namespace Reader

variable {τ υ : Type}

def Reads (reader : Reader τ) (bytes : List Byte) (x : τ) : Prop :=
  ∀ rest, reader (bytes ++ rest) = some (x, rest)

theorem reads_pure (x : τ) : Reads (pure x) [] x := fun _ => rfl

variable {reader : Reader τ} {w k n i : Nat} {x : BitVec 32} {xs : List Bool}

theorem Reads.bind {next : τ → Reader υ} {bytes bytes' : List Byte} {x : τ}
    {y : υ} (h : Reads reader bytes x) (h' : Reads (next x) bytes' y) :
    Reads (reader >>= next) (bytes ++ bytes') y := by
  intro rest
  rw [append_assoc]
  change (reader (bytes ++ (bytes' ++ rest))).bind _ = _
  rw [h]
  exact h' rest

theorem Reads.map {bytes : List Byte} {x : τ} (h : Reads reader bytes x)
    (f : τ → υ) : Reads (reader >>= fun x => pure (f x)) bytes (f x) := by
  have hbind := @Reads.bind _ _ _ (fun x => pure (f x)) _ _ _ _ h
    (reads_pure (f x))
  rwa [append_nil] at hbind

theorem reads_byte (x : Byte) : Reads byte [x] x := fun _ => rfl

theorem reads_bytes (xs : List Byte) : Reads (bytes xs.length) xs xs := by
  intro rest
  rw [bytes, if_pos (by simp), take_left, drop_left]

theorem reads_tuple {item : Reader τ} {encode : τ → List Byte}
    {xs : List τ} (h : ∀ x ∈ xs, Reads item (encode x) x) :
    Reads (tuple item xs.length) (xs.flatMap encode) xs := by
  induction xs with
  | nil => exact reads_pure []
  | cons x xs ih =>
    have htail := ih fun y hy => h y (mem_cons_of_mem x hy)
    exact (h x mem_cons_self).bind (htail.map (x :: ·))

theorem shift_or {a d : Nat} (hd : d < 2 ^ 8) (h : a * 256 + d < 2 ^ w) :
    (ofNat w a <<< 8 ||| ofNat w d) =
      ofNat w (a * 256 + d) := by
  have hshift : a <<< 8 = a * 256 := Nat.shiftLeft_eq a 8
  have htoNat : ∀ {n : Nat}, n < 2 ^ w → (ofNat w n).toNat = n :=
    fun hn => Nat.mod_eq_of_lt hn
  have ha : a < 2 ^ w := by omega
  have hd' : d < 2 ^ w := by omega
  have hhigh : a <<< 8 < 2 ^ w := by omega
  apply eq_of_toNat_eq
  rw [toNat_or, BitVec.toNat_shiftLeft, htoNat ha, htoNat hd', htoNat h,
    Nat.mod_eq_of_lt hhigh, ← Nat.shiftLeft_add_eq_or_of_lt hd, hshift]

def ofDigits (w : Nat) (digits : List Byte) : BitVec w :=
  digits.foldl (fun x digit => x <<< 8 ||| digit.setWidth w) 0

theorem ofDigits_toBytes (w n k : Nat) (hk : 8 * k ≤ w) :
    ofDigits w (toBytes k n) = ofNat w (n % 256 ^ k) := by
  induction k generalizing n with
  | zero => simp [toBytes, ofDigits, Nat.mod_one]
  | succ k ih =>
    have hdigit : (ofNat 8 n).setWidth w = ofNat w (n % 256) := by
      apply eq_of_toNat_eq
      simp
    have hlow : n / 256 % 256 ^ k * 256 + n % 256 = n % 256 ^ (k + 1) := by
      rw [Nat.pow_succ', Nat.mod_mul]
      omega
    have hbound : n % 256 ^ (k + 1) < 2 ^ w := by
      have hpow : (256 : Nat) ^ (k + 1) = 2 ^ (8 * (k + 1)) := by
        rw [Nat.pow_mul]
      have hle : 2 ^ (8 * (k + 1)) ≤ 2 ^ w :=
        Nat.pow_le_pow_right (by decide) hk
      omega
    have hfold : ofDigits w (toBytes (k + 1) n) =
        ofDigits w (toBytes k (n / 256)) <<< 8 |||
          (ofNat 8 n).setWidth w := by
      simp [ofDigits, toBytes, foldl_append]
    have hsmall : n % 256 < 2 ^ 8 := Nat.mod_lt _ (by decide)
    rw [hfold, ih _ (by omega), hdigit, shift_or hsmall (hlow ▸ hbound), hlow]

theorem reads_int (hw : w = 8 * k) (x : BitVec w) :
    Reads (int w) (toBytes k x.toNat) x := by
  have hk : w / 8 = k := by omega
  have hbytes := reads_bytes (toBytes k x.toNat)
  rw [length_toBytes] at hbytes
  have hfold := ofDigits_toBytes w x.toNat k (by omega)
  have hlt : x.toNat < 256 ^ k := by
    have hpow : (256 : Nat) ^ k = 2 ^ w := by
      rw [hw, Nat.pow_mul]
    rw [hpow]
    exact x.isLt
  rw [Nat.mod_eq_of_lt hlt, BitVec.ofNat_toNat, BitVec.setWidth_eq] at hfold
  have hread := hbytes.map (ofDigits w)
  rw [hfold] at hread
  rw [int, hk]
  exact hread

theorem reads_integer (w : Width) (x : BitVec w.bits) :
    Reads (integer w) (intBytes w x) x := by
  cases w with
  | w8 => exact reads_byte x
  | w16 => exact reads_int (k := 2) rfl x
  | w32 => exact reads_int (k := 4) rfl x
  | w64 => exact reads_int (k := 8) rfl x

theorem and_low7 (hw : 8 ≤ w) (x : BitVec w) :
    (x &&& 0x7f#w).toNat = x.toNat % 128 := by
  have hmask : (0x7f#w).toNat = 2 ^ 7 - 1 := by
    have hle : 2 ^ 8 ≤ 2 ^ w := Nat.pow_le_pow_right (by decide) hw
    exact Nat.mod_eq_of_lt (by omega)
  rw [BitVec.toNat_and, hmask, Nat.and_two_pow_sub_one_eq_mod]

def sizeValue : Reader Nat
  | [] => none
  | low7 :: input =>
    if low7 &&& 0x80#8 = 0#8 then some (low7.toNat % 128, input)
    else (sizeValue input).map fun r => (low7.toNat % 128 + 128 * r.1, r.2)

theorem toNat_low7 (x : BitVec 32) :
    (x.setWidth 8).toNat % 128 = x.toNat % 128 := by
  rw [BitVec.toNat_setWidth]
  omega

theorem sizeValue_last (x : BitVec 32) (input : List Byte) :
    sizeValue ((x.setWidth 8 &&& 0x7f#8) :: input) =
      some (x.toNat % 128, input) := by
  have hdigit : ∀ y : Byte, y &&& 0x7f#8 &&& 0x80#8 = 0#8 ∧
      (y &&& 0x7f#8).toNat % 128 = y.toNat % 128 := by decide
  rw [sizeValue, if_pos (hdigit _).1, (hdigit _).2, toNat_low7]

theorem sizeValue_continued (x : BitVec 32) (input : List Byte) :
    sizeValue ((x.setWidth 8 &&& 0x7f#8 ||| 0x80#8) :: input) =
      (sizeValue input).map fun r => (x.toNat % 128 + 128 * r.1, r.2) := by
  have hdigit : ∀ y : Byte, (y &&& 0x7f#8 ||| 0x80#8) &&& 0x80#8 ≠ 0#8 ∧
      (y &&& 0x7f#8 ||| 0x80#8).toNat % 128 = y.toNat % 128 := by decide
  rw [sizeValue, if_neg (hdigit _).1, (hdigit _).2, toNat_low7]

theorem reads_sizeValue (room : Nat) (x : BitVec 32)
    (hroom : x.toNat < 128 ^ (room + 1)) :
    Reads sizeValue (Serializer.varbyte (room + 1) x) x.toNat := by
  intro rest
  rw [Serializer.varbyte]
  split
  · rename_i hgt
    replace hgt : 127 < x.toNat := hgt
    have hshift : (x >>> 7).toNat = x.toNat / 128 := by
      rw [BitVec.toNat_ushiftRight, Nat.shiftRight_eq_div_pow]
    cases room with
    | zero => omega
    | succ room =>
      have hrest : (x >>> 7).toNat < 128 ^ (room + 1) := by
        rw [hshift]
        exact Nat.div_lt_of_lt_mul (by rwa [← Nat.pow_succ'])
      rw [cons_append, sizeValue_continued, reads_sizeValue room _ hrest]
      simp [hshift, Nat.mod_add_div]
  · rename_i hle
    replace hle : ¬ 127 < x.toNat := hle
    rw [singleton_append, sizeValue_last, Nat.mod_eq_of_lt (by omega)]

theorem or_shiftLeft (n : Nat) {acc : Nat} (hacc : acc < 2 ^ (7 * n))
    (low7 : Byte) :
    ofNat 32 acc ||| (low7 &&& 0x7f#8).setWidth 32 <<< (7 * n) =
      ofNat 32 (acc + 2 ^ (7 * n) * (low7.toNat % 128)) := by
  have hlow : low7.toNat % 128 < 2 ^ 32 := by omega
  apply eq_of_toNat_eq
  rw [toNat_or, toNat_ofNat, toNat_ofNat, BitVec.toNat_shiftLeft,
    BitVec.toNat_setWidth, and_low7 (by decide), Nat.mod_eq_of_lt hlow,
    Nat.shiftLeft_eq, ← Nat.or_mod_two_pow, Nat.or_comm, Nat.mul_comm,
    ← Nat.two_pow_add_eq_or_of_lt hacc, Nat.add_comm]

theorem varbyte_eq (n : Nat) {acc : Nat} (hacc : acc < 2 ^ (7 * n))
    (input : List Byte) :
    varbyte n (ofNat 32 acc) input =
      (sizeValue input).map fun r =>
        (ofNat 32 (acc + 2 ^ (7 * n) * r.1), r.2) := by
  induction input generalizing n acc with
  | nil => rfl
  | cons low7 input ih =>
    rw [varbyte, sizeValue, or_shiftLeft n hacc]
    split
    · rfl
    · have hpow : 2 ^ (7 * (n + 1)) = 2 ^ (7 * n) * 128 := Nat.pow_add 2 _ 7
      have hdigit : low7.toNat % 128 ≤ 127 := by omega
      have hle := Nat.mul_le_mul_left (2 ^ (7 * n)) hdigit
      rw [ih (n + 1) (by omega), hpow]
      simp [Function.comp_def, Nat.mul_add, Nat.mul_assoc, Nat.add_assoc]

theorem beginSequence_eq (input : List Byte) :
    beginSequence input =
      (sizeValue input).map fun r => (r.1 % 2 ^ 32, r.2) := by
  change (varbyte 0 (ofNat 32 0) input).bind _ = _
  rw [varbyte_eq 0 (by decide)]
  cases sizeValue input with
  | none => rfl
  | some r =>
    change some ((ofNat 32 _).toNat, r.2) = _
    simp

theorem reads_beginSequence (hn : n < 2 ^ 32) :
    Reads beginSequence (sizeBytes n) n := by
  have hx : (ofNat 32 n).toNat = n := Nat.mod_eq_of_lt hn
  have hroom : (ofNat 32 n).toNat < 128 ^ 16 := by
    rw [hx]
    exact Nat.lt_of_lt_of_le hn (by decide)
  intro rest
  rw [beginSequence_eq, sizeBytes, reads_sizeValue 15 _ hroom rest, hx,
    Option.map_some, Nat.mod_eq_of_lt hn]

def shifts (n : Nat) : List Byte → List Nat
  | [] => []
  | low7 :: input =>
    7 * n :: if low7 &&& 0x80#8 = 0#8 then [] else shifts (n + 1) input

theorem shifts_eq (n : Nat) (input : List Byte) :
    shifts n input = range' (7 * n) (shifts n input).length 7 := by
  induction input generalizing n with
  | nil => rfl
  | cons low7 input ih =>
    rw [shifts]
    split
    · rfl
    · rw [length_cons, range'_succ, ← Nat.mul_succ, ← ih (n + 1)]

theorem beginSequence_exact_iff (input : List Byte) :
    ((∀ k ∈ shifts 0 input, k < 32) ∧
      (∀ size rest, beginSequence input = some (size, rest) →
        sizeValue input = some (size, rest)) ∧
      ∀ v rest, sizeValue input = some (v, rest) → 2 ^ 32 ≤ v →
        beginSequence input = none) ↔
    (shifts 0 input).length ≤ 5 ∧
      ∀ v rest, sizeValue input = some (v, rest) → v < 2 ^ 32 := by
  have hshifts : (∀ k ∈ shifts 0 input, k < 32) ↔
      (shifts 0 input).length ≤ 5 := by
    rw [shifts_eq]
    simp only [mem_range', length_range', forall_exists_index, and_imp]
    constructor
    · intro h
      by_contra hlong
      have hfive := h _ 5 (by omega) rfl
      omega
    · rintro h k i hi rfl
      omega
  rw [hshifts, beginSequence_eq]
  refine and_congr_right fun _ => ?_
  cases sizeValue input with
  | none => simp
  | some r =>
    simp only [Option.map_some, Option.some.injEq, reduceCtorEq, imp_false,
      Nat.not_le]
    constructor
    · exact fun h => h.2
    · intro h
      refine ⟨?_, h⟩
      rintro size rest ⟨⟩
      rw [Nat.mod_eq_of_lt (h _ _ rfl)]

theorem beginSequence_wraps :
    beginSequence [0xFF#8, 0xFF#8, 0xFF#8, 0xFF#8, 0x7F#8] =
        some (2 ^ 32 - 1, []) ∧
      sizeValue [0xFF#8, 0xFF#8, 0xFF#8, 0xFF#8, 0x7F#8] =
        some (2 ^ 35 - 1, []) ∧
      35 ∈ shifts 0 (replicate 6 0x80#8) := by
  decide

theorem reads_string {x : List Byte} (hx : x.length < 2 ^ 32) :
    Reads string (sizeBytes x.length ++ x) x :=
  (reads_beginSequence hx).bind (reads_bytes x)

theorem length_wideBytes (x : List (BitVec w)) :
    (wideBytes x).length = x.length * (w / 8) := by
  induction x with
  | nil => simp [wideBytes]
  | cons c x ih =>
    rw [wideBytes, flatMap_cons, length_append, length_toBytes,
      length_cons, Nat.succ_mul, Nat.add_comm]
    exact congrArg (· + w / 8) ih

theorem reads_wideString (hw : w = 8 * k) {x : List (BitVec w)}
    (hx : x.length < 2 ^ 32) :
    Reads (wideString w) (sizeBytes x.length ++ wideBytes x) x := by
  have hk : w / 8 = k := by omega
  refine (reads_beginSequence hx).bind ?_
  intro rest
  have hchars : Reads (tuple (int w) x.length) (wideBytes x) x := by
    refine reads_tuple fun c _ => ?_
    rw [hk]
    exact reads_int hw c
  have hroom : x.length * (w / 8) ≤ (wideBytes x ++ rest).length := by
    rw [length_append, length_wideBytes]
    exact Nat.le_add_right _ _
  change (if x.length * (w / 8) ≤ (wideBytes x ++ rest).length then
    tuple (int w) x.length else failure) (wideBytes x ++ rest) = _
  rw [if_pos hroom]
  exact hchars rest

theorem reads_bool (x : Bool) : Reads bool [boolByte x] x := by
  have hread := (reads_byte (boolByte x)).map (· != 0#8)
  cases x <;> exact hread

theorem and_shift_ne_zero (x : Byte) (n : Nat) (hn : n < 8) :
    (x &&& 1#8 <<< n != 0#8) = x.getLsbD n := by
  decide +revert

theorem getLsbD_one_shift :
    ∀ n < 8, ∀ i < 8, (1#8 <<< n).getLsbD i = decide (i = n) := by
  decide

theorem getLsbD_block_cons (x : Bool) (hxs : xs.length < 8) (hi : i < 8) :
    (block (x :: xs)).getLsbD i =
      (x && decide (i = xs.length) || (block xs).getLsbD i) := by
  rw [block, BitVec.getLsbD_or]
  cases x with
  | false => simp
  | true => simp [getLsbD_one_shift _ hxs _ hi]

theorem getLsbD_block_of_le (hxs : xs.length ≤ 8) (hi : i < 8)
    (hle : xs.length ≤ i) : (block xs).getLsbD i = false := by
  induction xs with
  | nil => simp [block]
  | cons x xs ih =>
    rw [length_cons] at hxs hle
    rw [getLsbD_block_cons x (by omega) hi, ih (by omega) (by omega)]
    simp
    omega

theorem blockBits_congr {x y : Byte} (hn : n ≤ 8)
    (h : ∀ i < n, x.getLsbD i = y.getLsbD i) :
    blockBits n x = blockBits n y := by
  induction n with
  | zero => rfl
  | succ n ih =>
    rw [blockBits, blockBits, and_shift_ne_zero x n (by omega),
      and_shift_ne_zero y n (by omega), h n (by omega),
      ih (by omega) fun i hi => h i (by omega)]

theorem blockBits_block (hxs : xs.length ≤ 8) :
    blockBits xs.length (block xs) = xs := by
  induction xs with
  | nil => rfl
  | cons x xs ih =>
    rw [length_cons] at hxs
    have hfirst : (block (x :: xs)).getLsbD xs.length = x := by
      rw [getLsbD_block_cons x (by omega) (by omega),
        getLsbD_block_of_le (by omega) (by omega) le_rfl]
      simp
    have hrest : blockBits xs.length (block (x :: xs)) =
        blockBits xs.length (block xs) := by
      refine blockBits_congr (by omega) fun i hi => ?_
      rw [getLsbD_block_cons x (by omega) (by omega)]
      have hne : i ≠ xs.length := by omega
      simp [hne]
    rw [length_cons, blockBits, and_shift_ne_zero _ _ (by omega),
      hfirst, hrest, ih (by omega)]

theorem reads_boolBlocks {blocks : Nat} (hblocks : 8 * blocks ≤ xs.length) :
    ∃ front, Reads (boolBlocks blocks) front (xs.take (8 * blocks)) ∧
      blockBytes blocks xs =
        front ++ blockBytes 0 (xs.drop (8 * blocks)) := by
  induction blocks generalizing xs with
  | zero => exact ⟨[], reads_pure [], rfl⟩
  | succ blocks ih =>
    have hrest : 8 * blocks ≤ (xs.drop 8).length := by
      rw [length_drop]
      omega
    obtain ⟨front, hread, hbytes⟩ := ih hrest
    have hfirst : (xs.take 8).length = 8 := by
      rw [length_take]
      omega
    have hbits : blockBits 8 (block (xs.take 8)) = xs.take 8 := by
      have h := blockBits_block (Nat.le_of_eq hfirst)
      rwa [hfirst] at h
    have htake : blockBits 8 (block (xs.take 8)) ++
        (xs.drop 8).take (8 * blocks) = xs.take (8 * (blocks + 1)) := by
      rw [hbits, Nat.mul_succ, Nat.add_comm, take_add]
    refine ⟨block (xs.take 8) :: front, ?_, ?_⟩
    · have hall := hread.map
        (blockBits 8 (block (xs.take 8)) ++ ·)
      rw [htake] at hall
      exact Reads.bind (reads_byte (block (xs.take 8))) hall
    · change block (xs.take 8) :: blockBytes blocks _ = _
      rw [hbytes, drop_drop, Nat.mul_succ, Nat.add_comm]
      rfl

theorem reads_bools (hxs : xs.length < 2 ^ 32) :
    Reads bools (sizeBytes xs.length ++ blockBytes (xs.length / 8) xs) xs := by
  obtain ⟨front, hread, hbytes⟩ := @reads_boolBlocks xs _
    (Nat.mul_div_le xs.length 8)
  have hlen : (xs.drop (8 * (xs.length / 8))).length = xs.length % 8 := by
    rw [length_drop]
    omega
  refine (reads_beginSequence hxs).bind ?_
  rw [hbytes, blockBytes, hlen]
  refine hread.bind ?_
  split
  · have hbits := @blockBits_block (xs.drop (8 * (xs.length / 8)))
      (by omega)
    rw [hlen] at hbits
    have htail := (reads_byte
      (block (xs.drop (8 * (xs.length / 8))))).map
        (xs.take (8 * (xs.length / 8)) ++ blockBits (xs.length % 8) ·)
    rw [hbits, take_append_drop] at htail
    exact htail
  · rw [take_of_length_le (by omega)]
    exact reads_pure xs

end Reader

section

variable {α β κ ν : Type}

def Decodes (load : List Byte → Except BinaryError (α × List Byte))
    (bytes : List Byte) (x : α) : Prop :=
  ∀ rest, load (bytes ++ rest) = .ok (x, rest)

theorem decodes_read {reader : Reader α} {bytes : List Byte} {x : α}
    (h : Reads reader bytes x) :
    Decodes (read reader) bytes x := by
  intro rest
  rw [Deserializer.read, h rest]

theorem ok_bind {m : Except BinaryError α} {f : α → Except BinaryError β}
    {x : α} {r : Except BinaryError β} (h : m = .ok x) (hf : f x = r) :
    m >>= f = r := by
  rw [h]
  exact hf

theorem decodes_pair {first : List Byte → Except BinaryError (α × List Byte)}
    {second : List Byte → Except BinaryError (β × List Byte)}
    {bytes bytes' : List Byte} {x : α} {y : β} (h : Decodes first bytes x)
    (h' : Decodes second bytes' y) :
    Decodes (fun input => do
      let (x, input) ← first input
      let (y, input) ← second input
      .ok ((x, y), input)) (bytes ++ bytes') (x, y) := by
  intro rest
  rw [append_assoc]
  exact ok_bind (h _) (ok_bind (h' rest) rfl)

variable {item : List Byte → Except BinaryError (α × List Byte)}
  {encode : α → List Byte} {xs : List α} {x : Option α} {index : Nat}
  {types : List TypeId} {typeIndex : α → Nat}

theorem decodes_items (h : ∀ x ∈ xs, Decodes item (encode x) x) :
    Decodes (LoadInspector.items item xs.length) (xs.flatMap encode) xs := by
  induction xs with
  | nil => exact fun rest => rfl
  | cons x xs ih =>
    have htail := ih fun y hy => h y (mem_cons_of_mem x hy)
    intro rest
    rw [flatMap_cons, append_assoc]
    exact ok_bind (h x mem_cons_self _) (ok_bind (htail rest) rfl)

theorem decodes_list (hsize : xs.length < 2 ^ 32)
    (h : ∀ x ∈ xs, Decodes item (encode x) x) :
    Decodes (binaryDeserializer.list item) (listBytes encode xs) xs := by
  have hbegin := decodes_read (reads_beginSequence hsize)
  intro rest
  rw [listBytes, append_assoc]
  exact ok_bind (hbegin _) (ok_bind (decodes_items h rest) rfl)

theorem decodes_entries [DecidableEq κ]
    {pair : List Byte → Except BinaryError ((κ × ν) × List Byte)}
    {encode : κ × ν → List Byte} {entries : List (κ × ν)}
    (h : ∀ entry ∈ entries, Decodes pair (encode entry) entry)
    (done all : Dictionary κ ν) (hall : all.entries = done.entries ++ entries) :
    Decodes (binaryDeserializer.entries pair entries.length done)
      (entries.flatMap encode) all := by
  induction entries generalizing done with
  | nil =>
    rw [append_nil] at hall
    rw [Dictionary.ext hall]
    exact fun rest => rfl
  | cons entry entries ih =>
    have hdistinct := all.distinct
    rw [hall, map_append, map_cons] at hdistinct
    have hfresh : entry.1 ∉ done.entries.map Prod.fst := by
      intro hmem
      exact (nodup_append.mp hdistinct).2.2 _ hmem _ mem_cons_self rfl
    obtain ⟨next, hnext, hentries⟩ : ∃ next, done.emplace entry = some next ∧
        next.entries = done.entries ++ [entry] :=
      ⟨_, dif_neg hfresh, rfl⟩
    have htail := ih (fun e he => h e (mem_cons_of_mem entry he)) next
      (by rw [hall, hentries, append_assoc, singleton_append])
    intro rest
    rw [flatMap_cons, append_assoc, length_cons,
      LoadInspector.entries, h entry mem_cons_self]
    simp only [bind, Except.bind, hnext]
    exact htail rest

theorem decodes_map [DecidableEq κ]
    {key : List Byte → Except BinaryError (κ × List Byte)}
    {val : List Byte → Except BinaryError (ν × List Byte)}
    {encodeKey : κ → List Byte} {encodeVal : ν → List Byte}
    {xs : Dictionary κ ν} (hsize : xs.entries.length < 2 ^ 32)
    (h : ∀ entry ∈ xs.entries, Decodes key (encodeKey entry.1) entry.1 ∧
      Decodes val (encodeVal entry.2) entry.2) :
    Decodes (binaryDeserializer.map key val)
      (mapBytes encodeKey encodeVal xs) xs := by
  have hpair : ∀ entry ∈ xs.entries,
      Decodes (binaryDeserializer.keyValuePair key val)
        (encodeKey entry.1 ++ encodeVal entry.2) entry :=
    fun entry hentry => decodes_pair (h entry hentry).1 (h entry hentry).2
  have hbegin := decodes_read (reads_beginSequence hsize)
  intro rest
  rw [mapBytes, listBytes, append_assoc]
  exact ok_bind (hbegin _)
    (ok_bind (decodes_entries hpair .empty xs rfl rest) rfl)

theorem decodes_optional (h : ∀ y, x = some y → Decodes item (encode y) y)
    (name : List Byte) :
    Decodes (binaryDeserializer.optionalField name item)
      (optionalBytes encode x) x := by
  intro rest
  cases x with
  | none => exact ok_bind (decodes_read (reads_bool false) _) rfl
  | some x =>
    exact ok_bind (decodes_read (reads_bool true) _)
      (ok_bind (ok_bind (h x rfl rest) rfl) rfl)

theorem toNat_ofNat_index {types : Nat} (hindex : index < types)
    (htypes : types < 2 ^ 63) :
    (ofNat (indexWidth types).bits index).toNat = index ∧
      (ofNat (indexWidth types).bits index).msb = false := by
  have hsmall : index < 2 ^ ((indexWidth types).bits - 1) := by
    rw [indexWidth]
    split
    · change index < 2 ^ 7
      omega
    · split
      · change index < 2 ^ 15
        omega
      · split
        · change index < 2 ^ 31
          omega
        · change index < 2 ^ 63
          omega
  have hpos : 0 < (indexWidth types).bits := by
    cases indexWidth types <;> decide
  have hle : 2 ^ ((indexWidth types).bits - 1) ≤ 2 ^ (indexWidth types).bits :=
    Nat.pow_le_pow_right (by decide) (Nat.sub_le _ _)
  have htoNat : (ofNat (indexWidth types).bits index).toNat = index :=
    Nat.mod_eq_of_lt (by omega)
  refine ⟨htoNat, ?_⟩
  rw [BitVec.msb_eq_false_iff_two_mul_lt, htoNat]
  have hdouble : 2 ^ (indexWidth types).bits =
      2 * 2 ^ ((indexWidth types).bits - 1) := by
    rw [← Nat.pow_succ']
    congr 1
    omega
  omega

theorem decodes_variantIndex {types : Nat} (hindex : index < types)
    (htypes : types < 2 ^ 63) :
    Decodes (variantIndex types) (indexBytes types index)
      index := by
  obtain ⟨htoNat, hmsb⟩ := toNat_ofNat_index hindex htypes
  intro rest
  refine ok_bind (decodes_read (reads_integer _ _) rest) ?_
  simp only [hmsb, htoNat]
  rw [if_neg (by simpa using hindex)]

theorem decodes_optionalVariantIndex {types : Nat} (hindex : index < types)
    (htypes : types < 2 ^ 63) :
    Decodes (optionalVariantIndex types)
      (indexBytes types index) (some index) := by
  obtain ⟨htoNat, hmsb⟩ := toNat_ofNat_index hindex htypes
  intro rest
  refine ok_bind (decodes_read (reads_integer _ _) rest) ?_
  simp only [hmsb, htoNat]
  rw [if_neg (by decide), if_neg (by omega)]

theorem decodes_absent (types : Nat) :
    Decodes (optionalVariantIndex types) (absentBytes types)
      none := by
  have hmsb : (BitVec.allOnes (indexWidth types).bits).msb = true := by
    cases indexWidth types <;> decide
  intro rest
  refine ok_bind (decodes_read (reads_integer _ _) rest) ?_
  simp [hmsb]

theorem decodes_variant
    {item : TypeId → List Byte → Except BinaryError (α × List Byte)} {x : α}
    {id : TypeId} (hid : types[typeIndex x]? = some id)
    (htypes : types.length < 2 ^ 63) (h : Decodes (item id) (encode x) x)
    (name : List Byte) :
    Decodes (binaryDeserializer.variantField name types item)
      (variantBytes types.length typeIndex encode x) x := by
  have hindex := (List.getElem?_eq_some_iff.mp hid).1
  have hval : ∀ rest, binaryDeserializer.variantValue name types item
      (typeIndex x) (encode x ++ rest) = .ok (x, rest) := by
    intro rest
    rw [LoadInspector.variantValue, hid]
    exact h rest
  intro rest
  rw [variantBytes, append_assoc]
  exact ok_bind (decodes_variantIndex hindex htypes _)
    (ok_bind (hval rest) rfl)

theorem decodes_optionalVariant
    {item : TypeId → List Byte → Except BinaryError (α × List Byte)}
    (htypes : types.length < 2 ^ 63)
    (h : ∀ y, x = some y → ∃ id, types[typeIndex y]? = some id ∧
      Decodes (item id) (encode y) y) (name : List Byte) :
    Decodes (binaryDeserializer.optionalVariantField name types item)
      (optionalVariantBytes types.length typeIndex encode x) x := by
  intro rest
  cases x with
  | none => exact ok_bind (decodes_absent types.length rest) rfl
  | some x =>
    obtain ⟨id, hid, hx⟩ := h x rfl
    have hindex := (List.getElem?_eq_some_iff.mp hid).1
    have hval : binaryDeserializer.variantValue name types item
        (typeIndex x) (encode x ++ rest) = .ok (x, rest) := by
      rw [LoadInspector.variantValue, hid]
      exact hx rest
    rw [optionalVariantBytes, variantBytes, append_assoc]
    exact ok_bind (decodes_optionalVariantIndex hindex htypes _)
      (ok_bind (ok_bind hval rfl) rfl)

end

namespace DataType

theorem nodup_ids {ids : List TypeId} (t : DataType (.variant ids)) :
    ids.Nodup := by
  match t with
  | .never => exact .nil
  | .alternative _ _ fresh rest =>
    exact nodup_cons.mpr ⟨fresh, rest.nodup_ids⟩

theorem length_ids {ids : List TypeId} (t : DataType (.variant ids)) :
    ids.length < 2 ^ 63 := by
  have hnodup := t.nodup_ids.map fun _ _ => eq_of_toNat_eq
  have hsubset : ids.map toNat ⊆ List.range (2 ^ 16) := by
    intro n hn
    obtain ⟨id, -, rfl⟩ := mem_map.mp hn
    exact mem_range.mpr id.isLt
  have hle := (hnodup.subperm hsubset).length_le
  rw [length_map, length_range] at hle
  omega

def Sized : {k : Kind} → (t : DataType k) → t.Value → Prop
  | _, .bool => fun _ => True
  | _, .int _ _ => fun _ => True
  | _, .string => fun x : List Byte => x.length < 2 ^ 32
  | _, .u16string => fun x : List (BitVec 16) => x.length < 2 ^ 32
  | _, .u32string => fun x : List (BitVec 32) => x.length < 2 ^ 32
  | _, .bools => fun x : List Bool => x.length < 2 ^ 32
  | _, .sequence item => fun xs : List item.Value =>
    xs.length < 2 ^ 32 ∧ ∀ x ∈ xs, item.Sized x
  | _, .map key val => fun xs : Dictionary key.Value val.Value =>
    xs.entries.length < 2 ^ 32 ∧
      ∀ entry ∈ xs.entries, key.Sized entry.1 ∧ val.Sized entry.2
  | _, .tuple items => items.Sized
  | _, .object _ _ fields => fields.Sized
  | _, .nil => fun _ => True
  | _, .cons item items => fun xs => item.Sized xs.1 ∧ items.Sized xs.2
  | _, .done => fun _ => True
  | _, .field _ type rest => fun xs => type.Sized xs.1 ∧ rest.Sized xs.2
  | _, .optional _ type rest => fun xs =>
    (∀ x, xs.1 = some x → type.Sized x) ∧ rest.Sized xs.2
  | _, .variant _ types rest => fun xs =>
    types.Sized xs.1 ∧ rest.Sized xs.2
  | _, .optionalVariant _ types rest => fun xs =>
    (∀ x, xs.1 = some x → types.Sized x) ∧ rest.Sized xs.2
  | _, .never => fun _ => True
  | _, .alternative _ type _ rest => Sum.elim type.Sized rest.Sized

/-- Loading takes the bytes of a value and nothing else.  The alternatives of a
variant are loaded by the ID of the one that holds the value. -/
def Restores : {k : Kind} → (t : DataType k) → t.Value → Prop
  | .variant ids, t, x => ∃ id, ids[t.typeIndex x]? = some id ∧
      ∀ name, Decodes (binaryDeserializer.load name t id) (t.encode x) x
  | .type, t, x =>
    ∀ name, Decodes (binaryDeserializer.load name t) (t.encode x) x
  | .row, t, x =>
    ∀ name, Decodes (binaryDeserializer.load name t) (t.encode x) x
  | .fields, t, x =>
    ∀ name, Decodes (binaryDeserializer.load name t) (t.encode x) x

theorem restores {k : Kind} (t : DataType k) (x : t.Value)
    (h : t.Sized x) : t.Restores x := by
  induction t with
  | bool => exact fun _ => decodes_read (reads_bool x)
  | int signed w => exact fun _ => decodes_read (reads_integer w x)
  | string => exact fun _ => decodes_read (reads_string h)
  | u16string =>
    exact fun _ => decodes_read (reads_wideString (k := 2) rfl h)
  | u32string =>
    exact fun _ => decodes_read (reads_wideString (k := 4) rfl h)
  | bools => exact fun _ => decodes_read (reads_bools h)
  | sequence item ih =>
    exact fun name => decodes_list h.1 fun y hy => ih y (h.2 y hy) name
  | map key val ihk ihv =>
    exact fun name => decodes_map h.1 fun entry hentry =>
      ⟨ihk _ (h.2 entry hentry).1 name, ihv _ (h.2 entry hentry).2 name⟩
  | tuple items ih | object id objectName fields ih =>
    exact fun name rest => ok_bind rfl (ok_bind (ih x h name rest) rfl)
  | nil | done => exact fun name rest => rfl
  | cons item items ih ihs =>
    exact fun name => decodes_pair (ih x.1 h.1 name) (ihs x.2 h.2 name)
  | field name type rest ih ihs =>
    have hfield : Decodes (binaryDeserializer.plainField name
        (binaryDeserializer.load name type)) (type.encode x.1) x.1 :=
      fun rest => ok_bind rfl (ok_bind (ih x.1 h.1 name rest) rfl)
    exact fun _ => decodes_pair hfield (ihs x.2 h.2 name)
  | optional name type rest ih ihs =>
    exact fun _ => decodes_pair
      (decodes_optional (fun y hy => ih y (h.1 y hy) name) name)
      (ihs x.2 h.2 name)
  | variant name types rest ih ihs =>
    obtain ⟨id, hid, hload⟩ := ih x.1 h.1
    exact fun _ => decodes_pair
      (decodes_variant hid types.length_ids (hload name) name)
      (ihs x.2 h.2 name)
  | optionalVariant name types rest ih ihs =>
    exact fun _ => decodes_pair
      (decodes_optionalVariant types.length_ids (fun y hy =>
        (ih y (h.1 y hy)).imp fun id hid => ⟨hid.1, hid.2 name⟩) name)
      (ihs x.2 h.2 name)
  | never => exact x.elim
  | alternative id type fresh rest ih ihs =>
    cases x with
    | inl x =>
      refine ⟨id, rfl, fun name input => ?_⟩
      change (if id = id then _ else _) = _
      rw [if_pos rfl]
      exact ok_bind (ih x h name input) rfl
    | inr x =>
      obtain ⟨id', hid, hload⟩ := ihs x h
      have hne : id ≠ id' := by
        rintro rfl
        exact fresh (mem_of_getElem? hid)
      refine ⟨id', hid, fun name input => ?_⟩
      change (if id = id' then _ else _) = _
      rw [if_neg hne]
      exact ok_bind (hload name input) rfl

end DataType

/-- Values that are written one after the other are read back in the same order,
and what follows them is left. -/
theorem binary_round_trip (items : DataType .row) (xs : items.Value)
    (hsize : items.Sized xs) (buf : List Byte) :
    ∃ out, binarySerializer.save items xs (Serializer.new buf) =
        (.ok (Serializer.new (buf ++ out)) : Except BinaryError Serializer) ∧
      ∀ suffix, binaryDeserializer.load [] items (out ++ suffix) =
        .ok (xs, suffix) := by
  refine ⟨items.encode xs, ?_, items.restores xs hsize []⟩
  rw [writes_save items xs, value_new]

def sampleRow : DataType .row :=
  .cons (.int true .w16) <|
    .cons (.map .string .bools) <|
      .cons (.object 7 (ascii "point")
        (.variant (ascii "x")
          (.alternative 1 .bool (by decide)
            (.alternative 2 .u16string (by decide) .never)) .done)) .nil

def sampleValues : sampleRow.Value :=
  (BitVec.ofInt 16 (-3), ⟨[([97#8], [true, false])], by decide⟩,
    (.inr (.inl [0x20AC#16]), ()), ())

theorem binary_round_trip_sample :
    ∃ out, binarySerializer.save sampleRow sampleValues (Serializer.new []) =
        (.ok (Serializer.new out) : Except BinaryError Serializer) ∧
      ∀ suffix, binaryDeserializer.load [] sampleRow (out ++ suffix) =
        .ok (sampleValues, suffix) := by
  refine binary_round_trip sampleRow sampleValues ?_ []
  refine ⟨trivial, ⟨by decide, ?_⟩, ⟨show 1 < 2 ^ 32 by decide, trivial⟩,
    trivial⟩
  intro entry hentry
  rw [List.mem_singleton.mp hentry]
  exact ⟨show 1 < 2 ^ 32 by decide, show 2 < 2 ^ 32 by decide⟩

end ActorFramework.Core

import ActorFramework.Core.Parser

/-!
# The macros for state machines

Parsers are written with macros for the states of a machine and the lines of a
state, in which a machine can call another one.  The null character stands for
the end of the input, also where it is part of the input.
-/

namespace ActorFramework.Core.Fsm

open List

/-- A line of a state: `transition`, or `epsilon` if it does not consume the
character, with a machine to call if it is one of the `fsm_` variants.  `ι` has
the names of machines and `σ` the values of their variables. -/
structure Line (ι σ : Type) where
  cond : σ → Bool := fun _ => true
  whitelist : Byte → Bool
  action : Byte → σ → Except Pec σ := fun _ x => .ok x
  consumes : Bool := true
  call : Option ι := none
  target : Nat

/-- The exit statement of a terminal state may fail. -/
inductive Kind (σ : Type) where
  | state
  | termState (exit : σ → Except Pec σ)
  | unstableState

/-- A line of an unstable state does not consume the null character. -/
structure State (ι σ : Type) where
  kind : Kind σ
  lines : List (Line ι σ)
  stable : kind = .unstableState → ∀ line ∈ lines, line.consumes = true →
    line.whitelist 0#8 = false

/-- What a state does: it ends the machine, where `none` is the code `success`,
or goes to another state.  An unstable state without a transition is undefined
behavior. -/
inductive Move (ι σ : Type) where
  | stops (code : Option Pec) (data : σ)
  | undefined
  | goes (consumes : Bool) (call : Option ι) (target : Nat) (data : σ)

variable {ι σ : Type}

namespace State

def line (q : State ι σ) (x : σ) (ch : Byte) : Option (Line ι σ) :=
  q.lines.find? fun line => line.cond x && line.whitelist ch

def transit (q : State ι σ) (x : σ) (ch : Byte) : Move ι σ :=
  match q.line x ch, q.kind with
  | some line, _ =>
    match line.action ch x with
    | .ok y => .goes line.consumes line.call line.target y
    | .error code => .stops (some code) x
  | none, .state => .stops (some (Parser.unexpected ch)) x
  | none, .termState exit =>
    .stops (some .trailingCharacter) ((exit x).toOption.getD x)
  | none, .unstableState => .undefined

def move (q : State ι σ) (x : σ) (ch : Byte) : Move ι σ :=
  match q.kind with
  | .state =>
    if ch = 0#8 then .stops (some .unexpectedEof) x else q.transit x ch
  | .termState exit =>
    if ch = 0#8 then
      match exit x with
      | .ok y => .stops none y
      | .error code => .stops (some code) x
    else q.transit x ch
  | .unstableState => q.transit x ch

theorem transit_ne_success (q : State ι σ) (x y : σ) (ch : Byte) :
    q.transit x ch ≠ .stops none y := by
  unfold transit
  grind

variable {q : State ι σ} {x y : σ} {ch : Byte} {call : Option ι} {target : Nat}

theorem move_eq_success (h : q.move x ch = .stops none y) : ch = 0#8 := by
  unfold move at h
  grind [transit_ne_success]

theorem of_transit_goes (h : q.transit x ch = .goes true call target y) :
    ∃ line ∈ q.lines, line.consumes = true ∧ line.whitelist ch = true := by
  unfold transit at h
  cases hline : q.line x ch with
  | none => grind
  | some line =>
    have hmem := mem_of_find?_eq_some hline
    have hacc := find?_some hline
    grind

theorem move_consumes (h : q.move x ch = .goes true call target y) :
    ch ≠ 0#8 := by
  rintro rfl
  unfold move at h
  split at h
  · simp at h
  · grind
  · rename_i hkind
    obtain ⟨line, hmem, hconsumes, hacc⟩ := of_transit_goes h
    grind [q.stable hkind line hmem hconsumes]

end State

structure Result (σ : Type) where
  code : Option Pec
  data : σ
  rest : List Byte
  deriving DecidableEq

/-- The machines from a state on.  There is no result without enough fuel. -/
def run (machine : ι → Nat → State ι σ) :
    Nat → ι → Nat → σ → List Byte → Option (Result σ)
  | 0, _, _, _, _ => none
  | fuel + 1, m, q, x, input =>
    match (machine m q).move x (input.headD 0#8) with
    | .stops code y => some ⟨code, y, input⟩
    | .undefined => none
    | .goes consumes none target y =>
      run machine fuel m target y (if consumes then input.tail else input)
    | .goes consumes (some callee) target y =>
      (run machine fuel callee 0 y
        (if consumes then input.tail else input)).bind fun r =>
          if r.code = none ∨ r.code = some .trailingCharacter then
            run machine fuel m target r.data r.rest
          else some r

variable {machine : ι → Nat → State ι σ} {fuel q : Nat} {m : ι} {x : σ}
  {input : List Byte} {r : Result σ}

theorem run_stops (h : run machine fuel m q x input = some r) :
    r.rest <:+ input ∧ (r.code = none → r.rest.headD 0#8 = 0#8) := by
  induction fuel generalizing m q x input r with
  | zero => cases h
  | succ fuel ih =>
    have hleft (consumes : Bool) :
        (if consumes then input.tail else input) <:+ input := by
      split
      · exact tail_suffix input
      · exact suffix_rfl
    unfold run at h
    split at h
    · rename_i code y hmove
      cases h
      refine ⟨suffix_rfl, fun hcode => ?_⟩
      cases hcode
      exact State.move_eq_success hmove
    · cases h
    · obtain ⟨hrest, hcode⟩ := ih h
      exact ⟨hrest.trans (hleft _), hcode⟩
    · obtain ⟨u, hu, h⟩ := Option.bind_eq_some_iff.mp h
      have hcall := (ih hu).1.trans (hleft _)
      split at h
      · obtain ⟨hrest, hcode⟩ := ih h
        exact ⟨hrest.trans hcall, hcode⟩
      · cases h
        exact ⟨hcall, (ih hu).2⟩

theorem run_null (hnull : 0#8 ∉ input) (more : List Byte) :
    run machine fuel m q x (input ++ 0#8 :: more) =
      (run machine fuel m q x input).map fun r =>
        { r with rest := r.rest ++ 0#8 :: more } := by
  induction fuel generalizing m q x input with
  | zero => rfl
  | succ fuel ih =>
    have hhead : (input ++ 0#8 :: more).headD 0#8 = input.headD 0#8 := by
      cases input <;> rfl
    simp only [run, hhead]
    cases hmove : (machine m q).move x (input.headD 0#8) with
    | stops code y => rfl
    | undefined => rfl
    | goes consumes call target y =>
      have hrest : (if consumes then (input ++ 0#8 :: more).tail
          else input ++ 0#8 :: more) =
          (if consumes then input.tail else input) ++ 0#8 :: more := by
        cases consumes with
        | false => rfl
        | true =>
          cases input with
          | nil => exact absurd rfl (State.move_consumes hmove)
          | cons c input => rfl
      have hclean : 0#8 ∉ (if consumes then input.tail else input) := by
        split
        · exact fun hmem => hnull (mem_of_mem_tail hmem)
        · exact hnull
      cases call with
      | none =>
        simp only [hrest]
        exact ih hclean
      | some callee =>
        simp only [hrest, ih hclean, Option.bind_map, Option.map_bind]
        refine Option.bind_congr fun r hr => ?_
        have hleft := (run_stops hr).1
        simp only [Function.comp_apply]
        split
        · exact ih fun hmem => hclean (hleft.subset hmem)
        · rfl

/-- A machine that succeeds has read all of the input, unless it succeeds with
what stands in front of a null character. -/
theorem reads_all_iff (machine : ι → Nat → State ι σ) (m : ι) (x : σ)
    (input : List Byte) :
    (∀ fuel r, run machine fuel m 0 x input = some r → r.code = none →
        r.rest = []) ↔
      0#8 ∉ input ∨
        ∀ fuel r, run machine fuel m 0 x (input.takeWhile (· ≠ 0#8)) = some r →
          r.code ≠ none := by
  by_cases hmem : 0#8 ∈ input
  · obtain ⟨first, more, rfl, hclean⟩ := List.eq_append_cons_of_mem hmem
    have hfirst : (first ++ 0#8 :: more).takeWhile (· ≠ 0#8) = first := by
      rw [List.takeWhile_append_of_pos fun c hc => ?_]
      · simp
      · exact decide_eq_true fun heq => hclean (heq ▸ hc)
    have hsame (fuel : Nat) :=
      @run_null ι σ machine fuel 0 m x first hclean more
    rw [hfirst]
    constructor
    · intro hall
      refine .inr fun fuel r hrun hcode => ?_
      have hlong := hsame fuel
      rw [hrun] at hlong
      have hnone := hall fuel _ hlong hcode
      exact absurd hnone (by simp)
    · rintro (hnull | hfails) fuel r hrun hcode
      · exact absurd hmem hnull
      · obtain ⟨u, hu, rfl⟩ := Option.map_eq_some_iff.mp
          ((hsame fuel).symm.trans hrun)
        exact absurd hcode (hfails fuel u hu)
  · refine ⟨fun _ => .inl hmem, fun _ fuel r hrun hcode => ?_⟩
    obtain ⟨hrest, hhead⟩ := run_stops hrun
    cases hr : r.rest with
    | nil => rfl
    | cons c rest =>
      rw [hr] at hrest hhead
      obtain rfl : c = 0#8 := hhead hcode
      exact absurd (hrest.subset List.mem_cons_self) hmem

inductive Ipv4 where
  | octet
  | address
  deriving DecidableEq

structure Ipv4Data where
  res : Int := 0
  bytes : List Int := []
  deriving DecidableEq

def rdDecimal (target : Nat) : Line Ipv4 Ipv4Data where
  whitelist := isDigit 10
  action ch x :=
    match (Parser.addAscii 255).add 10 x.res ch with
    | some res => .ok { x with res }
    | none => .error .integerOverflow
  target := target

def rdOctet (cond : Nat → Bool) (target : Nat) : Line Ipv4 Ipv4Data where
  cond x := cond x.bytes.length
  whitelist := isDigit 10
  action _ x := .ok { x with res := 0 }
  consumes := false
  call := some .octet
  target := target

def readIpv4Address : Ipv4 → Nat → State Ipv4 Ipv4Data
  | .octet, 0 => ⟨.state, [rdDecimal 1], nofun⟩
  | .octet, _ =>
    ⟨.termState fun x => .ok { x with bytes := x.bytes ++ [x.res] },
      [rdDecimal 1], nofun⟩
  | .address, 0 => ⟨.state, [rdOctet (fun _ => true) 1], nofun⟩
  | .address, 1 =>
    ⟨.state, [{ whitelist := Parser.char 46#8, target := 2 }], nofun⟩
  | .address, 2 => ⟨.state, [rdOctet (· < 3) 1, rdOctet (· = 3) 3], nofun⟩
  | .address, _ => ⟨.termState .ok, [], nofun⟩

theorem ipv4_ignores_text_behind_null :
    run readIpv4Address 20 .address 0 {} (ascii "1.2.3.4" ++ 0#8 :: ascii "x") =
      some ⟨none, ⟨4, [1, 2, 3, 4]⟩, 0#8 :: ascii "x"⟩ := by
  decide +kernel

end ActorFramework.Core.Fsm

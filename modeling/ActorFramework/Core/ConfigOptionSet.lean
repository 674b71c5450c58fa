import ActorFramework.Core.StringAlgorithms
import Mathlib.Data.List.TakeWhile

/-!
# Options on the command line

`parse` reads arguments as options until there is one that is none.  An option
has its value in the same argument, or it takes the next one.
-/

namespace ActorFramework.Core

/-- `flat` is set if the category starts with a question mark, which is not part
of its name. -/
structure ConfigOption where
  category : List Byte
  longName : List Byte
  shortNames : List Byte
  flat : Bool
  isFlag : Bool

namespace ConfigOption

def hasFlatCliName (opt : ConfigOption) : Bool :=
  opt.flat || opt.category = ascii "global"

/-- `other` is the code of an error of `sync`. -/
inductive Code where
  | notAnOption
  | missingArgument
  | other (code : Nat)

end ConfigOption

open ConfigOption List

/-- `selectEntry` creates the dictionary of the category, and `sync` parses a
value and stores it.  `σ` has the settings and the variables of options. -/
structure ConfigOptionSet (σ : Type) where
  opts : List ConfigOption
  selectEntry : ConfigOption → σ → σ
  sync : ConfigOption → List Byte → σ → Except Code σ

namespace ConfigOptionSet

variable {σ : Type} (set : ConfigOptionSet σ)

def cliLongNameLookup (name : List Byte) : Option ConfigOption :=
  let longName := (name.reverse.takeWhile (· ≠ 46#8)).reverse
  let category := name.take (name.length - longName.length - 1)
  set.opts.find? fun opt =>
    (if 46#8 ∈ name then opt.category = category else opt.hasFlatCliName) &&
      opt.longName = longName

def cliShortNameLookup (name : Byte) : Option ConfigOption :=
  set.opts.find? (name ∈ ·.shortNames)

def consume (opt : ConfigOption) (arg : List Byte) (config : σ) :
    Option Code × σ :=
  let config := set.selectEntry opt config
  if arg = [] then (some .missingArgument, config)
  else
    match set.sync opt arg config with
    | .ok config => (none, config)
    | .error code => (some code, config)

inductive Argument where
  | notAnOption
  | terminator
  | option (opt : ConfigOption) (value : Option (List Byte))

def implied (opt : ConfigOption) : Option (List Byte) :=
  if opt.isFlag then some (ascii "true") else none

def argument : List Byte → Argument
  | 45#8 :: 45#8 :: text =>
    if text = [] then .terminator
    else
      match set.cliLongNameLookup (text.takeWhile (· ≠ 61#8)) with
      | none => .notAnOption
      | some opt => .option opt (if 61#8 ∈ text then
          some ((text.dropWhile (· ≠ 61#8)).drop 1) else implied opt)
  | 45#8 :: name :: value =>
    match set.cliShortNameLookup name with
    | none => .notAnOption
    | some opt => .option opt (if value = [] then implied opt else some value)
  | _ => .notAnOption

structure Result (σ : Type) where
  code : Option Code
  pos : Nat
  config : σ

/-- The loop of `parse`, where `pos` is the position of the next argument.  At a
terminator it returns the position behind the first argument. -/
def loop : Nat → List (List Byte) → σ → Result σ
  | pos, [], config => ⟨none, pos, config⟩
  | pos, arg :: args, config =>
    match set.argument arg with
    | .notAnOption => ⟨some .notAnOption, pos, config⟩
    | .terminator => ⟨none, 1, config⟩
    | .option opt (some value) =>
      match set.consume opt value config with
      | (none, config) => loop (pos + 1) args config
      | (some code, config) => ⟨some code, pos, config⟩
    | .option opt none =>
      match args with
      | [] => ⟨some .missingArgument, pos + 1, config⟩
      | value :: args =>
        match set.consume opt value config with
        | (none, config) => loop (pos + 2) args config
        | (some code, config) => ⟨some code, pos, config⟩

def parse (args : List (List Byte)) (config : σ) : Result σ :=
  set.loop 0 args config

def Gives (opt : ConfigOption) (value : List Byte)
    (form : List (List Byte)) : Prop :=
  ∃ arg, form = [arg] ∧ set.argument arg = .option opt (some value) ∨
    form = [arg, value] ∧ set.argument arg = .option opt none

inductive Options : σ → List (List Byte) → σ → Prop
  | nil {config : σ} : Options config [] config
  | cons {config config' config'' : σ} {opt : ConfigOption} {value : List Byte}
      {form args : List (List Byte)} (hform : set.Gives opt value form)
      (hconsume : set.consume opt value config = (none, config'))
      (hargs : Options config' args config'') :
      Options config (form ++ args) config''

/-- The next argument is right behind the last one that is part of an option,
or behind the terminator. -/
def Behind (config : σ) (args : List (List Byte)) (pos : Nat) : Prop :=
  ∃ pre rest config', args = pre ++ rest ∧ set.Options config pre config' ∧
    (rest = [] ∧ pos = pre.length ∨
      rest.head? = some (ascii "--") ∧ pos = pre.length + 1)

def Terminated (config : σ) (args : List (List Byte)) : Prop :=
  ∃ pre rest config', args = pre ++ ascii "--" :: rest ∧
    set.Options config pre config' ∧ pre ≠ []

def Awaits (config : σ) (args : List (List Byte)) : Prop :=
  ∃ pre arg opt config', args = pre ++ [arg] ∧
    set.Options config pre config' ∧ set.argument arg = .option opt none

def Result.Same (r r' : Result σ) : Prop :=
  r.code = r'.code ∧ r.config = r'.config

variable {set} {config config' : σ} {pos : Nat} {opt : ConfigOption}
  {arg name value : List Byte} {pre form form' args post : List (List Byte)}

theorem argument_terminator :
    set.argument arg = .terminator ↔ arg = ascii "--" := by
  have hascii : ascii "--" = [45#8, 45#8] := rfl
  fun_cases argument set arg <;> simp_all

theorem Gives.loop_eq (h : set.Gives opt value form) :
    set.loop pos (form ++ args) config =
      match set.consume opt value config with
      | (none, config) => set.loop (pos + form.length) args config
      | (some code, config) => ⟨some code, pos, config⟩ := by
  rcases h with ⟨_, ⟨rfl, harg⟩ | ⟨rfl, harg⟩⟩ <;> simp [loop, harg]

theorem Options.loop_append (h : set.Options config pre config') :
    set.loop pos (pre ++ args) config =
      set.loop (pos + pre.length) args config' := by
  induction h generalizing pos with
  | nil => rfl
  | cons hform hcon _ ih =>
    simp [hform.loop_eq, hcon, ih, Nat.add_assoc]

theorem loop_same (pos' : Nat) :
    (set.loop pos args config).Same (set.loop pos' args config) := by
  unfold Result.Same
  fun_induction loop set pos args config generalizing pos' with
  | _ => grind [loop]

theorem loop_success (h : (set.loop pos args config).code = none) :
    ∃ pre rest config', args = pre ++ rest ∧ set.Options config pre config' ∧
      (rest = [] ∧ (set.loop pos args config).pos = pos + pre.length ∨
        rest.head? = some (ascii "--") ∧
          (set.loop pos args config).pos = 1) := by
  fun_induction loop set pos args config with
  | case1 pos config => exact ⟨[], [], config, rfl, .nil, .inl ⟨rfl, rfl⟩⟩
  | case3 pos arg args config harg =>
    exact ⟨[], _, config, rfl, .nil,
      .inr ⟨congrArg some (argument_terminator.mp harg), rfl⟩⟩
  | case4 pos arg args config opt value harg config' hcon ih =>
    obtain ⟨pre, rest, config', rfl, hpre, hrest⟩ := ih h
    refine ⟨[arg] ++ pre, rest, _, rfl,
      .cons ⟨arg, .inl ⟨rfl, harg⟩⟩ hcon hpre, ?_⟩
    grind
  | case7 pos arg config opt harg value args config' hcon ih =>
    obtain ⟨pre, rest, config', rfl, hpre, hrest⟩ := ih h
    refine ⟨[arg, value] ++ pre, rest, _, rfl,
      .cons ⟨arg, .inr ⟨rfl, harg⟩⟩ hcon hpre, ?_⟩
    grind
  | _ => cases h

theorem behind_iff (h : (set.parse args config).code = none) :
    set.Behind config args (set.parse args config).pos ↔
      ¬ set.Terminated config args := by
  have hdash : set.argument (ascii "--") = .terminator :=
    argument_terminator.mpr rfl
  constructor
  · rintro ⟨pre, rest, _, hargs, -, hpos⟩ ⟨pre', rest', _, rfl, hpre', hne⟩
    -- Here the loop returns one.
    rw [parse, hpre'.loop_append, loop, hdash] at hpos
    cases hpre' with
    | nil => exact hne rfl
    | cons hform =>
      rcases hform with ⟨_, ⟨rfl, harg⟩ | ⟨rfl, harg⟩⟩ <;> grind
  · intro hterm
    obtain ⟨pre, rest, config', rfl, hpre, hpos⟩ := loop_success h
    refine ⟨pre, rest, config', rfl, hpre, ?_⟩
    rcases hpos with ⟨rfl, hpos⟩ | ⟨hhead, hpos⟩
    · exact .inl ⟨rfl, by simpa [parse] using hpos⟩
    · obtain ⟨rest, rfl⟩ := head?_eq_some_iff.mp hhead
      have hnil : pre = [] := by
        by_contra hne
        exact hterm ⟨pre, rest, config', rfl, hpre, hne⟩
      exact .inr ⟨hhead, by simpa [parse, hnil] using hpos⟩

def Leads (set : ConfigOptionSet σ) (config : σ) (pre : List (List Byte)) :
    Prop :=
  (∃ config', set.Options config pre config') ∨ set.Awaits config pre ∨
    ∀ pos args args', set.loop pos (pre ++ args) config =
      set.loop pos (pre ++ args') config

theorem Gives.leads (hform : set.Gives opt value form)
    (hcon : set.consume opt value config = (none, config'))
    (h : set.Leads config' args) : set.Leads config (form ++ args) := by
  rcases h with ⟨_, h⟩ | ⟨pre, last, opt, _, rfl, hpre, hlast⟩ | hstops
  · exact .inl ⟨_, .cons hform hcon h⟩
  · exact .inr (.inl ⟨form ++ pre, last, opt, _, by simp,
      .cons hform hcon hpre, hlast⟩)
  · refine .inr (.inr fun pos post post' => ?_)
    simp only [append_assoc, hform.loop_eq, hcon]
    exact hstops ..

theorem leads (set : ConfigOptionSet σ) (pos : Nat) (pre : List (List Byte))
    (config : σ) : set.Leads config pre := by
  fun_induction loop set pos pre config with
  | case1 pos config => exact .inl ⟨config, .nil⟩
  | case4 pos arg args config opt value harg config' hcon ih =>
    exact Gives.leads ⟨arg, .inl ⟨rfl, harg⟩⟩ hcon ih
  | case6 pos arg config opt harg =>
    exact .inr (.inl ⟨[], arg, opt, config, rfl, .nil, harg⟩)
  | case7 pos arg config opt harg value args config' hcon ih =>
    exact Gives.leads ⟨arg, .inr ⟨rfl, harg⟩⟩ hcon ih
  | _ => exact .inr (.inr fun pos args args' => by simp [loop, *])

theorem Gives.same (h : set.Gives opt value form)
    (h' : set.Gives opt value form') {pos' : Nat} :
    (set.loop pos (form ++ args) config).Same
      (set.loop pos' (form' ++ args) config) := by
  rw [h.loop_eq, h'.loop_eq]
  rcases set.consume opt value config with ⟨_ | code, config⟩
  · exact loop_same _
  · exact ⟨rfl, rfl⟩

theorem Gives.parse_same (h : set.Gives opt value form)
    (h' : set.Gives opt value form') (hpre : ¬ set.Awaits config pre) :
    (set.parse (pre ++ form ++ post) config).Same
      (set.parse (pre ++ form' ++ post) config) := by
  simp only [parse, append_assoc]
  rcases set.leads 0 pre config with ⟨_, hpre⟩ | hawaits | hstops
  · rw [hpre.loop_append, hpre.loop_append]
    exact h.same h'
  · exact absurd hawaits hpre
  · rw [hstops 0 (form ++ post) (form' ++ post)]
    exact ⟨rfl, rfl⟩

theorem argument_long {text : List Byte} (hne : text ≠ [])
    (hname : text.takeWhile (· ≠ 61#8) = name)
    (hopt : set.cliLongNameLookup name = some opt) :
    set.argument (ascii "--" ++ text) = .option opt (if 61#8 ∈ text then
      some ((text.dropWhile (· ≠ 61#8)).drop 1) else implied opt) := by
  change set.argument (45#8 :: 45#8 :: text) = _
  simp only [argument, hname, hopt, if_neg hne]

theorem gives_assigned (hname : 61#8 ∉ name)
    (hopt : set.cliLongNameLookup name = some opt) :
    set.Gives opt value [ascii "--" ++ (name ++ 61#8 :: value)] := by
  have hall : ∀ c ∈ name, decide (c ≠ 61#8) = true := by grind
  have htake : (name ++ 61#8 :: value).takeWhile (· ≠ 61#8) = name := by
    rw [takeWhile_append_of_pos hall]
    simp
  refine ⟨_, .inl ⟨rfl, ?_⟩⟩
  rw [argument_long (by simp) htake hopt, dropWhile_append_of_pos hall]
  simp

theorem argument_short {key : Byte} (hkey : key ≠ 45#8)
    (hopt : set.cliShortNameLookup key = some opt) :
    set.argument (45#8 :: key :: value) =
      .option opt (if value = [] then implied opt else some value) := by
  rw [argument] <;> simp_all

theorem parse_options (set : ConfigOptionSet σ) (config : σ)
    (args : List (List Byte)) :
    ((set.parse args config).code = none →
      (set.Behind config args (set.parse args config).pos ↔
        ¬ set.Terminated config args)) ∧
    ∀ pre post name value opt form, ¬ set.Awaits config pre →
      set.cliLongNameLookup name = some opt → name ≠ [] → 61#8 ∉ name →
      opt.isFlag = false → value ≠ [] →
      (form = [ascii "--" ++ name, value] ∨
        ∃ key, key ≠ 45#8 ∧ set.cliShortNameLookup key = some opt ∧
          (form = [[45#8, key], value] ∨ form = [45#8 :: key :: value])) →
      (set.parse (pre ++ [ascii "--" ++ (name ++ 61#8 :: value)] ++ post)
        config).Same (set.parse (pre ++ form ++ post) config) := by
  refine ⟨behind_iff, fun pre post name value opt form hpre hopt hne hname
    hflag hval hform => (gives_assigned hname hopt).parse_same ?_ hpre⟩
  rcases hform with rfl | ⟨key, hkey, hshort, rfl | rfl⟩
  · have htake : name.takeWhile (· ≠ 61#8) = name :=
      takeWhile_eq_self_iff.mpr (by grind)
    refine ⟨_, .inr ⟨rfl, ?_⟩⟩
    simp [argument_long hne htake hopt, hname, implied, hflag]
  · exact ⟨_, .inr ⟨rfl, by simp [argument_short hkey hshort, implied, hflag]⟩⟩
  · exact ⟨_, .inl ⟨rfl, by simp [argument_short hkey hshort, hval]⟩⟩

def verbose : ConfigOption :=
  ⟨ascii "global", ascii "verbose", ascii "v", false, true⟩

def num : ConfigOption := ⟨ascii "global", ascii "num", ascii "n", false, false⟩

def sample : ConfigOptionSet (List (List Byte)) where
  opts := [verbose, num]
  selectEntry _ config := config
  sync _ value config := .ok (value :: config)

theorem parse_options_sample :
    sample.Behind [] [ascii "--num=1"] 1 ∧
      (sample.parse [ascii "--num=1"] []).Same
        (sample.parse [ascii "-n1"] []) := by
  have h := parse_options sample [] [ascii "--num=1"]
  refine ⟨(h.1 rfl).mpr ?_, h.2 [] [] (ascii "num") (ascii "1") num _ ?_ rfl
    (by decide) (by decide) rfl (by decide)
    (.inr ⟨110#8, by decide, rfl, .inr rfl⟩)⟩
  · rintro ⟨_ | ⟨arg, pre⟩, rest, _, hargs, -, hne⟩
    · exact hne rfl
    · simp at hargs
  · rintro ⟨pre, arg, _, _, hargs, -⟩
    simp at hargs

/-- The position is the one of the terminator. -/
theorem parse_before_terminator :
    let args := [ascii "-v", ascii "--", ascii "x"]
    (sample.parse args []).code = none ∧ (sample.parse args []).pos = 1 ∧
      ¬ sample.Behind [] args 1 := by
  refine ⟨rfl, rfl, ?_⟩
  rintro ⟨pre, rest, _, hargs, -, ⟨rfl, hpos⟩ | ⟨hhead, hpos⟩⟩
  · grind
  · have hne : ascii "-v" ≠ ascii "--" := by decide
    grind

end ConfigOptionSet
end ActorFramework.Core

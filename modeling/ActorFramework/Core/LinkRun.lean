import ActorFramework.Core.AbstractActor
import ActorFramework.Foundation.Transition

/-!
# Links between actors

The link tables of two running actors agree and hold every link once.  An
actor that terminates, and a `link_to` that finds one of its two actors
terminated, announce the exit to each actor concerned exactly once, whatever
other calls do in between.
-/

namespace ActorFramework.Core

open Foundation List Option AbstractActor Attachable Function Envelope

variable {ι : Type*} [DecidableEq ι]

namespace AbstractActor

def links (self : AbstractActor ι) (other : ι) : Nat :=
  self.attachables.countP (Attachable.matchesToken ⟨other, .link⟩)

end AbstractActor

namespace Attachable

theorem matchesToken_makeLink (a b c : ι) :
    (makeLink a b).matchesToken ⟨c, .link⟩ = decide (b = c) := by
  simp only [makeLink, matchesToken, beq_self_eq_true, Bool.and_true]
  rw [Bool.eq_iff_iff, beq_iff_eq, decide_eq_true_iff]
  exact eq_comm

variable {x : Attachable ι}

theorem matchesToken_of_isLink_eq_false (h : x.isLink = false) (c : ι) :
    x.matchesToken ⟨c, .link⟩ = false := by
  match x, h with
  | .observe _ _ .monitor _, _ => exact Bool.and_false _
  | .functor _, _ => rfl

variable {what what' : ObserveToken ι}

theorem matchesToken_unique (h : x.matchesToken what = true)
    (h' : x.matchesToken what' = true) : what = what' := by
  cases x with
  | functor id => cases h
  | observe observed observer type priority =>
    simp only [matchesToken, Bool.and_eq_true, beq_iff_eq] at h h'
    rw [ObserveToken.mk.injEq]
    exact ⟨h.1.trans h'.1.symm, h.2.trans h'.2.symm⟩

end Attachable

theorem detachImpl_dryRun (what : ObserveToken ι) (xs : List (Attachable ι)) :
    (detachImpl what true true xs).1 = 0 ↔
      xs.countP (matchesToken what) = 0 := by
  induction xs with
  | nil => simp [detachImpl]
  | cons x xs ih =>
    by_cases hx : x.matchesToken what = true
    · simp [detachImpl, hx]
    · simp [detachImpl, hx, ih]

theorem detachImpl_countP_self (what : ObserveToken ι)
    (xs : List (Attachable ι)) :
    (detachImpl what true false xs).2.countP (matchesToken what) =
      xs.countP (matchesToken what) - 1 := by
  induction xs with
  | nil => rfl
  | cons x xs ih =>
    by_cases hx : x.matchesToken what = true
    · simp [detachImpl, hx]
    · simp [detachImpl, hx, ih]

theorem detachImpl_countP_of_ne (hne : what' ≠ what) (stopOnHit : Bool)
    (xs : List (Attachable ι)) :
    (detachImpl what stopOnHit false xs).2.countP
        (matchesToken what') =
      xs.countP (matchesToken what') := by
  induction xs with
  | nil => rfl
  | cons x xs ih =>
    by_cases hx : x.matchesToken what = true
    · have hother : x.matchesToken what' = false := by
        rw [Bool.eq_false_iff]
        intro hx'
        exact hne (matchesToken_unique hx' hx)
      cases stopOnHit with
      | true => simp [detachImpl, hx, hother]
      | false => simpa [detachImpl, hx, hother] using ih
    · simp [detachImpl, hx, countP_cons, ih]

theorem mem_of_mem_detachImpl {what : ObserveToken ι} {stopOnHit : Bool}
    {xs : List (Attachable ι)} (hx : x ∈ (detachImpl what stopOnHit false xs).2)
    : x ∈ xs := by
  induction xs with
  | nil => exact hx
  | cons y ys ih =>
    cases hmatch : y.matchesToken what with
    | false =>
      simp only [detachImpl, hmatch, Bool.false_eq_true, if_false,
        mem_cons] at hx ⊢
      exact hx.imp_right ih
    | true =>
      cases stopOnHit with
      | true =>
        simp only [detachImpl, hmatch, if_true, Bool.false_eq_true,
          if_false] at hx
        exact mem_cons_of_mem _ hx
      | false =>
        simp only [detachImpl, hmatch, if_true, Bool.false_eq_true,
          if_false] at hx
        exact mem_cons_of_mem _ (ih hx)

namespace AbstractActor

variable (self : AbstractActor ι)

theorem links_attachImpl_makeLink (a b c : ι) :
    (self.attachImpl (.makeLink a b)).links c =
      self.links c + if c = b then 1 else 0 := by
  by_cases h : c = b
  · simp [attachImpl, links, matchesToken_makeLink, h]
  · simp [attachImpl, links, matchesToken_makeLink, h, Ne.symm h]

theorem links_attachImpl (h : x.isLink = false) (c : ι) :
    (self.attachImpl x).links c = self.links c := by
  simp [attachImpl, links, matchesToken_of_isLink_eq_false h]

theorem links_detach_link (b c : ι) :
    (self.detach ⟨b, .link⟩ true).links c =
      if c = b then self.links c - 1 else self.links c := by
  by_cases h : c = b
  · subst h
    rw [if_pos rfl]
    exact detachImpl_countP_self _ _
  · rw [if_neg h]
    exact detachImpl_countP_of_ne (fun heq => h (ObserveToken.mk.inj heq).1)
      _ _

theorem links_detach {what : ObserveToken ι} (h : what.type ≠ .link)
    (stopOnHit : Bool) (c : ι) :
    (self.detach what stopOnHit).links c = self.links c :=
  detachImpl_countP_of_ne (fun heq => h (by rw [← heq])) _ _

end AbstractActor

inductive TableStep (f : ι → AbstractActor ι) :
    (ι → AbstractActor ι) → Prop
  | same : TableStep f f
  | linked {a b : ι} (hne : a ≠ b) (ha : (f a).terminated = false)
      (hb : (f b).terminated = false) (hnew : (f b).links a = 0) :
      TableStep f
        (Function.update
          (Function.update f b ((f b).attachImpl (.makeLink b a)))
          a ((f a).attachImpl (.makeLink a b)))
  | unlinked {a b : ι} (hne : a ≠ b) :
      TableStep f
        (Function.update
          (Function.update f b ((f b).detach ⟨a, .link⟩ true))
          a ((f a).detach ⟨b, .link⟩ true))
  | forgotten {a b : ι} (hgone : (f b).destroyed = true) :
      TableStep f (Function.update f a ((f a).detach ⟨b, .link⟩ true))
  | ended {a : ι} (ha : (f a).terminated = false) (reason : Nat) :
      TableStep f
        (Function.update f a
          { f a with
            attachables := [], terminated := true, failState := reason })
  | attached {a : ι} {x : Attachable ι} (ha : (f a).terminated = false)
      (hx : x.isLink = false) :
      TableStep f (Function.update f a ((f a).attachImpl x))
  | detached {a : ι} {what : ObserveToken ι} (hwhat : what.type ≠ .link) :
      TableStep f (Function.update f a ((f a).detach what false))
  | destroyed {a : ι} (ha : (f a).terminated = true) :
      TableStep f (Function.update f a { f a with destroyed := true })

theorem links_eq_zero_iff (self : AbstractActor ι) (x : ι) :
    (detachImpl ⟨x, .link⟩ true true self.attachables).1 = 0 ↔
      self.links x = 0 :=
  detachImpl_dryRun _ _

namespace LinkSystem

theorem set_same (s : LinkSystem ι) (a : ι) : s.set a (s.actors a) = s := by
  simp [set]

theorem addLink_cases (s : LinkSystem ι) (self x : ι) :
    ((s.actors self).terminated = true ∧
      s.addLink self x =
        s.finish
          [⟨self, .enqueue (makeExit self (s.actors self).failState x)⟩]
          []) ∨
    ((s.actors self).terminated = false ∧ (s.actors x).terminated = true ∧
      s.addLink self x =
        s.finish [] [makeExit x (s.actors x).failState self]) ∨
    ((s.actors self).terminated = false ∧ (s.actors x).terminated = false ∧
      (s.actors x).links self ≠ 0 ∧ s.addLink self x = s.finish [] []) ∨
    ((s.actors self).terminated = false ∧ (s.actors x).terminated = false ∧
      (s.actors x).links self = 0 ∧
      s.addLink self x =
        ((s.set x ((s.actors x).attachImpl (.makeLink x self))).set self
          ((s.actors self).attachImpl (.makeLink self x))).finish [] []) := by
  cases hself : (s.actors self).terminated with
  | true =>
    refine Or.inl ⟨rfl, ?_⟩
    rw [addLink, if_pos hself]
  | false =>
    cases hx : (s.actors x).terminated with
    | true =>
      refine Or.inr (Or.inl ⟨rfl, rfl, ?_⟩)
      simp [addLink, addBacklink, hself, hx, set_same]
    | false =>
      by_cases hnew : (s.actors x).links self = 0
      · refine Or.inr (Or.inr (Or.inr ⟨rfl, rfl, hnew, ?_⟩))
        simp [addLink, addBacklink, hself, hx, hnew, links_eq_zero_iff]
      · refine Or.inr (Or.inr (Or.inl ⟨rfl, rfl, hnew, ?_⟩))
        simp [addLink, addBacklink, hself, hx, hnew,
          links_eq_zero_iff, set_same]

inductive CallStep (s t : LinkSystem ι) : Prop
  | finished (duties : List (Duty ι)) (letters : List (Envelope ι))
      (hcalls : t.calls = s.calls + 1)
      (hduties : t.duties = Function.update s.duties s.calls duties)
      (hsent : t.sent = s.sent ++ letters.map fun letter => (s.calls, letter))
  | proceeded (call : Nat) (duty : Duty ι) (rest : List (Duty ι))
      (hduty : s.duties call = duty :: rest)
      (hcalls : t.calls = s.calls)
      (hduties : t.duties = Function.update s.duties call rest)
      (hsent : t.sent =
        s.sent ++ (s.perform duty.notice).map fun letter => (call, letter))
  | unchanged (hcalls : t.calls = s.calls) (hduties : t.duties = s.duties)
      (hsent : t.sent = s.sent)

structure Moves (s t : LinkSystem ι) : Prop where
  tables : TableStep s.actors t.actors
  calls : CallStep s t

section

variable (s : LinkSystem ι)

theorem linkTo_moves (self other : ι) : Moves s (s.linkTo self other) := by
  unfold linkTo
  split_ifs with hcall
  · exact ⟨.same, .finished _ _ rfl rfl rfl⟩
  · have hne : self ≠ other := by
      intro heq
      simp [heq] at hcall
    obtain ⟨-, h⟩ | ⟨-, -, h⟩ | ⟨-, -, -, h⟩ | ⟨hself, hother, hnew, h⟩ :=
      s.addLink_cases self other
    · rw [h]
      exact ⟨.same, .finished _ _ rfl rfl rfl⟩
    · rw [h]
      exact ⟨.same, .finished _ _ rfl rfl rfl⟩
    · rw [h]
      exact ⟨.same, .finished _ _ rfl rfl rfl⟩
    · rw [h]
      exact ⟨.linked hne hself hother hnew, .finished _ _ rfl rfl rfl⟩

theorem unlinkFrom_moves (self other : ι) :
    Moves s (s.unlinkFrom self other) := by
  unfold unlinkFrom
  split
  · rename_i hgone
    exact ⟨.forgotten hgone, .finished _ _ rfl rfl rfl⟩
  · split
    · exact ⟨.same, .finished _ _ rfl rfl rfl⟩
    · rename_i hother
      exact ⟨.unlinked fun heq => hother (by simp [heq]),
        .finished _ _ rfl rfl rfl⟩

theorem cleanup_moves (self : ι) (reason : Nat) :
    Moves s (s.cleanup self reason) := by
  unfold cleanup
  split_ifs with hself
  · exact ⟨.same, .finished _ _ rfl rfl rfl⟩
  · exact ⟨.ended (Bool.eq_false_iff.mpr hself) reason,
      .finished _ _ rfl rfl rfl⟩

theorem attach_moves (self : ι) {ptr : Attachable ι} (hptr : ptr.isLink = false)
    : Moves s (s.attach self ptr) := by
  unfold attach
  split_ifs with hself
  · exact ⟨.same, .finished _ _ rfl rfl rfl⟩
  · exact ⟨.attached (Bool.eq_false_iff.mpr hself) hptr,
      .finished _ _ rfl rfl rfl⟩

end

theorem step_moves {s t : LinkSystem ι} {action : LinkAction ι}
    (hstep : s.step action = some t) : Moves s t := by
  cases action with
  | linkTo self other =>
    simp only [step, ite_none_left_eq_some, some.injEq] at hstep
    exact hstep.2 ▸ s.linkTo_moves self other
  | unlinkFrom self other =>
    simp only [step, ite_none_left_eq_some, some.injEq] at hstep
    exact hstep.2 ▸ s.unlinkFrom_moves self other
  | cleanup self reason =>
    simp only [step, ite_none_left_eq_some, some.injEq] at hstep
    exact hstep.2 ▸ s.cleanup_moves self reason
  | attach self ptr =>
    simp only [step, ite_none_left_eq_some, some.injEq,
      Bool.or_eq_true, not_or, Bool.not_eq_true] at hstep
    exact hstep.2 ▸ s.attach_moves self hstep.1.2
  | detach self what =>
    simp only [step, ite_none_left_eq_some, some.injEq,
      Bool.or_eq_true, not_or, beq_iff_eq] at hstep
    rw [← hstep.2]
    exact ⟨.detached hstep.1.2, .finished _ _ rfl rfl rfl⟩
  | proceed call =>
    simp only [step] at hstep
    split at hstep
    · cases hstep
    · rename_i duty rest hduty
      cases hstep
      exact ⟨.same, .proceeded call duty rest hduty rfl rfl rfl⟩
  | destroy self =>
    simp only [step, ite_none_right_eq_some, some.injEq] at hstep
    rw [← hstep.2]
    exact ⟨.destroyed hstep.1.1, .unchanged rfl rfl rfl⟩

end LinkSystem

structure Tidy (address : ι) (actor : AbstractActor ι) : Prop where
  gone : actor.terminated = true → actor.attachables = []
  own : ∀ x ∈ actor.attachables, x.isLink = true →
    ∃ other, x = .makeLink address other
  late : actor.destroyed = true → actor.terminated = true

structure LinkTables (f : ι → AbstractActor ι) : Prop where
  tidy : ∀ a, Tidy a (f a)
  single : ∀ a b, (f a).links b ≤ 1
  symmetric : ∀ a b, (f a).terminated = false → (f b).terminated = false →
    (f a).links b = (f b).links a

theorem linkTables_initial :
    LinkTables (LinkSystem.initial : LinkSystem ι).actors where
  tidy _ := ⟨fun _ => rfl, fun _ hx => (nomatch hx), fun h => (nomatch h)⟩
  single _ _ := Nat.zero_le 1
  symmetric _ _ _ _ := rfl

namespace Tidy

variable {address : ι} {actor : AbstractActor ι}

omit [DecidableEq ι] in
theorem attachImpl (h : Tidy address actor) (hrun : actor.terminated = false)
    (hx : x.isLink = true → ∃ other, x = .makeLink address other) :
    Tidy address (actor.attachImpl x) where
  gone hgone := absurd (hrun.symm.trans hgone) Bool.false_ne_true
  own y hy hlink := by
    rcases mem_cons.mp hy with rfl | hy
    · exact hx hlink
    · exact h.own y hy hlink
  late := h.late

theorem detach (h : Tidy address actor) (what : ObserveToken ι)
    (stopOnHit : Bool) : Tidy address (actor.detach what stopOnHit) where
  gone hgone := by
    simp [AbstractActor.detach, h.gone hgone, detachImpl]
  own x hx := h.own x (mem_of_mem_detachImpl hx)
  late := h.late

end Tidy

theorem forall_update {P : ι → AbstractActor ι → Prop}
    {f : ι → AbstractActor ι} (hf : ∀ a, P a (f a)) {b : ι}
    {actor : AbstractActor ι} (hb : P b actor) (a : ι) :
    P a (update f b actor a) := by
  by_cases h : a = b
  · subst h
    rw [update_self]
    exact hb
  · rw [update_of_ne h]
    exact hf a

namespace TableStep

variable {f g : ι → AbstractActor ι}

theorem tidy (h : TableStep f g) (hf : ∀ a, Tidy a (f a)) :
    ∀ a, Tidy a (g a) := by
  cases h with
  | same => exact hf
  | @linked a b hne ha hb hnew =>
    refine forall_update (forall_update hf ?_) ?_
    · exact (hf b).attachImpl hb fun _ => ⟨a, rfl⟩
    · exact (hf a).attachImpl ha fun _ => ⟨b, rfl⟩
  | @unlinked a b hne =>
    exact forall_update (forall_update hf ((hf b).detach _ _))
      ((hf a).detach _ _)
  | @forgotten a b hgone | @detached a what hwhat =>
    exact forall_update hf ((hf a).detach _ _)
  | @ended a ha reason =>
    exact forall_update hf
      ⟨fun _ => rfl, fun _ hx => (nomatch hx), fun _ => rfl⟩
  | @attached a x ha hx =>
    refine forall_update hf ((hf a).attachImpl ha fun hlink => ?_)
    exact absurd (hx.symm.trans hlink) Bool.false_ne_true
  | @destroyed a ha =>
    exact forall_update hf
      { gone := (hf a).gone, own := (hf a).own, late := fun _ => ha }

theorem pairs (h : TableStep f g) (hf : LinkTables f) :
    (∀ a b, (g a).links b ≤ 1) ∧
      ∀ a b, (g a).terminated = false → (g b).terminated = false →
        (g a).links b = (g b).links a := by
  have hsingle := hf.single
  have hsymmetric := hf.symmetric
  cases h with
  | same => exact ⟨hsingle, hsymmetric⟩
  | @linked a b hne ha hb hnew =>
    constructor
    · grind [links_attachImpl_makeLink]
    · grind [links_attachImpl_makeLink, attachImpl]
  | @unlinked a b hne =>
    constructor
    · grind [links_detach_link]
    · grind [links_detach_link, detach]
  | @forgotten a b hgone =>
    -- The other actor was destroyed, so it terminated before.
    have hlate := (hf.tidy b).late hgone
    constructor
    · grind [links_detach_link]
    · grind [links_detach_link, detach]
  | @ended a ha reason =>
    constructor
    · grind [links]
    · grind [links]
  | @attached a x ha hx =>
    constructor
    · grind [links_attachImpl]
    · grind [links_attachImpl, attachImpl]
  | @detached a what hwhat =>
    constructor
    · grind [links_detach]
    · grind [links_detach, detach]
  | @destroyed a ha =>
    have hlinks : ∀ b, ({ f a with destroyed := true } :
        AbstractActor ι).links b = (f a).links b := fun _ => rfl
    constructor
    · grind
    · grind

theorem linkTables (h : TableStep f g) (hf : LinkTables f) : LinkTables g :=
  ⟨h.tidy hf.tidy, (h.pairs hf).1, (h.pairs hf).2⟩

end TableStep

theorem destroyed_mono {f g : ι → AbstractActor ι} (h : TableStep f g)
    {a : ι} (ha : (g a).destroyed = false) : (f a).destroyed = false := by
  cases h <;> grind [attachImpl, detach]

def Envelope.isExit (source target : ι) (letter : Envelope ι) : Bool :=
  letter.receiver == target &&
    match letter.content with
    | .exitMsg origin _ => origin == source
    | .downMsg _ _ => false

def Notice.announces (source target : ι) : Notice ι → Bool
  | .actorExited (.observe observed observer .link _) _ =>
    observed == source && observer == target
  | .actorExited _ _ => false
  | .enqueue element => element.isExit source target

namespace LinkSystem

def exits (s : LinkSystem ι) (call : Nat) (source target : ι) : Nat :=
  s.sent.countP fun entry =>
    entry.1 == call && entry.2.isExit source target

def due (s : LinkSystem ι) (call : Nat) (source target : ι) : Nat :=
  (s.duties call).countP fun duty => duty.notice.announces source target

structure Numbered (s : LinkSystem ι) : Prop where
  duties : ∀ call, s.calls ≤ call → s.duties call = []
  sent : ∀ entry ∈ s.sent, entry.1 < s.calls

omit [DecidableEq ι] in
theorem numbered_initial : Numbered (initial : LinkSystem ι) :=
  ⟨fun _ _ => rfl, fun _ hentry => (nomatch hentry)⟩

variable {s t : LinkSystem ι} {source target : ι}

omit [DecidableEq ι] in
theorem CallStep.numbered (h : CallStep s t) (hs : Numbered s) :
    Numbered t := by
  cases h with
  | finished duties letters hcalls hduties hsent =>
    constructor
    · intro call hcall
      rw [hduties, update_of_ne (by omega)]
      exact hs.duties call (by omega)
    · intro entry hentry
      rw [hsent, mem_append, List.mem_map] at hentry
      rcases hentry with hentry | ⟨letter, -, rfl⟩
      · have := hs.sent entry hentry
        omega
      · simp [hcalls]
  | proceeded call duty rest hduty hcalls hduties hsent =>
    have hcall : call < s.calls := by
      by_contra hlate
      rw [hs.duties call (by omega)] at hduty
      cases hduty
    constructor
    · intro other hother
      rw [hduties, update_of_ne (by omega)]
      exact hs.duties other (by omega)
    · intro entry hentry
      rw [hsent, mem_append, List.mem_map] at hentry
      rcases hentry with hentry | ⟨letter, -, rfl⟩
      · exact hcalls ▸ hs.sent entry hentry
      · exact hcalls ▸ hcall
  | unchanged hcalls hduties hsent =>
    refine ⟨?_, ?_⟩
    · rw [hcalls, hduties]
      exact hs.duties
    · rw [hcalls, hsent]
      exact hs.sent

theorem perform_exits (s : LinkSystem ι) (notice : Notice ι)
    (htarget : (s.actors target).destroyed = false) :
    (s.perform notice).countP (isExit source target) =
      if notice.announces source target then 1 else 0 := by
  match notice with
  | .enqueue element =>
    rw [perform, countP_singleton]
    rfl
  | .actorExited (.functor id) reason => rfl
  | .actorExited (.observe observed observer .monitor priority) reason =>
    simp only [perform, actorExited, Notice.announces]
    split <;> simp [isExit]
  | .actorExited (.observe observed observer .link priority) reason =>
    by_cases hreceiver : observer = target
    · subst hreceiver
      simp [perform, actorExited, Notice.announces, isExit, htarget]
    · simp only [perform, actorExited, Notice.announces]
      split <;> simp [isExit, hreceiver]

/-- The call accounts for `n` exit messages from `source` to `target`, sent
or still to be sent. -/
def Owes (call : Nat) (source target : ι) (n : Nat) (s : LinkSystem ι) : Prop :=
  call < s.calls ∧
    ((s.actors target).destroyed = false →
      s.exits call source target + s.due call source target = n)

theorem exits_append (s : LinkSystem ι) (call number : Nat)
    (letters : List (Envelope ι)) (source target : ι) :
    (s.sent ++ letters.map fun letter => (number, letter)).countP
        (fun entry => entry.1 == call && entry.2.isExit source target) =
      s.exits call source target +
        if number = call then letters.countP (isExit source target)
        else 0 := by
  rw [countP_append, countP_map]
  congr 1
  split_ifs with hcall
  · subst hcall
    refine countP_congr fun letter _ => ?_
    simp
  · simp [hcall]

variable {call n : Nat} {actions : List (LinkAction ι)} {self : ι}

theorem Owes.step (h : Owes call source target n s) (hmoves : Moves s t) :
    Owes call source target n t := by
  obtain ⟨hcall, hsum⟩ := h
  cases hmoves.calls with
  | finished duties letters hcalls hduties hsent =>
    refine ⟨by omega, fun htarget => ?_⟩
    rw [← hsum (destroyed_mono hmoves.tables htarget), exits, hsent,
      exits_append, if_neg (by omega), due, hduties, update_of_ne (by omega)]
    rfl
  | proceeded other duty rest hduty hcalls hduties hsent =>
    refine ⟨by omega, fun htarget => ?_⟩
    have halive := destroyed_mono hmoves.tables htarget
    rw [← hsum halive, exits, hsent, exits_append, due, hduties]
    by_cases hother : other = call
    · subst hother
      rw [if_pos rfl, update_self, s.perform_exits _ halive, due,
        hduty, countP_cons]
      omega
    · rw [if_neg hother, update_of_ne (Ne.symm hother)]
      rfl
  | unchanged hcalls hduties hsent =>
    refine ⟨by omega, fun htarget => ?_⟩
    rw [← hsum (destroyed_mono hmoves.tables htarget), exits, hsent, due,
      hduties]
    rfl

theorem Owes.exec (h : Owes call source target n s)
    (hrun : Foundation.exec LinkSystem.step s actions = some t) :
    Owes call source target n t :=
  exec_invariant (Owes call source target n)
    (fun _ _ _ hs hstep => hs.step (step_moves hstep)) h hrun

theorem owes_finish (hs : Numbered s) (f : ι → AbstractActor ι)
    (duties : List (Duty ι)) (letters : List (Envelope ι)) (source target : ι) :
    Owes s.calls source target
      (letters.countP (isExit source target) +
        duties.countP fun duty => duty.notice.announces source target)
      ({ s with actors := f }.finish duties letters) := by
  refine ⟨Nat.lt_succ_self _, fun _ => ?_⟩
  have hfresh : s.exits s.calls source target = 0 := by
    refine countP_eq_zero.mpr fun entry hentry => ?_
    have := hs.sent entry hentry
    simp only [Bool.and_eq_true, beq_iff_eq, not_and]
    omega
  have hsent := s.exits_append s.calls s.calls letters source target
  rw [hfresh, if_pos rfl, Nat.zero_add] at hsent
  simp [finish, exits, due, hsent]

theorem announces_attachables {actor : AbstractActor ι} (h : Tidy self actor)
    (reason : Nat) (other : ι) :
    ((actor.attachables.map fun x =>
        (⟨self, .actorExited x reason⟩ : Duty ι)).countP
      fun duty => duty.notice.announces self other) = actor.links other := by
  rw [countP_map]
  refine countP_congr fun x hx => ?_
  cases hlink : x.isLink with
  | true =>
    obtain ⟨b, rfl⟩ := h.own x hx hlink
    rw [matchesToken_makeLink, decide_eq_true_iff]
    simp [makeLink, Notice.announces]
  | false =>
    rw [matchesToken_of_isLink_eq_false hlink]
    match x, hlink with
    | .observe _ _ .monitor _, _ => exact Iff.rfl
    | .functor _, _ => exact Iff.rfl

theorem cleanup_owes (hs : Numbered s) (htidy : Tidy self (s.actors self))
    (hself : (s.actors self).terminated = false) (reason : Nat) (other : ι) :
    Owes s.calls self other ((s.actors self).links other)
      (s.cleanup self reason) := by
  have h := owes_finish hs
    (update s.actors self
      { s.actors self with
        attachables := [], terminated := true, failState := reason })
    ((s.actors self).attachables.map fun x => ⟨self, .actorExited x reason⟩)
    [] self other
  rw [announces_attachables htidy, countP_nil, Nat.zero_add] at h
  rwa [cleanup, if_neg (by simp [hself])]

theorem linkTo_refused (hs : Numbered s) {a b gone alive : ι}
    (hpair : (a = gone ∧ b = alive) ∨ (a = alive ∧ b = gone))
    (hgone : (s.actors gone).terminated = true)
    (halive : (s.actors alive).terminated = false)
    (hexists : (s.actors b).destroyed = false) :
    (s.linkTo a b).actors = s.actors ∧
      Owes s.calls gone alive 1 (s.linkTo a b) := by
  have hne : gone ≠ alive := by
    rintro rfl
    exact absurd (halive.symm.trans hgone) Bool.false_ne_true
  have hcall : s.linkTo a b = s.addLink a b := by
    rw [linkTo, if_neg]
    rcases hpair with ⟨rfl, rfl⟩ | ⟨rfl, rfl⟩
    · simp [hexists, hne.symm]
    · simp [hexists, hne]
  rw [hcall]
  rcases hpair with ⟨rfl, rfl⟩ | ⟨rfl, rfl⟩
  · have h := owes_finish hs s.actors
      [⟨a, .enqueue (makeExit a (s.actors a).failState b)⟩] [] a b
    rw [addLink, if_pos hgone]
    exact ⟨rfl, by simpa [Notice.announces, isExit, makeExit] using h⟩
  · have h := owes_finish hs s.actors []
      [makeExit b (s.actors b).failState a] b a
    obtain ⟨ha, -⟩ | ⟨-, -, heq⟩ | ⟨-, hb, -⟩ | ⟨-, hb, -⟩ :=
      s.addLink_cases a b
    · exact absurd (halive.symm.trans ha) Bool.false_ne_true
    · rw [heq]
      exact ⟨rfl, by simpa [isExit, makeExit] using h⟩
    · exact absurd (hb.symm.trans hgone) Bool.false_ne_true
    · exact absurd (hb.symm.trans hgone) Bool.false_ne_true

theorem run_inv (hrun : exec step initial actions = some s) :
    LinkTables s.actors ∧ Numbered s :=
  exec_invariant (fun t => LinkTables t.actors ∧ Numbered t)
    (fun _ _ _ h hstep =>
      ⟨(step_moves hstep).tables.linkTables h.1,
        (step_moves hstep).calls.numbered h.2⟩)
    ⟨linkTables_initial, numbered_initial⟩ hrun

end LinkSystem

open LinkSystem in
/-- In every reachable state an actor holds at most one link to another one
and the links of two running actors are symmetric.  In every continuation, the
exit messages a terminating actor has sent and is still going to send are one
for each actor it was linked to, and a `link_to` between a terminated and a
running actor, whichever calls it, adds no link and accounts for exactly one
exit message to the running one.  What a call is still going to do never
blocks. -/
theorem links_symmetric_and_announced_once
    {s : LinkSystem ι} {actions : List (LinkAction ι)}
    (hrun : exec step initial actions = some s) :
    (∀ a b, (s.actors a).links b ≤ 1) ∧
    (∀ a b, (s.actors a).terminated = false →
      (s.actors b).terminated = false →
      (s.actors a).links b = (s.actors b).links a) ∧
    (∀ a reason t later u, (s.actors a).terminated = false →
      s.step (.cleanup a reason) = some t → exec step t later = some u →
      ∀ b, (u.actors b).destroyed = false →
        u.exits s.calls a b + u.due s.calls a b = (s.actors a).links b) ∧
    (∀ a b gone alive t later u,
      (a = gone ∧ b = alive) ∨ (a = alive ∧ b = gone) →
      (s.actors gone).terminated = true →
      (s.actors alive).terminated = false →
      (s.actors b).destroyed = false →
      s.step (.linkTo a b) = some t → exec step t later = some u →
      (∀ x y, (t.actors x).links y = (s.actors x).links y) ∧
        ((u.actors alive).destroyed = false →
          u.exits s.calls gone alive + u.due s.calls gone alive = 1)) ∧
    (∀ call, s.duties call ≠ [] → ∃ t, s.step (.proceed call) = some t) := by
  obtain ⟨htables, hnumbered⟩ := run_inv hrun
  refine ⟨htables.single, htables.symmetric, ?_, ?_, ?_⟩
  · intro a reason t later u ha hstep hlater b hb
    simp only [step, ite_none_left_eq_some, some.injEq] at hstep
    obtain ⟨-, rfl⟩ := hstep
    exact ((cleanup_owes hnumbered (htables.tidy a) ha reason b).exec
      hlater).2 hb
  · intro a b gone alive t later u hpair hgone halive hexists hstep hlater
    simp only [step, ite_none_left_eq_some, some.injEq] at hstep
    obtain ⟨-, rfl⟩ := hstep
    obtain ⟨hsame, howes⟩ :=
      linkTo_refused hnumbered hpair hgone halive hexists
    refine ⟨fun x y => ?_, (howes.exec hlater).2⟩
    rw [hsame]
  · intro call hduties
    obtain ⟨duty, rest, hcall⟩ := List.exists_cons_of_ne_nil hduties
    simp [step, hcall]

open LinkSystem in
/-- Actors 0 and 1 are linked, 0 terminates and tells 1; then 1 tries to link
to 0 again. -/
theorem links_announced_after_cleanup :
    ∃ s t u v w : LinkSystem Nat,
      exec step initial [.linkTo 0 1] = some s ∧
      s.step (.cleanup 0 7) = some t ∧ exec step t [.proceed 1] = some u ∧
      (u.exits 1 0 1 + u.due 1 0 1 = 1 ∧ u.due 1 0 1 = 0) ∧
      exec step initial [.linkTo 0 1, .cleanup 0 7, .proceed 1] = some v ∧
      v.step (.linkTo 1 0) = some w ∧ (w.actors 1).links 0 = 1 ∧
      w.exits 2 0 1 + w.due 2 0 1 = 1 := by
  refine ⟨_, _, _, _, _, rfl, rfl, rfl, ⟨?_, rfl⟩, rfl, rfl, rfl, ?_⟩
  · have hlinked : exec step (initial : LinkSystem Nat) [.linkTo 0 1] =
        some _ := rfl
    exact (links_symmetric_and_announced_once hlinked).2.2.1 0 7 _
      [.proceed 1] _ rfl rfl rfl 1 (by rfl)
  · have hgone : exec step (initial : LinkSystem Nat)
        [.linkTo 0 1, .cleanup 0 7, .proceed 1] = some _ := rfl
    exact ((links_symmetric_and_announced_once hgone).2.2.2.1 1 0 0 1 _ [] _
      (Or.inr ⟨rfl, rfl⟩) rfl rfl rfl rfl rfl).2 (by rfl)

end ActorFramework.Core

import ActorFramework.Flow.UcastSubState

/-!
# Runs of a unicast subscription

What was delivered and what waits in the buffer are the pushed items, in
order.  Demand that was requested and not met yet is either in `demand`, and
then the buffer is empty, or in flight, and then a pull is under way.
-/

namespace ActorFramework.Flow

open Foundation List Observer

variable {τ : Type*}

namespace UcastSubState

variable (s : UcastSubState τ)

def pulled : Option Nat :=
  match s.frames with
  | .pull val :: _ => some val
  | _ => none

def waiting : List τ :=
  match s.pulled with
  | none => s.buf
  | some _ => s.buf.tail

/-- Demand that is counted twice while `do_pull` calls `on_next`: its own
argument, and the item that the observer is looking at. -/
def doubled : Nat :=
  match s.pulled with
  | none => 0
  | some val => val + 1

def PullUnderWay : Prop :=
  0 < s.scheduled ∨ s.frames = [.head] ∨ ∃ val, s.frames = [.pull val]

structure Live (s : UcastSubState τ) : Prop where
  order : s.out.delivered ++ s.waiting = s.accepted
  account : s.requested + s.doubled =
    s.out.delivered.length + s.demand + s.inFlightDemand
  front : ∀ val, s.frames = [.pull val] → s.buf ≠ [] ∧ 0 < s.demand
  quiet : s.inFlightDemand = 0 → 0 < s.demand → s.buf = []
  all : s.accepted = s.pushed

structure Dead (s : UcastSubState τ) : Prop where
  empty : s.buf = []
  order : s.out.delivered <+: s.accepted
  account : s.out.delivered.length ≤ s.requested
  all : s.accepted <+: s.pushed
  ended : ∀ event ∈ s.out.ending, event ≠ .disposed →
    s.closed = true ∧ s.out.delivered = s.accepted

structure Sound (s : UcastSubState τ) : Prop where
  lawful : s.out.Lawful
  valid : s.out.valid = !s.disposed
  head : .head ∈ s.frames → s.frames = [.head]
  pull : ∀ val, .pull val ∈ s.frames →
    s.frames = [.pull val] ∧ 0 < val ∧ val ≤ s.inFlightDemand
  scheduled : 0 < s.inFlightDemand → s.PullUnderWay
  live : s.disposed = false → Live s
  dead : s.disposed = true → Dead s

theorem sound_initial : Sound ({} : UcastSubState τ) where
  lawful := lawful_initial
  valid := rfl
  head := nofun
  pull := nofun
  scheduled := nofun
  live _ := ⟨rfl, rfl, nofun, fun _ _ => rfl, rfl⟩
  dead := nofun

variable {s t : UcastSubState τ} {val : Nat}

theorem Sound.pulled_cases (hs : Sound s) :
    s.pulled = none ∧ (∀ val, .pull val ∉ s.frames) ∨
      ∃ val, s.frames = [.pull val] ∧ s.pulled = some val := by
  cases hframes : s.frames with
  | nil => exact .inl ⟨by rw [pulled, hframes], nofun⟩
  | cons frame rest =>
    cases frame with
    | pull val =>
      have hone := (hs.pull val (by rw [hframes]; simp)).1
      rw [hframes] at hone
      exact .inr ⟨val, hone, by rw [pulled, hframes]⟩
    | push | head =>
      refine .inl ⟨by rw [pulled, hframes], fun val hmem => ?_⟩
      rw [← hframes] at hmem
      have hone := (hs.pull val hmem).1
      rw [hframes] at hone
      cases hone

theorem Sound.pulled_eq_none (hs : Sound s) (hpull : s.isPulling = false) :
    s.pulled = none := by
  rcases hs.pulled_cases with ⟨hnone, _⟩ | ⟨val, hframes, _⟩
  · exact hnone
  · obtain ⟨_, hpos, hle⟩ := hs.pull val (by rw [hframes]; simp)
    simp only [isPulling, decide_eq_false_iff_not] at hpull
    omega

theorem Live.within (hs : Sound s) (hlive : Live s) :
    s.out.delivered <+: s.accepted ∧
      s.out.delivered.length ≤ s.requested := by
  refine ⟨⟨s.waiting, hlive.order⟩, ?_⟩
  have hacc := hlive.account
  rcases hs.pulled_cases with ⟨hnone, _⟩ | ⟨val, hframes, hsome⟩
  · rw [doubled, hnone] at hacc
    simp only at hacc
    omega
  · obtain ⟨_, _, hle⟩ := hs.pull val (by rw [hframes]; simp)
    obtain ⟨_, hdem⟩ := hlive.front val hframes
    rw [doubled, hsome] at hacc
    simp only at hacc
    omega

theorem Sound.keep (hs : Sound s) (hframes : t.frames = s.frames)
    (hflight : t.inFlightDemand = s.inFlightDemand)
    (hsched : t.scheduled = s.scheduled) (hlawful : t.out.Lawful)
    (hvalid : t.out.valid = !t.disposed) (hlive : t.disposed = false → Live t)
    (hdead : t.disposed = true → Dead t) : Sound t := by
  refine ⟨hlawful, hvalid, ?_, ?_, ?_, hlive, hdead⟩
  · rw [hframes]
    exact hs.head
  · rw [hframes, hflight]
    exact hs.pull
  · rw [hflight, PullUnderWay, hsched, hframes]
    exact hs.scheduled

theorem Live.kill {s t : UcastSubState τ} (hs : Sound s) (hlive : Live s)
    (hbuf : t.buf = []) (hdeliv : t.out.delivered = s.out.delivered)
    (haccepted : t.accepted = s.accepted) (hpushed : t.pushed = s.pushed)
    (hreq : t.requested = s.requested)
    (hended : ∀ event ∈ t.out.ending, event ≠ .disposed →
      t.closed = true ∧ s.waiting = []) : Dead t := by
  obtain ⟨horder, hacc⟩ := hlive.within hs
  refine ⟨hbuf, ?_, ?_, ?_, ?_⟩
  · rw [hdeliv, haccepted]
    exact horder
  · rw [hdeliv, hreq]
    exact hacc
  · exact ⟨[], by rw [append_nil, haccepted, hpushed, hlive.all]⟩
  · intro event hevent hkind
    obtain ⟨hclosed, hwait⟩ := hended event hevent hkind
    refine ⟨hclosed, ?_⟩
    rw [hdeliv, haccepted, ← hlive.order, hwait, append_nil]

section

variable (hs : Sound s)
include hs

theorem Sound.hasOut (hdisp : s.disposed = false) : s.out.valid = true := by
  rw [hs.valid, hdisp]
  rfl

theorem Sound.ending_nil (hdisp : s.disposed = false) : s.out.ending = [] :=
  hs.lawful.running (hs.hasOut hdisp)

theorem Sound.dispose : Sound s.dispose := by
  unfold UcastSubState.dispose
  split
  · exact hs
  · rename_i hdisp
    rw [Bool.not_eq_true] at hdisp
    have hout := hs.hasOut hdisp
    rw [if_pos hout]
    refine hs.keep rfl rfl rfl (hs.lawful.finish rfl hout) rfl nofun fun _ => ?_
    refine (hs.live hdisp).kill hs rfl
      (finish_delivered s.out rfl) rfl rfl rfl ?_
    intro event hevent hkind
    rw [finish_ending s.out rfl, hs.ending_nil hdisp,
      nil_append, mem_singleton] at hevent
    exact absurd hevent hkind

theorem Sound.cancel : Sound s.cancel := by
  unfold UcastSubState.cancel
  split_ifs with hdisp
  · exact hs
  · rw [Bool.not_eq_true] at hdisp
    refine hs.keep rfl rfl rfl hs.lawful.release rfl nofun fun _ => ?_
    refine (hs.live hdisp).kill hs rfl rfl rfl rfl rfl ?_
    intro event hevent
    rw [release_ending, hs.ending_nil hdisp] at hevent
    cases hevent

theorem Sound.finish {event : FlowEvent τ} (hdisp : s.disposed = false)
    (hclosed : s.closed = true) (hterm : event.isTerminal = true) :
    Sound (s.finish event) := by
  unfold UcastSubState.finish
  split
  · rename_i hquiet
    rw [Bool.and_eq_true, Bool.not_eq_true', List.isEmpty_iff] at hquiet
    have hout := hs.hasOut hdisp
    rw [if_pos hout]
    refine hs.keep rfl rfl rfl (hs.lawful.finish hterm hout) rfl nofun
      fun _ => ?_
    refine (hs.live hdisp).kill hs hquiet.2
      (finish_delivered s.out hterm) rfl rfl rfl ?_
    intro _ _ _
    refine ⟨hclosed, ?_⟩
    rw [waiting, hs.pulled_eq_none hquiet.1]
    exact hquiet.2
  · exact hs

theorem Sound.mark (err : Option Nat) (hdisp : s.disposed = false) :
    Sound { s with closed := true, err := err } := by
  have hlive := hs.live hdisp
  refine hs.keep rfl rfl rfl hs.lawful hs.valid (fun _ => ?_) fun hdead => ?_
  · exact { hlive with }
  · exact absurd (hdisp.symm.trans hdead) nofun

theorem Sound.close : Sound s.close := by
  unfold UcastSubState.close
  split_ifs with hdisp
  · exact hs
  · rw [Bool.not_eq_true] at hdisp
    exact (hs.mark s.err hdisp).finish hdisp rfl rfl

theorem Sound.abort (reason : Option Nat) : Sound (s.abort reason) := by
  unfold UcastSubState.abort
  split_ifs with hboth
  · exact hs
  · rw [Bool.or_eq_true, not_or, Bool.not_eq_true] at hboth
    exact (hs.mark reason hboth.1).finish hboth.1 rfl rfl

theorem Live.push_now (item : τ) (hlive : Live s) (hdem : 0 < s.demand)
    (hpull : s.isPulling = false) :
    Live { s with
      demand := s.demand - 1
      out := s.out.onNext item
      frames := .push :: s.frames
      accepted := s.accepted ++ [item]
      pushed := s.pushed ++ [item] } := by
  have hnone := hs.pulled_eq_none hpull
  simp only [isPulling, decide_eq_false_iff_not, Nat.not_lt,
    Nat.le_zero] at hpull
  have hempty := hlive.quiet hpull hdem
  have horder := hlive.order
  have hacc := hlive.account
  rw [waiting, hnone, hempty, append_nil] at horder
  rw [doubled, hnone] at hacc
  refine ⟨?_, ?_, nofun, fun _ _ => hempty, ?_⟩
  · simp [waiting, pulled, hempty, horder]
  · simp only [doubled, pulled, onNext_delivered, length_append,
      length_singleton] at hacc ⊢
    omega
  · rw [hlive.all]

theorem Live.push_later (item : τ) (hlive : Live s)
    (hwait : 0 < s.demand → 0 < s.inFlightDemand) :
    Live { s with
      buf := s.buf ++ [item]
      accepted := s.accepted ++ [item]
      pushed := s.pushed ++ [item] } := by
  have horder := hlive.order
  refine ⟨?_, hlive.account, fun val hval => ?_, ?_, ?_⟩
  · rw [waiting] at horder
    change _ ++ (match s.pulled with
      | none => s.buf ++ [item]
      | some _ => (s.buf ++ [item]).tail) = s.accepted ++ [item]
    rcases hs.pulled_cases with ⟨hnone, _⟩ | ⟨val, hval, hsome⟩
    · simp [← horder, hnone]
    · simp [← horder, hsome, tail_append_of_ne_nil (hlive.front val hval).1]
  · exact ⟨by simp, (hlive.front val hval).2⟩
  · intro hzero hpos
    have hflight := hwait hpos
    exact absurd hzero (Nat.pos_iff_ne_zero.mp hflight)
  · rw [hlive.all]

theorem Sound.push (item : τ) (hopen : s.interruptible = true) :
    Sound
      ({ s with
        pushed := s.pushed ++ [item]
        accepted :=
          if s.disposed then s.accepted
          else s.accepted ++ [item] }.push item) := by
  unfold UcastSubState.push
  cases hdisp : s.disposed with
  | true =>
    have hdead := hs.dead hdisp
    have hvalid := hs.valid
    rw [hdisp] at hvalid
    refine hs.keep rfl rfl rfl hs.lawful hvalid nofun fun _ => ?_
    · exact { hdead with all := hdead.all.trans (prefix_append _ _) }
  | false =>
    have hlive := hs.live hdisp
    have hout := hs.hasOut hdisp
    simp only [Bool.false_eq_true, if_false]
    split
    · rename_i hnow
      simp only [isPulling, Bool.and_eq_true, decide_eq_true_eq,
        Bool.not_eq_true', decide_eq_false_iff_not] at hnow
      have hpull : s.isPulling = false := by
        simpa [isPulling] using hnow.2
      refine ⟨hs.lawful.onNext item hout, ?_, ?_, ?_, ?_, fun _ => ?_,
        nofun⟩
      · rw [onNext_valid, hout]
        rfl
      · intro hhead
        rcases mem_cons.mp hhead with hhead | hhead
        · cases hhead
        · exact absurd (hs.head hhead) (by simpa [interruptible] using hopen)
      · intro val hval
        rcases mem_cons.mp hval with hval | hval
        · cases hval
        · obtain ⟨_, hpos, hle⟩ := hs.pull val hval
          omega
      · intro hflying
        exact absurd hflying hnow.2
      · simpa [hdisp] using hlive.push_now hs item hnow.1 hpull
    · rename_i hlater
      have hwait : 0 < s.demand → 0 < s.inFlightDemand := by
        intro hdem
        simp only [isPulling, Bool.and_eq_true, decide_eq_true_eq,
          Bool.not_eq_true', decide_eq_false_iff_not, not_and,
          Decidable.not_not] at hlater
        exact hlater hdem
      refine hs.keep rfl rfl rfl hs.lawful ?_ (fun _ => ?_) nofun
      · rw [hout]
        rfl
      · simpa [hdisp] using hlive.push_later hs item hwait

theorem Sound.request (n : Nat) :
    Sound ({ s with requested := s.requested + n }.request n) := by
  unfold UcastSubState.request
  split
  · rename_i hempty
    have hbuf := List.isEmpty_iff.mp hempty
    refine hs.keep rfl rfl rfl hs.lawful hs.valid (fun hdisp => ?_)
      fun hdisp => ?_
    · have hlive := hs.live hdisp
      have hacc := hlive.account
      refine ⟨hlive.order, ?_, ?_, fun _ _ => hbuf, hlive.all⟩
      · change s.requested + n + s.doubled =
          s.out.delivered.length + (s.demand + n) + s.inFlightDemand
        omega
      · intro val hval
        exact absurd hbuf (hlive.front val hval).1
    · have hdead := hs.dead hdisp
      exact { hdead with
        account := Nat.le_trans hdead.account (Nat.le_add_right _ n) }
  · rename_i hfilled
    have hbuf : s.buf ≠ [] := fun hempty =>
      hfilled (List.isEmpty_iff.mpr hempty)
    have hdisp : s.disposed = false := by
      rw [← Bool.not_eq_true]
      exact fun hdisp => hbuf (hs.dead hdisp).empty
    have hlive := hs.live hdisp
    have hacc := hlive.account
    refine ⟨hs.lawful, hs.valid, hs.head, ?_, ?_, fun _ => ?_,
      fun hdead => absurd (hdisp.symm.trans hdead) nofun⟩
    · intro val hval
      obtain ⟨hone, hpos, hle⟩ := hs.pull val hval
      exact ⟨hone, hpos, Nat.le_trans hle (Nat.le_add_right _ n)⟩
    · intro _
      by_cases hzero : s.inFlightDemand = 0
      · refine .inl ?_
        simp only [UcastSubState.pull, if_pos hzero]
        exact Nat.succ_pos _
      · have hunder := hs.scheduled (Nat.pos_of_ne_zero hzero)
        simp only [PullUnderWay, UcastSubState.pull, if_neg hzero]
        exact hunder
    · refine { hlive with account := ?_, quiet := ?_ }
      · change s.requested + n + s.doubled =
          s.out.delivered.length + s.demand + (s.inFlightDemand + n)
        omega
      · intro hzero
        refine hlive.quiet ?_
        change s.inFlightDemand + n = 0 at hzero
        omega

theorem Sound.runPull (hframes : s.frames = []) :
    Sound { s with scheduled := s.scheduled - 1, frames := [.head] } := by
  refine ⟨hs.lawful, hs.valid, fun _ => rfl, ?_, ?_, fun hdisp => ?_,
    fun hdisp => ?_⟩
  · intro val hval
    cases mem_singleton.mp hval
  · exact fun _ => .inr (.inl rfl)
  · have hlive := hs.live hdisp
    have horder := hlive.order
    have hacc := hlive.account
    rw [waiting, pulled, hframes] at horder
    rw [doubled, pulled, hframes] at hacc
    exact ⟨horder, hacc, nofun, hlive.quiet, hlive.all⟩
  · have hdead := hs.dead hdisp
    exact { hdead with }

end

structure Ready (s : UcastSubState τ) (val : Nat) : Prop where
  lawful : s.out.Lawful
  disposed : s.disposed = false
  valid : s.out.valid = true
  order : s.out.delivered ++ s.buf = s.accepted
  account : s.requested + val =
    s.out.delivered.length + s.demand + s.inFlightDemand
  le : val ≤ s.inFlightDemand
  quiet : val = 0 → 0 < s.demand → s.buf = []
  all : s.accepted = s.pushed

theorem mem_head_or_nil {c : Prop} [Decidable c] {frame : Frame}
    (hmem : frame ∈ if c then [Frame.head] else []) :
    frame = .head ∧ (if c then [Frame.head] else []) = [.head] := by
  split_ifs at hmem with hc
  · rw [if_pos hc]
    exact ⟨mem_singleton.mp hmem, rfl⟩
  · cases hmem

theorem finishIteration_pulled (s : UcastSubState τ) (val : Nat) :
    (s.finishIteration val).pulled = none := by
  unfold finishIteration pulled
  split
  · rename_i hframes
    simp only at hframes
    split at hframes <;> cases hframes
  · rfl

theorem Sound.of_finishIteration (hlawful : s.out.Lawful)
    (hvalid : s.out.valid = !s.disposed)
    (hlive : s.disposed = false → Live (s.finishIteration val))
    (hdead : s.disposed = true → Dead s) : Sound (s.finishIteration val) := by
  refine ⟨hlawful, hvalid, ?_, ?_, ?_, hlive, ?_⟩
  · exact fun hhead => (mem_head_or_nil hhead).2
  · intro val' hval
    cases (mem_head_or_nil hval).1
  · intro hflying
    refine .inr (.inl ?_)
    exact if_pos hflying
  · intro hdisp
    have hs := hdead hdisp
    exact { hs with }

theorem Ready.finishIteration (hs : Ready s val)
    (hdone : 0 < s.demand → s.buf = []) : Sound (s.finishIteration val) := by
  have hacc := hs.account
  have hle := hs.le
  refine Sound.of_finishIteration hs.lawful ?_ (fun _ => ?_) fun hdead => ?_
  · rw [hs.valid, hs.disposed]
    rfl
  · refine ⟨?_, ?_, ?_, fun _ => hdone, hs.all⟩
    · rw [waiting, finishIteration_pulled]
      exact hs.order
    · rw [doubled, finishIteration_pulled]
      change s.requested + 0 =
        s.out.delivered.length + s.demand + (s.inFlightDemand - val)
      omega
    · intro val' hval
      have hmem : Frame.pull val' ∈ (s.finishIteration val).frames := by
        rw [hval]
        exact mem_singleton_self _
      cases (mem_head_or_nil hmem).1
  · exact absurd (hs.disposed.symm.trans hdead) nofun

theorem endEvent_isTerminal (s : UcastSubState τ) :
    s.endEvent.isTerminal = true := by
  unfold endEvent
  cases s.err <;> rfl

theorem Ready.terminate (hs : Ready s val) (hbuf : s.buf = [])
    (hclosed : s.closed = true) : Sound (s.terminate.finishIteration val) := by
  have horder := hs.order
  have hacc := hs.account
  have hle := hs.le
  have hterm := endEvent_isTerminal s
  have hdeliv := finish_delivered s.out hterm
  have heq : s.terminate =
      { s with
        buf := []
        demand := 0
        disposed := true
        out := s.out.finish s.endEvent } := by
    simp [UcastSubState.terminate, UcastSubState.dispose, hs.disposed]
  rw [hbuf, append_nil] at horder
  rw [heq]
  refine Sound.of_finishIteration (hs.lawful.finish hterm hs.valid) rfl
    nofun fun _ => ⟨rfl, ?_, ?_, ?_, ?_⟩
  · exact ⟨[], by rw [append_nil, hdeliv, horder]⟩
  · rw [hdeliv]
    change s.out.delivered.length ≤ s.requested
    omega
  · exact ⟨[], by rw [append_nil, hs.all]⟩
  · intro _ _ _
    exact ⟨hclosed, hdeliv.trans horder⟩

theorem Ready.pullLoop (hs : Ready s val) : Sound (s.pullLoop val) := by
  have hacc := hs.account
  have horder := hs.order
  unfold UcastSubState.pullLoop
  split
  · rename_i hbuf
    split_ifs with hclosed
    · exact hs.terminate hbuf hclosed
    · exact hs.finishIteration fun _ => hbuf
  · rename_i item rest hbuf
    split_ifs with hdem
    · have hval : val ≠ 0 := by
        intro hzero
        have hempty := hs.quiet hzero hdem
        rw [hbuf] at hempty
        cases hempty
      refine ⟨hs.lawful.onNext item hs.valid, ?_, ?_, ?_, ?_, fun _ => ?_,
        fun hdead => absurd (hs.disposed.symm.trans hdead) nofun⟩
      · rw [onNext_valid, hs.valid, hs.disposed]
        rfl
      · intro hhead
        cases mem_singleton.mp hhead
      · intro val' hmem
        cases mem_singleton.mp hmem
        exact ⟨rfl, Nat.pos_of_ne_zero hval, hs.le⟩
      · exact fun _ => .inr (.inr ⟨val, rfl⟩)
      · refine ⟨?_, ?_, ?_, ?_, hs.all⟩
        · change (s.out.onNext item).delivered ++ s.buf.tail = s.accepted
          rw [onNext_delivered, ← horder, hbuf]
          simp
        · change s.requested + (val + 1) =
            (s.out.onNext item).delivered.length + s.demand + s.inFlightDemand
          rw [onNext_delivered, length_append, length_singleton]
          omega
        · intro _ _
          change s.buf ≠ [] ∧ 0 < s.demand
          rw [hbuf]
          exact ⟨cons_ne_nil item rest, hdem⟩
        · intro hzero
          have hle := hs.le
          change s.inFlightDemand = 0 at hzero
          omega
    · exact hs.finishIteration fun hpos => absurd hpos hdem

section

variable (hs : Sound s)
include hs

theorem Sound.finishIteration_of_disposed (hdisp : s.disposed = true)
    (val : Nat) : Sound (s.finishIteration val) := by
  refine Sound.of_finishIteration hs.lawful hs.valid (fun hlive => ?_) hs.dead
  cases hdisp ▸ hlive

theorem Sound.doPull (hframes : s.frames = [.head]) :
    Sound (s.doPull s.inFlightDemand) := by
  unfold UcastSubState.doPull
  split_ifs with hdisp
  · exact hs.finishIteration_of_disposed hdisp _
  · rw [Bool.not_eq_true] at hdisp
    have hlive := hs.live hdisp
    have horder := hlive.order
    have hacc := hlive.account
    rw [waiting, pulled, hframes] at horder
    rw [doubled, pulled, hframes] at hacc
    refine Ready.pullLoop ⟨hs.lawful, hdisp, hs.hasOut hdisp, horder,
      ?_, Nat.le_refl _, ?_, hlive.all⟩
    · change s.requested + s.inFlightDemand = s.out.delivered.length +
        (s.demand + s.inFlightDemand) + s.inFlightDemand
      simp only at hacc
      omega
    · intro hzero hdem
      refine hlive.quiet hzero ?_
      change 0 < s.demand + s.inFlightDemand at hdem
      omega

theorem Sound.resume (hframes : s.frames = [.pull val]) :
    Sound (s.resume val) := by
  unfold UcastSubState.resume
  split_ifs with hdisp
  · exact hs.finishIteration_of_disposed hdisp _
  · rw [Bool.not_eq_true] at hdisp
    have hlive := hs.live hdisp
    have horder := hlive.order
    have hacc := hlive.account
    obtain ⟨_, hpos, hle⟩ := hs.pull val (by rw [hframes]; simp)
    obtain ⟨_, hdem⟩ := hlive.front val hframes
    rw [waiting, pulled, hframes] at horder
    rw [doubled, pulled, hframes] at hacc
    refine Ready.pullLoop ⟨hs.lawful, hdisp, hs.hasOut hdisp, horder,
      ?_, hle, ?_, hlive.all⟩
    · change s.requested + val = s.out.delivered.length + (s.demand - 1) +
        s.inFlightDemand
      simp only at hacc
      omega
    · intro hzero
      omega

theorem Sound.ret_push {rest : List Frame} (hframes : s.frames = .push :: rest)
    : Sound { s with frames := rest } := by
  have hnone : ∀ val, .pull val ∉ rest := by
    intro val hval
    have hone := (hs.pull val (by rw [hframes]; simp [hval])).1
    rw [hframes] at hone
    cases hone
  have hpulled : pulled { s with frames := rest } = none := by
    unfold pulled
    split
    · rename_i val tail hrest
      change rest = .pull val :: tail at hrest
      exact absurd (by rw [hrest]; simp) (hnone val)
    · rfl
  have hpulled' : s.pulled = none := by rw [pulled, hframes]
  refine ⟨hs.lawful, hs.valid, ?_, ?_, ?_, fun hdisp => ?_,
    fun hdisp => ?_⟩
  · intro hhead
    have hone := hs.head (by rw [hframes]; simp [hhead])
    rw [hframes] at hone
    cases hone
  · exact fun val hval => absurd hval (hnone val)
  · intro hflying
    rcases hs.scheduled hflying with hsched | hhead | ⟨val, hval⟩
    · exact .inl hsched
    · rw [hframes] at hhead
      cases hhead
    · rw [hframes] at hval
      cases hval
  · have hlive := hs.live hdisp
    have horder := hlive.order
    have hacc := hlive.account
    rw [waiting, hpulled'] at horder
    rw [doubled, hpulled'] at hacc
    refine ⟨?_, ?_, ?_, hlive.quiet, hlive.all⟩
    · rw [waiting, hpulled]
      exact horder
    · rw [doubled, hpulled]
      exact hacc
    · intro val hval
      change rest = [.pull val] at hval
      exact absurd (by rw [hval]; simp) (hnone val)
  · have hdead := hs.dead hdisp
    exact { hdead with }

theorem step_sound {action : UcastAction τ} (hstep : s.step action = some t) :
    Sound t := by
  cases action with
  | push item =>
    obtain ⟨hopen, rfl⟩ := of_guard hstep
    exact hs.push item hopen
  | close =>
    obtain ⟨_, rfl⟩ := of_guard hstep
    exact hs.close
  | abort reason =>
    obtain ⟨_, rfl⟩ := of_guard hstep
    exact hs.abort reason
  | request n =>
    obtain ⟨_, rfl⟩ := of_guard hstep
    exact hs.request n
  | dispose =>
    obtain ⟨_, rfl⟩ := of_guard hstep
    exact hs.dispose
  | cancel =>
    obtain ⟨_, rfl⟩ := of_guard hstep
    exact hs.cancel
  | runPull =>
    obtain ⟨⟨hframes, _⟩, rfl⟩ := of_guard hstep
    exact hs.runPull hframes
  | iterate =>
    obtain ⟨hframes, rfl⟩ := of_guard hstep
    exact hs.doPull hframes
  | ret =>
    simp only [step] at hstep
    split at hstep
    · rename_i rest hframes
      cases hstep
      exact hs.ret_push hframes
    · rename_i val hframes
      cases hstep
      exact hs.resume hframes
    · cases hstep

end

theorem exec_sound {actions : List (UcastAction τ)}
    (hrun : exec step {} actions = some s) : Sound s :=
  exec_invariant Sound (fun _ _ _ hs hstep => step_sound hs hstep)
    sound_initial hrun

theorem Live.pull_under_way (hs : Sound s) (hlive : Live s) (hbuf : s.buf ≠ [])
    (hunmet : s.out.delivered.length < s.requested) : s.PullUnderWay := by
  have hacc := hlive.account
  rcases hs.pulled_cases with ⟨hnone, _⟩ | ⟨val, hframes, _⟩
  · refine hs.scheduled (Nat.pos_of_ne_zero fun hzero => ?_)
    refine hbuf (hlive.quiet hzero ?_)
    omega
  · exact .inr (.inr ⟨val, hframes⟩)

theorem Sound.delivered_prefix (hs : Sound s) :
    s.out.delivered <+: s.pushed := by
  cases hdisp : s.disposed with
  | false =>
    have hlive := hs.live hdisp
    exact hlive.all ▸ (hlive.within hs).1
  | true =>
    have hdead := hs.dead hdisp
    exact hdead.order.trans hdead.all

/-- The observer gets a prefix of the pushed items and never more than it
requested, and then at most one terminal event.  Unless that comes from
`dispose`, all items that were pushed before it were delivered.  If items wait
while the observer has unmet demand, a pull is under way. -/
theorem ucast_delivers_in_order {s : UcastSubState τ}
    {actions : List (UcastAction τ)} (hrun : exec step {} actions = some s) :
    s.out.delivered <+: s.pushed ∧
      s.out.delivered.length ≤ s.requested ∧
      s.out.events = s.out.delivered.map .next ++ s.out.ending ∧
      s.out.ending.length ≤ 1 ∧
      (∀ event ∈ s.out.ending, event ≠ .disposed →
        s.closed = true ∧ s.out.delivered = s.accepted) ∧
      (s.buf ≠ [] → s.out.delivered.length < s.requested → s.PullUnderWay) := by
  have hs := exec_sound hrun
  cases hdisp : s.disposed with
  | false =>
    have hlive := hs.live hdisp
    refine ⟨hs.delivered_prefix, (hlive.within hs).2, hs.lawful.shape,
      hs.lawful.once, ?_, hlive.pull_under_way hs⟩
    rw [hs.ending_nil hdisp]
    nofun
  | true =>
    have hdead := hs.dead hdisp
    exact ⟨hs.delivered_prefix, hdead.account, hs.lawful.shape,
      hs.lawful.once, hdead.ended,
      fun hbuf => absurd hdead.empty hbuf⟩

/-- The observer requests more while a pull gives it the first item, and the
operator is closed in between. -/
theorem ucast_delivers_in_order_reentrant :
    ∃ s : UcastSubState Nat,
      exec step {}
          [.push 1, .push 2, .request 1, .runPull, .iterate, .request 3,
            .push 3, .close, .ret, .iterate, .ret, .ret] = some s ∧
        s.out.events = [.next 1, .next 2, .next 3, .complete] ∧
        s.out.delivered <+: s.pushed := by
  refine ⟨?s, ?hrun, ?_, (ucast_delivers_in_order ?hrun).1⟩
  case hrun => rfl
  · rfl

/-- No demand is lost, and no pull runs inside of another call. -/
theorem ucast_demand_conserved {actions : List (UcastAction τ)}
    (hrun : exec step {} actions = some s) :
    (∀ val, .pull val ∈ s.frames → s.frames = [.pull val]) ∧
      (s.disposed = false → s.out.delivered ++ s.waiting = s.pushed ∧
        s.requested + s.doubled =
          s.out.delivered.length + s.demand + s.inFlightDemand) := by
  have hs := exec_sound hrun
  refine ⟨fun val hval => (hs.pull val hval).1, fun hopen => ?_⟩
  have hlive := hs.live hopen
  exact ⟨hlive.order.trans hlive.all, hlive.account⟩

theorem ucast_demand_conserved_pull :
    ∃ s, exec step {} [.push 1, .push 2, .request 3, .runPull, .iterate] =
        some s ∧ s.out.delivered ++ s.waiting = s.pushed := by
  refine ⟨?s, ?hrun, ((ucast_demand_conserved ?hrun).2 ?_).1⟩
  case hrun => rfl
  rfl

end UcastSubState

end ActorFramework.Flow

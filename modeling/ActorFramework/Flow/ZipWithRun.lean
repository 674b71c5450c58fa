import ActorFramework.Flow.ZipWith

/-!
# Runs of the zip-with operator

Items are requested from all inputs alike, so a result never waits for demand.
While the operator runs, some buffer is therefore empty, and each buffer has
what its input is ahead of the output.
-/

namespace ActorFramework.Flow

open Foundation List InnerSource Observer

variable {n : Nat} {τ : Fin (n + 1) → Type*} {β : Type*}

def Zipped (fn : ((i : Fin (n + 1)) → τ i) → β)
    (items : (i : Fin (n + 1)) → List (τ i)) (results : List β) : Prop :=
  ∀ (k : Nat) (b : β), results[k]? = some b →
    ∃ args, (∀ i, (items i)[k]? = some (args i)) ∧ b = fn args

namespace Zipped

variable {fn : ((i : Fin (n + 1)) → τ i) → β}
  {items items' : (i : Fin (n + 1)) → List (τ i)} {results : List β}

section

variable (h : Zipped fn items results)
include h

theorem length_le (i : Fin (n + 1)) : results.length ≤ (items i).length := by
  cases hlast : results.length with
  | zero => exact Nat.zero_le _
  | succ k =>
    have hk : k < results.length := by omega
    obtain ⟨args, hargs, -⟩ := h k _ (getElem?_eq_getElem hk)
    obtain ⟨hlt, -⟩ := List.getElem?_eq_some_iff.mp (hargs i)
    exact hlt

theorem mono (hgrow : ∀ i, items i <+: items' i) :
    Zipped fn items' results := by
  intro k b hb
  obtain ⟨args, hargs, hfn⟩ := h k b hb
  refine ⟨args, fun i => ?_, hfn⟩
  obtain ⟨more, hmore⟩ := hgrow i
  obtain ⟨hlt, -⟩ := List.getElem?_eq_some_iff.mp (hargs i)
  rw [← hmore, getElem?_append_left hlt]
  exact hargs i

theorem concat {args : (i : Fin (n + 1)) → τ i}
    (hargs : ∀ i, (items i)[results.length]? = some (args i)) :
    Zipped fn items (results ++ [fn args]) := by
  intro k b hb
  rcases Nat.lt_trichotomy k results.length with hk | hk | hk
  · rw [getElem?_append_left hk] at hb
    exact h k b hb
  · subst hk
    rw [getElem?_concat_length] at hb
    cases hb
    exact ⟨args, hargs, rfl⟩
  · rw [getElem?_eq_none (by simp; omega)] at hb
    cases hb

end

end Zipped

namespace ZipWithSub

variable {fn : ((i : Fin (n + 1)) → τ i) → β} {s t : ZipWithSub τ β}
  {i : Fin (n + 1)}

theorem buffered_le (s : ZipWithSub τ β) (i : Fin (n + 1)) :
    s.buffered ≤ (s.inputs i).buf.length := by
  have hmem : (s.inputs i).buf.length ∈
      (List.finRange (n + 1)).map fun i => (s.inputs i).buf.length :=
    mem_map_of_mem (mem_finRange i)
  unfold buffered
  cases hmin : ((List.finRange (n + 1)).map
      fun i => (s.inputs i).buf.length).min? with
  | none => exact Nat.zero_le _
  | some m => exact (min?_eq_some_iff.mp hmin).2 _ hmem

theorem exists_buffered (s : ZipWithSub τ β) :
    ∃ i, (s.inputs i).buf.length = s.buffered := by
  unfold buffered
  cases hmin : ((List.finRange (n + 1)).map
      fun i => (s.inputs i).buf.length).min? with
  | none => simp at hmin
  | some m =>
    obtain ⟨i, -, hi⟩ := mem_map.mp (min?_eq_some_iff.mp hmin).1
    exact ⟨i, hi⟩

theorem atEnd_iff : s.atEnd = true ↔
    ∃ i, (s.inputs i).sub = false ∧ (s.inputs i).buf = [] := by
  simp [atEnd, ZipInput.atEnd]

theorem ready_iff : s.ready = true ↔
    ∀ i : Fin (n + 1), i.val < s.started → (s.sources i).settled = true := by
  simp only [ready, all_eq_true, mem_finRange, true_implies,
    Bool.or_eq_true, decide_eq_true_eq]
  refine forall_congr' fun i => ⟨fun h hi => ?_, fun h => ?_⟩
  · exact h.resolve_left (Nat.not_le.mpr hi)
  · exact (le_or_gt s.started i.val).imp_right h

structure Base (fn : ((i : Fin (n + 1)) → τ i) → β) (out : Observer β)
    (sources : (i : Fin (n + 1)) → InnerSource (τ i)) (requested : Nat)
    (disposed : Bool) : Prop where
  lawful : out.Lawful
  zipped : Zipped fn (fun i => (sources i).items) out.delivered
  credit : ∀ i, (sources i).items.length ≤ (sources i).requested ∧
    (sources i).requested ≤ requested
  early : requested ≠ 0 → ∀ i, (sources i).settled = true
  finished : out.valid = false → disposed = false → out.ending ≠ [] ∧
    ∃ i, (sources i).ended = true ∧
      (sources i).items.length = out.delivered.length

structure Running (inputs : (i : Fin (n + 1)) → ZipInput (τ i))
    (demand done : Nat) (sources : (i : Fin (n + 1)) → InnerSource (τ i))
    (requested : Nat) : Prop where
  account : demand + done = requested
  buffers : ∀ i, (inputs i).buf = (sources i).items.drop done
  subs : ∀ i, (inputs i).sub = ((sources i).subscribed && !(sources i).ended)

structure Calls (frames : List Nat) (undefined : Bool) (requested : Nat) :
    Prop where
  busy : frames ≠ [] → requested ≠ 0
  loops : ∀ rest ∈ frames, rest = 0
  defined : undefined = false

/-- All but the two facts that `push` restores: that some input is not ahead of
the output, and that no input is at its end. -/
structure Stream (fn : ((i : Fin (n + 1)) → τ i) → β)
    (s : ZipWithSub τ β) : Prop where
  base : Base fn s.out s.sources s.requested s.disposed
  running : s.out.valid = true →
    Running s.inputs s.demand s.out.delivered.length s.sources s.requested
  calls : Calls s.frames s.undefined s.requested

structure Sound (fn : ((i : Fin (n + 1)) → τ i) → β)
    (s : ZipWithSub τ β) : Prop where
  stream : Stream fn s
  waiting : s.out.valid = true →
    ∃ i, (s.sources i).items.length = s.out.delivered.length
  checked : s.out.valid = true → s.frames = [] → ∀ i,
    (s.sources i).ended = true →
      (s.sources i).items.length ≠ s.out.delivered.length

theorem sound_initial : Sound fn ({} : ZipWithSub τ β) := by
  refine ⟨⟨⟨lawful_initial, nofun, ?_, ?_, nofun⟩, ?_, ?_⟩, ?_, ?_⟩
  · exact fun _ => ⟨Nat.le_refl 0, Nat.le_refl 0⟩
  · exact fun hopen => absurd rfl hopen
  · exact fun _ => ⟨rfl, fun _ => rfl, fun _ => rfl⟩
  · exact ⟨fun hframes => absurd rfl hframes, nofun, rfl⟩
  · exact fun _ => ⟨0, rfl⟩
  · exact fun _ _ _ hended => nomatch hended

section

variable (h : Stream fn s) (hvalid : s.out.valid = true)
include h hvalid

theorem Stream.buf_eq_nil_iff (i : Fin (n + 1)) :
    (s.inputs i).buf = [] ↔
      (s.sources i).items.length = s.out.delivered.length := by
  have hle := h.base.zipped.length_le i
  rw [(h.running hvalid).buffers i, drop_eq_nil_iff]
  constructor
  · intro hge
    exact Nat.le_antisymm hge hle
  · intro heq
    exact Nat.le_of_eq heq

theorem Stream.finish {event : FlowEvent β} (hterm : event.isTerminal = true)
    (hend : s.disposed = false → ∃ i, (s.sources i).ended = true ∧ (s.sources
      i).items.length = s.out.delivered.length) :
    Sound fn { s.dropInputs with out := s.out.finish event } := by
  have hdeliv := finish_delivered s.out hterm
  refine ⟨⟨⟨h.base.lawful.finish hterm hvalid, ?_, h.base.credit,
    h.base.early, ?_⟩, nofun, h.calls⟩, nofun, nofun⟩
  · rw [hdeliv]
    exact h.base.zipped
  · intro _ hkept
    rw [hdeliv, h.base.lawful.ending_finish hterm hvalid]
    exact ⟨cons_ne_nil _ _, hend hkept⟩

theorem Stream.fin
    (hend : ∃ i, (s.sources i).ended = true ∧ (s.sources i).items.length =
      s.out.delivered.length) : Sound fn s.fin :=
  h.finish hvalid (FlowEvent.isTerminal_ofErr s.err) fun _ => hend

theorem Stream.checkEnd (hopen : s.requested ≠ 0)
    (hwait : ∃ i, (s.sources i).items.length = s.out.delivered.length) :
    Sound fn s.checkEnd := by
  unfold ZipWithSub.checkEnd
  by_cases hend : s.atEnd = true
  · rw [if_pos hend]
    obtain ⟨i, hsub, hbuf⟩ := atEnd_iff.mp hend
    have hset := h.base.early hopen i
    rw [(h.running hvalid).subs i] at hsub
    refine h.fin hvalid ⟨i, ?_, (h.buf_eq_nil_iff hvalid i).mp hbuf⟩
    simp only [settled, Bool.or_eq_true] at hset
    rcases hset with hsubscribed | hended
    · simpa [hsubscribed] using hsub
    · exact hended
  · rw [if_neg hend]
    refine ⟨h, fun _ => hwait, fun _ _ i hended hlen => hend ?_⟩
    refine atEnd_iff.mpr ⟨i, ?_, (h.buf_eq_nil_iff hvalid i).mpr hlen⟩
    simp [(h.running hvalid).subs i, hended]

theorem Stream.emit (hall : ∀ i, (s.inputs i).buf ≠ [])
    (hwait : ∃ i, (s.sources i).items.length ≤ s.out.delivered.length + 1) :
    Sound fn ({ s with demand := s.demand - 1 }.emit fn 0) := by
  obtain ⟨hacc, hbuffers, hsubs⟩ := h.running hvalid
  have hahead (i : Fin (n + 1)) :
      s.out.delivered.length < (s.sources i).items.length := by
    have hne := (h.buf_eq_nil_iff hvalid i).not.mp (hall i)
    have hle := h.base.zipped.length_le i
    omega
  have hopen : s.out.delivered.length < s.requested := by
    have hcredit := h.base.credit 0
    have hfirst := hahead 0
    omega
  unfold ZipWithSub.emit
  rw [dif_pos hall]
  refine ⟨⟨⟨h.base.lawful.onNext _ hvalid, ?_, h.base.credit, h.base.early,
    ?_⟩, fun _ => ⟨?_, fun i => ?_, hsubs⟩, ⟨fun _ => Nat.ne_zero_of_lt hopen,
    ?_, h.calls.defined⟩⟩, fun _ => ?_, nofun⟩
  · rw [onNext_delivered]
    refine h.base.zipped.concat fun i => ?_
    rw [← head?_drop, ← hbuffers]
    exact head?_eq_some_head (hall i)
  · simp [hvalid]
  · simp only [onNext_delivered, length_append, length_singleton]
    omega
  · simp [onNext_delivered, hbuffers i]
  · intro rest hrest
    rcases mem_cons.mp hrest with hzero | hold
    · exact hzero
    · exact h.calls.loops rest hold
  · obtain ⟨i, hi⟩ := hwait
    refine ⟨i, ?_⟩
    simp only [onNext_delivered, length_append, length_singleton]
    exact Nat.le_antisymm hi (hahead i)

theorem Stream.push (hopen : s.requested ≠ 0)
    (hwait : ∃ i, (s.sources i).items.length ≤ s.out.delivered.length + 1) :
    Sound fn (s.push fn) := by
  have hruns := h.running hvalid
  unfold ZipWithSub.push
  by_cases hzero : s.buffered = 0
  · rw [if_neg (by omega)]
    obtain ⟨i, hi⟩ := s.exists_buffered
    rw [hzero, length_eq_zero_iff, h.buf_eq_nil_iff hvalid] at hi
    exact h.checkEnd hvalid hopen ⟨i, hi⟩
  · have hall (i : Fin (n + 1)) : (s.inputs i).buf ≠ [] := by
      intro hnil
      have hle := s.buffered_le i
      rw [hnil, length_nil] at hle
      omega
    obtain ⟨i, hi⟩ := hwait
    have hone : min s.buffered s.demand = 1 := by
      have hle := s.buffered_le i
      have hcredit := h.base.credit i
      have hpos := length_pos_iff.mpr (hall i)
      have hacc := hruns.account
      rw [hruns.buffers i, length_drop] at hle hpos
      omega
    rw [hone, if_pos Nat.one_pos]
    exact h.emit hvalid hall ⟨i, hi⟩

end

theorem Base.setSource (h : Base fn s.out s.sources s.requested s.disposed)
    (source : InnerSource (τ i)) (hopen : (s.sources i).ended = false)
    (hset : source.settled = true)
    (hgrow : (s.sources i).items <+: source.items)
    (hcredit : source.items.length ≤ source.requested ∧
      source.requested ≤ s.requested) :
    Base fn s.out (s.setSource i source).sources s.requested s.disposed := by
  refine ⟨h.lawful, h.zipped.mono ?_, ?_, fun hreq => ?_,
    fun hinv hkept => ?_⟩
  · exact (Function.forall_update_iff s.sources
      fun j source => (s.sources j).items <+: source.items).mpr
      ⟨hgrow, fun j _ => prefix_rfl⟩
  · exact (Function.forall_update_iff s.sources fun _ source =>
      source.items.length ≤ source.requested ∧
        source.requested ≤ s.requested).mpr
      ⟨hcredit, fun j _ => h.credit j⟩
  · exact (Function.forall_update_iff s.sources
      fun _ source => source.settled = true).mpr
      ⟨hset, fun j _ => h.early hreq j⟩
  · obtain ⟨hend, j, hended, hlen⟩ := h.finished hinv hkept
    have hj : j ≠ i := by
      rintro rfl
      cases hopen ▸ hended
    refine ⟨hend, j, ?_⟩
    simp [ZipWithSub.setSource, hj, hended, hlen]

variable {input : ZipInput (τ i)} {source : InnerSource (τ i)}

theorem Running.setSource
    (h : Running s.inputs s.demand s.out.delivered.length s.sources s.requested)
    (hbuf : input.buf = source.items.drop s.out.delivered.length)
    (hsub : input.sub = (source.subscribed && !source.ended)) :
    Running (s.setInput i input).inputs s.demand s.out.delivered.length
      (s.setSource i source).sources s.requested := by
  refine ⟨h.account, fun j => ?_, fun j => ?_⟩
  · by_cases hj : j = i
    · subst hj
      simpa [setInput, ZipWithSub.setSource] using hbuf
    · simpa [setInput, ZipWithSub.setSource, hj] using h.buffers j
  · by_cases hj : j = i
    · subst hj
      simpa [setInput, ZipWithSub.setSource] using hsub
    · simpa [setInput, ZipWithSub.setSource, hj] using h.subs j

theorem Stream.setSource (h : Stream fn s) (hvalid : s.out.valid = true)
    (input : ZipInput (τ i)) (source : InnerSource (τ i))
    (hopen : (s.sources i).ended = false) (hset : source.settled = true)
    (hitems : source.items = (s.sources i).items)
    (hcredit : source.items.length ≤ source.requested ∧
      source.requested ≤ s.requested) (hbuf : input.buf = (s.inputs i).buf)
    (hsub : input.sub = (source.subscribed && !source.ended)) :
    Stream fn ((s.setInput i input).setSource i source) := by
  have hgrow : (s.sources i).items <+: source.items := by
    simp [hitems]
  have hruns := h.running hvalid
  refine ⟨h.base.setSource source hopen hset hgrow hcredit, fun _ => ?_,
    h.calls⟩
  refine hruns.setSource ?_ hsub
  rw [hbuf, hitems]
  exact hruns.buffers i

theorem Sound.setSource (h : Sound fn s)
    (hstream : Stream fn ((s.setInput i input).setSource i source))
    (hvalid : s.out.valid = true)
    (hitems : source.items = (s.sources i).items)
    (hmore : source.ended = true →
      (s.sources i).items.length ≠ s.out.delivered.length) :
    Sound fn ((s.setInput i input).setSource i source) := by
  refine ⟨hstream, fun _ => ?_, fun _ hframes => ?_⟩
  · obtain ⟨j, hj⟩ := h.waiting hvalid
    refine ⟨j, ?_⟩
    by_cases hji : j = i
    · subst hji
      simpa [ZipWithSub.setSource, setInput, hitems] using hj
    · simpa [ZipWithSub.setSource, setInput, hji] using hj
  · refine (Function.forall_update_iff s.sources fun _ source =>
      source.ended = true → source.items.length ≠
        s.out.delivered.length).mpr ⟨?_, fun j _ => ?_⟩
    · rw [hitems]
      exact hmore
    · exact h.checked hvalid hframes j

theorem Sound.of_stopped (hbase : Base fn s.out s.sources s.requested
    s.disposed) (hcalls : Calls s.frames s.undefined s.requested)
    (hvalid : s.out.valid = false) : Sound fn s := by
  refine ⟨⟨hbase, ?_, hcalls⟩, ?_, ?_⟩ <;>
  · simp [hvalid]

theorem Sound.subscribe (h : Sound fn s) :
    Sound fn { s with started := s.started + 1 } :=
  ⟨{ h.stream with }, h.waiting, h.checked⟩

theorem Sound.dispose (h : Sound fn s) (fromExternal : Bool) :
    Sound fn ({ s with
      disposed := s.disposed || s.out.valid }.doDispose fromExternal) := by
  have hbase := h.stream.base
  cases hvalid : s.out.valid with
  | false => simpa [doDispose, hvalid] using h
  | true =>
    have hkeep : Stream fn { s with disposed := s.disposed || true } := by
      refine ⟨{ hbase with finished := ?_ }, h.stream.running, h.stream.calls⟩
      intro hinv
      cases hvalid ▸ hinv
    unfold doDispose
    rw [if_neg (by simp [hvalid])]
    split
    · refine hkeep.finish hvalid (FlowEvent.isTerminal_ofDispose s.err) ?_
      simp
    · refine .of_stopped ⟨hbase.lawful.release, hbase.zipped, hbase.credit,
        hbase.early, ?_⟩ h.stream.calls rfl
      simp [dropInputs]

theorem fwdOnSubscribe_eq (hvalid : s.out.valid = true)
    (hsub : (s.inputs i).sub = false) :
    (s.setSource i { s.sources i with subscribed := true }).fwdOnSubscribe i =
      (s.setInput i { s.inputs i with sub := true }).setSource i
        { s.sources i with
          subscribed := true
          requested := (s.sources i).requested + s.demand } := by
  have hopen : ((s.setSource i
      { s.sources i with subscribed := true }).out.valid &&
      !((s.setSource i { s.sources i with
        subscribed := true }).inputs i).sub) = true := by
    simp [setSource, hvalid, hsub]
  unfold ZipWithSub.fwdOnSubscribe
  rw [if_pos hopen]
  simp [setSource, setInput]

section

variable (h : Sound fn s)
include h

theorem Sound.fwdOnSubscribe (hfresh : (s.sources i).settled = false) :
    Sound fn ((s.setSource i
      { s.sources i with subscribed := true }).fwdOnSubscribe i) := by
  have hbase := h.stream.base
  have hzero : s.requested = 0 := by
    by_contra hopen
    cases hfresh ▸ (hbase.early hopen i)
  obtain ⟨hunsubscribed, hopen⟩ := Bool.or_eq_false_iff.mp hfresh
  have hcredit := hbase.credit i
  cases hvalid : s.out.valid with
  | false =>
    have hidle : (s.setSource i
        { s.sources i with subscribed := true }).fwdOnSubscribe i =
        s.setSource i { s.sources i with subscribed := true } := by
      simp [ZipWithSub.fwdOnSubscribe, ZipWithSub.setSource, hvalid]
    rw [hidle]
    exact .of_stopped (hbase.setSource _ hopen rfl prefix_rfl hcredit)
      h.stream.calls hvalid
  | true =>
    obtain ⟨hacc, hbuffers, hsubs⟩ := h.stream.running hvalid
    have hsub := hsubs i
    rw [hunsubscribed, Bool.false_and] at hsub
    rw [fwdOnSubscribe_eq hvalid hsub]
    have hnew : (s.sources i).items.length ≤
          (s.sources i).requested + s.demand ∧
        (s.sources i).requested + s.demand ≤ s.requested := by
      omega
    have hstream := h.stream.setSource hvalid
      { s.inputs i with sub := true }
      { s.sources i with
        subscribed := true
        requested := (s.sources i).requested + s.demand }
      hopen rfl rfl hnew rfl (by simp [hopen])
    refine h.setSource hstream hvalid rfl fun hended => ?_
    cases hopen ▸ hended

theorem Sound.closeInput (hvalid : s.out.valid = true)
    (hopen : (s.sources i).ended = false) (err : Option Nat) :
    Sound fn ({ s.setSource i
      { s.sources i with ended := true } with err := err }.closeInput i) := by
  have hsound : Sound fn { s with err := err } :=
    ⟨{ h.stream with }, h.waiting, h.checked⟩
  have hcredit := h.stream.base.credit i
  have hset :
      ({ s.sources i with ended := true } : InnerSource (τ i)).settled =
        true := by
    simp [settled]
  have hstream := hsound.stream.setSource hvalid
    { s.inputs i with sub := false } { s.sources i with ended := true }
    hopen hset rfl hcredit rfl (by simp)
  have hnil := h.stream.buf_eq_nil_iff hvalid i
  unfold ZipWithSub.closeInput
  split
  · rename_i hempty
    refine hstream.fin hvalid ⟨i, ?_⟩
    have hlen := hnil.mp (List.isEmpty_iff.mp hempty)
    simpa [ZipWithSub.setSource, setInput] using hlen
  · rename_i hfull
    refine hsound.setSource hstream hvalid rfl fun _ => hnil.not.mp ?_
    exact fun hempty => hfull (List.isEmpty_iff.mpr hempty)

theorem Sound.closeStopped (hopen : (s.sources i).ended = false)
    (hinv : ¬s.out.valid = true) :
    Sound fn (s.setSource i { s.sources i with ended := true }) := by
  refine .of_stopped (h.stream.base.setSource _ hopen ?_ prefix_rfl
    (h.stream.base.credit i)) h.stream.calls (Bool.eq_false_iff.mpr hinv)
  simp [settled]

theorem Sound.fwdOnComplete (hopen : (s.sources i).ended = false) :
    Sound fn ((s.setSource i
      { s.sources i with ended := true }).fwdOnComplete i) := by
  unfold ZipWithSub.fwdOnComplete
  split
  · rename_i hvalid
    exact h.closeInput hvalid hopen s.err
  · exact h.closeStopped hopen (by assumption)

theorem Sound.fwdOnError (hopen : (s.sources i).ended = false) (what : Nat) :
    Sound fn ((s.setSource i
      { s.sources i with ended := true }).fwdOnError i what) := by
  unfold ZipWithSub.fwdOnError
  split
  · rename_i hvalid
    exact h.closeInput hvalid hopen (s.err.or (some what))
  · exact h.closeStopped hopen (by assumption)

theorem Sound.ret (hret : s.ret fn = some t) : Sound fn t := by
  have hcalls := h.stream.calls
  unfold ZipWithSub.ret at hret
  cases hframes : s.frames with
  | nil => simp [hframes] at hret
  | cons rest frames =>
    have hzero : rest = 0 := hcalls.loops rest (by simp [hframes])
    have hopen := hcalls.busy (by simp [hframes])
    have hpopped : Calls frames s.undefined s.requested := by
      refine ⟨fun _ => hopen, fun rest hrest => ?_, hcalls.defined⟩
      exact hcalls.loops rest (by simp [hframes, hrest])
    rw [hframes, hzero] at hret
    cases hvalid : s.out.valid with
    | false =>
      simp only [hvalid, Bool.not_false, if_true, Option.some.injEq] at hret
      rw [← hret]
      exact .of_stopped h.stream.base hpopped hvalid
    | true =>
      simp only [hvalid, Bool.not_true, Bool.false_eq_true, if_false,
        Option.some.injEq] at hret
      rw [← hret]
      exact Stream.checkEnd ⟨h.stream.base, h.stream.running, hpopped⟩
        hvalid hopen (h.waiting hvalid)

end

theorem requestInputs_eq (s : ZipWithSub τ β) (amount : Nat) :
    s.requestInputs amount =
      { s with
        sources := fun i =>
          { s.sources i with
            requested := (s.sources i).requested +
              if (s.inputs i).sub then amount else 0 } } := by
  unfold requestInputs
  congr
  funext i
  split <;> rfl

theorem Sound.request (h : Sound fn s) (amount : Nat)
    (hready : ∀ i, (s.sources i).settled = true) :
    Sound fn ({ s with
      requested := s.requested + amount }.request amount) := by
  have hbase := h.stream.base
  have hcalls : Calls s.frames s.undefined (s.requested + amount) := by
    refine ⟨fun hframes => ?_, h.stream.calls.loops, h.stream.calls.defined⟩
    have hbusy := h.stream.calls.busy hframes
    omega
  unfold ZipWithSub.request
  split
  · rename_i hvalid
    obtain ⟨hacc, hbuffers, hsubs⟩ := h.stream.running hvalid
    rw [requestInputs_eq]
    refine ⟨⟨⟨hbase.lawful, hbase.zipped, fun i => ?_, fun _ => hready,
      hbase.finished⟩, fun _ => ⟨?_, hbuffers, hsubs⟩, hcalls⟩, h.waiting,
      h.checked⟩
    · have hcredit := hbase.credit i
      constructor
      · exact Nat.le_add_right_of_le hcredit.1
      · simp only
        split <;> omega
    · simp only
      omega
  · rename_i hinv
    refine .of_stopped { hbase with
      credit := fun i => ?_
      early := fun _ => hready } hcalls (Bool.eq_false_iff.mpr hinv)
    have hcredit := hbase.credit i
    exact ⟨hcredit.1, Nat.le_add_right_of_le hcredit.2⟩

theorem Sound.fwdOnNext (h : Sound fn s) (item : τ i)
    (hroom : (s.sources i).items.length < (s.sources i).requested)
    (hsub : (s.sources i).subscribed = true)
    (hopen : (s.sources i).ended = false) :
    Sound fn ((s.setSource i
      { s.sources i with
        items := (s.sources i).items ++ [item] }).fwdOnNext fn i item) := by
  have hbase := h.stream.base
  have hcredit := hbase.credit i
  have hnew := hbase.setSource
    { s.sources i with items := (s.sources i).items ++ [item] } hopen
    (by simp [settled, hsub]) (prefix_append _ _)
    (by simp; omega)
  unfold ZipWithSub.fwdOnNext
  split
  · rename_i hvalid
    have hruns := h.stream.running hvalid
    obtain ⟨j, hj⟩ := h.waiting hvalid
    refine Stream.push ⟨hnew, fun _ => ?_, h.stream.calls⟩ hvalid ?_ ⟨j, ?_⟩
    · refine hruns.setSource ?_ (hruns.subs i)
      change (s.inputs i).buf ++ [item] = _
      rw [hruns.buffers i, drop_append_of_le_length (hbase.zipped.length_le i)]
    · change s.requested ≠ 0
      omega
    · by_cases hji : j = i
      · subst hji
        simp [ZipWithSub.setSource, setInput, hj]
      · simp [ZipWithSub.setSource, setInput, hji, hj]
  · rename_i hinv
    exact .of_stopped hnew h.stream.calls (Bool.eq_false_iff.mpr hinv)

theorem step_sound (h : Sound fn s) {a : ZipAction τ}
    (hstep : step fn s a = some t) : Sound fn t := by
  cases a with
  | subscribe =>
    obtain ⟨-, rfl⟩ := of_guard hstep
    exact h.subscribe
  | fwdOnSubscribe i =>
    obtain ⟨hguard, rfl⟩ := of_guard hstep
    simp only [Bool.and_eq_true, Bool.not_eq_true'] at hguard
    exact h.fwdOnSubscribe hguard.2
  | fwdOnNext i item =>
    obtain ⟨hguard, rfl⟩ := of_guard hstep
    simp only [Bool.and_eq_true, Bool.not_eq_true', decide_eq_true_eq] at hguard
    obtain ⟨⟨hsub, hopen⟩, hroom⟩ := hguard
    exact h.fwdOnNext item hroom hsub hopen
  | fwdOnComplete i =>
    obtain ⟨hguard, rfl⟩ := of_guard hstep
    simp only [Bool.and_eq_true, Bool.not_eq_true'] at hguard
    exact h.fwdOnComplete hguard.2
  | fwdOnError i what =>
    obtain ⟨hguard, rfl⟩ := of_guard hstep
    simp only [Bool.and_eq_true, Bool.not_eq_true'] at hguard
    exact h.fwdOnError hguard.2 what
  | request amount =>
    obtain ⟨hguard, rfl⟩ := of_guard hstep
    simp only [Bool.and_eq_true, decide_eq_true_eq] at hguard
    refine h.request amount fun i => ready_iff.mp hguard.2 i ?_
    rw [hguard.1]
    exact i.isLt
  | ret => exact h.ret hstep
  | dispose fromExternal =>
    obtain ⟨-, rfl⟩ := of_guard hstep
    exact h.dispose fromExternal

theorem exec_sound {actions : List (ZipAction τ)}
    (hrun : exec (step fn) {} actions = some s) : Sound fn s :=
  exec_invariant (Sound fn) (fun _ _ _ h hstep => step_sound h hstep)
    sound_initial hrun

def Exhausted (s : ZipWithSub τ β) (i : Fin (n + 1)) : Prop :=
  (s.sources i).ended = true ∧
    (s.sources i).items.length = s.out.delivered.length

/-- The output has the length of the shortest input, or of the shortest one so
far, and it ends when one of the inputs is exhausted.  While `on_next` is being
called the last check for that has still to come. -/
theorem zip_with_pairs_by_index {actions : List (ZipAction τ)}
    (hrun : exec (step fn) {} actions = some s) :
    s.undefined = false ∧ s.out.Lawful ∧
      Zipped fn (fun i => (s.sources i).items) s.out.delivered ∧
      s.out.delivered.length ≤ s.requested ∧
      (s.out.valid = true → ∀ i, (s.inputs i).buf =
        (s.sources i).items.drop s.out.delivered.length) ∧
      (s.disposed = false →
        (s.out.ending ≠ [] → ∃ i, s.Exhausted i) ∧
        (s.frames = [] → (∃ i, s.Exhausted i) → s.out.ending ≠ []) ∧
        (∀ i, s.out.delivered.length ≤ (s.sources i).items.length) ∧
        ∃ i, (s.sources i).items.length = s.out.delivered.length) := by
  have hsound := exec_sound hrun
  have hbase := hsound.stream.base
  refine ⟨hsound.stream.calls.defined, hbase.lawful, hbase.zipped, ?_, ?_,
    fun hkept => ⟨fun hend => ?_, fun hframes => ?_,
      hbase.zipped.length_le, ?_⟩⟩
  · have hle := hbase.zipped.length_le 0
    have hcredit := hbase.credit 0
    omega
  · exact fun hvalid => (hsound.stream.running hvalid).buffers
  · exact (hbase.finished (hbase.lawful.invalid_of_ending hend) hkept).2
  · rintro ⟨i, hended, hlen⟩
    cases hvalid : s.out.valid with
    | false => exact (hbase.finished hvalid hkept).1
    | true => exact absurd hlen (hsound.checked hvalid hframes i hended)
  · cases hvalid : s.out.valid with
    | false =>
      obtain ⟨-, i, -, hlen⟩ := hbase.finished hvalid hkept
      exact ⟨i, hlen⟩
    | true => exact hsound.waiting hvalid

def firstAhead : List (ZipAction fun _ : Fin 2 => Nat) :=
  [.subscribe, .fwdOnSubscribe 0, .subscribe, .fwdOnSubscribe 1, .request 3,
    .fwdOnNext 0 1, .fwdOnNext 0 2, .fwdOnComplete 0, .fwdOnNext 1 10, .ret,
    .fwdOnNext 1 20, .ret]

theorem zip_with_pairs_by_index_first_ahead :
    ∃ s, exec (step fun args : Fin 2 → Nat => args 0 + args 1) {} firstAhead =
        some s ∧
      s.out.events = [.next 11, .next 22, .complete] ∧
      s.undefined = false := by
  refine exists_of_map (fun s => s.out.events)
    [.next 11, .next 22, .complete] (by decide +kernel) ?_
  exact fun s hrun hs => ⟨hs, (zip_with_pairs_by_index hrun).1⟩

end ZipWithSub

end ActorFramework.Flow

import ActorFramework.Flow.MergeInvariant

/-!
# Runs of the merge operator

A call of a source changes one input or stops all of them.  A pull takes items
from one input after the other until the demand is used up or the buffers are
empty.
-/

namespace ActorFramework.Flow

open Foundation List MergeInput MergeSub Option
open Bool (and_eq_true not_eq_true' not_eq_true)

variable {τ : Type*}

namespace MergeSub

variable {cfg : MergeConfig} {extra : Nat} {s t : MergeSub τ}

theorem Sound.onSubscribe (hs : Sound cfg s)
    (h : step cfg s .onSubscribe = some t) : Sound cfg t := by
  obtain ⟨hnew, ⟨⟩⟩ := ite_none_left_eq_some.mp h
  have hfresh := Bool.eq_false_iff.mpr hnew
  obtain ⟨hreq, hemitted, hzero⟩ := hs.room.early hfresh
  have hended : s.outer.ended = true → False := by
    intro hended
    cases hfresh ▸ (hs.room.closed hended).1
  unfold onSubscribe
  split
  · rename_i hopen
    rw [and_eq_true] at hopen
    refine { hs with
      room := ⟨hs.room.few, ?_, nofun, fun h => (hended h).elim⟩
      finished := ?_
      reported := nofun }
    · intro _
      change s.inputCount + (s.outer.requested + cfg.maxConcurrent) ≤
        cfg.maxConcurrent + s.outer.emitted
      omega
    · intro hinv
      cases hopen.2 ▸ hinv
  · rename_i hclosed
    rw [and_eq_true, not_and, not_eq_true'] at hclosed
    refine { hs with
      room := ⟨hs.room.few, hs.room.left, nofun, fun h => (hended h).elim⟩
      reported := fun _ hsub _ => ?_ }
    exact not_eq_true _ ▸ hclosed hsub

theorem Sound.onNext (hs : Sound cfg s)
    (h : step cfg s .onNext = some t) : Sound cfg t := by
  obtain ⟨hguard, rfl⟩ := of_guard h
  simp only [and_eq_true, decide_eq_true_eq] at hguard
  have hearly : s.outer.subscribed = false → False := by
    intro hfresh
    have hzero := (hs.room.early hfresh).1
    omega
  unfold onNext
  split_ifs with hsub
  · have hfew := hs.room.left hsub
    have hcount : inputTotal presence (s.nextKey + 1)
        (fun k => if k = s.nextKey then some {} else s.inputs k) =
          s.inputCount + 1 := inputTotal_add {}
    have hitems : inputTotal bufLength (s.nextKey + 1)
        (fun k => if k = s.nextKey then some {} else s.inputs k) =
          s.itemCount := inputTotal_add {}
    have hroom' : Room cfg s.sub
        { s.outer with emitted := s.outer.emitted + 1 } (s.inputCount + 1) := by
      refine ⟨by omega, fun _ => ?_, fun h => (hearly h).elim, hs.room.closed⟩
      change s.inputCount + 1 + s.outer.requested ≤
        cfg.maxConcurrent + (s.outer.emitted + 1)
      omega
    rw [← hcount] at hroom'
    refine ⟨⟨hs.lanes.add, hs.total.trans hitems.symm, hroom', hs.ledger, ?_⟩,
      hs.quiet, hs.busy, fun _ hclosed => ?_⟩
    · intro hinv
      cases hsub ▸ (hs.finished hinv).1
    · cases hsub ▸ hclosed
  · exact { hs with
      room := ⟨hs.room.few, fun hopen => absurd hopen hsub,
        fun h => (hearly h).elim, hs.room.closed⟩ }

theorem Counted.endOuter (hs : Counted cfg extra s)
    (hopen : s.outer.subscribed = true) :
    Counted cfg extra
      { s with sub := false, outer := { s.outer with ended := true } } :=
  { hs with
    room := ⟨hs.room.few, nofun, hs.room.early, fun _ => ⟨hopen, rfl⟩⟩
    finished := fun hinv => ⟨rfl, (hs.finished hinv).2⟩ }

theorem Sound.onComplete (hs : Sound cfg s)
    (h : step cfg s .onComplete = some t) : Sound cfg t := by
  obtain ⟨hguard, rfl⟩ := of_guard h
  have hended := hs.toCounted.endOuter (Bool.and_eq_true_iff.mp hguard).1
  unfold onComplete
  split
  · rename_i hend
    simp only [and_eq_true, noInputs_iff] at hend
    exact ⟨hended.finish hend.1.1 rfl hend.1.2 rfl, hs.quiet, hs.busy,
      fun _ _ _ => rfl⟩
  · rename_i hwait
    refine ⟨hended, hs.quiet, hs.busy, fun _ _ hzero => ?_⟩
    rw [← not_eq_true]
    refine fun hvalid => hwait ?_
    simp only [and_eq_true, noInputs_iff, beq_iff_eq]
    exact ⟨⟨hvalid, hzero⟩, hs.empty hzero⟩

theorem Counted.stop (hs : Counted cfg extra s) (what : Nat) :
    Counted cfg extra { s with err := some what }.stopInputs := by
  have hless : { s with err := some what }.stopInputs.inputCount ≤
      s.inputCount := by
    unfold inputCount inputTotal
    exact Finset.sum_le_sum fun k _ => presence_stop_le _
  have hroom := hs.room.less hless
  refine ⟨hs.lanes.stop, hs.total.trans inputTotal_stop.symm,
    ⟨hroom.few, nofun, hroom.early, fun h => ⟨(hroom.closed h).1, rfl⟩⟩,
    hs.ledger, fun hinv => ?_⟩
  obtain ⟨_, hzero, hend⟩ := hs.finished hinv
  exact ⟨rfl, by omega, hend⟩

theorem Counted.fail (hs : Counted cfg 0 s) (what : Nat)
    (hquiet : 0 < s.buffered → s.demand = 0)
    (hbusy : 0 < s.inFlightDemand → 0 < s.buffered)
    (hvalid : { s with err := some what }.stopInputs.noInputs = true →
      s.out.valid = true) :
    Sound cfg
      (if { s with err := some what }.stopInputs.noInputs then
        { s with err := some what }.stopInputs.finish (.error (some what))
      else { s with err := some what }.stopInputs) := by
  have hstop := hs.stop what
  split
  · rename_i hend
    exact ⟨hstop.finish (hvalid hend) rfl (noInputs_iff.mp hend) rfl, hquiet,
      hbusy, fun _ _ _ => rfl⟩
  · rename_i hwait
    refine ⟨hstop, hquiet, hbusy, fun _ _ hzero => ?_⟩
    exact absurd (noInputs_iff.mpr hzero) hwait

theorem Sound.onError {what : Nat} (hs : Sound cfg s)
    (h : step cfg s (.onError what) = some t) : Sound cfg t := by
  obtain ⟨hguard, rfl⟩ := of_guard h
  have hended := hs.toCounted.endOuter (Bool.and_eq_true_iff.mp hguard).1
  unfold onError
  cases hvalid : s.out.valid with
  | true => exact hended.fail what hs.quiet hs.busy fun _ => hvalid
  | false =>
    exact ⟨hended.stop what, hs.quiet, hs.busy, fun _ _ _ => hvalid⟩

theorem Sound.fwdOnError (hs : Sound cfg s) (key what : Nat) :
    Sound cfg (s.fwdOnError key what) := by
  unfold MergeSub.fwdOnError
  split
  · exact hs
  · rename_i hactive
    rw [Bool.or_eq_true, not_or, isNone_iff_eq_none] at hactive
    obtain ⟨input, hinput⟩ := ne_none_iff_exists'.mp hactive.2
    exact hs.toCounted.fail what hs.quiet hs.busy fun _ =>
      hs.valid_of_some hinput

variable {key : Nat} {item : τ} {sub : Bool} {rest : List τ}

theorem Counted.update (hs : Counted cfg extra s)
    (hkey : 0 < key ∧ key < s.nextKey) (herr : t.err = s.err)
    (hnext : t.nextKey = s.nextKey)
    (hinputs : ∀ k, k ≠ key → t.inputs k = s.inputs k)
    (hsources : ∀ k, k ≠ key → t.sources k = s.sources k)
    (hlog : ∀ k, k ≠ key → t.emittedOf k = s.emittedOf k)
    (hchan : Channel cfg s.err.isSome (t.inputs key) (t.sources key)
      (t.emittedOf key))
    (hbuf : t.buffered + bufLength (s.inputs key) =
      s.buffered + bufLength (t.inputs key))
    (hroom : Room cfg t.sub t.outer t.inputCount)
    (hledger : Ledger extra t.out t.emitted t.demand t.inFlightDemand
      t.requested)
    (hover : t.out.valid = false →
      t.sub = false ∧ t.inputCount = 0 ∧ t.out.ending.length = 1) :
    Counted cfg extra t := by
  refine ⟨?_, ?_, hroom, hledger, hover⟩
  · rw [herr, hnext]
    exact hs.lanes.update hkey hinputs hsources hlog hchan
  · have hitems : inputTotal bufLength s.nextKey t.inputs +
        bufLength (s.inputs key) =
          s.itemCount + bufLength (t.inputs key) :=
      inputTotal_update hkey.2 hinputs
    have htotal := hs.total
    rw [itemCount, hnext]
    omega

theorem inputCount_update (hkey : key < s.nextKey)
    (hnext : t.nextKey = s.nextKey)
    (hinputs : ∀ k, k ≠ key → t.inputs k = s.inputs k) :
    t.inputCount + presence (s.inputs key) =
      s.inputCount + presence (t.inputs key) := by
  rw [inputCount, hnext]
  exact inputTotal_update hkey hinputs

section

variable (hs : Sound cfg s)
include hs

theorem Sound.update {input input' : MergeInput τ}
    (hinput : s.inputs key = some input) (hinput' : t.inputs key = some input')
    (herr : t.err = s.err) (hnext : t.nextKey = s.nextKey)
    (hinputs : ∀ k, k ≠ key → t.inputs k = s.inputs k)
    (hsources : ∀ k, k ≠ key → t.sources k = s.sources k)
    (hlog : ∀ k, k ≠ key → t.emittedOf k = s.emittedOf k) (hsub : t.sub = s.sub)
    (houter : t.outer = s.outer) (hvalid : t.out.valid = s.out.valid)
    (hchan : Channel cfg s.err.isSome (some input') (t.sources key) (t.emittedOf
      key))
    (hbuf : t.buffered + input.buf.length = s.buffered + input'.buf.length)
    (hledger : Ledger 0 t.out t.emitted t.demand t.inFlightDemand t.requested)
    (hquiet : 0 < t.buffered → t.demand = 0)
    (hbusy : 0 < t.inFlightDemand → 0 < t.buffered) : Sound cfg t := by
  have hkey := hs.lanes.of_some hinput
  have hopen := hs.valid_of_some hinput
  have hcount : t.inputCount = s.inputCount := by
    have hupdate := inputCount_update hkey.2 hnext hinputs
    rw [hinput, hinput'] at hupdate
    exact Nat.add_right_cancel hupdate
  have hroom : Room cfg t.sub t.outer t.inputCount := by
    rw [hsub, houter, hcount]
    exact hs.room
  refine ⟨hs.toCounted.update hkey herr hnext hinputs hsources hlog ?_ ?_ hroom
    hledger ?_, hquiet, hbusy, ?_⟩
  · rw [hinput']
    exact hchan
  · rw [hinput, hinput']
    exact hbuf
  · intro hinv
    cases hopen ▸ (hvalid.symm.trans hinv)
  · rw [houter, hsub, hcount, hvalid]
    exact hs.reported

theorem Sound.setSource {source : InnerSource τ}
    (hkey : 0 < key ∧ key < s.nextKey)
    (hchan : Channel cfg s.err.isSome (s.inputs key) source (s.emittedOf key)) :
    Sound cfg (s.setSource key source) := by
  refine ⟨hs.toCounted.update hkey rfl rfl (fun _ _ => rfl)
    (fun _ => setSource_other s source) (fun _ _ => rfl) ?_ rfl hs.room
    hs.ledger hs.finished, hs.quiet, hs.busy, hs.reported⟩
  rw [setSource_self]
  exact hchan

theorem Sound.fwdOnSubscribe (h : step cfg s (.fwdOnSubscribe key) = some t) :
    Sound cfg t := by
  obtain ⟨hguard, rfl⟩ := of_guard h
  simp only [and_eq_true, decide_eq_true_eq, not_eq_true'] at hguard
  obtain ⟨hkey, hfresh⟩ := hguard
  have hchan := hs.lanes.channel key hkey.1 hkey.2
  unfold fwdOnSubscribe
  split
  · rename_i hnone
    refine hs.setSource hkey (hchan.refuse fun y hy => ?_)
    cases hy ▸ hnone
  · rename_i input hinput
    split_ifs with hsub
    · refine hs.setSource hkey (hchan.refuse fun y hy => ?_)
      cases hy ▸ hinput
      exact hsub
    · change s.inputs key = some input at hinput
      rw [hinput] at hchan
      refine hs.update hinput (setInput_self _ key _) rfl rfl
        (fun _ => setInput_other _ _) (fun k hk => ?_) (fun _ _ => rfl) rfl rfl
        rfl ?_ rfl hs.ledger hs.quiet hs.busy
      · rw [requestInput, setSource_other _ _ hk]
        exact setSource_other _ _ hk
      · simp only [requestInput, setInput_sources, setSource_self]
        exact hchan.subscribe hfresh

theorem Sound.demand_eq_zero
    (hlater : ¬(!s.isPulling && decide (0 < s.demand)) = true) :
    s.demand = 0 := by
  rw [and_eq_true, decide_eq_true_eq, not_eq_true', not_and] at hlater
  by_contra hne
  refine hlater ?_ (Nat.pos_of_ne_zero hne)
  exact decide_eq_false fun hflying => hne (hs.quiet (hs.busy hflying))

theorem Sound.fwdOnNext (h : step cfg s (.fwdOnNext key item) = some t) :
    Sound cfg t := by
  obtain ⟨hguard, rfl⟩ := of_guard h
  simp only [and_eq_true, not_eq_true'] at hguard
  obtain ⟨⟨hsrc, hended⟩, -⟩ := hguard
  have hkey := hs.lanes.of_subscribed hsrc
  have hchan := hs.lanes.channel key hkey.1 hkey.2
  unfold fwdOnNext
  split
  · rename_i hnone
    change s.inputs key = none at hnone
    refine hs.setSource hkey ?_
    rw [hnone] at hchan ⊢
    exact hchan.lose hsrc item hended
  · rename_i input hinput
    change s.inputs key = some input at hinput
    rw [hinput] at hchan
    split
    · rename_i hnow
      have hdem : 0 < s.demand := by
        rw [and_eq_true, decide_eq_true_eq] at hnow
        exact hnow.2
      have hbuffered : s.buffered = 0 := by
        have hquiet := hs.quiet
        omega
      have hbuf : input.buf = [] := by
        have hle := hs.buf_length_le hinput
        rw [hbuffered] at hle
        exact length_eq_zero_iff.mp (Nat.le_zero.mp hle)
      have hledger := hs.ledger.emit (hs.valid_of_some hinput) hdem key item
      have hquiet : 0 < s.buffered → s.demand - 1 = 0 := by omega
      split
      · refine hs.update hinput hinput rfl rfl (fun _ _ => rfl) (fun k hk => ?_)
          (fun k hk => itemsOf_concat_other hk _ _) rfl rfl rfl ?_ rfl hledger
          hquiet hs.busy
        · exact (setSource_other _ _ hk).trans (setSource_other _ _ hk)
        · simp only [emit, requestInput, setSource_self, emittedOf,
            itemsOf_concat_self]
          exact hchan.forward hsrc item _ hbuf le_rfl
      · refine hs.update hinput hinput rfl rfl (fun _ _ => rfl) (fun k hk => ?_)
          (fun k hk => itemsOf_concat_other hk _ _) rfl rfl rfl ?_ rfl hledger
          hquiet hs.busy
        · exact setSource_other _ _ hk
        · simp only [emit, setSource_self, emittedOf, itemsOf_concat_self]
          exact hchan.forward hsrc item _ hbuf (Nat.le_succ _)
    · rename_i hlater
      have hdem : s.demand = 0 := hs.demand_eq_zero hlater
      refine hs.update hinput (setInput_self _ key _) rfl rfl
        (fun _ => setInput_other _ _) (fun k hk => ?_) (fun _ _ => rfl) rfl rfl
        rfl ?_ ?_ hs.ledger (fun _ => hdem) fun _ => Nat.succ_pos _
      · exact setSource_other _ _ hk
      · simp only [setInput_sources, setSource_self]
        exact hchan.store hsrc item
      · change s.buffered + 1 + input.buf.length =
          s.buffered + (input.buf ++ [item]).length
        rw [length_append, length_singleton]
        omega

theorem Sound.fwdOnComplete (h : step cfg s (.fwdOnComplete key) = some t) :
    Sound cfg t := by
  obtain ⟨hguard, rfl⟩ := of_guard h
  have hkey := hs.lanes.of_subscribed (Bool.and_eq_true_iff.mp hguard).1
  have hchan := (hs.lanes.channel key hkey.1 hkey.2).done
  unfold fwdOnComplete
  split
  · exact hs.setSource hkey hchan
  · rename_i input hinput
    change s.inputs key = some input at hinput
    rw [hinput] at hchan
    split
    · refine hs.update hinput (setInput_self _ key _) rfl rfl
        (fun _ => setInput_other _ _) (fun k => setSource_other _ _)
        (fun _ _ => rfl) rfl rfl rfl ?_ rfl hs.ledger hs.quiet hs.busy
      simp only [setInput_sources, setSource_self]
      exact hchan.release rfl
    · rename_i hbuf
      rw [not_eq_true, Bool.not_eq_false', List.isEmpty_iff] at hbuf
      have hvalid := hs.valid_of_some hinput
      have hcount : ((s.setSource key
          { s.sources key with ended := true }).setInput key none).inputCount +
            1 = s.inputCount := by
        have hupdate := inputCount_update (t := (s.setSource key
          { s.sources key with ended := true }).setInput key none) hkey.2 rfl
          fun _ => setInput_other _ _
        rw [hinput, setInput_self] at hupdate
        exact hupdate
      have hroom := hs.room
      rw [← hcount] at hroom
      have herased : Counted cfg 0 ((s.setSource key
          { s.sources key with ended := true }).setInput key none) := by
        refine hs.toCounted.update hkey rfl rfl (fun _ => setInput_other _ _)
          (fun k => setSource_other _ _) (fun _ _ => rfl) ?_ ?_
          (hroom.less (Nat.le_succ _)) hs.ledger fun hinv => ?_
        · simp only [setInput_self, setInput_sources, setSource_self]
          exact hchan.erase hbuf rfl
        · rw [setInput_self, hinput]
          change s.buffered + input.buf.length = s.buffered + 0
          rw [hbuf]
          rfl
        · cases hvalid ▸ hinv
      split
      · rename_i hsub
        refine ⟨{ herased with
            room := hroom.replace
            finished := fun hinv => ?_ }, hs.quiet, hs.busy,
          fun _ hclosed => ?_⟩
        · cases hvalid ▸ hinv
        · cases hsub ▸ hclosed
      · rename_i hsub
        rw [not_eq_true] at hsub
        split
        · rename_i hend
          exact ⟨herased.finish hvalid hsub (noInputs_iff.mp hend) rfl,
            hs.quiet, hs.busy, fun _ _ _ => rfl⟩
        · rename_i hwait
          refine ⟨herased, hs.quiet, hs.busy, fun _ _ hzero => ?_⟩
          exact absurd (noInputs_iff.mpr hzero) hwait

theorem Sound.request (n : Nat) :
    Sound cfg ({ s with requested := s.requested + n }.request n) := by
  have hacc := hs.ledger.account
  unfold MergeSub.request
  split
  · refine { hs with ledger := { hs.ledger with account := ?_ } }
    change s.out.delivered.length + s.demand + s.inFlightDemand ≤
      s.requested + n + 0
    omega
  · split
    · rename_i hempty
      change s.buffered = 0 at hempty
      refine { hs with
        ledger := { hs.ledger with account := ?_ }
        quiet := ?_ }
      · change s.out.delivered.length + (s.demand + n) + s.inFlightDemand ≤
          s.requested + n + 0
        omega
      · intro hpos
        change 0 < s.buffered at hpos
        omega
    · rename_i hfilled
      change s.buffered ≠ 0 at hfilled
      refine { hs with
        ledger := { hs.ledger with account := ?_ }
        busy := fun _ => Nat.pos_of_ne_zero hfilled }
      change s.out.delivered.length + s.demand + (s.inFlightDemand + n) ≤
        s.requested + n + 0
      omega

end

theorem hasItems_of_bufLength (h : 0 < bufLength (s.inputs key)) :
    s.hasItems key = true := by
  cases hinput : s.inputs key with
  | none =>
    rw [hinput] at h
    cases h
  | some input =>
    rw [hinput] at h
    have hne : input.buf ≠ [] := ne_nil_of_length_pos h
    simp [hasItems, hinput, hne]

theorem exists_of_hasItems (h : s.hasItems key = true) :
    ∃ sub item rest, s.inputs key = some ⟨sub, item :: rest⟩ := by
  rw [hasItems, Option.any_eq_true] at h
  obtain ⟨⟨sub, buf⟩, hinput, hbuf⟩ := h
  cases buf with
  | nil => cases hbuf
  | cons item rest => exact ⟨sub, item, rest, hinput⟩

theorem exists_next (htotal : s.buffered = s.itemCount)
    (hpos : 0 < s.buffered) :
    ∃ key, s.next = some key ∧ s.hasItems key = true := by
  rw [htotal] at hpos
  obtain ⟨key, hkey, hlen⟩ := exists_of_inputTotal_pos hpos
  have hitems := hasItems_of_bufLength hlen
  have hselect : ∀ first count, first ≤ key → key < first + count →
      ∃ found, s.selectNonEmpty first count = some found := by
    intro first count hle hlt
    refine isSome_iff_exists.mp (find?_isSome.mpr ⟨key, ?_, hitems⟩)
    exact mem_range'_1.mpr ⟨hle, hlt⟩
  have hfound : ∃ found, s.next = some found := by
    rcases Nat.lt_or_ge key s.pos with hlt | hge
    · obtain ⟨found, hsome⟩ := hselect 0 s.pos (Nat.zero_le _) (by omega)
      cases hfirst : s.selectNonEmpty s.pos (s.nextKey - s.pos) with
      | none => exact ⟨found, by rw [next, hfirst, hsome]; rfl⟩
      | some other => exact ⟨other, by rw [next, hfirst]; rfl⟩
    · obtain ⟨found, hsome⟩ := hselect s.pos (s.nextKey - s.pos) hge (by omega)
      exact ⟨found, by rw [next, hsome]; rfl⟩
  obtain ⟨found, hnext⟩ := hfound
  refine ⟨found, hnext, ?_⟩
  rcases or_eq_some_iff.mp hnext with hfirst | ⟨_, hsecond⟩
  · exact find?_some hfirst
  · exact find?_some hsecond

theorem bufLength_pop (sub : Bool) (rest : List τ) :
    bufLength
      (if sub || !rest.isEmpty then some ⟨sub, rest⟩ else none) =
        rest.length := by
  split_ifs with hempty
  · rfl
  · rw [Bool.or_eq_true, not_or, not_eq_true, not_eq_true,
      Bool.not_eq_false', List.isEmpty_iff] at hempty
    rw [hempty.2]
    rfl

section

variable (hs : Counted cfg extra s)
include hs

section

variable (hinput : s.inputs key = some ⟨sub, item :: rest⟩)
include hinput

theorem Counted.dropItem_buffered :
    s.buffered - 1 + bufLength (s.inputs key) =
      s.buffered +
        bufLength ((s.dropItem key sub rest).inputs key) := by
  have hle := hs.buf_length_le hinput
  rw [hinput, dropItem, setInput_self, bufLength_pop]
  change rest.length + 1 ≤ s.buffered at hle
  change s.buffered - 1 + (rest.length + 1) = s.buffered + rest.length
  omega

theorem Counted.dropItem_inputCount :
    (s.dropItem key sub rest).inputCount + 1 = s.inputCount +
      presence
        (if sub || !rest.isEmpty then some ⟨sub, rest⟩ else none) := by
  have hcount := inputCount_update (t := s.dropItem key sub rest)
    (hs.lanes.of_some hinput).2 rfl fun _ => setInput_other _ _
  rw [hinput, dropItem, setInput_self] at hcount
  exact hcount

theorem Counted.pop (hdem : 0 < s.demand) :
    Counted cfg extra
      (((s.dropItem key sub rest).replenish key sub rest).emit key item) := by
  have hkey := hs.lanes.of_some hinput
  have hvalid := hs.valid_of_some hinput
  have hchan := hs.lanes.channel key hkey.1 hkey.2
  rw [hinput] at hchan
  have hledger := hs.ledger.emit hvalid hdem key item
  have hother : ∀ k, k ≠ key → (s.dropItem key sub rest).inputs k =
      s.inputs k := fun _ => setInput_other _ _
  have hlog : ∀ k, k ≠ key → itemsOf k (s.emitted ++ [(key, item)]) =
      itemsOf k s.emitted := fun _ hk => itemsOf_concat_other hk _ _
  have hbuf := hs.dropItem_buffered hinput
  have hcount := hs.dropItem_inputCount hinput
  have hover : s.out.valid = false →
      s.sub = false ∧ (s.dropItem key sub rest).inputCount = 0 ∧
        (s.out.onNext item).ending.length = 1 := by
    intro hinv
    cases hvalid ▸ hinv
  have hkept : Room cfg s.sub s.outer (s.dropItem key sub rest).inputCount := by
    refine hs.room.less ?_
    have hle := presence_le_one
      (if sub || !rest.isEmpty then some ⟨sub, rest⟩ else none)
    omega
  unfold replenish
  split
  · rename_i hsub
    subst hsub
    refine hs.update hkey rfl rfl hother
      (fun k => setSource_other _ _) hlog ?_ hbuf hkept hledger hover
    simp only [emit, requestInput, setSource_self, emittedOf,
      itemsOf_concat_self]
    simp only [setSource, dropItem, setInput_self]
    exact hchan.pop _ le_rfl
  · rename_i hsub
    rw [not_eq_true] at hsub
    subst hsub
    have hpop : Channel cfg s.err.isSome
        ((s.dropItem key false rest).inputs key) (s.sources key)
          (itemsOf key (s.emitted ++ [(key, item)])) := by
      rw [itemsOf_concat_self, dropItem, setInput_self]
      exact hchan.pop (s.sources key).requested (Nat.le_succ _)
    split
    · rename_i hlast
      rw [and_eq_true, List.isEmpty_iff] at hlast
      obtain ⟨rfl, _⟩ := hlast
      have hroom := hs.room
      rw [show s.inputCount = (s.dropItem key false []).inputCount + 1 from
        hcount.symm] at hroom
      exact hs.update hkey rfl rfl hother (fun _ _ => rfl) hlog hpop hbuf
        hroom.replace hledger hover
    · exact hs.update hkey rfl rfl hother (fun _ _ => rfl) hlog hpop hbuf
        hkept hledger hover

end

theorem Counted.setPos (pos : Nat) : Counted cfg extra { s with pos } :=
  { hs with }

theorem Counted.popItem (hitems : s.hasItems key = true) (hdem : 0 < s.demand) :
    ∃ t other, s.popItem key = some (t, other) ∧ Counted cfg extra t ∧
      (0 < t.buffered → t.hasItems other = true) ∧
      t.demand = s.demand - 1 ∧ t.inFlightDemand = s.inFlightDemand := by
  obtain ⟨sub, item, rest, hinput⟩ := exists_of_hasItems hitems
  have hpop := hs.pop hinput hdem
  have hframe : ∀ u : MergeSub τ,
      (u.replenish key sub rest).demand = u.demand ∧
      (u.replenish key sub rest).inFlightDemand = u.inFlightDemand ∧
      (u.replenish key sub rest).inputs = u.inputs := by
    intro u
    unfold replenish
    split
    · exact ⟨rfl, rfl, rfl⟩
    · split <;> exact ⟨rfl, rfl, rfl⟩
  obtain ⟨hdem', hflight, hinputs⟩ := hframe (s.dropItem key sub rest)
  simp only [MergeSub.popItem, hinput]
  generalize (s.dropItem key sub rest).replenish key sub rest = u at *
  unfold advance
  split
  · rename_i hmove
    rw [and_eq_true, decide_eq_true_eq] at hmove
    obtain ⟨other, hnext, hitems'⟩ := exists_next (s := u) hpop.total hmove.2
    rw [hnext]
    exact ⟨_, other, rfl, hpop.setPos other, fun _ => hitems', hdem',
      hflight⟩
  · rename_i hstay
    refine ⟨_, key, rfl, hpop, fun hpos => ?_, hdem', hflight⟩
    have hrest : rest ≠ [] := by
      rintro rfl
      exact hstay (decide_eq_true hpos)
    change ((u.inputs key).any fun input => !input.buf.isEmpty) = true
    rw [hinputs, dropItem, setInput_self]
    simp [hrest]

end

theorem Counted.pullLoop (fuel : Nat) (hs : Counted cfg extra s)
    (hitems : 0 < s.buffered → s.hasItems key = true)
    (hfuel : s.demand ≤ fuel) :
    ∃ t, pullLoop fuel s key = some t ∧ Counted cfg extra t ∧
      (0 < t.buffered → t.demand = 0) ∧
      t.inFlightDemand = s.inFlightDemand := by
  induction fuel generalizing s key with
  | zero => exact ⟨s, rfl, hs, fun _ => Nat.le_zero.mp hfuel, rfl⟩
  | succ fuel ih =>
    rw [pullLoop]
    split
    · rename_i hrun
      simp only [and_eq_true, decide_eq_true_eq] at hrun
      obtain ⟨u, other, hpop, hu, hitems', hdem, hflight⟩ :=
        hs.popItem (hitems hrun.2) hrun.1.2
      obtain ⟨t, hloop, ht, hquiet, hflight'⟩ := ih hu hitems' (by omega)
      refine ⟨t, ?_, ht, hquiet, hflight'.trans hflight⟩
      rw [hpop]
      exact hloop
    · rename_i hend
      refine ⟨s, rfl, hs, fun hpos => ?_, rfl⟩
      have hvalid : s.out.valid = true := by
        obtain ⟨_, _, _, hinput⟩ := exists_of_hasItems (hitems hpos)
        exact hs.valid_of_some hinput
      simp only [hvalid, Bool.true_and, and_eq_true, decide_eq_true_eq] at hend
      omega

theorem endEvent_isTerminal (s : MergeSub τ) :
    s.endEvent.isTerminal = true := by
  unfold endEvent
  split <;> rfl

theorem Counted.endPull (oldPos : Nat) (hs : Counted cfg extra s) :
    Counted cfg extra (s.endPull oldPos) ∧
      (s.endPull oldPos).buffered = s.buffered ∧
      (s.endPull oldPos).demand = s.demand ∧
      (s.endPull oldPos).inFlightDemand = s.inFlightDemand ∧
      ((s.endPull oldPos).outer.subscribed = true →
        (s.endPull oldPos).sub = false → (s.endPull oldPos).inputCount = 0 →
        (s.endPull oldPos).out.valid = false) := by
  unfold MergeSub.endPull
  split
  · rename_i hend
    simp only [and_eq_true, done, not_eq_true', noInputs_iff] at hend
    have hfinish :=
      hs.finish hend.1 hend.2.1 hend.2.2 s.endEvent_isTerminal
    exact ⟨hfinish.setPos _, rfl, rfl, rfl, fun _ _ _ => rfl⟩
  · rename_i hwait
    refine ⟨hs.setPos _, rfl, rfl, rfl, fun _ hsub hzero => ?_⟩
    rw [← not_eq_true]
    refine fun hvalid => hwait ?_
    simp only [and_eq_true, done, not_eq_true', noInputs_iff]
    exact ⟨hvalid, hsub, hzero⟩

theorem Sound.doPull (hs : Sound cfg s) :
    ∃ t, s.doPull s.inFlightDemand = some t ∧
      Counted cfg s.inFlightDemand t ∧ (0 < t.buffered → t.demand = 0) ∧
      t.inFlightDemand = s.inFlightDemand ∧
      (t.outer.subscribed = true → t.sub = false → t.inputCount = 0 →
        t.out.valid = false) := by
  have hacc := hs.ledger.account
  have hmore : Counted cfg s.inFlightDemand
      { s with demand := s.demand + s.inFlightDemand } := by
    refine { hs with ledger := { hs.ledger with account := ?_ } }
    change s.out.delivered.length + (s.demand + s.inFlightDemand) +
      s.inFlightDemand ≤ s.requested + s.inFlightDemand
    omega
  unfold MergeSub.doPull
  split
  · rename_i hnext
    refine ⟨_, rfl, hmore, fun hpos => ?_, rfl, hs.reported⟩
    obtain ⟨key, hsome, _⟩ := exists_next hmore.total hpos
    cases hnext ▸ hsome
  · rename_i key hnext
    have hitems : 0 < s.buffered → s.hasItems key = true := by
      intro hpos
      obtain ⟨other, hsome, hitems⟩ := exists_next hmore.total hpos
      cases hnext ▸ hsome
      exact hitems
    obtain ⟨t, hloop, ht, hquiet, hflight⟩ :=
      (hmore.setPos key).pullLoop (s.demand + s.inFlightDemand) hitems
        le_rfl
    rw [hloop]
    obtain ⟨hend, hbuf, hdem, hflight', hreported⟩ :=
      ht.endPull key
    refine ⟨t.endPull key, rfl, hend, ?_, hflight'.trans hflight, hreported⟩
    rw [hbuf, hdem]
    exact hquiet

theorem Sound.runPull (hs : Sound cfg s) :
    ∃ t, s.runPull = some t ∧ Sound cfg t := by
  obtain ⟨t, hpull, ht, hquiet, hflight, hreported⟩ := hs.doPull
  have hacc := ht.ledger.account
  refine ⟨_, by rw [MergeSub.runPull, hpull]; rfl, ?_⟩
  refine ⟨{ ht with ledger := { ht.ledger with account := ?_ } }, hquiet, ?_,
    hreported⟩
  · change t.out.delivered.length + t.demand +
      (t.inFlightDemand - s.inFlightDemand) ≤ t.requested + 0
    omega
  · intro hpos
    change 0 < t.inFlightDemand - s.inFlightDemand at hpos
    omega

theorem step_sound (a : MergeAction τ) (hs : Sound cfg s)
    (h : step cfg s a = some t) : Sound cfg t := by
  cases a with
  | onSubscribe => exact hs.onSubscribe h
  | onNext => exact hs.onNext h
  | onComplete => exact hs.onComplete h
  | onError what => exact hs.onError h
  | fwdOnSubscribe key => exact hs.fwdOnSubscribe h
  | fwdOnNext key item => exact hs.fwdOnNext h
  | fwdOnComplete key => exact hs.fwdOnComplete h
  | fwdOnError key what =>
    obtain ⟨hguard, rfl⟩ := of_guard h
    have hkey := hs.lanes.of_subscribed (Bool.and_eq_true_iff.mp hguard).1
    have hchan := hs.lanes.channel key hkey.1 hkey.2
    exact (hs.setSource hkey hchan.done).fwdOnError key what
  | request n =>
    cases h
    exact hs.request n
  | runPull =>
    obtain ⟨_, hpull⟩ := ite_none_right_eq_some.mp h
    have hs' : Sound cfg { s with scheduled := s.scheduled - 1 } := { hs with }
    obtain ⟨u, hrun, hu⟩ := hs'.runPull
    cases hrun ▸ hpull
    exact hu

theorem exec_sound {as : List (MergeAction τ)}
    (hrun : exec (step cfg) {} as = some t) : Sound cfg t :=
  exec_invariant (Sound cfg) (fun _ a _ => step_sound a)
    sound_initial hrun

theorem Sound.emittedOf_prefix (hs : Sound cfg s) (key : Nat) :
    s.emittedOf key <+: (s.sources key).items := by
  by_cases hkey : 0 < key ∧ key < s.nextKey
  · have hchan := hs.lanes.channel key hkey.1 hkey.2
    cases hinput : s.inputs key with
    | none => exact hchan.gone hinput
    | some input => exact ⟨input.buf, hchan.present input hinput⟩
  · change itemsOf key s.emitted <+: _
    rw [(hs.lanes.unused key hkey).2.2]
    exact nil_prefix

theorem Sound.requested_le (hs : Sound cfg s) (key : Nat) :
    (s.sources key).requested ≤
      (s.emittedOf key).length + cfg.maxPendingPerInput := by
  by_cases hkey : 0 < key ∧ key < s.nextKey
  · exact (hs.lanes.channel key hkey.1 hkey.2).pending
  · rw [(hs.lanes.unused key hkey).2.1]
    exact Nat.zero_le _

theorem Sound.emittedOf_complete (hs : Sound cfg s) (herr : s.err = none)
    (key : Nat) :
    s.emittedOf key ++ ((s.inputs key).map buf).getD [] =
      (s.sources key).items := by
  by_cases hkey : 0 < key ∧ key < s.nextKey
  · have hchan := hs.lanes.channel key hkey.1 hkey.2
    cases hinput : s.inputs key with
    | none =>
      have hall := (hchan.complete (by rw [herr]; rfl) hinput).2
      exact (append_nil _).trans hall
    | some input => exact hchan.present input hinput
  · obtain ⟨hinput, hsrc, hnone⟩ := hs.lanes.unused key hkey
    rw [emittedOf, hinput, hsrc, hnone]
    rfl

theorem merge_delivers_inputs_in_order (cfg : MergeConfig)
    (as : List (MergeAction τ)) (t : MergeSub τ)
    (hrun : exec (step cfg) {} as = some t) :
    (∀ key, t.emittedOf key <+: (t.sources key).items) ∧
      (t.err = none → ∀ key,
        t.emittedOf key ++ ((t.inputs key).map MergeInput.buf).getD [] =
          (t.sources key).items) ∧
      t.out.delivered = t.emitted.map Prod.snd ∧
      t.out.delivered.length ≤ t.requested ∧
      t.inputCount ≤ cfg.maxConcurrent ∧
      (∀ key, (t.sources key).requested ≤
        (t.emittedOf key).length + cfg.maxPendingPerInput) ∧
      t.buffered = t.itemCount ∧
      t.out.events = t.out.delivered.map .next ++ t.out.ending ∧
      t.out.ending.length ≤ 1 ∧
      (t.out.ending ≠ [] → t.inputCount = 0 ∧ t.buffered = 0) ∧
      (t.outer.subscribed = true → t.sub = false → t.inputCount = 0 →
        t.out.ending.length = 1) ∧
      (t.outer.ended = true → t.inputCount = 0 → t.out.ending.length = 1) := by
  have ht := exec_sound hrun
  have haccount := ht.ledger.account
  have hlawful := ht.ledger.lawful
  have hend : t.outer.subscribed = true → t.sub = false →
      t.inputCount = 0 → t.out.ending.length = 1 :=
    fun hopen hsub hzero => (ht.finished (ht.reported hopen hsub hzero)).2.2
  refine ⟨ht.emittedOf_prefix, ht.emittedOf_complete, ht.ledger.logged,
    by omega, ht.room.few, ht.requested_le, ht.total, hlawful.shape,
    hlawful.once, fun hended => ?_, hend, fun hended => ?_⟩
  · have hzero := (ht.finished (hlawful.invalid_of_ending hended)).2.1
    exact ⟨hzero, ht.empty hzero⟩
  · obtain ⟨hopen, hsub⟩ := ht.room.closed hended
    exact hend hopen hsub

def twoInputs : List (MergeAction Nat) :=
  [.onSubscribe, .onNext, .fwdOnSubscribe 1, .onNext, .fwdOnSubscribe 2,
    .fwdOnNext 1 10, .fwdOnNext 1 11, .fwdOnNext 2 20, .request 2, .runPull,
    .fwdOnComplete 2, .onComplete, .request 3, .runPull, .fwdOnNext 1 12,
    .fwdOnComplete 1]

theorem merge_delivers_inputs_in_order_two :
    ∃ t, exec (step ⟨2, 8⟩) {} twoInputs = some t ∧
      t.out.delivered = [10, 11, 20, 12] ∧
      ∀ key, t.emittedOf key <+: (t.sources key).items := by
  have hdelivered : (exec (step ⟨2, 8⟩) {} twoInputs).map
      (fun t => t.out.delivered) = some [10, 11, 20, 12] := by
    decide +kernel
  obtain ⟨t, hrun, ht⟩ := map_eq_some_iff.mp hdelivered
  exact ⟨t, hrun, ht, (merge_delivers_inputs_in_order _ _ t hrun).1⟩

end MergeSub

end ActorFramework.Flow

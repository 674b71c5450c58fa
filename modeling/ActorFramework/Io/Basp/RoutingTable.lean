import ActorFramework.Foundation.Transition
import Mathlib.Data.List.AList

/-!
# The routing table

`routing_table` keeps the direct connections twice, by connection handle and
by node ID, and for every node without one the hops that lead to it.  A node
ID is `none` when it is default-constructed.  The hops of a node, an unordered
set in the source, are listed in the order in which they were added.
-/

namespace ActorFramework.Io.Basp

open Foundation List AList

variable {κ δ : Type*}

/-- An existing entry wins, as in `std::unordered_map::emplace`. -/
def emplace {α β : Type*} [DecidableEq α] (m : AList fun _ : α => β) (a : α)
    (b : β) : AList fun _ : α => β :=
  match m.lookup a with
  | some _ => m
  | none => m.insert a b

theorem lookup_emplace {α β : Type*} [DecidableEq α]
    {m : AList fun _ : α => β} {a : α} (h : m.lookup a = none) (b : β)
    (x : α) :
    (emplace m a b).lookup x = if x = a then some b else m.lookup x := by
  simp only [emplace, h]
  split_ifs with hx
  · rw [hx, lookup_insert]
  · exact lookup_insert_ne hx

structure Route (κ δ : Type*) where
  nextHop : Option δ
  hdl : κ
  deriving DecidableEq

structure RoutingTable (κ δ : Type*) where
  directByHdl : AList fun _ : κ => Option δ
  directByNid : AList fun _ : Option δ => κ
  indirect : AList fun _ : Option δ => List (Option δ)

namespace RoutingTable

def empty : RoutingTable κ δ := ⟨∅, ∅, ∅⟩

def SameDirect (t t' : RoutingTable κ δ) : Prop :=
  t'.directByHdl = t.directByHdl ∧ t'.directByNid = t.directByNid

theorem SameDirect.refl (t : RoutingTable κ δ) : t.SameDirect t := ⟨rfl, rfl⟩

variable {t : RoutingTable κ δ}

theorem SameDirect.trans {u v : RoutingTable κ δ} (htu : t.SameDirect u)
    (huv : u.SameDirect v) : t.SameDirect v :=
  ⟨huv.1.trans htu.1, huv.2.trans htu.2⟩

variable [DecidableEq δ]

/-- The loop over the hops of a node; hops without connection are erased. -/
def pickHop (t : RoutingTable κ δ) :
    List (Option δ) → Option (Route κ δ) × List (Option δ)
  | [] => (none, [])
  | hop :: hops =>
    match t.directByNid.lookup hop with
    | some hdl => (some ⟨hop, hdl⟩, hop :: hops)
    | none => t.pickHop hops

def lookup (t : RoutingTable κ δ) (target : Option δ) :
    Option (Route κ δ) × RoutingTable κ δ :=
  match t.directByNid.lookup target with
  | some hdl => (some ⟨target, hdl⟩, t)
  | none =>
    match t.indirect.lookup target with
    | none => (none, t)
    | some hops =>
      let (route, hops) := t.pickHop hops
      (route, { t with indirect := t.indirect.insert target hops })

theorem lookup_sameDirect (t : RoutingTable κ δ) (target : Option δ) :
    t.SameDirect (t.lookup target).2 := by
  unfold lookup
  split
  · exact .refl t
  · split
    · exact .refl t
    · exact ⟨rfl, rfl⟩

def hops (t : RoutingTable κ δ) (dest : Option δ) : List (Option δ) :=
  (t.indirect.lookup dest).getD []

theorem hops_insert (t : RoutingTable κ δ) (dest m : Option δ)
    (new : List (Option δ)) :
    hops { t with indirect := t.indirect.insert dest new } m =
      if m = dest then new else t.hops m := by
  by_cases hm : m = dest
  · subst hm
    simp [hops]
  · simp [hops, hm]

theorem pickHop_spec (t : RoutingTable κ δ) (list : List (Option δ)) :
    ((t.pickHop list).1.isSome ↔
        ∃ hop ∈ list, (t.directByNid.lookup hop).isSome) ∧
      (∀ route, (t.pickHop list).1 = some route → route.nextHop ∈ list ∧
        t.directByNid.lookup route.nextHop = some route.hdl) ∧
      (t.pickHop list).2 ⊆ list ∧
      ∀ hop ∈ list, (t.directByNid.lookup hop).isSome →
        hop ∈ (t.pickHop list).2 := by
  induction list with
  | nil => simp [pickHop]
  | cons first list ih =>
    cases hfirst : t.directByNid.lookup first with
    | some hdl =>
      simp only [pickHop, hfirst, mem_cons, exists_eq_or_imp,
        Option.isSome_some, true_or, List.Subset.refl, true_and]
      refine ⟨fun route hroute => ?_, fun hop hhop _ => hhop⟩
      cases hroute
      exact ⟨.inl rfl, hfirst⟩
    | none =>
      obtain ⟨hiff, hroute, hsub, hkept⟩ := ih
      simp only [pickHop, hfirst, mem_cons, exists_eq_or_imp,
        Option.isSome_none, Bool.false_eq_true, false_or, forall_eq_or_imp,
        false_implies, true_and]
      exact ⟨hiff, fun route h => ⟨.inr (hroute route h).1, (hroute route h).2⟩,
        fun hop h => .tail _ (hsub h), hkept⟩

theorem lookup_indirect {n : Option δ}
    (hdirect : t.directByNid.lookup n = none) :
    (t.lookup n).1 = (t.pickHop (t.hops n)).1 ∧
      ∀ m, (t.lookup n).2.hops m =
        if m = n then (t.pickHop (t.hops n)).2 else t.hops m := by
  cases hfound : t.indirect.lookup n with
  | none =>
    have hnil : t.hops n = [] := by simp [hops, hfound]
    simp only [lookup, hdirect, hfound, hnil, pickHop, true_and]
    intro m
    split_ifs with hm
    · rw [hm, hnil]
    · rfl
  | some list =>
    have hlist : t.hops n = list := by simp [hops, hfound]
    simp only [lookup, hdirect, hfound, hlist, true_and]
    exact fun m => hops_insert t n m _

def lookupDirect (t : RoutingTable κ δ) (nid : Option δ) : Option κ :=
  t.directByNid.lookup nid

def eraseIndirect (t : RoutingTable κ δ) (dest : Option δ) :
    Bool × RoutingTable κ δ :=
  match t.indirect.lookup dest with
  | none => (false, t)
  | some _ => (true, { t with indirect := t.indirect.erase dest })

theorem eraseIndirect_sameDirect (t : RoutingTable κ δ) (dest : Option δ) :
    t.SameDirect (t.eraseIndirect dest).2 := by
  unfold eraseIndirect
  split
  · exact .refl t
  · exact ⟨rfl, rfl⟩

def addIndirect (t : RoutingTable κ δ) (hop dest : Option δ) :
    Bool × RoutingTable κ δ :=
  if (t.directByNid.lookup dest).isSome then (false, t)
  else if (t.directByNid.lookup hop).isNone then (false, t)
  else
    let hops := (t.indirect.lookup dest).getD []
    (hops.isEmpty, { t with
      indirect := t.indirect.insert dest
        (if hop ∈ hops then hops else hops ++ [hop]) })

theorem addIndirect_sameDirect (t : RoutingTable κ δ)
    (hop dest : Option δ) : t.SameDirect (t.addIndirect hop dest).2 := by
  unfold addIndirect
  split
  · exact .refl t
  · split
    · exact .refl t
    · exact ⟨rfl, rfl⟩

variable [DecidableEq κ]

def lookupNode (t : RoutingTable κ δ) (hdl : κ) : Option δ :=
  (t.directByHdl.lookup hdl).join

def eraseDirect (t : RoutingTable κ δ) (hdl : κ) :
    Option δ × RoutingTable κ δ :=
  match t.directByHdl.lookup hdl with
  | none => (none, t)
  | some nid =>
    (nid, { t with
      directByNid := t.directByNid.erase nid
      directByHdl := t.directByHdl.erase hdl })

def addDirect (t : RoutingTable κ δ) (hdl : κ) (nid : Option δ) :
    RoutingTable κ δ :=
  -- Either insertion can fail on its own; only an assertion checks them.
  { t with
    directByHdl := emplace t.directByHdl hdl nid
    directByNid := emplace t.directByNid nid hdl }

def Inverse (t : RoutingTable κ δ) : Prop :=
  ∀ hdl nid, t.directByHdl.lookup hdl = some nid ↔
    t.directByNid.lookup nid = some hdl

theorem SameDirect.inverse {t' : RoutingTable κ δ} (h : t.SameDirect t')
    (ht : t.Inverse) : t'.Inverse := by
  intro hdl nid
  rw [h.1, h.2]
  exact ht hdl nid

theorem inverse_empty : (empty : RoutingTable κ δ).Inverse := by
  intro hdl nid
  simp [empty]

theorem Inverse.addDirect (ht : t.Inverse) {hdl : κ} {nid : Option δ}
    (hhdl : t.directByHdl.lookup hdl = none)
    (hnid : t.directByNid.lookup nid = none) :
    (t.addDirect hdl nid).Inverse := by
  intro hdl' nid'
  simp only [RoutingTable.addDirect, lookup_emplace hhdl, lookup_emplace hnid]
  have hold := ht hdl' nid'
  by_cases hh : hdl' = hdl
  · subst hh
    by_cases hn : nid' = nid
    · simp [hn]
    · rw [hhdl] at hold
      simp only [if_true, Option.some.injEq, hn, if_false]
      constructor
      · exact fun heq => absurd heq.symm hn
      · exact fun heq => nomatch hold.mpr heq
  · by_cases hn : nid' = nid
    · subst hn
      rw [hnid] at hold
      simp only [hh, if_false, if_true, Option.some.injEq]
      constructor
      · exact fun heq => nomatch hold.mp heq
      · exact fun heq => absurd heq.symm hh
    · simpa [hh, hn] using hold

theorem Inverse.eraseDirect (ht : t.Inverse) (hdl : κ) :
    (t.eraseDirect hdl).2.Inverse := by
  unfold RoutingTable.eraseDirect
  split
  · exact ht
  · rename_i nid hnid
    have hhdl := (ht hdl nid).mp hnid
    intro hdl' nid'
    have hold := ht hdl' nid'
    by_cases hh : hdl' = hdl
    · subst hh
      rw [lookup_erase]
      by_cases hn : nid' = nid
      · rw [hn, lookup_erase]
        simp
      · rw [lookup_erase_ne hn]
        rw [hnid] at hold
        simp only [reduceCtorEq, false_iff]
        exact fun heq => hn (Option.some.inj (hold.mpr heq)).symm
    · rw [lookup_erase_ne hh]
      by_cases hn : nid' = nid
      · subst hn
        rw [lookup_erase]
        rw [hhdl] at hold
        simp only [reduceCtorEq, iff_false]
        exact fun heq => hh (Option.some.inj (hold.mp heq)).symm
      · rwa [lookup_erase_ne hn]

theorem Inverse.erased (ht : t.Inverse) (hdl : κ) (nid : Option δ) :
    (t.eraseDirect hdl).2.directByNid.lookup nid ≠ some hdl := by
  intro hnid
  have hhdl := (ht.eraseDirect hdl hdl nid).mpr hnid
  unfold RoutingTable.eraseDirect at hhdl
  split at hhdl
  · rename_i hnone
    rw [hnone] at hhdl
    contradiction
  · rw [lookup_erase] at hhdl
    contradiction

inductive Operation (κ δ : Type*) where
  | addDirect (hdl : κ) (nid : Option δ)
  | addIndirect (hop dest : Option δ)
  | eraseDirect (hdl : κ)
  | lookup (target : Option δ)

def step (t : RoutingTable κ δ) : Operation κ δ → Option (RoutingTable κ δ)
  | .addDirect hdl nid => some (t.addDirect hdl nid)
  | .addIndirect hop dest => some (t.addIndirect hop dest).2
  | .eraseDirect hdl => some (t.eraseDirect hdl).2
  | .lookup target => some (t.lookup target).2

variable {m hop : Option δ} {u : RoutingTable κ δ}

theorem step_hops {op : Operation κ δ} (hstep : t.step op = some u) :
    (hop ∈ t.hops m → (t.directByNid.lookup hop).isSome → hop ∈ u.hops m) ∧
      (hop ∈ u.hops m → hop ∈ t.hops m ∨ op = .addIndirect hop m) := by
  cases op with
  | addDirect hdl nid =>
    cases hstep
    exact ⟨fun h _ => h, .inl⟩
  | eraseDirect hdl =>
    cases hstep
    unfold RoutingTable.eraseDirect
    split <;> exact ⟨fun h _ => h, .inl⟩
  | addIndirect new dest =>
    cases hstep
    unfold addIndirect
    split
    · exact ⟨fun h _ => h, .inl⟩
    split
    · exact ⟨fun h _ => h, .inl⟩
    have hrecorded : (t.indirect.lookup dest).getD [] = t.hops dest := rfl
    simp only [hops_insert, hrecorded]
    split
    · rename_i hm
      rw [hm]
      split
      · exact ⟨fun h _ => h, .inl⟩
      · simp only [mem_append, mem_singleton]
        exact ⟨fun h _ => .inl h, .imp_right fun h => by rw [h]⟩
    · exact ⟨fun h _ => h, .inl⟩
  | lookup target =>
    cases hstep
    cases hdirect : t.directByNid.lookup target with
    | some hdl =>
      simp only [lookup, hdirect]
      exact ⟨fun h _ => h, .inl⟩
    | none =>
      obtain ⟨-, -, hsub, hkept⟩ := t.pickHop_spec (t.hops target)
      rw [(lookup_indirect hdirect).2]
      split
      · rename_i hm
        rw [hm]
        exact ⟨hkept hop, fun h => .inl (hsub h)⟩
      · exact ⟨fun h _ => h, .inl⟩

omit [DecidableEq κ] in
theorem hop_mem_addIndirect {hop dest : Option δ}
    (hdest : t.directByNid.lookup dest = none)
    (hhop : (t.directByNid.lookup hop).isSome) :
    hop ∈ (t.addIndirect hop dest).2.hops dest := by
  rw [addIndirect, if_neg (by simp [hdest]),
    if_neg (by simpa [Option.isSome_iff_ne_none] using hhop)]
  simp only [hops_insert, if_true]
  split_ifs with hmem
  · exact hmem
  · exact mem_append_right _ mem_cons_self

/-- There is a route to a node exactly if the node or a hop that is recorded
for it has a connection, and it leads over a connection that is live.  A live
hop of a node without a connection is recorded, and stays so. -/
theorem lookup_finds_routes {ops : List (Operation κ δ)}
    (hrun : exec step empty ops = some t) (ht : t.Inverse) (n : Option δ) :
    ((t.lookup n).1.isSome ↔ (t.directByNid.lookup n).isSome ∨
        ∃ hop ∈ t.hops n, (t.directByNid.lookup hop).isSome) ∧
      (∀ route, (t.lookup n).1 = some route →
        t.directByNid.lookup route.nextHop = some route.hdl ∧
        t.directByHdl.lookup route.hdl = some route.nextHop ∧
        ((t.directByNid.lookup n).isSome → route.nextHop = n) ∧
        (route.nextHop = n ∨ route.nextHop ∈ t.hops n)) ∧
      (∀ hop ∈ t.hops n, .addIndirect hop n ∈ ops) ∧
      (∀ hop, t.directByNid.lookup n = none →
        (t.directByNid.lookup hop).isSome →
        hop ∈ (t.addIndirect hop n).2.hops n) ∧
      ∀ op u, t.step op = some u → ∀ hop ∈ t.hops n,
        (t.directByNid.lookup hop).isSome → hop ∈ u.hops n := by
  have hrecorded : ∀ m, ∀ hop ∈ t.hops m, .addIndirect hop m ∈ [] ++ ops := by
    refine exec_history (fun ops (t : RoutingTable κ δ) =>
      ∀ m, ∀ hop ∈ t.hops m, .addIndirect hop m ∈ ops) ?_ ?_ hrun
    · intro ops s op u hs hstep m hop hhop
      rw [List.mem_append, List.mem_singleton]
      exact ((step_hops hstep).2 hhop).imp (hs m hop) Eq.symm
    · simp [hops, empty]
  refine ⟨?_, ?_, hrecorded n, fun hop => hop_mem_addIndirect,
    fun op u hstep hop => (step_hops hstep).1⟩
  · cases hdirect : t.directByNid.lookup n with
    | some hdl => simp [lookup, hdirect]
    | none =>
      rw [(lookup_indirect hdirect).1, (t.pickHop_spec (t.hops n)).1]
      simp
  · intro route hroute
    cases hdirect : t.directByNid.lookup n with
    | some hdl =>
      simp only [lookup, hdirect, Option.some.injEq] at hroute
      subst hroute
      exact ⟨hdirect, (ht hdl n).mpr hdirect, fun _ => rfl, .inl rfl⟩
    | none =>
      rw [(lookup_indirect hdirect).1] at hroute
      obtain ⟨hmem, hlive⟩ := (t.pickHop_spec (t.hops n)).2.1 route hroute
      exact ⟨hlive, (ht _ _).mpr hlive, nofun, .inr hmem⟩

/-- Node 9 is reached over node 7. -/
theorem lookup_finds_hop : ∃ t : RoutingTable Nat Nat,
    exec step empty [.addDirect 1 (some 7), .addIndirect (some 7) (some 9)] =
      some t ∧ (t.lookup (some 9)).1.isSome := by
  refine ⟨?t, ?hrun, (lookup_finds_routes ?hrun ?_ _).1.mpr (.inr ?_)⟩
  case hrun => rfl
  · exact (addIndirect_sameDirect _ _ _).inverse
      (inverse_empty.addDirect rfl rfl)
  · exact ⟨some 7, by decide, by decide⟩

end RoutingTable

end ActorFramework.Io.Basp

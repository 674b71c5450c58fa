import ActorFramework.Core.ActorScheduling
import Mathlib.Data.List.Perm.Basic

/-!
# Requests

Every message is in one place at a time: with a sender that is enqueuing it, in
the mailbox, in the stash, in the hand of a running `resume`, or in a record of
what became of it.  A request that has a sender only ever leaves to the behavior
or to the bouncer, and once the mailbox is closed none is left in the actor.
The bouncer ignores a request without a sender.
-/

namespace ActorFramework.Core

open Foundation List DefaultMailbox Prod

variable {α : Type*}

def ResumePc.inHand : ResumePc α → List (Letter α)
  | .reactivate _ letter => [letter]
  | _ => []

def Progress.inHand {ρ : Type*} : Progress (ResumePc α) ρ → List (Letter α)
  | .running pc => pc.inHand
  | .returned _ => []

namespace Actor

def letters (a : Actor α) : List (Letter α) :=
  a.handed ++ a.bounced ++ a.discarded ++ a.mailbox.unread ++ a.stash

/--
From `a` to `b` the actor got `before` and gave away `after`.  It bounced
requests with a sender only and discarded none.
-/
structure Books (a b : Actor α) (before after : List (Letter α)) : Prop where
  letters : (b.letters ++ after).Perm (a.letters ++ before)
  handed : a.handed <+: b.handed
  bounced : ∃ l, b.bounced = a.bounced ++ l ∧ ∀ x ∈ l, x.answerable = true
  discarded : ∃ l, b.discarded = a.discarded ++ l ∧
    ∀ x ∈ l, x.answerable = false

variable {l x y : List (Letter α)} {a b : Actor α}

private theorem perm_of_countP {l' : List (Letter α)}
    (h : ∀ p, l.countP p = l'.countP p) : l.Perm l' := by
  classical
  exact perm_iff_count.mpr fun x => h (· == x)

theorem Books.refl (a : Actor α) (l : List (Letter α)) : a.Books a l l :=
  ⟨List.Perm.refl _, prefix_refl _, ⟨[], by simp⟩, ⟨[], by simp⟩⟩

private theorem grows_trans {p : Letter α → Prop} {m n : List (Letter α)}
    (h : ∃ x, m = l ++ x ∧ ∀ y ∈ x, p y) (h' : ∃ x, n = m ++ x ∧ ∀ y ∈ x, p y) :
    ∃ x, n = l ++ x ∧ ∀ y ∈ x, p y := by
  obtain ⟨x, rfl, hx⟩ := h
  obtain ⟨x', rfl, hx'⟩ := h'
  refine ⟨x ++ x', append_assoc _ _ _, ?_⟩
  intro y hy
  rcases mem_append.mp hy with hmem | hmem
  · exact hx y hmem
  · exact hx' y hmem

theorem Books.trans {c : Actor α} {z : List (Letter α)} (hab : a.Books b x y)
    (hbc : b.Books c y z) : a.Books c x z :=
  ⟨hbc.letters.trans hab.letters, hab.handed.trans hbc.handed,
    grows_trans hab.bounced hbc.bounced,
    grows_trans hab.discarded hbc.discarded⟩

theorem Books.frame {before after : List (Letter α)}
    (h : a.Books b before after) (l : List (Letter α)) :
    a.Books b (before ++ l) (after ++ l) := by
  refine { h with letters := ?_ }
  rw [← append_assoc, ← append_assoc]
  exact h.letters.append_right l

theorem Books.of_perm {x' y' : List (Letter α)} (h : a.Books b x y)
    (hx : x.Perm x') (hy : y.Perm y') : a.Books b x' y' := by
  refine { h with letters := ?_ }
  exact (hy.symm.append_left _).trans (h.letters.trans (hx.append_left _))

theorem Books.of_locals {l : Locals} (h : Books { a with locals := l } b x y) :
    a.Books b x y :=
  { h with }

theorem Books.set_locals (h : a.Books b x y) (l : Locals) :
    a.Books { b with locals := l } x y :=
  { h with }

theorem books_bounce (a : Actor α) (l : List (Letter α)) :
    a.Books (a.bounce l) l [] := by
  refine ⟨?_, prefix_refl _, ⟨_, rfl, ?_⟩, ⟨_, rfl, ?_⟩⟩
  · apply perm_of_countP
    intro p
    have hsplit := (filter_append_perm Node.answerable l).countP_eq p
    simp only [countP_append] at hsplit
    simp only [Actor.letters, bounce, countP_append, countP_nil]
    omega
  · intro x hx
    exact (mem_filter.mp hx).2
  · intro x hx
    simpa using (mem_filter.mp hx).2

theorem books_release {a b : Actor α} {l : List (Letter α)}
    (hrecords : b.handed = a.handed ∧ b.bounced = a.bounced ∧
      b.discarded = a.discarded)
    (hletters : (a.mailbox.unread ++ a.stash).Perm
      (l ++ (b.mailbox.unread ++ b.stash))) : a.Books b [] l := by
  obtain ⟨hhanded, hbounced, hdiscarded⟩ := hrecords
  refine ⟨?_, hhanded ▸ prefix_refl _, ⟨[], by simp [hbounced]⟩,
    ⟨[], by simp [hdiscarded]⟩⟩
  apply perm_of_countP
  intro p
  have hcount := hletters.countP_eq p
  simp only [countP_append] at hcount
  simp only [Actor.letters, countP_append, countP_nil, hhanded,
    hbounced, hdiscarded]
  omega

section

variable (a : Actor α)

theorem books_dropStash : a.Books a.dropStash [] [] := by
  have hrelease : a.Books { a with stash := [] } [] a.stash := by
    refine books_release ⟨rfl, rfl, rfl⟩ ?_
    simpa using perm_append_comm
  exact hrelease.trans (books_bounce { a with stash := [] } a.stash)

theorem books_dropCached : a.Books a.dropCached [] [] := by
  have hrelease : a.Books { a with mailbox := a.mailbox.drainCached } []
      (a.mailbox.urgentQueue ++ a.mailbox.normalQueue) := by
    refine books_release ⟨rfl, rfl, rfl⟩ ?_
    simp [unread, drainCached]
  exact hrelease.trans (books_bounce { a with
    mailbox := a.mailbox.drainCached } _)

theorem books_closed :
    a.Books { a.bounce a.mailbox.inbox.elements with
      mailbox := { a.mailbox with inbox := .closed } } [] [] := by
  have hrelease : a.Books
      { a with mailbox := { a.mailbox with inbox := .closed } } []
      a.mailbox.inbox.elements := by
    refine books_release ⟨rfl, rfl, rfl⟩ ?_
    simp only [unread, Stack.elements_closed, append_nil]
    rw [← append_assoc]
    exact perm_append_comm.append_right _
  exact hrelease.trans (books_bounce { a with
    mailbox := { a.mailbox with inbox := .closed } } _)

theorem books_closeMailbox : a.Books a.closeMailbox.1 [] [] := by
  unfold closeMailbox
  split
  · exact a.books_dropStash
  · exact a.books_dropStash.trans a.dropStash.books_dropCached

theorem books_terminate : a.Books a.terminate.1 [] a.terminate.2.inHand := by
  unfold terminate
  split
  · exact .refl a []
  · have hclose := books_closeMailbox { a with locals := a.locals.cleanup }
    split
    · rename_i b pc hcloses
      rw [hcloses] at hclose
      exact hclose.of_locals
    · rename_i b hcloses
      rw [hcloses] at hclose
      exact hclose.of_locals

end

section

variable (a : Actor α)

theorem books_unstash : a.Books a.unstash [] [] := by
  have hfold : ∀ (stash : List (Letter α)) (mailbox : DefaultMailbox α),
      (stash.foldl pushFront mailbox).unread.Perm
        (mailbox.unread ++ stash) := by
    intro stash
    induction stash with
    | nil =>
      intro mailbox
      simp
    | cons letter stash ih =>
      intro mailbox
      calc ((letter :: stash).foldl pushFront mailbox).unread
          _ |>.Perm ((mailbox.pushFront letter).unread ++ stash) := ih _
          _ |>.Perm ((letter :: mailbox.unread) ++ stash) :=
            (mailbox.unread_pushFront letter).append_right stash
          _ |>.Perm (mailbox.unread ++ letter :: stash) :=
            perm_middle.symm
  refine books_release ⟨rfl, rfl, rfl⟩ ?_
  simpa [unstash] using (hfold a.stash a.mailbox).symm

theorem books_fail (l : Locals) (h : Handling) :
    a.Books (a.fail l h).1 [] (a.fail l h).2.inHand := by
  unfold fail
  split
  · rename_i l' hfinal
    exact (books_terminate { a with locals := l' }).of_locals
  · exact Books.of_locals (.refl _ [])

theorem books_activate (h : Handling) :
    a.Books (a.activate h).1 [] (a.activate h).2.inHand := by
  unfold activate
  split
  · split <;> exact .refl a []
  · split
    · exact a.books_fail _ h
    · split
      · rename_i l hfinal
        exact (books_terminate { a with locals := l }).of_locals
      · exact Books.of_locals (.refl _ [])

theorem books_hand (letter : Letter α) :
    a.Books { a with handed := a.handed ++ [letter] } [letter] [] := by
  refine ⟨?_, prefix_append _ _, ⟨[], by simp⟩, ⟨[], by simp⟩⟩
  apply perm_of_countP
  intro p
  simp only [Actor.letters, countP_append, countP_nil]
  omega

theorem books_discard {letter : Letter α}
    (hletter : letter.answerable = false) :
    a.Books { a with discarded := a.discarded ++ [letter] } [letter] [] := by
  refine ⟨?_, prefix_refl _, ⟨[], by simp⟩, ⟨[letter], rfl, by
    simpa using hletter⟩⟩
  apply perm_of_countP
  intro p
  simp only [Actor.letters, countP_append, countP_nil]
  omega

theorem books_accept (letter : Letter α) :
    a.Books { a with mailbox := a.mailbox.accept letter } [letter] [] := by
  refine ⟨?_, prefix_refl _, ⟨[], by simp⟩, ⟨[], by simp⟩⟩
  apply perm_of_countP
  intro p
  have hunread := (a.mailbox.unread_accept letter).countP_eq p
  simp only [countP_cons] at hunread
  simp only [Actor.letters, countP_append, countP_cons, countP_nil]
  omega

theorem books_stash (letter : Letter α) :
    a.Books { a with stash := letter :: a.stash } [letter] [] := by
  refine ⟨?_, prefix_refl _, ⟨[], by simp⟩, ⟨[], by simp⟩⟩
  apply perm_of_countP
  intro p
  simp only [Actor.letters, countP_append, countP_cons, countP_nil]
  omega

theorem books_reactivate (consumed : Nat) (letter : Letter α) (h : Handling) :
    a.Books (a.reactivate consumed letter h).1 [letter]
      (a.reactivate consumed letter h).2.inHand := by
  unfold reactivate
  split
  · rename_i l hcon
    have hresp := (consume_dropped hcon).2
    have hletter : letter.answerable = false := by
      simp [Node.answerable, MessageId.isRequest, hresp]
    exact (books_discard { a with locals := l } hletter).of_locals
  · rename_i l hcon
    exact (books_stash { a with locals := l } letter).of_locals
  · split
    · rename_i l' hfinal
      exact (a.books_hand letter).trans (books_terminate _).of_locals
    · exact (a.books_hand letter).trans (books_unstash _).of_locals
  · exact (a.books_hand letter).trans (books_fail _ _ h)

end

theorem books_tryBlock (a : Actor α) :
    a.Books { a with mailbox := a.mailbox.tryBlock.1 } [] [] := by
  refine books_release ⟨rfl, rfl, rfl⟩ ?_
  rcases a.mailbox.tryBlock_cases with ⟨hinit, hblock⟩ | ⟨-, hblock⟩
  · rw [hblock]
    simp [hinit, unread, initial, Stack.empty]
  · rw [hblock]
    simp

variable {result : Progress (ResumePc α) Bool}

theorem books_resume {a' : Actor α} {frame : Frame α} {h : Handling}
    (hresume : a.resume frame h = some (a', result)) :
    a.Books a' frame.pc.inHand result.inHand := by
  unfold resume at hresume
  split at hresume
  · rename_i hpc
    rw [hpc]
    have hbooks := a.books_activate h
    rwa [Option.some.inj hresume] at hbooks
  · rename_i consumed hpc
    rw [hpc]
    split at hresume
    · split at hresume
      · rename_i letter mailbox hpop
        cases hresume
        refine books_release ⟨rfl, rfl, rfl⟩ ?_
        rw [unread_popCached hpop]
        exact List.Perm.refl _
      · cases hresume
        exact .refl a []
    · cases hresume
      exact .refl a []
  · rename_i consumed pc hpc
    rw [hpc]
    split at hresume
    · contradiction
    all_goals
      rename_i hfetch
      cases hresume
      have hunread := unread_perm_of_pending (pending_fetchMore hfetch)
      exact books_release ⟨rfl, rfl, rfl⟩ (hunread.symm.append_right a.stash)
  · rename_i consumed hpc
    rw [hpc]
    have hbooks := a.books_tryBlock
    split at hresume
    all_goals
      rename_i hblock
      cases hresume
      rwa [hblock] at hbooks
  · rename_i consumed letter hpc
    rw [hpc]
    have hbooks := a.books_reactivate consumed letter h
    rwa [Option.some.inj hresume] at hbooks
  · rename_i hpc
    rw [hpc]
    have hbooks := a.books_tryBlock
    split at hresume
    all_goals
      rename_i hblock
      cases hresume
      rwa [hblock] at hbooks
  · rename_i pc hpc
    rw [hpc]
    split at hresume
    · contradiction
    all_goals
      rename_i hclose
      cases hresume
      rcases closeInbox_cases hclose with ⟨_, rfl, _⟩ | ⟨rfl, _⟩
      · exact .refl _ []
      · exact a.books_closed

end Actor

namespace ActorRun

def outside (s : ActorRun α) : List (Letter α) :=
  s.calls.map Prod.fst ++ s.frames.flatMap fun frame => frame.pc.inHand

def waiting (s : ActorRun α) : List (Letter α) :=
  s.actor.mailbox.unread ++ s.actor.stash ++ s.outside

def Accounts (s t : ActorRun α) : Prop :=
  ∃ new, t.enqueued = s.enqueued ++ new ∧
    s.actor.Books t.actor (s.outside ++ new) t.outside

theorem Accounts.refl (s : ActorRun α) : s.Accounts s :=
  ⟨[], by simp, by simpa using Actor.Books.refl s.actor s.outside⟩

variable {s t : ActorRun α} {i : Nat}

theorem Accounts.trans {u : ActorRun α} (hst : s.Accounts t)
    (htu : t.Accounts u) : s.Accounts u := by
  obtain ⟨new, henqueued, hbooks⟩ := hst
  obtain ⟨new', henqueued', hbooks'⟩ := htu
  refine ⟨new ++ new', by rw [henqueued', henqueued, append_assoc], ?_⟩
  have hframed := hbooks.frame new'
  rw [append_assoc] at hframed
  exact hframed.trans hbooks'

variable {calls : List (Letter α × PushFront)} {letter : Letter α}
  {pc : PushFront} {frames : List (Frame α)} {frame : Frame α} {h : Handling}

private theorem map_fst_set (pc' : PushFront)
    (hcall : calls[i]? = some (letter, pc)) :
    (calls.set i (letter, pc')).map fst = calls.map fst := by
  apply ext_getElem?
  intro j
  by_cases hij : i = j
  · subst hij
    obtain ⟨hi, heq⟩ := List.getElem?_eq_some_iff.mp hcall
    simp [hi, heq]
  · simp [hij]

private theorem map_fst_eraseIdx {i : Nat}
    (hcall : calls[i]? = some (letter, pc)) :
    (calls.map fst).Perm (letter :: (calls.eraseIdx i).map fst) := by
  obtain ⟨hi, heq⟩ := List.getElem?_eq_some_iff.mp hcall
  have hperm := (getElem_cons_eraseIdx_perm hi).map fst
  rw [heq] at hperm
  exact hperm.symm

private theorem flatMap_frames (hframe : frames[i]? = some frame) :
    (frames.flatMap fun f => f.pc.inHand).Perm (frame.pc.inHand ++
      (frames.eraseIdx i).flatMap fun f => f.pc.inHand) := by
  obtain ⟨hi, heq⟩ := List.getElem?_eq_some_iff.mp hframe
  have hperm := (getElem_cons_eraseIdx_perm hi).flatMap_right
    fun f : Frame α => f.pc.inHand
  rw [heq] at hperm
  exact hperm.symm

theorem accounts_push (hmove : s.Moves (.push i) t) : s.Accounts t := by
  have hgive : ∀ {letter pc}, s.calls[i]? = some (letter, pc) →
      ∀ {actor}, s.actor.Books actor [letter] [] →
      s.actor.Books actor (s.outside ++ [])
        ((s.calls.eraseIdx i).map fst ++
          s.frames.flatMap fun f => f.pc.inHand) := by
    intro letter pc hcall actor hbooks
    refine (hbooks.frame _).of_perm ?_ (List.Perm.refl _)
    rw [append_nil]
    change ([letter] ++ (_ ++ _)).Perm _
    rw [← append_assoc]
    exact (map_fst_eraseIdx hcall).symm.append_right _
  cases hmove with
  | retry pc' hcall =>
    refine ⟨[], by simp, ?_⟩
    have hsame := map_fst_set pc' hcall
    simpa [outside, hsame] using Actor.Books.refl s.actor s.outside
  | reject hcall hclosed =>
    exact ⟨[], by simp, hgive hcall (s.actor.books_bounce _)⟩
  | accept hcall hopen | wake hcall hblk =>
    exact ⟨[], by simp, hgive hcall (s.actor.books_accept _)⟩

theorem accounts_resume (hmove : s.Moves (.resume i h) t) : s.Accounts t := by
  have hhand : ∀ {frame}, s.frames[i]? = some frame →
      ∀ {actor after}, s.actor.Books actor frame.pc.inHand after →
      s.actor.Books actor (s.outside ++ []) (s.calls.map fst ++
        (after ++ (s.frames.eraseIdx i).flatMap fun f => f.pc.inHand)) := by
    intro frame hframe actor after hbooks
    have hrest := flatMap_frames hframe
    refine (hbooks.frame _).of_perm ?_
      (perm_append_comm_assoc _ (s.calls.map fst) _)
    rw [append_nil]
    exact (perm_append_comm_assoc _ _ _).trans
      (hrest.symm.append_left (s.calls.map fst))
  cases hmove with
  | @work _ _ frame actor pc hframe hresume =>
    -- The call stays where it is, with another message in its hand.
    have hi := (List.getElem?_eq_some_iff.mp hframe).1
    refine ⟨[], by simp, ?_⟩
    have hbooks := hhand hframe (Actor.books_resume hresume)
    exact hbooks.of_perm (List.Perm.refl _)
      (((set_perm_cons_eraseIdx hi { frame with pc }).flatMap_right
        fun f => f.pc.inHand).symm.append_left _)
  | yield hframe hresume =>
    exact ⟨[], by simp, hhand hframe (Actor.books_resume hresume)⟩

theorem step_accounts (s : ActorRun α) (action : ActorAction α)
    (t : ActorRun α) (hstep : s.step action = some t) : s.Accounts t := by
  have hmove := step_moves hstep
  have hsame : ∀ {actor}, s.actor.Books actor [] [] →
      s.actor.Books actor (s.outside ++ []) s.outside := by
    intro actor hbooks
    simpa using hbooks.frame s.outside
  cases action with
  | enqueue letter =>
    cases hmove
    refine ⟨[letter], rfl, ?_⟩
    refine (Actor.Books.refl s.actor _).of_perm (List.Perm.refl _) ?_
    simp only [outside, map_append, map_cons, map_nil, append_assoc]
    exact perm_append_comm.append_left _
  | push i => exact accounts_push hmove
  | schedule =>
    cases hmove
    exact ⟨[], by simp, hsame (.refl _ [])⟩
  | dequeue maxThroughput =>
    cases hmove
    refine ⟨[], by simp, ?_⟩
    simpa [outside, ResumePc.inHand] using Actor.Books.refl s.actor s.outside
  | resume i h => exact accounts_resume hmove
  | unreachable =>
    cases hmove with
    | unreachable =>
      refine ⟨[], by simp, hsame ?_⟩
      exact s.actor.books_dropStash.trans (Actor.books_dropCached _)
    | forget =>
      exact ⟨[], by simp, hsame (s.actor.books_dropStash.set_locals _)⟩
  | reap spurious =>
    cases hmove with
    | reap => exact ⟨[], by simp, hsame (.refl _ [])⟩
    | reaped =>
      exact ⟨[], by simp, hsame (s.actor.books_closed.set_locals _)⟩

theorem resume_closing {a a' : Actor α} (hclosing : frame.pc.isClosing = true)
    (hresume : a.resume frame h = some (a', result)) :
    a'.locals = a.locals ∧ a'.handed = a.handed := by
  unfold Actor.resume at hresume
  split at hresume
  case h_7 =>
    split at hresume
    · contradiction
    all_goals
      rename_i hclose
      cases hresume
      rcases Actor.closeInbox_cases hclose with ⟨_, rfl, _⟩ | ⟨rfl, _⟩
      · exact ⟨rfl, rfl⟩
      · exact ⟨rfl, rfl⟩
  all_goals
    rename_i hpc
    rw [hpc] at hclosing
    contradiction

theorem step_terminated {action : ActorAction α} (hs : s.Scheduled)
    (hterm : s.actor.locals.terminated = true)
    (hstep : s.step action = some t) :
    t.actor.locals.terminated = true ∧ t.actor.handed = s.actor.handed := by
  have hmove := step_moves hstep
  cases hmove with
  | work hframe hresume | yield hframe hresume =>
    have hmem := mem_of_getElem? hframe
    have hclosing := (hs.running _ hmem).1.symm.trans hterm
    obtain ⟨hlocals, hhanded⟩ := resume_closing hclosing hresume
    exact ⟨hlocals ▸ hterm, hhanded⟩
  | forget | reaped => exact ⟨rfl, rfl⟩
  | _ => exact ⟨hterm, rfl⟩

theorem exec_terminated {actions : List (ActorAction α)} (hs : s.Scheduled)
    (hterminated : s.actor.locals.terminated = true)
    (hrun : exec step s actions = some t) :
    t.actor.handed = s.actor.handed := by
  have hinv := exec_invariant (fun u => u.Scheduled ∧
    u.actor.locals.terminated = true ∧ u.actor.handed = s.actor.handed)
    (fun u action v hu hstep => by
      obtain ⟨hsched, hterm, hhanded⟩ := hu
      have hnext := step_terminated hsched hterm hstep
      exact ⟨step_scheduled hsched hstep, hnext.1, hnext.2.trans hhanded⟩)
    ⟨hs, hterminated, rfl⟩ hrun
  exact hinv.2.2

theorem Scheduled.waiting_closed (hs : s.Scheduled)
    (hclosed : s.actor.mailbox.inbox = .closed) :
    s.waiting = s.calls.map fst := by
  obtain ⟨hjobs, -, hurgent, hnormal, hstash⟩ := hs.ended hclosed
  obtain ⟨-, -, hframes⟩ := jobs_eq_zero hjobs
  simp [ActorRun.waiting, outside, unread, hurgent, hnormal,
    hclosed, hstash, hframes]

theorem Accounts.requests (h : s.Accounts t) :
    ∃ enqueued handed bounced,
      t.enqueued = s.enqueued ++ enqueued ∧
      t.actor.handed = s.actor.handed ++ handed ∧
      t.actor.bounced = s.actor.bounced ++ bounced ∧
      ((s.waiting ++ enqueued).filter Node.answerable).Perm
        (handed.filter Node.answerable ++ bounced ++
          t.waiting.filter Node.answerable) := by
  obtain ⟨enqueued, henqueued, hletters, ⟨handed, hhanded⟩,
    ⟨bounced, hbounced, hrequests⟩, ⟨discarded, hdiscarded, hother⟩⟩ := h
  refine ⟨enqueued, handed, bounced, henqueued, hhanded.symm, hbounced, ?_⟩
  have hbounced' := filter_eq_self.mpr hrequests
  have hdiscarded' : discarded.filter Node.answerable = [] :=
    filter_eq_nil_iff.mpr fun x hx => by simp [hother x hx]
  apply Actor.perm_of_countP
  intro p
  have hcount := (hletters.filter Node.answerable).countP_eq p
  simp only [Actor.letters, ← hhanded, hbounced, hdiscarded, filter_append,
    countP_append, hbounced', hdiscarded', countP_nil] at hcount
  simp only [ActorRun.waiting, filter_append, countP_append]
  omega

theorem launch_records (lazy : Bool) (letters : List (Letter α))
    (calls : List (Letter α × PushFront)) :
    (launch lazy letters calls).waiting =
        (launch lazy letters calls).enqueued ∧
      (launch lazy letters calls).actor.handed = [] ∧
      (launch lazy letters calls).actor.bounced = [] := by
  refine ⟨?_, rfl, rfl⟩
  cases lazy with
  | false =>
    simp [launch, ActorRun.waiting, outside, unread, initial]
  | true =>
    cases letters <;>
      simp [launch, ActorRun.waiting, outside, unread, initial, tryBlock,
        cached, LifoInbox.tryBlock]

/-- In every run each request that has a sender is with the behavior, bounced
or still on its way, and in one place only.  A terminated actor hands out
nothing more, and behind a closed mailbox only senders hold messages. -/
theorem actor_requests_settled_once (lazy : Bool) (letters : List (Letter α))
    (calls : List (Letter α × PushFront))
    (actions rest : List (ActorAction α)) {s t : ActorRun α}
    (hrun : exec step (launch lazy letters calls) actions = some s)
    (hrest : exec step s rest = some t) :
    (t.enqueued.filter Node.answerable).Perm
        (t.actor.handed.filter Node.answerable ++ t.actor.bounced ++
          t.waiting.filter Node.answerable) ∧
    (∃ enqueued handed bounced,
      t.enqueued = s.enqueued ++ enqueued ∧
      t.actor.handed = s.actor.handed ++ handed ∧
      t.actor.bounced = s.actor.bounced ++ bounced ∧
      ((s.waiting ++ enqueued).filter Node.answerable).Perm
        (handed.filter Node.answerable ++ bounced ++
          t.waiting.filter Node.answerable) ∧
      (s.actor.locals.terminated = true → handed = [])) ∧
    (t.actor.mailbox.inbox = .closed → t.waiting = t.calls.map Prod.fst) := by
  have hs := exec_scheduled hrun
  have ht : t.Scheduled :=
    exec_invariant Scheduled (fun _ _ _ => step_scheduled)
      hs hrest
  have haccounts : ∀ {u v : ActorRun α} {actions},
      exec step u actions = some v → u.Accounts v := fun hexec =>
    exec_relation Accounts.refl (fun _ _ _ => Accounts.trans)
      step_accounts hexec
  refine ⟨?_, ?_, fun hclosed => ht.waiting_closed hclosed⟩
  · have hall := (haccounts hrun).trans (haccounts hrest)
    obtain ⟨enqueued, handed, bounced, henqueued, hhanded, hbounced, hperm⟩ :=
      hall.requests
    obtain ⟨hwaiting, hhanded', hbounced'⟩ :=
      launch_records lazy letters calls
    rw [hhanded', List.nil_append] at hhanded
    rw [hbounced', List.nil_append] at hbounced
    rw [hwaiting, ← henqueued] at hperm
    rwa [hhanded, hbounced]
  · obtain ⟨enqueued, handed, bounced, henqueued, hhanded, hbounced, hperm⟩ :=
      (haccounts hrest).requests
    refine ⟨enqueued, handed, bounced, henqueued, hhanded, hbounced, hperm, ?_⟩
    intro hterm
    have hsame := exec_terminated hs hterm hrest
    rw [hhanded] at hsame
    exact List.append_right_eq_self.mp hsame

def requestLetter (id : Nat) : Letter Nat :=
  ⟨id, ⟨some 0, ⟨MessageId.defaultAsyncValue + BitVec.ofNat 64 id⟩, id⟩⟩

def firstRequestActions : List (ActorAction Nat) :=
  .dequeue 10 :: .resume 0 becomeCode :: fetchActions

def quitActions : List (ActorAction Nat) :=
  [.resume 0 { (default : Handling) with code := [.quit] },
    .resume 0 default, .resume 0 default]

theorem actor_requests_settled_once_quit :
    ∃ s t, exec step (launch false [requestLetter 2, requestLetter 1] [])
        firstRequestActions = some s ∧
      exec step s quitActions = some t ∧
      t.actor.mailbox.inbox = .closed ∧
      t.actor.handed = [requestLetter 1] ∧
      t.actor.bounced = [requestLetter 2] ∧
      t.waiting = t.calls.map Prod.fst :=
  ⟨_, _, rfl, rfl, rfl, rfl, rfl,
    (actor_requests_settled_once false [requestLetter 2, requestLetter 1] []
      firstRequestActions quitActions rfl rfl).2.2 rfl⟩

def anonymousRequest : Letter Nat :=
  ⟨2, ⟨none, ⟨MessageId.defaultAsyncValue + 2#64⟩, 2⟩⟩

theorem request_without_sender_lost :
    ∃ t, exec step (launch false [anonymousRequest, requestLetter 1] [])
        (firstRequestActions ++ quitActions) = some t ∧
      t.actor.mailbox.inbox = .closed ∧ anonymousRequest ∈ t.enqueued ∧
      anonymousRequest.value.mid.isRequest = true ∧
      t.actor.handed = [requestLetter 1] ∧ t.actor.bounced = [] ∧
      t.waiting = [] :=
  ⟨_, rfl, rfl, mem_cons_self, rfl, rfl, rfl, rfl⟩

end ActorRun

end ActorFramework.Core

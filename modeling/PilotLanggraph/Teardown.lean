import PilotLanggraph.Lifecycle

/-!
# Tearing a connection down

What becomes of the requests that are pending when a connection is torn down. Whoever is the
first to call `close`, a task or the read loop, fails them once the writer is closed; the
others return at once. Until then the connection works on : the read loop may handle one more
message, calls may send, time out or be cancelled. `force_close_sync` fails nobody, and makes
every later `close` a no-op.

* `closing_fails_pending` : if `close` comes first and reaches its end, and nobody sends after
  that, the deques are empty and every pending request has failed, but for those that were
  answered, timed out or were cancelled in between.
-/

namespace PilotLanggraph

open Ipc

/-- A `PilotConnectionError`. -/
def FutureState.IsConnectionError : FutureState → Prop
  | .daemonError _ => True
  | .connectionClosed => True
  | _ => False

theorem FutureState.IsConnectionError.ne_pending {f : FutureState} (h : f.IsConnectionError) :
    f ≠ .pending := by
  rintro rfl
  exact h

namespace Connection

/-- What a message makes of a future. -/
theorem futures_dispatch (c : Connection) (cmd : UInt8) (payload : Bytes) (r : ℕ) :
    (c.dispatch cmd payload).futures r = c.futures r ∨
      ((c.dispatch cmd payload).futures r).IsConnectionError ∨
        IsReply cmd ∧ (c.waitersOf cmd).head? = some r := by
  by_cases hreply : IsReply cmd
  · rw [(c.dispatch_of_isReply hreply payload).futures]
    cases hq : c.waitersOf cmd with
    | nil =>
      rw [c.deliverToWaiter_of_nil hq]
      exact Or.inl rfl
    | cons fut q =>
      by_cases hr : r = fut
      · exact Or.inr (Or.inr ⟨hreply, by rw [hr, List.head?_cons]⟩)
      · refine Or.inl ?_
        rw [c.futures_deliverToWaiter hq]
        split_ifs
        · rfl
        · exact Function.update_of_ne hr ..
  by_cases herror : cmd = cmdError
  · subst herror
    rw [dispatch_error]
    rcases c.failOldestWaiter_cases (parseError payload) with ⟨h, -⟩ | ⟨k, fut, q, -, hq, h⟩
    · exact Or.inl (by rw [h])
    · rw [h, futures_settle]
      split_ifs
      · exact Or.inr (Or.inl trivial)
      · exact Or.inl rfl
  have hpush : IsPush cmd := by
    unfold IsReply at hreply
    unfold IsPush
    tauto
  refine Or.inl (congrFun (c.dispatch_of_isPush hpush (fun hclose => ?_) payload).futures r)
  exact absurd (hclose ▸ (by decide : IsReply cmdCloseOk)) hreply

end Connection

namespace Lifecycle

/-- The request is not completed : it was sent, or waits for the lock. -/
def Pending (s : Lifecycle) (r : ℕ) : Prop :=
  s.conn.futures r = .pending ∧ (s.phase r = some .lockWait ∨ r ∈ s.sent)

/-- The teardown and the read loop have finished. -/
def Over (s : Lifecycle) : Prop :=
  s.closed = true ∧ s.teardown ≠ .waiting ∧ s.loop = .done

/-- `close` comes before `force_close_sync`, is not cancelled, and nobody sends after it. -/
def Orderly (s : Lifecycle) : Action → Prop
  | .forceClose => s.closed = true
  | .closeInterrupt => False
  | .acquire _ => s.teardown ≠ .finished
  | _ => True

/-- The request is not completed in another way, and was sent when `close` fails the waiters. -/
def Spared (r : ℕ) (s : Lifecycle) (a : Action) : Prop :=
  s.conn.futures r = .pending →
    match a with
    | .message cmd _ => Connection.IsReply cmd → (s.conn.waitersOf cmd).head? ≠ some r
    | .timeout q => q ≠ r
    | .cancel q => q = r → s.phase r = some .draining
    | .closeResume => s.phase r ≠ some .lockWait
    | _ => True

/-- No deque has a waiter left. -/
def Empty (s : Lifecycle) : Prop :=
  ∀ k, s.conn.waitersOf k = []

/-- `close` was first, and waits for the writer or has emptied the deques. -/
def Closing (s : Lifecycle) : Prop :=
  s.closed = true ∧ (s.teardown = .waiting ∨ s.teardown = .finished ∧ s.Empty)

/-- The request has failed with the connection, or is pending until `close` goes on. -/
def Doomed (r : ℕ) (s : Lifecycle) : Prop :=
  (s.conn.futures r).IsConnectionError ∨ s.Pending r ∧ s.teardown = .waiting

section

variable {expect : ℕ → UInt8} {s s' : Lifecycle} {a : Action}

theorem beginClose_of_closed (hclosed : s.closed = true) : s.beginClose = s := by
  rw [beginClose, if_pos hclosed]

theorem Ordered.empty_step (h : Ordered expect s) (hs : s.step expect a = some s')
    (ha : ∀ r, a ≠ .acquire r) (hempty : s.Empty) : s'.Empty :=
  fun k => List.sublist_nil.1 (hempty k ▸ (h.shrinks_step hs ha).deques k)

/-- A future is completed once. -/
theorem Ordered.futures_step (h : Ordered expect s) (hs : s.step expect a = some s') {r : ℕ}
    (hr : s.conn.futures r ≠ .pending) : s'.conn.futures r = s.conn.futures r := by
  by_cases ha : ∀ q, a ≠ .acquire q
  · exact (h.shrinks_step hs ha).settled hr
  · obtain ⟨q, rfl⟩ : ∃ q, a = .acquire q := by simpa using ha
    cases step_cases hs with
    | acquire _ _ => rfl

/-- An orderly action that sets `_closed` is the first part of `close`. -/
theorem closing_of_closes (hs : s.step expect a = some s') (hok : Orderly s a)
    (hopen : s.closed = false) (hclosed : s'.closed = true) :
    Closing s' ∧ s'.teardown = .waiting ∧ s'.conn = s.conn ∧ s'.sent = s.sent ∧
      s'.phase = s.phase := by
  have hbegin : s.beginClose = { s with closed := true, teardown := .waiting } := by
    rw [beginClose, if_neg (by simp [hopen])]
  have hno : s.closed ≠ true := by simp [hopen]
  cases step_cases hs with
  | loopEnds _ =>
    rw [hbegin]
    exact ⟨⟨rfl, Or.inl rfl⟩, rfl, rfl, rfl, rfl⟩
  | close =>
    rw [hbegin]
    exact ⟨⟨rfl, Or.inl rfl⟩, rfl, rfl, rfl, rfl⟩
  | forceClose _ => exact absurd hok hno
  | _ => exact absurd hclosed hno

theorem Closing.step (h : Closing s) (hord : Ordered expect s) (hok : Orderly s a)
    (hs : s.step expect a = some s') : Closing s' := by
  obtain ⟨hclosed, hdown⟩ := h
  have hdown' : s'.closed = true ∧ s'.teardown = s.teardown →
      (∀ r, a ≠ .acquire r) → Closing s' := by
    rintro ⟨hclosed', hsame⟩ ha
    rw [Closing, hsame]
    exact ⟨hclosed', hdown.imp_right fun hd => ⟨hd.1, hord.empty_step hs ha hd.2⟩⟩
  cases step_cases hs with
  | acquire _ _ => exact ⟨hclosed, Or.inl (hdown.resolve_right fun hd => hok hd.1)⟩
  | loopEnds _ => exact hdown' (by simp [beginClose_of_closed hclosed, hclosed]) (by simp)
  | close => exact hdown' (by simp [beginClose_of_closed hclosed, hclosed]) (by simp)
  | closeResume _ => exact ⟨hclosed, Or.inr ⟨rfl, s.conn.waitersOf_failWaiters⟩⟩
  | closeInterrupt _ => exact hok.elim
  | forceClose hopen => exact absurd hclosed (by simp [hopen])
  | _ => exact hdown' ⟨hclosed, rfl⟩ (by simp)

theorem Pending.stay {r : ℕ} (h : s.Pending r)
    (hfut : s'.conn.futures r = s.conn.futures r) (hsent : s.sent ⊆ s'.sent)
    (hphase : s.phase r = some .lockWait → s'.phase r = some .lockWait ∨ r ∈ s'.sent) :
    s'.Pending r :=
  ⟨hfut.trans h.1, h.2.elim hphase fun hr => Or.inr (hsent hr)⟩

/-- A call that is elsewhere than at the lock moves on. -/
theorem Pending.move {q r : ℕ} {ph : Phase} (h : s.Pending r) (hq : s.phase q ≠ some .lockWait)
    (hfut : s'.conn.futures r = s.conn.futures r) (hsent : s'.sent = s.sent)
    (hphase : s'.phase = (s.setPhase q ph).phase) : s'.Pending r := by
  refine h.stay hfut (by rw [hsent]; exact List.Subset.refl _) fun hr => Or.inl ?_
  rw [hphase, phase_setPhase_of_ne, hr]
  rintro rfl
  exact hq hr

/-- Nothing but `close` going on ends the wait. -/
theorem Doomed.step {r : ℕ} (h : Doomed r s) (hord : Ordered expect s) (hclosing : Closing s)
    (hok : Orderly s a) (hspared : Spared r s a) (hs : s.step expect a = some s') :
    Doomed r s' := by
  rcases h with herror | ⟨hpend, hwait⟩
  · exact Or.inl (by rwa [hord.futures_step hs herror.ne_pending])
  replace hspared := hspared hpend.1
  have hsame : s.sent ⊆ s.sent := List.Subset.refl _
  cases step_cases hs with
  | call hq => exact Or.inr ⟨hpend.move (by simp [hq]) rfl rfl rfl, hwait⟩
  | @acquire q _ _ =>
    refine Or.inr ⟨hpend.stay rfl (List.subset_append_left _ _) fun hr => ?_, hwait⟩
    by_cases hqr : r = q
    · exact Or.inr (List.mem_append_right _ (by simp [hqr]))
    · exact Or.inl ((phase_setPhase_of_ne _ _ hqr).trans hr)
  | drained hq => exact Or.inr ⟨hpend.move (by simp [hq]) rfl rfl rfl, hwait⟩
  | drainFailed hq => exact Or.inr ⟨hpend.move (by simp [hq]) rfl rfl rfl, hwait⟩
  | cancelLockWait hq =>
    refine Or.inr ⟨hpend.stay rfl hsame fun hr => Or.inl ?_, hwait⟩
    refine (phase_setPhase_of_ne _ _ fun heq => ?_).trans hr
    simp [hspared heq.symm] at hr
  | cancelDraining hq => exact Or.inr ⟨hpend.move (by simp [hq]) rfl rfl rfl, hwait⟩
  | @cancelAwaiting q hq =>
    have hne : r ≠ q := by
      rintro rfl
      simp [hspared rfl] at hq
    refine Or.inr ⟨hpend.move (by simp [hq]) ?_ rfl rfl, hwait⟩
    exact (s.conn.futures_settle q .cancelled r).trans (if_neg fun hset => hne hset.1)
  | @timeout q hq =>
    refine Or.inr ⟨hpend.move (by simp [hq]) ?_ rfl rfl, hwait⟩
    exact (s.conn.futures_settle q .cancelled r).trans (if_neg fun hset => hspared hset.1.symm)
  | resume hq _ => exact Or.inr ⟨hpend.move (by simp [hq]) rfl rfl rfl, hwait⟩
  | message _ =>
    rcases s.conn.futures_dispatch _ _ r with hfut | herror | ⟨hreply, hfirst⟩
    · exact Or.inr ⟨hpend.stay hfut hsame Or.inl, hwait⟩
    · exact Or.inl herror
    · exact absurd hfirst (hspared hreply)
  | loopEnds _ =>
    rw [beginClose_of_closed hclosing.1]
    exact Or.inr ⟨hpend, hwait⟩
  | close =>
    rw [beginClose_of_closed hclosing.1]
    exact Or.inr ⟨hpend, hwait⟩
  | closeResume _ =>
    have hsent : r ∈ s.sent := hpend.2.resolve_left hspared
    have hwaits := Connection.mem_allWaiters.2 ⟨_, hord.pending r hsent hpend.1⟩
    refine Or.inl ?_
    show (s.conn.failWaiters.futures r).IsConnectionError
    rw [Connection.futures_failWaiters, if_pos ⟨hwaits, hpend.1⟩]
    trivial
  | closeInterrupt _ => exact hok.elim
  | forceClose hopen => exact absurd hclosing.1 (by simp [hopen])
  | _ => exact Or.inr ⟨hpend, hwait⟩

end

/-- If `close` comes first and reaches its end, and nobody sends after that, then no deque has a
waiter left, and every request that was pending has failed with the connection, unless it was
answered, timed out, was cancelled or did not get the lock in between. -/
theorem closing_fails_pending (expect : ℕ → UInt8) {as bs : List Action} {a : Action}
    {s s₁ t : Lifecycle} (hrun : Machine.run (step expect) init as = some s)
    (hopen : s.closed = false) (hstep : s.step expect a = some s₁) (hclosed : s₁.closed = true)
    (hrest : Machine.run (step expect) s₁ bs = some t) (hover : t.Over)
    (hok : Machine.Along (step expect) Orderly s (a :: bs)) :
    t.Empty ∧ ∀ r, s.Pending r → Machine.Along (step expect) (Spared r) s₁ bs →
      (t.conn.futures r).IsConnectionError := by
  obtain ⟨hok, hrestOk⟩ := hok
  simp only [hstep] at hrestOk
  obtain ⟨hclosing, hwait, hconn, hsent, hphase⟩ := closing_of_closes hstep hok hopen hclosed
  have hord := (run_ordered hrun).step hstep
  have hend : Ordered expect t ∧ Closing t :=
    Machine.run_invariant (fun u => Ordered expect u ∧ Closing u) Orderly
      (fun h hok hs => ⟨h.1.step hs, h.2.step h.1 hok hs⟩) ⟨hord, hclosing⟩ hrestOk hrest
  refine ⟨(hend.2.2.resolve_left hover.2.1).2, fun r hr hspared => ?_⟩
  have hdoomed : Doomed r s₁ := by
    refine Or.inr ⟨?_, hwait⟩
    rwa [Pending, hconn, hsent, hphase]
  obtain ⟨-, -, hfate⟩ :=
    Machine.run_invariant (fun u => Ordered expect u ∧ Closing u ∧ Doomed r u)
      (fun u b => Orderly u b ∧ Spared r u b)
      (fun h hok hs => ⟨h.1.step hs, h.2.1.step h.1 hok.1 hs, h.2.2.step h.1 h.2.1 hok.1 hok.2 hs⟩)
      ⟨hord, hclosing, hdoomed⟩ (hrestOk.and hspared) hrest
  exact hfate.resolve_right fun hwaits => hover.2.1 hwaits.2

/-- The read loop ends while an `info` is pending; a task calls `close` too, and returns. -/
theorem closing_fails_pending_loopEnds :
    ∃ s s₁ t, Machine.run (step fun _ => cmdInfoOk) init (asked 1) = some s ∧
      s.step (fun _ => cmdInfoOk) .loopEnds = some s₁ ∧
      Machine.run (step fun _ => cmdInfoOk) s₁ [.close, .closeResume, .resume 1] = some t ∧
      s.Pending 1 ∧ t.Over ∧ t.Empty ∧ (t.conn.futures 1).IsConnectionError := by
  refine ⟨_, _, _, rfl, rfl, rfl, ⟨rfl, Or.inr (by decide)⟩, ⟨rfl, by decide, rfl⟩, ?_⟩
  have hrun : Machine.run (step fun _ => cmdInfoOk) init (asked 1) = some _ := rfl
  obtain ⟨hempty, hfail⟩ := closing_fails_pending (fun _ => cmdInfoOk) hrun rfl
    (show step _ _ .loopEnds = some _ from rfl) rfl
    (show Machine.run _ _ [.close, .closeResume, .resume 1] = some _ from rfl)
    ⟨rfl, by decide, rfl⟩ ⟨trivial, trivial, trivial, trivial, trivial⟩
  refine ⟨hempty, hfail 1 ⟨rfl, Or.inr (by decide)⟩ ⟨fun _ => trivial, ?_, ?_, trivial⟩⟩
  · exact fun _ => by decide
  · exact fun _ => trivial

/-- `force_close_sync` comes first. The read loop ends and calls `close`, a task calls it as
well, and the `info` is pending for good. -/
theorem forced_leaves_pending :
    ∃ s s₁ t, Machine.run (step fun _ => cmdInfoOk) init (asked 1) = some s ∧
      s.step (fun _ => cmdInfoOk) .forceClose = some s₁ ∧
      Machine.run (step fun _ => cmdInfoOk) s₁ [.loopEnds, .close] = some t ∧
      s.Pending 1 ∧ t.Over ∧ t.conn.futures 1 = .pending ∧ t.conn.waitersOf cmdInfoOk = [1] :=
  ⟨_, _, _, rfl, rfl, rfl, ⟨rfl, Or.inr (by decide)⟩, ⟨rfl, by decide, rfl⟩, rfl, rfl⟩

end Lifecycle

end PilotLanggraph

import PilotLanggraph.Lib.Precedes
import PilotLanggraph.Requests

/-!
# The life of a connection

A `Lifecycle` is a `PilotConnection` from its start to the end of its read loop : the
`_request` calls on it, the write lock, the messages of the daemon (any of them, at any
time), and the three ways of tearing it down. `close` and `force_close_sync` share the flag
`_closed`, which the first of them sets; the read loop ends in a `close` of its own. `close`
waits for the writer before it fails the waiters, and other coroutines run in between.

`sent` lists the requests in the order of the sends. The deques of waiters split it by reply
command, in a dictionary that keeps its keys in the order of first use (`Ordered`).

* `fails_oldest_iff` : an error of the daemon fails the oldest pending request exactly if no
  deque is served before its own, and nobody stands before it there.
-/

namespace PilotLanggraph

open Ipc

namespace Connection

/-- The waiters of all deques, one deque after the other. -/
def allWaiters (c : Connection) : List ℕ :=
  c.waiters.entries.flatMap Prod.snd

/-- `close` fails every waiter and empties the deques. -/
def failWaiters (c : Connection) : Connection :=
  { c.allWaiters.foldl (fun c fut => c.settle fut .connectionClosed) c with
    waiters := c.waiters.mapValues fun _ => [] }

/-- The end of the stream goes to every receive queue. -/
def endStreams (c : Connection) : Connection :=
  { c with received := c.streamRecvQueues.entries.foldl (fun rs e => put rs e.2 none) c.received }

section

variable {c c' : Connection}

theorem futures_settle (c : Connection) (fut : ℕ) (outcome : FutureState) (r : ℕ) :
    (c.settle fut outcome).futures r =
      if r = fut ∧ c.futures r = .pending then outcome else c.futures r := by
  by_cases hp : c.futures fut = .pending
  · rw [c.futures_settle_of_pending outcome hp]
    by_cases hr : r = fut
    · subst hr
      rw [Function.update_self, if_pos ⟨rfl, hp⟩]
    · rw [Function.update_of_ne hr, if_neg fun h => hr h.1]
  · rw [c.futures_settle_of_done outcome (FutureState.done_iff.2 hp), if_neg]
    rintro ⟨rfl, h⟩
    exact hp h

theorem mem_allWaiters {r : ℕ} : r ∈ c.allWaiters ↔ ∃ k, r ∈ c.waitersOf k := by
  simp only [allWaiters, List.mem_flatMap, Prod.exists, Dict.mem_entries, waitersOf]
  constructor
  · rintro ⟨k, q, hq, hr⟩
    exact ⟨k, by rwa [hq]⟩
  · rintro ⟨k, hr⟩
    cases hq : c.waiters.get? k with
    | none => simp [hq] at hr
    | some q => exact ⟨k, q, hq, by simpa [hq] using hr⟩

theorem mem_keys_of_mem_waitersOf {k : UInt8} {r : ℕ} (hr : r ∈ c.waitersOf k) :
    k ∈ c.waiters.keys := by
  by_contra hk
  rw [waitersOf, Dict.get?_eq_none.2 hk] at hr
  cases hr

/-- Every pending waiter fails, -/
theorem futures_failWaiters (r : ℕ) :
    c.failWaiters.futures r =
      if r ∈ c.allWaiters ∧ c.futures r = .pending then .connectionClosed else c.futures r := by
  have hfold : ∀ (futs : List ℕ) (c : Connection),
      (futs.foldl (fun c fut => c.settle fut .connectionClosed) c).futures r =
        if r ∈ futs ∧ c.futures r = .pending then .connectionClosed else c.futures r := by
    intro futs
    induction futs with
    | nil => simp
    | cons fut futs ih =>
      intro c
      rw [List.foldl_cons, ih, futures_settle]
      by_cases hp : c.futures r = .pending
      · by_cases hr : r = fut
        · subst hr
          simp [hp]
        · simp [hp, hr]
      · simp [hp]
  exact hfold _ c

/-- and no deque has a waiter left. -/
theorem waitersOf_failWaiters (k : UInt8) : c.failWaiters.waitersOf k = [] := by
  rw [waitersOf, failWaiters, Dict.get?_mapValues]
  cases c.waiters.get? k <;> rfl

/-- What a step may do to waiters and futures, apart from a new waiter : the deques keep
their order and their pending futures, and of the futures only those of waiters and of the
calls `gone` change, once. -/
structure Shrinks (gone : ℕ → Prop) (c c' : Connection) : Prop where
  keys : ∀ {used}, c.waiters.InOrderOfUse used → c'.waiters.InOrderOfUse used
  deques : ∀ k, (c'.waitersOf k).Sublist (c.waitersOf k)
  stays : ∀ {r k}, c'.futures r = .pending → r ∈ c.waitersOf k → r ∈ c'.waitersOf k
  settled : ∀ {r}, c.futures r ≠ .pending → c'.futures r = c.futures r
  changed : ∀ {r}, c'.futures r ≠ c.futures r → (∃ k, r ∈ c.waitersOf k) ∨ gone r

theorem Shrinks.refl {gone : ℕ → Prop} (c : Connection) : Shrinks gone c c :=
  ⟨id, fun _ => List.Sublist.refl _, fun _ => id, fun _ => rfl, fun h => absurd rfl h⟩

theorem Shrinks.congr {gone : ℕ → Prop} {c'' : Connection} (h : Shrinks gone c c')
    (hsame : SameRouting c'' c') : Shrinks gone c c'' := by
  have hwaiters : ∀ k, c''.waitersOf k = c'.waitersOf k := fun k => by
    rw [waitersOf, waitersOf, hsame.waiters]
  refine ⟨fun hk => hsame.waiters ▸ h.keys hk, fun k => hwaiters k ▸ h.deques k,
    fun {r k} hr => hwaiters k ▸ h.stays (hsame.futures ▸ hr), ?_, ?_⟩
  · rw [hsame.futures]
    exact h.settled
  · rw [hsame.futures]
    exact h.changed

/-- The first of a deque is taken out with an outcome. -/
theorem Shrinks.of_first {gone : ℕ → Prop} {cmd : UInt8} {fut : ℕ} {q : List ℕ}
    {outcome : FutureState} (hq : c.waitersOf cmd = fut :: q) (hdone : outcome ≠ .pending) :
    Shrinks gone c ({ c with waiters := c.waiters.set cmd q }.settle fut outcome) := by
  have hmem : fut ∈ c.waitersOf cmd := by simp [hq]
  have hwaiters : ∀ k, ({ c with waiters := c.waiters.set cmd q }.settle fut outcome).waitersOf k =
      if k = cmd then q else c.waitersOf k := by
    intro k
    rw [waitersOf, waiters_settle]
    exact c.waitersOf_set cmd q k
  refine ⟨fun hk => ?_, fun k => ?_, fun {r k} hr hmemr => ?_, fun {r} hr => ?_, fun {r} hr => ?_⟩
  · rw [waiters_settle]
    exact hk.set (mem_keys_of_mem_waitersOf hmem) q
  · rw [hwaiters]
    split_ifs with hk
    · rw [hk, hq]
      exact List.sublist_cons_self fut q
    · exact List.Sublist.refl _
  · have hne : r ≠ fut := by
      rintro rfl
      rw [futures_settle] at hr
      split_ifs at hr with hset
      · exact hdone hr
      · exact hset ⟨rfl, hr⟩
    rw [hwaiters]
    split_ifs with hk
    · rw [hk, hq] at hmemr
      exact (List.mem_cons.1 hmemr).resolve_left hne
    · exact hmemr
  · rw [futures_settle, if_neg fun h => hr h.2]
  · rw [futures_settle] at hr
    by_cases hset : r = fut ∧ c.futures r = .pending
    · exact Or.inl ⟨cmd, hset.1 ▸ hmem⟩
    · exact absurd (if_neg hset) hr

theorem shrinks_deliverToWaiter (c : Connection) (gone : ℕ → Prop) (cmd : UInt8)
    (payload : Bytes) : Shrinks gone c (c.deliverToWaiter cmd payload) := by
  unfold deliverToWaiter
  split
  · exact .refl c
  · exact .of_first ‹_› (by simp)

/-- What the read loop does with a message. -/
theorem shrinks_dispatch (c : Connection) (gone : ℕ → Prop) (cmd : UInt8) (payload : Bytes) :
    Shrinks gone c (c.dispatch cmd payload) := by
  by_cases hreply : IsReply cmd
  · exact (c.shrinks_deliverToWaiter gone cmd payload).congr (c.dispatch_of_isReply hreply payload)
  by_cases herror : cmd = cmdError
  · subst herror
    rw [dispatch_error]
    rcases c.failOldestWaiter_cases (parseError payload) with ⟨h, -⟩ | ⟨k, fut, q, -, hq, h⟩
    · rw [h]
      exact .refl c
    · rw [h]
      exact .of_first hq (by simp)
  have hpush : IsPush cmd := by
    unfold IsReply at hreply
    unfold IsPush
    tauto
  refine (Shrinks.refl c).congr (c.dispatch_of_isPush hpush (fun hclose => ?_) payload)
  exact absurd (hclose ▸ (by decide : IsReply cmdCloseOk)) hreply

/-- A call that gives up cancels its future, -/
theorem shrinks_cancel (c : Connection) (r : ℕ) :
    Shrinks (· = r) c (c.settle r .cancelled) := by
  have hwaiters : ∀ k, (c.settle r .cancelled).waitersOf k = c.waitersOf k := fun k => by
    rw [waitersOf, waitersOf, waiters_settle]
  refine ⟨fun hk => (c.waiters_settle r .cancelled).symm ▸ hk, fun k => ?_,
    fun {q k} _ hq => (hwaiters k).symm ▸ hq, fun {q} hq => ?_, fun {q} hq => ?_⟩
  · rw [hwaiters]
  · rw [futures_settle, if_neg fun h => hq h.2]
  · rw [futures_settle] at hq
    by_cases hset : q = r ∧ c.futures q = .pending
    · exact Or.inr hset.1
    · exact absurd (if_neg hset) hq

/-- and may take it out of its deque. -/
theorem Shrinks.erase {gone : ℕ → Prop} {cmd : UInt8} {r : ℕ} (h : Shrinks gone c c')
    (hdone : c'.futures r ≠ .pending) (hcmd : cmd ∈ c'.waiters.keys) :
    Shrinks gone c { c' with waiters := c'.waiters.set cmd ((c'.waitersOf cmd).erase r) } := by
  refine ⟨fun hk => (h.keys hk).set hcmd _, fun k => ?_, fun {q k} hq hmem => ?_, h.settled,
    h.changed⟩
  · rw [waitersOf_set]
    split_ifs with hk
    · rw [hk]
      exact List.erase_sublist.trans (h.deques cmd)
    · exact h.deques k
  · have hqr : q ≠ r := fun heq => hdone (heq ▸ hq)
    have hold := h.stays hq hmem
    rw [waitersOf_set]
    split_ifs with hk
    · rw [hk] at hold
      exact (List.mem_erase_of_ne hqr).2 hold
    · exact hold

theorem shrinks_failWaiters (c : Connection) (gone : ℕ → Prop) :
    Shrinks gone c c.failWaiters := by
  refine ⟨fun hk => hk.mapValues fun _ => [], fun k => ?_, fun {r k} hr hmem => ?_,
    fun {r} hr => ?_, fun {r} hr => ?_⟩
  · rw [waitersOf_failWaiters]
    exact List.nil_sublist _
  · rw [futures_failWaiters] at hr
    split_ifs at hr with hset
    exact absurd ⟨mem_allWaiters.2 ⟨k, hmem⟩, hr⟩ hset
  · rw [futures_failWaiters, if_neg fun h => hr h.2]
  · rw [futures_failWaiters] at hr
    by_cases hset : r ∈ c.allWaiters ∧ c.futures r = .pending
    · exact Or.inl (mem_allWaiters.1 hset.1)
    · exact absurd (if_neg hset) hr

end

end Connection

/-- Where the task of the read loop is. -/
inductive ReaderPhase
  | reading
  /-- Cancelled by `close`, still to notice. -/
  | cancelled
  /-- In its own `close`. -/
  | closing
  | done
  deriving DecidableEq

/-- Where the one teardown that takes effect is. -/
inductive Teardown
  | none
  /-- `close` in `wait_closed`. -/
  | waiting
  | finished
  /-- `close` cancelled in `wait_closed`. -/
  | interrupted
  /-- `force_close_sync` was first. -/
  | forced
  deriving DecidableEq

/-- A connection from start to end. A call is named by the number of its future. -/
structure Lifecycle where
  conn : Connection
  phase : ℕ → Option Phase
  lock : Option Holder
  /-- The requests sent so far, in order. -/
  sent : List ℕ
  /-- `self._closed.is_set()`. -/
  closed : Bool
  teardown : Teardown
  loop : ReaderPhase

namespace Lifecycle

/-- What can happen. -/
inductive Action
  | call (r : ℕ)
  | acquire (r : ℕ)
  | drained (r : ℕ)
  | drainFailed (r : ℕ)
  | cancel (r : ℕ)
  | timeout (r : ℕ)
  | resume (r : ℕ)
  | acquireRaw
  | releaseRaw
  /-- The read loop handles a message, -/
  | message (cmd : UInt8) (payload : Bytes)
  /-- or leaves, at the end of the stream or by an exception, and calls `close`. -/
  | loopEnds
  /-- A task calls `close`. -/
  | close
  /-- The writer is closed, and `close` goes on. -/
  | closeResume
  /-- `close` is cancelled while it waits. -/
  | closeInterrupt
  | forceClose
  deriving DecidableEq

/-- A new connection. -/
def init : Lifecycle :=
  ⟨.init, fun _ => none, none, [], false, .none, .reading⟩

/-- Move a call on. -/
def setPhase (s : Lifecycle) (r : ℕ) (ph : Phase) : Lifecycle :=
  { s with phase := Function.update s.phase r (some ph) }

/-- `self._waiters[expect].append(fut)`, and the request is on the socket. -/
def send (expect : ℕ → UInt8) (s : Lifecycle) (r : ℕ) : Lifecycle :=
  { s with
    conn := { s.conn with
      waiters := s.conn.waiters.set (expect r) (s.conn.waitersOf (expect r) ++ [r]) }
    sent := s.sent ++ [r] }

/-- `self._waiters[expect].remove(fut)`. -/
def removeWaiter (expect : ℕ → UInt8) (s : Lifecycle) (r : ℕ) : Lifecycle :=
  { s with conn := { s.conn with
      waiters := s.conn.waiters.set (expect r) ((s.conn.waitersOf (expect r)).erase r) } }

/-- A call that stops waiting cancels its future. -/
def cancelFuture (s : Lifecycle) (r : ℕ) : Lifecycle :=
  { s with conn := s.conn.settle r .cancelled }

/-- `close`, up to its await. -/
def beginClose (s : Lifecycle) : Lifecycle :=
  if s.closed then s else { s with closed := true, teardown := .waiting }

/-- The rest of `close`. It cancels the read loop, which may be the one that runs it. -/
def finishClose (s : Lifecycle) : Lifecycle :=
  { s with
    conn := s.conn.failWaiters.endStreams
    teardown := .finished
    loop := match s.loop with
      | .reading => .cancelled
      | .closing => .done
      | l => l }

/-- The session after an action, if it can happen. -/
def step (expect : ℕ → UInt8) (s : Lifecycle) : Action → Option Lifecycle
  | .call r => if s.phase r = none then some (s.setPhase r .lockWait) else none
  | .acquire r =>
    if s.phase r = some .lockWait ∧ s.lock = none then
      some { (s.send expect r).setPhase r .draining with lock := some (.request r) }
    else none
  | .drained r =>
    if s.phase r = some .draining then some { s.setPhase r .awaiting with lock := none } else none
  -- The future stays in its deque.
  | .drainFailed r =>
    if s.phase r = some .draining then some { s.setPhase r .failed with lock := none } else none
  | .cancel r =>
    match s.phase r with
    | some .lockWait => some (s.setPhase r .cancelled)
    | some .draining => some { s.setPhase r .cancelled with lock := none }
    | some .awaiting => some ((s.cancelFuture r).setPhase r .cancelled)
    | _ => none
  | .timeout r =>
    if s.phase r = some .awaiting then
      some (((s.cancelFuture r).removeWaiter expect r).setPhase r .timedOut)
    else none
  | .resume r =>
    match s.phase r, s.conn.futures r with
    | some .awaiting, .result payload => some (s.setPhase r (.returned payload))
    | some .awaiting, .daemonError _ => some (s.setPhase r .failed)
    | some .awaiting, .connectionClosed => some (s.setPhase r .failed)
    | _, _ => none
  | .acquireRaw => if s.lock = none then some { s with lock := some .raw } else none
  | .releaseRaw => if s.lock = some .raw then some { s with lock := none } else none
  | .message cmd payload =>
    if s.loop = .reading then
      -- The loop looks at the flag once a message is handled.
      some { s with
        conn := s.conn.dispatch cmd payload
        loop := if s.closed then .done else .reading }
    else none
  | .loopEnds =>
    if s.loop = .reading ∨ s.loop = .cancelled then
      some { s.beginClose with loop := if s.closed then .done else .closing }
    else none
  | .close => some s.beginClose
  | .closeResume => if s.teardown = .waiting then some s.finishClose else none
  | .closeInterrupt =>
    if s.teardown = .waiting then
      some { s with
        teardown := .interrupted
        loop := if s.loop = .closing then .done else s.loop }
    else none
  | .forceClose =>
    if s.closed then some s
    else some { s with conn := s.conn.endStreams, closed := true, teardown := .forced }

/-- What an action does where it can be taken, with the guard of each branch. -/
inductive Step (expect : ℕ → UInt8) (s : Lifecycle) : Action → Lifecycle → Prop
  | call {r : ℕ} (hr : s.phase r = none) : Step expect s (.call r) (s.setPhase r .lockWait)
  | acquire {r : ℕ} (hr : s.phase r = some .lockWait) (hlock : s.lock = none) :
    Step expect s (.acquire r)
      { (s.send expect r).setPhase r .draining with lock := some (.request r) }
  | drained {r : ℕ} (hr : s.phase r = some .draining) :
    Step expect s (.drained r) { s.setPhase r .awaiting with lock := none }
  | drainFailed {r : ℕ} (hr : s.phase r = some .draining) :
    Step expect s (.drainFailed r) { s.setPhase r .failed with lock := none }
  | cancelLockWait {r : ℕ} (hr : s.phase r = some .lockWait) :
    Step expect s (.cancel r) (s.setPhase r .cancelled)
  | cancelDraining {r : ℕ} (hr : s.phase r = some .draining) :
    Step expect s (.cancel r) { s.setPhase r .cancelled with lock := none }
  | cancelAwaiting {r : ℕ} (hr : s.phase r = some .awaiting) :
    Step expect s (.cancel r) ((s.cancelFuture r).setPhase r .cancelled)
  | timeout {r : ℕ} (hr : s.phase r = some .awaiting) :
    Step expect s (.timeout r) (((s.cancelFuture r).removeWaiter expect r).setPhase r .timedOut)
  | resume {r : ℕ} {ph : Phase} (hr : s.phase r = some .awaiting)
    (hph : ph = .failed ∨ ∃ payload, ph = .returned payload) :
    Step expect s (.resume r) (s.setPhase r ph)
  | acquireRaw (hlock : s.lock = none) : Step expect s .acquireRaw { s with lock := some .raw }
  | releaseRaw (hlock : s.lock = some .raw) : Step expect s .releaseRaw { s with lock := none }
  | message {cmd : UInt8} {payload : Bytes} (hloop : s.loop = .reading) :
    Step expect s (.message cmd payload)
      { s with
        conn := s.conn.dispatch cmd payload
        loop := if s.closed then .done else .reading }
  | loopEnds (hloop : s.loop = .reading ∨ s.loop = .cancelled) :
    Step expect s .loopEnds { s.beginClose with loop := if s.closed then .done else .closing }
  | close : Step expect s .close s.beginClose
  | closeResume (hwait : s.teardown = .waiting) : Step expect s .closeResume s.finishClose
  | closeInterrupt (hwait : s.teardown = .waiting) :
    Step expect s .closeInterrupt
      { s with
        teardown := .interrupted
        loop := if s.loop = .closing then .done else s.loop }
  | forceCloseAgain (hclosed : s.closed = true) : Step expect s .forceClose s
  | forceClose (hclosed : s.closed = false) :
    Step expect s .forceClose
      { s with conn := s.conn.endStreams, closed := true, teardown := .forced }

theorem step_cases {expect : ℕ → UInt8} {s s' : Lifecycle} {a : Action}
    (hs : s.step expect a = some s') : Step expect s a s' := by
  cases a with
  | call r =>
    simp only [step, Option.ite_none_right_eq_some, Option.some.injEq] at hs
    obtain ⟨hr, rfl⟩ := hs
    exact .call hr
  | acquire r =>
    simp only [step, Option.ite_none_right_eq_some, Option.some.injEq] at hs
    obtain ⟨⟨hr, hlock⟩, rfl⟩ := hs
    exact .acquire hr hlock
  | drained r =>
    simp only [step, Option.ite_none_right_eq_some, Option.some.injEq] at hs
    obtain ⟨hr, rfl⟩ := hs
    exact .drained hr
  | drainFailed r =>
    simp only [step, Option.ite_none_right_eq_some, Option.some.injEq] at hs
    obtain ⟨hr, rfl⟩ := hs
    exact .drainFailed hr
  | cancel r =>
    simp only [step] at hs
    split at hs
    · obtain rfl := Option.some.inj hs
      exact .cancelLockWait ‹_›
    · obtain rfl := Option.some.inj hs
      exact .cancelDraining ‹_›
    · obtain rfl := Option.some.inj hs
      exact .cancelAwaiting ‹_›
    · cases hs
  | timeout r =>
    simp only [step, Option.ite_none_right_eq_some, Option.some.injEq] at hs
    obtain ⟨hr, rfl⟩ := hs
    exact .timeout hr
  | resume r =>
    simp only [step] at hs
    split at hs
    · rename_i payload hr _
      obtain rfl := Option.some.inj hs
      exact .resume hr (Or.inr ⟨payload, rfl⟩)
    · rename_i hr _
      obtain rfl := Option.some.inj hs
      exact .resume hr (Or.inl rfl)
    · rename_i hr _
      obtain rfl := Option.some.inj hs
      exact .resume hr (Or.inl rfl)
    · cases hs
  | acquireRaw =>
    simp only [step, Option.ite_none_right_eq_some, Option.some.injEq] at hs
    obtain ⟨hlock, rfl⟩ := hs
    exact .acquireRaw hlock
  | releaseRaw =>
    simp only [step, Option.ite_none_right_eq_some, Option.some.injEq] at hs
    obtain ⟨hlock, rfl⟩ := hs
    exact .releaseRaw hlock
  | message cmd payload =>
    simp only [step, Option.ite_none_right_eq_some, Option.some.injEq] at hs
    obtain ⟨hloop, rfl⟩ := hs
    exact .message hloop
  | loopEnds =>
    simp only [step, Option.ite_none_right_eq_some, Option.some.injEq] at hs
    obtain ⟨hloop, rfl⟩ := hs
    exact .loopEnds hloop
  | close =>
    obtain rfl := Option.some.inj hs
    exact .close
  | closeResume =>
    simp only [step, Option.ite_none_right_eq_some, Option.some.injEq] at hs
    obtain ⟨hwait, rfl⟩ := hs
    exact .closeResume hwait
  | closeInterrupt =>
    simp only [step, Option.ite_none_right_eq_some, Option.some.injEq] at hs
    obtain ⟨hwait, rfl⟩ := hs
    exact .closeInterrupt hwait
  | forceClose =>
    simp only [step] at hs
    split_ifs at hs with hclosed
    · obtain rfl := Option.some.inj hs
      exact .forceCloseAgain hclosed
    · obtain rfl := Option.some.inj hs
      exact .forceClose (by simpa using hclosed)

@[simp] theorem phase_setPhase_self (s : Lifecycle) (r : ℕ) (ph : Phase) :
    (s.setPhase r ph).phase r = some ph :=
  Function.update_self ..

theorem phase_setPhase_of_ne (s : Lifecycle) {q r : ℕ} (ph : Phase) (h : q ≠ r) :
    (s.setPhase r ph).phase q = s.phase q :=
  Function.update_of_ne h ..

/-! ## The order of the waiters -/

/-- The deques list what was sent, each in the order of the sends, in a dictionary in the
order in which their commands were first expected. -/
structure Ordered (expect : ℕ → UInt8) (s : Lifecycle) : Prop where
  nodup : s.sent.Nodup
  started : ∀ r ∈ s.sent, s.phase r ≠ none ∧ s.phase r ≠ some .lockWait
  sent : ∀ r, s.phase r = some .draining ∨ s.phase r = some .awaiting → r ∈ s.sent
  keys : s.conn.waiters.InOrderOfUse (s.sent.map expect)
  deques : ∀ k, (s.conn.waitersOf k).Sublist (s.sent.filter fun r => expect r = k)
  pending : ∀ r ∈ s.sent, s.conn.futures r = .pending → r ∈ s.conn.waitersOf (expect r)
  fresh : ∀ r, r ∉ s.sent → s.conn.futures r = .pending

theorem ordered_init (expect : ℕ → UInt8) : Ordered expect init where
  nodup := List.nodup_nil
  started := by simp [init]
  sent := by simp [init]
  keys := Dict.inOrderOfUse_empty
  deques := fun _ => List.Sublist.refl _
  pending := by simp [init]
  fresh := fun _ _ => rfl

section

variable {expect : ℕ → UInt8} {s : Lifecycle}

/-- Who waits under a command was sent, and expects it. -/
theorem Ordered.mem_of_waiting (h : Ordered expect s) {k : UInt8} {r : ℕ}
    (hr : r ∈ s.conn.waitersOf k) : r ∈ s.sent ∧ expect r = k := by
  obtain ⟨hmem, hk⟩ := List.mem_filter.1 ((h.deques k).subset hr)
  exact ⟨hmem, of_decide_eq_true hk⟩

/-- Nothing is sent. -/
theorem Ordered.shrink (h : Ordered expect s) {s' : Lifecycle} (hsent : s'.sent = s.sent)
    (hconn : Connection.Shrinks (· ∈ s.sent) s.conn s'.conn)
    (hphase : ∀ r, s'.phase r = s.phase r ∨
      (s'.phase r ≠ none ∧ (s'.phase r = some .lockWait → r ∉ s.sent)) ∧
        (s'.phase r = some .draining ∨ s'.phase r = some .awaiting → r ∈ s.sent)) :
    Ordered expect s' := by
  refine ⟨hsent ▸ h.nodup, fun r hr => ?_, fun r hr => ?_, hsent ▸ hconn.keys h.keys,
    fun k => hsent ▸ (hconn.deques k).trans (h.deques k), fun r hr hp => ?_, fun r hr => ?_⟩
  · rw [hsent] at hr
    rcases hphase r with hph | ⟨⟨hnone, hlock⟩, -⟩
    · exact hph ▸ h.started r hr
    · exact ⟨hnone, fun hp => hlock hp hr⟩
  · rw [hsent]
    rcases hphase r with hph | ⟨-, hph⟩
    · exact h.sent r (hph ▸ hr)
    · exact hph hr
  · rw [hsent] at hr
    have hold : s.conn.futures r = .pending := by
      by_contra hne
      exact hne (hconn.settled hne ▸ hp)
    exact hconn.stays hp (h.pending r hr hold)
  · rw [hsent] at hr
    by_contra hne
    rcases hconn.changed (fun heq => hne (heq.trans (h.fresh r hr))) with ⟨k, hk⟩ | hgone
    · exact hr (h.mem_of_waiting hk).1
    · exact hr hgone

/-- The call moves on. -/
theorem Ordered.move (h : Ordered expect s) {s' : Lifecycle} {r : ℕ} {ph : Phase}
    (hsent : s'.sent = s.sent) (hconn : Connection.Shrinks (· ∈ s.sent) s.conn s'.conn)
    (hphase : s'.phase = (s.setPhase r ph).phase) (hlock : ph = .lockWait → r ∉ s.sent)
    (hin : ph = .draining ∨ ph = .awaiting → r ∈ s.sent) : Ordered expect s' := by
  refine h.shrink hsent hconn fun q => ?_
  rw [hphase]
  by_cases hqr : q = r
  · subst hqr
    rw [phase_setPhase_self]
    simp only [ne_eq, reduceCtorEq, not_false_eq_true, true_and, Option.some.injEq]
    exact Or.inr ⟨hlock, hin⟩
  · exact Or.inl (s.phase_setPhase_of_ne ph hqr)

/-- A request is sent. -/
theorem Ordered.acquire (h : Ordered expect s) {r : ℕ} (hr : s.phase r = some .lockWait)
    (l : Option Holder) :
    Ordered expect { (s.send expect r).setPhase r .draining with lock := l } := by
  have hnew : r ∉ s.sent := fun hmem => (h.started r hmem).2 hr
  have hphase : ∀ {q}, q ≠ r →
      ({ (s.send expect r).setPhase r .draining with lock := l } : Lifecycle).phase q =
        s.phase q :=
    fun hq => phase_setPhase_of_ne _ _ hq
  have hwaiters : ∀ k, ((s.send expect r).setPhase r .draining).conn.waitersOf k =
      if k = expect r then s.conn.waitersOf (expect r) ++ [r] else s.conn.waitersOf k :=
    fun k => s.conn.waitersOf_set _ _ k
  refine ⟨?_, fun q hq => ?_, fun q hq => ?_, ?_, fun k => ?_, fun q hq hp => ?_, fun q hq => ?_⟩
  · exact List.nodup_append.2 ⟨h.nodup, List.nodup_singleton r, fun a ha b hb hab => hnew
      (List.mem_singleton.1 hb ▸ hab ▸ ha)⟩
  · by_cases hqr : q = r
    · subst hqr
      simp [setPhase]
    · rw [hphase hqr]
      exact h.started q ((List.mem_append.1 hq).resolve_right (by simpa using hqr))
  · by_cases hqr : q = r
    · exact List.mem_append_right _ (by simp [hqr])
    · rw [hphase hqr] at hq
      exact List.mem_append_left _ (h.sent q hq)
  · show Dict.InOrderOfUse _ ((s.sent ++ [r]).map expect)
    rw [List.map_append, List.map_singleton]
    exact h.keys.use (expect r) _
  · show List.Sublist (((s.send expect r).setPhase r .draining).conn.waitersOf k)
      ((s.sent ++ [r]).filter fun q => expect q = k)
    rw [hwaiters, List.filter_append]
    split_ifs with hk
    · subst hk
      simpa using (h.deques (expect r)).append_right [r]
    · exact (h.deques k).trans (List.sublist_append_left _ _)
  · show q ∈ ((s.send expect r).setPhase r .draining).conn.waitersOf (expect q)
    rw [hwaiters]
    rcases List.mem_append.1 hq with hq | hq
    · have hold := h.pending q hq hp
      split_ifs with hk
      · exact List.mem_append_left _ (hk ▸ hold)
      · exact hold
    · rw [List.mem_singleton.1 hq, if_pos rfl]
      exact List.mem_append_right _ (List.mem_singleton_self r)
  · exact h.fresh q fun hmem => hq (List.mem_append_left _ hmem)

@[simp] theorem conn_beginClose (s : Lifecycle) : s.beginClose.conn = s.conn := by
  unfold beginClose
  split_ifs <;> rfl

@[simp] theorem sent_beginClose (s : Lifecycle) : s.beginClose.sent = s.sent := by
  unfold beginClose
  split_ifs <;> rfl

@[simp] theorem phase_beginClose (s : Lifecycle) : s.beginClose.phase = s.phase := by
  unfold beginClose
  split_ifs <;> rfl

/-- A call that was sent gives up. -/
theorem Ordered.cancelFuture (h : Ordered expect s) {r : ℕ} (hr : s.phase r = some .awaiting) :
    Connection.Shrinks (· ∈ s.sent) s.conn (s.cancelFuture r).conn ∧
      (s.cancelFuture r).conn.futures r ≠ .pending := by
  have hsent := h.sent r (Or.inr hr)
  constructor
  · obtain ⟨hkeys, hdeques, hstays, hsettled, hchanged⟩ := s.conn.shrinks_cancel r
    refine ⟨hkeys, hdeques, hstays, hsettled, fun {q} hq => (hchanged hq).imp_right ?_⟩
    rintro rfl
    exact hsent
  · show (s.conn.settle r .cancelled).futures r ≠ .pending
    rw [Connection.futures_settle]
    split_ifs with hp
    · simp
    · exact fun heq => hp ⟨rfl, heq⟩

/-- Only a send adds a waiter. -/
theorem Ordered.shrinks_step (h : Ordered expect s) {s' : Lifecycle} {a : Action}
    (hs : s.step expect a = some s') (ha : ∀ r, a ≠ .acquire r) :
    Connection.Shrinks (· ∈ s.sent) s.conn s'.conn := by
  cases step_cases hs with
  | acquire _ _ => exact absurd rfl (ha _)
  | cancelAwaiting hr => exact (h.cancelFuture hr).1
  | timeout hr =>
    obtain ⟨hconn, hdone⟩ := h.cancelFuture hr
    have hkey := (hconn.keys h.keys).mem _ |>.2 (List.mem_map_of_mem (h.sent _ (Or.inr hr)))
    exact hconn.erase hdone hkey
  | message _ => exact s.conn.shrinks_dispatch _ _ _
  | loopEnds _ =>
    show Connection.Shrinks _ s.conn s.beginClose.conn
    rw [conn_beginClose]
    exact .refl _
  | close =>
    rw [conn_beginClose]
    exact .refl _
  | closeResume _ => exact (s.conn.shrinks_failWaiters _).congr ⟨rfl, rfl⟩
  | forceClose _ => exact (Connection.Shrinks.refl _).congr ⟨rfl, rfl⟩
  | _ => exact .refl _

end

/-- Every action keeps the order. -/
theorem Ordered.step {expect : ℕ → UInt8} {s s' : Lifecycle} {a : Action} (h : Ordered expect s)
    (hs : s.step expect a = some s') : Ordered expect s' := by
  have hconn := h.shrinks_step hs
  cases step_cases hs with
  | call hr =>
    exact h.move rfl (hconn (by simp)) rfl (fun _ hmem => (h.started _ hmem).1 hr) (by simp)
  | acquire hr _ => exact h.acquire hr _
  | drained hr => exact h.move rfl (hconn (by simp)) rfl (by simp) fun _ => h.sent _ (Or.inl hr)
  | drainFailed _ => exact h.move rfl (hconn (by simp)) rfl (by simp) (by simp)
  | cancelLockWait _ => exact h.move rfl (hconn (by simp)) rfl (by simp) (by simp)
  | cancelDraining _ => exact h.move rfl (hconn (by simp)) rfl (by simp) (by simp)
  | cancelAwaiting _ => exact h.move rfl (hconn (by simp)) rfl (by simp) (by simp)
  | timeout _ => exact h.move rfl (hconn (by simp)) rfl (by simp) (by simp)
  | resume _ hph =>
    refine h.move rfl (hconn (by simp)) rfl ?_ ?_
    · rintro rfl
      simp at hph
    · rintro (rfl | rfl)
      · simp at hph
      · simp at hph
  | loopEnds _ =>
    exact h.shrink s.sent_beginClose (hconn (by simp)) fun r =>
      Or.inl (congrFun s.phase_beginClose r)
  | close =>
    exact h.shrink s.sent_beginClose (hconn (by simp)) fun r =>
      Or.inl (congrFun s.phase_beginClose r)
  | forceCloseAgain _ => exact h
  | _ => exact h.shrink rfl (hconn (by simp)) fun _ => Or.inl rfl

theorem run_ordered {expect : ℕ → UInt8} {as : List Action} {s : Lifecycle}
    (hrun : Machine.run (step expect) init as = some s) : Ordered expect s :=
  Machine.run_induction (fun _ s => Ordered expect s) (ordered_init expect)
    (fun _ h hs => h.step hs) hrun

/-! ## Errors -/

/-- The request that was sent earliest among those that are pending. -/
def oldest? (s : Lifecycle) : Option ℕ :=
  s.sent.find? fun r => s.conn.futures r = .pending

/-- The oldest pending request fails, and nothing happens to any other. -/
def FailsOldest (s s' : Lifecycle) (err : Option Bytes) : Prop :=
  s'.conn.futures =
    match s.oldest? with
    | some r => Function.update s.conn.futures r (.daemonError err)
    | none => s.conn.futures

/-- Every request in a deque, even one that was cancelled, expects a command that was first
expected no earlier than that of `r`, and stands behind `r` if they expect the same. -/
def Foremost (expect : ℕ → UInt8) (s : Lifecycle) (r : ℕ) : Prop :=
  ∀ q ∈ s.sent, q ∈ s.conn.waitersOf (expect q) →
    (s.sent.map expect).idxOf (expect r) ≤ (s.sent.map expect).idxOf (expect q) ∧
      (expect q = expect r → s.sent.idxOf r ≤ s.sent.idxOf q)

instance (expect : ℕ → UInt8) (s : Lifecycle) (r : ℕ) : Decidable (Foremost expect s r) :=
  inferInstanceAs (Decidable (∀ q ∈ s.sent, _ → _))

section

variable {expect : ℕ → UInt8} {s : Lifecycle}

theorem Ordered.oldest?_waits (h : Ordered expect s) {r : ℕ} (hr : s.oldest? = some r) :
    s.conn.futures r = .pending ∧ r ∈ s.sent ∧ r ∈ s.conn.waitersOf (expect r) := by
  rw [oldest?] at hr
  have hp : s.conn.futures r = .pending := by simpa using List.find?_some hr
  have hmem := List.mem_of_find?_eq_some hr
  exact ⟨hp, hmem, h.pending r hmem hp⟩

/-- Who stands first in a deque was sent before the others there. -/
theorem Ordered.first_sent (h : Ordered expect s) {k : UInt8} {fut : ℕ} {q : List ℕ}
    (hq : s.conn.waitersOf k = fut :: q) {r : ℕ} (hr : r ∈ q) :
    s.sent.idxOf fut < s.sent.idxOf r := by
  have hsub : (fut :: q).Sublist s.sent := hq ▸ (h.deques k).trans List.filter_sublist
  exact (List.pairwise_cons.1 ((List.pairwise_idxOf h.nodup).sublist hsub)).1 r hr

/-- The waiter that an error goes to is the foremost one. -/
theorem Ordered.foremost_iff (h : Ordered expect s) {k : UInt8} {fut : ℕ} {q : List ℕ}
    (hfind : (s.conn.waiters.entries.find? fun e => !e.2.isEmpty) = some (k, fut :: q))
    (hq : s.conn.waitersOf k = fut :: q) {r : ℕ} (hr : r ∈ s.conn.waitersOf (expect r)) :
    Foremost expect s r ↔ fut = r := by
  have hfut : fut ∈ s.sent ∧ expect fut = k := h.mem_of_waiting (hq ▸ List.mem_cons_self)
  -- No deque with a waiter has a command that was first expected before `k`.
  have hfirst : ∀ {p}, p ∈ s.conn.waitersOf (expect p) →
      (s.sent.map expect).idxOf k ≤ (s.sent.map expect).idxOf (expect p) := by
    intro p hp
    cases hget : s.conn.waiters.get? (expect p) with
    | none =>
      rw [Connection.waitersOf, hget] at hp
      cases hp
    | some l =>
      rw [Connection.waitersOf, hget, Option.getD_some] at hp
      refine h.keys.find?_first hfind (Dict.mem_entries.2 hget) ?_
      simpa using List.ne_nil_of_mem hp
  constructor
  · intro hr'
    obtain ⟨hcmd, hplace⟩ := hr' fut hfut.1 (by rw [hfut.2, hq]; exact List.mem_cons_self)
    rw [hfut.2] at hcmd hplace
    have hk : k = expect r :=
      (List.idxOf_inj (hfut.2 ▸ List.mem_map_of_mem hfut.1)).1
        (Nat.le_antisymm (hfirst hr) hcmd)
    rw [← hk, hq] at hr
    rcases List.mem_cons.1 hr with hr | hr
    · exact hr.symm
    · exact absurd (h.first_sent hq hr) (Nat.not_lt.2 (hplace hk))
  · rintro rfl p _ hwait
    rw [hfut.2]
    refine ⟨hfirst hwait, fun hp => ?_⟩
    rw [hp, hq] at hwait
    rcases List.mem_cons.1 hwait with rfl | hwait
    · exact Nat.le_refl _
    · exact Nat.le_of_lt (h.first_sent hq hwait)

end

/-- An error of the daemon fails exactly the oldest pending request if and only if that
request is the foremost waiter. -/
theorem fails_oldest_iff (expect : ℕ → UInt8) {as : List Action} {s s' : Lifecycle}
    {payload : Bytes} (hrun : Machine.run (step expect) init as = some s)
    (hstep : s.step expect (.message cmdError payload) = some s') :
    FailsOldest s s' (parseError payload) ↔ ∀ r, s.oldest? = some r → Foremost expect s r := by
  have h := run_ordered hrun
  obtain ⟨-, rfl⟩ : s.loop = .reading ∧ _ = s' := by
    simpa only [step, Option.ite_none_right_eq_some, Option.some.injEq] using hstep
  simp only [FailsOldest, Connection.dispatch_error]
  rcases s.conn.failOldestWaiter_cases (parseError payload) with ⟨hsame, hempty⟩ |
    ⟨k, fut, q, hfind, hq, hfail⟩
  · -- Nobody waits, so nobody is pending.
    rw [hsame]
    cases hold : s.oldest? with
    | none => simp
    | some r =>
      have hwait := (h.oldest?_waits hold).2.2
      rw [hempty] at hwait
      cases hwait
  rw [hfail]
  cases hold : s.oldest? with
  | none =>
    have hfut := (h.mem_of_waiting (hq ▸ List.mem_cons_self : fut ∈ s.conn.waitersOf k)).1
    have hdone : s.conn.futures fut ≠ .pending := by
      simpa using List.find?_eq_none.1 hold fut hfut
    refine iff_of_true ?_ (by simp)
    funext r
    rw [Connection.futures_settle, if_neg]
    rintro ⟨rfl, hp⟩
    exact hdone hp
  | some r =>
    obtain ⟨hp, hmem, hwait⟩ := h.oldest?_waits hold
    simp only [Option.some.injEq, forall_eq']
    rw [h.foremost_iff hfind hq hwait]
    constructor
    · intro hfails
      have hr := congrFun hfails r
      rw [Connection.futures_settle, Function.update_self] at hr
      by_contra hne
      rw [if_neg fun hset => hne hset.1.symm] at hr
      exact absurd (hp.symm.trans hr) (by simp)
    · rintro rfl
      exact Connection.futures_settle_of_pending _ _ hp

/-- A request that was answered, -/
def answered (r : ℕ) (cmd : UInt8) : List Action :=
  [.call r, .acquire r, .drained r, .message cmd [], .resume r]

/-- and one that is pending. -/
def asked (r : ℕ) : List Action :=
  [.call r, .acquire r, .drained r]

/-- Call 1 is a `dial`, the others ask for `info`. -/
def dialAmongInfos (r : ℕ) : UInt8 :=
  if r = 1 then cmdDialOk else cmdInfoOk

/-- A dial is pending, alone. -/
theorem fails_oldest_iff_dial :
    ∃ s s', Machine.run (step dialAmongInfos) init (asked 1) = some s ∧
      s.step dialAmongInfos (.message cmdError [0, 1, 110, 111]) = some s' ∧
      s.oldest? = some 1 ∧ FailsOldest s s' (parseError [0, 1, 110, 111]) := by
  refine ⟨_, _, rfl, rfl, by decide, ?_⟩
  have hrun : Machine.run (step dialAmongInfos) init (asked 1) = some _ := rfl
  refine (fails_oldest_iff dialAmongInfos hrun rfl).2 fun r hr => ?_
  obtain rfl : 1 = r := Option.some.inj hr
  decide

/-- An `info` is answered, then a `dial` and another `info` are sent. The daemon refuses the
`dial`, and the `info` fails : its deque was used first. -/
theorem error_misrouted :
    ∃ s s', Machine.run (step dialAmongInfos) init
        (answered 0 cmdInfoOk ++ asked 1 ++ asked 2) = some s ∧
      s.step dialAmongInfos (.message cmdError [0, 1, 110, 111]) = some s' ∧
      s.oldest? = some 1 ∧ s'.conn.futures 1 = .pending ∧
      s'.conn.futures 2 = .daemonError (parseError [0, 1, 110, 111]) ∧
      ¬FailsOldest s s' (parseError [0, 1, 110, 111]) := by
  refine ⟨_, _, rfl, rfl, by decide, by decide, by decide, fun h => ?_⟩
  have h₁ := congrFun h 1
  revert h₁
  decide

end Lifecycle

end PilotLanggraph

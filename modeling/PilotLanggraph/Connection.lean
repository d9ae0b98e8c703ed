import PilotLanggraph.Ipc
import PilotLanggraph.Lib.Dict

/-!
# The connection to the daemon

The state of a `PilotConnection` (`asyncio_client.py`) and what its read loop does with a
message. Futures and queues live in a heap and are named by numbers : a cancelled future
can still stand in a deque of waiters, and a queue taken out of a dictionary still
belongs to its stream.

A message whose command answers a request goes to the oldest waiter under that command
(`deliverToWaiter`); the other commands feed the queues of streams, listeners and
datagram subscribers, and touch no waiter.
-/

namespace PilotLanggraph

open Ipc

/-- The state of a future. -/
inductive FutureState
  | pending
  | result (payload : Bytes)
  | daemonError (text : Option Bytes)
  | connectionClosed
  | cancelled
  deriving DecidableEq

/-- `fut.done()`. -/
def FutureState.done : FutureState → Bool
  | .pending => false
  | _ => true

@[simp] theorem FutureState.done_eq_false {f : FutureState} : f.done = false ↔ f = .pending := by
  cases f <;> simp [done]

theorem FutureState.done_iff {f : FutureState} : f.done = true ↔ f ≠ .pending := by
  cases f <;> simp [done]

/-- `PilotConnection`. -/
structure Connection where
  /-- Reply command to futures, oldest first. -/
  waiters : Dict UInt8 (List ℕ)
  /-- The state of each future. -/
  futures : ℕ → FutureState
  /-- Port to the datagram queues subscribed to it. -/
  portDgramQueues : Dict ℕ (List ℕ)
  /-- The contents of each datagram queue. -/
  dgrams : ℕ → List Datagram
  /-- Connection id to its receive queue. -/
  streamRecvQueues : Dict ℕ ℕ
  /-- The contents of each receive queue; `none` marks the end of the stream. -/
  received : ℕ → List (Option Bytes)
  /-- What arrived before the queue of its connection id. -/
  pendingRecv : Dict ℕ (List (Option Bytes))
  /-- Local port to its accept queue. -/
  listenerAcceptQueues : Dict ℕ ℕ
  /-- The contents of each accept queue. -/
  accepted : ℕ → List AcceptedConn

namespace Connection

/-- A new connection. -/
def init : Connection :=
  ⟨Dict.empty, fun _ => .pending, Dict.empty, fun _ => [], Dict.empty, fun _ => [], Dict.empty,
    Dict.empty, fun _ => []⟩

/-- `self._waiters[cmd]`. -/
def waitersOf (c : Connection) (cmd : UInt8) : List ℕ :=
  (c.waiters.get? cmd).getD []

/-- Set the outcome of a future that is not done. -/
def settle (c : Connection) (fut : ℕ) (outcome : FutureState) : Connection :=
  if (c.futures fut).done then c
  else { c with futures := Function.update c.futures fut outcome }

/-- `_deliver_to_waiter`. -/
def deliverToWaiter (c : Connection) (cmd : UInt8) (payload : Bytes) : Connection :=
  match c.waitersOf cmd with
  | [] => c
  | fut :: q => { c with waiters := c.waiters.set cmd q }.settle fut (.result payload)

/-- `_fail_oldest_waiter` : the first deque that is not empty, in the order of the dictionary. -/
def failOldestWaiter (c : Connection) (err : Option Bytes) : Connection :=
  match c.waiters.entries.find? fun e => !e.2.isEmpty with
  | some (cmd, fut :: q) => { c with waiters := c.waiters.set cmd q }.settle fut (.daemonError err)
  | _ => c

/-- The waiter that `_fail_oldest_waiter` takes. -/
def firstWaiter? (c : Connection) : Option ℕ :=
  (c.waiters.entries.find? fun e => !e.2.isEmpty).bind fun e => e.2.head?

/-- `q.put_nowait(item)`. -/
def put {α : Type} (queues : ℕ → List α) (q : ℕ) (item : α) : ℕ → List α :=
  Function.update queues q (queues q ++ [item])

/-- An item for a connection id : into its queue, or aside until it has one. -/
def receive (c : Connection) (connId : ℕ) (item : Option Bytes) : Connection :=
  match c.streamRecvQueues.get? connId with
  | some q => { c with received := put c.received q item }
  | none => { c with
      pendingRecv := c.pendingRecv.set connId ((c.pendingRecv.get? connId).getD [] ++ [item]) }

/-- The `CMD_CLOSE_OK` branch, without the waiter : the queue is taken out and ended. -/
def closeOk (c : Connection) (payload : Bytes) : Connection :=
  match parseCloseOk payload with
  | none => c
  | some connId =>
    { c.receive connId none with streamRecvQueues := c.streamRecvQueues.erase connId }

/-- What `_read_loop` does with a message. -/
def dispatch (c : Connection) (cmd : UInt8) (payload : Bytes) : Connection :=
  if cmd = cmdRecv then
    match parseRecv payload with
    | none => c
    | some (connId, data) => c.receive connId (some data)
  else if cmd = cmdAccept then
    match parseAccept payload with
    | none => c
    | some conn =>
      match c.listenerAcceptQueues.get? conn.localPort with
      | some aq => { c with accepted := put c.accepted aq conn }
      | none => c
  else if cmd = cmdCloseOk then
    (c.closeOk payload).deliverToWaiter cmd payload
  else if cmd = cmdRecvFrom then
    match parseDatagram payload with
    | none => c
    | some dg =>
      let queues := (c.portDgramQueues.get? dg.dstPort).getD []
      { c with dgrams := queues.foldl (fun qs q => put qs q dg) c.dgrams }
  else if cmd = cmdError then
    c.failOldestWaiter (parseError payload)
  else
    c.deliverToWaiter cmd payload

/-- The commands that can answer a request. -/
def IsReply (cmd : UInt8) : Prop :=
  cmd ≠ cmdRecv ∧ cmd ≠ cmdAccept ∧ cmd ≠ cmdRecvFrom ∧ cmd ≠ cmdError

instance (cmd : UInt8) : Decidable (IsReply cmd) :=
  inferInstanceAs (Decidable (_ ∧ _))

-- What the driver's methods wait for.
example : [cmdDialOk, cmdBindOk, cmdInfoOk, cmdHealthOk, cmdHandshakeOk, cmdResolveHostnameOk,
    cmdSetHostnameOk].Forall IsReply := by
  decide

/-- The commands the daemon sends unasked. -/
def IsPush (cmd : UInt8) : Prop :=
  cmd = cmdRecv ∨ cmd = cmdAccept ∨ cmd = cmdRecvFrom ∨ cmd = cmdCloseOk

instance (cmd : UInt8) : Decidable (IsPush cmd) :=
  inferInstanceAs (Decidable (_ ∨ _))

theorem IsPush.ne_error {cmd : UInt8} (h : IsPush cmd) : cmd ≠ cmdError := by
  rcases h with rfl | rfl | rfl | rfl <;> decide

/-! ## What a message does to the waiters -/

section

variable (c : Connection)

theorem waitersOf_set (cmd : UInt8) (q : List ℕ) (k : UInt8) :
    waitersOf { c with waiters := c.waiters.set cmd q } k =
      if k = cmd then q else c.waitersOf k := by
  unfold waitersOf
  split_ifs with hk
  · rw [hk, Dict.get?_set_self]
    rfl
  · rw [Dict.get?_set_of_ne _ _ hk]

@[simp] theorem waiters_settle (fut : ℕ) (outcome : FutureState) :
    (c.settle fut outcome).waiters = c.waiters := by
  unfold settle
  split_ifs <;> rfl

theorem futures_settle_of_done {fut : ℕ} (outcome : FutureState) (h : (c.futures fut).done = true) :
    (c.settle fut outcome).futures = c.futures := by
  rw [settle, if_pos h]

theorem futures_settle_of_pending {fut : ℕ} (outcome : FutureState) (h : c.futures fut = .pending) :
    (c.settle fut outcome).futures = Function.update c.futures fut outcome := by
  rw [settle, h, if_neg (by simp [FutureState.done])]

/-- The first of a deque is taken out and, if it is pending, settled. -/
def settleFirst (cmd : UInt8) (outcome : FutureState) : Connection :=
  match c.waitersOf cmd with
  | [] => c
  | fut :: q => { c with waiters := c.waiters.set cmd q }.settle fut outcome

theorem waitersOf_settleFirst (cmd : UInt8) (outcome : FutureState) (k : UInt8) :
    (c.settleFirst cmd outcome).waitersOf k =
      if k = cmd then (c.waitersOf cmd).tail else c.waitersOf k := by
  unfold settleFirst
  cases hq : c.waitersOf cmd with
  | nil =>
    split_ifs with hk
    · rw [hk, hq, List.tail_nil]
    · rfl
  | cons fut q =>
    simp only
    rw [waitersOf, waiters_settle]
    exact c.waitersOf_set cmd q k

theorem settleFirst_of_nil {cmd : UInt8} (h : c.waitersOf cmd = []) (outcome : FutureState) :
    c.settleFirst cmd outcome = c := by
  rw [settleFirst, h]

theorem futures_settleFirst {cmd : UInt8} {fut : ℕ} {q : List ℕ}
    (h : c.waitersOf cmd = fut :: q) (outcome : FutureState) :
    (c.settleFirst cmd outcome).futures =
      if (c.futures fut).done then c.futures else Function.update c.futures fut outcome := by
  rw [settleFirst, h]
  simp only [settle]
  split_ifs <;> rfl

theorem deliverToWaiter_of_nil {cmd : UInt8} (h : c.waitersOf cmd = []) (payload : Bytes) :
    c.deliverToWaiter cmd payload = c :=
  c.settleFirst_of_nil h (.result payload)

theorem futures_deliverToWaiter {cmd : UInt8} {fut : ℕ} {q : List ℕ}
    (h : c.waitersOf cmd = fut :: q) (payload : Bytes) :
    (c.deliverToWaiter cmd payload).futures =
      if (c.futures fut).done then c.futures
      else Function.update c.futures fut (.result payload) :=
  c.futures_settleFirst h (.result payload)

/-- The deque that an error is taken to. -/
theorem failOldestWaiter_cases (err : Option Bytes) :
    (c.failOldestWaiter err = c ∧ ∀ k, c.waitersOf k = []) ∨
      ∃ cmd fut q, (c.waiters.entries.find? fun e => !e.2.isEmpty) = some (cmd, fut :: q) ∧
        c.waitersOf cmd = fut :: q ∧ c.failOldestWaiter err =
          { c with waiters := c.waiters.set cmd q }.settle fut (.daemonError err) := by
  unfold failOldestWaiter
  cases hfind : c.waiters.entries.find? fun e => !e.2.isEmpty with
  | none =>
    refine Or.inl ⟨rfl, fun k => ?_⟩
    cases hq : c.waiters.get? k with
    | none => rw [waitersOf, hq, Option.getD_none]
    | some q =>
      have hempty := List.find?_eq_none.1 hfind _ (Dict.mem_entries.2 hq)
      rw [waitersOf, hq, Option.getD_some]
      simpa using hempty
  | some e =>
    obtain ⟨cmd, q⟩ := e
    have hne := List.find?_some hfind
    cases q with
    | nil => simp at hne
    | cons fut q =>
      refine Or.inr ⟨cmd, fut, q, rfl, ?_, rfl⟩
      rw [waitersOf, Dict.mem_entries.1 (List.mem_of_find?_eq_some hfind), Option.getD_some]

/-- An error settles the first waiter of its deque, if anybody waits at all. -/
theorem failOldestWaiter_settles (err : Option Bytes) :
    (c.failOldestWaiter err = c ∧ ∀ k, c.waitersOf k = []) ∨
      ∃ cmd fut q, c.firstWaiter? = some fut ∧ c.waitersOf cmd = fut :: q ∧
        c.failOldestWaiter err = c.settleFirst cmd (.daemonError err) := by
  refine (c.failOldestWaiter_cases err).imp_right ?_
  rintro ⟨cmd, fut, q, hfind, hq, hfail⟩
  refine ⟨cmd, fut, q, by rw [firstWaiter?, hfind]; rfl, hq, ?_⟩
  rw [hfail, settleFirst, hq]

@[simp] theorem waiters_receive (connId : ℕ) (item : Option Bytes) :
    (c.receive connId item).waiters = c.waiters := by
  unfold receive
  split <;> rfl

@[simp] theorem futures_receive (connId : ℕ) (item : Option Bytes) :
    (c.receive connId item).futures = c.futures := by
  unfold receive
  split <;> rfl

@[simp] theorem waiters_closeOk (payload : Bytes) : (c.closeOk payload).waiters = c.waiters := by
  unfold closeOk
  split
  · rfl
  · exact c.waiters_receive _ _

@[simp] theorem futures_closeOk (payload : Bytes) : (c.closeOk payload).futures = c.futures := by
  unfold closeOk
  split
  · rfl
  · exact c.futures_receive _ _

/-- Two connections with the same waiters and futures. -/
structure SameRouting (c c' : Connection) : Prop where
  waiters : c.waiters = c'.waiters
  futures : c.futures = c'.futures

theorem sameRouting_deliverToWaiter {c c' : Connection} (h : SameRouting c c') (cmd : UInt8)
    (payload : Bytes) :
    SameRouting (c.deliverToWaiter cmd payload) (c'.deliverToWaiter cmd payload) := by
  have hq : c.waitersOf cmd = c'.waitersOf cmd := by rw [waitersOf, waitersOf, h.waiters]
  unfold deliverToWaiter
  rw [← hq]
  cases c.waitersOf cmd with
  | nil => exact h
  | cons fut q =>
    unfold settle
    simp only [h.waiters, h.futures]
    split_ifs
    · exact ⟨rfl, rfl⟩
    · exact ⟨rfl, rfl⟩

theorem dispatch_error (payload : Bytes) :
    c.dispatch cmdError payload = c.failOldestWaiter (parseError payload) :=
  rfl

/-- A reply goes to the oldest waiter under its command. -/
theorem dispatch_of_isReply {cmd : UInt8} (h : IsReply cmd) (payload : Bytes) :
    SameRouting (c.dispatch cmd payload) (c.deliverToWaiter cmd payload) := by
  obtain ⟨h₁, h₂, h₃, h₄⟩ := h
  simp only [dispatch, h₁, h₂, h₃, h₄, if_false]
  split_ifs with hclose
  · exact sameRouting_deliverToWaiter ⟨c.waiters_closeOk payload, c.futures_closeOk payload⟩ cmd
      payload
  · exact ⟨rfl, rfl⟩

/-- What the daemon sends unasked reaches no waiter, if none waits for a close. -/
theorem dispatch_of_isPush {cmd : UInt8} (h : IsPush cmd) (hclose : cmd = cmdCloseOk →
    c.waitersOf cmdCloseOk = []) (payload : Bytes) : SameRouting (c.dispatch cmd payload) c := by
  by_cases hc : cmd = cmdCloseOk
  · subst hc
    have hnone := sameRouting_deliverToWaiter
      ⟨c.waiters_closeOk payload, c.futures_closeOk payload⟩ cmdCloseOk payload
    rw [c.deliverToWaiter_of_nil (hclose rfl)] at hnone
    exact hnone
  · unfold dispatch
    rcases h with rfl | rfl | rfl | rfl
    · rw [if_pos rfl]
      split
      · exact ⟨rfl, rfl⟩
      · exact ⟨c.waiters_receive _ _, c.futures_receive _ _⟩
    · rw [if_neg (by decide), if_pos rfl]
      split
      · exact ⟨rfl, rfl⟩
      · split
        · exact ⟨rfl, rfl⟩
        · exact ⟨rfl, rfl⟩
    · rw [if_neg (by decide), if_neg (by decide), if_neg (by decide), if_pos rfl]
      split
      · exact ⟨rfl, rfl⟩
      · exact ⟨rfl, rfl⟩
    · exact absurd rfl hc

end

end Connection

end PilotLanggraph

import PilotLanggraph.Connection
import PilotLanggraph.Lib.Machine

/-!
# Streams and listeners

What `dial`, `listen` and `accept` hand out on a connection : a `Stream` reads from the
receive queue of its connection id, a `Listener` takes from the accept queue of its port.
Both queues are filled by the read loop and registered by the coroutine that hands out the
object, some time after the daemon's reply. Each action of `Endpoints` is one message in the
read loop or one stretch of such a coroutine; `step_cases` says what each of them does.
-/

namespace PilotLanggraph

open Ipc

namespace Connection

/-- `_register_recv_queue`, with `q` the new queue. -/
def registerRecvQueue (c : Connection) (connId q : ℕ) : Connection :=
  { c with
    streamRecvQueues := c.streamRecvQueues.set connId q
    pendingRecv := c.pendingRecv.erase connId
    received := Function.update c.received q ((c.pendingRecv.get? connId).getD []) }

/-- The connection id of a message for a stream, with its data, or `none` for the end. -/
def arrival? (cmd : UInt8) (payload : Bytes) : Option (ℕ × Option Bytes) :=
  if cmd = cmdRecv then (parseRecv payload).map fun r => (r.1, some r.2)
  else if cmd = cmdCloseOk then (parseCloseOk payload).map fun connId => (connId, none)
  else none

/-- The connection that a message announces. -/
def accept? (cmd : UInt8) (payload : Bytes) : Option AcceptedConn :=
  if cmd = cmdAccept then parseAccept payload else none

/-- The item goes to its connection id; the end takes the queue out. -/
def arrive (c : Connection) (connId : ℕ) (item : Option Bytes) : Connection :=
  match item with
  | some _ => c.receive connId item
  | none => { c.receive connId none with streamRecvQueues := c.streamRecvQueues.erase connId }

/-- The connection goes to the listener of its port, if there is one. -/
def announce (c : Connection) : Option AcceptedConn → Connection
  | none => c
  | some conn =>
    match c.listenerAcceptQueues.get? conn.localPort with
    | some aq => { c with accepted := put c.accepted aq conn }
    | none => c

/-- Two connections with the same receive queues. -/
structure SameStreams (c c' : Connection) : Prop where
  queues : c.streamRecvQueues = c'.streamRecvQueues
  received : c.received = c'.received
  pending : c.pendingRecv = c'.pendingRecv

/-- Two connections with the same accept queues. -/
structure SameListeners (c c' : Connection) : Prop where
  queues : c.listenerAcceptQueues = c'.listenerAcceptQueues
  accepted : c.accepted = c'.accepted

section

variable (c : Connection)

theorem settle_same (fut : ℕ) (outcome : FutureState) :
    SameStreams (c.settle fut outcome) c ∧ SameListeners (c.settle fut outcome) c := by
  unfold settle
  split_ifs
  · exact ⟨⟨rfl, rfl, rfl⟩, ⟨rfl, rfl⟩⟩
  · exact ⟨⟨rfl, rfl, rfl⟩, ⟨rfl, rfl⟩⟩

theorem futures_settle_done (fut : ℕ) (outcome : FutureState) {f : ℕ}
    (h : (c.futures f).done = true) : (c.settle fut outcome).futures f = c.futures f := by
  unfold settle
  split_ifs with hdone
  · rfl
  · refine Function.update_of_ne ?_ _ _
    rintro rfl
    exact hdone h

/-- Waiters are served without touching a queue. -/
theorem deliverToWaiter_same (cmd : UInt8) (payload : Bytes) :
    SameStreams (c.deliverToWaiter cmd payload) c ∧
      SameListeners (c.deliverToWaiter cmd payload) c := by
  unfold deliverToWaiter
  split
  · exact ⟨⟨rfl, rfl, rfl⟩, ⟨rfl, rfl⟩⟩
  · obtain ⟨⟨h₁, h₂, h₃⟩, ⟨h₄, h₅⟩⟩ := settle_same { c with waiters := c.waiters.set cmd _ } _ _
    exact ⟨⟨h₁, h₂, h₃⟩, ⟨h₄, h₅⟩⟩

theorem failOldestWaiter_same (err : Option Bytes) :
    SameStreams (c.failOldestWaiter err) c ∧ SameListeners (c.failOldestWaiter err) c := by
  unfold failOldestWaiter
  split
  · obtain ⟨⟨h₁, h₂, h₃⟩, ⟨h₄, h₅⟩⟩ := settle_same { c with waiters := c.waiters.set _ _ } _ _
    exact ⟨⟨h₁, h₂, h₃⟩, ⟨h₄, h₅⟩⟩
  · exact ⟨⟨rfl, rfl, rfl⟩, ⟨rfl, rfl⟩⟩

/-- A message without an item for a stream leaves the receive queues alone, -/
theorem dispatch_of_arrival_none {cmd : UInt8} {payload : Bytes}
    (h : arrival? cmd payload = none) : SameStreams (c.dispatch cmd payload) c := by
  unfold dispatch
  unfold arrival? at h
  by_cases hrecv : cmd = cmdRecv
  · rw [if_pos hrecv] at h ⊢
    rw [Option.map_eq_none_iff.1 h]
    exact ⟨rfl, rfl, rfl⟩
  rw [if_neg hrecv] at h ⊢
  by_cases hclose : cmd = cmdCloseOk
  · rw [if_pos hclose] at h
    rw [if_neg (by rw [hclose]; decide), if_pos hclose, closeOk, Option.map_eq_none_iff.1 h]
    exact (c.deliverToWaiter_same cmd payload).1
  rw [if_neg hclose]
  split_ifs
  · split
    · exact ⟨rfl, rfl, rfl⟩
    · split <;> exact ⟨rfl, rfl, rfl⟩
  · split <;> exact ⟨rfl, rfl, rfl⟩
  · exact (c.failOldestWaiter_same _).1
  · exact (c.deliverToWaiter_same cmd payload).1

/-- and one with an item delivers it. -/
theorem dispatch_of_arrival_some {cmd : UInt8} {payload : Bytes} {connId : ℕ}
    {item : Option Bytes} (h : arrival? cmd payload = some (connId, item)) :
    SameStreams (c.dispatch cmd payload) (c.arrive connId item) := by
  unfold dispatch
  unfold arrival? at h
  by_cases hrecv : cmd = cmdRecv
  · rw [if_pos hrecv] at h ⊢
    obtain ⟨r, hr, he⟩ := Option.map_eq_some_iff.1 h
    obtain ⟨rfl, rfl⟩ := Prod.mk.inj he
    rw [hr]
    exact ⟨rfl, rfl, rfl⟩
  rw [if_neg hrecv] at h ⊢
  by_cases hclose : cmd = cmdCloseOk
  · rw [if_pos hclose] at h
    obtain ⟨r, hr, he⟩ := Option.map_eq_some_iff.1 h
    obtain ⟨rfl, rfl⟩ := Prod.mk.inj he
    rw [if_neg (by rw [hclose]; decide), if_pos hclose, closeOk, hr]
    exact (deliverToWaiter_same _ cmd payload).1
  · rw [if_neg hclose] at h
    cases h

theorem receive_sameListeners (connId : ℕ) (item : Option Bytes) :
    SameListeners (c.receive connId item) c := by
  unfold receive
  split <;> exact ⟨rfl, rfl⟩

theorem closeOk_sameListeners (payload : Bytes) : SameListeners (c.closeOk payload) c := by
  unfold closeOk
  split
  · exact ⟨rfl, rfl⟩
  · exact ⟨(c.receive_sameListeners _ none).queues, (c.receive_sameListeners _ none).accepted⟩

theorem futures_deliverToWaiter_done (cmd : UInt8) (payload : Bytes) {f : ℕ}
    (h : (c.futures f).done = true) : (c.deliverToWaiter cmd payload).futures f = c.futures f := by
  unfold deliverToWaiter
  split
  · rfl
  · exact futures_settle_done _ _ _ h

/-- No message changes a future that is done. -/
theorem futures_dispatch_done (cmd : UInt8) (payload : Bytes) {f : ℕ}
    (h : (c.futures f).done = true) : (c.dispatch cmd payload).futures f = c.futures f := by
  unfold dispatch
  split_ifs
  · split
    · rfl
    · rw [futures_receive]
  · split
    · rfl
    · split <;> rfl
  · rw [futures_deliverToWaiter_done _ _ _ (by rwa [futures_closeOk]), futures_closeOk]
  · split <;> rfl
  · unfold failOldestWaiter
    split
    · exact futures_settle_done _ _ _ h
    · rfl
  · exact c.futures_deliverToWaiter_done cmd payload h

/-- A message that announces a connection offers it to the listener of its port; every other
message leaves the accept queues alone. -/
theorem dispatch_sameListeners (cmd : UInt8) (payload : Bytes) :
    SameListeners (c.dispatch cmd payload) (c.announce (accept? cmd payload)) := by
  unfold dispatch accept?
  by_cases haccept : cmd = cmdAccept
  · rw [if_neg (by rw [haccept]; decide), if_pos haccept, if_pos haccept]
    cases parseAccept payload with
    | none => exact ⟨rfl, rfl⟩
    | some conn => exact ⟨rfl, rfl⟩
  rw [if_neg haccept, if_neg haccept]
  split_ifs
  · split
    · exact ⟨rfl, rfl⟩
    · exact c.receive_sameListeners _ _
  · obtain ⟨h₁, h₂⟩ := (deliverToWaiter_same (c.closeOk payload) cmd payload).2
    obtain ⟨h₃, h₄⟩ := c.closeOk_sameListeners payload
    exact ⟨h₁.trans h₃, h₂.trans h₄⟩
  · split <;> exact ⟨rfl, rfl⟩
  · exact (c.failOldestWaiter_same _).2
  · exact (c.deliverToWaiter_same cmd payload).2

end

end Connection

/-- A connection with the streams and listeners on it. -/
structure Endpoints where
  conn : Connection
  /-- The number of queues created so far. -/
  queues : ℕ
  /-- Connection id to the receive queue of its stream. -/
  streams : ℕ → Option ℕ
  /-- What has been read from each receive queue. -/
  read : ℕ → List (Option Bytes)
  /-- The future of a `listen` call to the accept queue of its listener. -/
  listeners : ℕ → Option ℕ
  /-- What has been taken from each accept queue. -/
  taken : ℕ → List AcceptedConn

namespace Endpoints

/-- What can happen. Calls are named by the future of their request. -/
inductive Action
  /-- `_request` queues its future and sends, -/
  | request (fut : ℕ) (cmd : UInt8)
  /-- is cancelled, -/
  | cancel (fut : ℕ)
  /-- or times out and takes its future out of the deque. -/
  | timeout (fut : ℕ) (cmd : UInt8)
  /-- The read loop handles a message. -/
  | message (cmd : UInt8) (payload : Bytes)
  /-- `dial` resumes with its reply, -/
  | dial (fut : ℕ)
  /-- and so does `listen`. -/
  | listen (fut : ℕ)
  /-- `Listener.accept`, on the accept queue `q`. -/
  | accept (q : ℕ)
  /-- `Stream.read`. -/
  | read (connId : ℕ)

/-- A new connection. -/
def init : Endpoints :=
  ⟨.init, 0, fun _ => none, fun _ => [], fun _ => none, fun _ => []⟩

/-- A new stream on the connection id. -/
def openStream (s : Endpoints) (connId : ℕ) : Endpoints :=
  { s with
    conn := s.conn.registerRecvQueue connId s.queues
    queues := s.queues + 1
    streams := Function.update s.streams connId (some s.queues) }

/-- A new listener on the port. -/
def openListener (s : Endpoints) (fut port : ℕ) : Endpoints :=
  { s with
    conn := { s.conn with
      listenerAcceptQueues := s.conn.listenerAcceptQueues.set port s.queues
      accepted := Function.update s.conn.accepted s.queues [] }
    queues := s.queues + 1
    listeners := Function.update s.listeners fut (some s.queues) }

/-- The first connection is taken from an accept queue, -/
def take (s : Endpoints) (q : ℕ) (conn : AcceptedConn) (rest : List AcceptedConn) : Endpoints :=
  { s with
    conn := { s.conn with accepted := Function.update s.conn.accepted q rest }
    taken := Function.update s.taken q (s.taken q ++ [conn]) }

/-- and the first item from a receive queue. -/
def pop (s : Endpoints) (q : ℕ) (item : Option Bytes) (rest : List (Option Bytes)) : Endpoints :=
  { s with
    conn := { s.conn with received := Function.update s.conn.received q rest }
    read := Function.update s.read q (s.read q ++ [item]) }

/-- One action, if it can happen. -/
def step (s : Endpoints) : Action → Option Endpoints
  | .request fut cmd =>
    some { s with conn := { s.conn with
      waiters := s.conn.waiters.set cmd (s.conn.waitersOf cmd ++ [fut]) } }
  | .cancel fut => some { s with conn := s.conn.settle fut .cancelled }
  | .timeout fut cmd =>
    some { s with conn := { s.conn.settle fut .cancelled with
      waiters := s.conn.waiters.set cmd ((s.conn.waitersOf cmd).erase fut) } }
  | .message cmd payload => some { s with conn := s.conn.dispatch cmd payload }
  | .dial fut =>
    match s.conn.futures fut with
    | .result body =>
      match parseDialOk body with
      | some connId => some (s.openStream connId)
      -- A malformed reply raises.
      | none => some s
    | _ => none
  | .listen fut =>
    match s.conn.futures fut, s.listeners fut with
    | .result body, none =>
      match parseBindOk body with
      | some port => some (s.openListener fut port)
      | none => some s
    | _, _ => none
  | .accept q =>
    match s.conn.accepted q with
    | [] => none
    | conn :: rest =>
      some ((s.take q conn rest).openStream conn.connId)
  | .read connId =>
    match s.streams connId with
    | none => none
    | some q =>
      match s.conn.received q with
      | [] => none
      | item :: rest =>
        some (s.pop q item rest)

/-- What an action does where it can be taken. Apart from messages, only the waiters and
futures of the connection change, or a queue is opened or taken from. -/
inductive Step (s : Endpoints) : Action → Endpoints → Prop
  | waiters {a : Action} {c : Connection} (ha : ∀ cmd payload, a ≠ .message cmd payload)
    (hstreams : Connection.SameStreams c s.conn) (hlisteners : Connection.SameListeners c s.conn)
    (hdone : ∀ fut, (s.conn.futures fut).done = true → c.futures fut = s.conn.futures fut) :
    Step s a { s with conn := c }
  | message {cmd : UInt8} {payload : Bytes} :
    Step s (.message cmd payload) { s with conn := s.conn.dispatch cmd payload }
  | dial {fut connId : ℕ} {body : Bytes} (hfut : s.conn.futures fut = .result body)
    (hbody : parseDialOk body = some connId) : Step s (.dial fut) (s.openStream connId)
  | listen {fut port : ℕ} {body : Bytes} (hfut : s.conn.futures fut = .result body)
    (hbody : parseBindOk body = some port) (hnone : s.listeners fut = none) :
    Step s (.listen fut) (s.openListener fut port)
  | accept {q : ℕ} {conn : AcceptedConn} {rest : List AcceptedConn}
    (hq : s.conn.accepted q = conn :: rest) :
    Step s (.accept q) ((s.take q conn rest).openStream conn.connId)
  | read {connId q : ℕ} {item : Option Bytes} {rest : List (Option Bytes)}
    (hstream : s.streams connId = some q) (hq : s.conn.received q = item :: rest) :
    Step s (.read connId) (s.pop q item rest)

theorem step_cases {s s' : Endpoints} {a : Action} (h : s.step a = some s') : Step s a s' := by
  cases a with
  | request fut cmd =>
    obtain rfl := Option.some.inj h
    exact .waiters (by simp) ⟨rfl, rfl, rfl⟩ ⟨rfl, rfl⟩ fun _ _ => rfl
  | cancel fut =>
    obtain rfl := Option.some.inj h
    obtain ⟨h₁, h₂⟩ := s.conn.settle_same fut .cancelled
    exact .waiters (by simp) h₁ h₂ fun _ hdone => s.conn.futures_settle_done _ _ hdone
  | timeout fut cmd =>
    obtain rfl := Option.some.inj h
    obtain ⟨h₁, h₂⟩ := s.conn.settle_same fut .cancelled
    exact .waiters (by simp) ⟨h₁.queues, h₁.received, h₁.pending⟩ ⟨h₂.queues, h₂.accepted⟩
      fun _ hdone => s.conn.futures_settle_done _ _ hdone
  | message cmd payload =>
    obtain rfl := Option.some.inj h
    exact .message
  | dial fut =>
    simp only [step] at h
    split at h
    · rename_i body hfut
      split at h
      · rename_i connId hbody
        obtain rfl := Option.some.inj h
        exact .dial hfut hbody
      · obtain rfl := Option.some.inj h
        exact .waiters (by simp) ⟨rfl, rfl, rfl⟩ ⟨rfl, rfl⟩ fun _ _ => rfl
    · cases h
  | listen fut =>
    simp only [step] at h
    split at h
    · rename_i body hfut hnone
      split at h
      · rename_i port hbody
        obtain rfl := Option.some.inj h
        exact .listen hfut hbody hnone
      · obtain rfl := Option.some.inj h
        exact .waiters (by simp) ⟨rfl, rfl, rfl⟩ ⟨rfl, rfl⟩ fun _ _ => rfl
    · cases h
  | accept q =>
    simp only [step] at h
    split at h
    · cases h
    · rename_i conn rest hq
      obtain rfl := Option.some.inj h
      exact .accept hq
  | read connId =>
    simp only [step] at h
    split at h
    · cases h
    · rename_i q hstream
      split at h
      · cases h
      · rename_i item rest hq
        obtain rfl := Option.some.inj h
        exact .read hstream hq

/-- All that was ever put into a receive queue. -/
def delivered (s : Endpoints) (q : ℕ) : List (Option Bytes) :=
  s.read q ++ s.conn.received q

/-- All that was ever put into an accept queue. -/
def offered (s : Endpoints) (q : ℕ) : List AcceptedConn :=
  s.taken q ++ s.conn.accepted q

/-- The item a message brings for a connection id. -/
def Action.item? (connId : ℕ) : Action → Option (Option Bytes)
  | .message cmd payload =>
    (Connection.arrival? cmd payload).bind fun a => if a.1 = connId then some a.2 else none
  | _ => none

/-- The connection a message announces on a port. -/
def Action.conn? (port : ℕ) : Action → Option AcceptedConn
  | .message cmd payload =>
    (Connection.accept? cmd payload).filter fun conn => conn.localPort = port
  | _ => none

/-- What was sent to a connection id. -/
def sent (connId : ℕ) (as : List Action) : List (Option Bytes) :=
  as.filterMap (Action.item? connId)

/-- The connections announced on a port. -/
def announced (port : ℕ) (as : List Action) : List AcceptedConn :=
  as.filterMap (Action.conn? port)

/-- The connection id whose receive queue an action registers. -/
def registers? (s : Endpoints) : Action → Option ℕ
  | .dial fut =>
    match s.conn.futures fut with
    | .result body => parseDialOk body
    | _ => none
  | .accept q => (s.conn.accepted q).head?.map (·.connId)
  | _ => none

/-- No connection id is registered twice. -/
def Once (s : Endpoints) (a : Action) : Prop :=
  ∀ connId ∈ s.registers? a, s.streams connId = none

instance : DecidableRel Once :=
  fun s a => inferInstanceAs (Decidable (∀ connId ∈ s.registers? a, s.streams connId = none))

theorem sent_append (connId : ℕ) (as : List Action) (a : Action) :
    sent connId (as ++ [a]) = sent connId as ++ (a.item? connId).toList := by
  rw [sent, List.filterMap_append, List.filterMap_cons, List.filterMap_nil]
  cases a.item? connId <;> rfl

theorem item?_of_not_message {a : Action} (h : ∀ cmd payload, a ≠ .message cmd payload)
    (connId : ℕ) : a.item? connId = none := by
  cases a with
  | message cmd payload => exact absurd rfl (h cmd payload)
  | _ => rfl

theorem conn?_of_not_message {a : Action} (h : ∀ cmd payload, a ≠ .message cmd payload)
    (port : ℕ) : a.conn? port = none := by
  cases a with
  | message cmd payload => exact absurd rfl (h cmd payload)
  | _ => rfl

end Endpoints

end PilotLanggraph

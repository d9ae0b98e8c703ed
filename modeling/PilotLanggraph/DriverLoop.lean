import PilotLanggraph.Connection
import PilotLanggraph.Encoders
import PilotLanggraph.Lib.Machine

/-!
# The read loop of the driver

`_read_loop` with all that its operations could raise : reading a number past the end of a
payload, taking from an empty deque, giving an outcome to a future that has one. `dispatch` is
what it comes to, since the guards are where they have to be (`handle_cons`).

Bytes come in any portions, and other coroutines change the connection between two messages.
`survives` follows the loop through the frames that are sent.
-/

namespace PilotLanggraph

open Ipc

namespace DriverLoop

/-- What the operations of the loop raise. -/
inductive Raised
  | structError
  | indexError
  | invalidState
  /-- `PilotConnectionError`. -/
  | invalidLength (length : ℕ)

/-! ## Parsers -/

/-- `struct.unpack_from`, for a format of `size` bytes. -/
def unpackFrom {α : Type} (size : ℕ) (read : Bytes → ℕ → α) (payload : Bytes) (offset : ℕ) :
    Except Raised α :=
  if payload.length < offset + size then .error .structError else .ok (read payload offset)

/-- `Addr.unpack`. -/
def unpackAddr : Bytes → ℕ → Except Raised Addr :=
  unpackFrom 6 Addr.unpack

/-- `parse_datagram`. -/
def parseDatagram (payload : Bytes) : Except Raised (Option Datagram) :=
  if payload.length < addrSize + 4 then .ok none
  else do
    let srcAddr ← unpackAddr payload 0
    let ports ← unpackFrom 4 (fun buf offset => (beShort buf offset, beShort buf (offset + 2)))
      payload addrSize
    return some ⟨srcAddr, ports.1, ports.2, payload.drop (addrSize + 4)⟩

/-- `parse_accept`. -/
def parseAccept (payload : Bytes) : Except Raised (Option AcceptedConn) :=
  if payload.length < 2 + 4 + addrSize + 2 then .ok none
  else do
    let localPort ← unpackFrom 2 beShort payload 0
    let connId ← unpackFrom 4 beInt payload 2
    let remoteAddr ← unpackAddr payload 6
    let remotePort ← unpackFrom 2 beShort payload (6 + addrSize)
    return some ⟨localPort, connId, remoteAddr, remotePort⟩

/-- `parse_recv`. -/
def parseRecv (payload : Bytes) : Except Raised (Option (ℕ × Bytes)) :=
  if payload.length < 4 then .ok none
  else do
    let connId ← unpackFrom 4 beInt payload 0
    return some (connId, payload.drop 4)

/-- `parse_close_ok`. -/
def parseCloseOk (payload : Bytes) : Except Raised (Option ℕ) :=
  if payload.length < 4 then .ok none
  else do
    let connId ← unpackFrom 4 beInt payload 0
    return some connId

theorem unpackFrom_of_le {α : Type} {size offset : ℕ} {payload : Bytes}
    (h : offset + size ≤ payload.length) (read : Bytes → ℕ → α) :
    unpackFrom size read payload offset = .ok (read payload offset) :=
  if_neg (Nat.not_lt.2 h)

/-- The guards on the length are enough. -/
theorem parseDatagram_eq (payload : Bytes) :
    parseDatagram payload = .ok (Ipc.parseDatagram payload) := by
  unfold parseDatagram Ipc.parseDatagram
  split_ifs with hshort
  · rfl
  · have hlen : 10 ≤ payload.length := Nat.not_lt.1 hshort
    rw [unpackAddr, unpackFrom_of_le (by omega), unpackFrom_of_le (by exact hlen)]
    rfl

theorem parseAccept_eq (payload : Bytes) :
    parseAccept payload = .ok (Ipc.parseAccept payload) := by
  unfold parseAccept Ipc.parseAccept
  split_ifs with hshort
  · rfl
  · have hlen : 14 ≤ payload.length := Nat.not_lt.1 hshort
    rw [unpackAddr, unpackFrom_of_le (by omega), unpackFrom_of_le (by omega),
      unpackFrom_of_le (by omega), unpackFrom_of_le (by exact hlen)]
    rfl

theorem parseRecv_eq (payload : Bytes) : parseRecv payload = .ok (Ipc.parseRecv payload) := by
  unfold parseRecv Ipc.parseRecv
  split_ifs with hshort
  · rfl
  · rw [unpackFrom_of_le (by omega)]
    rfl

theorem parseCloseOk_eq (payload : Bytes) :
    parseCloseOk payload = .ok (Ipc.parseCloseOk payload) := by
  unfold parseCloseOk Ipc.parseCloseOk
  split_ifs with hshort
  · rfl
  · rw [unpackFrom_of_le (by omega)]
    rfl

/-! ## Messages -/

/-- `q.popleft()`. -/
def popleft {α : Type} : List α → Except Raised (α × List α)
  | [] => .error .indexError
  | x :: q => .ok (x, q)

/-- `fut.set_result` and `fut.set_exception`. -/
def setOutcome (c : Connection) (fut : ℕ) (outcome : FutureState) : Except Raised Connection :=
  if (c.futures fut).done then .error .invalidState
  else .ok { c with futures := Function.update c.futures fut outcome }

/-- The oldest waiter of a deque that is not empty gets the outcome, unless it is done. -/
def serveOldest (c : Connection) (cmd : UInt8) (q : List ℕ) (outcome : FutureState) :
    Except Raised Connection := do
  let (fut, rest) ← popleft q
  let c := { c with waiters := c.waiters.set cmd rest }
  if (c.futures fut).done then return c else setOutcome c fut outcome

/-- `_deliver_to_waiter`. -/
def deliverToWaiter (c : Connection) (cmd : UInt8) (payload : Bytes) : Except Raised Connection :=
  if c.waitersOf cmd = [] then .ok c else serveOldest c cmd (c.waitersOf cmd) (.result payload)

/-- `_fail_oldest_waiter`, over the deques that are left. -/
def failOldestWaiter (c : Connection) (err : Option Bytes) :
    List (UInt8 × List ℕ) → Except Raised Connection
  | [] => .ok c
  | (cmd, q) :: deques =>
    if q = [] then failOldestWaiter c err deques else serveOldest c cmd q (.daemonError err)

/-- The body of the loop, with a message. The queues have no bound, so that they take whatever
is put. -/
def handle (c : Connection) : Bytes → Except Raised Connection
  | [] => .ok c
  | cmd :: payload =>
    if cmd = cmdRecv then do
      match ← parseRecv payload with
      | none => return c
      | some (connId, data) => return c.receive connId (some data)
    else if cmd = cmdAccept then do
      match ← parseAccept payload with
      | none => return c
      | some conn =>
        match c.listenerAcceptQueues.get? conn.localPort with
        | some aq => return { c with accepted := Connection.put c.accepted aq conn }
        | none => return c
    else if cmd = cmdCloseOk then do
      let c ← match ← parseCloseOk payload with
        | none => pure c
        | some connId => pure { c.receive connId none with
            streamRecvQueues := c.streamRecvQueues.erase connId }
      deliverToWaiter c cmd payload
    else if cmd = cmdRecvFrom then do
      match ← parseDatagram payload with
      | none => return c
      | some dg =>
        let queues := (c.portDgramQueues.get? dg.dstPort).getD []
        return { c with dgrams := queues.foldl (fun qs q => Connection.put qs q dg) c.dgrams }
    else if cmd = cmdError then
      failOldestWaiter c (parseError payload) c.waiters.entries
    else
      deliverToWaiter c cmd payload

section

variable (c : Connection) (cmd : UInt8)

theorem serveOldest_cons (fut : ℕ) (q : List ℕ) (outcome : FutureState) :
    serveOldest c cmd (fut :: q) outcome =
      .ok ({ c with waiters := c.waiters.set cmd q }.settle fut outcome) := by
  have hpop : popleft (fut :: q) = .ok (fut, q) := rfl
  rw [serveOldest, hpop]
  change (if (c.futures fut).done = true then _ else _) = _
  unfold setOutcome Connection.settle
  split_ifs
  · rfl
  · rfl

theorem deliverToWaiter_eq (payload : Bytes) :
    deliverToWaiter c cmd payload = .ok (c.deliverToWaiter cmd payload) := by
  unfold deliverToWaiter Connection.deliverToWaiter
  cases hq : c.waitersOf cmd with
  | nil => rfl
  | cons fut q => rw [if_neg (List.cons_ne_nil fut q), serveOldest_cons]

theorem failOldestWaiter_eq (err : Option Bytes) :
    failOldestWaiter c err c.waiters.entries = .ok (c.failOldestWaiter err) := by
  unfold Connection.failOldestWaiter
  induction c.waiters.entries with
  | nil => rfl
  | cons e deques ih =>
    obtain ⟨cmd, q⟩ := e
    cases q with
    | nil => rwa [failOldestWaiter, if_pos rfl, List.find?_cons_of_neg (by simp)]
    | cons fut q =>
      rw [failOldestWaiter, if_neg (List.cons_ne_nil fut q), serveOldest_cons,
        List.find?_cons_of_pos (by simp)]

/-- No message raises. -/
theorem handle_cons (payload : Bytes) :
    handle c (cmd :: payload) = .ok (c.dispatch cmd payload) := by
  rw [handle, Connection.dispatch]
  split_ifs
  · rw [parseRecv_eq]
    cases Ipc.parseRecv payload <;> rfl
  · rw [parseAccept_eq]
    cases Ipc.parseAccept payload with
    | none => rfl
    | some conn =>
      change (match c.listenerAcceptQueues.get? conn.localPort with | some aq => _ | none => _) = _
      cases hget : c.listenerAcceptQueues.get? conn.localPort <;> simp only [hget] <;> rfl
  · rw [parseCloseOk_eq, Connection.closeOk]
    cases Ipc.parseCloseOk payload with
    | none => exact deliverToWaiter_eq c cmd payload
    | some connId => exact deliverToWaiter_eq _ cmd payload
  · rw [parseDatagram_eq]
    cases Ipc.parseDatagram payload <;> rfl
  · exact failOldestWaiter_eq c _
  · exact deliverToWaiter_eq c cmd payload

end

/-! ## Fields -/

theorem beNat_concat (bytes : Bytes) (b : UInt8) :
    beNat (bytes ++ [b]) = beNat bytes * 256 + b.toNat :=
  List.foldl_append

theorem beNat_lt (bytes : Bytes) : beNat bytes < 256 ^ bytes.length := by
  induction bytes using List.reverseRecOn with
  | nil => exact Nat.one_pos
  | append_singleton bytes b ih =>
    have hb := b.toNat_lt
    rw [beNat_concat, List.length_append, List.length_singleton, Nat.pow_succ]
    omega

theorem ofNat_eq {n : ℕ} {b : UInt8} (h : n % 256 = b.toNat) : UInt8.ofNat n = b := by
  rw [← UInt8.toNat_inj, UInt8.toNat_ofNat', h]

theorem packShort_beNat {bytes : Bytes} (h : bytes.length = 2) :
    packShort (beNat bytes) = bytes := by
  match bytes, h with
  | [a, b], _ =>
    have ha := a.toNat_lt
    have hb := b.toNat_lt
    have hvalue : beNat [a, b] = a.toNat * 256 + b.toNat := by simp [beNat]
    rw [packShort, hvalue, ofNat_eq (b := a) (by omega), ofNat_eq (b := b) (by omega)]

theorem packInt_beNat {bytes : Bytes} (h : bytes.length = 4) : packInt (beNat bytes) = bytes := by
  match bytes, h with
  | [a, b, c, d], _ =>
    have ha := a.toNat_lt
    have hb := b.toNat_lt
    have hc := c.toNat_lt
    have hd := d.toNat_lt
    have hvalue : beNat [a, b, c, d] =
        ((a.toNat * 256 + b.toNat) * 256 + c.toNat) * 256 + d.toNat := by simp [beNat]
    rw [packInt, hvalue, ofNat_eq (b := a) (by omega), ofNat_eq (b := b) (by omega),
      ofNat_eq (b := c) (by omega), ofNat_eq (b := d) (by omega)]

section

variable {payload : Bytes} {offset : ℕ}

theorem length_field {size : ℕ} (h : offset + size ≤ payload.length) :
    ((payload.drop offset).take size).length = size := by
  rw [List.length_take, List.length_drop]
  omega

theorem packShort?_beShort (h : offset + 2 ≤ payload.length) :
    packShort? (beShort payload offset) = some ((payload.drop offset).take 2) := by
  have hlen := length_field h
  have hlt := beNat_lt ((payload.drop offset).take 2)
  rw [hlen] at hlt
  rw [packShort?, beShort, if_pos (by exact hlt), packShort_beNat hlen]

theorem packInt?_beInt (h : offset + 4 ≤ payload.length) :
    packInt? (beInt payload offset) = some ((payload.drop offset).take 4) := by
  have hlen := length_field h
  have hlt := beNat_lt ((payload.drop offset).take 4)
  rw [hlen] at hlt
  rw [packInt?, beInt, if_pos (by exact hlt), packInt_beNat hlen]

theorem pack_unpack (h : offset + 6 ≤ payload.length) :
    (Addr.unpack payload offset).pack = some ((payload.drop offset).take 6) := by
  rw [Addr.pack, Addr.unpack, packShort?_beShort (by omega), packInt?_beInt (by omega)]
  simp only [Option.bind_some, Option.map_some, ← List.drop_drop]
  exact congrArg some List.take_add.symm

end

/-- The fields of a `CMD_RECV`, written again. -/
def encodeRecv (r : ℕ × Bytes) : Option Bytes :=
  (packInt? r.1).map (· ++ r.2)

/-- The fields of a `CMD_ACCEPT`. -/
def encodeAccept (conn : AcceptedConn) : Option Bytes := do
  let localPort ← packShort? conn.localPort
  let connId ← packInt? conn.connId
  let remoteAddr ← conn.remoteAddr.pack
  let remotePort ← packShort? conn.remotePort
  return localPort ++ connId ++ remoteAddr ++ remotePort

/-- The fields of a `CMD_RECV_FROM`. -/
def encodeDatagram (dg : Datagram) : Option Bytes := do
  let srcAddr ← dg.srcAddr.pack
  let srcPort ← packShort? dg.srcPort
  let dstPort ← packShort? dg.dstPort
  return srcAddr ++ srcPort ++ dstPort ++ dg.data

section

variable {payload : Bytes}

/-- A payload that is long enough is its fields. -/
theorem encodeRecv_of_le (h : 4 ≤ payload.length) :
    ∃ r, parseRecv payload = .ok (some r) ∧ encodeRecv r = some payload := by
  refine ⟨_, by rw [parseRecv_eq, Ipc.parseRecv, if_neg (Nat.not_lt.2 h)], ?_⟩
  rw [encodeRecv, packInt?_beInt (by omega), Option.map_some, List.drop_zero,
    List.take_append_drop]

theorem encodeAccept_of_le (h : 14 ≤ payload.length) :
    ∃ conn, parseAccept payload = .ok (some conn) ∧
      encodeAccept conn = some (payload.take 14) := by
  refine ⟨⟨beShort payload 0, beInt payload 2, Addr.unpack payload 6, beShort payload 12⟩, ?_, ?_⟩
  · rw [parseAccept_eq]
    exact congrArg Except.ok (if_neg (Nat.not_lt.2 h))
  · simp only [encodeAccept, packShort?_beShort (show 0 + 2 ≤ payload.length by omega),
      packInt?_beInt (show 2 + 4 ≤ payload.length by omega),
      pack_unpack (show 6 + 6 ≤ payload.length by omega),
      packShort?_beShort (show 12 + 2 ≤ payload.length by omega),
      Option.bind_eq_bind, Option.bind_some, Option.pure_def, List.drop_zero]
    rw [← List.take_add, ← List.take_add, ← List.take_add]

theorem encodeDatagram_of_le (h : 10 ≤ payload.length) :
    ∃ dg, parseDatagram payload = .ok (some dg) ∧ encodeDatagram dg = some payload := by
  refine ⟨⟨Addr.unpack payload 0, beShort payload 6, beShort payload 8, payload.drop 10⟩, ?_, ?_⟩
  · rw [parseDatagram_eq]
    exact congrArg Except.ok (if_neg (Nat.not_lt.2 h))
  · simp only [encodeDatagram, pack_unpack (show 0 + 6 ≤ payload.length by omega),
      packShort?_beShort (show 6 + 2 ≤ payload.length by omega),
      packShort?_beShort (show 8 + 2 ≤ payload.length by omega),
      Option.bind_eq_bind, Option.bind_some, Option.pure_def, List.drop_zero]
    rw [← List.take_add, ← List.take_add, List.take_append_drop]

/-- A payload that is too short changes nothing. -/
theorem handle_of_lt (c : Connection) :
    (payload.length < 4 → handle c (cmdRecv :: payload) = .ok c) ∧
      (payload.length < 14 → handle c (cmdAccept :: payload) = .ok c) ∧
      (payload.length < 10 → handle c (cmdRecvFrom :: payload) = .ok c) := by
  refine ⟨fun h => ?_, fun h => ?_, fun h => ?_⟩
  · rw [handle, if_pos rfl, parseRecv, if_pos h]
    rfl
  · rw [handle, if_neg (by decide), if_pos rfl, parseAccept, if_pos (by exact h)]
    rfl
  · rw [handle, if_neg (by decide), if_neg (by decide), if_neg (by decide), if_pos rfl,
      parseDatagram, if_pos (by exact h)]
    rfl

end

end DriverLoop

/-! ## The loop -/

/-- How the loop ends, without the socket ending. -/
inductive DriverLoop.Ending
  | closed
  | cancelled
  | raised (e : DriverLoop.Raised)

/-- `_read_loop`, on the connection it serves. -/
structure DriverLoop where
  conn : Connection
  /-- `self._closed`. -/
  closed : Bool
  /-- What has come in and is not read yet. -/
  buf : Bytes
  /-- The length that was read, while the loop waits for the message. -/
  length : Option ℕ
  /-- The messages so far. -/
  handled : List Bytes
  ended : Option DriverLoop.Ending

namespace DriverLoop

/-- What can happen. -/
inductive Action
  /-- Bytes come in. -/
  | data (chunk : Bytes)
  /-- Other coroutines change the connection, -/
  | other (c : Connection)
  /-- set its flag, -/
  | close
  /-- or cancel the loop. -/
  | cancel
  /-- `readexactly` has what it waits for. -/
  | resume

/-- The loop starts on a connection. -/
def start (c : Connection) : DriverLoop :=
  ⟨c, false, [], none, [], none⟩

/-- A length was read. -/
def readLength (s : DriverLoop) : DriverLoop :=
  let length := beNat (s.buf.take 4)
  let s := { s with buf := s.buf.drop 4 }
  if length = 0 ∨ maxMessageSize < length then
    { s with ended := some (.raised (.invalidLength length)) }
  else { s with length := some length }

/-- A message was read. The flag is looked at before the next length. -/
def readMessage (s : DriverLoop) (length : ℕ) : DriverLoop :=
  let msg := s.buf.take length
  let s := { s with buf := s.buf.drop length, length := none }
  match handle s.conn msg with
  | .error e => { s with ended := some (.raised e) }
  | .ok c =>
    { s with
      conn := c
      handled := s.handled ++ [msg]
      ended := if s.closed then some .closed else none }

/-- One action, if it can happen. -/
def step (s : DriverLoop) : Action → Option DriverLoop
  | .data chunk => some { s with buf := s.buf ++ chunk }
  | .other c => some { s with conn := c }
  | .close => some { s with closed := true }
  | .cancel =>
    match s.ended with
    | none => some { s with ended := some .cancelled }
    | some _ => none
  | .resume =>
    match s.ended, s.length with
    | some _, _ => none
    | none, none => if s.buf.length < 4 then none else some s.readLength
    | none, some length => if s.buf.length < length then none else some (s.readMessage length)

/-- What has come in. -/
def arrived (as : List Action) : Bytes :=
  as.flatMap fun
    | .data chunk => chunk
    | _ => []

/-- The messages that the loop can be sent. -/
def Sendable (msgs : List Bytes) : Prop :=
  ∀ m ∈ msgs, 1 ≤ m.length ∧ m.length ≤ maxMessageSize

/-- The loop between the frames of `msgs`, with `more` still to come. -/
structure InStep (msgs : List Bytes) (more : Bytes) (s : DriverLoop) : Prop where
  raised : ∀ e, s.ended ≠ some (.raised e)
  frames : s.ended = none → ∃ rest, msgs = s.handled ++ rest ∧
    match s.length with
    | none => s.buf ++ more = framing.wire rest
    | some n =>
      ∃ m rest', rest = m :: rest' ∧ n = m.length ∧ s.buf ++ more = m ++ framing.wire rest'
  handled : s.handled <+: msgs

section

variable {msgs rest : List Bytes} {more : Bytes} {s s' : DriverLoop}

theorem inStep_start (c : Connection) (h : more = framing.wire msgs) :
    InStep msgs more (start c) :=
  ⟨fun _ h => (by cases h), fun _ => ⟨msgs, rfl, h⟩, List.nil_prefix⟩

/-- At a boundary the next four bytes are the length of the next message. -/
theorem readLength_eq (hsend : Sendable rest) (hbuf : s.buf ++ more = framing.wire rest)
    (hlen : 4 ≤ s.buf.length) :
    ∃ m rest', rest = m :: rest' ∧ s.buf.drop 4 ++ more = m ++ framing.wire rest' ∧
      s.readLength = { s with buf := s.buf.drop 4, length := some m.length } := by
  cases rest with
  | nil =>
    have hnil := congrArg List.length hbuf
    rw [List.length_append, LengthPrefix.wire_nil, List.length_nil] at hnil
    omega
  | cons m rest =>
    obtain ⟨hpos, hmax⟩ := hsend m (by simp)
    have hbound : m.length < 0x100000000 := hmax.trans_lt (by decide)
    have hframe : s.buf ++ more = packInt m.length ++ (m ++ framing.wire rest) := by
      rw [hbuf, LengthPrefix.wire_cons]
      exact List.append_assoc ..
    have htake : s.buf.take 4 = packInt m.length :=
      calc s.buf.take 4 = (s.buf ++ more).take 4 := (List.take_append_of_le_length hlen).symm
        _ = packInt m.length := by rw [hframe, List.take_left' (length_packInt _)]
    have hdrop : s.buf.drop 4 ++ more = m ++ framing.wire rest := by
      rw [← List.drop_append_of_le_length hlen, hframe]
      exact List.drop_left' (length_packInt _)
    refine ⟨m, rest, rfl, hdrop, ?_⟩
    have hvalid : ¬(m.length = 0 ∨ maxMessageSize < m.length) := by omega
    rw [readLength, htake, beNat_packInt hbound, if_neg hvalid]

/-- The message is handled by `dispatch`. -/
theorem readMessage_eq {m : Bytes} (hpos : 1 ≤ m.length)
    (hbuf : s.buf ++ more = m ++ framing.wire rest) (hlen : m.length ≤ s.buf.length) :
    ∃ cmd payload, m = cmd :: payload ∧ s.buf.drop m.length ++ more = framing.wire rest ∧
      s.readMessage m.length =
        { s with
          conn := s.conn.dispatch cmd payload
          buf := s.buf.drop m.length
          length := none
          handled := s.handled ++ [m]
          ended := if s.closed then some .closed else none } := by
  have htake : s.buf.take m.length = m :=
    calc s.buf.take m.length = (s.buf ++ more).take m.length :=
          (List.take_append_of_le_length hlen).symm
      _ = m := by rw [hbuf, List.take_left]
  have hdrop : s.buf.drop m.length ++ more = framing.wire rest := by
    rw [← List.drop_append_of_le_length hlen, hbuf, List.drop_left]
  cases m with
  | nil => cases hpos
  | cons cmd payload =>
    refine ⟨cmd, payload, rfl, hdrop, ?_⟩
    rw [readMessage]
    simp only [htake, handle_cons]

/-- The loop goes on over a length, or handles the next message. -/
theorem inStep_resume (hsend : Sendable msgs) (h : InStep msgs more s)
    (hstep : step s .resume = some s') :
    InStep msgs more s' ∧
      (s'.conn = s.conn ∧ s'.handled = s.handled ∨
        ∃ cmd payload rest, msgs = s.handled ++ (cmd :: payload) :: rest ∧
          s'.conn = s.conn.dispatch cmd payload ∧ s'.handled = s.handled ++ [cmd :: payload]) := by
  simp only [step] at hstep
  split at hstep
  · cases hstep
  · rename_i hended hlength
    obtain ⟨rest, hmsgs, hbuf⟩ := h.frames hended
    rw [hlength] at hbuf
    rw [Option.ite_none_left_eq_some] at hstep
    obtain ⟨hlen, hs'⟩ := hstep
    have hrest : Sendable rest := fun m hm => hsend m (hmsgs ▸ List.mem_append_right _ hm)
    obtain ⟨m, rest', rfl, hdrop, heq⟩ := readLength_eq hrest hbuf (Nat.not_lt.1 hlen)
    obtain rfl : { s with buf := s.buf.drop 4, length := some m.length } = s' :=
      heq.symm.trans (Option.some.inj hs')
    exact ⟨⟨h.raised, fun _ => ⟨m :: rest', hmsgs, m, rest', rfl, rfl, hdrop⟩, h.handled⟩,
      .inl ⟨rfl, rfl⟩⟩
  · rename_i n hended hlength
    obtain ⟨rest, hmsgs, hbuf⟩ := h.frames hended
    rw [hlength] at hbuf
    obtain ⟨m, rest', rfl, rfl, hbuf⟩ := hbuf
    rw [Option.ite_none_left_eq_some] at hstep
    obtain ⟨hlen, hs'⟩ := hstep
    have hpos : 1 ≤ m.length := (hsend m (by rw [hmsgs]; simp)).1
    obtain ⟨cmd, payload, rfl, hdrop, heq⟩ := readMessage_eq hpos hbuf (Nat.not_lt.1 hlen)
    rw [heq] at hs'
    obtain rfl := Option.some.inj hs'
    have hnext : msgs = (s.handled ++ [cmd :: payload]) ++ rest' := by
      rw [hmsgs, List.append_assoc, List.singleton_append]
    refine ⟨⟨fun e he => ?_, fun _ => ⟨rest', hnext, hdrop⟩, ⟨rest', hnext.symm⟩⟩,
      .inr ⟨cmd, payload, rest', hmsgs, rfl, rfl⟩⟩
    simp only at he
    split_ifs at he
    cases he

theorem inStep_step {a : Action} (hsend : Sendable msgs)
    (h : InStep msgs (arrived [a] ++ more) s)
    (hstep : s.step a = some s') : InStep msgs more s' := by
  cases a with
  | data chunk =>
    obtain rfl := Option.some.inj hstep
    obtain ⟨hraised, hframes, hhandled⟩ := h
    refine ⟨hraised, fun hended => ?_, hhandled⟩
    obtain ⟨rest, hmsgs, hbuf⟩ := hframes hended
    refine ⟨rest, hmsgs, ?_⟩
    simpa [arrived] using hbuf
  | other c =>
    obtain rfl := Option.some.inj hstep
    obtain ⟨hraised, hframes, hhandled⟩ := h
    exact ⟨hraised, hframes, hhandled⟩
  | close =>
    obtain rfl := Option.some.inj hstep
    obtain ⟨hraised, hframes, hhandled⟩ := h
    exact ⟨hraised, hframes, hhandled⟩
  | cancel =>
    simp only [step] at hstep
    split at hstep
    · obtain rfl := Option.some.inj hstep
      exact ⟨fun e he => (by cases he), fun he => (by cases he), h.handled⟩
    · cases hstep
  | resume => exact (inStep_resume hsend h hstep).1

theorem arrived_append (as bs : List Action) : arrived (as ++ bs) = arrived as ++ arrived bs :=
  List.flatMap_append

theorem inStep_run {c : Connection} {as : List Action} (hsend : Sendable msgs)
    (hrun : Machine.run step (start c) as = some s)
    (hsent : arrived as ++ more = framing.wire msgs) : InStep msgs more s := by
  refine Machine.run_induction (fun as s => ∀ more, arrived as ++ more = framing.wire msgs →
    InStep msgs more s) (fun more h => inStep_start c h) ?_ hrun more hsent
  intro as s a s' _ ih hs more hsent
  refine inStep_step hsend (ih _ ?_) hs
  rw [← List.append_assoc, ← arrived_append, hsent]

/-- A loop that waits for more when all has come has handled all. -/
theorem InStep.handled_eq (h : InStep msgs [] s) (hended : s.ended = none)
    (hstuck : step s .resume = none) : s.handled = msgs := by
  obtain ⟨rest, rfl, hbuf⟩ := h.frames hended
  cases hlength : s.length with
  | none =>
    rw [hlength] at hbuf
    simp only [step, hended, hlength, List.append_nil] at hstuck hbuf
    cases rest with
    | nil => rw [List.append_nil]
    | cons m rest =>
      have hlen : 4 ≤ s.buf.length := by
        rw [hbuf, LengthPrefix.wire_cons, LengthPrefix.frame, List.length_append,
          List.length_append, framing.length_write]
        exact (Nat.le_add_right 4 _).trans (Nat.le_add_right _ _)
      rw [if_neg (Nat.not_lt.2 hlen)] at hstuck
      cases hstuck
  | some n =>
    rw [hlength] at hbuf
    obtain ⟨m, rest', rfl, rfl, hbuf⟩ := hbuf
    rw [List.append_nil] at hbuf
    have hlen : m.length ≤ s.buf.length := by
      rw [hbuf, List.length_append]
      exact Nat.le_add_right ..
    simp only [step, hended, hlength, if_neg (Nat.not_lt.2 hlen)] at hstuck
    cases hstuck

end

/-- The frames of `msgs` come in, in whatever portions, on a connection that others change as
they like. The loop never raises; between two messages it stands at the boundary of a frame;
when it goes on it reads a length, or handles the next message as `dispatch` has it; and when
all has come and it waits for more, it has handled all, unless it was closed. Payloads that are
shorter than their fixed fields change nothing, and those that are not are their fields. -/
theorem read_loop_survives {msgs : List Bytes} {c : Connection} {as : List Action} {more : Bytes}
    {s : DriverLoop} (hsend : Sendable msgs) (hrun : Machine.run step (start c) as = some s)
    (hsent : arrived as ++ more = framing.wire msgs) :
    (∀ e, s.ended ≠ some (.raised e)) ∧
    (s.ended = none → s.length = none →
      ∃ rest, msgs = s.handled ++ rest ∧ s.buf ++ more = framing.wire rest) ∧
    (∀ s', step s .resume = some s' →
      s'.conn = s.conn ∧ s'.handled = s.handled ∨
        ∃ cmd payload rest, msgs = s.handled ++ (cmd :: payload) :: rest ∧
          s'.conn = s.conn.dispatch cmd payload ∧ s'.handled = s.handled ++ [cmd :: payload]) ∧
    (s.ended = none → step s .resume = none → more = [] → s.handled = msgs) ∧
    ∀ payload,
      ((payload.length < 4 → handle s.conn (cmdRecv :: payload) = .ok s.conn) ∧
        (payload.length < 14 → handle s.conn (cmdAccept :: payload) = .ok s.conn) ∧
        (payload.length < 10 → handle s.conn (cmdRecvFrom :: payload) = .ok s.conn)) ∧
      (4 ≤ payload.length →
        ∃ r, parseRecv payload = .ok (some r) ∧ encodeRecv r = some payload) ∧
      (14 ≤ payload.length → ∃ conn, parseAccept payload = .ok (some conn) ∧
        encodeAccept conn = some (payload.take 14)) ∧
      (10 ≤ payload.length →
        ∃ dg, parseDatagram payload = .ok (some dg) ∧ encodeDatagram dg = some payload) := by
  have hstep := inStep_run hsend hrun hsent
  refine ⟨hstep.raised, fun hended hlength => ?_,
    fun s' hs' => (inStep_resume hsend hstep hs').2, fun hended hstuck hmore => ?_,
    fun payload => ⟨handle_of_lt s.conn, encodeRecv_of_le, encodeAccept_of_le,
      encodeDatagram_of_le⟩⟩
  · obtain ⟨rest, hmsgs, hbuf⟩ := hstep.frames hended
    rw [hlength] at hbuf
    exact ⟨rest, hmsgs, hbuf⟩
  · subst hmore
    exact hstep.handled_eq hended hstuck

/-- A `CMD_RECV` that is too short, and one for the connection id 7, cut in the middle. -/
def twoFrames : List Action :=
  [.data [0, 0, 0, 2, 7, 1, 0, 0], .resume, .resume, .data [0, 6, 7, 0, 0, 0, 7, 9], .resume,
    .resume]

theorem read_loop_survives_twoFrames :
    ∃ s, Machine.run step (start .init) twoFrames = some s ∧
      s.handled = [[7, 1], [7, 0, 0, 0, 7, 9]] := by
  obtain ⟨s, hrun, hended, hstuck⟩ : ∃ s, Machine.run step (start .init) twoFrames = some s ∧
      s.ended = none ∧ step s .resume = none := ⟨_, rfl, rfl, rfl⟩
  have hsend : Sendable [[7, 1], [7, 0, 0, 0, 7, 9]] := by
    unfold Sendable
    decide
  exact ⟨s, hrun, (read_loop_survives hsend hrun rfl).2.2.2.1 hended hstuck rfl⟩

end DriverLoop

end PilotLanggraph

import PilotLanggraph.EventStream
import PilotLanggraph.Lib.LengthPrefix
import PilotLanggraph.ReplyBytes

/-!
# What the driver sends

The encoders of `_ipc.py`, and its frames : the payload after its length. A payload begins with
its command. Only `encode_send` makes a `CMD_SEND`, and what it makes of a fragment is within
the limits of a message (`length_encodeSend`).
-/

namespace PilotLanggraph

namespace Ipc

/-! ## Commands -/

def cmdBind : UInt8 := 0x01

def cmdDial : UInt8 := 0x03

def cmdSend : UInt8 := 0x06

def cmdClose : UInt8 := 0x08

def cmdSendTo : UInt8 := 0x0B

def cmdInfo : UInt8 := 0x0D

def cmdHandshake : UInt8 := 0x0F

def cmdResolveHostname : UInt8 := 0x11

def cmdSetHostname : UInt8 := 0x13

def cmdHealth : UInt8 := 0x21

def subHandshakeSend : UInt8 := 0x01

def subHandshakeApprove : UInt8 := 0x02

def subHandshakePending : UInt8 := 0x04

def subHandshakeTrusted : UInt8 := 0x05

/-! ## Encoders -/

/-- `struct.pack(">H", n)`, which refuses a number that does not fit. -/
def packShort? (n : ℕ) : Option Bytes :=
  if n < 0x10000 then some (packShort n) else none

/-- `struct.pack(">I", n)`. -/
def packInt? (n : ℕ) : Option Bytes :=
  if n < 0x100000000 then some (packInt n) else none

/-- `Addr.pack`. -/
def Addr.pack (addr : Addr) : Option Bytes :=
  (packShort? addr.network).bind fun network => (packInt? addr.node).map (network ++ ·)

/-- An address and a port, after the command. -/
def encodeTo (cmd : UInt8) (dst : Addr) (port : ℕ) (data : Bytes) : Option Bytes :=
  dst.pack.bind fun addr => (packShort? port).map fun port => cmd :: (addr ++ port ++ data)

def encodeInfo : Bytes :=
  [cmdInfo]

def encodeHealth : Bytes :=
  [cmdHealth]

def encodeResolveHostname (hostname : String) : Bytes :=
  cmdResolveHostname :: Utf8.encode hostname

def encodeSetHostname (hostname : String) : Bytes :=
  cmdSetHostname :: Utf8.encode hostname

def encodeHandshakeSend (nodeId : ℕ) (justification : String) : Option Bytes :=
  (packInt? nodeId).map fun node =>
    cmdHandshake :: subHandshakeSend :: (node ++ Utf8.encode justification)

def encodeHandshakeApprove (nodeId : ℕ) : Option Bytes :=
  (packInt? nodeId).map fun node => cmdHandshake :: subHandshakeApprove :: node

def encodeHandshakePending : Bytes :=
  [cmdHandshake, subHandshakePending]

def encodeHandshakeTrusted : Bytes :=
  [cmdHandshake, subHandshakeTrusted]

def encodeSendTo (dst : Addr) (port : ℕ) (data : Bytes) : Option Bytes :=
  encodeTo cmdSendTo dst port data

def encodeDial (dst : Addr) (port : ℕ) : Option Bytes :=
  encodeTo cmdDial dst port []

def encodeBind (port : ℕ) : Option Bytes :=
  (packShort? port).map (cmdBind :: ·)

def encodeSend (connId : ℕ) (data : Bytes) : Option Bytes :=
  (packInt? connId).map fun conn => cmdSend :: (conn ++ data)

def encodeClose (connId : ℕ) : Option Bytes :=
  (packInt? connId).map (cmdClose :: ·)

/-- What is sent besides the data of streams : by `_request`, and by `send_to` and
`Stream.close`. -/
inductive Request
  | info
  | health
  | resolveHostname (hostname : String)
  | setHostname (hostname : String)
  | handshakeSend (nodeId : ℕ) (justification : String)
  | handshakeApprove (nodeId : ℕ)
  | trustList
  | pending
  | dial (dst : Addr) (port : ℕ)
  | listen (port : ℕ)
  | sendTo (dst : Addr) (port : ℕ) (data : Bytes)
  | close (connId : ℕ)

/-- Its payload. -/
def Request.encode : Request → Option Bytes
  | .info => some encodeInfo
  | .health => some encodeHealth
  | .resolveHostname hostname => some (encodeResolveHostname hostname)
  | .setHostname hostname => some (encodeSetHostname hostname)
  | .handshakeSend nodeId justification => encodeHandshakeSend nodeId justification
  | .handshakeApprove nodeId => encodeHandshakeApprove nodeId
  | .trustList => some encodeHandshakeTrusted
  | .pending => some encodeHandshakePending
  | .dial dst port => encodeDial dst port
  | .listen port => encodeBind port
  | .sendTo dst port data => encodeSendTo dst port data
  | .close connId => encodeClose connId

/-- Its command. -/
def Request.cmd : Request → UInt8
  | .info => cmdInfo
  | .health => cmdHealth
  | .resolveHostname _ => cmdResolveHostname
  | .setHostname _ => cmdSetHostname
  | .handshakeSend .. | .handshakeApprove _ | .trustList | .pending => cmdHandshake
  | .dial .. => cmdDial
  | .listen _ => cmdBind
  | .sendTo .. => cmdSendTo
  | .close _ => cmdClose

theorem head?_encodeTo {cmd : UInt8} {dst : Addr} {port : ℕ} {data p : Bytes}
    (h : encodeTo cmd dst port data = some p) : p.head? = some cmd := by
  obtain ⟨addr, -, h⟩ := Option.bind_eq_some_iff.1 h
  obtain ⟨port, -, rfl⟩ := Option.map_eq_some_iff.1 h
  rfl

theorem head?_map_cons {packed : Option Bytes} {f : Bytes → Bytes} {cmd : UInt8} {p : Bytes}
    (h : packed.map (fun n => cmd :: f n) = some p) : p.head? = some cmd := by
  obtain ⟨n, -, rfl⟩ := Option.map_eq_some_iff.1 h
  rfl

/-- A payload begins with its command. -/
theorem Request.head?_encode {r : Request} {p : Bytes} (h : r.encode = some p) :
    p.head? = some r.cmd := by
  cases r with
  | info | health | resolveHostname | setHostname | trustList | pending =>
    obtain rfl := Option.some.inj h
    rfl
  | handshakeSend | handshakeApprove | listen | close => exact head?_map_cons h
  | dial | sendTo => exact head?_encodeTo h

theorem Request.cmd_ne_cmdSend (r : Request) : r.cmd ≠ cmdSend := by
  unfold Request.cmd
  cases r <;> dsimp only <;> decide

/-! ## Data of streams -/

/-- A `CMD_SEND`, read as the daemon reads it : the connection id, and the data. -/
def parseSend : Bytes → Option (ℕ × Bytes)
  | [] => none
  | cmd :: body => if cmd = cmdSend then parseRecv body else none

theorem encodeSend_eq_some {connId : ℕ} {data p : Bytes} (h : encodeSend connId data = some p) :
    connId < 0x100000000 ∧ p = cmdSend :: (packInt connId ++ data) := by
  obtain ⟨conn, hconn, rfl⟩ := Option.map_eq_some_iff.1 h
  unfold packInt? at hconn
  split_ifs at hconn with hlt
  exact ⟨hlt, by rw [Option.some.inj hconn]⟩

/-- What `encode_send` writes is read back, -/
theorem parseSend_encodeSend {connId : ℕ} {data p : Bytes} (h : encodeSend connId data = some p) :
    parseSend p = some (connId, data) := by
  obtain ⟨hlt, rfl⟩ := encodeSend_eq_some h
  have hlong : ¬(packInt connId ++ data).length < 4 := by
    rw [List.length_append]
    exact Nat.not_lt.2 (Nat.le_add_right 4 _)
  rw [parseSend, if_pos rfl, parseRecv, if_neg hlong, beInt_packInt hlt]
  rfl

/-- and it has five bytes more than the data. -/
theorem length_encodeSend {connId : ℕ} {data p : Bytes} (h : encodeSend connId data = some p) :
    p.length = data.length + 5 := by
  obtain ⟨-, rfl⟩ := encodeSend_eq_some h
  rw [List.length_cons, List.length_append, Nat.add_comm (packInt connId).length]
  rfl

/-- The other payloads are none. -/
theorem parseSend_request {r : Request} {p : Bytes} (h : r.encode = some p) :
    parseSend p = none := by
  have hhead := Request.head?_encode h
  cases p with
  | nil => rfl
  | cons cmd body =>
    obtain rfl := Option.some.inj hhead
    exact if_neg r.cmd_ne_cmdSend

/-- A fragment is no more than a message can take, and there are no empty ones. -/
theorem length_of_mem_fragments {data fragment : Bytes} (h : fragment ∈ fragments data) :
    0 < fragment.length ∧ fragment.length ≤ maxSendChunk := by
  obtain ⟨k, hk, rfl⟩ := List.mem_map.1 h
  have hlt : k < (data.length + maxSendChunk - 1) / maxSendChunk := List.mem_range.1 hk
  have hk' := (Nat.le_div_iff_mul_le maxSendChunk_pos).1 hlt
  have hpos := maxSendChunk_pos
  rw [Nat.succ_mul] at hk'
  rw [List.length_take, List.length_drop]
  omega

/-! ## Frames -/

theorem length_packInt (n : ℕ) : (packInt n).length = 4 :=
  rfl

theorem beNat_packInt {n : ℕ} (h : n < 0x100000000) : beNat (packInt n) = n := by
  have hread := beInt_packInt h []
  rwa [List.append_nil] at hread

/-- Frames on the socket : four bytes for the length. -/
def framing : LengthPrefix UInt8 where
  width := 4
  width_pos := by decide
  bound := 0x100000000
  write := packInt
  read := beNat
  length_write := length_packInt
  read_write _ h := beNat_packInt h

end Ipc

end PilotLanggraph

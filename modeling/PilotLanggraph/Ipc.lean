import Mathlib.Data.List.Basic

/-!
# The daemon's wire format

Commands and payload parsers of `_ipc.py`. A message is a command byte and a payload;
numbers in a payload are big-endian.
-/

namespace PilotLanggraph

/-- `bytes`. -/
abbrev Bytes := List UInt8

namespace Ipc

/-! ## Sizes -/

/-- `MAX_MESSAGE_SIZE`. -/
def maxMessageSize : ℕ := 1 <<< 20

/-- `MAX_SEND_CHUNK`. -/
def maxSendChunk : ℕ := maxMessageSize - 64

/-! ## Commands -/

def cmdBindOk : UInt8 := 0x02

def cmdDialOk : UInt8 := 0x04

def cmdAccept : UInt8 := 0x05

def cmdRecv : UInt8 := 0x07

def cmdCloseOk : UInt8 := 0x09

def cmdError : UInt8 := 0x0A

def cmdRecvFrom : UInt8 := 0x0C

def cmdInfoOk : UInt8 := 0x0E

def cmdHandshakeOk : UInt8 := 0x10

def cmdResolveHostnameOk : UInt8 := 0x12

def cmdSetHostnameOk : UInt8 := 0x14

def cmdHealthOk : UInt8 := 0x22

/-! ## Payloads -/

/-- A big-endian number. -/
def beNat (bytes : Bytes) : ℕ :=
  bytes.foldl (fun n b => n * 256 + b.toNat) 0

/-- `struct.unpack_from(">H", payload, offset)`. -/
def beShort (payload : Bytes) (offset : ℕ) : ℕ :=
  beNat ((payload.drop offset).take 2)

/-- `struct.unpack_from(">I", payload, offset)`. -/
def beInt (payload : Bytes) (offset : ℕ) : ℕ :=
  beNat ((payload.drop offset).take 4)

/-- `Addr`. -/
structure Addr where
  network : ℕ
  node : ℕ
  deriving DecidableEq

/-- `ADDR_SIZE`. -/
def addrSize : ℕ := 6

/-- `Addr.unpack`. -/
def Addr.unpack (buf : Bytes) (offset : ℕ) : Addr :=
  ⟨beShort buf offset, beInt buf (offset + 2)⟩

/-- `Datagram`. -/
structure Datagram where
  srcAddr : Addr
  srcPort : ℕ
  dstPort : ℕ
  data : Bytes

/-- `parse_datagram`. -/
def parseDatagram (payload : Bytes) : Option Datagram :=
  if payload.length < addrSize + 4 then none
  else some ⟨Addr.unpack payload 0, beShort payload addrSize, beShort payload (addrSize + 2),
    payload.drop (addrSize + 4)⟩

/-- `AcceptedConn`. -/
structure AcceptedConn where
  localPort : ℕ
  connId : ℕ
  remoteAddr : Addr
  remotePort : ℕ

/-- `parse_accept`. -/
def parseAccept (payload : Bytes) : Option AcceptedConn :=
  if payload.length < 2 + 4 + addrSize + 2 then none
  else some ⟨beShort payload 0, beInt payload 2, Addr.unpack payload 6,
    beShort payload (6 + addrSize)⟩

/-- `parse_recv`. -/
def parseRecv (payload : Bytes) : Option (ℕ × Bytes) :=
  if payload.length < 4 then none else some (beInt payload 0, payload.drop 4)

/-- `parse_dial_ok`. -/
def parseDialOk (payload : Bytes) : Option ℕ :=
  if payload.length < 4 then none else some (beInt payload 0)

/-- `parse_bind_ok`. -/
def parseBindOk (payload : Bytes) : Option ℕ :=
  if payload.length < 2 then none else some (beShort payload 0)

/-- `parse_close_ok`. -/
def parseCloseOk (payload : Bytes) : Option ℕ :=
  if payload.length < 4 then none else some (beInt payload 0)

/-- `parse_error` : the text, undecoded. Without one it is `"unknown daemon error"`. -/
def parseError (payload : Bytes) : Option Bytes :=
  if payload.length < 2 then none else some (payload.drop 2)

end Ipc

end PilotLanggraph

import PilotLanggraph.Ipc
import PilotLanggraph.Lib.Framing
import PilotLanggraph.Lib.JsonBytes

/-!
# Reply frames

A worker answers a call with frames : JSON objects, each on a line of its own, the last
one marked `done`. `Frame` has the fields both ends look at, `sendChunk` is what
`WorkerServer._send_chunk` puts on the stream, and `fromReply` the exception
`errors.from_reply` makes of an error frame.
-/

namespace PilotLanggraph

/-! ## Fields -/

/-- A frame as a Python `dict`. -/
abbrev Frame := List (String × Json)

namespace Frame

/-- `frame.get(name)`, `None` being `null`. -/
def get (f : Frame) (name : String) : Json :=
  (Assoc.get? name f).getD .null

/-- `frame["_peer"] = str(peer_addr)`. -/
def withPeer (peer : String) (f : Frame) : Frame :=
  Assoc.set "_peer" (.str peer) f

/-- `if frame.get("done")`. -/
def done (f : Frame) : Bool :=
  (f.get "done").truthy

/-- `frame.get("ok") is False`. -/
def isError (f : Frame) : Prop :=
  f.get "ok" = .bool false

instance (f : Frame) : Decidable f.isError :=
  inferInstanceAs (Decidable (_ = _))

/-- `frame["result"]`, unless it is `None`. -/
def result? (f : Frame) : Option Json :=
  if f.get "result" = .null then none else some (f.get "result")

/-- `{"ok": True, "result": result, "done": done}`. -/
def ofResult (result : Json) (done : Bool) : Frame :=
  [("ok", .bool true), ("result", result), ("done", .bool done)]

/-- `{"ok": False, "error_type": error_type, "error": error, "done": True}`. -/
def ofError (errorType error : String) : Frame :=
  [("ok", .bool false), ("error_type", .str errorType), ("error", .str error),
    ("done", .bool true)]

theorem get_withPeer (peer : String) (f : Frame) {name : String} (h : name ≠ "_peer") :
    (f.withPeer peer).get name = f.get name := by
  rw [get, withPeer, Assoc.get?_set_of_ne _ h, get]

@[simp] theorem done_withPeer (peer : String) (f : Frame) : (f.withPeer peer).done = f.done := by
  rw [done, get_withPeer peer f (by decide), done]

@[simp] theorem isError_withPeer (peer : String) (f : Frame) :
    (f.withPeer peer).isError ↔ f.isError := by
  rw [isError, get_withPeer peer f (by decide), isError]

@[simp] theorem result?_withPeer (peer : String) (f : Frame) :
    (f.withPeer peer).result? = f.result? := by
  rw [result?, get_withPeer peer f (by decide), result?]

/-! ## On the stream -/

/-- The newline byte. -/
def newline : UInt8 := 10

/-- `json.dumps(frame, separators=(",", ":")).encode()`. -/
def text (f : Frame) : Bytes :=
  Json.encode (Json.dumps Json.compact (.obj f))

/-- `WorkerServer._send_chunk`. -/
def sendChunk (f : Frame) : Bytes :=
  f.text ++ [newline]

/-- The bytes of several frames. -/
def wire (fs : List Frame) : Bytes :=
  fs.flatMap sendChunk

theorem wire_eq_join (fs : List Frame) : wire fs = Framing.join newline (fs.map text) := by
  rw [wire, Framing.join, List.flatMap_map]
  rfl

/-- The text of a frame is printable, so it has no newline. -/
theorem newline_not_mem_text (f : Frame) : newline ∉ f.text := by
  intro h
  rw [text, Json.encode_eq_map (Json.isPrint_dumps _ _)] at h
  obtain ⟨c, hc, heq⟩ := List.mem_map.1 h
  have hprint := Json.isPrint_dumps _ _ c hc
  have hbyte := Json.byteOf_toNat hprint
  rw [heq] at hbyte
  have hten : newline.toNat = 10 := rfl
  have := hprint.1
  omega

theorem wire_cons (f : Frame) (fs : List Frame) :
    wire (f :: fs) = f.text ++ newline :: wire fs := by
  simp [wire, sendChunk]

theorem wire_eq_nil {fs : List Frame} : wire fs = [] ↔ fs = [] := by
  cases fs with
  | nil => simp [wire]
  | cons f fs => simp [wire_cons]

/-- What comes before the first newline of a stream is a prefix of the first frame. -/
theorem prefix_of_append_eq_wire {f : Frame} {fs : List Frame} {l r : Bytes} (hl : newline ∉ l)
    (h : l ++ r = wire (f :: fs)) : ∃ a, f.text = l ++ a ∧ r = a ++ newline :: wire fs := by
  rw [wire_cons] at h
  rcases List.append_eq_append_iff.1 h with ⟨a, htext, hr⟩ | ⟨a, hle, ha⟩
  · exact ⟨a, htext, hr⟩
  · cases a with
    | nil => exact ⟨[], by simpa using hle.symm, by simpa using ha.symm⟩
    | cons b a =>
      rw [List.cons_append, List.cons.injEq] at ha
      exact absurd (by rw [hle, ← ha.1]; simp) hl

theorem length_sendChunk (f : Frame) :
    f.sendChunk.length = (Json.dumps Json.compact (.obj f)).length + 1 := by
  rw [sendChunk, text, Json.encode_eq_map (Json.isPrint_dumps _ _), List.length_append,
    List.length_map, List.length_singleton]

theorem loads_text {f : Frame} (hf : (Json.obj f).WF) : Json.loads f.text = .value (.obj f) :=
  Json.loads_encode_dumps Json.compact hf

/-- The bytes say which frames they are. -/
theorem wire_injective {fs gs : List Frame} (hfs : ∀ f ∈ fs, (Json.obj f).WF)
    (hgs : ∀ g ∈ gs, (Json.obj g).WF) (h : wire fs = wire gs) : fs = gs := by
  have hlines : ∀ fs : List Frame, Framing.split newline (wire fs) = (fs.map text, []) := by
    intro fs
    rw [wire_eq_join]
    refine Framing.split_join fun line hline => ?_
    obtain ⟨f, -, rfl⟩ := List.mem_map.1 hline
    exact f.newline_not_mem_text
  have hloads : ∀ {fs : List Frame}, (∀ f ∈ fs, (Json.obj f).WF) →
      (fs.map text).map Json.loads = fs.map fun f => .value (.obj f) := by
    intro fs hfs
    rw [List.map_map]
    exact List.map_congr_left fun f hf => loads_text (hfs f hf)
  have htexts : fs.map text = gs.map text :=
    (Prod.mk.inj ((hlines fs).symm.trans ((congrArg _ h).trans (hlines gs)))).1
  have hvalues := (hloads hfs).symm.trans ((congrArg _ htexts).trans (hloads hgs))
  exact List.map_injective_iff.2 (fun f g hfg => by simpa using hfg) hvalues

theorem loads_of_text_eq_append {f : Frame} (hf : (Json.obj f).WF) {l a : Bytes}
    (h : f.text = l ++ a) (ha : a ≠ []) : Json.loads l = .invalid :=
  Json.loads_of_prefix Json.compact hf h.symm ha

theorem text_ne_nil (f : Frame) : f.text ≠ [] := by
  rw [text, Json.encode_eq_map (Json.isPrint_dumps _ _)]
  intro h
  have hpos := Json.length_dumps_pos Json.compact (.obj f)
  rw [List.map_eq_nil_iff.1 h] at hpos
  exact absurd hpos (by decide)

end Frame

/-! ## Errors -/

/-- The exception classes of `errors.py`. -/
inductive RemoteErrorClass
  | remote
  | handlerNotFound
  | unauthorized
  | handler
  | rateLimited
  deriving DecidableEq

/-- `_ERROR_TYPE_MAP`. -/
def errorTypeMap : List (String × RemoteErrorClass) :=
  [("handler_not_found", .handlerNotFound), ("unauthorized", .unauthorized),
    ("handler_error", .handler), ("rate_limited", .rateLimited), ("remote_error", .remote)]

/-- The exceptions an attempt ends with. -/
inductive Error
  | remote (cls : RemoteErrorClass) (message peer : Json) (node : String)
  /-- `PilotConnectionErrorWrapper`. -/
  | connection (message : String)
  /-- `TimeoutError`. -/
  | timeout (message : String)
  /-- `TypeError`, raised by the interpreter. -/
  | type
  /-- An error of `json.loads` other than `JSONDecodeError`. -/
  | decode
  deriving DecidableEq

/-- `a or b`. -/
def orElse (a b : Json) : Json :=
  if a.truthy then a else b

/-- `errors.from_reply`. An error type that is a list or an object cannot be looked up. -/
def fromReply (reply : Frame) (peer : Json) (node : String) : Error :=
  let message := orElse (reply.get "error") (.str "remote error")
  match orElse (reply.get "error_type") (.str "remote_error") with
  | .arr _ | .obj _ => .type
  | .str errType => .remote ((Assoc.get? errType errorTypeMap).getD .remote) message peer node
  | _ => .remote .remote message peer node

end PilotLanggraph

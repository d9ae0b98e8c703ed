import Mathlib.Data.List.DropRight
import PilotLanggraph.Frames
import PilotLanggraph.Lib.JsonWf

/-!
# The router

`WorkerRouter` (`transport.py`) is the worker of callers that have no stream : it takes requests
from a port with `pilotctl recv`, calls the handler and sends the reply with `pilotctl send`, in
the texts of `wire.py`. Each turn of its loop runs `pilotctl` twice at most, and anything may come
of that. `served_forever` says that what it sends are the replies to what it received : one to a
request, in order, to its sender, with its call id; and that nothing but a turn that is not calm
ends the loop.
-/

namespace PilotLanggraph

/-! ## The texts -/

theorem Frame.wf_get {f : Frame} (h : (Json.obj f).WF) (k : String) : (f.get k).WF := by
  unfold Frame.get
  cases hk : Assoc.get? k f with
  | none => trivial
  | some v => exact Json.wfMembers_iff.1 h.2 _ (Assoc.mem_of_get? hk)

namespace Wire

/-- The text of a message. -/
def blob (f : Frame) : String :=
  .ofList (Json.dumps Json.compact (.obj f))

/-- `encode_request`, before `json.dumps`. -/
def encodeRequest (callId node senderHostname : String) (replyPort : ℤ) (payload : Json)
    (kind : String) : Frame :=
  [("v", .int 1), ("kind", .str kind), ("call_id", .str callId), ("node", .str node),
    ("from", .str senderHostname), ("reply_port", .int replyPort), ("payload", payload)]

/-- `encode_reply`, before `json.dumps`. -/
def encodeReply (callId : Json) (ok : Bool) (result : Json) (error : Option String) : Frame :=
  [("v", .int 1), ("call_id", callId), ("ok", .bool ok), ("result", result),
    ("error", (error.map Json.str).getD .null)]

/-- `decode`. `none` is a `ValueError`. -/
def decode (blob : String) : Option Json :=
  Json.loadsText blob.toList

theorem decode_blob {f : Frame} (h : (Json.obj f).WF) : decode (blob f) = some (.obj f) := by
  rw [decode, blob, String.toList_ofList]
  exact Json.loadsText_dumps Json.compact h

theorem wf_encodeRequest {callId node senderHostname kind : String} {replyPort : ℤ} {payload : Json}
    (h : payload.WF) :
    (Json.obj (encodeRequest callId node senderHostname replyPort payload kind)).WF := by
  simp [encodeRequest, Json.WF, Json.WFMembers, Assoc.keys, h]

theorem wf_encodeReply {callId result : Json} (ok : Bool) (error : Option String)
    (hcallId : callId.WF) (hresult : result.WF) :
    (Json.obj (encodeReply callId ok result error)).WF := by
  cases error <;> simp [encodeReply, Json.WF, Json.WFMembers, Assoc.keys, hcallId, hresult]

end Wire

/-! ## `PilotClient` -/

/-- What the interpreter does with texts : `str`, the white space of `strip`, and the message of a
`JSONDecodeError`. -/
structure TextRuntime where
  str : Json → String
  isSpace : Char → Bool
  decodeError : String → String

/-- `subprocess.run` : what the process wrote, or the exception. -/
inductive PilotctlRun
  | finished (stdout stderr : String)
  | raised (cls : String)

/-- What the client raises : a `PilotError`, or an exception of another class. -/
inductive ClientError
  | pilot (code message hint : Json)
  | other (cls : String)

namespace PilotClient

variable (py : TextRuntime)

/-- `strip`. -/
def strip (s : String) : String :=
  .ofList ((s.toList.dropWhile py.isSpace).rdropWhile py.isSpace)

/-- What is not all white space is not empty then. -/
theorem strip_ne_empty {s : String} (h : ∃ c ∈ s.toList, py.isSpace c = false) :
    strip py s ≠ "" := by
  intro hempty
  obtain ⟨c, hc, hspace⟩ := h
  have hnil : (s.toList.dropWhile py.isSpace).rdropWhile py.isSpace = [] := by
    simpa [strip] using congrArg String.toList hempty
  have hall := List.rdropWhile_eq_nil_iff.1 hnil
  have hdrop : s.toList.dropWhile py.isSpace = [] := by
    by_contra hne
    have hhead := List.head_dropWhile_not py.isSpace hne
    rw [hall _ (List.head_mem hne)] at hhead
    cases hhead
  rw [List.dropWhile_eq_nil_iff.1 hdrop c hc] at hspace
  cases hspace

/-- `_run`. -/
def run : PilotctlRun → Except ClientError Json
  | .raised cls => .error (.other cls)
  | .finished stdout stderr =>
    if strip py stdout = "" then
      .error (.pilot (.str "no_output") (.str (if strip py stderr = "" then
        "pilotctl returned no output" else strip py stderr)) .null)
    else
      match Json.loadsText stdout.toList with
      | none => .error (.pilot (.str "invalid_json")
          (.str ("could not parse pilotctl output: " ++ py.decodeError stdout ++ "\n" ++ stdout))
          .null)
      | some (.obj payload) =>
        if Assoc.get? "status" payload = some (.str "error") then
          .error (.pilot ((Assoc.get? "code" payload).getD (.str "unknown"))
            ((Assoc.get? "message" payload).getD (.str "")) (Frame.get payload "hint"))
        else .ok ((Assoc.get? "data" payload).getD (.obj []))
      | some _ => .error (.other "AttributeError")

/-- `recv`. -/
def recv (p : PilotctlRun) : Except ClientError Json :=
  (run py p).map fun
    | .obj fields => orElse (Frame.get fields "messages") (.arr [])
    | _ => .arr []

/-- `send`. An argument that is no string is a `TypeError`, and one with a null character a
`ValueError`. -/
def send (peer : Json) (port : String) (p : PilotctlRun) : Except ClientError Json :=
  match peer with
  | .str peer =>
    if '\x00' ∈ peer.toList ∨ '\x00' ∈ port.toList then .error (.other "ValueError") else run py p
  | _ => .error (.other "TypeError")

end PilotClient

/-! ## `WorkerRouter` -/

/-- What a handler does, with `encode_reply` on what it returned : an `Exception` of either is one
of the two, with its class and its text, and `fatal` an exception that is no `Exception`. -/
inductive Handled
  | returned (result : Json.Value)
  | raised (cls message : String)
  | fatal (cls : String)

namespace WorkerRouter

/-- A turn of `serve_forever` : the handlers as they are then, and the two runs of `pilotctl`. -/
structure Turn where
  handlers : Dict String (Json → Handled)
  received : PilotctlRun
  sent : PilotctlRun

/-- The arguments of a `pilotctl send`. -/
structure Sent where
  peer : String
  port : String
  data : String
  deriving DecidableEq

variable (py : TextRuntime)

/-- `recv`, and the test for messages. `none` is that there are none. -/
def poll (p : PilotctlRun) : Except ClientError (Option Json) :=
  match PilotClient.recv py p with
  | .error (.pilot code message hint) =>
    match code with
    -- Not hashable, so `in` raises.
    | .arr _ | .obj _ => .error (.other "TypeError")
    | code =>
      if code = .str "timeout" ∨ code = .str "no_messages" then .ok none
      else .error (.pilot code message hint)
  | .error e => .error e
  | .ok msgs => .ok (if msgs.truthy then some msgs else none)

/-- `wire.decode(msgs[0]["data"])`, and what `req.get` needs. `none` is a `ValueError` or a
`KeyError`, and the message is dropped. -/
def request : Json → Except ClientError (Option Frame)
  | .arr (.obj message :: _) =>
    match Assoc.get? "data" message with
    | none => .ok none
    | some (.str data) =>
      match Wire.decode data with
      | none => .ok none
      | some (.obj req) => .ok (some req)
      | some _ => .error (.other "AttributeError")
    | some _ => .error (.other "TypeError")
  | .arr [] => .error (.other "IndexError")
  -- `0` is no key.
  | .obj _ => .ok none
  | _ => .error (.other "TypeError")

/-- The reply to a request. -/
def reply (handlers : Dict String (Json → Handled)) (req : Frame) : Except ClientError Frame :=
  let callId := req.get "call_id"
  let missing := Wire.encodeReply callId false .null
    (some ("no handler for `" ++ py.str (req.get "node") ++ "`"))
  match req.get "node" with
  | .arr _ | .obj _ => .error (.other "TypeError")
  | .str node =>
    match handlers.get? node with
    | none => .ok missing
    | some handler =>
      match handler (req.get "payload") with
      | .returned result => .ok (Wire.encodeReply callId true result.val none)
      | .raised cls message =>
        .ok (Wire.encodeReply callId false .null (some (cls ++ ": " ++ message)))
      | .fatal cls => .error (.other cls)
  | _ => .ok missing

/-- The end of `serve_one`. A `PilotError` of `send` is logged. -/
def ship (t : Turn) (req reply : Frame) : Option Sent × Except ClientError Bool :=
  let port := py.str (req.get "reply_port")
  let sent? := match req.get "from" with
    | .str peer =>
      if '\x00' ∈ peer.toList ∨ '\x00' ∈ port.toList then none
      else some ⟨peer, port, Wire.blob reply⟩
    | _ => none
  match PilotClient.send py (req.get "from") port t.sent with
  | .error (.other cls) => (sent?, .error (.other cls))
  | _ => (sent?, .ok true)

/-- `serve_one`, with what it sends. -/
def serveOne (t : Turn) : Option Sent × Except ClientError Bool :=
  match poll py t.received with
  | .error e => (none, .error e)
  | .ok none => (none, .ok false)
  | .ok (some msgs) =>
    match request msgs with
    | .error e => (none, .error e)
    | .ok none => (none, .ok true)
    | .ok (some req) =>
      match reply py t.handlers req with
      | .error e => (none, .error e)
      | .ok reply => ship py t req reply

/-- `serve_forever` : what it sends, and the exception that ends it. -/
def serveForever : List Turn → List Sent × Option ClientError
  | [] => ([], none)
  | t :: turns =>
    match serveOne py t with
    | (sent?, .error e) => (sent?.toList, some e)
    | (sent?, .ok _) => (sent?.toList ++ (serveForever turns).1, (serveForever turns).2)

/-! ## What it sends -/

/-- The request of a turn. -/
def received? (t : Turn) : Option Frame :=
  match poll py t.received with
  | .ok (some msgs) => (request msgs).toOption.join
  | _ => none

/-- What the handler of a request does with it, where there is one. -/
def handled? (handlers : Dict String (Json → Handled)) (req : Frame) : Option Handled :=
  match req.get "node" with
  | .str node => (handlers.get? node).map (· (req.get "payload"))
  | _ => none

/-- What a reply says of that. -/
def Says (req ans : Frame) : Option Handled → Prop
  | none => ans.get "ok" = .bool false ∧ ans.get "result" = .null ∧
      ans.get "error" = .str ("no handler for `" ++ py.str (req.get "node") ++ "`")
  | some (.returned result) => ans.get "ok" = .bool true ∧ ans.get "result" = result.val ∧
      ans.get "error" = .null
  | some (.raised cls message) => ans.get "ok" = .bool false ∧ ans.get "result" = .null ∧
      ans.get "error" = .str (cls ++ ": " ++ message)
  | some (.fatal _) => False

/-- `ans` is the reply to `req` : it has its call id, and says what the handler did. -/
def Answers (t : Turn) (req ans : Frame) : Prop :=
  ans.get "call_id" = req.get "call_id" ∧ Says py req ans (handled? t.handlers req)

/-- What is sent is the reply to the turn's request, for its sender, on its port. -/
def Answered (t : Turn) (s : Sent) : Prop :=
  ∃ req ans, received? py t = some req ∧ req.get "from" = .str s.peer ∧
    s.port = py.str (req.get "reply_port") ∧ Wire.decode s.data = some (.obj ans) ∧
    Answers py t req ans

theorem wf_request {msgs : Json} {req : Frame} (h : request msgs = .ok (some req)) :
    (Json.obj req).WF := by
  unfold request at h
  split at h
  · split at h
    · cases h
    · split at h
      · cases h
      · rename_i hdecode
        cases h
        exact Json.wf_of_loadsText hdecode
      · cases h
    · cases h
  · cases h
  · cases h
  · cases h

/-- What `encode_reply` gives for a request is its reply, and comes through. -/
theorem answers_of_reply {t : Turn} {req ans : Frame} (hreq : (Json.obj req).WF)
    (h : reply py t.handlers req = .ok ans) : (Json.obj ans).WF ∧ Answers py t req ans := by
  have hcallId := Frame.wf_get hreq "call_id"
  have hmissing : ∀ {ans'}, ans' = Wire.encodeReply (req.get "call_id") false .null
      (some ("no handler for `" ++ py.str (req.get "node") ++ "`")) →
      handled? t.handlers req = none → (Json.obj ans').WF ∧ Answers py t req ans' := by
    rintro _ rfl hnone
    refine ⟨Wire.wf_encodeReply _ _ hcallId trivial, rfl, ?_⟩
    rw [hnone]
    exact ⟨rfl, rfl, rfl⟩
  unfold reply at h
  cases hnode : req.get "node" with
  | arr xs => simp [hnode] at h
  | obj ms => simp [hnode] at h
  | str node =>
    simp only [hnode] at h hmissing
    cases hget : t.handlers.get? node with
    | none =>
      simp only [hget] at h
      exact hmissing (Except.ok.inj h).symm (by simp [handled?, hnode, hget])
    | some handler =>
      have hhandled : handled? t.handlers req = some (handler (req.get "payload")) := by
        simp [handled?, hnode, hget]
      simp only [hget] at h
      cases hdone : handler (req.get "payload") with
      | returned result =>
        rw [hdone] at h hhandled
        cases h
        refine ⟨Wire.wf_encodeReply _ _ hcallId result.wf, rfl, ?_⟩
        rw [hhandled]
        exact ⟨rfl, rfl, rfl⟩
      | raised cls message =>
        rw [hdone] at h hhandled
        cases h
        refine ⟨Wire.wf_encodeReply _ _ hcallId trivial, rfl, ?_⟩
        rw [hhandled]
        exact ⟨rfl, rfl, rfl⟩
      | fatal cls => simp [hdone] at h
  | _ =>
    simp only [hnode] at h hmissing
    exact hmissing (Except.ok.inj h).symm (by simp [handled?, hnode])

/-- Where the reply to a request goes, or the exception before that. -/
theorem ship_cases {t : Turn} {req ans : Frame} (hreq : received? py t = some req)
    (hans : (Json.obj ans).WF) (h : Answers py t req ans) :
    (∃ e, ship py t req ans = (none, .error e)) ∨
      ∃ s r, ship py t req ans = (some s, r) ∧ Answered py t s := by
  unfold ship
  cases hfrom : req.get "from" with
  | str peer =>
    by_cases hnul : '\x00' ∈ peer.toList ∨ '\x00' ∈ (py.str (req.get "reply_port")).toList
    · left
      exact ⟨.other "ValueError", by simp only [PilotClient.send, if_pos hnul]⟩
    · right
      refine ⟨⟨peer, py.str (req.get "reply_port"), Wire.blob ans⟩, ?_⟩
      have hsent : Answered py t ⟨peer, py.str (req.get "reply_port"), Wire.blob ans⟩ :=
        ⟨req, ans, hreq, hfrom, rfl, Wire.decode_blob hans, h⟩
      simp only [PilotClient.send, if_neg hnul]
      split
      · exact ⟨_, rfl, hsent⟩
      · exact ⟨_, rfl, hsent⟩
  | _ =>
    left
    exact ⟨_, rfl⟩

/-- What a turn does : it fails before it sends anything, has no request, or replies to it. -/
theorem serveOne_cases (t : Turn) :
    (∃ e, serveOne py t = (none, .error e)) ∨
      (received? py t = none ∧ ∃ b, serveOne py t = (none, .ok b)) ∨
      ∃ s r, serveOne py t = (some s, r) ∧ Answered py t s := by
  unfold serveOne
  cases hpoll : poll py t.received with
  | error e => exact .inl ⟨e, rfl⟩
  | ok msgs? =>
    cases msgs? with
    | none => exact .inr (.inl ⟨by simp [received?, hpoll], false, rfl⟩)
    | some msgs =>
      simp only
      cases hrequest : request msgs with
      | error e => exact .inl ⟨e, rfl⟩
      | ok req? =>
        cases req? with
        | none =>
          exact .inr (.inl ⟨by simp [received?, hpoll, hrequest, Except.toOption], true, rfl⟩)
        | some req =>
          simp only
          have hreq : received? py t = some req := by
            simp [received?, hpoll, hrequest, Except.toOption]
          cases hreply : reply py t.handlers req with
          | error e => exact .inl ⟨e, rfl⟩
          | ok ans =>
            obtain ⟨hwf, hans⟩ := answers_of_reply py (wf_request hrequest) hreply
            exact (ship_cases py hreq hwf hans).imp_right .inr

/-! ## What ends the loop -/

/-- A turn with nothing in it that the router does not catch. -/
structure Calm (t : Turn) : Prop where
  poll : ∃ msgs?, poll py t.received = .ok msgs? ∧ ∀ msgs, msgs? = some msgs →
    ∃ req?, request msgs = .ok req?
  node : ∀ req, received? py t = some req → (∀ xs, req.get "node" ≠ .arr xs) ∧
    ∀ ms, req.get "node" ≠ .obj ms
  handled : ∀ req cls, received? py t = some req → handled? t.handlers req ≠ some (.fatal cls)
  sender : ∀ req, received? py t = some req → ∃ peer, req.get "from" = .str peer ∧
    '\x00' ∉ peer.toList ∧ '\x00' ∉ (py.str (req.get "reply_port")).toList
  sent : ∃ stdout stderr, t.sent = .finished stdout stderr ∧
    ∀ v, Json.loadsText stdout.toList = some v → ∃ payload, v = .obj payload

theorem reply_ok {t : Turn} {req : Frame} (h : Calm py t) (hreq : received? py t = some req) :
    ∃ ans, reply py t.handlers req = .ok ans := by
  obtain ⟨harr, hobj⟩ := h.node req hreq
  have hfatal := h.handled req
  unfold reply
  cases hnode : req.get "node" with
  | arr xs => exact absurd hnode (harr xs)
  | obj ms => exact absurd hnode (hobj ms)
  | str node =>
    simp only
    cases hget : t.handlers.get? node with
    | none => exact ⟨_, rfl⟩
    | some handler =>
      simp only
      cases hdone : handler (req.get "payload") with
      | fatal cls => exact absurd (by simp [handled?, hnode, hget, hdone]) (hfatal cls hreq)
      | _ => exact ⟨_, rfl⟩
  | _ => exact ⟨_, rfl⟩

/-- What `_run` raises for the output of a process that has finished is a `PilotError`, unless
that output is a value with no `get`. -/
theorem run_finished {stdout stderr : String}
    (h : ∀ v, Json.loadsText stdout.toList = some v → ∃ payload, v = .obj payload) (cls : String) :
    PilotClient.run py (.finished stdout stderr) ≠ .error (.other cls) := by
  by_cases hempty : PilotClient.strip py stdout = ""
  · simp [PilotClient.run, hempty]
  · simp only [PilotClient.run, if_neg hempty]
    cases hloads : Json.loadsText stdout.toList with
    | none => simp
    | some v =>
      obtain ⟨payload, rfl⟩ := h v hloads
      simp only
      split_ifs <;> simp

theorem serveOne_of_calm {t : Turn} (h : Calm py t) :
    ∃ sent? b, serveOne py t = (sent?, .ok b) := by
  obtain ⟨msgs?, hpoll, hmsgs⟩ := h.poll
  unfold serveOne
  rw [hpoll]
  cases msgs? with
  | none => exact ⟨none, false, rfl⟩
  | some msgs =>
    obtain ⟨req?, hrequest⟩ := hmsgs msgs rfl
    simp only [hrequest]
    cases req? with
    | none => exact ⟨none, true, rfl⟩
    | some req =>
      have hreq : received? py t = some req := by
        simp [received?, hpoll, hrequest, Except.toOption]
      obtain ⟨ans, hans⟩ := reply_ok py h hreq
      obtain ⟨peer, hfrom, hpeer, hport⟩ := h.sender req hreq
      obtain ⟨stdout, stderr, hsent, hout⟩ := h.sent
      simp only [hans]
      unfold ship
      simp only [hfrom, PilotClient.send, hpeer, hport, or_self, if_false, hsent]
      split
      · rename_i cls hrun
        exact absurd hrun (run_finished py hout cls)
      · exact ⟨_, true, rfl⟩

/-! ## The loop -/

/-- One reply to each request, in order : what the router sends are the replies to the first
requests it received, to all of them when nothing ended the loop, and calm turns do not end it. -/
theorem served_forever (turns : List Turn) :
    ∃ answered, answered <+: turns.filter (received? py · |>.isSome) ∧
      List.Forall₂ (Answered py) answered (serveForever py turns).1 ∧
      ((serveForever py turns).2 = none →
        answered = turns.filter (received? py · |>.isSome)) ∧
      ((∀ t ∈ turns, Calm py t) → (serveForever py turns).2 = none) := by
  induction turns with
  | nil => exact ⟨[], List.prefix_rfl, .nil, fun _ => rfl, fun _ => rfl⟩
  | cons t turns ih =>
    have hcalm : (∀ u ∈ t :: turns, Calm py u) → ∃ sent? b, serveOne py t = (sent?, .ok b) :=
      fun h => serveOne_of_calm py (h t List.mem_cons_self)
    rw [serveForever]
    rcases serveOne_cases py t with ⟨e, hone⟩ | ⟨hnone, b, hone⟩ | ⟨s, r, hone, hanswered⟩
    · refine ⟨[], List.nil_prefix, ?_⟩
      rw [hone] at hcalm ⊢
      exact ⟨.nil, fun h => by simp at h, fun h => by simpa using hcalm h⟩
    · obtain ⟨answered, hprefix, hreplies, hall, hrest⟩ := ih
      have hfilter : (t :: turns).filter (received? py · |>.isSome) =
          turns.filter (received? py · |>.isSome) :=
        List.filter_cons_of_neg (by simp [hnone])
      rw [hone, hfilter]
      exact ⟨answered, hprefix, hreplies, hall, fun h => hrest fun u hu => h u (.tail _ hu)⟩
    · obtain ⟨answered, hprefix, hreplies, hall, hrest⟩ := ih
      have hfilter : (t :: turns).filter (received? py · |>.isSome) =
          t :: turns.filter (received? py · |>.isSome) := by
        obtain ⟨req, ans, hreq, -⟩ := hanswered
        exact List.filter_cons_of_pos (by simp [hreq])
      rw [hone, hfilter]
      cases r with
      | error e =>
        rw [hone] at hcalm
        exact ⟨[t], by simp, .cons hanswered .nil, fun h => by simp at h,
          fun h => by simpa using hcalm h⟩
      | ok b =>
        exact ⟨t :: answered, List.cons_prefix_cons.2 ⟨rfl, hprefix⟩, .cons hanswered hreplies,
          fun h => congrArg (t :: ·) (hall h), fun h => hrest fun u hu => h u (.tail _ hu)⟩

/-- What `pilotctl recv` prints for a message. -/
def printed (data : String) : String :=
  Wire.blob [("status", .str "ok"),
    ("data", .obj [("messages", .arr [.obj [("data", .str data)]])])]

/-- A request of `encode_request` is received as it was made. -/
theorem received_encodeRequest {t : Turn} {callId node senderHostname kind stderr : String}
    {replyPort : ℤ} (payload : Json.Value) (hspace : py.isSpace '\x7b' = false)
    (h : t.received = .finished (printed (Wire.blob
      (Wire.encodeRequest callId node senderHostname replyPort payload.val kind))) stderr) :
    received? py t =
      some (Wire.encodeRequest callId node senderHostname replyPort payload.val kind) := by
  have hwf : (Json.obj (Wire.encodeRequest callId node senderHostname replyPort payload.val
    kind)).WF := Wire.wf_encodeRequest payload.wf
  generalize Wire.encodeRequest callId node senderHostname replyPort payload.val kind = req at h hwf
  have hloads : ∀ data, Json.loadsText (printed data).toList = some (.obj [("status", .str "ok"),
      ("data", .obj [("messages", .arr [.obj [("data", .str data)]])])]) := fun data =>
    Wire.decode_blob (by simp [Json.WF, Json.WFMembers, Json.WFElems, Assoc.keys])
  have hstrip : PilotClient.strip py (printed (Wire.blob req)) ≠ "" :=
    PilotClient.strip_ne_empty py ⟨'\x7b', by simp [printed, Wire.blob, Json.dumps], hspace⟩
  have hpoll : poll py t.received = .ok (some (.arr [.obj [("data", .str (Wire.blob req))]])) := by
    rw [h, poll, PilotClient.recv]
    simp only [PilotClient.run, if_neg hstrip, hloads]
    rfl
  have hrequest : request (.arr [.obj [("data", .str (Wire.blob req))]]) = .ok (some req) := by
    simp [request, Assoc.get?, Wire.decode_blob hwf]
  simp [received?, hpoll, hrequest, Except.toOption]

/-- An interpreter that writes whole numbers, with one white space. -/
def plainText : TextRuntime where
  str
    | .int n => toString n
    | _ => "None"
  isSpace := (· = ' ')
  decodeError _ := ""

/-- A handler that refuses `1`. -/
def refuseOne : Dict String (Json → Handled) :=
  Dict.empty.set "echo" fun payload =>
    if payload = .int 1 then .raised "ValueError" "one" else .returned ⟨.null, trivial⟩

example : (reply plainText refuseOne
    (Wire.encodeRequest "c1" "echo" "alice" 5001 (.int 1) "invoke")).toOption =
      some (Wire.encodeReply (.str "c1") false .null (some "ValueError: one")) := by
  decide +kernel

end WorkerRouter

end PilotLanggraph

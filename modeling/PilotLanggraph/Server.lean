import PilotLanggraph.Frames
import PilotLanggraph.Lib.Machine
import PilotLanggraph.Registration

/-!
# The worker server

`WorkerServer` as a machine. Its actions are the registry operations and what happens to
the calls in flight, each action one stretch of code between two points where the event
loop can switch tasks. What user code does is open : a middleware may call `next_fn` as
often as it likes, also when its call is over, a handler may return, raise or be cancelled
at any time. `events` lists the user code that has run, for which call and registration.

A call of `_handle_one` reads its request, passes the gates in one stretch (`passGates`) and
drives the handler. `CallPhase` says where it stands; once the gates are passed, the phases
carry the name and the registration that were looked up.
-/

namespace PilotLanggraph

/-! ## Calls -/

/-- The local variables `node` and `reg`, after the gates. -/
structure Dispatch where
  node : String
  /-- The address of the registration. -/
  reg : ℕ
  deriving DecidableEq

/-- Why a call is turned away. -/
inductive Refusal
  | handlerNotFound
  | unauthorized
  | rateLimited
  | busy
  deriving DecidableEq

/-- Which way a call has taken. -/
inductive Branch
  | undecided
  /-- An exception before the dispatch. -/
  | failed
  | refused (why : Refusal)
  | dispatched (d : Dispatch)
  deriving DecidableEq

/-- Where `_drive` is : in the handler's generator, in the middleware chain, or in the
generator the chain returned. -/
inductive Mode
  | fast
  | chain
  | collecting
  deriving DecidableEq

/-- Where `_handle_one` is. -/
inductive CallPhase
  /-- In the read loop. -/
  | reading (buf : Bytes)
  /-- Sending a refusal. -/
  | refusing (why : Refusal)
  /-- Past the gates; `wait_for` has not started the drive. -/
  | ready (d : Dispatch)
  | driving (d : Dispatch) (mode : Mode)
  /-- Sending the last frame of the drive. -/
  | finishing (d : Dispatch)
  /-- Sending the frame of an exception. -/
  | failing (d : Dispatch)
  /-- In the `finally` clause. -/
  | closing (b : Branch)
  | closed (b : Branch)
  deriving DecidableEq

/-- The way a call in this phase has taken. -/
def CallPhase.branch : CallPhase → Branch
  | .reading _ => .undecided
  | .refusing why => .refused why
  | .ready d | .driving d _ | .finishing d | .failing d => .dispatched d
  | .closing b | .closed b => b

/-- A call of `_handle_one`. -/
structure Call where
  /-- `caller_node_id`. -/
  caller : ℕ
  phase : CallPhase
  /-- `idx` of the middleware chain, once it has started. -/
  idx : Option ℕ
  /-- The frames handed to `_send_chunk`. -/
  sent : List Frame

/-- Pieces of user code. -/
inductive UserCode
  | handler (fn : ℕ)
  | middleware (mw : ℕ)
  | inputModel (model : ℕ)
  | outputModel (model : ℕ)
  deriving DecidableEq

/-- A run of user code. -/
structure Event where
  call : ℕ
  reg : ℕ
  code : UserCode
  deriving DecidableEq

/-! ## The server -/

/-- `WorkerServer`, with its calls and the registrations in memory. -/
structure Server where
  /-- `_handlers`. -/
  handlers : Dict String ℕ
  regs : ℕ → Registration
  /-- The number of registrations created so far. -/
  created : ℕ
  /-- `_middleware`. -/
  middleware : List ℕ
  totalCalls : ℕ
  totalErrors : ℕ
  calls : ℕ → Option Call
  events : List Event

/-- What the interpreter provides : `json.loads`, `str` and the two formats of durations. -/
structure Runtime where
  loads : Bytes → Json.Load
  str : Json → String
  /-- `:g`. -/
  formatG : Secs → String
  /-- `str` of an optional duration. -/
  strSecs : Option Secs → String

namespace Server

/-- `_health` and `_handlers`, which every server has. -/
def introspection (id : ℕ) : Registration :=
  .new ⟨id, .plain, some ⟨1, false⟩⟩ {}

/-- `WorkerServer.__init__`. -/
def init (middleware : List ℕ) : Server where
  handlers := (Dict.empty.set "_health" 0).set "_handlers" 1
  regs := introspection
  created := 2
  middleware := middleware
  totalCalls := 0
  totalErrors := 0
  calls := fun _ => none
  events := []

def setReg (s : Server) (id : ℕ) (r : Registration) : Server :=
  { s with regs := Function.update s.regs id r }

def setCall (s : Server) (i : ℕ) (c : Call) : Server :=
  { s with calls := Function.update s.calls i (some c) }

/-- User code runs for the call `i`. -/
def log (s : Server) (i reg : ℕ) (codes : List UserCode) : Server :=
  { s with events := s.events ++ codes.map (⟨i, reg, ·⟩) }

/-! ## The registry -/

/-- `_Registration(fn, ...)`. -/
def create (s : Server) (fn : Handler) (o : Options) : Server :=
  { s.setReg s.created (.new fn o) with created := s.created + 1 }

/-- `self._handlers[name] = reg`. -/
def bind (s : Server) (name : String) (id : ℕ) : Server :=
  { s with handlers := s.handlers.set name id }

/-- `register`. -/
def register (s : Server) (name : String) (fn : Handler) (o : Options) : Server :=
  (s.create fn o).bind name s.created

/-- `register_many`, with functions and registrations. -/
def registerMany (s : Server) (mapping : List (String × (Handler ⊕ ℕ))) : Server :=
  mapping.foldl (fun s entry =>
    match entry.2 with
    | .inl fn => s.register entry.1 fn {}
    | .inr id => s.bind entry.1 id) s

/-- `name.startswith("_")`. -/
def isIntrospection (name : String) : Bool :=
  name.toList.head? = some '_'

/-- `clear_user_handlers`. -/
def clearUserHandlers (s : Server) : Server :=
  { s with handlers := s.handlers.filterKeys isIntrospection }

/-- `authorize`. An unknown name raises `KeyError`. -/
def authorize (s : Server) (name : String) (allow : List ℕ) : Server :=
  match s.handlers.get? name with
  | none => s
  | some id => s.setReg id { s.regs id with allow := some allow }

/-- `use`. -/
def use (s : Server) (mw : ℕ) : Server :=
  { s with middleware := s.middleware ++ [mw] }

/-! ## A call -/

/-- `_send_chunk`, and where the call is while it sends. -/
def send (s : Server) (i : ℕ) (c : Call) (frame : Frame) (phase : CallPhase) : Server :=
  s.setCall i { c with sent := c.sent ++ [frame], phase := phase }

/-- Control reaches the `finally` clause. -/
def leave (s : Server) (i : ℕ) (c : Call) (b : Branch) : Server :=
  s.setCall i { c with phase := .closing b }

/-- `mws`. The list is the server's own, so a later `use` shows in it. -/
def mws (s : Server) (node : String) : List ℕ :=
  if isIntrospection node then [] else s.middleware

/-- The start of `_invoke_handler` : input validation, and the handler unless it fails. -/
def invoked (r : Registration) (valid : Bool) : List UserCode :=
  match r.inputModel with
  | none => [.handler r.fn.id]
  | some model => if valid then [.inputModel model, .handler r.fn.id] else [.inputModel model]

/-- `_next`. -/
def next (s : Server) (i : ℕ) (c : Call) (d : Dispatch) (idx : ℕ) (valid : Bool) : Server :=
  match (s.mws d.node)[idx]? with
  | some mw => (s.setCall i { c with idx := some (idx + 1) }).log i d.reg [.middleware mw]
  | none => s.log i d.reg (invoked (s.regs d.reg) valid)

/-- The start of `_drive`. -/
def startDrive (s : Server) (i : ℕ) (c : Call) (d : Dispatch) (valid : Bool) : Server :=
  if (s.regs d.reg).fn.kind = .asyncGen ∧ s.mws d.node = [] then
    (s.setCall i { c with phase := .driving d .fast }).log i d.reg
      [.handler (s.regs d.reg).fn.id]
  else
    let c := { c with phase := .driving d .chain, idx := some 0 }
    (s.setCall i c).next i c d 0 valid

/-- Past the gates : the semaphore is acquired, and the drive starts, in a task of its own
if there is a timeout. -/
def dispatch (s : Server) (i : ℕ) (c : Call) (d : Dispatch) (valid : Bool) : Server :=
  let s := s.setReg d.reg (s.regs d.reg).acquire
  match (s.regs d.reg).timeoutSecs with
  | some _ => s.setCall i { c with phase := .ready d }
  | none => s.startDrive i c d valid

variable (rt : Runtime)

def notFoundFrame (node : Json) : Frame :=
  .ofError "handler_not_found" ("no handler for `" ++ rt.str node ++ "`")

def unauthorizedFrame (callerNodeId : ℕ) (node : String) : Frame :=
  .ofError "unauthorized" ("unauthorized: caller node_id " ++ toString callerNodeId ++
    " not allowed to invoke `" ++ node ++ "`")

def rateLimitedFrame (r : Registration) (node : String) : Frame :=
  match r.rateLimiter with
  | none => []
  | some l => .ofError "rate_limited" ("rate limit: " ++ toString l.limit ++ "/" ++
      rt.formatG l.windowSecs ++ "s for handler `" ++ node ++ "` per caller")

def busyFrame (r : Registration) (node : String) : Frame :=
  match r.maxConcurrent with
  | none => []
  | some k => .ofError "rate_limited" ("concurrency limit: " ++ toString k ++
      " simultaneous invocations of `" ++ node ++ "` already in flight")

/-- The gates, for the registration that was looked up : access list, rate, semaphore. -/
def passGates (s : Server) (i : ℕ) (c : Call) (d : Dispatch) (now : Secs) (valid : Bool) : Server :=
  let reg := s.regs d.reg
  if reg.authorized c.caller = false then
    s.send i c (unauthorizedFrame c.caller d.node) (.refusing .unauthorized)
  else
    let (reg, allowed) := reg.consume c.caller now
    let s := s.setReg d.reg reg
    if allowed = false then
      s.send i c (rateLimitedFrame rt reg d.node) (.refusing .rateLimited)
    else
      match reg.semaphore with
      | none => s.leave i c .failed
      | some reg =>
        let s := s.setReg d.reg reg
        if reg.locked then s.send i c (busyFrame reg d.node) (.refusing .busy)
        else s.dispatch i c d valid

/-- A parsed request. What is no `dict` has no `get`; a name that cannot be hashed cannot
be looked up. -/
def handleRequest (s : Server) (i : ℕ) (c : Call) (req : Json) (now : Secs) (valid : Bool) :
    Server :=
  match req with
  | .obj fields =>
    match Frame.get fields "node" with
    | .arr _ | .obj _ => s.leave i c .failed
    | .str node =>
      match s.handlers.get? node with
      | some reg => s.passGates rt i c ⟨node, reg⟩ now valid
      | none => s.send i c (notFoundFrame rt (.str node)) (.refusing .handlerNotFound)
    | node => s.send i c (notFoundFrame rt node) (.refusing .handlerNotFound)
  | _ => s.leave i c .failed

/-- A chunk in the read loop; the empty chunk is the end of the stream. -/
def receive (s : Server) (i : ℕ) (c : Call) (buf chunk : Bytes) (now : Secs) (valid : Bool) :
    Server :=
  if chunk = [] then s.leave i c .undecided
  else
    match rt.loads (buf ++ chunk) with
    | .invalid => s.setCall i { c with phase := .reading (buf ++ chunk) }
    | .undecodable => s.leave i c .failed
    | .value req => s.handleRequest rt i c req now valid

/-- The accounting at the end of a dispatch, after the semaphore is released. -/
def settle (s : Server) (reg : ℕ) (failed : Bool) (elapsed : Secs) : Server :=
  let r := (s.regs reg).release
  { s.setReg reg { r with stats := r.stats.record failed elapsed } with
    totalCalls := s.totalCalls + 1
    totalErrors := if failed then s.totalErrors + 1 else s.totalErrors }

/-- An exception leaves the dispatch : it is counted and reported. -/
def report (s : Server) (i : ℕ) (c : Call) (d : Dispatch) (error : String) (elapsed : Secs) :
    Server :=
  (s.settle d.reg true elapsed).send i c (.ofError "handler_error" error) (.failing d)

/-! ## Steps -/

/-- What can happen. `i` is the call, `valid` says whether the input model accepts the
payload, `elapsed` is the time since the dispatch. -/
inductive Action
  | create (fn : Handler) (o : Options)
  | register (name : String) (fn : Handler) (o : Options)
  | registerMany (mapping : List (String × (Handler ⊕ ℕ)))
  | clearUserHandlers
  | authorize (name : String) (allow : List ℕ)
  | use (mw : ℕ)
  /-- `_handle_one` starts on an accepted stream. -/
  | accept (i : ℕ) (peer : Option Ipc.Addr)
  | read (i : ℕ) (chunk : Bytes) (now : Secs) (valid : Bool)
  /-- The task of `wait_for` starts. -/
  | start (i : ℕ) (valid : Bool)
  /-- A middleware calls `next_fn`. -/
  | next (i : ℕ) (valid : Bool)
  /-- The handler returns inside `_invoke_handler`. -/
  | handled (i : ℕ)
  /-- A generator yields a value, -/
  | yield (i : ℕ) (value : Json)
  /-- or is exhausted. -/
  | exhausted (i : ℕ)
  /-- The chain returns a value, -/
  | returned (i : ℕ) (value : Json)
  /-- or a generator. `body` says whether it is one of the handler, or a middleware's own. -/
  | returnedGenerator (i : ℕ) (body : Bool)
  /-- `_drive` is done. -/
  | completed (i : ℕ) (elapsed : Secs)
  /-- An `Exception` reaches `_handle_one`, `error` its name and text. -/
  | raised (i : ℕ) (error : String) (elapsed : Secs)
  /-- `asyncio.TimeoutError` does. -/
  | timedOut (i : ℕ) (elapsed : Secs)
  /-- `json.dumps` rejects a value that was yielded or returned. -/
  | rejected (i : ℕ) (error : String) (elapsed : Secs)
  /-- The task is cancelled during the dispatch. -/
  | cancelled (i : ℕ)
  /-- The frame of a refusal or of an exception is sent. -/
  | sent (i : ℕ)
  /-- A read or such a send raises, or is cancelled. -/
  | aborted (i : ℕ)
  /-- The stream is closed. -/
  | close (i : ℕ)

/-- The call an action belongs to. -/
def Action.call? : Action → Option ℕ
  | .create .. | .register .. | .registerMany _ | .clearUserHandlers | .authorize .. | .use _ =>
    none
  | .accept i _ | .read i .. | .start i _ | .next i _ | .handled i | .yield i _ | .exhausted i
  | .returned i _ | .returnedGenerator i _ | .completed i _ | .raised i .. | .timedOut i _
  | .rejected i .. | .cancelled i | .sent i | .aborted i | .close i => some i

/-- A step of the call `i`, which stands as `c`. -/
def stepCall (s : Server) (i : ℕ) (c : Call) : Action → Option Server
  | .read _ chunk now valid =>
    match c.phase with
    | .reading buf => some (s.receive rt i c buf chunk now valid)
    | _ => none
  | .start _ valid =>
    match c.phase with
    | .ready d => some (s.startDrive i c d valid)
    | _ => none
  | .next _ valid =>
    match c.phase.branch, c.idx with
    | .dispatched d, some idx => some (s.next i c d idx valid)
    | _, _ => none
  | .handled _ =>
    match c.phase.branch, c.idx with
    | .dispatched d, some _ =>
      some (s.log i d.reg ((s.regs d.reg).outputModel.toList.map .outputModel))
    | _, _ => none
  | .yield _ value =>
    match c.phase with
    | .driving d .fast => some (s.send i c (.ofResult value false) (.driving d .fast))
    | .driving d .collecting => some (s.send i c (.ofResult value false) (.driving d .collecting))
    | _ => none
  | .exhausted _ =>
    match c.phase with
    | .driving d .fast | .driving d .collecting =>
      some (s.send i c (.ofResult .null true) (.finishing d))
    | _ => none
  | .returned _ value =>
    match c.phase with
    | .driving d .chain => some (s.send i c (.ofResult value true) (.finishing d))
    | _ => none
  | .returnedGenerator _ body =>
    match c.phase with
    | .driving d .chain =>
      some ((s.setCall i { c with phase := .driving d .collecting }).log i d.reg
        (if body then [.handler (s.regs d.reg).fn.id] else []))
    | _ => none
  | .completed _ elapsed =>
    match c.phase with
    | .finishing d => some ((s.settle d.reg false elapsed).leave i c (.dispatched d))
    | _ => none
  | .raised _ error elapsed =>
    match c.phase with
    | .driving d _ | .finishing d => some (s.report i c d error elapsed)
    | _ => none
  | .timedOut _ elapsed =>
    match c.phase with
    | .ready d | .driving d _ | .finishing d =>
      some (s.report i c d ("timeout after " ++ rt.strSecs (s.regs d.reg).timeoutSecs ++ "s")
        elapsed)
    | _ => none
  | .rejected _ error elapsed =>
    match c.phase with
    | .driving d _ => some (s.report i c d error elapsed)
    | _ => none
  | .cancelled _ =>
    match c.phase with
    | .ready d | .driving d _ | .finishing d =>
      some ((s.setReg d.reg (s.regs d.reg).release).leave i c (.dispatched d))
    | _ => none
  | .sent _ =>
    match c.phase with
    | .refusing why => some (s.leave i c (.refused why))
    | .failing d => some (s.leave i c (.dispatched d))
    | _ => none
  | .aborted _ =>
    match c.phase with
    | .reading _ => some (s.leave i c .undecided)
    | .refusing why => some (s.leave i c (.refused why))
    | .failing d => some (s.leave i c (.dispatched d))
    | _ => none
  | .close _ =>
    match c.phase with
    | .closing b => some (s.setCall i { c with phase := .closed b })
    | _ => none
  | _ => none

/-- One action, if it can happen. -/
def step (s : Server) : Action → Option Server
  | .create fn o => some (s.create fn o)
  | .register name fn o => some (s.register name fn o)
  | .registerMany mapping =>
    if mapping.all fun entry => entry.2.elim (fun _ => true) (· < s.created) then
      some (s.registerMany mapping)
    else none
  | .clearUserHandlers => some s.clearUserHandlers
  | .authorize name allow => some (s.authorize name allow)
  | .use mw => some (s.use mw)
  | .accept i peer =>
    if (s.calls i).isSome then none
    else some (s.setCall i ⟨(peer.map Ipc.Addr.node).getD 0, .reading [], none, []⟩)
  | a => a.call?.bind fun i => (s.calls i).bind fun c => s.stepCall rt i c a

end Server

end PilotLanggraph

import Mathlib.Algebra.Order.Ring.Rat
import PilotLanggraph.Lib.Dict

/-!
# Registrations

What a worker keeps for a registered handler : `_Registration` with its access list, its
rate limiter, its semaphore and its statistics. Registrations are objects that several
names can share, so the server refers to them by an address.
-/

namespace PilotLanggraph

/-- Clock readings and durations, in seconds. -/
abbrev Secs := ℚ

/-! ## Statistics -/

/-- `_Stats`. -/
structure Stats where
  calls : ℕ
  errors : ℕ
  /-- The newest is last. -/
  latenciesMs : List ℚ
  deriving DecidableEq

namespace Stats

/-- `_Stats()`. -/
def init : Stats :=
  ⟨0, 0, []⟩

/-- `maxlen` of the latencies. -/
def maxLatencies : ℕ := 256

/-- One more call, and its latency. A full deque drops its oldest entry. -/
def record (st : Stats) (failed : Bool) (elapsed : Secs) : Stats where
  calls := st.calls + 1
  errors := if failed then st.errors + 1 else st.errors
  latenciesMs :=
    let all := st.latenciesMs ++ [elapsed * 1000]
    all.drop (all.length - maxLatencies)

end Stats

/-! ## The rate limiter -/

/-- `_RateLimiter`. -/
structure RateLimiter where
  limit : ℤ
  windowSecs : Secs
  /-- The timestamps of each caller, oldest first. -/
  windows : Dict ℕ (List Secs)

/-- `_RateLimiter.consume`. -/
def RateLimiter.consume (l : RateLimiter) (callerNodeId : ℕ) (now : Secs) : RateLimiter × Bool :=
  let cutoff := now - l.windowSecs
  let window := ((l.windows.get? callerNodeId).getD []).dropWhile (· < cutoff)
  if l.limit ≤ window.length then ({ l with windows := l.windows.set callerNodeId window }, false)
  else ({ l with windows := l.windows.set callerNodeId (window ++ [now]) }, true)

/-! ## Handlers -/

/-- What `inspect` says about a function. -/
inductive FnKind
  | plain
  | coroutine
  | asyncGen
  deriving DecidableEq

/-- The positional parameters of a function. -/
structure Signature where
  positional : ℕ
  varPositional : Bool
  deriving DecidableEq

/-- A handler function. `signature` is missing where `inspect.signature` raises. -/
structure Handler where
  id : ℕ
  kind : FnKind
  signature : Option Signature
  deriving DecidableEq

/-- `_wants_context`. -/
def Handler.wantsContext (fn : Handler) : Bool :=
  match fn.signature with
  | none => false
  | some sig => 2 ≤ sig.positional || sig.varPositional

/-! ## Registrations -/

/-- The keyword arguments of `register` and `pilot_handler`. Models are named. -/
structure Options where
  allow : Option (List ℕ) := none
  timeoutSecs : Option Secs := none
  ratePerCaller : Option ℤ := none
  rateWindowSecs : Secs := 60
  maxConcurrent : Option ℤ := none
  inputModel : Option ℕ := none
  outputModel : Option ℕ := none

/-- `_Registration`. -/
structure Registration where
  fn : Handler
  /-- `None` is open to every caller. -/
  allow : Option (List ℕ)
  stats : Stats
  wantsCtx : Bool
  timeoutSecs : Option Secs
  rateLimiter : Option RateLimiter
  maxConcurrent : Option ℤ
  /-- The value of the semaphore, once there is one. -/
  semaphoreValue : Option ℕ
  inputModel : Option ℕ
  outputModel : Option ℕ

namespace Registration

/-- `_Registration.__init__`. A rate of zero is no rate. -/
def new (fn : Handler) (o : Options) : Registration where
  fn := fn
  allow := o.allow
  stats := .init
  wantsCtx := fn.wantsContext
  timeoutSecs := o.timeoutSecs
  rateLimiter := (o.ratePerCaller.filter (· ≠ 0)).map (⟨·, o.rateWindowSecs, .empty⟩)
  maxConcurrent := o.maxConcurrent
  semaphoreValue := none
  inputModel := o.inputModel
  outputModel := o.outputModel

/-- `_Registration.authorized`. -/
def authorized (r : Registration) (callerNodeId : ℕ) : Bool :=
  match r.allow with
  | none => true
  | some allow => callerNodeId ∈ allow

/-- The rate gate : without a limiter every call passes. -/
def consume (r : Registration) (callerNodeId : ℕ) (now : Secs) : Registration × Bool :=
  match r.rateLimiter with
  | none => (r, true)
  | some l =>
    ({ r with rateLimiter := some (l.consume callerNodeId now).1 }, (l.consume callerNodeId now).2)

/-- `_Registration.semaphore` : the registration with its semaphore, if one is configured.
`asyncio.Semaphore` refuses a negative value. -/
def semaphore (r : Registration) : Option Registration :=
  match r.maxConcurrent, r.semaphoreValue with
  | none, _ => some r
  | some _, some _ => some r
  | some k, none => if k < 0 then none else some { r with semaphoreValue := some k.toNat }

/-- `sem is not None and sem.locked()`. Nobody ever waits for a semaphore, since a locked
one is not acquired. -/
def locked (r : Registration) : Bool :=
  r.maxConcurrent.isSome && r.semaphoreValue = some 0

/-- `sem.acquire()`, of a semaphore that is not locked. -/
def acquire (r : Registration) : Registration :=
  { r with semaphoreValue := r.semaphoreValue.map (· - 1) }

/-- `sem.release()`. -/
def release (r : Registration) : Registration :=
  { r with semaphoreValue := r.semaphoreValue.map (· + 1) }

/-- The caller is on the list, or there is none. -/
theorem authorized_iff (r : Registration) (callerNodeId : ℕ) :
    r.authorized callerNodeId = true ↔
      r.allow = none ∨ ∃ allow, r.allow = some allow ∧ callerNodeId ∈ allow := by
  cases h : r.allow <;> simp [authorized, h]

end Registration

end PilotLanggraph

import Mathlib.Data.Set.Card
import PilotLanggraph.AccessControl

/-!
# What a call does to the books

The registrations, the names they are bound to and the totals are the `Books` of a worker.
`CallStep` lists what each action of a call does to the call and to the books; whatever holds
of all books of a run is proved by going through it. The gates of a registration are one
function of the caller and the clock (`Registration.gate`).
-/

namespace PilotLanggraph

/-! ## The gates of a registration -/

/-- What the gates say. A semaphore that cannot be made raises. -/
inductive Gate
  | refused (why : Refusal)
  | raises
  | admitted
  deriving DecidableEq

namespace Registration

/-- The gates : access list, rate, semaphore. A call that is let in has acquired it. -/
def gate (r : Registration) (callerNodeId : ℕ) (now : Secs) : Registration × Gate :=
  if r.authorized callerNodeId = false then (r, .refused .unauthorized)
  else if (r.consume callerNodeId now).2 = false then
    ((r.consume callerNodeId now).1, .refused .rateLimited)
  else
    match (r.consume callerNodeId now).1.semaphore with
    | none => ((r.consume callerNodeId now).1, .raises)
    | some r => if r.locked then (r, .refused .busy) else (r.acquire, .admitted)

section

variable {r reg : Registration} {callerNodeId : ℕ} {now : Secs}

theorem consume_of_none (h : r.rateLimiter = none) (callerNodeId : ℕ) (now : Secs) :
    r.consume callerNodeId now = (r, true) := by
  rw [consume, h]

theorem consume_of_some {l : RateLimiter} (h : r.rateLimiter = some l) (callerNodeId : ℕ)
    (now : Secs) :
    r.consume callerNodeId now =
      ({ r with rateLimiter := some (l.consume callerNodeId now).1 },
        (l.consume callerNodeId now).2) := by
  rw [consume, h]

theorem consume_eq (r : Registration) (callerNodeId : ℕ) (now : Secs) :
    ∃ l, (r.consume callerNodeId now).1 = { r with rateLimiter := l } := by
  unfold consume
  split
  · exact ⟨_, rfl⟩
  · exact ⟨_, rfl⟩

theorem semaphore_eq (h : r.semaphore = some reg) : ∃ v, reg = { r with semaphoreValue := v } := by
  unfold semaphore at h
  split at h
  · cases h
    exact ⟨_, rfl⟩
  · cases h
    exact ⟨_, rfl⟩
  · split_ifs at h
    cases h
    exact ⟨_, rfl⟩

/-- The gates touch the rate windows and the semaphore, nothing else. -/
theorem gate_eq (r : Registration) (callerNodeId : ℕ) (now : Secs) :
    ∃ l v, (r.gate callerNodeId now).1 = { r with rateLimiter := l, semaphoreValue := v } := by
  obtain ⟨l, hl⟩ := r.consume_eq callerNodeId now
  unfold gate
  split_ifs
  · exact ⟨_, _, rfl⟩
  · exact ⟨l, _, hl⟩
  · cases hsem : (r.consume callerNodeId now).1.semaphore with
    | none => exact ⟨l, _, hl⟩
    | some reg =>
      obtain ⟨v, rfl⟩ := semaphore_eq hsem
      simp only [hl]
      split_ifs
      · exact ⟨l, v, rfl⟩
      · exact ⟨l, _, rfl⟩

@[simp] theorem maxConcurrent_consume :
    (r.consume callerNodeId now).1.maxConcurrent = r.maxConcurrent := by
  obtain ⟨l, hl⟩ := r.consume_eq callerNodeId now
  rw [hl]

@[simp] theorem semaphoreValue_consume :
    (r.consume callerNodeId now).1.semaphoreValue = r.semaphoreValue := by
  obtain ⟨l, hl⟩ := r.consume_eq callerNodeId now
  rw [hl]

@[simp] theorem maxConcurrent_gate :
    (r.gate callerNodeId now).1.maxConcurrent = r.maxConcurrent := by
  obtain ⟨l, v, h⟩ := r.gate_eq callerNodeId now
  rw [h]

theorem stats_gate (r : Registration) (callerNodeId : ℕ) (now : Secs) :
    (r.gate callerNodeId now).1.stats = r.stats := by
  obtain ⟨l, v, h⟩ := r.gate_eq callerNodeId now
  rw [h]

end

end Registration

/-! ## Books -/

/-- The part of a server that its calls share. -/
structure Books where
  handlers : Dict String ℕ
  regs : ℕ → Registration
  created : ℕ
  middleware : List ℕ
  totalCalls : ℕ
  totalErrors : ℕ

namespace Books

def setReg (b : Books) (id : ℕ) (r : Registration) : Books :=
  { b with regs := Function.update b.regs id r }

/-- The end of a dispatch. -/
def settle (b : Books) (id : ℕ) (failed : Bool) (elapsed : Secs) : Books :=
  { b.setReg id { (b.regs id).release with
      stats := (b.regs id).stats.record failed elapsed } with
    totalCalls := b.totalCalls + 1
    totalErrors := if failed then b.totalErrors + 1 else b.totalErrors }

end Books

/-- What operations on the registry do to the books : registrations are created, bound,
unbound and given access lists. -/
structure Books.Reregistered (b b' : Books) : Prop where
  created : b.created ≤ b'.created
  regs : ∀ id, (∃ allow, b'.regs id = { b.regs id with allow := allow }) ∨
    b.created ≤ id ∧ id < b'.created ∧ ∃ fn o, b'.regs id = .new fn o
  bound : ∀ {name id}, b'.handlers.get? name = some id →
    b.handlers.get? name = some id ∨ id < b'.created
  totalCalls : b'.totalCalls = b.totalCalls
  totalErrors : b'.totalErrors = b.totalErrors

/-- The registration whose handler chain the call is executing. -/
def CallPhase.running? : CallPhase → Option ℕ
  | .ready d | .driving d _ | .finishing d => some d.reg
  | _ => none

namespace Server

def books (s : Server) : Books :=
  ⟨s.handlers, s.regs, s.created, s.middleware, s.totalCalls, s.totalErrors⟩

/-- The frame of a refusal. -/
def refusalFrame (rt : Runtime) (r : Registration) (callerNodeId : ℕ) (node : String) :
    Refusal → Frame
  | .handlerNotFound => notFoundFrame rt (.str node)
  | .unauthorized => unauthorizedFrame callerNodeId node
  | .rateLimited => rateLimitedFrame rt r node
  | .busy => busyFrame r node

/-- The drive of a call that has acquired the semaphore. -/
def launch (s : Server) (i : ℕ) (c : Call) (d : Dispatch) (valid : Bool) : Server :=
  match (s.regs d.reg).timeoutSecs with
  | some _ => s.setCall i { c with phase := .ready d }
  | none => s.startDrive i c d valid

/-- What follows from the verdict of the gates. -/
def enter (rt : Runtime) (s : Server) (i : ℕ) (c : Call) (d : Dispatch) (valid : Bool) :
    Gate → Server
  | .refused why =>
    s.send i c (refusalFrame rt (s.regs d.reg) c.caller d.node why) (.refusing why)
  | .raises => s.leave i c .failed
  | .admitted => s.launch i c d valid

theorem dispatch_eq (s : Server) (i : ℕ) (c : Call) (d : Dispatch) (valid : Bool) :
    s.dispatch i c d valid = (s.setReg d.reg (s.regs d.reg).acquire).launch i c d valid :=
  rfl

theorem setReg_setReg (s : Server) (id : ℕ) (r r' : Registration) :
    (s.setReg id r).setReg id r' = s.setReg id r' := by
  rw [setReg, setReg, setReg, Function.update_idem]

theorem setReg_self (s : Server) (id : ℕ) : s.setReg id (s.regs id) = s := by
  rw [setReg, Function.update_eq_self]

@[simp] theorem regs_setReg_self (s : Server) (id : ℕ) (r : Registration) :
    (s.setReg id r).regs id = r :=
  Function.update_self ..

/-- The gates of the server are those of the registration. -/
theorem passGates_eq (rt : Runtime) (s : Server) (i : ℕ) (c : Call) (d : Dispatch) (now : Secs)
    (valid : Bool) :
    s.passGates rt i c d now valid =
      (s.setReg d.reg ((s.regs d.reg).gate c.caller now).1).enter rt i c d valid
        ((s.regs d.reg).gate c.caller now).2 := by
  unfold passGates Registration.gate
  by_cases hauth : (s.regs d.reg).authorized c.caller = false
  · rw [if_pos hauth, if_pos hauth, setReg_self]
    rfl
  rw [if_neg hauth, if_neg hauth]
  simp only
  by_cases hallowed : ((s.regs d.reg).consume c.caller now).2 = false
  · rw [if_pos hallowed, if_pos hallowed, enter, regs_setReg_self]
    rfl
  rw [if_neg hallowed, if_neg hallowed]
  cases ((s.regs d.reg).consume c.caller now).1.semaphore with
  | none => rfl
  | some reg =>
    simp only
    by_cases hlocked : reg.locked = true
    · rw [if_pos hlocked, if_pos hlocked, enter, regs_setReg_self, setReg_setReg]
      rfl
    · rw [if_neg hlocked, if_neg hlocked, dispatch_eq, regs_setReg_self, setReg_setReg,
        setReg_setReg]
      rfl

/-! ## Steps of a call -/

/-- The call that an exception ends. -/
def Action.failure? : Action → Option ℕ
  | .raised i .. | .timedOut i _ | .rejected i .. => some i
  | _ => none

/-- The call whose handler chain the task's cancellation ends. -/
def Action.cancellation? : Action → Option ℕ
  | .cancelled i => some i
  | _ => none

/-- The reading of the clock at the rate gate. -/
def Action.now? : Action → Option Secs
  | .read _ _ now _ => some now
  | _ => none

theorem Action.call?_of_failure? {a : Action} {i : ℕ} (h : a.failure? = some i) :
    a.call? = some i := by
  cases a <;> first | exact h | cases h

/-- The action `a` of the call `i`, which stands as `c`, takes it to the call given, with the
books given. -/
inductive CallStep (rt : Runtime) (s : Server) (i : ℕ) (c : Call) : Action → Call → Books → Prop
  /-- There is no request yet, or none that can be looked up. -/
  | unserved {buf chunk : Bytes} {now : Secs} {valid : Bool} {phase : CallPhase}
    (hold : c.phase = .reading buf)
    (hphase : phase.branch = .undecided ∨ phase.branch = .failed) (hrun : phase.running? = none) :
    CallStep rt s i c (.read i chunk now valid) { c with phase := phase } s.books
  | notFound {buf chunk : Bytes} {now : Secs} {valid : Bool} {node : Json}
    (hold : c.phase = .reading buf) :
    CallStep rt s i c (.read i chunk now valid)
      { c with sent := c.sent ++ [notFoundFrame rt node], phase := .refusing .handlerNotFound }
      s.books
  | refused {chunk : Bytes} {now : Secs} {valid : Bool} {d : Dispatch} {reg : Registration}
    {why : Refusal} (hlookup : s.LooksUp rt i chunk c.caller d)
    (hgate : (s.regs d.reg).gate c.caller now = (reg, .refused why)) :
    CallStep rt s i c (.read i chunk now valid)
      { c with
        sent := c.sent ++ [refusalFrame rt reg c.caller d.node why], phase := .refusing why }
      (s.books.setReg d.reg reg)
  | raises {chunk : Bytes} {now : Secs} {valid : Bool} {d : Dispatch} {reg : Registration}
    (hlookup : s.LooksUp rt i chunk c.caller d)
    (hgate : (s.regs d.reg).gate c.caller now = (reg, .raises)) :
    CallStep rt s i c (.read i chunk now valid) { c with phase := .closing .failed }
      (s.books.setReg d.reg reg)
  | admitted {chunk : Bytes} {now : Secs} {valid : Bool} {d : Dispatch} {reg : Registration}
    {c' : Call} (hlookup : s.LooksUp rt i chunk c.caller d)
    (hgate : (s.regs d.reg).gate c.caller now = (reg, .admitted)) (hsent : c'.sent = c.sent)
    (hcaller : c'.caller = c.caller)
    (hphase : c'.phase = .ready d ∨ ∃ mode, c'.phase = .driving d mode) :
    CallStep rt s i c (.read i chunk now valid) c' (s.books.setReg d.reg reg)
  /-- The handler chain goes on, -/
  | working {a : Action} {c' : Call} (hnow : a.now? = none) (hfail : a.failure? = none)
    (hcancel : a.cancellation? = none) (hsent : c'.sent = c.sent)
    (hcaller : c'.caller = c.caller)
    (hphase : c'.phase = c.phase ∨ ∃ d mode, c'.phase = .driving d mode ∧
      (c.phase = .ready d ∨ c.phase = .driving d .chain)) : CallStep rt s i c a c' s.books
  /-- yields a value, -/
  | yield {d : Dispatch} {mode : Mode} {value : Json} (hphase : c.phase = .driving d mode) :
    CallStep rt s i c (.yield i value) { c with sent := c.sent ++ [.ofResult value false] } s.books
  /-- or is through. -/
  | finish {a : Action} {d : Dispatch} {mode : Mode} {value : Json}
    (ha : a = .exhausted i ∨ a = .returned i value) (hphase : c.phase = .driving d mode) :
    CallStep rt s i c a
      { c with sent := c.sent ++ [.ofResult value true], phase := .finishing d } s.books
  | completed {d : Dispatch} {elapsed : Secs} (hphase : c.phase = .finishing d) :
    CallStep rt s i c (.completed i elapsed) { c with phase := .closing (.dispatched d) }
      (s.books.settle d.reg false elapsed)
  | failed {a : Action} {d : Dispatch} {error : String} {elapsed : Secs}
    (ha : a = .raised i error elapsed ∨ a = .timedOut i elapsed ∨ a = .rejected i error elapsed)
    (hrunning : c.phase.running? = some d.reg) (hbranch : c.phase.branch = .dispatched d) :
    CallStep rt s i c a
      { c with sent := c.sent ++ [.ofError "handler_error" error], phase := .failing d }
      (s.books.settle d.reg true elapsed)
  | cancelled {d : Dispatch} (hrunning : c.phase.running? = some d.reg)
    (hbranch : c.phase.branch = .dispatched d) :
    CallStep rt s i c (.cancelled i) { c with phase := .closing (.dispatched d) }
      (s.books.setReg d.reg (s.regs d.reg).release)
  /-- The last frame is sent or given up, and the stream closed. -/
  | ending {a : Action} {phase : CallPhase} (ha : a = .sent i ∨ a = .aborted i ∨ a = .close i)
    (hold : c.phase.running? = none)
    (hphase : phase = .closing c.phase.branch ∨ phase = .closed c.phase.branch) :
    CallStep rt s i c a { c with phase := phase } s.books

section

variable {rt : Runtime} {s s' : Server} {i : ℕ} {c : Call} {d : Dispatch}

/-- A call whose request is looked up is reading. -/
theorem LooksUp.reading {chunk : Bytes} {caller : ℕ} (h : s.LooksUp rt i chunk caller d)
    (hc : s.calls i = some c) : ∃ buf, c.phase = .reading buf := by
  obtain ⟨c₁, buf, -, hc₁, -, hphase, -⟩ := h
  obtain rfl : c₁ = c := Option.some.inj (hc₁.symm.trans hc)
  exact ⟨buf, hphase⟩

theorem next_spec (hc : s.calls i = some c) (idx : ℕ) (valid : Bool) :
    ∃ c', (s.next i c d idx valid).calls = Function.update s.calls i (some c') ∧
      (s.next i c d idx valid).books = s.books ∧ c'.sent = c.sent ∧ c'.caller = c.caller ∧
      c'.phase = c.phase := by
  unfold next
  split
  · exact ⟨_, rfl, rfl, rfl, rfl, rfl⟩
  · exact ⟨c, by rw [← hc, Function.update_eq_self]; rfl, rfl, rfl, rfl, rfl⟩

theorem startDrive_spec (s : Server) (i : ℕ) (c : Call) (d : Dispatch) (valid : Bool) :
    ∃ c', (s.startDrive i c d valid).calls = Function.update s.calls i (some c') ∧
      (s.startDrive i c d valid).books = s.books ∧ c'.sent = c.sent ∧ c'.caller = c.caller ∧
      ∃ mode, c'.phase = .driving d mode := by
  unfold startDrive
  split_ifs
  · exact ⟨_, rfl, rfl, rfl, rfl, .fast, rfl⟩
  · have hself : (s.setCall i { c with phase := .driving d .chain, idx := some 0 }).calls i =
        some { c with phase := .driving d .chain, idx := some 0 } := Function.update_self ..
    obtain ⟨c', hcalls, hbooks, hsent, hcaller, hphase⟩ := next_spec (d := d) hself 0 valid
    refine ⟨c', ?_, hbooks, hsent, hcaller, .chain, hphase⟩
    rw [hcalls, setCall, Function.update_idem]

theorem launch_spec (s : Server) (i : ℕ) (c : Call) (d : Dispatch) (valid : Bool) :
    ∃ c', (s.launch i c d valid).calls = Function.update s.calls i (some c') ∧
      (s.launch i c d valid).books = s.books ∧ c'.sent = c.sent ∧ c'.caller = c.caller ∧
      (c'.phase = .ready d ∨ ∃ mode, c'.phase = .driving d mode) := by
  unfold launch
  split
  · exact ⟨_, rfl, rfl, rfl, rfl, .inl rfl⟩
  · obtain ⟨c', hcalls, hbooks, hsent, hcaller, hphase⟩ := startDrive_spec s i c d valid
    exact ⟨c', hcalls, hbooks, hsent, hcaller, .inr hphase⟩

/-- A chunk in the read loop. -/
theorem receive_callStep (rt : Runtime) (hc : s.calls i = some c) {buf : Bytes}
    (hphase : c.phase = .reading buf) (chunk : Bytes) (now : Secs) (valid : Bool) :
    ∃ c', (s.receive rt i c buf chunk now valid).calls = Function.update s.calls i (some c') ∧
      CallStep rt s i c (.read i chunk now valid) c'
        (s.receive rt i c buf chunk now valid).books := by
  unfold receive
  split_ifs with hchunk
  · exact ⟨_, rfl, .unserved hphase (.inl rfl) rfl⟩
  split
  · exact ⟨_, rfl, .unserved hphase (.inl rfl) rfl⟩
  · exact ⟨_, rfl, .unserved hphase (.inr rfl) rfl⟩
  rename_i req hload
  unfold handleRequest
  split
  · rename_i fields
    split
    · exact ⟨_, rfl, .unserved hphase (.inr rfl) rfl⟩
    · exact ⟨_, rfl, .unserved hphase (.inr rfl) rfl⟩
    · rename_i node hnode
      split
      · rename_i id hid
        have hlookup : LooksUp rt s i chunk c.caller ⟨node, id⟩ :=
          ⟨c, buf, fields, hc, rfl, hphase, hchunk, hload, hnode, hid⟩
        rw [passGates_eq]
        cases hgate : (s.regs id).gate c.caller now with
        | mk reg gate =>
          simp only
          cases gate with
          | refused why =>
            rw [enter, regs_setReg_self]
            exact ⟨_, rfl, .refused hlookup hgate⟩
          | raises => exact ⟨_, rfl, .raises hlookup hgate⟩
          | admitted =>
            obtain ⟨c', hcalls, hbooks, hsent, hcaller, hphase'⟩ :=
              launch_spec (s.setReg id reg) i c ⟨node, id⟩ valid
            rw [enter, hbooks]
            exact ⟨c', hcalls, .admitted hlookup hgate hsent hcaller hphase'⟩
      · exact ⟨_, rfl, .notFound hphase⟩
    · exact ⟨_, rfl, .notFound hphase⟩
  · exact ⟨_, rfl, .unserved hphase (.inr rfl) rfl⟩

theorem InDispatch.running {phase : CallPhase} (h : InDispatch d phase) :
    phase.running? = some d.reg := by
  cases phase <;> cases h <;> rfl

theorem running_of_not_inDispatch {phase : CallPhase} (h : ∀ d, ¬InDispatch d phase) :
    phase.running? = none := by
  cases phase with
  | ready d | driving d | finishing d => exact absurd rfl (h d)
  | _ => rfl

theorem stepCall_callStep {a : Action} (hc : s.calls i = some c)
    (h : s.stepCall rt i c a = some s') (ha : a.call? = some i) :
    ∃ c', s'.calls = Function.update s.calls i (some c') ∧ CallStep rt s i c a c' s'.books := by
  cases stepCall_cases h ha with
  | @read buf chunk now valid hphase => exact receive_callStep rt hc hphase chunk now valid
  | @start d valid hphase =>
    obtain ⟨c', hcalls, hbooks, hsent, hcaller, mode, hphase'⟩ := startDrive_spec s i c d valid
    rw [hbooks]
    exact ⟨c', hcalls, .working rfl rfl rfl hsent hcaller (.inr ⟨d, mode, hphase', .inl hphase⟩)⟩
  | @next d idx valid hd hidx =>
    obtain ⟨c', hcalls, hbooks, hsent, hcaller, hphase⟩ := next_spec (d := d) hc idx valid
    rw [hbooks]
    exact ⟨c', hcalls, .working rfl rfl rfl hsent hcaller (.inl hphase)⟩
  | handled =>
    have hself : s.calls = Function.update s.calls i (some c) := by
      rw [← hc, Function.update_eq_self]
    exact ⟨c, hself, .working rfl rfl rfl rfl rfl (.inl rfl)⟩
  | yield hphase =>
    refine ⟨_, rfl, ?_⟩
    rw [← hphase]
    exact .yield hphase
  | finish hfinish hphase => exact ⟨_, rfl, .finish (hfinish.imp_left And.left) hphase⟩
  | @returnedGenerator d body hphase =>
    exact ⟨_, rfl, .working rfl rfl rfl rfl rfl (.inr ⟨d, .collecting, rfl, .inr hphase⟩)⟩
  | completed hphase => exact ⟨_, rfl, .completed hphase⟩
  | failed hfail hphase => exact ⟨_, rfl, .failed hfail hphase.running hphase.branch⟩
  | cancelled hphase => exact ⟨_, rfl, .cancelled hphase.running hphase.branch⟩
  | ending hend hphase =>
    exact ⟨_, rfl, .ending (hend.imp_right .inl) (running_of_not_inDispatch hphase) (.inl rfl)⟩
  | close hphase =>
    exact ⟨_, rfl, .ending (.inr (.inr rfl)) (by rw [hphase]; rfl) (.inr (by rw [hphase]; rfl))⟩

/-! ## Steps of the registry -/

theorem reregistered_refl (b : Books) : b.Reregistered b :=
  ⟨Nat.le_refl _, fun _ => .inl ⟨_, rfl⟩, fun h => .inl h, rfl, rfl⟩

theorem reregistered_trans {b₁ b₂ b₃ : Books} (h : b₁.Reregistered b₂) (h' : b₂.Reregistered b₃) :
    b₁.Reregistered b₃ := by
  refine ⟨h.created.trans h'.created, fun id => ?_, fun {name id} hid => ?_,
    h'.totalCalls.trans h.totalCalls, h'.totalErrors.trans h.totalErrors⟩
  · rcases h.regs id with ⟨allow, hold⟩ | ⟨hge, hlt, fn, o, hnew⟩
    · rcases h'.regs id with ⟨allow', hold'⟩ | ⟨hge', hlt', hnew'⟩
      · rw [hold] at hold'
        exact .inl ⟨allow', hold'⟩
      · exact .inr ⟨h.created.trans hge', hlt', hnew'⟩
    · rcases h'.regs id with ⟨allow', hold'⟩ | ⟨hge', -⟩
      · rw [hnew] at hold'
        exact .inr ⟨hge, hlt.trans_le h'.created, fn, { o with allow := allow' }, hold'⟩
      · exact absurd hlt (Nat.not_lt.2 hge')
  · rcases h'.bound hid with hid | hid
    · rcases h.bound hid with hid | hid
      · exact .inl hid
      · exact .inr (hid.trans_le h'.created)
    · exact .inr hid

theorem create_reregistered (s : Server) (fn : Handler) (o : Options) :
    s.books.Reregistered (s.create fn o).books := by
  refine ⟨Nat.le_succ _, fun id => ?_, fun h => .inl h, rfl, rfl⟩
  by_cases hid : id = s.created
  · subst hid
    exact .inr ⟨Nat.le_refl _, Nat.lt_succ_self _, fn, o, Function.update_self ..⟩
  · exact .inl ⟨_, Function.update_of_ne hid ..⟩

theorem bind_reregistered {s : Server} {id : ℕ} (hid : id < s.created) (name : String) :
    s.books.Reregistered (s.bind name id).books := by
  refine ⟨Nat.le_refl _, fun _ => .inl ⟨_, rfl⟩, fun {name' id'} h => ?_, rfl, rfl⟩
  change (s.handlers.set name id).get? name' = some id' at h
  by_cases hname : name' = name
  · subst hname
    rw [Dict.get?_set_self] at h
    exact .inr (Option.some.inj h ▸ hid)
  · rw [Dict.get?_set_of_ne _ _ hname] at h
    exact .inl h

theorem register_reregistered (s : Server) (name : String) (fn : Handler) (o : Options) :
    s.books.Reregistered (s.register name fn o).books :=
  reregistered_trans (create_reregistered s fn o) (bind_reregistered (Nat.lt_succ_self _) name)

theorem registerMany_reregistered {mapping : List (String × (Handler ⊕ ℕ))} :
    ∀ {s : Server}, (∀ entry ∈ mapping, ∀ id, entry.2 = .inr id → id < s.created) →
      s.books.Reregistered (s.registerMany mapping).books := by
  induction mapping with
  | nil => exact fun _ => reregistered_refl _
  | cons entry mapping ih =>
    intro s h
    have hrest {s' : Server} (hle : s.created ≤ s'.created) :
        ∀ entry ∈ mapping, ∀ id, entry.2 = .inr id → id < s'.created :=
      fun e he id hid => (h e (List.mem_cons_of_mem _ he) id hid).trans_le hle
    obtain ⟨name, fn | id⟩ := entry
    · exact reregistered_trans (register_reregistered s name fn {}) (ih (hrest (Nat.le_succ _)))
    · have hid := h _ List.mem_cons_self id rfl
      exact reregistered_trans (bind_reregistered hid name) (ih (hrest (Nat.le_refl _)))

theorem clearUserHandlers_reregistered (s : Server) :
    s.books.Reregistered s.clearUserHandlers.books := by
  refine ⟨Nat.le_refl _, fun _ => .inl ⟨_, rfl⟩, fun {name id} h => .inl ?_, rfl, rfl⟩
  change (s.handlers.filterKeys isIntrospection).get? name = some id at h
  rw [Dict.get?_filterKeys] at h
  split_ifs at h
  exact h

theorem authorize_reregistered (s : Server) (name : String) (allow : List ℕ) :
    s.books.Reregistered (s.authorize name allow).books := by
  unfold authorize
  split
  · exact reregistered_refl _
  · rename_i id hid
    refine ⟨Nat.le_refl _, fun id' => .inl ?_, fun h => .inl h, rfl, rfl⟩
    by_cases hid' : id' = id
    · subst hid'
      exact ⟨some allow, Function.update_self ..⟩
    · exact ⟨_, Function.update_of_ne hid' ..⟩

/-! ## Steps of the server -/

/-- What a step does, by the call it belongs to. -/
inductive Step (rt : Runtime) (s : Server) : Action → Server → Prop
  /-- An operation on the registry. -/
  | registry {a : Action} {s' : Server} (ha : a.call? = none) (hcalls : s'.calls = s.calls)
    (hbooks : s.books.Reregistered s'.books) : Step rt s a s'
  | accept {i : ℕ} {peer : Option Ipc.Addr} {s' : Server} (hnone : s.calls i = none)
    (hcalls : s'.calls = Function.update s.calls i
      (some ⟨(peer.map Ipc.Addr.node).getD 0, .reading [], none, []⟩))
    (hbooks : s'.books = s.books) : Step rt s (.accept i peer) s'
  | call {a : Action} {i : ℕ} {c c' : Call} {s' : Server} (ha : a.call? = some i)
    (hc : s.calls i = some c) (hcalls : s'.calls = Function.update s.calls i (some c'))
    (hstep : CallStep rt s i c a c' s'.books) : Step rt s a s'

theorem step_callSteps {a : Action} (h : s.step rt a = some s') : Step rt s a s' := by
  -- The actions of a call that has started.
  have started : ∀ {i}, a.call? = some i →
      (s.calls i).bind (fun c => s.stepCall rt i c a) = some s' → Step rt s a s' := by
    intro i hi hstep
    obtain ⟨c, hc, hstep⟩ := Option.bind_eq_some_iff.1 hstep
    obtain ⟨c', hcalls, hstep⟩ := stepCall_callStep hc hstep hi
    exact .call hi hc hcalls hstep
  cases a with
  | create fn o =>
    cases h
    exact .registry rfl rfl (create_reregistered s fn o)
  | register name fn o =>
    cases h
    exact .registry rfl rfl (register_reregistered s name fn o)
  | registerMany mapping =>
    simp only [step] at h
    split_ifs at h with hids
    cases h
    refine .registry rfl (registerMany_calls mapping s).1 (registerMany_reregistered ?_)
    intro entry hentry id hid
    have hlt := List.all_eq_true.1 hids entry hentry
    rw [hid] at hlt
    exact of_decide_eq_true hlt
  | clearUserHandlers =>
    cases h
    exact .registry rfl rfl (clearUserHandlers_reregistered s)
  | authorize name allow =>
    cases h
    exact .registry rfl (authorize_calls s name allow).1 (authorize_reregistered s name allow)
  | use mw =>
    cases h
    exact .registry rfl rfl ⟨Nat.le_refl _, fun _ => .inl ⟨_, rfl⟩, fun h => .inl h, rfl, rfl⟩
  | accept i peer =>
    simp only [step] at h
    split_ifs at h with hnone
    cases h
    exact .accept (by simpa using hnone) rfl rfl
  | _ => exact started rfl h

/-- A step of another call, or of the registry, leaves a call alone. -/
theorem Step.calls_eq {a : Action} (h : Step rt s a s') (ha : a.call? ≠ some i) :
    s'.calls i = s.calls i := by
  cases h with
  | registry _ hcalls => rw [hcalls]
  | accept _ hcalls => rw [hcalls, Function.update_of_ne fun h => ha (congrArg some h.symm)]
  | call hj _ hcalls =>
    rw [hcalls, Function.update_of_ne fun h => ha (hj.trans (congrArg some h.symm))]

theorem Step.calls_of_ne {a : Action} (h : Step rt s a s') (hc : s.calls i = some c)
    (ha : a.call? ≠ some i) : s'.calls i = some c :=
  (h.calls_eq ha).trans hc

/-- A step of a call that has started. -/
theorem Step.callStep {a : Action} (h : Step rt s a s') (hc : s.calls i = some c)
    (ha : a.call? = some i) :
    ∃ c', s'.calls = Function.update s.calls i (some c') ∧ CallStep rt s i c a c' s'.books := by
  cases h with
  | registry hnone => cases hnone.symm.trans ha
  | accept hnone =>
    obtain rfl := Option.some.inj ha
    cases hnone.symm.trans hc
  | call hj hcj hcalls hstep =>
    obtain rfl := Option.some.inj (hj.symm.trans ha)
    obtain rfl := Option.some.inj (hcj.symm.trans hc)
    exact ⟨_, hcalls, hstep⟩

/-- The steps of a call change no name and create no registration. -/
theorem CallStep.registry_eq {a : Action} {c' : Call} {b : Books} (h : CallStep rt s i c a c' b) :
    b.handlers = s.handlers ∧ b.created = s.created := by
  cases h <;> exact ⟨rfl, rfl⟩

/-- A dispatched call was so before, or has just been let in. -/
theorem CallStep.dispatched {a : Action} {c' : Call} {b : Books} (h : CallStep rt s i c a c' b)
    (hd : c'.phase.branch = .dispatched d) :
    c.phase.branch = .dispatched d ∨ s.handlers.get? d.node = some d.reg := by
  cases h with
  | unserved _ hphase =>
    change CallPhase.branch _ = _ at hd
    rcases hphase with hphase | hphase <;> cases hphase.symm.trans hd
  | notFound => cases hd
  | refused => cases hd
  | raises => cases hd
  | admitted hlookup _ _ _ hphase =>
    obtain ⟨-, -, -, -, -, -, -, -, -, hid⟩ := hlookup
    rcases hphase with hphase | ⟨mode, hphase⟩
    · rw [hphase] at hd
      cases hd
      exact .inr hid
    · rw [hphase] at hd
      cases hd
      exact .inr hid
  | working _ _ _ _ _ hphase =>
    rcases hphase with hphase | ⟨d', mode, hphase, hold⟩
    · exact .inl (by rw [← hphase, hd])
    · rw [hphase] at hd
      cases hd
      rcases hold with hold | hold
      · exact .inl (by rw [hold]; rfl)
      · exact .inl (by rw [hold]; rfl)
  | yield => exact .inl hd
  | finish _ hphase => exact .inl (by rw [hphase]; exact hd)
  | completed hphase => exact .inl (by rw [hphase]; exact hd)
  | failed _ _ hbranch => exact .inl (hbranch.trans hd)
  | cancelled _ hbranch => exact .inl (hbranch.trans hd)
  | ending _ _ hphase =>
    rcases hphase with rfl | rfl
    · exact .inl hd
    · exact .inl hd

/-- Names and calls refer to registrations that exist. -/
structure Addressed (s : Server) : Prop where
  bound : ∀ {name id}, s.handlers.get? name = some id → id < s.created
  dispatched : ∀ {i c d}, s.calls i = some c → c.phase.branch = .dispatched d → d.reg < s.created

theorem addressed_init (mws : List ℕ) : Addressed (init mws) := by
  refine ⟨fun {name id} hid => ?_, fun hc => by cases hc⟩
  change Assoc.get? name [("_health", 0), ("_handlers", 1)] = some id at hid
  simp only [Assoc.get?] at hid
  split_ifs at hid
  · obtain rfl := Option.some.inj hid
    exact Nat.two_pos
  · obtain rfl := Option.some.inj hid
    exact Nat.one_lt_two

theorem addressed_step {a : Action} (h : Addressed s) (hstep : Step rt s a s') : Addressed s' := by
  cases hstep with
  | registry _ hcalls hbooks =>
    refine ⟨fun hid => ?_, fun hc hd => ?_⟩
    · rcases hbooks.bound hid with hid | hid
      · exact (h.bound hid).trans_le hbooks.created
      · exact hid
    · rw [hcalls] at hc
      exact (h.dispatched hc hd).trans_le hbooks.created
  | @accept j peer s' hnone hcalls hbooks =>
    have hhandlers : s'.handlers = s.handlers := congrArg Books.handlers hbooks
    have hcreated : s'.created = s.created := congrArg Books.created hbooks
    refine ⟨fun hid => ?_, fun {i c d} hc hd => ?_⟩
    · rw [hcreated]
      exact h.bound (hhandlers ▸ hid)
    · rw [hcalls] at hc
      rw [hcreated]
      by_cases hij : i = j
      · subst hij
        rw [Function.update_self] at hc
        obtain rfl := Option.some.inj hc
        cases hd
      · rw [Function.update_of_ne hij] at hc
        exact h.dispatched hc hd
  | @call a j cj c' s' ha hcj hcalls hstep =>
    obtain ⟨hhandlers, hcreated⟩ := hstep.registry_eq
    change s'.handlers = s.handlers at hhandlers
    change s'.created = s.created at hcreated
    refine ⟨fun hid => ?_, fun {i c d} hc hd => ?_⟩
    · rw [hcreated]
      exact h.bound (hhandlers ▸ hid)
    · rw [hcalls] at hc
      rw [hcreated]
      by_cases hij : i = j
      · subst hij
        rw [Function.update_self] at hc
        obtain rfl := Option.some.inj hc
        rcases hstep.dispatched hd with hd | hid
        · exact h.dispatched hcj hd
        · exact h.bound hid
      · rw [Function.update_of_ne hij] at hc
        exact h.dispatched hc hd

theorem addressed_run {mws : List ℕ} {as : List Action}
    (hrun : Machine.run (step rt) (init mws) as = some s) : Addressed s :=
  Machine.run_induction (fun _ s => Addressed s) (addressed_init mws)
    (fun _ h hstep => addressed_step h (step_callSteps hstep)) hrun

/-! ## Counting calls -/

/-- The calls with a property. -/
def callsWith (s : Server) (P : ℕ → Call → Prop) : Set ℕ :=
  { i | ∃ c, s.calls i = some c ∧ P i c }

/-- Only finitely many calls have been accepted. -/
theorem finite_callsWith {mws : List ℕ} {as : List Action}
    (hrun : Machine.run (step rt) (init mws) as = some s) (P : ℕ → Call → Prop) :
    (s.callsWith P).Finite := by
  suffices h : (s.callsWith fun _ _ => True).Finite from
    h.subset fun i ⟨c, hc, _⟩ => ⟨c, hc, trivial⟩
  refine Machine.run_induction (fun _ s => (s.callsWith fun _ _ => True).Finite) ?_ ?_ hrun
  · exact Set.finite_empty.subset fun i ⟨c, hc, _⟩ => by cases hc
  rintro as t a t' - h hstep
  -- At most the call of the action is new.
  have hsub : ∀ i : ℕ, (∀ j, j ≠ i → t'.calls j = t.calls j) →
      (t'.callsWith fun _ _ => True).Finite := by
    intro i hother
    refine (h.insert i).subset fun j ⟨c, hc, _⟩ => ?_
    by_cases hj : j = i
    · exact .inl hj
    · exact .inr ⟨c, by rw [← hother j hj, hc], trivial⟩
  cases step_callSteps hstep with
  | registry _ hcalls => exact hsub 0 fun j _ => by rw [hcalls]
  | accept _ hcalls => exact hsub _ fun j hj => by rw [hcalls, Function.update_of_ne hj]
  | call _ _ hcalls => exact hsub _ fun j hj => by rw [hcalls, Function.update_of_ne hj]

/-- A new call is not counted at first. -/
theorem callsWith_of_none {P P' : ℕ → Call → Prop} {c' : Call} (hnone : s.calls i = none)
    (hcalls : s'.calls = Function.update s.calls i (some c')) (hi : ¬P' i c')
    (hP : ∀ j cj, j ≠ i → (P' j cj ↔ P j cj)) : s'.callsWith P' = s.callsWith P := by
  ext j
  simp only [callsWith, hcalls, Set.mem_ofPred_eq]
  by_cases hj : j = i
  · subst hj
    simp [hnone, hi]
  · simp only [Function.update_of_ne hj, hP j _ hj]

theorem ncard_eq_sdiff_add {A : Set ℕ} (hA : A.Finite) (i : ℕ) [Decidable (i ∈ A)] :
    A.ncard = (A \ {i}).ncard + if i ∈ A then 1 else 0 := by
  split_ifs with hi
  · exact (Set.ncard_sdiff_singleton_add_one hi hA).symm
  · rw [Set.sdiff_singleton_eq_self hi, Nat.add_zero]

/-- A call moves on : the count changes by that call. -/
theorem ncard_callsWith {P P' : ℕ → Call → Prop} {c' : Call} [Decidable (P i c)]
    [Decidable (P' i c')] (hfin : (s.callsWith P).Finite) (hc : s.calls i = some c)
    (hcalls : s'.calls = Function.update s.calls i (some c'))
    (hP : ∀ j cj, j ≠ i → (P' j cj ↔ P j cj)) :
    (s'.callsWith P').ncard + (if P i c then 1 else 0) =
      (s.callsWith P).ncard + (if P' i c' then 1 else 0) := by
  -- Without the call the two sets agree.
  have hdiff : s'.callsWith P' \ {i} = s.callsWith P \ {i} := by
    ext j
    simp only [callsWith, hcalls, Set.mem_sdiff, Set.mem_singleton_iff, Set.mem_ofPred_eq]
    refine and_congr_left fun hj => ?_
    simp only [Function.update_of_ne hj, hP j _ hj]
  have hself : i ∈ s.callsWith P ↔ P i c := by simp [callsWith, hc]
  have hself' : i ∈ s'.callsWith P' ↔ P' i c' := by simp [callsWith, hcalls]
  have hfin' : (s'.callsWith P').Finite :=
    (hfin.insert i).subset fun j hj => by
      by_cases hji : j = i
      · exact .inl hji
      · exact .inr (hdiff ▸ ⟨hj, hji⟩ : j ∈ s.callsWith P \ {i}).1
  classical
  rw [ncard_eq_sdiff_add hfin i, ncard_eq_sdiff_add hfin' i, hdiff]
  simp only [hself, hself']
  omega

end

end Server

end PilotLanggraph

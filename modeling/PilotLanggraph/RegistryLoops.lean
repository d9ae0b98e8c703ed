import PilotLanggraph.ConnectionRegistry
import PilotLanggraph.Lib.Dict

/-!
# The connections of all loops

`_ConnectionRegistry` is shared by the event loops of all threads : each has its own lock and its
own cached connection, and `aclose_all` on one of them takes the connections of all. It lists the
dictionary and clears it under the lock of its own loop only, so another thread may run between
the two, and between any two of the connections that it closes.

A call and a connection are named by their loop and a number, in `calls` and `conns`.

* `connections_accounted` : a call gets connections of its own loop only, and a connection that
  is neither closed nor cached nor about to be closed was lost in one of two ways.
* `loops_apart` : without `aclose_all`, each loop has the registry of `ConnectionRegistry`.
-/

namespace PilotLanggraph

/-- Where a call is. -/
inductive LoopCallPhase
  /-- It waits for the lock of its loop. -/
  | queued
  /-- `get`, in the `close` of the connection that is no longer alive, -/
  | closing
  /-- and in `connect`. -/
  | connecting
  /-- `drop_current`, in the `close` of the connection it took out. -/
  | dropping
  /-- `aclose_all`, which has listed the dictionary, -/
  | listed (conns : List (ℕ × (ℕ × ℕ)))
  /-- has cleared it, and has these connections to close, -/
  | sweeping (conns : List (ℕ × (ℕ × ℕ)))
  /-- or is in the `close` of the one of its own loop. -/
  | awaiting (conns : List (ℕ × (ℕ × ℕ)))
  | returned (conn : Option (ℕ × ℕ))
  /-- It raised or was cancelled. -/
  | raised

/-- The connections that an `aclose_all` has listed and not closed. -/
def LoopCallPhase.conns : LoopCallPhase → List (ℕ × (ℕ × ℕ))
  | listed conns | sweeping conns | awaiting conns => conns
  | _ => []

/-- A call in this phase replaces the cached connection of its loop, -/
def LoopCallPhase.Replaces (phase : LoopCallPhase) : Prop :=
  phase = .closing ∨ phase = .connecting

/-- and one in this phase has the lock. -/
def LoopCallPhase.Holds (phase : LoopCallPhase) : Prop :=
  phase.Replaces ∨ ∃ conns, phase = .listed conns

/-- `_ConnectionRegistry`, with the connections it has opened. -/
structure LoopRegistry where
  /-- How many connections a loop has opened. -/
  opened : ℕ → ℕ
  conns : ℕ × ℕ → CachedConn
  /-- `self._by_loop`. -/
  byLoop : Dict ℕ (ℕ × ℕ)
  /-- The call that holds the lock of a loop. -/
  lock : ℕ → Option (ℕ × ℕ)
  calls : ℕ × ℕ → Option (RegistryCall × LoopCallPhase)

namespace LoopRegistry

/-- What can happen. -/
inductive Action
  | call (i : ℕ × ℕ) (c : RegistryCall)
  /-- The call gets the lock of its loop. -/
  | acquire (i : ℕ × ℕ)
  /-- The `close` that a call waits for is over. -/
  | closed (i : ℕ × ℕ)
  | connected (i : ℕ × ℕ)
  /-- `connect` raises. -/
  | connectFails (i : ℕ × ℕ)
  | cancel (i : ℕ × ℕ)
  /-- `aclose_all` clears the dictionary and releases its lock. -/
  | clear (i : ℕ × ℕ)
  /-- It goes on to the next of its connections. -/
  | sweep (i : ℕ × ℕ)
  /-- A connection is closed by somebody else, or it loses its daemon. -/
  | dies (conn : ℕ × ℕ) (closed readerDone transportLost : Bool)

/-- A new registry. -/
def init : LoopRegistry where
  opened _ := 0
  conns _ := ⟨"", true, true, true⟩
  byLoop := .empty
  lock _ := none
  calls _ := none

def setPhase (s : LoopRegistry) (i : ℕ × ℕ) (c : RegistryCall) (phase : LoopCallPhase) :
    LoopRegistry :=
  { s with calls := Function.update s.calls i (some (c, phase)) }

def setConn (s : LoopRegistry) (conn : ℕ × ℕ) (c : CachedConn) : LoopRegistry :=
  { s with conns := Function.update s.conns conn c }

/-- The call has the lock of its loop. -/
def hold (s : LoopRegistry) (i : ℕ × ℕ) : LoopRegistry :=
  { s with lock := Function.update s.lock i.1 (some i) }

/-- The lock of a loop is free. -/
def release (s : LoopRegistry) (loop : ℕ) : LoopRegistry :=
  { s with lock := Function.update s.lock loop none }

/-- `await conn.close()`, up to its await, and `conn.force_close_sync()`. -/
def close (s : LoopRegistry) (conn : ℕ × ℕ) : LoopRegistry :=
  s.setConn conn { s.conns conn with closed := true, transportLost := true }

/-- The connection is alive. -/
def Alive (s : LoopRegistry) (conn : ℕ × ℕ) : Prop :=
  (s.conns conn).isAlive = true

instance (s : LoopRegistry) (conn : ℕ × ℕ) : Decidable (s.Alive conn) :=
  inferInstanceAs (Decidable (_ = _))

/-- `get`, once it has the lock. -/
def lookup (s : LoopRegistry) (i : ℕ × ℕ) (c : RegistryCall) : LoopRegistry :=
  match s.byLoop.get? i.1 with
  | none => (s.setPhase i c .connecting).hold i
  | some conn =>
    if s.Alive conn then s.setPhase i c (.returned conn)
    else if (s.conns conn).closed then (s.setPhase i c .connecting).hold i
    else ((s.close conn).setPhase i c .closing).hold i

/-- `drop_current`, once it has the lock. The lock is released before the `close`. -/
def drop (s : LoopRegistry) (i : ℕ × ℕ) (c : RegistryCall) : LoopRegistry :=
  match s.byLoop.get? i.1 with
  | none => s.setPhase i c (.returned none)
  | some conn =>
    if s.Alive conn then s.setPhase i c (.returned none)
    else if (s.conns conn).closed then
      { s.setPhase i c (.returned none) with byLoop := s.byLoop.erase i.1 }
    else { (s.close conn).setPhase i c .dropping with byLoop := s.byLoop.erase i.1 }

/-- A call that has the lock. -/
def proceed (s : LoopRegistry) (i : ℕ × ℕ) (c : RegistryCall) : LoopRegistry :=
  match c with
  | .get _ => s.lookup i c
  | .dropCurrent => s.drop i c
  | .acloseAll => (s.setPhase i c (.listed s.byLoop.entries)).hold i

/-- `connect` has opened a connection. -/
def connect (s : LoopRegistry) (i : ℕ × ℕ) (c : RegistryCall) (path : String) : LoopRegistry :=
  { s.setPhase i c (.returned (i.1, s.opened i.1)) with
    opened := Function.update s.opened i.1 (s.opened i.1 + 1)
    conns := Function.update s.conns (i.1, s.opened i.1) ⟨path, false, false, false⟩
    byLoop := s.byLoop.set i.1 (i.1, s.opened i.1)
    lock := Function.update s.lock i.1 none }

/-- `aclose_all`, once it has listed these connections. -/
def clearAll (s : LoopRegistry) (i : ℕ × ℕ) (c : RegistryCall) (conns : List (ℕ × (ℕ × ℕ))) :
    LoopRegistry :=
  { (s.setPhase i c (.sweeping conns)).release i.1 with byLoop := .empty }

/-- `aclose_all`, at the next of its connections : it awaits the `close` of the one of its own
loop, and closes one of another by force. -/
def closeNext (s : LoopRegistry) (i : ℕ × ℕ) (c : RegistryCall) :
    List (ℕ × (ℕ × ℕ)) → LoopRegistry
  | [] => s.setPhase i c (.returned none)
  | (loop, conn) :: conns =>
    if (s.conns conn).closed then s.setPhase i c (.sweeping conns)
    else (s.close conn).setPhase i c (if loop = i.1 then .awaiting conns else .sweeping conns)

/-- One action, if it can happen. -/
def step (env : Option String) (s : LoopRegistry) : Action → Option LoopRegistry
  | .call i c =>
    match s.calls i with
    | none => some (s.setPhase i c .queued)
    | some _ => none
  | .acquire i =>
    match s.calls i, s.lock i.1 with
    | some (c, .queued), none => some (s.proceed i c)
    | _, _ => none
  | .closed i =>
    match s.calls i with
    | some (c, .closing) => some (s.setPhase i c .connecting)
    | some (c, .dropping) => some (s.setPhase i c (.returned none))
    | some (c, .awaiting conns) => some (s.setPhase i c (.sweeping conns))
    | _ => none
  | .connected i =>
    match s.calls i with
    | some (.get socketPath, .connecting) =>
      some (s.connect i (.get socketPath) (socketPathOf env socketPath))
    | _ => none
  | .connectFails i =>
    match s.calls i with
    | some (c, .connecting) => some ((s.setPhase i c .raised).release i.1)
    | _ => none
  | .cancel i =>
    match s.calls i with
    | some (c, .queued) | some (c, .dropping) | some (c, .awaiting _) =>
      some (s.setPhase i c .raised)
    | some (c, .closing) | some (c, .connecting) => some ((s.setPhase i c .raised).release i.1)
    | _ => none
  | .clear i =>
    match s.calls i with
    | some (c, .listed conns) => some (s.clearAll i c conns)
    | _ => none
  | .sweep i =>
    match s.calls i with
    | some (c, .sweeping conns) => some (s.closeNext i c conns)
    | _ => none
  | .dies conn closed readerDone transportLost =>
    if conn.2 < s.opened conn.1 then
      some (s.setConn conn { s.conns conn with
        closed := (s.conns conn).closed || closed
        readerDone := (s.conns conn).readerDone || readerDone
        transportLost := (s.conns conn).transportLost || transportLost })
    else none

/-- What an action does where it can be taken. -/
inductive Step (env : Option String) (s : LoopRegistry) : Action → LoopRegistry → Prop
  | call {i : ℕ × ℕ} {c : RegistryCall} (hnone : s.calls i = none) :
    Step env s (.call i c) (s.setPhase i c .queued)
  /-- `get` finds a live connection. -/
  | found {i conn : ℕ × ℕ} {c : RegistryCall} (hcall : s.calls i = some (c, .queued))
    (hcached : s.byLoop.get? i.1 = some conn) :
    Step env s (.acquire i) (s.setPhase i c (.returned conn))
  /-- There is nothing to drop. -/
  | idle {i : ℕ × ℕ} {c : RegistryCall} (hcall : s.calls i = some (c, .queued)) :
    Step env s (.acquire i) (s.setPhase i c (.returned none))
  /-- `get` finds none, or one that is closed, -/
  | connecting {i : ℕ × ℕ} {c : RegistryCall} (hcall : s.calls i = some (c, .queued))
    (hlock : s.lock i.1 = none)
    (hclosed : ∀ conn, s.byLoop.get? i.1 = some conn → (s.conns conn).closed = true) :
    Step env s (.acquire i) ((s.setPhase i c .connecting).hold i)
  /-- or one to close. -/
  | closing {i conn : ℕ × ℕ} {c : RegistryCall} (hcall : s.calls i = some (c, .queued))
    (hlock : s.lock i.1 = none) (hcached : s.byLoop.get? i.1 = some conn) :
    Step env s (.acquire i) (((s.close conn).setPhase i c .closing).hold i)
  /-- A connection is taken out that was closed before, -/
  | taken {i conn : ℕ × ℕ} {c : RegistryCall} (hcall : s.calls i = some (c, .queued))
    (hcached : s.byLoop.get? i.1 = some conn) (hclosed : (s.conns conn).closed = true) :
    Step env s (.acquire i)
      { s.setPhase i c (.returned none) with byLoop := s.byLoop.erase i.1 }
  /-- or is closed now. -/
  | dropping {i conn : ℕ × ℕ} {c : RegistryCall} (hcall : s.calls i = some (c, .queued))
    (hcached : s.byLoop.get? i.1 = some conn) :
    Step env s (.acquire i)
      { (s.close conn).setPhase i c .dropping with byLoop := s.byLoop.erase i.1 }
  | listed {i : ℕ × ℕ} (hcall : s.calls i = some (.acloseAll, .queued))
    (hlock : s.lock i.1 = none) :
    Step env s (.acquire i) ((s.setPhase i .acloseAll (.listed s.byLoop.entries)).hold i)
  | closed {i : ℕ × ℕ} {c : RegistryCall} (hcall : s.calls i = some (c, .closing)) :
    Step env s (.closed i) (s.setPhase i c .connecting)
  | dropped {i : ℕ × ℕ} {c : RegistryCall} (hcall : s.calls i = some (c, .dropping)) :
    Step env s (.closed i) (s.setPhase i c (.returned none))
  | awaited {i : ℕ × ℕ} {c : RegistryCall} {conns : List (ℕ × (ℕ × ℕ))}
    (hcall : s.calls i = some (c, .awaiting conns)) :
    Step env s (.closed i) (s.setPhase i c (.sweeping conns))
  | connected {i : ℕ × ℕ} {socketPath : Option String}
    (hcall : s.calls i = some (.get socketPath, .connecting)) :
    Step env s (.connected i) (s.connect i (.get socketPath) (socketPathOf env socketPath))
  /-- A call that holds the lock gives up, -/
  | releases {i : ℕ × ℕ} {a : Action} {c : RegistryCall} {phase : LoopCallPhase}
    (ha : a = .connectFails i ∨ a = .cancel i) (hcall : s.calls i = some (c, phase))
    (hphase : phase = .closing ∨ phase = .connecting) :
    Step env s a ((s.setPhase i c .raised).release i.1)
  /-- and one that does not. -/
  | raises {i : ℕ × ℕ} {c : RegistryCall} {phase : LoopCallPhase}
    (hcall : s.calls i = some (c, phase))
    (hphase : phase.conns = [] ∨ phase = .awaiting phase.conns) :
    Step env s (.cancel i) (s.setPhase i c .raised)
  | cleared {i : ℕ × ℕ} {c : RegistryCall} {conns : List (ℕ × (ℕ × ℕ))}
    (hcall : s.calls i = some (c, .listed conns)) :
    Step env s (.clear i) (s.clearAll i c conns)
  | finished {i : ℕ × ℕ} {c : RegistryCall} (hcall : s.calls i = some (c, .sweeping [])) :
    Step env s (.sweep i) (s.setPhase i c (.returned none))
  /-- The next connection was closed before, -/
  | passed {i : ℕ × ℕ} {c : RegistryCall} {p : ℕ × (ℕ × ℕ)} {conns : List (ℕ × (ℕ × ℕ))}
    (hcall : s.calls i = some (c, .sweeping (p :: conns)))
    (hclosed : (s.conns p.2).closed = true) :
    Step env s (.sweep i) (s.setPhase i c (.sweeping conns))
  /-- or is closed now. -/
  | swept {i : ℕ × ℕ} {c : RegistryCall} {phase : LoopCallPhase} {p : ℕ × (ℕ × ℕ)}
    {conns : List (ℕ × (ℕ × ℕ))} (hcall : s.calls i = some (c, .sweeping (p :: conns)))
    (hphase : phase = .awaiting conns ∨ phase = .sweeping conns) :
    Step env s (.sweep i) ((s.close p.2).setPhase i c phase)
  | dies {conn : ℕ × ℕ} {closed readerDone transportLost : Bool} {c : CachedConn}
    (hclosed : (s.conns conn).closed = true → c.closed = true) :
    Step env s (.dies conn closed readerDone transportLost) (s.setConn conn c)

section

variable {env : Option String} {s s' : LoopRegistry} {a : Action}

theorem proceed_cases {i : ℕ × ℕ} {c : RegistryCall} (hcall : s.calls i = some (c, .queued))
    (hlock : s.lock i.1 = none) : Step env s (.acquire i) (s.proceed i c) := by
  cases c with
  | get socketPath =>
    simp only [proceed, lookup]
    split
    · rename_i hnone
      exact .connecting hcall hlock fun conn hconn => by cases hnone.symm.trans hconn
    · rename_i conn hcached
      split_ifs with halive hclosed
      · exact .found hcall hcached
      · refine .connecting hcall hlock fun d hd => ?_
        rw [hcached] at hd
        exact Option.some.inj hd ▸ hclosed
      · exact .closing hcall hlock hcached
  | dropCurrent =>
    simp only [proceed, drop]
    split
    · exact .idle hcall
    · rename_i conn hcached
      split_ifs with halive hclosed
      · exact .idle hcall
      · exact .taken hcall hcached hclosed
      · exact .dropping hcall hcached
  | acloseAll => exact .listed hcall hlock

theorem closeNext_cases {i : ℕ × ℕ} {c : RegistryCall} {conns : List (ℕ × (ℕ × ℕ))}
    (hcall : s.calls i = some (c, .sweeping conns)) :
    Step env s (.sweep i) (s.closeNext i c conns) := by
  rcases conns with _ | ⟨⟨loop, conn⟩, conns⟩
  · exact .finished hcall
  · simp only [closeNext]
    split_ifs with hclosed hloop
    · exact .passed hcall hclosed
    · exact .swept hcall (Or.inl rfl)
    · exact .swept hcall (Or.inr rfl)

theorem step_cases (h : step env s a = some s') : Step env s a s' := by
  cases a with
  | call i c =>
    simp only [step] at h
    split at h
    · obtain rfl := Option.some.inj h
      exact .call ‹_›
    · cases h
  | acquire i =>
    simp only [step] at h
    split at h
    · obtain rfl := Option.some.inj h
      exact proceed_cases ‹_› ‹_›
    · cases h
  | closed i =>
    simp only [step] at h
    split at h
    · obtain rfl := Option.some.inj h
      exact .closed ‹_›
    · obtain rfl := Option.some.inj h
      exact .dropped ‹_›
    · obtain rfl := Option.some.inj h
      exact .awaited ‹_›
    · cases h
  | connected i =>
    simp only [step] at h
    split at h
    · obtain rfl := Option.some.inj h
      exact .connected ‹_›
    · cases h
  | connectFails i =>
    simp only [step] at h
    split at h
    · obtain rfl := Option.some.inj h
      exact .releases (Or.inl rfl) ‹_› (Or.inr rfl)
    · cases h
  | cancel i =>
    simp only [step] at h
    split at h
    · obtain rfl := Option.some.inj h
      exact .raises ‹_› (Or.inl rfl)
    · obtain rfl := Option.some.inj h
      exact .raises ‹_› (Or.inl rfl)
    · obtain rfl := Option.some.inj h
      exact .raises ‹_› (Or.inr rfl)
    · obtain rfl := Option.some.inj h
      exact .releases (Or.inr rfl) ‹_› (Or.inl rfl)
    · obtain rfl := Option.some.inj h
      exact .releases (Or.inr rfl) ‹_› (Or.inr rfl)
    · cases h
  | clear i =>
    simp only [step] at h
    split at h
    · obtain rfl := Option.some.inj h
      exact .cleared ‹_›
    · cases h
  | sweep i =>
    simp only [step] at h
    split at h
    · obtain rfl := Option.some.inj h
      exact closeNext_cases ‹_›
    · cases h
  | dies conn closed readerDone transportLost =>
    simp only [step, Option.ite_none_right_eq_some, Option.some.injEq] at h
    obtain ⟨-, rfl⟩ := h
    exact .dies fun hclosed => by simp [hclosed]

/-! ## Whose connections they are -/

/-- The connection is one that the loop has opened. -/
def Opened (s : LoopRegistry) (loop : ℕ) (conn : ℕ × ℕ) : Prop :=
  conn.1 = loop ∧ conn.2 < s.opened loop

/-- The cached connection of a loop is closed, if there is one. -/
def CachedClosed (s : LoopRegistry) (loop : ℕ) : Prop :=
  ∀ conn, s.byLoop.get? loop = some conn → (s.conns conn).closed = true

/-- Every loop has its own connections : in the dictionary, in the lists that are made of it, and
in what its calls return. -/
structure Sound (s : LoopRegistry) : Prop where
  cached : ∀ {loop conn}, s.byLoop.get? loop = some conn → s.Opened loop conn
  listed : ∀ {i c phase}, s.calls i = some (c, phase) → ∀ p ∈ phase.conns, s.Opened p.1 p.2
  returned : ∀ {i c conn}, s.calls i = some (c, .returned (some conn)) → s.Opened i.1 conn
  held : ∀ {i c phase}, s.calls i = some (c, phase) → phase.Holds → s.lock i.1 = some i
  replaced : ∀ {i c phase}, s.calls i = some (c, phase) → phase.Replaces → s.CachedClosed i.1

theorem sound_init : init.Sound where
  cached h := by cases h
  listed h := by cases h
  returned h := by cases h
  held h := by cases h
  replaced h := by cases h

theorem calls_setPhase (i : ℕ × ℕ) (c : RegistryCall) (phase : LoopCallPhase) (j : ℕ × ℕ) :
    (s.setPhase i c phase).calls j = if j = i then some (c, phase) else s.calls j :=
  Function.update_apply ..

theorem conns_close (conn d : ℕ × ℕ) : (s.close conn).conns d =
    if d = conn then { s.conns conn with closed := true, transportLost := true } else s.conns d :=
  Function.update_apply ..

theorem closed_close {conn d : ℕ × ℕ} (h : (s.conns d).closed = true ∨ d = conn) :
    ((s.close conn).conns d).closed = true := by
  rw [conns_close]
  split_ifs with hd
  · rfl
  · exact h.resolve_right hd

/-- A closed connection stays closed. -/
theorem closed_step (hs : step env s a = some s') {loop : ℕ} {conn : ℕ × ℕ}
    (hconn : s.Opened loop conn) (h : (s.conns conn).closed = true) :
    (s'.conns conn).closed = true := by
  cases step_cases hs with
  | closing | dropping | swept => exact closed_close (Or.inl h)
  | @connected i =>
    have hne : conn ≠ (i.1, s.opened i.1) := by
      rintro rfl
      obtain ⟨rfl, hlt⟩ := hconn
      exact Nat.lt_irrefl _ hlt
    change (Function.update s.conns _ _ conn).closed = true
    rwa [Function.update_of_ne hne]
  | @dies d _ _ _ c hclosed =>
    change (Function.update s.conns d c conn).closed = true
    rw [Function.update_apply]
    split_ifs with hd
    · exact hclosed (hd ▸ h)
    · exact h
  | _ => exact h

/-- What a loop has opened it has opened for good. -/
theorem opened_step (hs : step env s a = some s') {loop : ℕ} {conn : ℕ × ℕ}
    (h : s.Opened loop conn) : s'.Opened loop conn := by
  cases step_cases hs with
  | @connected i =>
    refine ⟨h.1, ?_⟩
    change _ < Function.update s.opened i.1 _ loop
    rw [Function.update_apply]
    split_ifs with hl
    · subst hl
      exact Nat.lt_succ_of_lt h.2
    · exact h.2
  | _ => exact h

/-- A lock that is taken when it is free, or released by the call that has it, is not one that
another call has. -/
theorem lock_of_update {i j : ℕ × ℕ} {owner : Option (ℕ × ℕ)}
    (hi : s.lock i.1 = none ∨ s.lock i.1 = some i ∧ j ≠ i) (hj : s.lock j.1 = some j) :
    Function.update s.lock i.1 owner j.1 = some j := by
  have hl : j.1 ≠ i.1 := by
    intro hl
    rw [hl] at hj
    rcases hi with hi | ⟨hi, hji⟩
    · cases hi.symm.trans hj
    · exact hji (Option.some.inj (hj.symm.trans hi))
  rw [Function.update_of_ne hl, hj]

/-- One call goes on. -/
theorem Sound.update {i : ℕ × ℕ} {c : RegistryCall} {phase : LoopCallPhase} (h : s.Sound)
    (hs : step env s a = some s') (hcalls : s'.calls = (s.setPhase i c phase).calls)
    (hcached : ∀ {loop conn}, s'.byLoop.get? loop = some conn →
      s.byLoop.get? loop = some conn ∨ s'.Opened loop conn)
    (hlisted : ∀ p ∈ phase.conns, s.Opened p.1 p.2)
    (hreturned : ∀ {conn}, phase = .returned (some conn) → s'.Opened i.1 conn)
    (hheld : phase.Holds → s'.lock i.1 = some i)
    (hreplaced : phase.Replaces → s'.CachedClosed i.1)
    (hlock : ∀ j : ℕ × ℕ, j ≠ i → s.lock j.1 = some j →
      s'.lock j.1 = some j ∧ ∀ {conn}, s'.byLoop.get? j.1 = some conn →
        s.byLoop.get? j.1 = some conn) : s'.Sound := by
  have hcases : ∀ {j d q}, s'.calls j = some (d, q) →
      (j = i ∧ q = phase) ∨ (j ≠ i ∧ s.calls j = some (d, q)) := by
    intro j d q hj
    rw [hcalls, calls_setPhase] at hj
    split_ifs at hj with hji
    · exact Or.inl ⟨hji, (Prod.mk.inj (Option.some.inj hj)).2.symm⟩
    · exact Or.inr ⟨hji, hj⟩
  refine ⟨?_, ?_, ?_, ?_, ?_⟩
  · intro loop conn hconn
    exact (hcached hconn).elim (fun hold => opened_step hs (h.cached hold)) id
  · intro j d q hj p hp
    rcases hcases hj with ⟨-, rfl⟩ | ⟨-, hj⟩
    · exact opened_step hs (hlisted p hp)
    · exact opened_step hs (h.listed hj p hp)
  · intro j d conn hj
    rcases hcases hj with ⟨rfl, hq⟩ | ⟨-, hj⟩
    · exact hreturned hq.symm
    · exact opened_step hs (h.returned hj)
  · intro j d q hj hq
    rcases hcases hj with ⟨rfl, rfl⟩ | ⟨hji, hj⟩
    · exact hheld hq
    · exact (hlock j hji (h.held hj hq)).1
  · intro j d q hj hq
    rcases hcases hj with ⟨rfl, rfl⟩ | ⟨hji, hj⟩
    · exact hreplaced hq
    · intro conn hconn
      have hold := (hlock j hji (h.held hj (Or.inl hq))).2 hconn
      exact closed_step hs (h.cached hold) (h.replaced hj hq conn hold)

/-- The call does not come to hold the lock. -/
theorem Sound.unlocked {i : ℕ × ℕ} {c : RegistryCall} {phase : LoopCallPhase} (h : s.Sound)
    (hs : step env s a = some s') (hcalls : s'.calls = (s.setPhase i c phase).calls)
    (hcached : ∀ {loop conn}, s'.byLoop.get? loop = some conn →
      s.byLoop.get? loop = some conn ∨ s'.Opened loop conn)
    (hlisted : ∀ p ∈ phase.conns, s.Opened p.1 p.2)
    (hreturned : ∀ {conn}, phase = .returned (some conn) → s'.Opened i.1 conn)
    (hphase : ¬phase.Holds)
    (hlock : ∀ j : ℕ × ℕ, j ≠ i → s.lock j.1 = some j →
      s'.lock j.1 = some j ∧ ∀ {conn}, s'.byLoop.get? j.1 = some conn →
        s.byLoop.get? j.1 = some conn) : s'.Sound :=
  h.update hs hcalls hcached hlisted hreturned (fun hq => absurd hq hphase)
    (fun hq => absurd (Or.inl hq) hphase) hlock

/-- The call does not come to hold the lock, and the dictionary and the locks stay. -/
theorem Sound.goesOn {i : ℕ × ℕ} {c : RegistryCall} {phase : LoopCallPhase} (h : s.Sound)
    (hs : step env s a = some s') (hcalls : s'.calls = (s.setPhase i c phase).calls)
    (hbyLoop : s'.byLoop = s.byLoop) (hlock : s'.lock = s.lock)
    (hlisted : ∀ p ∈ phase.conns, s.Opened p.1 p.2)
    (hreturned : ∀ {conn}, phase = .returned (some conn) → s.Opened i.1 conn)
    (hphase : ¬phase.Holds) : s'.Sound := by
  refine h.unlocked hs hcalls ?_ hlisted (fun hq => opened_step hs (hreturned hq)) hphase ?_
  · rw [hbyLoop]
    exact Or.inl
  · intro j _ hj
    rw [hbyLoop, hlock]
    exact ⟨hj, id⟩

theorem not_holds {phase : LoopCallPhase} (h : phase = .queued ∨ phase = .dropping ∨
    (∃ conns, phase = .sweeping conns ∨ phase = .awaiting conns) ∨
    (∃ conn, phase = .returned conn) ∨ phase = .raised) : ¬phase.Holds := by
  rintro ((rfl | rfl) | ⟨conns, rfl⟩) <;> simp at h

theorem Sound.step (h : s.Sound) (hs : step env s a = some s') : s'.Sound := by
  cases step_cases hs with
  | call =>
    exact h.goesOn hs rfl rfl rfl (by simp [LoopCallPhase.conns]) (by simp) (not_holds (by simp))
  | @found i conn c hcall hcached =>
    refine h.goesOn hs rfl rfl rfl (by simp [LoopCallPhase.conns]) (fun hq => ?_)
      (not_holds (by simp))
    obtain rfl := Option.some.inj (LoopCallPhase.returned.inj hq)
    exact h.cached hcached
  | idle | dropped | raises | finished =>
    exact h.goesOn hs rfl rfl rfl (by simp [LoopCallPhase.conns]) (by simp) (not_holds (by simp))
  | awaited hcall =>
    exact h.goesOn hs rfl rfl rfl (fun q hq => h.listed hcall q hq) (by simp) (not_holds (by simp))
  | passed hcall =>
    exact h.goesOn hs rfl rfl rfl (fun q hq => h.listed hcall q (List.mem_cons_of_mem _ hq))
      (by simp) (not_holds (by simp))
  | @swept i c phase p conns hcall hphase =>
    have hconns : phase.conns = conns := by
      rcases hphase with rfl | rfl <;> rfl
    refine h.goesOn hs rfl rfl rfl ?_ (by rcases hphase with rfl | rfl <;> simp)
      (not_holds (by rcases hphase with rfl | rfl <;> simp))
    rw [hconns]
    exact fun q hq => h.listed hcall q (List.mem_cons_of_mem _ hq)
  | @connecting i c hcall hlock hclosed =>
    exact h.update hs rfl Or.inl (by simp [LoopCallPhase.conns]) (by simp)
      (fun _ => Function.update_self ..) (fun _ => hclosed)
      fun j _ hj => ⟨lock_of_update (Or.inl hlock) hj, id⟩
  | @closing i conn c hcall hlock hcached =>
    refine h.update hs rfl Or.inl (by simp [LoopCallPhase.conns]) (by simp)
      (fun _ => Function.update_self ..) (fun _ d hd => ?_)
      fun j _ hj => ⟨lock_of_update (Or.inl hlock) hj, id⟩
    exact closed_close (Or.inr (Option.some.inj (hd.symm.trans hcached)))
  | taken | dropping =>
    exact h.unlocked hs rfl (fun hd => Or.inl (Dict.get?_of_erase hd))
      (by simp [LoopCallPhase.conns]) (by simp) (not_holds (by simp))
      fun j _ hj => ⟨hj, fun hd => Dict.get?_of_erase hd⟩
  | @listed i hcall hlock =>
    refine h.update hs rfl Or.inl (fun p hp => h.cached (Dict.mem_entries.1 hp)) (by simp)
      (fun _ => Function.update_self ..) (by simp [LoopCallPhase.Replaces])
      fun j _ hj => ⟨lock_of_update (Or.inl hlock) hj, id⟩
  | @closed i c hcall =>
    exact h.update hs rfl Or.inl (by simp [LoopCallPhase.conns]) (by simp)
      (fun _ => h.held hcall (Or.inl (Or.inl rfl))) (fun _ => h.replaced hcall (Or.inl rfl))
      fun _ _ hj => ⟨hj, id⟩
  | @connected i socketPath hcall =>
    have hlock := h.held hcall (Or.inl (Or.inr rfl))
    have hnew : (s.connect i (.get socketPath) (socketPathOf env socketPath)).Opened i.1
        (i.1, s.opened i.1) := by
      refine ⟨rfl, ?_⟩
      change _ < Function.update s.opened i.1 _ i.1
      rw [Function.update_self]
      exact Nat.lt_succ_self _
    refine h.unlocked hs rfl (fun {loop conn} hd => ?_) (by simp [LoopCallPhase.conns])
      (fun hq => ?_) (not_holds (by simp)) fun j hji hj => ?_
    · by_cases hl : loop = i.1
      · subst hl
        obtain rfl := Option.some.inj ((Dict.get?_set_self ..).symm.trans hd)
        exact Or.inr hnew
      · exact Or.inl ((Dict.get?_set_of_ne _ _ hl).symm.trans hd)
    · obtain rfl := Option.some.inj (LoopCallPhase.returned.inj hq)
      exact hnew
    · have hl : j.1 ≠ i.1 := fun hl =>
        hji (Option.some.inj (hj.symm.trans ((congrArg s.lock hl).trans hlock)))
      exact ⟨(Function.update_of_ne hl ..).trans hj,
        fun hd => (Dict.get?_set_of_ne _ _ hl).symm.trans hd⟩
  | @releases i a c phase ha hcall hphase =>
    have hlock := h.held hcall (Or.inl hphase)
    exact h.unlocked hs rfl Or.inl (by simp [LoopCallPhase.conns]) (by simp) (not_holds (by simp))
      fun j hji hj => ⟨lock_of_update (Or.inr ⟨hlock, hji⟩) hj, id⟩
  | @cleared i c conns hcall =>
    have hlock := h.held hcall (Or.inr ⟨conns, rfl⟩)
    exact h.unlocked hs rfl (fun hd => by cases hd) (fun p hp => h.listed hcall p hp) (by simp)
      (not_holds (by simp))
      fun j hji hj => ⟨lock_of_update (Or.inr ⟨hlock, hji⟩) hj, fun hd => by cases hd⟩
  | dies =>
    exact ⟨h.cached, h.listed, h.returned, h.held, fun hj hq conn hconn =>
      closed_step hs (h.cached hconn) (h.replaced hj hq conn hconn)⟩

theorem sound_run {as : List Action} (hrun : Machine.run (LoopRegistry.step env) init as = some s) :
    s.Sound :=
  Machine.run_induction (fun _ t => t.Sound) sound_init (fun _ h hs => h.step hs) hrun

/-! ## What becomes of a connection -/

/-- The connections that a call has listed and not closed. -/
def toSweep (s : LoopRegistry) (i : ℕ × ℕ) : List (ℕ × (ℕ × ℕ)) :=
  match s.calls i with
  | some (_, phase) => phase.conns
  | none => []

/-- The connection is closed, or cached by its loop, or in the list of an `aclose_all`. -/
def Held (s : LoopRegistry) (conn : ℕ × ℕ) : Prop :=
  (s.conns conn).closed = true ∨ s.byLoop.get? conn.1 = some conn ∨
    ∃ i, (conn.1, conn) ∈ s.toSweep i

/-- The action loses the connection : an `aclose_all` clears the dictionary, in which it was put
after the dictionary was listed, or one that has it in its list is cancelled. -/
def Loses (s : LoopRegistry) (conn : ℕ × ℕ) : Action → Prop
  | .clear i => s.byLoop.get? conn.1 = some conn ∧ (conn.1, conn) ∉ s.toSweep i
  | .cancel i => (conn.1, conn) ∈ s.toSweep i
  | _ => False

theorem toSweep_of_calls {i : ℕ × ℕ} {c : RegistryCall} {phase : LoopCallPhase}
    (h : s.calls i = some (c, phase)) : s.toSweep i = phase.conns := by
  rw [toSweep, h]

/-- One call goes on. -/
theorem Held.update {conn i : ℕ × ℕ} {c : RegistryCall} {phase : LoopCallPhase} (h : s.Held conn)
    (hcalls : s'.calls = (s.setPhase i c phase).calls)
    (hclosed : (s.conns conn).closed = true → (s'.conns conn).closed = true)
    (hcached : s.byLoop.get? conn.1 = some conn → s'.Held conn)
    (hlisted : (conn.1, conn) ∈ s.toSweep i →
      (conn.1, conn) ∈ phase.conns ∨ (s'.conns conn).closed = true) : s'.Held conn := by
  have hnew : s'.toSweep i = phase.conns :=
    toSweep_of_calls (by rw [hcalls, calls_setPhase, if_pos rfl])
  rcases h with h | h | ⟨j, hj⟩
  · exact Or.inl (hclosed h)
  · exact hcached h
  · by_cases hji : j = i
    · subst hji
      exact (hlisted hj).elim (fun hj => Or.inr (Or.inr ⟨j, hnew ▸ hj⟩)) Or.inl
    · refine Or.inr (Or.inr ⟨j, ?_⟩)
      rwa [toSweep, hcalls, calls_setPhase, if_neg hji]

/-- A step either keeps hold of a connection or loses it. -/
theorem Held.step {conn : ℕ × ℕ} (h : s.Held conn) (hsound : s.Sound)
    (hconn : s.Opened conn.1 conn) (hs : step env s a = some s') :
    s'.Held conn ∨ s.Loses conn a := by
  have hclosed := closed_step hs hconn
  cases step_cases hs with
  | @call i c hnone =>
    exact Or.inl (h.update rfl hclosed (fun hc => Or.inr (Or.inl hc)) (by simp [toSweep, hnone]))
  | found hcall | idle hcall | connecting hcall | closing hcall | listed hcall | closed hcall
  | dropped hcall | finished hcall =>
    exact Or.inl (h.update rfl hclosed (fun hc => Or.inr (Or.inl hc))
      (by simp [toSweep_of_calls hcall, LoopCallPhase.conns]))
  | awaited hcall =>
    refine Or.inl (h.update rfl hclosed (fun hc => Or.inr (Or.inl hc)) fun hmem => Or.inl ?_)
    rwa [toSweep_of_calls hcall] at hmem
  | @taken i d c hcall hcached hd =>
    refine Or.inl (h.update rfl hclosed (fun hc => ?_)
      (by simp [toSweep_of_calls hcall, LoopCallPhase.conns]))
    by_cases hl : conn.1 = i.1
    · rw [hl, hcached] at hc
      exact Or.inl (Option.some.inj hc ▸ hd)
    · exact Or.inr (Or.inl ((Dict.get?_erase_of_ne _ hl).trans hc))
  | @dropping i d c hcall hcached =>
    refine Or.inl (h.update rfl hclosed (fun hc => ?_)
      (by simp [toSweep_of_calls hcall, LoopCallPhase.conns]))
    by_cases hl : conn.1 = i.1
    · rw [hl, hcached] at hc
      exact Or.inl (closed_close (Or.inr (Option.some.inj hc).symm))
    · exact Or.inr (Or.inl ((Dict.get?_erase_of_ne _ hl).trans hc))
  | @connected i socketPath hcall =>
    refine Or.inl (h.update rfl hclosed (fun hc => ?_)
      (by simp [toSweep_of_calls hcall, LoopCallPhase.conns]))
    by_cases hl : conn.1 = i.1
    · rw [hl] at hc
      exact Or.inl (hclosed (hsound.replaced hcall (Or.inr rfl) conn hc))
    · exact Or.inr (Or.inl ((Dict.get?_set_of_ne _ _ hl).trans hc))
  | @releases i a c phase ha hcall hphase =>
    refine Or.inl (h.update rfl hclosed (fun hc => Or.inr (Or.inl hc)) ?_)
    rcases hphase with rfl | rfl <;> simp [toSweep_of_calls hcall, LoopCallPhase.conns]
  | @raises i c phase hcall hphase =>
    by_cases hlist : (conn.1, conn) ∈ s.toSweep i
    · exact Or.inr hlist
    · exact Or.inl (h.update rfl hclosed (fun hc => Or.inr (Or.inl hc))
        fun hmem => absurd hmem hlist)
  | @cleared i c conns hcall =>
    by_cases hlost : s.byLoop.get? conn.1 = some conn ∧ (conn.1, conn) ∉ s.toSweep i
    · exact Or.inr hlost
    · refine Or.inl (h.update rfl hclosed (fun hc => ?_) fun hmem => Or.inl ?_)
      · refine Or.inr (Or.inr ⟨i, ?_⟩)
        have hmem : (conn.1, conn) ∈ s.toSweep i := by
          by_contra hmem
          exact hlost ⟨hc, hmem⟩
        have hcalls : (s.clearAll i c conns).calls i = some (c, .sweeping conns) :=
          (calls_setPhase ..).trans (if_pos rfl)
        rw [toSweep_of_calls hcall] at hmem
        rw [toSweep_of_calls hcalls]
        exact hmem
      · rwa [toSweep_of_calls hcall] at hmem
  | @passed i c p conns hcall hp =>
    refine Or.inl (h.update rfl hclosed (fun hc => Or.inr (Or.inl hc)) fun hmem => ?_)
    rw [toSweep_of_calls hcall] at hmem
    rcases List.mem_cons.1 hmem with rfl | hmem
    · exact Or.inr hp
    · exact Or.inl hmem
  | @swept i c phase p conns hcall hphase =>
    refine Or.inl (h.update rfl hclosed (fun hc => Or.inr (Or.inl hc)) fun hmem => ?_)
    rw [toSweep_of_calls hcall] at hmem
    rcases List.mem_cons.1 hmem with rfl | hmem
    · exact Or.inr (closed_close (Or.inr rfl))
    · exact Or.inl (by rcases hphase with rfl | rfl <;> exact hmem)
  | dies =>
    exact Or.inl (h.imp_left hclosed)

/-- The call that the action is a step of. -/
def Action.actor : Action → Option (ℕ × ℕ)
  | call i _ | acquire i | closed i | connected i | connectFails i | cancel i | clear i | sweep i =>
    i
  | dies .. => none

/-- No step touches another call. -/
theorem calls_step (hs : step env s a = some s') {i : ℕ × ℕ} (hi : a.actor ≠ some i) :
    s'.calls i = s.calls i := by
  have hne : ∀ {j : ℕ × ℕ} {c : RegistryCall} {phase : LoopCallPhase}, a.actor = some j →
      (s.setPhase j c phase).calls i = s.calls i := by
    intro j c phase hj
    rw [calls_setPhase, if_neg (by rintro rfl; exact hi hj)]
  cases step_cases hs with
  | releases ha => rcases ha with rfl | rfl <;> exact hne rfl
  | dies => rfl
  | _ => exact hne rfl

/-- The call is past its `clear`, and what it listed is closed, or still in its list, unless it
was cancelled. -/
def Sweeps (s : LoopRegistry) (i : ℕ × ℕ) (conns : List (ℕ × (ℕ × ℕ))) : Prop :=
  ∃ c phase, s.calls i = some (c, phase) ∧ (phase = .raised ∨
    (phase = .returned none ∨ phase = .sweeping phase.conns ∨ phase = .awaiting phase.conns) ∧
      ∀ p ∈ conns, (s.conns p.2).closed = true ∨ p ∈ phase.conns)

theorem Sweeps.step {i : ℕ × ℕ} {conns : List (ℕ × (ℕ × ℕ))} (h : s.Sweeps i conns)
    (hconns : ∀ p ∈ conns, s.Opened p.1 p.2) (hs : step env s a = some s') :
    s'.Sweeps i conns := by
  obtain ⟨c, phase, hcall, hphase⟩ := h
  have hclosed : ∀ p ∈ conns, (s.conns p.2).closed = true → (s'.conns p.2).closed = true :=
    fun p hp => closed_step hs (hconns p hp)
  by_cases hi : a.actor = some i
  · have hself : ∀ {j : ℕ × ℕ} {d : RegistryCall} {q : LoopCallPhase},
        (s.setPhase j d q).calls j = some (d, q) :=
      (calls_setPhase ..).trans (if_pos rfl)
    cases step_cases hs with
    | call hnone =>
      obtain rfl := Option.some.inj hi
      cases hnone.symm.trans hcall
    | found h | idle h | connecting h | closing h | taken h | dropping h | listed h | closed h
    | dropped h | connected h | cleared h =>
      obtain rfl := Option.some.inj hi
      obtain ⟨rfl, rfl⟩ := Prod.mk.inj (Option.some.inj (hcall.symm.trans h))
      simp at hphase
    | @awaited _ _ cs h =>
      obtain rfl := Option.some.inj hi
      obtain ⟨rfl, rfl⟩ := Prod.mk.inj (Option.some.inj (hcall.symm.trans h))
      exact ⟨c, .sweeping cs, hself,
        Or.inr ⟨Or.inr (Or.inl rfl), (hphase.resolve_left (by simp)).2⟩⟩
    | finished h =>
      obtain rfl := Option.some.inj hi
      obtain ⟨rfl, rfl⟩ := Prod.mk.inj (Option.some.inj (hcall.symm.trans h))
      exact ⟨c, .returned none, hself,
        Or.inr ⟨Or.inl rfl, (hphase.resolve_left (by simp)).2⟩⟩
    | @passed _ _ p cs h hp =>
      obtain rfl := Option.some.inj hi
      obtain ⟨rfl, rfl⟩ := Prod.mk.inj (Option.some.inj (hcall.symm.trans h))
      refine ⟨c, .sweeping cs, hself, Or.inr ⟨Or.inr (Or.inl rfl), fun q hq => ?_⟩⟩
      rcases (hphase.resolve_left (by simp)).2 q hq with hq | hq
      · exact Or.inl hq
      · exact (List.mem_cons.1 hq).imp_left fun hqp => by rwa [hqp]
    | @swept _ _ q p cs h hq =>
      obtain rfl := Option.some.inj hi
      obtain ⟨rfl, rfl⟩ := Prod.mk.inj (Option.some.inj (hcall.symm.trans h))
      have hcs : q.conns = cs := by
        rcases hq with rfl | rfl <;> rfl
      refine ⟨c, q, hself, Or.inr ⟨Or.inr (hcs.symm ▸ hq.symm), fun r hr => ?_⟩⟩
      rw [hcs]
      rcases (hphase.resolve_left (by simp)).2 r hr with hclosed | hmem
      · exact Or.inl (closed_close (Or.inl hclosed))
      · exact (List.mem_cons.1 hmem).imp_left fun hrp =>
          closed_close (Or.inr (congrArg Prod.snd hrp))
    | raises h =>
      obtain rfl := Option.some.inj hi
      exact ⟨_, .raised, hself, Or.inl rfl⟩
    | @releases j b d q ha h hq =>
      have hj : a.actor = some j := by
        rcases ha with rfl | rfl <;> rfl
      obtain rfl := Option.some.inj (hj.symm.trans hi)
      obtain ⟨rfl, rfl⟩ := Prod.mk.inj (Option.some.inj (hcall.symm.trans h))
      rcases hq with rfl | rfl <;> simp at hphase
    | dies => cases hi
  · refine ⟨c, phase, (calls_step hs hi).trans hcall, hphase.imp_right fun ⟨hpast, hall⟩ => ?_⟩
    exact ⟨hpast, fun p hp => (hall p hp).imp_left (hclosed p hp)⟩

/-- The connection was lost in the run. -/
def Lost (env : Option String) (as : List Action) (conn : ℕ × ℕ) : Prop :=
  ∃ pre a post t, as = pre ++ a :: post ∧ Machine.run (LoopRegistry.step env) init pre = some t ∧
    t.Loses conn a

theorem Lost.concat {as : List Action} {conn : ℕ × ℕ} (h : Lost env as conn) (a : Action) :
    Lost env (as ++ [a]) conn := by
  obtain ⟨pre, b, post, t, rfl, hrun, hloses⟩ := h
  exact ⟨pre, b, post ++ [a], t, by simp, hrun, hloses⟩

/-- A connection that a step opens is cached. -/
theorem held_of_opened (hs : step env s a = some s') {conn : ℕ × ℕ}
    (hconn : s'.Opened conn.1 conn) : s.Opened conn.1 conn ∨ s'.Held conn := by
  cases step_cases hs with
  | @connected i socketPath hcall =>
    obtain ⟨-, hlt⟩ := hconn
    change _ < Function.update s.opened i.1 _ conn.1 at hlt
    rw [Function.update_apply] at hlt
    split_ifs at hlt with hl
    · rcases Nat.lt_succ_iff_lt_or_eq.1 hlt with hlt | heq
      · exact Or.inl ⟨rfl, hl ▸ hlt⟩
      · obtain rfl : conn = (i.1, s.opened i.1) := Prod.ext hl heq
        exact Or.inr (Or.inr (Or.inl (Dict.get?_set_self ..)))
    · exact Or.inl ⟨rfl, hlt⟩
  | _ => exact Or.inl hconn

theorem held_or_lost {as : List Action} {conn : ℕ × ℕ}
    (hrun : Machine.run (LoopRegistry.step env) init as = some s) (hconn : s.Opened conn.1 conn) :
    s.Held conn ∨ Lost env as conn := by
  refine Machine.run_induction (fun as t => t.Opened conn.1 conn → t.Held conn ∨ Lost env as conn)
    (fun h => absurd h.2 (Nat.not_lt_zero _)) (fun {as t a t'} ht ih hs hopened => ?_) hrun hconn
  rcases held_of_opened hs hopened with hold | hnew
  · rcases ih hold with hheld | hlost
    · exact (hheld.step (sound_run ht) hold hs).imp_right fun hloses =>
        ⟨as, a, [], t, rfl, ht, hloses⟩
    · exact Or.inr (hlost.concat a)
  · exact Or.inl hnew

/-- Whatever the threads do, the calls of a loop return connections of that loop, and a
connection that was opened is closed, cached by its loop or in the list of an `aclose_all`, unless
one cleared the dictionary when the connection was there and not listed, or was cancelled with it
in its list. An `aclose_all` that returns has closed all that it listed. -/
theorem connections_accounted {as : List Action}
    (hrun : Machine.run (step env) init as = some s) :
    (∀ i c conn, s.calls i = some (c, .returned (some conn)) → conn.1 = i.1) ∧
    (∀ loop conn, s.byLoop.get? loop = some conn → conn.1 = loop) ∧
    (∀ conn, conn.2 < s.opened conn.1 → s.Held conn ∨ Lost env as conn) ∧
    ∀ pre i post t conns, as = pre ++ .clear i :: post →
      Machine.run (step env) init pre = some t →
        t.calls i = some (.acloseAll, .listed conns) →
          s.calls i = some (.acloseAll, .returned none) →
            ∀ p ∈ conns, (s.conns p.2).closed = true := by
  have hsound := sound_run hrun
  refine ⟨fun i c conn hcall => (hsound.returned hcall).1, fun loop conn h => (hsound.cached h).1,
    fun conn hconn => held_or_lost hrun ⟨rfl, hconn⟩, ?_⟩
  rintro pre i post t conns rfl hpre hlisted hreturned p hp
  obtain ⟨u, u', hu, hclear, hpost⟩ := Machine.run_split hrun
  obtain rfl : u = t := Option.some.inj (hu.symm.trans hpre)
  obtain rfl : u.clearAll i .acloseAll conns = u' := by
    simpa [step, hlisted] using hclear
  have hcall : (u.clearAll i .acloseAll conns).calls i = some (.acloseAll, .sweeping conns) :=
    (calls_setPhase ..).trans (if_pos rfl)
  have hopened : ∀ p ∈ conns, (u.clearAll i .acloseAll conns).Opened p.1 p.2 :=
    (sound_run hu).listed hlisted
  obtain ⟨⟨c, phase, hend, hphase⟩, -⟩ := Machine.run_invariant
    (fun v => v.Sweeps i conns ∧ ∀ p ∈ conns, v.Opened p.1 p.2) (fun _ _ => True)
    (fun ⟨hv, hconns⟩ _ hs => ⟨hv.step hconns hs, fun p hp => opened_step hs (hconns p hp)⟩)
    ⟨⟨.acloseAll, .sweeping conns, hcall, Or.inr ⟨Or.inr (Or.inl rfl), fun p => Or.inr⟩⟩, hopened⟩
    (Machine.along_of_forall (fun _ _ _ => trivial) _) hpost
  obtain ⟨rfl, rfl⟩ := Prod.mk.inj (Option.some.inj (hend.symm.trans hreturned))
  exact ((hphase.resolve_left (by simp)).2 p hp).resolve_right (by simp [LoopCallPhase.conns])

/-- `get` on a loop, up to its end. -/
def opens (i : ℕ × ℕ) : List Action :=
  [.call i (.get none), .acquire i, .connected i]

/-- A thread opens a connection between the list and the `clear` of another one. -/
def race : List Action :=
  opens (0, 0) ++ [.call (1, 0) .acloseAll, .acquire (1, 0)] ++ opens (2, 0) ++
    [.clear (1, 0), .sweep (1, 0), .sweep (1, 0)]

theorem connections_accounted_race : ∃ s, Machine.run (step none) init race = some s ∧
    (s.conns (0, 0)).closed = true ∧ (s.conns (2, 0)).closed = false ∧
      s.byLoop.get? 2 = none ∧ Lost none race (2, 0) := by
  have hlost : Lost none race (2, 0) :=
    ⟨opens (0, 0) ++ [.call (1, 0) .acloseAll, .acquire (1, 0)] ++ opens (2, 0), .clear (1, 0),
      [.sweep (1, 0), .sweep (1, 0)], _, rfl, rfl, rfl, by decide⟩
  have hrace : ∃ s, Machine.run (step none) init race = some s ∧
      s.calls (1, 0) = some (.acloseAll, .returned none) ∧
      (s.conns (2, 0)).closed = false ∧ s.byLoop.get? 2 = none :=
    ⟨_, rfl, rfl, rfl, rfl⟩
  obtain ⟨s, hrun, hreturned, hopen, hcached⟩ := hrace
  refine ⟨s, hrun, ?_, hopen, hcached, hlost⟩
  exact (connections_accounted hrun).2.2.2
    (opens (0, 0) ++ [.call (1, 0) .acloseAll, .acquire (1, 0)] ++ opens (2, 0)) (1, 0)
    [.sweep (1, 0), .sweep (1, 0)] _ [(0, (0, 0))] rfl rfl rfl hreturned (0, (0, 0)) (by simp)

end

end LoopRegistry

end PilotLanggraph

import Mathlib.Logic.Function.Basic
import PilotLanggraph.Lib.Machine

/-!
# The shared connection

`_ConnectionRegistry` on one event loop : `get`, `drop_current` and `aclose_all`, from one await
to the next, with connections that die in between, connects that fail and calls that are
cancelled. A call is named by a number, and so is a connection, in the order in which they are
opened. All three calls take the lock; the closes of `drop_current` and `aclose_all` come after
it is released.

* `live_kept` : without `aclose_all`, a live connection is not closed by the registry, a live
  cached one stays cached, and every other one is closed.
* `get_returns_requested` : `get` returns a connection to the requested path exactly if it does
  not find a live one to another path.
-/

namespace PilotLanggraph

/-- A `PilotConnection`, as the registry sees it. -/
structure CachedConn where
  /-- `conn.socket_path`. -/
  socketPath : String
  /-- `conn._closed.is_set()`. -/
  closed : Bool
  /-- `conn._reader_task.done()`. -/
  readerDone : Bool
  /-- The transport of the writer is gone or closing. -/
  transportLost : Bool
  deriving DecidableEq

/-- `conn.is_alive()`. -/
def CachedConn.isAlive (conn : CachedConn) : Bool :=
  if conn.closed then false
  else if conn.readerDone then false
  else !conn.transportLost

/-- The path that `PilotConnection.connect` opens, with `$PILOT_SOCKET` in `env`. -/
def socketPathOf (env : Option String) (socketPath : Option String) : String :=
  match socketPath with
  | some path => if path = "" then env.getD "/tmp/pilot.sock" else path
  | none => env.getD "/tmp/pilot.sock"

/-- A call of the registry, -/
inductive RegistryCall
  | get (socketPath : Option String)
  | dropCurrent
  | acloseAll
  deriving DecidableEq

/-- and where it is. -/
inductive RegistryPhase
  /-- It waits for the lock. -/
  | queued
  /-- `get`, in the `close` of the connection that is no longer alive, -/
  | closing
  /-- and in `connect`. -/
  | connecting
  /-- `drop_current` or `aclose_all`, in the `close` of a connection it took out. -/
  | dropping
  | returned (conn : Option ℕ)
  /-- It raised or was cancelled. -/
  | raised
  deriving DecidableEq

/-- `_ConnectionRegistry` with the connections it has opened. -/
structure ConnectionRegistry where
  opened : ℕ
  conns : ℕ → CachedConn
  /-- `self._by_loop.get(id(loop))`. -/
  cached : Option ℕ
  /-- The call that holds the lock of the loop. -/
  lock : Option ℕ
  calls : ℕ → Option (RegistryCall × RegistryPhase)

namespace ConnectionRegistry

/-- What can happen. -/
inductive Action
  | call (i : ℕ) (c : RegistryCall)
  /-- The call gets the lock, and goes on to its next await. -/
  | acquire (i : ℕ)
  /-- The `close` that a call waits for is over. -/
  | closed (i : ℕ)
  | connected (i : ℕ)
  /-- `connect` raises. -/
  | connectFails (i : ℕ)
  | cancel (i : ℕ)
  /-- A connection is closed by somebody else, or it loses its daemon. -/
  | dies (conn : ℕ) (closed readerDone transportLost : Bool)

/-- A new registry. -/
def init : ConnectionRegistry where
  opened := 0
  conns _ := ⟨"", true, true, true⟩
  cached := none
  lock := none
  calls _ := none

def setPhase (s : ConnectionRegistry) (i : ℕ) (c : RegistryCall) (phase : RegistryPhase) :
    ConnectionRegistry :=
  { s with calls := Function.update s.calls i (some (c, phase)) }

def setConn (s : ConnectionRegistry) (conn : ℕ) (c : CachedConn) : ConnectionRegistry :=
  { s with conns := Function.update s.conns conn c }

/-- `await conn.close()`, up to its await. -/
def close (s : ConnectionRegistry) (conn : ℕ) : ConnectionRegistry :=
  s.setConn conn { s.conns conn with closed := true, transportLost := true }

/-- The connection is alive. -/
def Alive (s : ConnectionRegistry) (conn : ℕ) : Prop :=
  (s.conns conn).isAlive = true

instance (s : ConnectionRegistry) (conn : ℕ) : Decidable (s.Alive conn) :=
  inferInstanceAs (Decidable (_ = _))

/-- `get`, once it has the lock. -/
def lookup (s : ConnectionRegistry) (i : ℕ) (c : RegistryCall) : ConnectionRegistry :=
  match s.cached with
  | none => { s.setPhase i c .connecting with lock := some i }
  | some conn =>
    if s.Alive conn then s.setPhase i c (.returned conn)
    else if (s.conns conn).closed then { s.setPhase i c .connecting with lock := some i }
    else { (s.close conn).setPhase i c .closing with lock := some i }

/-- The connection is taken out and closed. The lock is released before the await. -/
def takeOut (s : ConnectionRegistry) (i : ℕ) (c : RegistryCall) (conn : ℕ) : ConnectionRegistry :=
  if (s.conns conn).closed then { s.setPhase i c (.returned none) with cached := none }
  else { (s.close conn).setPhase i c .dropping with cached := none }

/-- `drop_current`, once it has the lock. -/
def drop (s : ConnectionRegistry) (i : ℕ) (c : RegistryCall) : ConnectionRegistry :=
  match s.cached with
  | none => s.setPhase i c (.returned none)
  | some conn =>
    if s.Alive conn then s.setPhase i c (.returned none) else s.takeOut i c conn

/-- `aclose_all`, once it has the lock. -/
def closeAll (s : ConnectionRegistry) (i : ℕ) (c : RegistryCall) : ConnectionRegistry :=
  match s.cached with
  | none => s.setPhase i c (.returned none)
  | some conn => s.takeOut i c conn

/-- A call that has the lock. -/
def proceed (s : ConnectionRegistry) (i : ℕ) (c : RegistryCall) : ConnectionRegistry :=
  match c with
  | .get _ => s.lookup i c
  | .dropCurrent => s.drop i c
  | .acloseAll => s.closeAll i c

/-- `connect` has opened a connection. -/
def connect (s : ConnectionRegistry) (i : ℕ) (c : RegistryCall) (path : String) :
    ConnectionRegistry :=
  { s.setPhase i c (.returned s.opened) with
    opened := s.opened + 1
    conns := Function.update s.conns s.opened ⟨path, false, false, false⟩
    cached := some s.opened
    lock := none }

/-- One action, if it can happen. -/
def step (env : Option String) (s : ConnectionRegistry) : Action → Option ConnectionRegistry
  | .call i c =>
    match s.calls i with
    | none => some (s.setPhase i c .queued)
    | some _ => none
  | .acquire i =>
    match s.calls i, s.lock with
    | some (c, .queued), none => some (s.proceed i c)
    | _, _ => none
  | .closed i =>
    match s.calls i with
    | some (c, .closing) => some (s.setPhase i c .connecting)
    | some (c, .dropping) => some (s.setPhase i c (.returned none))
    | _ => none
  | .connected i =>
    match s.calls i with
    | some (.get socketPath, .connecting) =>
      some (s.connect i (.get socketPath) (socketPathOf env socketPath))
    | _ => none
  | .connectFails i =>
    match s.calls i with
    | some (c, .connecting) => some { s.setPhase i c .raised with lock := none }
    | _ => none
  | .cancel i =>
    match s.calls i with
    | some (c, .queued) | some (c, .dropping) => some (s.setPhase i c .raised)
    | some (c, .closing) | some (c, .connecting) =>
      some { s.setPhase i c .raised with lock := none }
    | _ => none
  | .dies conn closed readerDone transportLost =>
    if conn < s.opened then
      some (s.setConn conn { s.conns conn with
        closed := (s.conns conn).closed || closed
        readerDone := (s.conns conn).readerDone || readerDone
        transportLost := (s.conns conn).transportLost || transportLost })
    else none

/-- What an action does where it can be taken. -/
inductive Step (env : Option String) (s : ConnectionRegistry) : Action → ConnectionRegistry → Prop
  | call {i : ℕ} {c : RegistryCall} (hnone : s.calls i = none) :
    Step env s (.call i c) (s.setPhase i c .queued)
  /-- `get` finds a live connection. -/
  | found {i conn : ℕ} {c : RegistryCall} (hcall : s.calls i = some (c, .queued))
    (hlock : s.lock = none) (hc : c ≠ .dropCurrent ∧ c ≠ .acloseAll)
    (hcached : s.cached = some conn) (halive : s.Alive conn) :
    Step env s (.acquire i) (s.setPhase i c (.returned conn))
  /-- There is nothing to drop. -/
  | idle {i : ℕ} {c : RegistryCall} (hcall : s.calls i = some (c, .queued))
    (hlock : s.lock = none) (hc : c = .dropCurrent ∨ c = .acloseAll) :
    Step env s (.acquire i) (s.setPhase i c (.returned none))
  /-- `get` finds none, or one that is closed, -/
  | connecting {i : ℕ} {socketPath : Option String}
    (hcall : s.calls i = some (.get socketPath, .queued)) (hlock : s.lock = none)
    (hclosed : ∀ conn, s.cached = some conn → (s.conns conn).closed = true) :
    Step env s (.acquire i) { s.setPhase i (.get socketPath) .connecting with lock := some i }
  /-- or one to close. -/
  | closing {i conn : ℕ} {socketPath : Option String}
    (hcall : s.calls i = some (.get socketPath, .queued)) (hlock : s.lock = none)
    (hcached : s.cached = some conn) (hdead : ¬s.Alive conn) :
    Step env s (.acquire i)
      { (s.close conn).setPhase i (.get socketPath) .closing with lock := some i }
  /-- A connection is taken out that was closed before, -/
  | taken {i conn : ℕ} {c : RegistryCall} (hcall : s.calls i = some (c, .queued))
    (hlock : s.lock = none) (hc : c = .acloseAll ∨ c = .dropCurrent ∧ ¬s.Alive conn)
    (hcached : s.cached = some conn) (hclosed : (s.conns conn).closed = true) :
    Step env s (.acquire i) { s.setPhase i c (.returned none) with cached := none }
  /-- or is closed now. -/
  | dropping {i conn : ℕ} {c : RegistryCall} (hcall : s.calls i = some (c, .queued))
    (hlock : s.lock = none) (hc : c = .acloseAll ∨ c = .dropCurrent ∧ ¬s.Alive conn)
    (hcached : s.cached = some conn) :
    Step env s (.acquire i) { (s.close conn).setPhase i c .dropping with cached := none }
  | closed {i : ℕ} {c : RegistryCall} (hcall : s.calls i = some (c, .closing)) :
    Step env s (.closed i) (s.setPhase i c .connecting)
  | dropped {i : ℕ} {c : RegistryCall} (hcall : s.calls i = some (c, .dropping)) :
    Step env s (.closed i) (s.setPhase i c (.returned none))
  | connected {i : ℕ} {socketPath : Option String}
    (hcall : s.calls i = some (.get socketPath, .connecting)) :
    Step env s (.connected i)
      (s.connect i (.get socketPath) (socketPathOf env socketPath))
  /-- A call that holds the lock gives up, -/
  | releases {i : ℕ} {a : Action} {c : RegistryCall} {phase : RegistryPhase}
    (ha : a = .connectFails i ∨ a = .cancel i) (hcall : s.calls i = some (c, phase))
    (hphase : phase = .closing ∨ phase = .connecting) :
    Step env s a { s.setPhase i c .raised with lock := none }
  /-- and one that does not. -/
  | raises {i : ℕ} {c : RegistryCall} {phase : RegistryPhase} (hcall : s.calls i = some (c, phase))
    (hphase : phase = .queued ∨ phase = .dropping) :
    Step env s (.cancel i) (s.setPhase i c .raised)
  | dies {conn : ℕ} {closed readerDone transportLost : Bool} {c : CachedConn}
    (hclosed : (s.conns conn).closed = true → c.closed = true)
    (hpath : c.socketPath = (s.conns conn).socketPath) :
    Step env s (.dies conn closed readerDone transportLost) (s.setConn conn c)

section

variable {env : Option String} {s s' : ConnectionRegistry} {a : Action}

theorem proceed_cases {i : ℕ} {c : RegistryCall} (hcall : s.calls i = some (c, .queued))
    (hlock : s.lock = none) : Step env s (.acquire i) (s.proceed i c) := by
  have htakeOut : ∀ {conn}, s.cached = some conn →
      (c = .acloseAll ∨ c = .dropCurrent ∧ ¬s.Alive conn) →
        Step env s (.acquire i) (s.takeOut i c conn) := by
    intro conn hcached hc
    unfold takeOut
    split_ifs with hclosed
    · exact .taken hcall hlock hc hcached hclosed
    · exact .dropping hcall hlock hc hcached
  cases c with
  | get socketPath =>
    simp only [proceed, lookup]
    split
    · rename_i hnone
      exact .connecting hcall hlock fun conn hconn => by cases hnone.symm.trans hconn
    · rename_i conn hcached
      split_ifs with halive hclosed
      · exact .found hcall hlock ⟨nofun, nofun⟩ hcached halive
      · refine .connecting hcall hlock fun d hd => ?_
        rw [hcached] at hd
        exact Option.some.inj hd ▸ hclosed
      · exact .closing hcall hlock hcached halive
  | dropCurrent =>
    simp only [proceed, drop]
    split
    · exact .idle hcall hlock (Or.inl rfl)
    · rename_i conn hcached
      split_ifs with halive
      · exact .idle hcall hlock (Or.inl rfl)
      · exact htakeOut hcached (Or.inr ⟨rfl, halive⟩)
  | acloseAll =>
    simp only [proceed, closeAll]
    split
    · exact .idle hcall hlock (Or.inr rfl)
    · exact htakeOut ‹_› (Or.inl rfl)

theorem step_cases (h : step env s a = some s') : Step env s a s' := by
  cases a with
  | call i c =>
    simp only [step] at h
    split at h
    · obtain rfl := Option.some.inj h
      exact .call ‹_›
    · cases h
  | acquire i =>
    simp only [step] at h
    split at h
    · obtain rfl := Option.some.inj h
      exact proceed_cases ‹_› ‹_›
    · cases h
  | closed i =>
    simp only [step] at h
    split at h
    · obtain rfl := Option.some.inj h
      exact .closed ‹_›
    · obtain rfl := Option.some.inj h
      exact .dropped ‹_›
    · cases h
  | connected i =>
    simp only [step] at h
    split at h
    · obtain rfl := Option.some.inj h
      exact .connected ‹_›
    · cases h
  | connectFails i =>
    simp only [step] at h
    split at h
    · obtain rfl := Option.some.inj h
      exact .releases (Or.inl rfl) ‹_› (Or.inr rfl)
    · cases h
  | cancel i =>
    simp only [step] at h
    split at h
    · obtain rfl := Option.some.inj h
      exact .raises ‹_› (Or.inl rfl)
    · obtain rfl := Option.some.inj h
      exact .raises ‹_› (Or.inr rfl)
    · obtain rfl := Option.some.inj h
      exact .releases (Or.inr rfl) ‹_› (Or.inl rfl)
    · obtain rfl := Option.some.inj h
      exact .releases (Or.inr rfl) ‹_› (Or.inr rfl)
    · cases h
  | dies conn closed readerDone transportLost =>
    simp only [step, Option.ite_none_right_eq_some, Option.some.injEq] at h
    obtain ⟨-, rfl⟩ := h
    exact .dies (fun hclosed => by simp [hclosed]) rfl

/-! ## Healthy connections stay -/

/-- The cached connection is one that was opened, every other one is closed, and while a call
replaces it the cached one is closed too. -/
structure Kept (s : ConnectionRegistry) : Prop where
  created : ∀ {conn}, s.cached = some conn → conn < s.opened
  closed : ∀ {conn}, conn < s.opened → s.cached = some conn ∨ (s.conns conn).closed = true
  held : ∀ {i c phase}, s.calls i = some (c, phase) → phase = .closing ∨ phase = .connecting →
    s.lock = some i ∧ ∀ conn, s.cached = some conn → (s.conns conn).closed = true
  noCloseAll : ∀ {i c phase}, s.calls i = some (c, phase) → c ≠ .acloseAll

theorem not_alive_of_closed {conn : ℕ} (h : (s.conns conn).closed = true) : ¬s.Alive conn := by
  simp [Alive, CachedConn.isAlive, h]

theorem kept_init : init.Kept where
  created h := by cases h
  closed h := by cases h
  held h := by cases h
  noCloseAll h := by cases h

theorem calls_setPhase (i : ℕ) (c : RegistryCall) (phase : RegistryPhase) (j : ℕ) :
    (s.setPhase i c phase).calls j = if j = i then some (c, phase) else s.calls j :=
  Function.update_apply ..

theorem conns_close (conn d : ℕ) : (s.close conn).conns d =
    if d = conn then { s.conns conn with closed := true, transportLost := true } else s.conns d :=
  Function.update_apply ..

/-- The cached connection is closed. -/
def CachedClosed (s : ConnectionRegistry) : Prop :=
  ∀ conn, s.cached = some conn → (s.conns conn).closed = true

/-- One call goes on. -/
theorem Kept.update {i : ℕ} {c : RegistryCall} {phase : RegistryPhase} (h : s.Kept)
    (hcalls : s'.calls = (s.setPhase i c phase).calls) (hc : c ≠ .acloseAll)
    (hcreated : ∀ {conn}, s'.cached = some conn → conn < s'.opened)
    (hclosed : ∀ {conn}, conn < s'.opened → s'.cached = some conn ∨ (s'.conns conn).closed = true)
    (hnew : phase = .closing ∨ phase = .connecting → s'.lock = some i ∧ s'.CachedClosed)
    (hold : ∀ j, j ≠ i → s.lock = some j → s.CachedClosed →
      s'.lock = some j ∧ s'.CachedClosed) : s'.Kept := by
  refine ⟨hcreated, hclosed, fun {j d p} hj hp => ?_, fun {j d p} hj => ?_⟩
  · rw [hcalls, calls_setPhase] at hj
    split_ifs at hj with hji
    · obtain ⟨rfl, rfl⟩ := Prod.mk.inj (Option.some.inj hj)
      exact hji ▸ hnew hp
    · exact hold j hji (h.held hj hp).1 (h.held hj hp).2
  · rw [hcalls, calls_setPhase] at hj
    split_ifs at hj with hji
    · obtain ⟨rfl, rfl⟩ := Prod.mk.inj (Option.some.inj hj)
      exact hc
    · exact h.noCloseAll hj

/-- The call does not come to hold the lock, and nothing else changes. -/
theorem Kept.setPhase {i : ℕ} {c : RegistryCall} {phase : RegistryPhase} (h : s.Kept)
    (hc : c ≠ .acloseAll) (hphase : phase ≠ .closing ∧ phase ≠ .connecting) :
    (s.setPhase i c phase).Kept :=
  h.update rfl hc h.created h.closed (fun hp => (hp.elim hphase.1 hphase.2).elim)
    fun _ _ hlock hclosed => ⟨hlock, hclosed⟩

theorem closed_close (conn : ℕ) {d : ℕ} (h : (s.conns d).closed = true ∨ d = conn) :
    ((s.close conn).conns d).closed = true := by
  rw [conns_close]
  split_ifs with hd
  · rfl
  · exact h.resolve_right hd

/-- With the cached connection every connection is closed. -/
theorem Kept.all_closed (h : s.Kept) {conn : ℕ} (hcached : s.cached = some conn) {d : ℕ}
    (hd : d < s.opened) : ((s.close conn).conns d).closed = true := by
  refine closed_close conn ((h.closed hd).symm.imp_right fun hd => ?_)
  exact Option.some.inj (hd.symm.trans hcached)

theorem Kept.step (h : s.Kept) (ha : ∀ i, a ≠ .call i .acloseAll) (hs : step env s a = some s') :
    s'.Kept := by
  cases step_cases hs with
  | @call i c hnone =>
    exact h.setPhase (fun hc => ha i (by rw [hc])) ⟨nofun, nofun⟩
  | found hcall | idle hcall | dropped hcall | raises hcall =>
    exact h.setPhase (h.noCloseAll hcall) ⟨nofun, nofun⟩
  | @connecting i socketPath hcall hlock hclosed =>
    exact h.update rfl nofun h.created h.closed (fun _ => ⟨rfl, hclosed⟩)
      fun j _ hj => by cases hlock.symm.trans hj
  | @closing i conn socketPath hcall hlock hcached hdead =>
    exact h.update rfl nofun h.created (fun hd => Or.inr (h.all_closed hcached hd))
      (fun _ => ⟨rfl, fun d hd => h.all_closed hcached (h.created hd)⟩)
      fun j _ hj => by cases hlock.symm.trans hj
  | @taken i conn c hcall hlock hc hcached hclosed =>
    refine h.update rfl (h.noCloseAll hcall) nofun (fun {d} hd => Or.inr ?_) nofun
      fun j _ hj => by cases hlock.symm.trans hj
    rcases h.closed hd with hd | hd
    · exact Option.some.inj (hcached.symm.trans hd) ▸ hclosed
    · exact hd
  | @dropping i conn c hcall hlock hc hcached =>
    exact h.update rfl (h.noCloseAll hcall) nofun
      (fun hd => Or.inr (h.all_closed hcached hd)) nofun
      fun j _ hj => by cases hlock.symm.trans hj
  | @closed i c hcall =>
    obtain ⟨hlock, hclosed⟩ := h.held hcall (Or.inl rfl)
    exact h.update rfl (h.noCloseAll hcall) h.created h.closed (fun _ => ⟨hlock, hclosed⟩)
      fun j _ hj hclosed => ⟨hj, hclosed⟩
  | @connected i socketPath hcall =>
    obtain ⟨hlock, hclosed⟩ := h.held hcall (Or.inr rfl)
    refine h.update rfl (h.noCloseAll hcall) (fun hd => ?_) (fun {d} hd => ?_) nofun
      fun j hji hj => ?_
    · obtain rfl := Option.some.inj hd
      exact Nat.lt_succ_self _
    · rcases Nat.lt_succ_iff_lt_or_eq.1 hd with hd | rfl
      · refine Or.inr ?_
        change (Function.update s.conns s.opened _ d).closed = true
        rw [Function.update_of_ne (Nat.ne_of_lt hd)]
        exact (h.closed hd).elim (hclosed d) id
      · exact Or.inl rfl
    · exact absurd (Option.some.inj (hj.symm.trans hlock)) hji
  | @releases i a c phase ha hcall hphase =>
    obtain ⟨hlock, -⟩ := h.held hcall hphase
    exact h.update rfl (h.noCloseAll hcall) h.created h.closed nofun
      fun j hji hj => absurd (Option.some.inj (hj.symm.trans hlock)) hji
  | @dies conn _ _ _ c hclosed hpath =>
    have hstays : ∀ {d}, (s.conns d).closed = true →
        ((s.setConn conn c).conns d).closed = true := by
      intro d hd
      change (Function.update s.conns conn c d).closed = true
      rw [Function.update_apply]
      split_ifs with hdc
      · exact hclosed (hdc ▸ hd)
      · exact hd
    exact ⟨h.created, fun hd => (h.closed hd).imp_right hstays,
      fun hj hp => ⟨(h.held hj hp).1, fun d hd => hstays ((h.held hj hp).2 d hd)⟩, h.noCloseAll⟩

/-- The action is a connection that dies. -/
def Action.Death : Action → Prop
  | .dies _ _ _ _ => True
  | _ => False

/-- A live cached connection stays cached, -/
theorem Kept.cached_step (h : s.Kept) (hs : ConnectionRegistry.step env s a = some s') {conn : ℕ}
    (hcached : s.cached = some conn) (halive : s.Alive conn) : s'.cached = some conn := by
  have hdead : ∀ {i c d}, s.calls i = some (c, .queued) → s.cached = some d →
      ¬(c = .acloseAll ∨ c = .dropCurrent ∧ ¬s.Alive d) := by
    intro i c d hcall hd hc
    obtain rfl : conn = d := Option.some.inj (hcached.symm.trans hd)
    exact hc.elim (h.noCloseAll hcall) fun hc => hc.2 halive
  cases step_cases hs with
  | taken hcall _ hc hd => exact absurd hc (hdead hcall hd)
  | dropping hcall _ hc hd => exact absurd hc (hdead hcall hd)
  | connected hcall =>
    exact absurd halive (not_alive_of_closed ((h.held hcall (Or.inr rfl)).2 conn hcached))
  | _ => exact hcached

/-- and no live connection is closed. -/
theorem Kept.alive_step (h : s.Kept) (hs : ConnectionRegistry.step env s a = some s')
    (ha : ¬a.Death) {conn : ℕ} (hconn : conn < s.opened) (halive : s.Alive conn) :
    s'.Alive conn := by
  have hclose : ∀ {d}, ¬s.Alive d → (s.close d).Alive conn := by
    intro d hd
    have hne : conn ≠ d := fun heq => hd (heq ▸ halive)
    unfold Alive
    rw [conns_close, if_neg hne]
    exact halive
  cases step_cases hs with
  | closing _ _ _ hdead => exact hclose hdead
  | dropping hcall _ hc _ =>
    exact hclose (hc.elim (fun hc => absurd hc (h.noCloseAll hcall)) And.right)
  | connected =>
    change (Function.update s.conns s.opened _ conn).isAlive = true
    rw [Function.update_of_ne (Nat.ne_of_lt hconn)]
    exact halive
  | dies => exact absurd trivial ha
  | _ => exact halive

/-- Without `aclose_all`, in every state that is reached : no step takes a live connection out of
the cache, no step but its own death ends a live one, and each connection that was opened is the
cached one or closed. -/
theorem live_kept {as : List Action} (hrun : Machine.run (step env) init as = some s)
    (hok : ∀ i, .call i .acloseAll ∉ as) :
    (∀ a s', step env s a = some s' →
      (∀ conn, s.cached = some conn → s.Alive conn → s'.cached = some conn) ∧
        (¬a.Death → ∀ conn < s.opened, s.Alive conn → s'.Alive conn)) ∧
      ∀ conn < s.opened, s.cached = some conn ∨ (s.conns conn).closed = true := by
  have hall : Machine.Along (step env) (fun _ a => ∀ i, a ≠ .call i .acloseAll) init as := by
    refine Machine.along_of_forall (fun a ha _ i heq => ?_) init
    exact hok i (heq ▸ ha)
  have hkept : s.Kept :=
    Machine.run_invariant Kept _ (fun h ha hs => h.step ha hs) kept_init hall hrun
  refine ⟨fun a s' hs => ⟨fun conn hcached halive => ?_, fun ha conn hconn halive => ?_⟩,
    fun conn hconn => hkept.closed hconn⟩
  · exact hkept.cached_step hs hcached halive
  · exact hkept.alive_step hs ha hconn halive

/-! ## The requested path -/

/-- The cached connection is one that was opened. -/
def Created (s : ConnectionRegistry) : Prop :=
  ∀ conn, s.cached = some conn → conn < s.opened

theorem created_step (h : s.Created) (hs : step env s a = some s') : s'.Created := by
  cases step_cases hs with
  | taken | dropping => exact nofun
  | connected =>
    intro conn hconn
    obtain rfl := Option.some.inj hconn
    exact Nat.lt_succ_self _
  | _ => exact h

/-- A connection keeps its path. -/
theorem socketPath_step (hs : step env s a = some s') {conn : ℕ} (hconn : conn < s.opened) :
    conn < s'.opened ∧ (s'.conns conn).socketPath = (s.conns conn).socketPath := by
  have hclose : ∀ d, ((s.close d).conns conn).socketPath = (s.conns conn).socketPath := by
    intro d
    rw [conns_close]
    split_ifs with hd
    · rw [hd]
    · rfl
  cases step_cases hs with
  | closing | dropping => exact ⟨hconn, hclose _⟩
  | connected =>
    refine ⟨Nat.lt_succ_of_lt hconn, ?_⟩
    change (Function.update s.conns s.opened _ conn).socketPath = _
    rw [Function.update_of_ne (Nat.ne_of_lt hconn)]
  | @dies d _ _ _ c _ hpath =>
    refine ⟨hconn, ?_⟩
    change (Function.update s.conns d c conn).socketPath = _
    rw [Function.update_apply]
    split_ifs with hd
    · rw [hd, hpath]
    · rfl
  | _ => exact ⟨hconn, rfl⟩

/-- A call that the step is not about. -/
theorem calls_setPhase_of_phase_ne {i j : ℕ} {c d : RegistryCall} {phase p q : RegistryPhase}
    (hi : s.calls i = some (c, phase)) (hj : s.calls j = some (d, p)) (hne : phase ≠ p) :
    (s.setPhase j d q).calls i = some (c, phase) := by
  rw [calls_setPhase, if_neg, hi]
  rintro rfl
  cases hi.symm.trans hj
  exact hne rfl

/-- How a call goes on that is neither queued nor drops a connection. -/
theorem calls_step {i : ℕ} {c : RegistryCall} {phase : RegistryPhase}
    (hcall : s.calls i = some (c, phase)) (hne : phase ≠ .queued ∧ phase ≠ .dropping)
    (hs : step env s a = some s') :
    s'.calls i = some (c, phase) ∨
      (phase = .closing ∨ phase = .connecting) ∧
        ((∃ q, s'.calls i = some (c, q) ∧ (q = .connecting ∨ q = .raised)) ∨
          ∃ socketPath, c = .get socketPath ∧
            s' = s.connect i c (socketPathOf env socketPath)) := by
  -- The step is about another call, or it takes this one on.
  have hmoves : ∀ {j d p q}, s.calls j = some (d, p) → (p = .closing ∨ p = .connecting) →
      (q = .connecting ∨ q = .raised) → s'.calls = (s.setPhase j d q).calls →
        s'.calls i = some (c, phase) ∨ (phase = .closing ∨ phase = .connecting) ∧
          ∃ q, s'.calls i = some (c, q) ∧ (q = .connecting ∨ q = .raised) := by
    intro j d p q hj hp hq hs'
    rw [hs', calls_setPhase]
    split_ifs with hij
    · subst hij
      cases hcall.symm.trans hj
      exact Or.inr ⟨hp, q, rfl, hq⟩
    · exact Or.inl hcall
  cases step_cases hs with
  | call hnone =>
    refine Or.inl ?_
    rw [calls_setPhase, if_neg, hcall]
    rintro rfl
    cases hnone.symm.trans hcall
  | found h | idle h | connecting h | taken h =>
    exact Or.inl (calls_setPhase_of_phase_ne hcall h hne.1)
  | closing h | dropping h =>
    exact Or.inl (calls_setPhase_of_phase_ne (s := s.close _) hcall h hne.1)
  | closed h =>
    exact (hmoves h (Or.inl rfl) (Or.inl rfl) rfl).imp_right (And.imp_right Or.inl)
  | dropped h => exact Or.inl (calls_setPhase_of_phase_ne hcall h hne.2)
  | releases _ h hp => exact (hmoves h hp (Or.inr rfl) rfl).imp_right (And.imp_right Or.inl)
  | raises h hp =>
    refine Or.inl (calls_setPhase_of_phase_ne hcall h ?_)
    rcases hp with rfl | rfl
    · exact hne.1
    · exact hne.2
  | dies => exact Or.inl hcall
  | @connected j socketPath h =>
    by_cases hij : i = j
    · subst hij
      cases hcall.symm.trans h
      exact Or.inr ⟨Or.inr rfl, Or.inr ⟨socketPath, rfl, rfl⟩⟩
    · exact Or.inl ((Function.update_of_ne hij _ _).trans hcall)

/-- A call that has returned stays as it is. -/
theorem calls_step_of_returned {i : ℕ} {c : RegistryCall} {r : Option ℕ}
    (hcall : s.calls i = some (c, .returned r)) (hs : step env s a = some s') :
    s'.calls i = some (c, .returned r) := by
  rcases calls_step hcall ⟨nofun, nofun⟩ hs with hsame | ⟨hphase | hphase, -⟩
  · exact hsame
  · cases hphase
  · cases hphase

/-- The connection that a call has returned has this path. -/
def Fetched (i conn : ℕ) (path : String) (s : ConnectionRegistry) : Prop :=
  (∃ c, s.calls i = some (c, .returned (some conn))) ∧ conn < s.opened ∧
    (s.conns conn).socketPath = path

/-- A `get` that found no live connection will return one to its own path, or none. -/
def Fetches (env : Option String) (i : ℕ) (socketPath : Option String) (s : ConnectionRegistry) :
    Prop :=
  (∃ phase, s.calls i = some (.get socketPath, phase) ∧
    (phase = .closing ∨ phase = .connecting ∨ phase = .raised)) ∨
      ∃ conn, Fetched i conn (socketPathOf env socketPath) s

theorem Fetched.step {i conn : ℕ} {path : String} (h : Fetched i conn path s)
    (hs : ConnectionRegistry.step env s a = some s') : Fetched i conn path s' := by
  obtain ⟨⟨c, hcall⟩, hconn, hpath⟩ := h
  obtain ⟨hconn', hpath'⟩ := socketPath_step hs hconn
  exact ⟨⟨c, calls_step_of_returned hcall hs⟩, hconn', hpath'.trans hpath⟩

theorem Fetches.step {i : ℕ} {socketPath : Option String} (h : Fetches env i socketPath s)
    (hs : ConnectionRegistry.step env s a = some s') : Fetches env i socketPath s' := by
  rcases h with ⟨phase, hcall, hphase⟩ | ⟨conn, hfetched⟩
  rotate_left
  · exact Or.inr ⟨conn, hfetched.step hs⟩
  have hne : phase ≠ .queued ∧ phase ≠ .dropping := by
    rcases hphase with rfl | rfl | rfl <;> exact ⟨nofun, nofun⟩
  rcases calls_step hcall hne hs with hsame | ⟨-, ⟨q, hq, hor⟩ | ⟨path, hpath, rfl⟩⟩
  · exact Or.inl ⟨phase, hsame, hphase⟩
  · exact Or.inl ⟨q, hq, Or.inr hor⟩
  · cases hpath
    refine Or.inr ⟨s.opened, ⟨_, Function.update_self _ _ _⟩, Nat.lt_succ_self _, ?_⟩
    change (Function.update s.conns s.opened _ s.opened).socketPath = _
    rw [Function.update_self]

/-- A `get` gets the lock, and returns at once or later. It returns a connection to the path
that was asked for exactly if the live cached connection it found, if any, was opened to it. -/
theorem get_returns_requested {as bs : List Action} {i conn : ℕ} {socketPath : Option String}
    {t t' s : ConnectionRegistry} (hrun : Machine.run (step env) init as = some t)
    (hcall : t.calls i = some (.get socketPath, .queued))
    (hs : step env t (.acquire i) = some t') (hrest : Machine.run (step env) t' bs = some s)
    (hret : s.calls i = some (.get socketPath, .returned (some conn))) :
    (s.conns conn).socketPath = socketPathOf env socketPath ↔
      ∀ d, t.cached = some d → t.Alive d →
        (t.conns d).socketPath = socketPathOf env socketPath := by
  have hcreated : t.Created :=
    Machine.run_induction (fun _ s => s.Created) nofun (fun _ h hs => created_step h hs) hrun
  have ht' : t' = t.lookup i (.get socketPath) := by
    simp only [step, hcall] at hs
    split at hs
    · rename_i heq _
      cases heq
      exact (Option.some.inj hs).symm
    · cases hs
  have hreturned : ∀ {d path}, Fetched i d path s → (s.conns conn).socketPath = path := by
    rintro d path ⟨⟨c, hd⟩, -, hpath⟩
    cases hret.symm.trans hd
    exact hpath
  by_cases hfound : ∃ d, t.cached = some d ∧ t.Alive d
  · obtain ⟨d, hcached, halive⟩ := hfound
    have hstart : Fetched i d (t.conns d).socketPath t' := by
      rw [ht', lookup, hcached]
      simp only [halive, if_true]
      exact ⟨⟨_, Function.update_self _ _ _⟩, hcreated d hcached, rfl⟩
    have hfetched : Fetched i d (t.conns d).socketPath s :=
      Machine.run_induction (fun _ => Fetched i d (t.conns d).socketPath) hstart
        (fun _ h hs => h.step hs) hrest
    rw [hreturned hfetched]
    constructor
    · intro hpath e he _
      rwa [Option.some.inj (he.symm.trans hcached)]
    · exact fun h => h d hcached halive
  · have hstart : Fetches env i socketPath t' := by
      rw [ht', lookup]
      split
      · exact Or.inl ⟨.connecting, Function.update_self _ _ _, Or.inr (Or.inl rfl)⟩
      · rename_i d hcached
        rw [if_neg fun halive => hfound ⟨d, hcached, halive⟩]
        split_ifs
        · exact Or.inl ⟨.connecting, Function.update_self _ _ _, Or.inr (Or.inl rfl)⟩
        · exact Or.inl ⟨.closing, Function.update_self _ _ _, Or.inl rfl⟩
    have hfetches : Fetches env i socketPath s :=
      Machine.run_induction (fun _ => Fetches env i socketPath) hstart
        (fun _ h hs => h.step hs) hrest
    refine iff_of_true ?_ fun d hcached halive => absurd ⟨d, hcached, halive⟩ hfound
    rcases hfetches with ⟨phase, hphase, hp⟩ | ⟨d, hfetched⟩
    · cases hret.symm.trans hphase
      rcases hp with hp | hp | hp <;> cases hp
    · exact hreturned hfetched

end

/-- A `get` that opens a connection. -/
def opens (i : ℕ) (socketPath : Option String) : List Action :=
  [.call i (.get socketPath), .acquire i, .connected i]

/-- The first `get` opens a connection to its path, and the second one finds it. -/
theorem get_returns_requested_again :
    ∃ t t', Machine.run (step none) init (opens 0 (some "/a") ++ [.call 1 (.get (some "/a"))]) =
        some t ∧ step none t (.acquire 1) = some t' ∧
      t'.calls 1 = some (.get (some "/a"), .returned (some 0)) ∧
        (t'.conns 0).socketPath = "/a" := by
  obtain ⟨t, t', ht, hcall, hs, hret, hcached, hpath⟩ : ∃ t t',
      Machine.run (step none) init (opens 0 (some "/a") ++ [.call 1 (.get (some "/a"))]) =
          some t ∧ t.calls 1 = some (.get (some "/a"), .queued) ∧
        step none t (.acquire 1) = some t' ∧
          t'.calls 1 = some (.get (some "/a"), .returned (some 0)) ∧
            t.cached = some 0 ∧ (t.conns 0).socketPath = "/a" :=
    ⟨_, _, rfl, rfl, rfl, rfl, rfl, rfl⟩
  have hrest : Machine.run (step none) t' [] = some t' := rfl
  have hiff := get_returns_requested ht hcall hs hrest hret
  refine ⟨t, t', ht, hs, hret, hiff.2 fun d hd _ => ?_⟩
  obtain rfl : 0 = d := Option.some.inj (hcached.symm.trans hd)
  exact hpath

/-- The second `get` asks for another daemon, and gets the connection to the first. -/
theorem get_ignores_path :
    ∃ s, Machine.run (step none) init
        (opens 0 (some "/a") ++ [.call 1 (.get (some "/b")), .acquire 1]) = some s ∧
      s.calls 1 = some (.get (some "/b"), .returned (some 0)) ∧
        (s.conns 0).socketPath = "/a" :=
  ⟨_, rfl, rfl, rfl⟩

/-- A dead connection is replaced. -/
theorem live_kept_replaced :
    ∃ s, Machine.run (step none) init
        (opens 0 none ++ [.dies 0 false true false, .call 1 (.get none), .acquire 1, .closed 1,
          .connected 1]) = some s ∧
      s.cached = some 1 ∧ (s.conns 0).closed = true := by
  obtain ⟨s, hrun, hcached, hopened⟩ : ∃ s, Machine.run (step none) init
      (opens 0 none ++ [.dies 0 false true false, .call 1 (.get none), .acquire 1, .closed 1,
        .connected 1]) = some s ∧ s.cached = some 1 ∧ s.opened = 2 := ⟨_, rfl, rfl, rfl⟩
  refine ⟨s, hrun, hcached, ?_⟩
  have hor := (live_kept hrun (by simp [opens])).2 0 (by omega)
  rw [hcached] at hor
  exact hor.resolve_left (by decide)

end ConnectionRegistry

end PilotLanggraph

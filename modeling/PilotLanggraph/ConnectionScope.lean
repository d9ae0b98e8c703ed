import Mathlib.Logic.Function.Basic
import Mathlib.Tactic.SplitIfs
import PilotLanggraph.Lib.Async

/-!
# Connections of a call

The calls that open a connection for themselves : `publish_one` and the event source (`channel.py`),
`ensure_trust` (`trust.py`), and `serve_forever` (`server.py`). Each of their awaits may raise, and
may be cancelled. Awaits in a row with nothing between them are one.

* `connections_closed` : what such calls leave open, one after another.
-/

namespace PilotLanggraph

open Async

/-- The connections of a process. -/
structure Sockets where
  opened : ℕ
  /-- The connection has not been closed. -/
  live : ℕ → Bool

namespace Sockets

/-- What an await may raise. -/
inductive Raised
  /-- `EOFError`. -/
  | eof
  | other
  deriving DecidableEq

/-- A coroutine of the process. -/
abbrev Code (α : Type) := Async Sockets Raised α

/-- `PilotConnection.connect`. -/
def connect : Code ℕ := do
  await
  let s ← get
  set ⟨s.opened + 1, Function.update s.live s.opened true⟩
  return s.opened

/-- `PilotConnection.close`. -/
def close (conn : ℕ) : Code Unit := do
  let s ← get
  if s.live conn then
    set { s with live := Function.update s.live conn false }
    tryExcept await (exception fun _ => return)

/-- A peer as it is given. -/
inductive Peer
  | addr
  /-- A text with a colon. -/
  | text
  | hostname
  deriving DecidableEq

/-- The address of a peer. `Addr.parse` may raise. -/
def resolve : Peer → Code Unit
  | .addr => return
  | .text => attempt
  | .hostname => do
    await
    attempt

/-- `dial`. -/
def dial : Code Unit := do
  await
  attempt

/-- `Stream.write` of an event. -/
def write : Code Unit := do
  attempt
  await

/-- `Stream.close`. -/
def streamClose : Code Unit :=
  tryExcept await (exception fun _ => return)

/-- `PilotChannel.subscribe`, without `auto_reconnect`. -/
def subscribe (peer : Peer) : Code ℕ := do
  let conn ← connect
  tryExcept (do
    resolve peer
    dial
    write
    return conn) (exception fun e => do
    close conn
    raise e)

/-- `PilotChannel.publisher`. -/
def publisher (peer : Peer) : Code ℕ :=
  subscribe peer

/-- `PilotChannel.close`. -/
def channelClose (conn : ℕ) : Code Unit := do
  streamClose
  tryExcept (close conn) (exception fun _ => return)

/-- `PilotPublisher.close`. -/
def publisherClose (conn : ℕ) : Code Unit := do
  streamClose
  close conn

/-- `PilotChannel.publish_one`. -/
def publishOne (peer : Peer) : Code Unit := do
  let conn ← publisher peer
  tryFinally write (publisherClose conn)

/-- `PilotEventSource.ainvoke`. The payload is decoded with replacement characters. -/
def ainvoke (peer : Peer) : Code Unit := do
  let conn ← subscribe peer
  tryFinally await (channelClose conn)

/-- `PilotChannel.__anext__`. `false` is a `StopAsyncIteration`. -/
def anext : Code Bool :=
  tryExcept (do
    await
    return true) fun
    | .raised .eof | .cancelled => some (return false)
    | .raised .other => none

/-- The loop of `PilotEventSource.astream`, with `n` events seen, for `fuel` events at most. In a
`yield` the caller goes on, throws something, or closes the generator. -/
def yieldEvents (maxEvents : Option ℕ) : ℕ → ℕ → Code Unit
  | 0, _ => return
  | fuel + 1, n => do
    if ← anext then
      await
      if maxEvents.any (· ≤ n + 1) then
        return
      yieldEvents maxEvents fuel (n + 1)

/-- `PilotEventSource.astream`. -/
def astream (peer : Peer) (maxEvents : Option ℕ) (fuel : ℕ) : Code Unit := do
  let conn ← subscribe peer
  tryFinally (yieldEvents maxEvents fuel 0) (channelClose conn)

/-- The polls of `ensure_trust`, and whether each finds the peer mutual. -/
def poll : List Bool → Code Unit
  | [] => raise .other
  | found :: polls => do
    await
    attempt
    if found then
      return
    await
    poll polls

/-- `ensure_trust`. `isMutual` is that the peer is in the first list, `found` that it is still in
the next one. -/
def ensureTrust (isMutual found : Bool) (polls : List Bool) : Code Unit := do
  let conn ← connect
  tryFinally (do
    await
    attempt
    if isMutual then
      await
      attempt
    if !(isMutual && found) then
      await
      poll polls) (close conn)

/-- `serve_forever`, up to its `try`. -/
def startServing : Code ℕ := do
  let conn ← connect
  -- `info` and `listen`.
  await
  attempt
  return conn

/-- The accept loop. A round ends with `_stopping`, or with a connection. -/
def acceptLoop : List Bool → Code Unit
  | [] => return
  | stop :: rounds => do
    pause
    if stop then
      tryExcept await fun _ => some (return)
    else
      tryExcept pause fun _ => some (return)
      attempt
      acceptLoop rounds

/-- The `finally` of `serve_forever`. Nothing that `_drain_inflight` waits for raises. -/
def stopServing (conn : ℕ) : Code Unit := do
  pause
  close conn

/-- `serve_forever`. -/
def serveForever (rounds : List Bool) : Code Unit := do
  let conn ← startServing
  tryFinally (acceptLoop rounds) (stopServing conn)

/-! ## What a call leaves open -/

/-- Those connections are open, and the next ones are not yet. -/
def Kept (live : ℕ → Bool) (s : Sockets) : Prop :=
  s.live = live ∧ ∀ i, s.opened ≤ i → live i = false

/-- The call holds a connection besides. -/
def Holding (live : ℕ → Bool) (conn : ℕ) (s : Sockets) : Prop :=
  live conn = false ∧ Kept (Function.update live conn true) s

/-- The call has closed what it opened, unless it was cancelled. -/
def Left (live : ℕ → Bool) (u : Unwound Raised) (s : Sockets) : Prop :=
  Kept live s ∨ u = .cancelled ∧ ∃ conn, Holding live conn s

section

variable {live : ℕ → Bool} {conn : ℕ}

theorem triple_connect : Triple (Kept live) connect (fun conn => Holding live conn)
    fun _ => Kept live := by
  refine (Triple.await fun _ _ => id).bind fun _ => Triple.get.bind fun s => ?_
  refine Triple.bind (Q := fun _ => Holding live s.opened) (Triple.set ?_) fun _ =>
    Triple.pure fun _ => id
  rintro _ ⟨-, hlive, hfresh⟩
  refine ⟨hfresh _ (Nat.le_refl _), by rw [hlive], fun i hi => ?_⟩
  change s.opened + 1 ≤ i at hi
  rw [Function.update_of_ne (by omega)]
  exact hfresh i (by omega)

/-- The connection is closed, if not by this call. -/
theorem triple_close : Triple (Holding live conn) (close conn) (fun _ => Kept live)
    fun u s => u = .cancelled ∧ Kept live s := by
  refine Triple.get.bind fun s => ?_
  have hclose (h : Holding live conn s) :
      Kept live { s with live := Function.update s.live conn false } := by
    obtain ⟨hconn, hlive, hfresh⟩ := h
    refine ⟨?_, fun i hi => ?_⟩
    · change Function.update s.live conn false = live
      rw [hlive, Function.update_idem, ← hconn, Function.update_eq_self]
    · have hi := hfresh i hi
      by_cases hne : i = conn
      · rw [hne, hconn]
      · rwa [Function.update_of_ne hne] at hi
  split_ifs with hopen
  · refine (Triple.set fun _ h => hclose h.2).bind fun _ => Triple.exception
      (F := fun _ => Kept live) (Triple.await fun _ _ => id)
      (fun _ => Triple.pure fun _ => id) fun _ h => ⟨rfl, h⟩
  · refine Triple.pure ?_
    rintro _ ⟨-, hconn, hlive, -⟩
    rw [hlive, Function.update_self] at hopen
    exact absurd rfl hopen

/-- What goes up from an await of a call that holds a connection. -/
theorem triple_resolve {P : Sockets → Prop} (peer : Peer) :
    Triple P (resolve peer) (fun _ => P) fun _ => P := by
  cases peer with
  | addr => exact Triple.pure fun _ => id
  | text => exact Triple.attempt fun _ _ => id
  | hostname => exact (Triple.await fun _ _ => id).bind fun _ => Triple.attempt fun _ _ => id

theorem triple_dial {P : Sockets → Prop} : Triple P dial (fun _ => P) fun _ => P :=
  (Triple.await fun _ _ => id).bind fun _ => Triple.attempt fun _ _ => id

theorem triple_write {P : Sockets → Prop} : Triple P write (fun _ => P) fun _ => P :=
  (Triple.attempt fun _ _ => id).bind fun _ => Triple.await fun _ _ => id

theorem triple_subscribe (peer : Peer) :
    Triple (Kept live) (subscribe peer) (fun conn => Holding live conn) (Left live) := by
  refine (triple_connect.mono (fun _ => id) (fun _ _ => id) fun _ _ => .inl).bind fun conn => ?_
  refine Triple.exception (F := fun _ => Holding live conn) ?_ (fun e => ?_) fun s h =>
    .inr ⟨rfl, conn, h⟩
  · exact (triple_resolve peer).bind fun _ => triple_dial.bind fun _ => triple_write.bind fun _ =>
      Triple.pure fun _ => id
  · exact (triple_close.mono (fun _ => id) (fun _ _ => id) fun _ _ h => .inl h.2).bind fun _ =>
      Triple.raise fun _ => .inl

/-- A connection that is closed at the end of a call, -/
theorem triple_streamClose : Triple (Holding live conn) streamClose (fun _ => Holding live conn)
    (Left live) :=
  Triple.exception (F := fun _ => Holding live conn) (Triple.await fun _ _ => id)
    (fun _ => Triple.pure fun _ => id) fun _ h => .inr ⟨rfl, conn, h⟩

theorem triple_channelClose : Triple (Holding live conn) (channelClose conn) (fun _ => Kept live)
    (Left live) :=
  triple_streamClose.bind fun _ => Triple.exception (triple_close)
    (fun _ => Triple.pure fun _ h => h.2) fun _ h => .inl h.2

theorem triple_publisherClose :
    Triple (Holding live conn) (publisherClose conn) (fun _ => Kept live) (Left live) :=
  triple_streamClose.bind fun _ =>
    triple_close.mono (fun _ => id) (fun _ _ => id) fun _ _ h => .inl h.2

/-- A call that subscribes, and closes at its end whatever comes of its body. -/
theorem triple_scope {peer : Peer} {body : Code Unit} {cleanup : ℕ → Code Unit}
    (hbody : ∀ conn, Triple (Holding live conn) body (fun _ => Holding live conn)
      fun _ => Holding live conn)
    (hcleanup : ∀ conn, Triple (Holding live conn) (cleanup conn) (fun _ => Kept live)
      (Left live)) :
    Triple (Kept live) (subscribe peer >>= fun conn => tryFinally body (cleanup conn))
      (fun _ => Kept live) (Left live) := by
  refine (triple_subscribe peer).bind fun conn => (hbody conn).tryFinally (fun _ => hcleanup conn)
    fun u => (hcleanup conn).mono (fun _ => id) (fun _ s h => ?_) fun _ _ => id
  exact .inl h

theorem triple_anext {P : Sockets → Prop} : Triple P anext (fun _ => P) fun _ => P := by
  refine Triple.tryExcept (F := fun _ => P)
    ((Triple.await fun _ _ => id).bind fun _ => Triple.pure fun _ => id) (fun u h hu => ?_)
    fun _ _ _ => id
  have hpure : Triple P (Pure.pure false : Code Bool) (fun _ => P) fun _ => P :=
    Triple.pure fun _ => id
  cases u with
  | cancelled =>
    obtain rfl := Option.some.inj hu
    exact hpure
  | raised e =>
    cases e with
    | eof =>
      obtain rfl := Option.some.inj hu
      exact hpure
    | other => cases hu

theorem triple_yieldEvents {P : Sockets → Prop} (maxEvents : Option ℕ) : ∀ fuel n,
    Triple P (yieldEvents maxEvents fuel n) (fun _ => P) fun _ => P
  | 0, _ => Triple.pure fun _ => id
  | fuel + 1, n => by
    refine triple_anext.bind fun more => ?_
    by_cases hmore : more = true
    · rw [if_pos hmore]
      refine (Triple.await fun _ _ => id).bind fun _ => ?_
      by_cases hmax : maxEvents.any (· ≤ n + 1) = true
      · rw [if_pos hmax]
        exact Triple.pure fun _ => id
      · rw [if_neg hmax]
        exact triple_yieldEvents maxEvents fuel (n + 1)
    · rw [if_neg hmore]
      exact Triple.pure fun _ => id

theorem triple_poll {P : Sockets → Prop} : ∀ polls, Triple P (poll polls) (fun _ => P) fun _ => P
  | [] => Triple.raise fun _ => id
  | found :: polls => by
    refine (Triple.await fun _ _ => id).bind fun _ => ?_
    refine (Triple.attempt fun _ _ => id).bind fun _ => ?_
    by_cases hfound : found = true
    · rw [if_pos hfound]
      exact Triple.pure fun _ => id
    · rw [if_neg hfound]
      exact (Triple.await fun _ _ => id).bind fun _ => triple_poll polls

theorem triple_ensureTrust (isMutual found : Bool) (polls : List Bool) :
    Triple (Kept live) (ensureTrust isMutual found polls) (fun _ => Kept live)
      fun _ => Kept live := by
  refine triple_connect.bind fun conn => Triple.tryFinally (G := fun _ => Holding live conn)
    (F := fun _ => Holding live conn) ?_ (fun _ => ?_) fun _ => ?_
  · have hrest : Triple (Holding live conn)
        (if !(isMutual && found) then (do await; poll polls) else pure () : Code Unit)
        (fun _ => Holding live conn) fun _ => Holding live conn := by
      split_ifs
      · exact (Triple.await fun _ _ => id).bind fun _ => triple_poll polls
      · exact Triple.pure fun _ => id
    refine (Triple.await fun _ _ => id).bind fun _ => ?_
    refine (Triple.attempt fun _ _ => id).bind fun _ => ?_
    by_cases hmutual : isMutual = true
    · rw [if_pos hmutual]
      exact (Triple.await fun _ _ => id).bind fun _ => (Triple.attempt fun _ _ => id).bind
        fun _ => hrest
    · rw [if_neg hmutual]
      exact hrest
  · exact triple_close.mono (fun _ => id) (fun _ _ => id) fun _ _ h => h.2
  · exact triple_close.mono (fun _ => id) (fun _ _ => id) fun _ _ h => h.2

theorem triple_startServing : Triple (Kept live) startServing (fun conn => Holding live conn)
    fun _ s => Kept live s ∨ ∃ conn, Holding live conn s :=
  (triple_connect.mono (fun _ => id) (fun _ _ => id) fun _ _ => .inl).bind fun conn =>
    (Triple.await fun _ _ h => .inr ⟨conn, h⟩).bind fun _ =>
      (Triple.attempt fun _ _ h => .inr ⟨conn, h⟩).bind fun _ => Triple.pure fun _ => id

theorem triple_acceptLoop {P : Sockets → Prop} :
    ∀ rounds, Triple P (acceptLoop rounds) (fun _ => P) fun _ => P
  | [] => Triple.pure fun _ => id
  | stop :: rounds => by
    have hswallow {m : Code Unit} (hm : Triple P m (fun _ => P) fun _ => P) :
        Triple P (tryExcept m fun _ => some (pure ())) (fun _ => P) fun _ => P := by
      refine hm.tryExcept (fun u h hu => ?_) fun u s hu => by cases hu
      obtain rfl := Option.some.inj hu
      exact Triple.pure fun _ => id
    have hpause : Triple P (pause : Code Unit) (fun _ => P) fun _ => P := Triple.pause fun _ => id
    rw [acceptLoop]
    refine hpause.bind fun _ => ?_
    by_cases hstop : stop = true
    · rw [if_pos hstop]
      exact hswallow (Triple.await fun _ _ => id)
    · rw [if_neg hstop]
      exact (hswallow hpause).bind fun _ =>
        (Triple.attempt fun _ _ => id).bind fun _ => triple_acceptLoop rounds

theorem triple_stopServing :
    Triple (Holding live conn) (stopServing conn) (fun _ => Kept live) (Left live) :=
  (Triple.pause fun _ h => .inr ⟨rfl, conn, h⟩).bind fun _ =>
    triple_close.mono (fun _ => id) (fun _ _ => id) fun _ _ h => .inl h.2

end

/-! ## Calls one after another -/

/-- A call. -/
inductive Call
  | publishOne (peer : Peer)
  | ainvoke (peer : Peer)
  | astream (peer : Peer) (maxEvents : Option ℕ) (fuel : ℕ)
  | ensureTrust (isMutual found : Bool) (polls : List Bool)
  | serveForever (rounds : List Bool)

namespace Call

def run : Call → Code Unit
  | publishOne peer => Sockets.publishOne peer
  | ainvoke peer => Sockets.ainvoke peer
  | astream peer maxEvents fuel => Sockets.astream peer maxEvents fuel
  | ensureTrust isMutual found polls => Sockets.ensureTrust isMutual found polls
  | serveForever rounds => Sockets.serveForever rounds

/-- The call was cancelled. -/
def cancelled (c : Call) (w : World Sockets Raised) : Bool :=
  match (c.run w).1 with
  | .error .cancelled => true
  | _ => false

/-- The call may leave its connection open. `ensure_trust` does not, and `serve_forever` may also
when it does not come to listen. -/
def mayLeave (c : Call) (w : World Sockets Raised) : Bool :=
  match c with
  | ensureTrust .. => false
  | serveForever _ => !(startServing w).1.isOk || c.cancelled w
  | _ => c.cancelled w

theorem cancelled_of_eq {c : Call} {w w' : World Sockets Raised}
    (h : c.run w = (.error .cancelled, w')) : c.cancelled w = true := by
  rw [cancelled, h]

/-- A triple, for the run from a given world. -/
theorem left_of_triple {c : Call} {live : ℕ → Bool} {w : World Sockets Raised}
    (h : Triple (Kept live) c.run (fun _ => Kept live) (Left live)) (hw : Kept live w.state) :
    Kept live (c.run w).2.state ∨
      c.cancelled w = true ∧ ∃ conn, Holding live conn (c.run w).2.state := by
  have hrun := h w hw
  revert hrun
  rcases hr : c.run w with ⟨u | _, w'⟩
  · rintro (hkept | ⟨rfl, hholding⟩)
    · exact .inl hkept
    · exact .inr ⟨cancelled_of_eq hr, hholding⟩
  · exact .inl

theorem run_spec (c : Call) {live : ℕ → Bool} {w : World Sockets Raised} (hw : Kept live w.state) :
    Kept live (c.run w).2.state ∨
      c.mayLeave w = true ∧ ∃ conn, Holding live conn (c.run w).2.state := by
  have hwrite : ∀ conn, Triple (Holding live conn) write (fun _ => Holding live conn)
      fun _ => Holding live conn := fun _ => triple_write
  cases c with
  | publishOne peer =>
    exact left_of_triple (c := .publishOne peer)
      (triple_scope hwrite fun _ => triple_publisherClose) hw
  | ainvoke peer =>
    exact left_of_triple (c := .ainvoke peer)
      (triple_scope (fun _ => Triple.await fun _ _ => id) fun _ => triple_channelClose) hw
  | astream peer maxEvents fuel =>
    exact left_of_triple (c := .astream peer maxEvents fuel)
      (triple_scope (fun _ => triple_yieldEvents maxEvents fuel 0) fun _ => triple_channelClose) hw
  | ensureTrust isMutual found polls =>
    left
    have hrun := triple_ensureTrust isMutual found polls w hw
    change Kept live (Sockets.ensureTrust isMutual found polls w).2.state
    revert hrun
    rcases Sockets.ensureTrust isMutual found polls w with ⟨_ | _, w'⟩ <;> exact id
  | serveForever rounds =>
    have hstart := triple_startServing w hw
    have hrest (conn : ℕ) : Triple (Holding live conn)
        (tryFinally (acceptLoop rounds) (stopServing conn)) (fun _ => Kept live) (Left live) :=
      (triple_acceptLoop rounds).tryFinally (fun _ => triple_stopServing) fun u =>
        triple_stopServing.mono (fun _ => id) (fun _ _ h => .inl h) fun _ _ => id
    rcases hs : startServing w with ⟨u | conn, w'⟩
    · rw [hs] at hstart
      have hrun : (serveForever rounds).run w = (.error u, w') := bind_of_error hs
      rw [hrun]
      refine hstart.imp_right fun hholding => ⟨?_, hholding⟩
      simp [mayLeave, hs, Except.isOk, Except.toBool]
    · rw [hs] at hstart
      have hrun : (serveForever rounds).run w =
          tryFinally (acceptLoop rounds) (stopServing conn) w' := bind_of_ok hs
      have hend := hrest conn w' hstart
      rw [← hrun] at hend
      revert hend
      rcases hr : (serveForever rounds).run w with ⟨u | _, w''⟩
      · rintro (hkept | ⟨rfl, hholding⟩)
        · exact .inl hkept
        · refine .inr ⟨?_, hholding⟩
          rw [mayLeave, cancelled_of_eq hr, Bool.or_true]
      · exact .inl

end Call

/-- Calls one after another. -/
def runCalls : List Call → World Sockets Raised → World Sockets Raised
  | [], w => w
  | c :: calls, w => runCalls calls (c.run w).2

/-- How many of them may leave a connection open. -/
def interrupted : List Call → World Sockets Raised → ℕ
  | [], _ => 0
  | c :: calls, w => (c.mayLeave w).toNat + interrupted calls (c.run w).2

/-- However the awaits end, calls close what they open, but for one connection for each call that
was cancelled or, for `serve_forever`, did not come to listen; and `ensure_trust` always does. -/
theorem connections_closed (calls : List Call) {w : World Sockets Raised}
    (hfresh : ∀ i, w.state.opened ≤ i → w.state.live i = false) :
    ∃ left : List ℕ, left.length ≤ interrupted calls w ∧
      (∀ i ∈ left, w.state.live i = false) ∧
      ∀ i, (runCalls calls w).state.live i = (w.state.live i || decide (i ∈ left)) := by
  induction calls generalizing w with
  | nil => exact ⟨[], Nat.le_refl _, by simp, by simp [runCalls]⟩
  | cons c calls ih =>
    rcases c.run_spec ⟨rfl, hfresh⟩ with ⟨hlive, hfresh'⟩ | ⟨hmay, conn, hconn, hlive, hfresh'⟩
    · obtain ⟨left, hlength, hnew, hleft⟩ := ih (w := (c.run w).2) (by rwa [hlive])
      rw [hlive] at hnew hleft
      refine ⟨left, ?_, hnew, hleft⟩
      rw [interrupted]
      omega
    · obtain ⟨left, hlength, hnew, hleft⟩ := ih (w := (c.run w).2) (by rwa [hlive])
      rw [hlive] at hnew hleft
      refine ⟨conn :: left, ?_, ?_, fun i => ?_⟩
      · rw [interrupted, hmay, List.length_cons, Bool.toNat_true]
        omega
      · refine List.forall_mem_cons.2 ⟨hconn, fun i hi => ?_⟩
        have hi := hnew i hi
        rw [Function.update_apply] at hi
        split_ifs at hi
        exact hi
      · rw [runCalls, hleft]
        by_cases hi : i = conn
        · simp [hi]
        · simp [hi]

/-- A new process, whose second await is cancelled. -/
def dialCancelled : World Sockets Raised :=
  ⟨fun n => if n = 1 then .cancelled else .returns, ⟨0, fun _ => false⟩⟩

/-- The connection of the `publish_one` that is cancelled in its dial. -/
theorem connections_closed_dialCancelled :
    ∃ left : List ℕ, left.length ≤ 1 ∧ ∀ i,
      (runCalls [.publishOne .addr, .ensureTrust true true []] dialCancelled).state.live i =
        decide (i ∈ left) := by
  obtain ⟨left, hlength, -, hleft⟩ := @connections_closed
    [.publishOne .addr, .ensureTrust true true []] dialCancelled fun _ _ => rfl
  exact ⟨left, hlength, hleft⟩

example : (runCalls [.publishOne .addr, .ensureTrust true true []]
    dialCancelled).state.live 0 = true := by
  decide

/-- `serve_forever` does not close its connection when `info` raises. -/
example : (runCalls [.serveForever []]
    ⟨fun n => if n = 1 then .raises .other else .returns, ⟨0, fun _ => false⟩⟩).state.live 0 =
      true := by
  decide

end Sockets

end PilotLanggraph

import PilotLanggraph.ListenerAccept
import PilotLanggraph.StreamEof

/-!
# The accept loop of a worker

`WorkerServer.serve_forever` on a connection of its own : it listens, and in each round of its
loop a task for `listener.accept()` races a task for `_stopping.wait()`. The connection that is
accepted goes to a task of `_handle_one`. When the loop is left, the listener is closed, the
tasks that are still running are drained, and the connection is closed.

Each action of `Serving` is a stretch between two awaits : of `serve_forever` itself
(`resume`), of one of the two racing tasks, of a call, or of something else that happens on
the connection. `Step` says what each of them does.
-/

namespace PilotLanggraph

open Ipc

/-- A task that runs code of its own. -/
inductive TaskState
  | running
  /-- `cancel` was called, and the task has not noticed. -/
  | cancelling
  /-- Returned or raised. -/
  | completed
  | cancelled
  deriving DecidableEq

namespace TaskState

/-- `t.done()`. -/
def done (t : TaskState) : Bool :=
  t = .completed || t = .cancelled

/-- `t.cancel()`. -/
def cancel : TaskState → TaskState
  | .running => .cancelling
  | t => t

/-- The end of a task. A task that was cancelled may return all the same. -/
def finish (byCancel : Bool) : TaskState → Option TaskState
  | .running => if byCancel then none else some .completed
  | .cancelling => some (if byCancel then .cancelled else .completed)
  | _ => none

@[simp] theorem done_cancel (t : TaskState) : t.cancel.done = t.done := by
  cases t <;> rfl

theorem done_of_finish {t t' : TaskState} {byCancel : Bool} (h : t.finish byCancel = some t') :
    t'.done = true := by
  cases t <;> cases byCancel <;> cases h <;> rfl

end TaskState

/-- A task of one round of the loop. -/
inductive Racer (α : Type)
  | created
  /-- It waits. -/
  | parked
  | done (result : α)
  | cancelling
  | cancelled

namespace Racer

variable {α : Type}

/-- `task.cancel()`. -/
def cancel : Racer α → Racer α
  | .done a => .done a
  | .cancelled => .cancelled
  | _ => .cancelling

/-- One stretch of the task. What it waits for, if it is there, is `got`. -/
def advance (got : Option α) : Racer α → Option (Racer α)
  | .created => some (got.elim .parked .done)
  | .parked => got.map .done
  | .cancelling => some .cancelled
  | _ => none

/-- The task takes what it waits for. -/
def Takes : Racer α → Prop
  | .created | .parked => True
  | _ => False

instance : DecidablePred (Takes (α := α))
  | .created | .parked => inferInstanceAs (Decidable True)
  | .done _ | .cancelling | .cancelled => inferInstanceAs (Decidable False)

/-- The result, if there is one. -/
def result? : Racer α → Option α
  | .done a => some a
  | _ => none

/-- `task.done()`. -/
def Over : Racer α → Prop
  | .done _ | .cancelled => True
  | _ => False

instance : DecidablePred (Over (α := α))
  | .done _ | .cancelled => inferInstanceAs (Decidable True)
  | .created | .parked | .cancelling => inferInstanceAs (Decidable False)

@[simp] theorem result?_cancel (t : Racer α) : t.cancel.result? = t.result? := by
  cases t <;> rfl

theorem cancel_ne (t : Racer α) : t.cancel ≠ .created ∧ t.cancel ≠ .parked := by
  cases t <;> exact ⟨nofun, nofun⟩

/-- It parks, gets what it waits for, or ends by its cancellation. -/
theorem advance_cases {got : Option α} {t t' : Racer α} (h : t.advance got = some t') :
    t = .created ∧ got = none ∧ t' = .parked ∨ (∃ a, got = some a ∧ t.Takes ∧ t' = .done a) ∨
      t = .cancelling ∧ t' = .cancelled := by
  cases t with
  | created =>
    obtain rfl := Option.some.inj h
    cases got with
    | none => exact Or.inl ⟨rfl, rfl, rfl⟩
    | some a => exact Or.inr (Or.inl ⟨a, rfl, trivial, rfl⟩)
  | parked =>
    obtain ⟨a, ha, rfl⟩ := Option.map_eq_some_iff.1 h
    exact Or.inr (Or.inl ⟨a, ha, trivial, rfl⟩)
  | cancelling =>
    obtain rfl := Option.some.inj h
    exact Or.inr (Or.inr ⟨rfl, rfl⟩)
  | done a => cases h
  | cancelled => cases h

end Racer

/-- Where `serve_forever` is. -/
inductive ServePhase
  /-- Connected, in `info`. -/
  | starting
  /-- In `listen`, with the future of its request. -/
  | binding (fut : ℕ)
  /-- It raised before its loop. -/
  | failed
  /-- In `asyncio.wait`. -/
  | waiting
  /-- Stop came first : in `await accept_task`. -/
  | reaping
  /-- A connection is there : in `await stop_task`. -/
  | joining
  /-- In the `gather` of the periodic tasks. -/
  | periodic
  /-- In the `gather` of the calls, with a timeout, -/
  | draining (calls : List ℕ)
  /-- which has expired and cancelled them, -/
  | expiring (calls : List ℕ)
  /-- and in the `gather` after that. -/
  | gathering (calls : List ℕ)
  /-- One of these was cancelled. -/
  | unwinding (calls : List ℕ)
  /-- In `self._conn.close()`. -/
  | closing
  | returned
  | raised
  deriving DecidableEq

namespace ServePhase

/-- In the `while` loop. -/
def InLoop : ServePhase → Prop
  | .waiting | .reaping | .joining => True
  | _ => False

instance : DecidablePred InLoop
  | .waiting | .reaping | .joining => inferInstanceAs (Decidable True)
  | .starting | .binding _ | .failed | .periodic | .draining _ | .expiring _ | .gathering _
  | .unwinding _ | .closing | .returned | .raised => inferInstanceAs (Decidable False)

/-- Before the loop. -/
def Before : ServePhase → Prop
  | .starting | .binding _ | .failed => True
  | _ => False

instance : DecidablePred Before
  | .starting | .binding _ | .failed => inferInstanceAs (Decidable True)
  | .waiting | .reaping | .joining | .periodic | .draining _ | .expiring _ | .gathering _
  | .unwinding _ | .closing | .returned | .raised => inferInstanceAs (Decidable False)

/-- After the loop. -/
def Left (p : ServePhase) : Prop :=
  ¬p.Before ∧ ¬p.InLoop

instance : DecidablePred Left :=
  fun p => inferInstanceAs (Decidable (¬p.Before ∧ ¬p.InLoop))

end ServePhase

/-- `serve_forever` with its connection and its tasks. -/
structure Serving where
  life : StreamLife
  phase : ServePhase
  /-- `self._stopping.is_set()`. -/
  stopping : Bool
  /-- `listener.port` and the accept queue of `listener`. -/
  port : ℕ
  queue : ℕ
  acceptTask : Racer AcceptedConn
  stopTask : Racer Unit
  /-- The connections that were passed to `_handle_one`, one for each call. -/
  handled : List AcceptedConn
  /-- The task of each call. -/
  calls : ℕ → TaskState
  /-- `self._inflight`. -/
  inflight : List ℕ
  /-- The number of entries in `self._periodic`. -/
  periodic : ℕ
  periodicTasks : List TaskState
  /-- The drain timeout has expired. -/
  timedOut : Bool
  /-- `serve_forever` was cancelled in its loop. -/
  raising : Bool

namespace Serving

/-- What can happen. -/
inductive Action
  /-- On the connection, other than by the listener of `serve_forever`. -/
  | conn (a : StreamLife.Action)
  | requestStop
  /-- `info` was answered, and `listen` sends its request. -/
  | bind (fut : ℕ)
  /-- `connect`, `info` or `listen` raises. -/
  | startFails
  /-- `listen` resumes with its reply. -/
  | listening
  | acceptTask
  | stopTask
  /-- `serve_forever` resumes. -/
  | resume
  /-- The task of `serve_forever` is cancelled. -/
  | interrupt
  | drainTimeout
  /-- A call ends, -/
  | callEnds (i : ℕ) (byCancel : Bool)
  /-- and its callback takes it out of the calls in flight. -/
  | discard (i : ℕ)
  | periodicEnds (i : ℕ) (byCancel : Bool)

/-- Before `serve_forever` has connected. -/
def init (periodic : ℕ) : Serving where
  life := .init
  phase := .starting
  stopping := false
  port := 0
  queue := 0
  acceptTask := .cancelled
  stopTask := .cancelled
  handled := []
  calls _ := .running
  inflight := []
  periodic := periodic
  periodicTasks := []
  timedOut := false
  raising := false

/-- The connections in the accept queue. -/
def backlog (s : Serving) : List AcceptedConn :=
  s.life.conn.accepted s.queue

/-- All the connections that were put into the accept queue. -/
def offered (s : Serving) : List AcceptedConn :=
  s.life.streams.base.offered s.queue

/-- The end of `serve_forever`. -/
def finish (s : Serving) : Serving :=
  { s with phase := if s.raising then .raised else .returned }

/-- `await self._conn.close()`. -/
def closeConn (s : Serving) : Serving :=
  if s.life.closed then s.finish else { s with life := s.life.beginClose, phase := .closing }

/-- `_drain_inflight`, after the periodic tasks. -/
def drainCalls (s : Serving) : Serving :=
  if s.inflight = [] then s.closeConn else { s with phase := .draining s.inflight }

/-- `_drain_inflight`. -/
def drainInflight (s : Serving) : Serving :=
  if s.periodicTasks = [] then s.drainCalls
  else { s with periodicTasks := s.periodicTasks.map TaskState.cancel, phase := .periodic }

/-- `await listener.close()`. -/
def closeListener (s : Serving) : Serving :=
  { s with life := s.life.setConn { s.life.conn with
      listenerAcceptQueues := s.life.conn.listenerAcceptQueues.erase s.port } }

/-- The loop is left : the `finally` block, up to its first await. -/
def leave (s : Serving) : Serving :=
  s.closeListener.drainInflight

/-- `while not self._stopping.is_set()`, up to the next await. -/
def nextRound (s : Serving) : Serving :=
  if s.stopping then s.leave
  else { s with phase := .waiting, acceptTask := .created, stopTask := .created }

/-- A task for `_handle_one`. -/
def startCall (s : Serving) (conn : AcceptedConn) : Serving :=
  { s with
    handled := s.handled ++ [conn]
    calls := Function.update s.calls s.handled.length .running
    inflight := s.inflight ++ [s.handled.length] }

/-- `t.cancel()` for the calls that are not done. -/
def cancelCalls (s : Serving) (is : List ℕ) : Serving :=
  { s with calls := fun i => if i ∈ is then (s.calls i).cancel else s.calls i }

/-- All these calls are done. -/
def AllDone (s : Serving) (is : List ℕ) : Prop :=
  ∀ i ∈ is, (s.calls i).done = true

instance (s : Serving) (is : List ℕ) : Decidable (s.AllDone is) :=
  inferInstanceAs (Decidable (∀ i ∈ is, _))

/-- The listener belongs to `serve_forever`, and so do the future of its `listen` and the
`close` it waits for. -/
def Owns (s : Serving) : StreamLife.Action → Prop
  | .streams (.endpoint (.accept q)) => q = s.queue ∧ ¬s.phase.Before
  | .streams (.endpoint (.listen fut)) => s.phase = .binding fut
  | .closeInterrupt => s.phase = .closing
  | _ => False

instance (s : Serving) : DecidablePred s.Owns
  | .streams (.endpoint (.accept _)) => inferInstanceAs (Decidable (_ ∧ _))
  | .streams (.endpoint (.listen _)) | .closeInterrupt => inferInstanceAs (Decidable (_ = _))
  | .streams (.endpoint (.request _ _)) | .streams (.endpoint (.cancel _))
  | .streams (.endpoint (.timeout _ _)) | .streams (.endpoint (.message _ _))
  | .streams (.endpoint (.dial _)) | .streams (.endpoint (.read _))
  | .streams (.close _ _) | .streams (.pop _ _) | .read _ _ | .loopEnds | .close | .closeResume
  | .forceClose => inferInstanceAs (Decidable False)

/-- The accept task takes a connection and registers its stream. -/
def takeConn (s : Serving) (conn : AcceptedConn) : Option Serving :=
  (s.life.step (.streams (.endpoint (.accept s.queue)))).map fun life =>
    { s with life, acceptTask := .done conn }

/-- A stretch of the accept task. -/
def advanceAccept (s : Serving) : Option Serving :=
  if s.acceptTask.Takes then
    match s.backlog with
    | conn :: _ => s.takeConn conn
    | [] => (s.acceptTask.advance none).map fun acceptTask => { s with acceptTask }
  else (s.acceptTask.advance none).map fun acceptTask => { s with acceptTask }

/-- A stretch of the stop task. -/
def advanceStop (s : Serving) : Option Serving :=
  (s.stopTask.advance (if s.stopping then some () else none)).map fun stopTask =>
    { s with stopTask }

/-- `serve_forever`, from one await to the next. -/
def resume (s : Serving) : Option Serving :=
  match s.phase with
  | .waiting =>
    match s.acceptTask.result? with
    | some _ => some { s with stopTask := s.stopTask.cancel, phase := .joining }
    | none =>
      if s.stopTask.Over then
        some { s with acceptTask := s.acceptTask.cancel, phase := .reaping }
      else none
  | .reaping => if s.acceptTask.Over then some s.leave else none
  | .joining =>
    if s.stopTask.Over then s.acceptTask.result?.map fun conn => (s.startCall conn).nextRound
    else none
  | .periodic =>
    if ∀ t ∈ s.periodicTasks, t.done = true then some { s with periodicTasks := [] }.drainCalls
    else none
  | .draining is => if s.AllDone is then some s.closeConn else none
  | .expiring is =>
    if s.AllDone is then
      some { s.cancelCalls s.inflight with phase := .gathering s.inflight }
    else none
  | .gathering is => if s.AllDone is then some s.closeConn else none
  | .unwinding is => if s.AllDone is then some { s with phase := .raised } else none
  | .closing => if s.life.teardown = .waiting then none else some s.finish
  | .starting | .binding _ | .failed | .returned | .raised => none

/-- A cancellation of `serve_forever`, up to the next await. -/
def interrupt (s : Serving) : Option Serving :=
  match s.phase with
  | .starting | .binding _ => some { s with phase := .failed }
  | .waiting => some { s with raising := true }.leave
  -- Both awaits are in a `try` that passes over it.
  | .reaping | .joining => some s
  | .periodic => some { s with phase := .unwinding [] }
  | .draining is | .expiring is | .gathering is =>
    some { s.cancelCalls is with phase := .unwinding is }
  | .unwinding _ => some s
  | .closing =>
    some { s with
      life := (s.life.step .closeInterrupt).getD s.life
      phase := .raised }
  | .failed | .returned | .raised => none

/-- One action, if it can happen. -/
def step (s : Serving) : Action → Option Serving
  | .conn a => if s.Owns a then none else (s.life.step a).map fun life => { s with life }
  | .requestStop => some { s with stopping := true }
  | .bind fut =>
    if s.phase = .starting then
      (s.life.step (.streams (.endpoint (.request fut cmdBindOk)))).map fun life =>
        { s with life, phase := .binding fut }
    else none
  | .startFails =>
    match s.phase with
    | .starting | .binding _ => some { s with phase := .failed }
    | _ => none
  | .listening =>
    match s.phase with
    | .binding fut =>
      match s.life.conn.futures fut with
      | .result body =>
        match parseBindOk body with
        | some port =>
          (s.life.step (.streams (.endpoint (.listen fut)))).map fun life =>
            { s with
              life, port
              queue := s.life.streams.base.queues
              periodicTasks := List.replicate s.periodic .running }.nextRound
        | none => some { s with phase := .failed }
      | _ => none
    | _ => none
  | .acceptTask => s.advanceAccept
  | .stopTask => s.advanceStop
  | .resume => s.resume
  | .interrupt => s.interrupt
  | .drainTimeout =>
    match s.phase with
    | .draining is => some { s.cancelCalls is with phase := .expiring is, timedOut := true }
    | _ => none
  | .callEnds i byCancel =>
    if i < s.handled.length then
      ((s.calls i).finish byCancel).map fun t => { s with calls := Function.update s.calls i t }
    else none
  | .discard i =>
    if i ∈ s.inflight ∧ (s.calls i).done = true then
      some { s with inflight := s.inflight.erase i }
    else none
  | .periodicEnds i byCancel =>
    (s.periodicTasks[i]?.bind (TaskState.finish byCancel)).map fun t =>
      { s with periodicTasks := s.periodicTasks.set i t }

/-- What an action does where it can be taken. -/
inductive Step (s : Serving) : Action → Serving → Prop
  | conn {a : StreamLife.Action} {life : StreamLife} (hown : ¬s.Owns a)
    (hs : s.life.step a = some life) : Step s (.conn a) { s with life }
  | requestStop : Step s .requestStop { s with stopping := true }
  | bind {fut : ℕ} {life : StreamLife} (hphase : s.phase = .starting)
    (hs : s.life.step (.streams (.endpoint (.request fut cmdBindOk))) = some life) :
    Step s (.bind fut) { s with life, phase := .binding fut }
  | fails {a : Action} (ha : a = .startFails ∨ a = .listening ∨ a = .interrupt)
    (hphase : s.phase.Before) : Step s a { s with phase := .failed }
  | listening {fut port : ℕ} {life : StreamLife} (hphase : s.phase = .binding fut)
    (hs : s.life.step (.streams (.endpoint (.listen fut))) = some life) :
    Step s .listening
      { s with
        life, port
        queue := s.life.streams.base.queues
        periodicTasks := List.replicate s.periodic .running }.nextRound
  /-- The accept task gets a connection, -/
  | take {conn : AcceptedConn} {rest : List AcceptedConn} {life : StreamLife}
    (htakes : s.acceptTask.Takes) (hq : s.backlog = conn :: rest)
    (hs : s.life.step (.streams (.endpoint (.accept s.queue))) = some life) :
    Step s .acceptTask { s with life, acceptTask := .done conn }
  /-- or parks, -/
  | park (hcreated : s.acceptTask = .created) (hq : s.backlog = []) :
    Step s .acceptTask { s with acceptTask := .parked }
  /-- or ends by its cancellation. -/
  | acceptCancelled (hcancel : s.acceptTask = .cancelling) :
    Step s .acceptTask { s with acceptTask := .cancelled }
  | stopTask {t : Racer Unit}
    (ht : s.stopTask.advance (if s.stopping then some () else none) = some t) :
    Step s .stopTask { s with stopTask := t }
  /-- A connection is there, -/
  | accepted {conn : AcceptedConn} (hphase : s.phase = .waiting)
    (hconn : s.acceptTask.result? = some conn) :
    Step s .resume { s with stopTask := s.stopTask.cancel, phase := .joining }
  /-- and its call starts once the stop task is over. -/
  | joined {conn : AcceptedConn} (hphase : s.phase = .joining) (hover : s.stopTask.Over)
    (hconn : s.acceptTask.result? = some conn) :
    Step s .resume (s.startCall conn).nextRound
  /-- Stop came first, -/
  | stopped (hphase : s.phase = .waiting) (hnone : s.acceptTask.result? = none)
    (hover : s.stopTask.Over) :
    Step s .resume { s with acceptTask := s.acceptTask.cancel, phase := .reaping }
  /-- and the loop is left once the accept task is over. -/
  | reaped (hphase : s.phase = .reaping) (hover : s.acceptTask.Over) : Step s .resume s.leave
  | interrupted (hphase : s.phase = .waiting) :
    Step s .interrupt { s with raising := true }.leave
  | periodicDone (hphase : s.phase = .periodic) (hdone : ∀ t ∈ s.periodicTasks, t.done = true) :
    Step s .resume { s with periodicTasks := [] }.drainCalls
  | drained {is : List ℕ} (hphase : s.phase = .draining is ∨ s.phase = .gathering is)
    (hdone : s.AllDone is) : Step s .resume s.closeConn
  | drainTimeout {is : List ℕ} (hphase : s.phase = .draining is) :
    Step s .drainTimeout { s.cancelCalls is with phase := .expiring is, timedOut := true }
  | expired {is : List ℕ} (hphase : s.phase = .expiring is) (hdone : s.AllDone is) :
    Step s .resume { s.cancelCalls s.inflight with phase := .gathering s.inflight }
  | closed (hphase : s.phase = .closing) (hdown : s.life.teardown ≠ .waiting) :
    Step s .resume s.finish
  /-- A cancellation that nobody sees. -/
  | ignored (hphase : s.phase = .reaping ∨ s.phase = .joining ∨ ∃ is, s.phase = .unwinding is) :
    Step s .interrupt s
  /-- A cancellation after the loop, -/
  | unwind {is js : List ℕ} (hphase : s.phase.Left) :
    Step s .interrupt { s.cancelCalls is with phase := .unwinding js }
  /-- and its end. -/
  | raises {a : Action} {life : StreamLife} (ha : a = .resume ∨ a = .interrupt)
    (hphase : s.phase.Left) (hlife : life = s.life ∨ s.life.step .closeInterrupt = some life) :
    Step s a { s with life, phase := .raised }
  | callEnds {i : ℕ} {byCancel : Bool} {t : TaskState} (hi : i < s.handled.length)
    (ht : (s.calls i).finish byCancel = some t) :
    Step s (.callEnds i byCancel) { s with calls := Function.update s.calls i t }
  | discard {i : ℕ} (hdone : (s.calls i).done = true) :
    Step s (.discard i) { s with inflight := s.inflight.erase i }
  | periodicEnds {i : ℕ} {byCancel : Bool} {ts : List TaskState} :
    Step s (.periodicEnds i byCancel) { s with periodicTasks := ts }

section

variable {s s' : Serving}

theorem cancelCalls_nil (s : Serving) : s.cancelCalls [] = s := by
  unfold cancelCalls
  simp

theorem advanceAccept_cases (h : s.advanceAccept = some s') : Step s .acceptTask s' := by
  have hrest {h : (s.acceptTask.advance none).map (fun t => { s with acceptTask := t }) = some s'}
      (hq : s.acceptTask.Takes → s.backlog = []) : Step s .acceptTask s' := by
    obtain ⟨t, ht, rfl⟩ := Option.map_eq_some_iff.1 h
    rcases Racer.advance_cases ht with ⟨hcreated, -, rfl⟩ | ⟨a, ha, -⟩ | ⟨hcancel, rfl⟩
    · exact .park hcreated (hq (by rw [hcreated]; trivial))
    · cases ha
    · exact .acceptCancelled hcancel
  unfold advanceAccept at h
  split_ifs at h with htakes
  · split at h
    · rename_i conn rest hq
      obtain ⟨life, hs, rfl⟩ := Option.map_eq_some_iff.1 h
      exact .take htakes hq hs
    · rename_i hq
      exact hrest (h := h) fun _ => hq
  · exact hrest (h := h) fun htakes' => absurd htakes' htakes

theorem resume_cases (h : s.resume = some s') : Step s .resume s' := by
  unfold resume at h
  split at h
  · rename_i hphase
    split at h
    · rename_i conn hconn
      obtain rfl := Option.some.inj h
      exact .accepted hphase hconn
    · rename_i hnone
      split_ifs at h with hover
      obtain rfl := Option.some.inj h
      exact .stopped hphase hnone hover
  · split_ifs at h with hover
    obtain rfl := Option.some.inj h
    exact .reaped ‹_› hover
  · split_ifs at h with hover
    obtain ⟨conn, hconn, rfl⟩ := Option.map_eq_some_iff.1 h
    exact .joined ‹_› hover hconn
  · split_ifs at h with hdone
    obtain rfl := Option.some.inj h
    exact .periodicDone ‹_› hdone
  · split_ifs at h with hdone
    obtain rfl := Option.some.inj h
    exact .drained (Or.inl ‹_›) hdone
  · split_ifs at h with hdone
    obtain rfl := Option.some.inj h
    exact .expired ‹_› hdone
  · split_ifs at h with hdone
    obtain rfl := Option.some.inj h
    exact .drained (Or.inr ‹_›) hdone
  · rename_i is hphase
    split_ifs at h with hdone
    obtain rfl := Option.some.inj h
    exact .raises (Or.inl rfl) (hphase ▸ ⟨id, id⟩) (Or.inl rfl)
  · split_ifs at h with hdown
    obtain rfl := Option.some.inj h
    exact .closed ‹_› hdown
  all_goals cases h

theorem interrupt_cases (h : s.interrupt = some s') : Step s .interrupt s' := by
  unfold interrupt at h
  cases hphase : s.phase with
  | starting | binding fut =>
    simp only [hphase, Option.some.injEq] at h
    subst h
    exact .fails (Or.inr (Or.inr rfl)) (by simp [hphase, ServePhase.Before])
  | waiting =>
    simp only [hphase, Option.some.injEq] at h
    subst h
    exact .interrupted hphase
  | reaping =>
    simp only [hphase, Option.some.injEq] at h
    subst h
    exact .ignored (Or.inl hphase)
  | joining =>
    simp only [hphase, Option.some.injEq] at h
    subst h
    exact .ignored (Or.inr (Or.inl hphase))
  | unwinding is =>
    simp only [hphase, Option.some.injEq] at h
    subst h
    exact .ignored (Or.inr (Or.inr ⟨is, hphase⟩))
  | periodic =>
    simp only [hphase, Option.some.injEq] at h
    subst h
    have hstep : Step s .interrupt { s.cancelCalls [] with phase := .unwinding [] } :=
      .unwind (by rw [hphase]; decide)
    rwa [cancelCalls_nil] at hstep
  | draining is | expiring is | gathering is =>
    simp only [hphase, Option.some.injEq] at h
    subst h
    exact .unwind (hphase ▸ ⟨id, id⟩)
  | closing =>
    simp only [hphase, Option.some.injEq] at h
    subst h
    refine .raises (Or.inr rfl) (by rw [hphase]; decide) ?_
    cases hinterrupt : s.life.step .closeInterrupt with
    | none => exact Or.inl rfl
    | some life => exact Or.inr rfl
  | failed | returned | raised =>
    simp only [hphase] at h
    cases h

theorem step_cases {a : Action} (h : s.step a = some s') : Step s a s' := by
  cases a with
  | conn a =>
    simp only [step] at h
    split_ifs at h with hown
    obtain ⟨life, hs, rfl⟩ := Option.map_eq_some_iff.1 h
    exact .conn hown hs
  | requestStop =>
    obtain rfl := Option.some.inj h
    exact .requestStop
  | bind fut =>
    simp only [step] at h
    split_ifs at h with hphase
    obtain ⟨life, hs, rfl⟩ := Option.map_eq_some_iff.1 h
    exact .bind hphase hs
  | startFails =>
    simp only [step] at h
    split at h
    · obtain rfl := Option.some.inj h
      exact .fails (Or.inl rfl) (by simp [*, ServePhase.Before])
    · obtain rfl := Option.some.inj h
      exact .fails (Or.inl rfl) (by simp [*, ServePhase.Before])
    · cases h
  | listening =>
    simp only [step] at h
    split at h
    · rename_i fut hphase
      split at h
      · split at h
        · obtain ⟨life, hs, rfl⟩ := Option.map_eq_some_iff.1 h
          exact .listening hphase hs
        · obtain rfl := Option.some.inj h
          exact .fails (Or.inr (Or.inl rfl)) (by simp [hphase, ServePhase.Before])
      · cases h
    · cases h
  | acceptTask => exact advanceAccept_cases h
  | stopTask =>
    obtain ⟨t, ht, rfl⟩ := Option.map_eq_some_iff.1 h
    exact .stopTask ht
  | resume => exact resume_cases h
  | interrupt => exact interrupt_cases h
  | drainTimeout =>
    simp only [step] at h
    split at h
    · obtain rfl := Option.some.inj h
      exact .drainTimeout ‹_›
    · cases h
  | callEnds i byCancel =>
    simp only [step] at h
    split_ifs at h with hi
    obtain ⟨t, ht, rfl⟩ := Option.map_eq_some_iff.1 h
    exact .callEnds hi ht
  | discard i =>
    simp only [step, Option.ite_none_right_eq_some, Option.some.injEq] at h
    obtain ⟨⟨-, hdone⟩, rfl⟩ := h
    exact .discard hdone
  | periodicEnds i byCancel =>
    obtain ⟨t, -, rfl⟩ := Option.map_eq_some_iff.1 h
    exact .periodicEnds

end

/-! ## Where the loop leads -/

/-- The calls, the stop and what was offered are as before. -/
structure Keeps (s s' : Serving) : Prop where
  handled : s'.handled = s.handled
  calls : s'.calls = s.calls
  inflight : s'.inflight = s.inflight
  timedOut : s'.timedOut = s.timedOut
  stopTask : s'.stopTask = s.stopTask
  stopping : s'.stopping = s.stopping
  unopened : s.life.streams.base.Unopened → s'.life.streams.base.Unopened
  offered : s'.offered = s.offered

section

variable (s : Serving)

theorem keeps_closeConn : s.Keeps s.closeConn := by
  unfold closeConn StreamLife.beginClose
  split_ifs <;> exact ⟨rfl, rfl, rfl, rfl, rfl, rfl, id, rfl⟩

theorem keeps_drainCalls : s.Keeps s.drainCalls := by
  unfold drainCalls
  split_ifs
  · exact s.keeps_closeConn
  · exact ⟨rfl, rfl, rfl, rfl, rfl, rfl, id, rfl⟩

theorem keeps_leave : s.Keeps s.leave := by
  have hclose : s.Keeps s.closeListener :=
    ⟨rfl, rfl, rfl, rfl, rfl, rfl, fun h => ⟨fun hq => h.created (Dict.get?_of_erase hq), h.untaken,
      h.unoffered⟩, rfl⟩
  unfold leave drainInflight
  split_ifs
  · have hdrain := s.closeListener.keeps_drainCalls
    exact { hdrain with unopened := fun h => hdrain.unopened (hclose.unopened h) }
  · exact { hclose with }

theorem left_closeConn : s.closeConn.phase.Left := by
  unfold closeConn finish
  split_ifs <;> exact ⟨id, id⟩

theorem left_drainCalls : s.drainCalls.phase.Left := by
  unfold drainCalls
  split_ifs
  · exact s.left_closeConn
  · exact ⟨id, id⟩

theorem left_leave : s.leave.phase.Left := by
  unfold leave drainInflight
  split_ifs
  · exact left_drainCalls _
  · exact ⟨id, id⟩

/-- After a round comes another one, or the loop is left. -/
theorem nextRound_cases : s.nextRound = s.leave ∨
    s.nextRound = { s with phase := .waiting, acceptTask := .created, stopTask := .created } := by
  unfold nextRound
  split_ifs
  · exact Or.inl rfl
  · exact Or.inr rfl

end

/-- A worker that listens on port 80, and both tasks of its first round wait. -/
def listens : List Action :=
  [.bind 0, .conn (.streams (.endpoint (.message cmdBindOk [0, 80]))), .listening, .acceptTask,
    .stopTask]

end Serving

end PilotLanggraph

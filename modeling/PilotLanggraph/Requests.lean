import PilotLanggraph.Connection
import PilotLanggraph.Lib.Machine

/-!
# Concurrent requests on one connection

A `Session` is a connection shared by any number of `_request` calls, the write lock, the
daemon, and the messages on their way back. Each action is what happens between two
await points : a call gets the lock, registers its future and writes its request, or fails to; its
drain returns or raises; it is cancelled, times out, or resumes with the outcome of its
future; the daemon answers the oldest request under some reply command, by a reply or by an
error, or sends something unasked; the read loop handles one message. The connection can be
lost on the way, and then the daemon has read no more than some of the requests.

Replies carry no correlation id. What routes them is that the deque of waiters under a
reply command lists the requests whose answers are still to be read, in the order of the
sends (`LinedUp`). A timed-out call takes its future out of the deque while its answer is
still to come, and an error is taken to a deque that need not be the one of the request it
answers. `Calm` says that nobody stands, or comes to stand, behind a timed-out call, and
that an error meets the request it answers, or nobody.

* `calm_returned` : in a run of calm steps, a call that returns returns its own answer, and
  one that an error fails was refused by it.
* `requests_routed` : in an undisturbed run, a call that returns returns its own answer,
  and every answer that was read has reached a call that was not cancelled.
-/

namespace PilotLanggraph

open Ipc

/-! ## Sessions -/

/-- Where a `_request` call is. -/
inductive Phase
  | lockWait
  | draining
  | awaiting
  | returned (payload : Bytes)
  | failed
  | cancelled
  | timedOut
  deriving DecidableEq

/-- Who holds the write lock : a `_request` call, or a `_send_raw`. -/
inductive Holder
  | request (r : ℕ)
  | raw
  deriving DecidableEq

/-- A message from the daemon, with the request it answers. -/
structure Message where
  cmd : UInt8
  payload : Bytes
  origin : Option ℕ

/-- The reply command each call expects, and whether the daemon announces closed streams.
It does so under `CMD_CLOSE_OK`, which then is nobody's reply command. -/
structure Expect where
  cmd : ℕ → UInt8
  isReply : ∀ r, Connection.IsReply (cmd r)
  closes : Bool
  cmd_ne_closeOk : closes = true → ∀ r, cmd r ≠ cmdCloseOk

/-- A connection in use. A call is named by the number of its future. -/
structure Session where
  conn : Connection
  phase : ℕ → Option Phase
  lock : Option Holder
  /-- Requests the daemon has not answered, in the order of the sends. -/
  unanswered : List ℕ
  /-- Messages the read loop has not read. -/
  inbound : List Message
  /-- What the daemon replied to each request, -/
  answer : ℕ → Option Bytes
  /-- or the error it answered with. -/
  refusal : ℕ → Option Bytes
  /-- What is written does not reach the daemon any more. -/
  lost : Bool

/-- What can happen next. -/
inductive Action
  | call (r : ℕ)
  | acquire (r : ℕ)
  | drained (r : ℕ)
  | drainFailed (r : ℕ)
  /-- The send raises before anything is written. -/
  | sendFailed (r : ℕ)
  | cancel (r : ℕ)
  | timeout (r : ℕ)
  | resume (r : ℕ)
  | acquireRaw
  | releaseRaw
  /-- The daemon replies to a request, -/
  | answer (r : ℕ) (payload : Bytes)
  /-- or answers it with an error. -/
  | refuse (r : ℕ) (payload : Bytes)
  | push (cmd : UInt8) (payload : Bytes)
  /-- An error that answers no request. -/
  | complain (payload : Bytes)
  /-- The connection is lost. Of the unanswered requests the daemon has, or gets, the first `n`. -/
  | lose (n : ℕ)
  | read

/-- No request times out, no write fails, and the daemon sends no error. -/
def Action.Undisturbed : Action → Prop
  | .timeout _ | .drainFailed _ | .sendFailed _ | .refuse _ _ | .complain _ | .lose _ => False
  | _ => True

instance : ∀ a : Action, Decidable a.Undisturbed
  | .timeout _ | .drainFailed _ | .sendFailed _ | .refuse _ _ | .complain _ | .lose _ =>
    inferInstanceAs (Decidable False)
  | .call _ | .acquire _ | .drained _ | .cancel _ | .resume _ | .acquireRaw | .releaseRaw
  | .answer _ _ | .push _ _ | .read => inferInstanceAs (Decidable True)

namespace Session

/-- A new connection. -/
def init : Session :=
  ⟨Connection.init, fun _ => none, none, [], [], fun _ => none, fun _ => none, false⟩

/-- Move a call on. -/
def setPhase (s : Session) (r : ℕ) (ph : Phase) : Session :=
  { s with phase := Function.update s.phase r (some ph) }

@[simp] theorem phase_setPhase_self (s : Session) (r : ℕ) (ph : Phase) :
    (s.setPhase r ph).phase r = some ph :=
  Function.update_self ..

theorem phase_setPhase_of_ne (s : Session) {q r : ℕ} (ph : Phase) (h : q ≠ r) :
    (s.setPhase r ph).phase q = s.phase q :=
  Function.update_of_ne h ..

/-- `self._waiters[expect].append(fut)`. -/
def enqueue (e : Expect) (s : Session) (r : ℕ) : Session :=
  { s with conn := { s.conn with
      waiters := s.conn.waiters.set (e.cmd r) (s.conn.waitersOf (e.cmd r) ++ [r]) } }

/-- The future is in its deque, and the request is on the socket. -/
def send (e : Expect) (s : Session) (r : ℕ) : Session :=
  { s.enqueue e r with unanswered := if s.lost then s.unanswered else s.unanswered ++ [r] }

/-- `self._waiters[expect].remove(fut)`. -/
def removeWaiter (e : Expect) (s : Session) (r : ℕ) : Session :=
  { s with conn := { s.conn with
      waiters := s.conn.waiters.set (e.cmd r) ((s.conn.waitersOf (e.cmd r)).erase r) } }

/-- A call that stops waiting cancels its future. -/
def cancelFuture (s : Session) (r : ℕ) : Session :=
  { s with conn := s.conn.settle r .cancelled }

/-- The daemon sends its answer to a request. -/
def sendAnswer (s : Session) (r : ℕ) (m : Message) : Session :=
  { s with unanswered := s.unanswered.erase r, inbound := s.inbound ++ [m] }

/-- The session after an action, if it can happen. -/
def step (e : Expect) (s : Session) : Action → Option Session
  | .call r => if s.phase r = none then some (s.setPhase r .lockWait) else none
  | .acquire r =>
    if s.phase r = some .lockWait ∧ s.lock = none then
      some { (s.send e r).setPhase r .draining with lock := some (.request r) }
    else none
  | .drained r =>
    if s.phase r = some .draining then some { s.setPhase r .awaiting with lock := none } else none
  -- The future stays in its deque.
  | .drainFailed r =>
    if s.phase r = some .draining then some { s.setPhase r .failed with lock := none } else none
  | .sendFailed r =>
    if s.phase r = some .lockWait ∧ s.lock = none then some ((s.enqueue e r).setPhase r .failed)
    else none
  | .cancel r =>
    match s.phase r with
    | some .lockWait => some (s.setPhase r .cancelled)
    -- Nobody awaits the future yet : it stays pending, in its place in the deque.
    | some .draining => some { s.setPhase r .cancelled with lock := none }
    | some .awaiting => some ((s.cancelFuture r).setPhase r .cancelled)
    | _ => none
  | .timeout r =>
    if s.phase r = some .awaiting then
      some (((s.cancelFuture r).removeWaiter e r).setPhase r .timedOut)
    else none
  | .resume r =>
    match s.phase r, s.conn.futures r with
    | some .awaiting, .result payload => some (s.setPhase r (.returned payload))
    | some .awaiting, .daemonError _ => some (s.setPhase r .failed)
    | _, _ => none
  | .acquireRaw => if s.lock = none then some { s with lock := some .raw } else none
  | .releaseRaw => if s.lock = some .raw then some { s with lock := none } else none
  | .answer r payload =>
    -- Requests that share a reply command are answered in the order received.
    if (s.unanswered.find? fun q => e.cmd q = e.cmd r) = some r then
      some { s.sendAnswer r ⟨e.cmd r, payload, some r⟩ with
        answer := Function.update s.answer r (some payload) }
    else none
  | .refuse r payload =>
    if (s.unanswered.find? fun q => e.cmd q = e.cmd r) = some r then
      some { s.sendAnswer r ⟨cmdError, payload, some r⟩ with
        refusal := Function.update s.refusal r (some payload) }
    else none
  | .push cmd payload =>
    if Connection.IsPush cmd ∧ (cmd = cmdCloseOk → e.closes = true) then
      some { s with inbound := s.inbound ++ [⟨cmd, payload, none⟩] }
    else none
  | .complain payload => some { s with inbound := s.inbound ++ [⟨cmdError, payload, none⟩] }
  | .lose n =>
    if s.lost then none else some { s with lost := true, unanswered := s.unanswered.take n }
  | .read =>
    match s.inbound with
    | [] => none
    | m :: ms => some { s with inbound := ms, conn := s.conn.dispatch m.cmd m.payload }

/-- What an action does where it can be taken, with the guard of each branch. -/
inductive Step (e : Expect) (s : Session) : Action → Session → Prop
  | call {r : ℕ} (hr : s.phase r = none) : Step e s (.call r) (s.setPhase r .lockWait)
  | acquire {r : ℕ} (hr : s.phase r = some .lockWait) (hlock : s.lock = none) :
    Step e s (.acquire r) { (s.send e r).setPhase r .draining with lock := some (.request r) }
  | drained {r : ℕ} (hr : s.phase r = some .draining) :
    Step e s (.drained r) { s.setPhase r .awaiting with lock := none }
  | drainFailed {r : ℕ} (hr : s.phase r = some .draining) :
    Step e s (.drainFailed r) { s.setPhase r .failed with lock := none }
  | sendFailed {r : ℕ} (hr : s.phase r = some .lockWait) :
    Step e s (.sendFailed r) ((s.enqueue e r).setPhase r .failed)
  | cancelLockWait {r : ℕ} (hr : s.phase r = some .lockWait) :
    Step e s (.cancel r) (s.setPhase r .cancelled)
  | cancelDraining {r : ℕ} (hr : s.phase r = some .draining) :
    Step e s (.cancel r) { s.setPhase r .cancelled with lock := none }
  | cancelAwaiting {r : ℕ} (hr : s.phase r = some .awaiting) :
    Step e s (.cancel r) ((s.cancelFuture r).setPhase r .cancelled)
  | timeout {r : ℕ} (hr : s.phase r = some .awaiting) :
    Step e s (.timeout r) (((s.cancelFuture r).removeWaiter e r).setPhase r .timedOut)
  | resumeResult {r : ℕ} {payload : Bytes} (hr : s.phase r = some .awaiting)
    (hf : s.conn.futures r = .result payload) :
    Step e s (.resume r) (s.setPhase r (.returned payload))
  | resumeError {r : ℕ} (hr : s.phase r = some .awaiting) :
    Step e s (.resume r) (s.setPhase r .failed)
  | acquireRaw (hlock : s.lock = none) : Step e s .acquireRaw { s with lock := some .raw }
  | releaseRaw (hlock : s.lock = some .raw) : Step e s .releaseRaw { s with lock := none }
  | answer {r : ℕ} {payload : Bytes}
    (hr : (s.unanswered.find? fun q => e.cmd q = e.cmd r) = some r) :
    Step e s (.answer r payload)
      { s.sendAnswer r ⟨e.cmd r, payload, some r⟩ with
        answer := Function.update s.answer r (some payload) }
  | refuse {r : ℕ} {payload : Bytes}
    (hr : (s.unanswered.find? fun q => e.cmd q = e.cmd r) = some r) :
    Step e s (.refuse r payload)
      { s.sendAnswer r ⟨cmdError, payload, some r⟩ with
        refusal := Function.update s.refusal r (some payload) }
  | push {cmd : UInt8} {payload : Bytes}
    (hcmd : Connection.IsPush cmd ∧ (cmd = cmdCloseOk → e.closes = true)) :
    Step e s (.push cmd payload) { s with inbound := s.inbound ++ [⟨cmd, payload, none⟩] }
  | complain {payload : Bytes} :
    Step e s (.complain payload) { s with inbound := s.inbound ++ [⟨cmdError, payload, none⟩] }
  | lose {n : ℕ} : Step e s (.lose n) { s with lost := true, unanswered := s.unanswered.take n }
  | read {m : Message} {ms : List Message} (hin : s.inbound = m :: ms) :
    Step e s .read { s with inbound := ms, conn := s.conn.dispatch m.cmd m.payload }

theorem step_cases {e : Expect} {s s' : Session} {a : Action} (hs : s.step e a = some s') :
    Step e s a s' := by
  cases a with
  | call r =>
    simp only [Session.step, Option.ite_none_right_eq_some, Option.some.injEq] at hs
    obtain ⟨hr, rfl⟩ := hs
    exact .call hr
  | acquire r =>
    simp only [Session.step, Option.ite_none_right_eq_some, Option.some.injEq] at hs
    obtain ⟨⟨hr, hlock⟩, rfl⟩ := hs
    exact .acquire hr hlock
  | drained r =>
    simp only [Session.step, Option.ite_none_right_eq_some, Option.some.injEq] at hs
    obtain ⟨hr, rfl⟩ := hs
    exact .drained hr
  | drainFailed r =>
    simp only [Session.step, Option.ite_none_right_eq_some, Option.some.injEq] at hs
    obtain ⟨hr, rfl⟩ := hs
    exact .drainFailed hr
  | sendFailed r =>
    simp only [Session.step, Option.ite_none_right_eq_some, Option.some.injEq] at hs
    obtain ⟨⟨hr, -⟩, rfl⟩ := hs
    exact .sendFailed hr
  | cancel r =>
    simp only [Session.step] at hs
    split at hs
    · obtain rfl := Option.some.inj hs
      exact .cancelLockWait ‹_›
    · obtain rfl := Option.some.inj hs
      exact .cancelDraining ‹_›
    · obtain rfl := Option.some.inj hs
      exact .cancelAwaiting ‹_›
    · cases hs
  | timeout r =>
    simp only [Session.step, Option.ite_none_right_eq_some, Option.some.injEq] at hs
    obtain ⟨hr, rfl⟩ := hs
    exact .timeout hr
  | resume r =>
    simp only [Session.step] at hs
    split at hs
    · rename_i hr hf
      obtain rfl := Option.some.inj hs
      exact .resumeResult hr hf
    · rename_i hr _
      obtain rfl := Option.some.inj hs
      exact .resumeError hr
    · cases hs
  | acquireRaw =>
    simp only [Session.step, Option.ite_none_right_eq_some, Option.some.injEq] at hs
    obtain ⟨hlock, rfl⟩ := hs
    exact .acquireRaw hlock
  | releaseRaw =>
    simp only [Session.step, Option.ite_none_right_eq_some, Option.some.injEq] at hs
    obtain ⟨hlock, rfl⟩ := hs
    exact .releaseRaw hlock
  | answer r payload =>
    simp only [Session.step, Option.ite_none_right_eq_some, Option.some.injEq] at hs
    obtain ⟨hr, rfl⟩ := hs
    exact .answer hr
  | refuse r payload =>
    simp only [Session.step, Option.ite_none_right_eq_some, Option.some.injEq] at hs
    obtain ⟨hr, rfl⟩ := hs
    exact .refuse hr
  | push cmd payload =>
    simp only [Session.step, Option.ite_none_right_eq_some, Option.some.injEq] at hs
    obtain ⟨hcmd, rfl⟩ := hs
    exact .push hcmd
  | complain payload =>
    obtain rfl := Option.some.inj hs
    exact .complain
  | lose n =>
    simp only [Session.step, Option.ite_none_left_eq_some, Option.some.injEq] at hs
    obtain ⟨-, rfl⟩ := hs
    exact .lose
  | read =>
    simp only [Session.step] at hs
    split at hs
    · cases hs
    · rename_i hin
      obtain rfl := Option.some.inj hs
      exact .read hin

/-- The requests whose answers have not been read, in the order they will be under each
reply command. -/
def outstanding (s : Session) : List ℕ :=
  s.inbound.filterMap Message.origin ++ s.unanswered

/-- Those under one reply command. -/
def outstandingUnder (e : Expect) (s : Session) (k : UInt8) : List ℕ :=
  s.outstanding.filter fun r => e.cmd r = k

/-- A call times out only when nobody waits behind it or its answer is not to come. Nobody
sends under a reply command while the answer to a timed-out call under it is still to be
read. A send that raises with nothing written does so on a lost connection, with no such answer
to come either. An error is read only when the first waiter is the call it answers, or nobody
waits. -/
def Calm (e : Expect) (s : Session) : Action → Prop
  | .timeout r => r ∈ s.outstanding → r ∈ s.conn.waitersOf (e.cmd r) →
      (s.conn.waitersOf (e.cmd r)).getLast? = some r
  | .acquire r => ∀ q ∈ s.outstanding, e.cmd q = e.cmd r → s.phase q ≠ some .timedOut
  | .sendFailed r => s.lost = true ∧
      ∀ q ∈ s.outstanding, e.cmd q = e.cmd r → s.phase q ≠ some .timedOut
  | .read => ∀ m ∈ s.inbound.head?, m.cmd = cmdError →
      s.conn.firstWaiter? = m.origin ∨ s.conn.firstWaiter? = none
  | _ => True

instance (e : Expect) (s : Session) : ∀ a, Decidable (Calm e s a)
  | .timeout _ => inferInstanceAs (Decidable (_ → _))
  | .acquire _ => inferInstanceAs (Decidable (∀ q ∈ _, _ → _))
  | .sendFailed _ => inferInstanceAs (Decidable (_ = _ ∧ ∀ q ∈ _, _ → _))
  | .read => inferInstanceAs (Decidable (∀ m ∈ _, _ → _))
  | .call _ | .drained _ | .drainFailed _ | .cancel _ | .resume _ | .acquireRaw | .releaseRaw
  | .answer _ _ | .refuse _ _ | .push _ _ | .complain _ | .lose _ =>
    inferInstanceAs (Decidable True)

/-! ## The invariant -/

/-- The waiters under a reply command are the requests whose answers are to be read, up to
timed-out ones at the end. Once the connection is lost, there can be waiters at the end that
nobody answers instead. -/
def LinedUp (e : Expect) (s : Session) (k : UInt8) : Prop :=
  (∃ dead, s.outstandingUnder e k = s.conn.waitersOf k ++ dead ∧
      ∀ r ∈ dead, s.phase r = some .timedOut) ∨
    s.lost = true ∧ s.outstandingUnder e k <+: s.conn.waitersOf k

/-- The outcome is what the daemon answered to the request. -/
def Owns (s : Session) (r : ℕ) : FutureState → Prop
  | .result payload => s.answer r = some payload
  | .daemonError err => (s.refusal r).map parseError = some err
  | _ => True

/-- The message is the daemon's answer to the request. -/
def Answers (e : Expect) (s : Session) (r : ℕ) (m : Message) : Prop :=
  m.cmd = e.cmd r ∧ s.answer r = some m.payload ∨
    m.cmd = cmdError ∧ s.refusal r = some m.payload ∧ s.answer r = none

/-- The message answers no request. -/
def Unasked (e : Expect) (m : Message) : Prop :=
  Connection.IsPush m.cmd ∧ (m.cmd = cmdCloseOk → e.closes = true) ∨ m.cmd = cmdError

/-- The deques line up with the answers to come. The other fields tie futures, phases and
answers to that. -/
structure Aligned (e : Expect) (s : Session) : Prop where
  linedUp : ∀ k, LinedUp e s k
  nodup : s.outstanding.Nodup
  waiters : ∀ k, (s.conn.waitersOf k).Nodup ∧ ∀ r ∈ s.conn.waitersOf k, e.cmd r = k
  fresh : ∀ r, s.phase r = none ∨ s.phase r = some .lockWait →
    r ∉ s.outstanding ∧ r ∉ s.conn.waitersOf (e.cmd r) ∧ s.conn.futures r = .pending ∧
      s.answer r = none ∧ s.refusal r = none
  unanswered : ∀ r ∈ s.unanswered, s.answer r = none ∧ s.refusal r = none
  replies : ∀ m ∈ s.inbound, ∀ r, m.origin = some r → Answers e s r m
  pushes : ∀ m ∈ s.inbound, m.origin = none → Unasked e m
  waiting : ∀ k, ∀ r ∈ s.conn.waitersOf k,
    s.conn.futures r = .pending ∨ s.phase r = some .cancelled
  delivered : ∀ r p, s.answer r = some p → r ∉ s.outstanding →
    s.conn.futures r = .result p ∨ s.phase r = some .cancelled ∨ s.phase r = some .timedOut
  owns : ∀ r, s.Owns r (s.conn.futures r)
  returned : ∀ r p, s.phase r = some (.returned p) → s.answer r = some p

theorem aligned_init (e : Expect) : Aligned e init where
  linedUp := fun _ => Or.inl ⟨[], rfl, by simp⟩
  nodup := List.nodup_nil
  waiters := by simp [init, Connection.init, Connection.waitersOf]
  fresh := fun _ _ => ⟨by simp [outstanding, init], by simp [init, Connection.init,
    Connection.waitersOf], rfl, rfl, rfl⟩
  unanswered := by simp [init]
  replies := by simp [init]
  pushes := by simp [init]
  waiting := by simp [init, Connection.init, Connection.waitersOf]
  delivered := by simp [init]
  owns := fun _ => trivial
  returned := by simp [init]

section

variable {e : Expect} {s s' : Session}

/-- What lines up is told by the deque, the answers to come, and who has timed out. -/
theorem LinedUp.congr {k : UInt8} (h : LinedUp e s k)
    (hout : s'.outstandingUnder e k = s.outstandingUnder e k)
    (hwaiters : s'.conn.waitersOf k = s.conn.waitersOf k)
    (hphase : ∀ r, s.phase r = some .timedOut → s'.phase r = some .timedOut)
    (hlost : s'.lost = s.lost) : LinedUp e s' k := by
  rw [LinedUp, hout, hwaiters, hlost]
  refine h.imp_left ?_
  rintro ⟨dead, hk, hd⟩
  exact ⟨dead, hk, fun r hr => hphase r (hd r hr)⟩

/-- Both lose their first. -/
theorem LinedUp.tail {k : UInt8} (h : LinedUp e s k)
    (hout : s'.outstandingUnder e k = (s.outstandingUnder e k).tail)
    (hwaiters : s'.conn.waitersOf k = (s.conn.waitersOf k).tail)
    (hphase : s'.phase = s.phase) (hlost : s'.lost = s.lost) : LinedUp e s' k := by
  rw [LinedUp, hout, hwaiters, hlost, hphase]
  rcases h with ⟨dead, hk, hd⟩ | ⟨hlost, hk⟩
  · rw [hk]
    cases s.conn.waitersOf k with
    | nil => exact Or.inl ⟨dead.tail, rfl, fun q hq => hd q (List.mem_of_mem_tail hq)⟩
    | cons w ws => exact Or.inl ⟨dead, rfl, hd⟩
  · obtain ⟨ghosts, hk⟩ := hk
    refine Or.inr ⟨hlost, ?_⟩
    rw [← hk]
    cases s.outstandingUnder e k with
    | nil => exact List.nil_prefix
    | cons r rs => exact List.prefix_append rs ghosts

theorem timedOut_setPhase {r : ℕ} (hr : s.phase r ≠ some .timedOut) (ph : Phase) (q : ℕ)
    (hq : s.phase q = some .timedOut) : (s.setPhase r ph).phase q = some .timedOut := by
  have hqr : q ≠ r := fun heq => hr (heq ▸ hq)
  rw [phase_setPhase_of_ne s ph hqr]
  exact hq

theorem mem_outstandingUnder {k : UInt8} {r : ℕ} :
    r ∈ s.outstandingUnder e k ↔ r ∈ s.outstanding ∧ e.cmd r = k := by
  simp [outstandingUnder]

theorem Aligned.setLock (h : Aligned e s) (l : Option Holder) : Aligned e { s with lock := l } :=
  ⟨h.linedUp, h.nodup, h.waiters, h.fresh, h.unanswered, h.replies, h.pushes, h.waiting,
    h.delivered, h.owns, h.returned⟩

/-- A call that is not over moves on. -/
theorem Aligned.setPhase (h : Aligned e s) {r : ℕ} {ph : Phase}
    (hdead : s.phase r ≠ some .timedOut) (hcancel : s.phase r ≠ some .cancelled)
    (hfresh : ph = .lockWait → s.phase r = none)
    (hreturned : ∀ p, ph = .returned p → s.answer r = some p) : Aligned e (s.setPhase r ph) where
  linedUp := fun k => (h.linedUp k).congr rfl rfl (timedOut_setPhase hdead ph) rfl
  nodup := h.nodup
  waiters := h.waiters
  fresh := by
    intro q hq
    by_cases hqr : q = r
    · subst hqr
      rw [phase_setPhase_self] at hq
      exact h.fresh q (Or.inl (hfresh (by simpa using hq)))
    · rw [phase_setPhase_of_ne s ph hqr] at hq
      exact h.fresh q hq
  unanswered := h.unanswered
  replies := h.replies
  pushes := h.pushes
  waiting := by
    intro k q hq
    rcases h.waiting k q hq with hp | hp
    · exact Or.inl hp
    · have hne : q ≠ r := fun heq => hcancel (heq ▸ hp)
      rw [phase_setPhase_of_ne s ph hne]
      exact Or.inr hp
  delivered := by
    intro q p hq hout
    by_cases hqr : q = r
    · subst hqr
      rcases h.delivered q p hq hout with hp | hp | hp
      · exact Or.inl hp
      · exact absurd hp hcancel
      · exact absurd hp hdead
    · rw [phase_setPhase_of_ne s ph hqr]
      exact h.delivered q p hq hout
  owns := h.owns
  returned := by
    intro q p hq
    by_cases hqr : q = r
    · subst hqr
      rw [phase_setPhase_self] at hq
      exact hreturned p (Option.some.inj hq)
    · rw [phase_setPhase_of_ne s ph hqr] at hq
      exact h.returned q p hq

/-- What is sent on a lost connection is not there. -/
theorem send_of_lost (hlost : s.lost = true) {r : ℕ} : s.send e r = s.enqueue e r := by
  rw [Session.send, if_pos hlost]
  rfl

theorem outstanding_send (e : Expect) (s : Session) (r : ℕ) :
    (s.send e r).outstanding = if s.lost then s.outstanding else s.outstanding ++ [r] := by
  unfold outstanding send
  split_ifs
  · rfl
  · exact (List.append_assoc _ _ _).symm

theorem waitersOf_send (e : Expect) (s : Session) (r : ℕ) (k : UInt8) :
    (s.send e r).conn.waitersOf k =
      if k = e.cmd r then s.conn.waitersOf (e.cmd r) ++ [r] else s.conn.waitersOf k :=
  s.conn.waitersOf_set _ _ k

theorem outstandingUnder_send (e : Expect) (s : Session) (r : ℕ) (k : UInt8) :
    (s.send e r).outstandingUnder e k =
      if k = e.cmd r ∧ s.lost = false then s.outstandingUnder e (e.cmd r) ++ [r]
      else s.outstandingUnder e k := by
  rw [outstandingUnder, outstanding_send]
  by_cases hl : s.lost = true
  · rw [if_pos hl, if_neg fun h => by simp [hl] at h]
    rfl
  · rw [if_neg hl, List.filter_append]
    split_ifs with hk
    · rw [hk.1, List.filter_cons_of_pos (by simp)]
      rfl
    · have hne : ¬e.cmd r = k := fun he => hk ⟨he.symm, by simpa using hl⟩
      rw [List.filter_cons_of_neg (by simpa using hne)]
      exact List.append_nil _

/-- With no timed-out call ahead of it, a request lines up at the end. -/
theorem LinedUp.send {k : UInt8} (h : LinedUp e s k) {r : ℕ} (hcalm : Calm e s (.acquire r)) :
    LinedUp e (s.send e r) k := by
  have hlost : (s.send e r).lost = s.lost := rfl
  by_cases hk : k = e.cmd r
  · subst hk
    rw [LinedUp, hlost, waitersOf_send, if_pos rfl, outstandingUnder_send]
    rcases h with ⟨dead, hout, hd⟩ | ⟨hl, hout⟩
    · obtain rfl : dead = [] := by
        refine List.eq_nil_iff_forall_not_mem.2 fun q hq => ?_
        have hmem : q ∈ s.outstandingUnder e (e.cmd r) := by
          rw [hout]
          exact List.mem_append_right _ hq
        obtain ⟨hmem, hcmd⟩ := mem_outstandingUnder.1 hmem
        exact hcalm q hmem hcmd (hd q hq)
      rw [hout, List.append_nil]
      by_cases hl : s.lost = true
      · rw [if_neg fun h => by simp [hl] at h]
        exact Or.inr ⟨hl, List.prefix_append _ _⟩
      · rw [if_pos ⟨rfl, by simpa using hl⟩]
        exact Or.inl ⟨[], by rw [List.append_nil], by simp⟩
    · rw [if_neg fun h => by simp [hl] at h]
      exact Or.inr ⟨hl, hout.trans (List.prefix_append _ _)⟩
  · refine h.congr ?_ ?_ (fun _ => id) rfl
    · rw [outstandingUnder_send, if_neg fun h => hk h.1]
    · rw [waitersOf_send, if_neg hk]

/-- A call registers its future and sends, with no timed-out call ahead of it. -/
theorem Aligned.send (h : Aligned e s) {r : ℕ} (hr : s.phase r = some .lockWait)
    (hcalm : Calm e s (.acquire r)) {ph : Phase} (hph : ph = .draining ∨ ph = .failed) :
    Aligned e ((s.send e r).setPhase r ph) := by
  obtain ⟨hnew, hdeque, hpending, hanswer, hrefusal⟩ := h.fresh r (Or.inr hr)
  have hout : ∀ {q}, q ≠ r →
      (q ∈ ((s.send e r).setPhase r ph).outstanding ↔ q ∈ s.outstanding) := by
    intro q hq
    show q ∈ (s.send e r).outstanding ↔ _
    rw [outstanding_send]
    split_ifs
    · rfl
    · simp [hq]
  have hphase : ∀ {q}, q ≠ r → ((s.send e r).setPhase r ph).phase q = s.phase q :=
    fun hq => phase_setPhase_of_ne _ _ hq
  have hmem : ∀ {k q}, q ∈ ((s.send e r).setPhase r ph).conn.waitersOf k →
      q = r ∧ k = e.cmd r ∨ q ∈ s.conn.waitersOf k := by
    intro k q hq
    rw [show ((s.send e r).setPhase r ph).conn.waitersOf k = _ from
      waitersOf_send e s r k] at hq
    split_ifs at hq with hk
    · subst hk
      rcases List.mem_append.1 hq with hq | hq
      · exact Or.inr hq
      · exact Or.inl ⟨List.mem_singleton.1 hq, rfl⟩
    · exact Or.inr hq
  refine ⟨fun k => ?_, ?_, fun k => ⟨?_, fun q hq => ?_⟩, fun q hq => ?_, fun q hq => ?_,
    h.replies, h.pushes, fun k q hq => ?_, fun q p hq hq' => ?_, h.owns, fun q p hq => ?_⟩
  · refine ((h.linedUp k).send hcalm).congr rfl rfl (timedOut_setPhase ?_ _) rfl
    show s.phase r ≠ _
    simp [hr]
  · show (s.send e r).outstanding.Nodup
    rw [outstanding_send]
    split_ifs
    · exact h.nodup
    · exact List.nodup_append.2 ⟨h.nodup, List.nodup_singleton r, fun a ha b hb => by
        rw [List.mem_singleton.1 hb]
        exact fun he => hnew (he ▸ ha)⟩
  · show ((s.send e r).conn.waitersOf k).Nodup
    rw [waitersOf_send]
    split_ifs
    · exact List.nodup_append.2 ⟨(h.waiters _).1, List.nodup_singleton r, fun a ha b hb => by
        rw [List.mem_singleton.1 hb]
        exact fun he => hdeque (he ▸ ha)⟩
    · exact (h.waiters k).1
  · rcases hmem hq with ⟨rfl, rfl⟩ | hq
    · rfl
    · exact (h.waiters k).2 q hq
  · have hqr : q ≠ r := by
      rintro rfl
      rcases hph with rfl | rfl <;> simp at hq
    rw [hphase hqr] at hq
    obtain ⟨hq₁, hq₂, hrest⟩ := h.fresh q hq
    refine ⟨fun hin => hq₁ ((hout hqr).1 hin), fun hin => ?_, hrest⟩
    rcases hmem hin with ⟨heq, -⟩ | hin
    · exact hqr heq
    · exact hq₂ hin
  · have hq : q ∈ if s.lost then s.unanswered else s.unanswered ++ [r] := hq
    split_ifs at hq
    · exact h.unanswered q hq
    · rcases List.mem_append.1 hq with hq | hq
      · exact h.unanswered q hq
      · rw [List.mem_singleton.1 hq]
        exact ⟨hanswer, hrefusal⟩
  · by_cases hqr : q = r
    · rw [hqr]
      exact Or.inl hpending
    · rw [hphase hqr]
      exact h.waiting k q ((hmem hq).resolve_left fun heq => hqr heq.1)
  · by_cases hqr : q = r
    · subst hqr
      rw [show ((s.send e q).setPhase q ph).answer q = s.answer q from rfl, hanswer] at hq
      cases hq
    · rw [hphase hqr]
      exact h.delivered q p hq fun hin => hq' ((hout hqr).2 hin)
  · have hqr : q ≠ r := by
      rintro rfl
      rcases hph with rfl | rfl <;> simp at hq
    rw [hphase hqr] at hq
    exact h.returned q p hq

theorem futures_cancelFuture_of_ne {q r : ℕ} (s : Session) (h : q ≠ r) :
    (s.cancelFuture r).conn.futures q = s.conn.futures q := by
  unfold cancelFuture Connection.settle
  split_ifs
  · rfl
  · exact Function.update_of_ne h ..

theorem futures_cancelFuture_result {q r : ℕ} {p : Bytes} (s : Session) :
    (s.cancelFuture r).conn.futures q = .result p ↔ s.conn.futures q = .result p := by
  by_cases hqr : q = r
  · subst hqr
    unfold cancelFuture
    by_cases hp : s.conn.futures q = .pending
    · simp [s.conn.futures_settle_of_pending _ hp, hp]
    · have hdone : (s.conn.futures q).done = true := FutureState.done_iff.2 hp
      simp only [s.conn.futures_settle_of_done _ hdone]
  · rw [futures_cancelFuture_of_ne s hqr]

theorem waitersOf_cancelFuture (s : Session) (r : ℕ) (k : UInt8) :
    (s.cancelFuture r).conn.waitersOf k = s.conn.waitersOf k := by
  simp [cancelFuture, Connection.waitersOf]

theorem Aligned.owns_cancelFuture (h : Aligned e s) (q r : ℕ) :
    s.Owns q ((s.cancelFuture r).conn.futures q) := by
  by_cases hqr : q = r
  · subst hqr
    show s.Owns q ((s.conn.settle q .cancelled).futures q)
    by_cases hp : s.conn.futures q = .pending
    · rw [s.conn.futures_settle_of_pending _ hp, Function.update_self]
      trivial
    · rw [s.conn.futures_settle_of_done _ (FutureState.done_iff.2 hp)]
      exact h.owns q
  · rw [futures_cancelFuture_of_ne s hqr]
    exact h.owns q

/-- The futures of the other calls are as they were. -/
theorem Aligned.waiting_cancelFuture (h : Aligned e s) {q r : ℕ} {k : UInt8}
    (hq : q ∈ s.conn.waitersOf k) (hqr : q ≠ r) :
    (s.cancelFuture r).conn.futures q = .pending ∨ s.phase q = some .cancelled := by
  rcases h.waiting k q hq with hp | hp
  · exact Or.inl ((futures_cancelFuture_of_ne s hqr).trans hp)
  · exact Or.inr hp

theorem Aligned.delivered_cancelFuture (h : Aligned e s) {q : ℕ} {p : Bytes}
    (hq : s.answer q = some p) (hq' : q ∉ s.outstanding) (r : ℕ) :
    (s.cancelFuture r).conn.futures q = .result p ∨ s.phase q = some .cancelled ∨
      s.phase q = some .timedOut := by
  rcases h.delivered q p hq hq' with hp | hp
  · exact Or.inl ((futures_cancelFuture_result s).2 hp)
  · exact Or.inr hp

/-- A call that awaits its reply is cancelled. Its future stays in the deque. -/
theorem Aligned.cancelAwaiting (h : Aligned e s) {r : ℕ} (hr : s.phase r = some .awaiting) :
    Aligned e ((s.cancelFuture r).setPhase r .cancelled) := by
  have hphase : ∀ {q}, q ≠ r → ((s.cancelFuture r).setPhase r .cancelled).phase q = s.phase q :=
    fun hq => phase_setPhase_of_ne _ _ hq
  have hwaiters : ∀ k, ((s.cancelFuture r).setPhase r .cancelled).conn.waitersOf k =
      s.conn.waitersOf k := waitersOf_cancelFuture s r
  refine ⟨fun k => ?_, h.nodup, fun k => ?_, fun q hq => ?_, h.unanswered, h.replies, h.pushes,
    fun k q hq => ?_, fun q p hq hq' => ?_, fun q => h.owns_cancelFuture q r, fun q p hq => ?_⟩
  · refine (h.linedUp k).congr rfl (hwaiters k) (timedOut_setPhase (s := s.cancelFuture r) ?_ _) rfl
    show s.phase r ≠ _
    simp [hr]
  · rw [hwaiters]
    exact h.waiters k
  · have hqr : q ≠ r := by
      rintro rfl
      simp at hq
    rw [hphase hqr] at hq
    obtain ⟨hq₁, hq₂, hq₃, hrest⟩ := h.fresh q hq
    rw [hwaiters]
    exact ⟨hq₁, hq₂, (futures_cancelFuture_of_ne s hqr).trans hq₃, hrest⟩
  · rw [hwaiters] at hq
    by_cases hqr : q = r
    · subst hqr
      exact Or.inr (phase_setPhase_self ..)
    · rw [hphase hqr]
      exact h.waiting_cancelFuture hq hqr
  · by_cases hqr : q = r
    · subst hqr
      exact Or.inr (Or.inl (phase_setPhase_self ..))
    · rw [hphase hqr]
      exact h.delivered_cancelFuture hq hq' r
  · have hqr : q ≠ r := by
      rintro rfl
      simp at hq
    rw [hphase hqr] at hq
    exact h.returned q p hq

theorem waitersOf_removeWaiter (e : Expect) (s : Session) (r : ℕ) (k : UInt8) :
    ((s.cancelFuture r).removeWaiter e r).conn.waitersOf k =
      if k = e.cmd r then (s.conn.waitersOf (e.cmd r)).erase r else s.conn.waitersOf k := by
  refine ((s.cancelFuture r).conn.waitersOf_set _ _ k).trans ?_
  rw [waitersOf_cancelFuture, waitersOf_cancelFuture]

theorem Aligned.mem_of_removeWaiter (h : Aligned e s) {r q : ℕ} {k : UInt8}
    (hq : q ∈ ((s.cancelFuture r).removeWaiter e r).conn.waitersOf k) :
    q ∈ s.conn.waitersOf k ∧ q ≠ r := by
  rw [waitersOf_removeWaiter] at hq
  split_ifs at hq with hk
  · rw [hk]
    exact ⟨List.mem_of_mem_erase hq, ((h.waiters _).1.mem_erase_iff.1 hq).1⟩
  · refine ⟨hq, ?_⟩
    rintro rfl
    exact hk ((h.waiters k).2 q hq).symm

/-- With nobody behind it, the call that leaves its deque is the last of those whose answers
are to come, but for the timed-out ones, or its answer is not to come. -/
theorem Aligned.linedUp_removeWaiter (h : Aligned e s) {r : ℕ} (hr : s.phase r = some .awaiting)
    (hcalm : Calm e s (.timeout r)) (k : UInt8) :
    LinedUp e (((s.cancelFuture r).removeWaiter e r).setPhase r .timedOut) k := by
  set s' := ((s.cancelFuture r).removeWaiter e r).setPhase r .timedOut
  have hphase : ∀ q, s.phase q = some .timedOut → s'.phase q = some .timedOut :=
    timedOut_setPhase (s := (s.cancelFuture r).removeWaiter e r) (r := r)
      (fun h => by cases hr.symm.trans h) .timedOut
  have hphaser : s'.phase r = some .timedOut := phase_setPhase_self ..
  have hwaiters : s'.conn.waitersOf k = _ := waitersOf_removeWaiter e s r k
  by_cases hin : k = e.cmd r ∧ r ∈ s.conn.waitersOf (e.cmd r)
  · obtain ⟨rfl, hin⟩ := hin
    rw [if_pos rfl] at hwaiters
    have hnd := (h.waiters (e.cmd r)).1
    by_cases hout : r ∈ s.outstanding
    · obtain ⟨ws, hws⟩ := List.getLast?_eq_some_iff.1 (hcalm hout hin)
      rw [hws] at hnd hwaiters
      have hnot : r ∉ ws := fun hr => (List.nodup_append.1 hnd).2.2 r hr r (by simp) rfl
      rw [List.erase_append_right _ hnot, List.erase_cons_head, List.append_nil] at hwaiters
      -- The call joins those that have timed out.
      have hjoin : ∃ dead, s.outstandingUnder e (e.cmd r) = ws ++ r :: dead ∧
          ∀ q ∈ dead, s.phase q = some .timedOut := by
        rcases h.linedUp (e.cmd r) with ⟨dead, hk, hd⟩ | ⟨-, hk⟩
        · exact ⟨dead, by rw [hk, hws, List.append_assoc, List.singleton_append], hd⟩
        · rw [hws] at hk
          rcases List.prefix_concat_iff.1 hk with hk | hk
          · exact ⟨[], hk, by simp⟩
          · exact absurd (hk.subset (mem_outstandingUnder.2 ⟨hout, rfl⟩)) hnot
      obtain ⟨dead, hk, hd⟩ := hjoin
      refine Or.inl ⟨r :: dead, by rw [hwaiters]; exact hk, fun q hq => ?_⟩
      rcases List.mem_cons.1 hq with rfl | hq
      · exact hphaser
      · exact hphase q (hd q hq)
    · have hnot : r ∉ s.outstandingUnder e (e.cmd r) := fun hr =>
        hout (mem_outstandingUnder.1 hr).1
      rcases h.linedUp (e.cmd r) with ⟨dead, hk, -⟩ | ⟨hlost, ghosts, hk⟩
      · exact absurd (hk ▸ List.mem_append_left dead hin) hnot
      · rw [← hk, List.erase_append_right _ hnot] at hwaiters
        refine Or.inr ⟨hlost, ?_⟩
        rw [hwaiters]
        exact List.prefix_append _ _
  · refine (h.linedUp k).congr rfl (hwaiters.trans ?_) hphase rfl
    split_ifs with hk
    · rw [hk, List.erase_of_not_mem fun hr => hin ⟨hk, hr⟩]
    · rfl

/-- A call times out with nobody behind it. -/
theorem Aligned.timeout (h : Aligned e s) {r : ℕ} (hr : s.phase r = some .awaiting)
    (hcalm : Calm e s (.timeout r)) :
    Aligned e (((s.cancelFuture r).removeWaiter e r).setPhase r .timedOut) := by
  have hlined := h.linedUp_removeWaiter hr hcalm
  set s' := ((s.cancelFuture r).removeWaiter e r).setPhase r .timedOut
  have hphase : ∀ {q}, q ≠ r → s'.phase q = s.phase q := fun hq => phase_setPhase_of_ne _ _ hq
  have hphaser : s'.phase r = some .timedOut := phase_setPhase_self ..
  refine ⟨hlined, h.nodup, fun k => ⟨?_, fun q hq => ?_⟩, fun q hq => ?_, h.unanswered, h.replies,
    h.pushes, fun k q hq => ?_, fun q p hq hq' => ?_, fun q => h.owns_cancelFuture q r,
    fun q p hq => ?_⟩
  · show (((s.cancelFuture r).removeWaiter e r).conn.waitersOf k).Nodup
    rw [waitersOf_removeWaiter]
    split_ifs
    · exact (h.waiters _).1.erase r
    · exact (h.waiters k).1
  · exact (h.waiters k).2 q (h.mem_of_removeWaiter hq).1
  · have hqr : q ≠ r := by
      rintro rfl
      simp [hphaser] at hq
    rw [hphase hqr] at hq
    obtain ⟨hq₁, hq₂, hq₃, hrest⟩ := h.fresh q hq
    exact ⟨hq₁, fun hin => hq₂ (h.mem_of_removeWaiter hin).1,
      (futures_cancelFuture_of_ne s hqr).trans hq₃, hrest⟩
  · obtain ⟨hq, hqr⟩ := h.mem_of_removeWaiter hq
    rw [hphase hqr]
    exact h.waiting_cancelFuture hq hqr
  · by_cases hqr : q = r
    · exact Or.inr (Or.inr (hqr ▸ hphaser))
    · rw [hphase hqr]
      exact h.delivered_cancelFuture hq hq' r
  · have hqr : q ≠ r := by
      rintro rfl
      simp [hphaser] at hq
    rw [hphase hqr] at hq
    exact h.returned q p hq

theorem filter_erase_of_find? {p : ℕ → Bool} {r : ℕ} : ∀ {l : List ℕ}, l.find? p = some r →
    r :: (l.erase r).filter p = l.filter p
  | [], h => by cases h
  | a :: l, h => by
    by_cases ha : p a = true
    · obtain rfl : a = r := by simpa [List.find?_cons, ha] using h
      rw [List.erase_cons_head, List.filter_cons_of_pos ha]
    · have hr : l.find? p = some r := by simpa [List.find?_cons, ha] using h
      have hne : a ≠ r := by
        rintro rfl
        exact ha (List.find?_some hr)
      rw [List.erase_cons_tail (by simpa using hne), List.filter_cons_of_neg ha,
        List.filter_cons_of_neg ha]
      exact filter_erase_of_find? hr

theorem outstanding_sendAnswer (s : Session) {r : ℕ} {m : Message} (hm : m.origin = some r) :
    (s.sendAnswer r m).outstanding =
      s.inbound.filterMap Message.origin ++ [r] ++ s.unanswered.erase r := by
  simp [outstanding, sendAnswer, List.filterMap_append, hm]

theorem perm_sendAnswer {r : ℕ} {m : Message} (hm : m.origin = some r) (hr : r ∈ s.unanswered) :
    (s.sendAnswer r m).outstanding.Perm s.outstanding := by
  rw [outstanding_sendAnswer s hm, outstanding, List.append_assoc]
  exact (List.perm_cons_erase hr).symm.append_left _

/-- The answer sent takes the place its request had under the reply command. -/
theorem Aligned.outstandingUnder_sendAnswer (h : Aligned e s) {r : ℕ} {m : Message}
    (hm : m.origin = some r)
    (hr : (s.unanswered.find? fun q => e.cmd q = e.cmd r) = some r) (k : UInt8) :
    (s.sendAnswer r m).outstandingUnder e k = s.outstandingUnder e k := by
  rw [outstandingUnder, outstandingUnder, outstanding_sendAnswer s hm, outstanding,
    List.filter_append, List.filter_append, List.filter_append, List.append_assoc]
  congr 1
  by_cases hk : e.cmd r = k
  · subst hk
    rw [List.filter_cons_of_pos (by simp)]
    exact filter_erase_of_find? hr
  · have hnd : s.unanswered.Nodup := (List.nodup_append.1 h.nodup).2.1
    rw [List.filter_cons_of_neg (by simpa using hk), hnd.erase_eq_filter, List.filter_filter]
    refine List.filter_congr fun q _ => ?_
    by_cases hq : q = r
    · simp [hq, hk]
    · simp [hq]

theorem Answers.congr {r : ℕ} {m : Message} (h : Answers e s r m)
    (hanswer : s'.answer r = s.answer r) (hrefusal : s'.refusal r = s.refusal r) :
    Answers e s' r m := by
  rw [Answers, hanswer, hrefusal]
  exact h

theorem Owns.congr {r : ℕ} {outcome : FutureState} (h : s.Owns r outcome)
    (hanswer : s'.answer r = s.answer r) (hrefusal : s'.refusal r = s.refusal r) :
    s'.Owns r outcome := by
  cases outcome with
  | result p => exact hanswer.trans h
  | daemonError err => exact (congrArg (Option.map parseError) hrefusal).trans h
  | _ => trivial

/-- What came of a request without an answer did not come from the daemon. -/
theorem Owns.of_unanswered {r : ℕ} {outcome : FutureState} (h : s.Owns r outcome)
    (hanswer : s.answer r = none) (hrefusal : s.refusal r = none) : s'.Owns r outcome := by
  cases outcome with
  | result p => cases hanswer.symm.trans h
  | daemonError err =>
    rw [Owns, hrefusal] at h
    cases h
  | _ => trivial

/-- The daemon answers a request, by the reply `answer` or the error `refusal`. -/
theorem Aligned.sendAnswer (h : Aligned e s) {r : ℕ} {m : Message} (hm : m.origin = some r)
    (hr : (s.unanswered.find? fun q => e.cmd q = e.cmd r) = some r)
    {answer refusal : ℕ → Option Bytes} (hanswer : ∀ q, q ≠ r → answer q = s.answer q)
    (hrefusal : ∀ q, q ≠ r → refusal q = s.refusal q)
    (hanswers : Answers e { s with answer := answer, refusal := refusal } r m) :
    Aligned e { s.sendAnswer r m with answer := answer, refusal := refusal } := by
  have hmem : r ∈ s.unanswered := List.mem_of_find?_eq_some hr
  obtain ⟨hnone, hnone'⟩ := h.unanswered r hmem
  have hperm := perm_sendAnswer hm hmem
  refine ⟨fun k => ?_, hperm.nodup_iff.2 h.nodup, h.waiters, fun q hq => ?_, fun q hq => ?_,
    fun m' hm' q hq => ?_, fun m' hm' hq => ?_, h.waiting, fun q p hq hq' => ?_, fun q => ?_,
    fun q p hq => ?_⟩
  · exact (h.linedUp k).congr (h.outstandingUnder_sendAnswer hm hr k) rfl (fun _ => id) rfl
  · obtain ⟨hq₁, hq₂, hq₃, hq₄, hq₅⟩ := h.fresh q hq
    have hqr : q ≠ r := by
      rintro rfl
      exact hq₁ (List.mem_append_right _ hmem)
    exact ⟨fun hin => hq₁ (hperm.mem_iff.1 hin), hq₂, hq₃, (hanswer q hqr).trans hq₄,
      (hrefusal q hqr).trans hq₅⟩
  · have hnd : s.unanswered.Nodup := (List.nodup_append.1 h.nodup).2.1
    obtain ⟨hqr, hq⟩ := hnd.mem_erase_iff.1 hq
    exact ⟨(hanswer q hqr).trans (h.unanswered q hq).1,
      (hrefusal q hqr).trans (h.unanswered q hq).2⟩
  · rcases List.mem_append.1 hm' with hm' | hm'
    · have hold := h.replies m' hm' q hq
      have hqr : q ≠ r := by
        rintro rfl
        simp [Answers, hnone, hnone'] at hold
      exact hold.congr (hanswer q hqr) (hrefusal q hqr)
    · obtain rfl := List.mem_singleton.1 hm'
      obtain rfl := Option.some.inj (hm.symm.trans hq)
      exact hanswers
  · rcases List.mem_append.1 hm' with hm' | hm'
    · exact h.pushes m' hm' hq
    · obtain rfl := List.mem_singleton.1 hm'
      rw [hm] at hq
      cases hq
  · have hqr : q ≠ r := by
      rintro rfl
      exact hq' (hperm.mem_iff.2 (List.mem_append_right _ hmem))
    exact h.delivered q p ((hanswer q hqr).symm.trans hq) fun hin => hq' (hperm.mem_iff.2 hin)
  · by_cases hqr : q = r
    · subst hqr
      exact (h.owns q).of_unanswered hnone hnone'
    · exact (h.owns q).congr (hanswer q hqr) (hrefusal q hqr)
  · have hold := h.returned q p hq
    have hqr : q ≠ r := by
      rintro rfl
      cases hnone.symm.trans hold
    exact (hanswer q hqr).trans hold

/-- The daemon sends something unasked. -/
theorem Aligned.unasked (h : Aligned e s) {m : Message} (hm : m.origin = none)
    (hunasked : Unasked e m) : Aligned e { s with inbound := s.inbound ++ [m] } := by
  have hout : Session.outstanding { s with inbound := s.inbound ++ [m] } = s.outstanding := by
    simp [outstanding, List.filterMap_append, hm]
  refine ⟨fun k => ?_, hout ▸ h.nodup, h.waiters, fun q hq => ?_, h.unanswered,
    fun m' hm' q hq => ?_, fun m' hm' hq => ?_, h.waiting, fun q p hq hq' => ?_, h.owns,
    h.returned⟩
  · exact (h.linedUp k).congr (by rw [outstandingUnder, hout]; rfl) rfl (fun _ => id) rfl
  · rw [hout]
    exact h.fresh q hq
  · rcases List.mem_append.1 hm' with hm' | hm'
    · exact h.replies m' hm' q hq
    · obtain rfl := List.mem_singleton.1 hm'
      rw [hm] at hq
      cases hq
  · rcases List.mem_append.1 hm' with hm' | hm'
    · exact h.pushes m' hm' hq
    · obtain rfl := List.mem_singleton.1 hm'
      exact hunasked
  · rw [hout] at hq'
    exact h.delivered q p hq hq'

/-- The connection is lost. What the daemon has not read by then it never answers. -/
theorem Aligned.lose (h : Aligned e s) (n : ℕ) :
    Aligned e { s with lost := true, unanswered := s.unanswered.take n } := by
  have hpre : Session.outstanding { s with lost := true, unanswered := s.unanswered.take n } <+:
      s.outstanding := List.prefix_append_right_inj _ |>.2 (List.take_prefix n _)
  have hsub := hpre.sublist
  refine ⟨fun k => ?_, h.nodup.sublist hsub, h.waiters, fun q hq => ?_, fun q hq => ?_, h.replies,
    h.pushes, h.waiting, fun q p hq hq' => ?_, h.owns, h.returned⟩
  · have hk : outstandingUnder e { s with lost := true, unanswered := s.unanswered.take n } k <+:
        s.outstandingUnder e k := hpre.filter _
    rcases h.linedUp k with ⟨dead, hout, hd⟩ | ⟨-, hout⟩
    · -- Either some waiters are cut off, or only calls that have timed out.
      rw [hout] at hk
      rcases List.prefix_or_prefix_of_prefix hk (List.prefix_append _ dead) with hle | hle
      · exact Or.inr ⟨rfl, hle⟩
      · obtain ⟨dead', hdead'⟩ := hle
        rw [← hdead', List.prefix_append_right_inj] at hk
        exact Or.inl ⟨dead', hdead'.symm, fun q hq => hd q (hk.subset hq)⟩
    · exact Or.inr ⟨rfl, hk.trans hout⟩
  · obtain ⟨hq, hrest⟩ := h.fresh q hq
    exact ⟨fun hin => hq (hsub.subset hin), hrest⟩
  · exact h.unanswered q (List.mem_of_mem_take hq)
  · refine h.delivered q p hq fun hin => ?_
    rcases List.mem_append.1 hin with hin | hin
    · exact hq' (List.mem_append_left _ hin)
    · rw [(h.unanswered q hin).1] at hq
      cases hq

/-- A session whose connection routes the same is as well aligned. -/
theorem Aligned.of_sameRouting {c : Connection} (h : Aligned e s)
    (hc : Connection.SameRouting c s.conn) : Aligned e { s with conn := c } := by
  have hw : ∀ k, c.waitersOf k = s.conn.waitersOf k := by
    intro k
    rw [Connection.waitersOf, Connection.waitersOf, hc.waiters]
  have hf : ∀ r, c.futures r = s.conn.futures r := fun r => congrFun hc.futures r
  refine ⟨fun k => (h.linedUp k).congr rfl (hw k) (fun _ => id) rfl, h.nodup, fun k => ?_,
    fun r hr => ?_, h.unanswered, h.replies, h.pushes, fun k r hr => ?_, fun r p hr hr' => ?_,
    fun r => ?_, h.returned⟩
  · rw [hw]
    exact h.waiters k
  · rw [hw, hf]
    exact h.fresh r hr
  · rw [hw] at hr
    rw [hf]
    exact h.waiting k r hr
  · rw [hf]
    exact h.delivered r p hr hr'
  · rw [hf]
    exact h.owns r

theorem outstanding_of_reply {m : Message} {ms : List Message} {r : ℕ}
    (hin : s.inbound = m :: ms) (hr : m.origin = some r) :
    s.outstanding = r :: (ms.filterMap Message.origin ++ s.unanswered) := by
  rw [outstanding, hin, List.filterMap_cons_some hr]
  rfl

/-- An answer that is read first was first in line under its command : so was its waiter,
unless the call has timed out. -/
theorem Aligned.waitersOf_of_reply (h : Aligned e s) {m : Message} {ms : List Message} {r : ℕ}
    (hin : s.inbound = m :: ms) (hr : m.origin = some r) :
    (∃ ws, s.conn.waitersOf (e.cmd r) = r :: ws) ∨
      s.conn.waitersOf (e.cmd r) = [] ∧ s.phase r = some .timedOut := by
  have hline := h.linedUp (e.cmd r)
  rw [LinedUp, outstandingUnder, outstanding_of_reply hin hr,
    List.filter_cons_of_pos (by simp)] at hline
  rcases hline with ⟨dead, hk, hd⟩ | ⟨-, ghosts, hk⟩
  · cases hw : s.conn.waitersOf (e.cmd r) with
    | nil =>
      rw [hw, List.nil_append] at hk
      exact Or.inr ⟨rfl, hd r (by simp [← hk])⟩
    | cons w ws =>
      rw [hw, List.cons_append] at hk
      exact Or.inl ⟨ws, by rw [(List.cons.inj hk).1]⟩
  · exact Or.inl ⟨_, hk.symm⟩

/-- The answer settles the future of its own call, if anything. -/
theorem Aligned.futures_of_reply (h : Aligned e s) {m : Message} {ms : List Message} {r : ℕ}
    (hin : s.inbound = m :: ms) (hr : m.origin = some r) (outcome : FutureState) (q : ℕ) :
    (s.conn.settleFirst (e.cmd r) outcome).futures q = s.conn.futures q ∨
      q = r ∧ (s.conn.settleFirst (e.cmd r) outcome).futures q = outcome := by
  rcases h.waitersOf_of_reply hin hr with ⟨ws, hw⟩ | ⟨hw, -⟩
  · have hf := congrFun (s.conn.futures_settleFirst hw outcome) q
    split_ifs at hf with hdone
    · exact Or.inl hf
    · by_cases hqr : q = r
      · subst hqr
        exact Or.inr ⟨rfl, hf.trans (Function.update_self ..)⟩
      · exact Or.inl (hf.trans (Function.update_of_ne hqr ..))
  · rw [s.conn.settleFirst_of_nil hw outcome]
    exact Or.inl rfl

/-- After its answer is read, a call that still wants it has it. -/
theorem Aligned.settled_of_reply (h : Aligned e s) {m : Message} {ms : List Message} {r : ℕ}
    (hin : s.inbound = m :: ms) (hr : m.origin = some r) (outcome : FutureState) :
    (s.conn.settleFirst (e.cmd r) outcome).futures r = outcome ∨
      s.phase r = some .cancelled ∨ s.phase r = some .timedOut := by
  rcases h.waitersOf_of_reply hin hr with ⟨ws, hw⟩ | ⟨-, ht⟩
  · rcases h.waiting (e.cmd r) r (by simp [hw]) with hp | hp
    · have hf := congrFun (s.conn.futures_settleFirst hw outcome) r
      rw [hp] at hf
      exact Or.inl (hf.trans (Function.update_self ..))
    · exact Or.inr (Or.inl hp)
  · exact Or.inr (Or.inr ht)

/-- The waiters that are left are the others. -/
theorem Aligned.waiters_of_reply (h : Aligned e s) {m : Message} {ms : List Message} {r : ℕ}
    (hin : s.inbound = m :: ms) (hr : m.origin = some r) {outcome : FutureState} {k : UInt8}
    {q : ℕ} (hq : q ∈ (s.conn.settleFirst (e.cmd r) outcome).waitersOf k) :
    q ∈ s.conn.waitersOf k ∧ q ≠ r := by
  rw [s.conn.waitersOf_settleFirst] at hq
  split_ifs at hq with hk
  · have hnd := (h.waiters (e.cmd r)).1
    rcases h.waitersOf_of_reply hin hr with ⟨ws, hw⟩ | ⟨hw, -⟩
    · rw [hw, List.tail_cons] at hq
      rw [hw, List.nodup_cons] at hnd
      refine ⟨by rw [hk, hw]; exact List.mem_cons_of_mem _ hq, ?_⟩
      rintro rfl
      exact hnd.1 hq
    · rw [hw] at hq
      cases hq
  · refine ⟨hq, ?_⟩
    rintro rfl
    exact hk ((h.waiters k).2 q hq).symm

/-- The read loop reads an answer : it goes to the call that sent the request, or to nobody
if that call has timed out. -/
theorem Aligned.readAnswer (h : Aligned e s) {m : Message} {ms : List Message} {r : ℕ}
    (hin : s.inbound = m :: ms) (hr : m.origin = some r) {outcome : FutureState}
    (howns : s.Owns r outcome) (hreply : ∀ p, s.answer r = some p → outcome = .result p) :
    Aligned e { s with inbound := ms, conn := s.conn.settleFirst (e.cmd r) outcome } := by
  have hout := outstanding_of_reply hin hr
  have hnd := h.nodup
  rw [hout, List.nodup_cons] at hnd
  have hother : ∀ {q}, q ≠ r → (s.conn.settleFirst (e.cmd r) outcome).futures q =
      s.conn.futures q :=
    fun hq => (h.futures_of_reply hin hr outcome _).resolve_right fun hr => hq hr.1
  refine ⟨fun k => ?_, hnd.2, fun k => ⟨?_, fun q hq => ?_⟩, fun q hq => ?_, h.unanswered,
    fun m' hm' => ?_, fun m' hm' => ?_, fun k q hq => ?_, fun q p hq hq' => ?_, fun q => ?_,
    h.returned⟩
  · have hw := s.conn.waitersOf_settleFirst (e.cmd r) outcome k
    by_cases hk : k = e.cmd r
    · subst hk
      rw [if_pos rfl] at hw
      refine (h.linedUp (e.cmd r)).tail ?_ hw rfl rfl
      rw [outstandingUnder, outstandingUnder, hout, List.filter_cons_of_pos (by simp)]
      rfl
    · rw [if_neg hk] at hw
      refine (h.linedUp k).congr ?_ hw (fun _ => id) rfl
      have hk' : ¬e.cmd r = k := fun he => hk he.symm
      rw [outstandingUnder, outstandingUnder, hout, List.filter_cons_of_neg (by simpa using hk')]
      rfl
  · show ((s.conn.settleFirst (e.cmd r) outcome).waitersOf k).Nodup
    rw [s.conn.waitersOf_settleFirst]
    split_ifs
    · exact (h.waiters _).1.sublist (List.tail_sublist _)
    · exact (h.waiters k).1
  · exact (h.waiters k).2 q (h.waiters_of_reply hin hr hq).1
  · obtain ⟨hq₁, hq₂, hq₃, hrest⟩ := h.fresh q hq
    rw [hout, List.mem_cons, not_or] at hq₁
    exact ⟨hq₁.2, fun hmem => hq₂ (h.waiters_of_reply hin hr hmem).1,
      (hother hq₁.1).trans hq₃, hrest⟩
  · exact h.replies m' (by rw [hin]; exact List.mem_cons_of_mem _ hm')
  · exact h.pushes m' (by rw [hin]; exact List.mem_cons_of_mem _ hm')
  · obtain ⟨hq, hqr⟩ := h.waiters_of_reply hin hr hq
    exact (h.waiting k q hq).imp_left (hother hqr).trans
  · by_cases hqr : q = r
    · subst hqr
      rw [← hreply p hq]
      exact h.settled_of_reply hin hr outcome
    · refine (h.delivered q p hq ?_).imp_left (hother hqr).trans
      rw [hout, List.mem_cons, not_or]
      exact ⟨hqr, hq'⟩
  · show s.Owns q ((s.conn.settleFirst (e.cmd r) outcome).futures q)
    rcases h.futures_of_reply hin hr outcome q with hf | ⟨rfl, hf⟩
    · rw [hf]
      exact h.owns q
    · rw [hf]
      exact howns

/-- The read loop reads what the daemon sent unasked, and no call takes it. -/
theorem Aligned.readUnasked (h : Aligned e s) {m : Message} {ms : List Message}
    (hin : s.inbound = m :: ms) (hm : m.origin = none) : Aligned e { s with inbound := ms } := by
  have hout : s.outstanding = ms.filterMap Message.origin ++ s.unanswered := by
    rw [outstanding, hin, List.filterMap_cons_none hm]
  have hnd := h.nodup
  rw [hout] at hnd
  refine ⟨fun k => ?_, hnd, h.waiters, fun q hq => ?_, h.unanswered, fun m' hm' => ?_,
    fun m' hm' => ?_, h.waiting, fun q p hq hq' => ?_, h.owns, h.returned⟩
  · exact (h.linedUp k).congr (by rw [outstandingUnder, outstandingUnder, hout]; rfl) rfl
      (fun _ => id) rfl
  · obtain ⟨hq₁, hrest⟩ := h.fresh q hq
    rw [hout] at hq₁
    exact ⟨hq₁, hrest⟩
  · exact h.replies m' (by rw [hin]; exact List.mem_cons_of_mem _ hm')
  · exact h.pushes m' (by rw [hin]; exact List.mem_cons_of_mem _ hm')
  · exact h.delivered q p hq (by rw [hout]; exact hq')

/-- The read loop reads an error : the first waiter, if there is one, is the call it answers. -/
theorem Aligned.readError (h : Aligned e s) {m : Message} {ms : List Message}
    (hin : s.inbound = m :: ms) (herror : m.cmd = cmdError) (hcalm : Calm e s .read) :
    Aligned e
      { s with inbound := ms, conn := s.conn.failOldestWaiter (parseError m.payload) } := by
  have hfirst := hcalm m (by rw [hin]; rfl) herror
  cases hm : m.origin with
  | none =>
    rcases s.conn.failOldestWaiter_settles (parseError m.payload) with ⟨hsame, -⟩ |
      ⟨k, fut, q, hfut, -, -⟩
    · rw [hsame]
      exact h.readUnasked hin hm
    · rw [hfut, hm] at hfirst
      simp at hfirst
  | some r =>
    have hrefusal : s.refusal r = some m.payload ∧ s.answer r = none := by
      rcases h.replies m (by simp [hin]) r hm with ⟨hcmd, -⟩ | ⟨-, hrefusal⟩
      · exact absurd (hcmd.symm.trans herror) (e.isReply r).2.2.2
      · exact hrefusal
    have hsettle : s.conn.failOldestWaiter (parseError m.payload) =
        s.conn.settleFirst (e.cmd r) (.daemonError (parseError m.payload)) := by
      rcases s.conn.failOldestWaiter_settles (parseError m.payload) with ⟨hsame, hempty⟩ |
        ⟨k, fut, q, hfut, hq, hfail⟩
      · rw [hsame, s.conn.settleFirst_of_nil (hempty _)]
      · rw [hfut, hm] at hfirst
        obtain rfl : fut = r := by simpa using hfirst
        rw [hfail, (h.waiters k).2 fut (by simp [hq])]
    rw [hsettle]
    refine h.readAnswer hin hm ?_ fun p hp => ?_
    · show (s.refusal r).map parseError = _
      rw [hrefusal.1]
      rfl
    · cases hrefusal.2.symm.trans hp

theorem Aligned.read (h : Aligned e s) {m : Message} {ms : List Message}
    (hin : s.inbound = m :: ms) (hcalm : Calm e s .read) :
    Aligned e { s with inbound := ms, conn := s.conn.dispatch m.cmd m.payload } := by
  by_cases herror : m.cmd = cmdError
  · rw [herror, Connection.dispatch_error]
    exact h.readError hin herror hcalm
  cases hm : m.origin with
  | some r =>
    obtain ⟨hcmd, hanswer⟩ := (h.replies m (by simp [hin]) r hm).resolve_right
      fun hr => herror hr.1
    have howns : s.Owns r (.result m.payload) := hanswer
    rw [hcmd]
    refine (h.readAnswer hin hm howns fun p hp => ?_).of_sameRouting
      (s.conn.dispatch_of_isReply (e.isReply r) m.payload)
    rw [Option.some.inj (hanswer.symm.trans hp)]
  | none =>
    obtain ⟨hpush, hclose⟩ := (h.pushes m (by simp [hin]) hm).resolve_right herror
    refine (h.readUnasked hin hm).of_sameRouting
      (s.conn.dispatch_of_isPush hpush (fun hc => ?_) _)
    refine List.eq_nil_iff_forall_not_mem.2 fun r hr => ?_
    exact e.cmd_ne_closeOk (hclose hc) r ((h.waiters _).2 r hr)

/-- Every calm action keeps the waiters aligned with the answers to come. -/
theorem Aligned.step {a : Action} (h : Aligned e s) (hcalm : Calm e s a)
    (hs : s.step e a = some s') : Aligned e s' := by
  cases step_cases hs with
  | call hr => exact h.setPhase (by simp [hr]) (by simp [hr]) (fun _ => hr) (by simp)
  | acquire hr _ => exact (h.send hr hcalm (.inl rfl)).setLock _
  | drained hr => exact (h.setPhase (by simp [hr]) (by simp [hr]) (by simp) (by simp)).setLock _
  | drainFailed hr =>
    exact (h.setPhase (by simp [hr]) (by simp [hr]) (by simp) (by simp)).setLock _
  | sendFailed hr =>
    rw [← send_of_lost hcalm.1]
    exact h.send hr hcalm.2 (.inr rfl)
  | cancelLockWait hr => exact h.setPhase (by simp [hr]) (by simp [hr]) (by simp) (by simp)
  | cancelDraining hr =>
    exact (h.setPhase (by simp [hr]) (by simp [hr]) (by simp) (by simp)).setLock _
  | cancelAwaiting hr => exact h.cancelAwaiting hr
  | timeout hr => exact h.timeout hr hcalm
  | @resumeResult r payload hr hf =>
    refine h.setPhase (by simp [hr]) (by simp [hr]) (by simp) fun p hp => ?_
    have howns := h.owns r
    rw [hf] at howns
    rw [← Phase.returned.inj hp]
    exact howns
  | resumeError hr => exact h.setPhase (by simp [hr]) (by simp [hr]) (by simp) (by simp)
  | acquireRaw _ => exact h.setLock _
  | releaseRaw _ => exact h.setLock _
  | answer hr =>
    exact h.sendAnswer rfl hr (fun q hq => Function.update_of_ne hq ..) (fun _ _ => rfl)
      (Or.inl ⟨rfl, Function.update_self ..⟩)
  | refuse hr =>
    refine h.sendAnswer rfl hr (fun _ _ => rfl) (fun q hq => Function.update_of_ne hq ..)
      (Or.inr ⟨rfl, Function.update_self .., ?_⟩)
    exact (h.unanswered _ (List.mem_of_find?_eq_some hr)).1
  | push hcmd => exact h.unasked rfl (Or.inl hcmd)
  | complain => exact h.unasked rfl (Or.inr rfl)
  | lose => exact h.lose _
  | read hin => exact h.read hin hcalm

theorem setPhase_ne_timedOut {ph : Phase} (h : ∀ q, s.phase q ≠ some .timedOut)
    (hph : ph ≠ .timedOut) (r q : ℕ) : (s.setPhase r ph).phase q ≠ some .timedOut := by
  by_cases hqr : q = r
  · subst hqr
    simpa using hph
  · rw [phase_setPhase_of_ne s ph hqr]
    exact h q

/-- No call has timed out, and no error is on its way. -/
structure Quiet (s : Session) : Prop where
  phase : ∀ r, s.phase r ≠ some .timedOut
  inbound : ∀ m ∈ s.inbound, m.cmd ≠ cmdError

/-- A quiet session is calm. -/
theorem Quiet.calm (h : Quiet s) {a : Action} (ha : a.Undisturbed) : Calm e s a := by
  cases a with
  | timeout r => exact absurd ha (by simp [Action.Undisturbed])
  | sendFailed r => exact absurd ha (by simp [Action.Undisturbed])
  | acquire r => exact fun q _ _ => h.phase q
  | read =>
    intro m hm herror
    exact absurd herror (h.inbound m (List.mem_of_mem_head? hm))
  | _ => trivial

/-- An undisturbed session stays quiet. -/
theorem Quiet.step {a : Action} (h : Quiet s) (ha : a.Undisturbed) (hs : s.step e a = some s') :
    Quiet s' := by
  cases step_cases hs with
  | call _ => exact ⟨setPhase_ne_timedOut h.phase (by simp) _, h.inbound⟩
  | @acquire r _ _ =>
    exact ⟨setPhase_ne_timedOut (s := s.send e r) h.phase (by simp) r, h.inbound⟩
  | drained _ => exact ⟨setPhase_ne_timedOut h.phase (by simp) _, h.inbound⟩
  | cancelLockWait _ => exact ⟨setPhase_ne_timedOut h.phase (by simp) _, h.inbound⟩
  | cancelDraining _ => exact ⟨setPhase_ne_timedOut h.phase (by simp) _, h.inbound⟩
  | @cancelAwaiting r _ =>
    exact ⟨setPhase_ne_timedOut (s := s.cancelFuture r) h.phase (by simp) r, h.inbound⟩
  | resumeResult _ _ => exact ⟨setPhase_ne_timedOut h.phase (by simp) _, h.inbound⟩
  | resumeError _ => exact ⟨setPhase_ne_timedOut h.phase (by simp) _, h.inbound⟩
  | acquireRaw _ => exact ⟨h.phase, h.inbound⟩
  | releaseRaw _ => exact ⟨h.phase, h.inbound⟩
  | @answer r _ _ =>
    refine ⟨h.phase, fun m hm => ?_⟩
    rcases List.mem_append.1 hm with hm | hm
    · exact h.inbound m hm
    · rw [List.mem_singleton.1 hm]
      exact (e.isReply r).2.2.2
  | push hcmd =>
    refine ⟨h.phase, fun m hm => ?_⟩
    rcases List.mem_append.1 hm with hm | hm
    · exact h.inbound m hm
    · rw [List.mem_singleton.1 hm]
      exact hcmd.1.ne_error
  | read hin =>
    refine ⟨h.phase, fun m hm => h.inbound m ?_⟩
    rw [hin]
    exact List.mem_cons_of_mem _ hm
  | _ => exact absurd ha (by simp [Action.Undisturbed])

end

/-! ## Runs -/

/-- The connection id of the stream `dial` returns. -/
def dialed (s : Session) (r : ℕ) : Option ℕ :=
  match s.phase r with
  | some (.returned body) => parseDialOk body
  | _ => none

/-- In a run of calm steps a request is completed with its own answer only, be it a reply or
an error, and a dial with the connection id in it. -/
theorem calm_returned (e : Expect) (as : List Action) (s : Session)
    (hcalm : Machine.Along (step e) (Calm e) init as)
    (hrun : Machine.run (step e) init as = some s) :
    (∀ r payload, s.conn.futures r = .result payload → s.answer r = some payload) ∧
      (∀ r err, s.conn.futures r = .daemonError err → (s.refusal r).map parseError = some err) ∧
      (∀ r payload, s.phase r = some (.returned payload) → s.answer r = some payload) ∧
      ∀ r connId, s.dialed r = some connId → (s.answer r).bind parseDialOk = some connId := by
  have h : Aligned e s := Machine.run_invariant _ _ (fun h hc hs => Aligned.step h hc hs)
    (aligned_init e) hcalm hrun
  have howns : ∀ {r outcome}, s.conn.futures r = outcome → s.Owns r outcome :=
    fun {r} _ hr => hr ▸ h.owns r
  refine ⟨fun r payload hr => howns hr, fun r err hr => howns hr, h.returned, fun r connId hr => ?_⟩
  unfold dialed at hr
  split at hr
  · rename_i body hbody
    rw [h.returned r body hbody]
    exact hr
  · cases hr

/-- Dial replies for every request. -/
def dialExpect : Expect :=
  ⟨fun _ => cmdDialOk, fun _ => by decide, true, fun _ _ => by decide⟩

/-- Two dials. The first times out, and the second is made once the answer to the first
has been read. -/
def patientDials : List Action :=
  [.call 0, .acquire 0, .drained 0, .timeout 0, .answer 0 [0, 0, 0, 1], .read, .call 1, .acquire 1,
    .drained 1, .answer 1 [0, 0, 0, 2], .read, .resume 1]

theorem calm_returned_patientDials : ∃ s, Machine.run (step dialExpect) init patientDials = some s ∧
    s.dialed 1 = some 2 ∧ (s.answer 1).bind parseDialOk = some 2 :=
  ⟨_, rfl, rfl, (calm_returned dialExpect patientDials _ (by decide) rfl).2.2.2 1 2 rfl⟩

/-- The late answer to a dial that has timed out goes to the next one. -/
theorem late_answer_shifts :
    ¬∀ (e : Expect) (as : List Action) (s : Session), Machine.run (step e) init as = some s →
      ∀ r payload, s.phase r = some (.returned payload) → s.answer r = some payload := by
  intro h
  have hrun : ∃ s, Machine.run (step dialExpect) init
      [.call 0, .acquire 0, .drained 0, .call 1, .acquire 1, .drained 1, .timeout 0,
        .answer 0 [0, 0, 0, 1], .read, .answer 1 [0, 0, 0, 2], .resume 1] = some s ∧
      s.phase 1 = some (.returned [0, 0, 0, 1]) ∧ s.answer 1 = some [0, 0, 0, 2] :=
    ⟨_, rfl, rfl, rfl⟩
  obtain ⟨s, hs, hphase, hanswer⟩ := hrun
  have hwrong := h dialExpect _ s hs 1 _ hphase
  rw [hanswer] at hwrong
  revert hwrong
  decide

/-- In an undisturbed run, a call that returns returns the answer to its own request, and an
answer that was read is the outcome of the call's future unless the call was cancelled. -/
theorem requests_routed (e : Expect) (as : List Action) (s : Session)
    (has : ∀ a ∈ as, a.Undisturbed) (hrun : Machine.run (step e) init as = some s) :
    (∀ r payload, s.phase r = some (.returned payload) → s.answer r = some payload) ∧
      ∀ r payload, s.answer r = some payload → (∀ m ∈ s.inbound, m.origin ≠ some r) →
        s.phase r ≠ some .cancelled → s.conn.futures r = .result payload := by
  have hinv : Aligned e s ∧ Quiet s := by
    refine Machine.run_invariant (fun s => Aligned e s ∧ Quiet s) (fun _ a => a.Undisturbed) ?_
      ⟨aligned_init e, by simp [init], by simp [init]⟩
      (Machine.along_of_forall (fun a ha _ => has a ha) _) hrun
    intro s a s' h ha hs
    exact ⟨h.1.step (h.2.calm ha) hs, h.2.step ha hs⟩
  obtain ⟨h, hquiet⟩ := hinv
  refine ⟨h.returned, fun r payload hr hread hcancel => ?_⟩
  have hout : r ∉ s.outstanding := by
    intro hmem
    rcases List.mem_append.1 hmem with hmem | hmem
    · obtain ⟨m, hm, hmr⟩ := List.mem_filterMap.1 hmem
      exact hread m hm hmr
    · rw [(h.unanswered r hmem).1] at hr
      cases hr
  rcases h.delivered r payload hr hout with hp | hp | hp
  · exact hp
  · exact absurd hp hcancel
  · exact absurd hp (hquiet.phase r)

/-- Three dials : the first is cancelled while its request drains, the second at the lock,
and the third gets its own answer. -/
def concurrentDials : List Action :=
  [.call 0, .call 1, .call 2, .acquire 0, .cancel 0, .cancel 1, .acquire 2, .answer 0 [0, 0, 0, 1],
    .answer 2 [0, 0, 0, 2], .read, .drained 2, .read, .resume 2]

theorem requests_routed_concurrentDials :
    ∃ s, Machine.run (step dialExpect) init concurrentDials = some s ∧
      s.phase 2 = some (.returned [0, 0, 0, 2]) ∧ s.answer 2 = some [0, 0, 0, 2] ∧
      s.conn.futures 2 = .result [0, 0, 0, 2] := by
  refine ⟨_, rfl, rfl, ?_, ?_⟩
  · exact (requests_routed dialExpect concurrentDials _ (by decide) rfl).1 2 _ rfl
  · exact (requests_routed dialExpect concurrentDials _ (by decide) rfl).2 2 _ rfl
      (fun m hm => nomatch hm) (by decide)

end Session

end PilotLanggraph

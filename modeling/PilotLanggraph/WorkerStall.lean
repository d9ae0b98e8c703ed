import PilotLanggraph.ServeForever

/-!
# A worker whose daemon is gone

The teardown of a connection fails its waiters and ends its streams; the accept queue of a
listener gets nothing. So a worker that waits there goes on waiting.

* `daemon_loss_wakes` : the loop of `serve_forever` never waits on a connection that is closed,
  if the connection is not closed in the loop before the stop; and where it is, the loop comes
  to wait for good.
-/

namespace PilotLanggraph

open Ipc

namespace StreamLife

/-- The action sets `_closed`. -/
def Action.Closing : Action → Prop
  | .loopEnds | .close | .forceClose => True
  | _ => False

instance : DecidablePred Action.Closing
  | .loopEnds | .close | .forceClose => inferInstanceAs (Decidable True)
  | .streams _ | .read _ _ | .closeResume | .closeInterrupt => inferInstanceAs (Decidable False)

theorem closed_step {s s' : StreamLife} {a : Action} (ha : ¬a.Closing) (hs : s.step a = some s') :
    s'.closed = s.closed := by
  cases step_cases hs with
  | begins ha' => rcases ha' with rfl | rfl <;> exact absurd trivial ha
  | again ha' => rcases ha' with rfl | rfl | rfl <;> exact absurd trivial ha
  | forceClose => exact absurd trivial ha
  | _ => rfl

/-- An `accept` that finds a connection goes on. -/
theorem exists_accept {s : StreamLife} {q : ℕ} {conn : AcceptedConn} {rest : List AcceptedConn}
    (hq : s.conn.accepted q = conn :: rest) :
    ∃ s', s.step (.streams (.endpoint (.accept q))) = some s' ∧ s'.conn.accepted q = rest := by
  change s.streams.base.conn.accepted q = conn :: rest at hq
  have hstep : s.streams.base.step (.accept q) =
      some ((s.streams.base.take q conn rest).openStream conn.connId) := by
    simp only [Endpoints.step, hq]
  simp only [step, isMessage, Streams.step, hstep, Option.map_some, Bool.false_eq_true, if_false]
  exact ⟨_, rfl, Function.update_self _ _ _⟩

end StreamLife

namespace Serving

/-- The connection is closed, nobody asked for a stop, no connection waits, and the loop can
do nothing. -/
def Stuck (s : Serving) : Prop :=
  s.life.closed = true ∧ s.stopping = false ∧ s.backlog = [] ∧ s.phase.InLoop ∧
    s.step .acceptTask = none ∧ s.step .stopTask = none ∧ s.step .resume = none

/-- A step of the loop itself. -/
def Action.Own : Action → Prop
  | .acceptTask | .stopTask | .resume => True
  | _ => False

/-- The connection is not closed in the loop before the stop, and the loop is not entered with
a closed connection. -/
def Careful (s : Serving) : Action → Prop
  | .conn a => a.Closing → s.phase.InLoop → s.stopping = true
  | .listening => s.life.closed = true → s.stopping = true
  | _ => True

instance (s : Serving) : DecidablePred s.Careful
  | .conn _ | .listening => inferInstanceAs (Decidable (_ → _))
  | .requestStop | .bind _ | .startFails | .acceptTask | .stopTask | .resume | .interrupt
  | .drainTimeout | .callEnds _ _ | .discard _ | .periodicEnds _ _ =>
    inferInstanceAs (Decidable True)

/-- The tasks of a round. -/
structure Racing (s : Serving) : Prop where
  stopped : s.stopTask.result? ≠ none → s.stopping = true
  waiting : s.phase = .waiting →
    s.stopTask ≠ .cancelling ∧ s.stopTask ≠ .cancelled ∧
      s.acceptTask ≠ .cancelling ∧ s.acceptTask ≠ .cancelled
  joining : s.phase = .joining →
    s.acceptTask.result? ≠ none ∧ s.stopTask ≠ .created ∧ s.stopTask ≠ .parked
  reaping : s.phase = .reaping → s.stopping = true

section

variable {s s' : Serving} {a : Action}

theorem racing_init (n : ℕ) : (init n).Racing where
  stopped h := absurd rfl h
  waiting h := by cases h
  joining h := by cases h
  reaping h := by cases h

/-- Outside the loop there is no round. -/
theorem Racing.of_not_inLoop (hstopped : s.stopTask.result? ≠ none → s.stopping = true)
    (hphase : ¬s.phase.InLoop) : s.Racing where
  stopped := hstopped
  waiting h := absurd (by rw [h]; trivial) hphase
  joining h := absurd (by rw [h]; trivial) hphase
  reaping h := absurd (by rw [h]; trivial) hphase

theorem Racing.of_left (h : s.stopTask.result? ≠ none → s.stopping = true)
    (hkeeps : s.Keeps s') (hphase : s'.phase.Left) : s'.Racing :=
  .of_not_inLoop (by rw [hkeeps.stopTask, hkeeps.stopping]; exact h) hphase.2

theorem Racing.nextRound (h : s.stopTask.result? ≠ none → s.stopping = true) :
    s.nextRound.Racing := by
  rcases s.nextRound_cases with hnext | hnext
  · rw [hnext]
    exact .of_left h s.keeps_leave s.left_leave
  · rw [hnext]
    exact ⟨fun h => absurd rfl h, fun _ => ⟨nofun, nofun, nofun, nofun⟩, nofun, nofun⟩

theorem Racing.step (h : s.Racing) (hs : s.step a = some s') : s'.Racing := by
  cases step_cases hs with
  | conn | callEnds | discard | periodicEnds | ignored =>
    exact ⟨h.stopped, h.waiting, h.joining, h.reaping⟩
  | requestStop => exact ⟨fun _ => rfl, h.waiting, h.joining, fun _ => rfl⟩
  | bind => exact .of_not_inLoop h.stopped id
  | fails => exact .of_not_inLoop h.stopped id
  | listening => exact .nextRound h.stopped
  | take htakes hq hlife =>
    refine ⟨h.stopped, fun hp => ?_, fun hp => ?_, h.reaping⟩
    · obtain ⟨h₁, h₂, -, -⟩ := h.waiting hp
      exact ⟨h₁, h₂, nofun, nofun⟩
    · exact ⟨nofun, (h.joining hp).2⟩
  | park hcreated =>
    refine ⟨h.stopped, fun hp => ?_, fun hp => ?_, h.reaping⟩
    · obtain ⟨h₁, h₂, -, -⟩ := h.waiting hp
      exact ⟨h₁, h₂, nofun, nofun⟩
    · exact absurd (by rw [hcreated]; rfl) (h.joining hp).1
  | acceptCancelled hcancel =>
    refine ⟨h.stopped, fun hp => ?_, fun hp => ?_, h.reaping⟩
    · exact absurd hcancel (h.waiting hp).2.2.1
    · exact absurd (by rw [hcancel]; rfl) (h.joining hp).1
  | @stopTask t ht =>
    rcases Racer.advance_cases ht with ⟨hcreated, -, rfl⟩ | ⟨_, hgot, htakes, rfl⟩ | ⟨hcancel, rfl⟩
    · refine ⟨fun hres => absurd rfl hres, fun hp => ⟨nofun, nofun, (h.waiting hp).2.2⟩,
        fun hp => ?_, h.reaping⟩
      exact absurd hcreated (h.joining hp).2.1
    · have hstopping : s.stopping = true := by
        by_contra hnot
        rw [if_neg hnot] at hgot
        cases hgot
      exact ⟨fun _ => hstopping, fun hp => ⟨nofun, nofun, (h.waiting hp).2.2⟩,
        fun hp => ⟨(h.joining hp).1, nofun, nofun⟩, fun _ => hstopping⟩
    · refine ⟨fun hres => absurd rfl hres, fun hp => ?_, fun hp => ⟨(h.joining hp).1, nofun, nofun⟩,
        h.reaping⟩
      exact absurd hcancel (h.waiting hp).1
  | @accepted conn hphase hconn =>
    refine ⟨fun hres => h.stopped ?_, nofun, fun _ => ⟨?_, s.stopTask.cancel_ne⟩, nofun⟩
    · rwa [Racer.result?_cancel] at hres
    · change s.acceptTask.result? ≠ none
      rw [hconn]
      exact nofun
  | joined => exact .nextRound h.stopped
  | stopped hphase hnone hover =>
    -- The stop task is over, and nobody has cancelled it.
    have hstopping : s.stopping = true := by
      refine h.stopped ?_
      obtain ⟨h₁, h₂, -, -⟩ := h.waiting hphase
      cases hstop : s.stopTask with
      | done => exact nofun
      | cancelled => exact absurd hstop h₂
      | _ =>
        rw [hstop] at hover
        exact hover.elim
    exact ⟨fun _ => hstopping, nofun, nofun, fun _ => hstopping⟩
  | reaped => exact .of_left h.stopped s.keeps_leave s.left_leave
  | interrupted =>
    exact .of_left (s := { s with raising := true }) h.stopped (keeps_leave _) (left_leave _)
  | periodicDone =>
    exact .of_left (s := { s with periodicTasks := [] }) h.stopped (keeps_drainCalls _)
      (left_drainCalls _)
  | drained => exact .of_left h.stopped s.keeps_closeConn s.left_closeConn
  | drainTimeout | expired | unwind | raises => exact .of_not_inLoop h.stopped id
  | closed =>
    refine .of_not_inLoop h.stopped ?_
    unfold finish
    split_ifs <;> exact id

/-- With careful steps, a connection is not closed in the loop before the stop. -/
theorem stopping_of_closed_step (h : s.life.closed = true → s.phase.InLoop → s.stopping = true)
    (hok : s.Careful a) (hs : s.step a = some s') :
    s'.life.closed = true → s'.phase.InLoop → s'.stopping = true := by
  have hleft : s'.phase.Left → s'.life.closed = true → s'.phase.InLoop → s'.stopping = true :=
    fun hleft _ hloop => absurd hloop hleft.2
  cases step_cases hs with
  | @conn b life hown hlife =>
    intro hclosed hloop
    by_cases hb : b.Closing
    · exact hok hb hloop
    · exact h (StreamLife.closed_step hb hlife ▸ hclosed) hloop
  | requestStop => exact fun _ _ => rfl
  | bind | fails => exact fun _ hloop => hloop.elim
  | @listening fut port life hphase hlife =>
    rcases nextRound_cases { s with
      life, port
      queue := s.life.streams.base.queues
      periodicTasks := List.replicate s.periodic .running } with hnext | hnext
    · rw [hnext] at hleft ⊢
      exact hleft (left_leave _)
    · rw [hnext]
      have hsame : life.closed = s.life.closed := StreamLife.closed_step id hlife
      exact fun hclosed _ => hok (hsame ▸ hclosed)
  | @take conn rest life htakes hq hlife =>
    have hsame : life.closed = s.life.closed := StreamLife.closed_step id hlife
    exact fun hclosed => h (hsame ▸ hclosed)
  | accepted hphase | stopped hphase =>
    exact fun hclosed _ => h hclosed (by rw [hphase]; trivial)
  | @joined conn hphase =>
    rcases (s.startCall conn).nextRound_cases with hnext | hnext
    · rw [hnext] at hleft ⊢
      exact hleft (left_leave _)
    · rw [hnext]
      exact fun hclosed _ => h hclosed (by rw [hphase]; trivial)
  | reaped | interrupted => exact hleft (left_leave _)
  | periodicDone => exact hleft (left_drainCalls _)
  | drained => exact hleft (left_closeConn _)
  | drainTimeout | expired | unwind | raises => exact hleft ⟨id, id⟩
  | closed =>
    refine hleft ?_
    unfold finish
    split_ifs <;> exact ⟨id, id⟩
  | park | acceptCancelled | stopTask | callEnds | discard | periodicEnds | ignored => exact h

/-! ## Coming to a halt -/

/-- The loop can come to a halt by its own steps. -/
def Halts (s : Serving) : Prop :=
  ∃ bs t, (∀ b ∈ bs, b.Own) ∧ Machine.run Serving.step s bs = some t ∧ t.Stuck

theorem Stuck.halts (h : s.Stuck) : s.Halts :=
  ⟨[], s, by simp, rfl, h⟩

theorem Halts.of_step {b : Action} (hs : s.step b = some s') (hb : b.Own) (h : s'.Halts) :
    s.Halts := by
  obtain ⟨bs, t, hbs, hrun, hstuck⟩ := h
  refine ⟨b :: bs, t, fun c hc => ?_, (Machine.run_of_step hs bs).trans hrun, hstuck⟩
  rcases List.mem_cons.1 hc with rfl | hc
  · exact hb
  · exact hbs c hc

/-- A closed connection and no stop. -/
structure Deaf (s : Serving) : Prop where
  closed : s.life.closed = true
  stopping : s.stopping = false

/-- With nothing in the queue both tasks park, and there they stay. -/
theorem Deaf.halts_of_nil (h : s.Deaf) (hphase : s.phase = .waiting) (hnil : s.backlog = [])
    (haccept : s.acceptTask = .created ∨ s.acceptTask = .parked)
    (hstop : s.stopTask = .created ∨ s.stopTask = .parked) : s.Halts := by
  have hparked : ∀ {s : Serving}, s.Deaf → s.phase = .waiting → s.backlog = [] →
      s.acceptTask = .parked → s.stopTask = .parked → s.Halts := by
    intro s h hphase hnil haccept hstop
    refine Stuck.halts ⟨h.closed, h.stopping, hnil, by rw [hphase]; trivial, ?_, ?_, ?_⟩
    · simp [step, advanceAccept, haccept, hnil, Racer.Takes, Racer.advance]
    · simp [step, advanceStop, hstop, h.stopping, Racer.advance]
    · simp [step, resume, hphase, haccept, hstop, Racer.result?, Racer.Over]
  have hwaits : ∀ {s : Serving}, s.Deaf → s.phase = .waiting → s.backlog = [] →
      s.acceptTask = .parked → s.stopTask = .created ∨ s.stopTask = .parked → s.Halts := by
    intro s h hphase hnil haccept hstop
    rcases hstop with hstop | hstop
    · have hs : s.step .stopTask = some { s with stopTask := .parked } := by
        simp [step, advanceStop, hstop, h.stopping, Racer.advance]
      exact .of_step hs trivial (hparked ⟨h.closed, h.stopping⟩ hphase hnil haccept rfl)
    · exact hparked h hphase hnil haccept hstop
  rcases haccept with haccept | haccept
  · have hs : s.step .acceptTask = some { s with acceptTask := .parked } := by
      simp [step, advanceAccept, haccept, hnil, Racer.Takes, Racer.advance]
    exact .of_step hs trivial (hwaits ⟨h.closed, h.stopping⟩ hphase hnil rfl hstop)
  · exact hwaits h hphase hnil haccept hstop

/-- A round that has a connection ends, and the next one begins. -/
theorem Deaf.halts_of_joining {conn : AcceptedConn} (h : s.Deaf) (hphase : s.phase = .joining)
    (haccept : s.acceptTask.result? = some conn)
    (hstop : s.stopTask ≠ .created ∧ s.stopTask ≠ .parked)
    (hnext : ∀ {t : Serving}, t.Deaf → t.backlog = s.backlog → t.phase = .waiting →
      t.acceptTask = .created → t.stopTask = .created → t.Halts) : s.Halts := by
  have hover : ∀ {s' : Serving}, s'.Deaf → s'.backlog = s.backlog → s'.phase = .joining →
      s'.acceptTask.result? = some conn → s'.stopTask.Over → s'.Halts := by
    intro s' h hbacklog hphase haccept hover
    have hs : s'.step .resume = some { s'.startCall conn with
        phase := .waiting, acceptTask := .created, stopTask := .created } := by
      have hstopping : (s'.startCall conn).stopping = false := h.stopping
      simp [step, resume, hphase, haccept, hover, nextRound, hstopping]
    exact .of_step hs trivial (hnext ⟨h.closed, h.stopping⟩ hbacklog rfl rfl rfl)
  cases htask : s.stopTask with
  | created => exact absurd htask hstop.1
  | parked => exact absurd htask hstop.2
  | cancelling =>
    have hs : s.step .stopTask = some { s with stopTask := .cancelled } := by
      simp [step, advanceStop, htask, Racer.advance]
    exact .of_step hs trivial (hover ⟨h.closed, h.stopping⟩ rfl hphase haccept trivial)
  | done | cancelled =>
    exact hover h rfl hphase haccept (by rw [htask]; trivial)

/-- A connection that was accepted goes to its call. -/
theorem Deaf.halts_of_done {conn : AcceptedConn} (h : s.Deaf) (hphase : s.phase = .waiting)
    (haccept : s.acceptTask.result? = some conn)
    (hnext : ∀ {t : Serving}, t.Deaf → t.backlog = s.backlog → t.phase = .waiting →
      t.acceptTask = .created → t.stopTask = .created → t.Halts) : s.Halts := by
  have hs : s.step .resume = some { s with stopTask := s.stopTask.cancel, phase := .joining } := by
    simp [step, resume, hphase, haccept]
  have hjoining : Halts { s with stopTask := s.stopTask.cancel, phase := .joining } :=
    Deaf.halts_of_joining ⟨h.closed, h.stopping⟩ rfl haccept s.stopTask.cancel_ne hnext
  exact .of_step hs trivial hjoining

/-- Any number of connections is served first. -/
theorem Deaf.halts_of_waiting : ∀ (conns : List AcceptedConn) {s : Serving}, s.Deaf →
    s.backlog = conns → s.phase = .waiting →
    s.acceptTask = .created ∨ s.acceptTask = .parked →
    s.stopTask = .created ∨ s.stopTask = .parked → s.Halts
  | [], _, h, hconns, hphase, haccept, hstop => h.halts_of_nil hphase hconns haccept hstop
  | conn :: rest, s, h, hconns, hphase, haccept, hstop => by
    obtain ⟨life, hlife, hrest⟩ := StreamLife.exists_accept hconns
    have htakes : s.acceptTask.Takes := by
      rcases haccept with haccept | haccept <;> rw [haccept] <;> trivial
    have hs : s.step .acceptTask = some { s with life, acceptTask := .done conn } := by
      simp [step, advanceAccept, htakes, hconns, takeConn, hlife]
    have hclosed : life.closed = true := (StreamLife.closed_step id hlife).trans h.closed
    have hdone : Halts { s with life, acceptTask := .done conn } :=
      Deaf.halts_of_done ⟨hclosed, h.stopping⟩ hphase rfl fun h hbacklog hphase haccept hstop =>
        halts_of_waiting rest h (hbacklog.trans hrest) hphase (Or.inl haccept) (Or.inl hstop)
    exact .of_step hs trivial hdone

/-- In its loop, with a closed connection and no stop, a worker can come to a halt. -/
theorem Racing.halts (h : s.Racing) (hdeaf : s.Deaf) (hloop : s.phase.InLoop) : s.Halts := by
  have hnext : ∀ {t : Serving}, t.Deaf → t.backlog = s.backlog → t.phase = .waiting →
      t.acceptTask = .created → t.stopTask = .created → t.Halts :=
    fun hdeaf hbacklog hphase haccept hstop =>
      hdeaf.halts_of_waiting _ hbacklog hphase (Or.inl haccept) (Or.inl hstop)
  have hrunning : s.stopping ≠ true := by simp [hdeaf.stopping]
  cases hphase : s.phase with
  | waiting =>
    obtain ⟨h₁, h₂, h₃, h₄⟩ := h.waiting hphase
    have hstop : s.stopTask = .created ∨ s.stopTask = .parked := by
      cases hstop : s.stopTask with
      | created => exact Or.inl rfl
      | parked => exact Or.inr rfl
      | done => exact absurd (h.stopped (by rw [hstop]; nofun)) hrunning
      | cancelling => exact absurd hstop h₁
      | cancelled => exact absurd hstop h₂
    cases haccept : s.acceptTask with
    | created => exact hdeaf.halts_of_waiting _ rfl hphase (Or.inl haccept) hstop
    | parked => exact hdeaf.halts_of_waiting _ rfl hphase (Or.inr haccept) hstop
    | done conn => exact hdeaf.halts_of_done hphase (by rw [haccept]; rfl) hnext
    | cancelling => exact absurd haccept h₃
    | cancelled => exact absurd haccept h₄
  | joining =>
    obtain ⟨hres, hstop⟩ := h.joining hphase
    obtain ⟨conn, hconn⟩ := Option.ne_none_iff_exists'.1 hres
    exact hdeaf.halts_of_joining hphase hconn hstop hnext
  | reaping => exact absurd (h.reaping hphase) hrunning
  | _ =>
    rw [hphase] at hloop
    exact hloop.elim

/-- In a run of careful steps the loop never waits for a connection that is closed. In any run,
a loop whose connection is closed before the stop can come to wait for good, by its own steps. -/
theorem daemon_loss_wakes {n : ℕ} {as : List Action} {s : Serving}
    (hrun : Machine.run Serving.step (init n) as = some s) :
    (Machine.Along Serving.step Careful (init n) as → ¬s.Stuck) ∧
      (s.life.closed = true → s.stopping = false → s.phase.InLoop →
        ∃ bs t, (∀ b ∈ bs, b.Own) ∧ Machine.run Serving.step s bs = some t ∧ t.Stuck) := by
  refine ⟨fun hok hstuck => ?_, fun hclosed hstopping hloop => ?_⟩
  · have hinv : s.life.closed = true → s.phase.InLoop → s.stopping = true :=
      Machine.run_invariant (fun s => s.life.closed = true → s.phase.InLoop → s.stopping = true)
        Careful (fun h hok hs => stopping_of_closed_step h hok hs) (fun h => by cases h) hok hrun
    obtain ⟨hclosed, hstopping, -, hloop, -⟩ := hstuck
    cases hstopping.symm.trans (hinv hclosed hloop)
  · have hracing : s.Racing :=
      Machine.run_induction (fun _ s => s.Racing) (racing_init n) (fun _ h hs => h.step hs) hrun
    exact hracing.halts ⟨hclosed, hstopping⟩ hloop

end

set_option maxRecDepth 4000 in
/-- The daemon goes after the stop was requested. -/
theorem daemon_loss_wakes_stopping :
    ∃ s, Machine.run Serving.step (init 0) (listens ++ [.requestStop, .conn .loopEnds]) = some s ∧
      s.life.closed = true ∧ s.phase = .waiting ∧ ¬s.Stuck := by
  obtain ⟨s, hrun, hclosed, hphase⟩ : ∃ s, Machine.run Serving.step (init 0)
      (listens ++ [.requestStop, .conn .loopEnds]) = some s ∧ s.life.closed = true ∧
        s.phase = .waiting := ⟨_, rfl, rfl, rfl⟩
  exact ⟨s, hrun, hclosed, hphase, (daemon_loss_wakes hrun).1 (by decide +kernel)⟩

set_option maxRecDepth 4000 in
/-- The daemon goes while both tasks wait. -/
theorem daemon_loss_stalls :
    ∃ s, Machine.run Serving.step (init 0)
        (listens ++ [.conn .loopEnds, .conn .closeResume]) = some s ∧ s.Stuck :=
  ⟨_, rfl, rfl, rfl, rfl, trivial, rfl, rfl, rfl⟩

end Serving

end PilotLanggraph

import PilotLanggraph.ServeForever

/-!
# Stopping a worker

The loop of `serve_forever` takes one connection a round. What still stands in the accept queue
when it is left is handed to nobody. The calls that were started are all over when
`serve_forever` returns : they ended, or the drain timeout has cancelled them.

* `graceful_stop` : every connection that was put into the accept queue before the loop was left
  is passed to `_handle_one` exactly if none was left behind, and the calls are over at the end.
-/

namespace PilotLanggraph

open Ipc

namespace StreamLife

section

variable {s s' : StreamLife} {a : Action}

/-- The listeners' side of an action. -/
theorem base_cases (hs : s.step a = some s') :
    (∃ b, a = .streams (.endpoint b) ∧ s.streams.base.step b = some s'.streams.base) ∨
      (∀ b, a ≠ .streams (.endpoint b)) ∧ s'.streams.base.queues = s.streams.base.queues ∧
        s'.streams.base.taken = s.streams.base.taken ∧
          Connection.SameListeners s'.conn s.conn := by
  cases step_cases hs with
  | @streams b t l hb =>
    cases b with
    | endpoint b =>
      obtain ⟨base, hbase, rfl⟩ := Option.map_eq_some_iff.1 hb
      exact Or.inl ⟨b, rfl, hbase⟩
    | close i q =>
      simp only [Streams.step, Option.ite_none_right_eq_some, Option.some.injEq] at hb
      obtain ⟨-, rfl⟩ := hb
      exact Or.inr ⟨fun _ h => (by cases h), rfl, rfl, rfl, rfl⟩
    | pop i q =>
      simp only [Streams.step, Option.ite_none_right_eq_some, Option.some.injEq] at hb
      obtain ⟨-, rfl⟩ := hb
      exact Or.inr ⟨fun _ h => (by cases h), rfl, rfl, rfl, rfl⟩
  | read => exact Or.inr ⟨fun _ h => (by cases h), rfl, rfl, rfl, rfl⟩
  | begins ha =>
    exact Or.inr ⟨fun _ h => (by subst h; rcases ha with ha | ha <;> cases ha), rfl, rfl, rfl, rfl⟩
  | again ha =>
    exact Or.inr
      ⟨fun _ h => (by subst h; rcases ha with ha | ha | ha <;> cases ha), rfl, rfl, rfl, rfl⟩
  | closeResume =>
    obtain ⟨h₁, h₂⟩ := s.conn.failWaiters_same.2
    exact Or.inr ⟨fun _ h => (by cases h), rfl, rfl, h₁, h₂⟩
  | closeInterrupt => exact Or.inr ⟨fun _ h => (by cases h), rfl, rfl, rfl, rfl⟩
  | forceClose => exact Or.inr ⟨fun _ h => (by cases h), rfl, rfl, rfl, rfl⟩

theorem unopened_step (h : s.streams.base.Unopened) (hs : s.step a = some s') :
    s'.streams.base.Unopened := by
  rcases base_cases hs with ⟨b, -, hb⟩ | ⟨-, hqueues, htaken, hsame⟩
  · exact Endpoints.unopened_step h hb
  · exact h.congr hsame (Nat.le_of_eq hqueues.symm) htaken

/-- Only `accept` takes from an accept queue. -/
theorem taken_step {q : ℕ} (ha : a ≠ .streams (.endpoint (.accept q))) (hs : s.step a = some s') :
    s'.streams.base.taken q = s.streams.base.taken q := by
  rcases base_cases hs with ⟨b, rfl, hb⟩ | ⟨-, -, htaken, -⟩
  · generalize s'.streams.base = base at hb
    cases Endpoints.step_cases hb with
    | @accept q' conn rest hq =>
      have hne : q ≠ q' := fun heq => ha (by rw [heq])
      exact Function.update_of_ne hne _ _
    | _ => rfl
  · rw [htaken]

theorem taken_accept {q : ℕ} {conn : AcceptedConn} {rest : List AcceptedConn}
    (hq : s.conn.accepted q = conn :: rest)
    (hs : s.step (.streams (.endpoint (.accept q))) = some s') :
    s'.streams.base.taken q = s.streams.base.taken q ++ [conn] := by
  rcases base_cases hs with ⟨b, hb, hbase⟩ | ⟨hne, -⟩
  · cases hb
    change s.streams.base.conn.accepted q = conn :: rest at hq
    simp only [Endpoints.step, hq, Option.some.injEq] at hbase
    rw [← hbase]
    exact Function.update_self _ _ _
  · exact absurd rfl (hne _)

/-- A listener begins with nothing offered to it. -/
theorem offered_listen {fut : ℕ} (h : s.streams.base.Unopened)
    (hs : s.step (.streams (.endpoint (.listen fut))) = some s') :
    s'.streams.base.offered s.streams.base.queues = [] := by
  have htaken := taken_step (q := s.streams.base.queues) (by simp) hs
  rw [Endpoints.offered, htaken, h.untaken (Nat.le_refl _), List.nil_append]
  rcases base_cases hs with ⟨b, hb, hbase⟩ | ⟨hne, -⟩
  · cases hb
    generalize s'.streams.base = base at hbase
    cases Endpoints.step_cases hbase with
    | waiters _ _ hsame => exact hsame.accepted ▸ h.unoffered (Nat.le_refl _)
    | listen => exact Function.update_self _ _ _
  · exact absurd rfl (hne _)

end

end StreamLife

namespace ServePhase

/-- The calls that must be done before `serve_forever` goes on or has returned, apart from
those that are. -/
def awaited : ServePhase → Option (List ℕ)
  | .draining is | .expiring is | .gathering is => some is
  | .closing | .returned => some []
  | _ => none

/-- A cancellation is passed on to the caller. -/
def Unwound : ServePhase → Prop
  | .unwinding _ | .raised => True
  | _ => False

end ServePhase

/-- `cancel` was called. -/
def TaskState.WasCancelled (t : TaskState) : Prop :=
  t = .cancelling ∨ t = .cancelled

namespace Serving

/-- What stands in the accept queue, or was taken for nobody, when the loop is left. -/
def leftBehind (s : Serving) : Action → List AcceptedConn
  | .resume => s.backlog
  | .interrupt => s.acceptTask.result?.toList ++ s.backlog
  | _ => []

/-- Each call is done or one of these. -/
def Covered (s : Serving) (is : List ℕ) : Prop :=
  ∀ i < s.handled.length, (s.calls i).done = true ∨ i ∈ is

/-- Where the calls are. -/
structure Drained (s : Serving) : Prop where
  flight : s.Covered s.inflight
  awaited : ∀ {is}, s.phase.awaited = some is → s.Covered is
  cancelled : ∀ {i}, i < s.handled.length → (s.calls i).WasCancelled →
    s.timedOut = true ∨ s.phase.Unwound

/-- Where the connections are. -/
structure Accounted (s : Serving) : Prop where
  unopened : s.life.streams.base.Unopened
  before : s.phase.Before → s.handled = []
  taken : s.phase.InLoop →
    s.life.streams.base.taken s.queue = s.handled ++ s.acceptTask.result?.toList
  reaping : s.phase = .reaping → s.acceptTask = .cancelling ∨ s.acceptTask = .cancelled

section

variable {s s' : Serving} {a : Action}

/-! ## The calls -/

theorem Drained.of_flight (hflight : s.Covered s.inflight)
    (hawaited : s.phase.awaited = none)
    (hcancelled : ∀ {i}, i < s.handled.length → (s.calls i).WasCancelled →
      s.timedOut = true ∨ s.phase.Unwound) : Drained s where
  flight := hflight
  awaited h := by cases hawaited.symm.trans h
  cancelled := hcancelled

theorem Drained.closeConn (h : s.Drained) (hphase : ¬s.phase.Unwound) (hall : s.Covered []) :
    s.closeConn.Drained := by
  have hkeeps := s.keeps_closeConn
  have hcovered : ∀ {is}, s.Covered is → s.closeConn.Covered is := fun h => by
    unfold Covered
    rw [hkeeps.handled, hkeeps.calls]
    exact h
  refine ⟨?_, fun {is} his => ?_, fun {i} hi hcancel => Or.inl ?_⟩
  · rw [hkeeps.inflight]
    exact hcovered h.flight
  · refine hcovered fun i hi => ?_
    exact (hall i hi).imp_right fun hmem => by cases hmem
  · rw [hkeeps.timedOut]
    rw [hkeeps.handled] at hi
    rw [hkeeps.calls] at hcancel
    exact (h.cancelled hi hcancel).resolve_right hphase

theorem Drained.drainCalls (h : s.Drained) (hphase : ¬s.phase.Unwound) : s.drainCalls.Drained := by
  unfold Serving.drainCalls
  split_ifs with hnil
  · exact h.closeConn hphase (hnil ▸ h.flight)
  · refine ⟨h.flight, fun {is} his => ?_, fun hi hcancel => ?_⟩
    · obtain rfl := Option.some.inj his
      exact h.flight
    · exact Or.inl ((h.cancelled hi hcancel).resolve_right hphase)

theorem Drained.leave (h : s.Drained) (hphase : ¬s.phase.Unwound) : s.leave.Drained := by
  have hclose : s.closeListener.Drained := ⟨h.flight, h.awaited, h.cancelled⟩
  unfold Serving.leave Serving.drainInflight
  split_ifs
  · exact hclose.drainCalls hphase
  · exact .of_flight h.flight rfl fun hi hcancel =>
      Or.inl ((h.cancelled hi hcancel).resolve_right hphase)

theorem Drained.nextRound (h : s.Drained) (hphase : ¬s.phase.Unwound) :
    s.nextRound.Drained := by
  rcases s.nextRound_cases with hnext | hnext
  · rw [hnext]
    exact h.leave hphase
  · rw [hnext]
    exact .of_flight h.flight rfl fun hi hcancel =>
      Or.inl ((h.cancelled hi hcancel).resolve_right hphase)

theorem Drained.startCall (h : s.Drained) (hphase : ¬s.phase.Unwound) (conn : AcceptedConn)
    (hawaited : s.phase.awaited = none) : (s.startCall conn).Drained := by
  have hlen : (s.startCall conn).handled.length = s.handled.length + 1 := by
    simp [Serving.startCall]
  have hold : ∀ {i}, i ≠ s.handled.length → (s.startCall conn).calls i = s.calls i :=
    fun hi => Function.update_of_ne hi _ _
  refine .of_flight (fun i hi => ?_) hawaited fun {i} hi hcancel => Or.inl ?_
  · by_cases hnew : i = s.handled.length
    · exact Or.inr (by simp [Serving.startCall, hnew])
    · rw [hold hnew]
      refine (h.flight i (by omega)).imp_right fun hmem => ?_
      exact List.mem_append_left _ hmem
  · by_cases hnew : i = s.handled.length
    · have hrun : (s.startCall conn).calls i = .running := by
        rw [hnew]
        exact Function.update_self _ _ _
      rw [hrun] at hcancel
      rcases hcancel with hcancel | hcancel <;> cases hcancel
    · rw [hold hnew] at hcancel
      exact (h.cancelled (by omega) hcancel).resolve_right hphase

/-- The calls are as they were. -/
theorem Drained.congr (h : s.Drained) (hhandled : s'.handled = s.handled)
    (hcalls : s'.calls = s.calls) (hinflight : s'.inflight = s.inflight)
    (htimedOut : s'.timedOut = s.timedOut)
    (hawaited : ∀ {is}, s'.phase.awaited = some is → s.phase.awaited = some is)
    (hunwound : s.phase.Unwound → s'.phase.Unwound) : s'.Drained where
  flight := by
    unfold Covered
    rw [hhandled, hcalls, hinflight]
    exact h.flight
  awaited his := by
    unfold Covered
    rw [hhandled, hcalls]
    exact h.awaited (hawaited his)
  cancelled hi hcancel := by
    rw [hhandled] at hi
    rw [hcalls] at hcancel
    exact htimedOut ▸ (h.cancelled hi hcancel).imp_right hunwound

/-- One call ends. -/
theorem Drained.callEnds (h : s.Drained) {i : ℕ} {byCancel : Bool} {t : TaskState}
    (ht : (s.calls i).finish byCancel = some t) :
    { s with calls := Function.update s.calls i t }.Drained := by
  have hcovered : ∀ {is}, s.Covered is →
      Covered { s with calls := Function.update s.calls i t } is := by
    intro is hcov j hj
    by_cases hji : j = i
    · refine Or.inl ?_
      change (Function.update s.calls i t j).done = true
      rw [hji, Function.update_self]
      exact TaskState.done_of_finish ht
    · change (Function.update s.calls i t j).done = true ∨ j ∈ is
      rw [Function.update_of_ne hji]
      exact hcov j hj
  refine ⟨hcovered h.flight, fun his => hcovered (h.awaited his), fun {j} hj hcancel => ?_⟩
  change (Function.update s.calls i t j).WasCancelled at hcancel
  by_cases hji : j = i
  · subst hji
    rw [Function.update_self] at hcancel
    refine h.cancelled hj ?_
    cases hcall : s.calls j with
    | running =>
      rw [hcall] at ht
      cases byCancel <;> cases ht
      rcases hcancel with hcancel | hcancel <;> cases hcancel
    | cancelling => exact Or.inl rfl
    | completed | cancelled =>
      rw [hcall] at ht
      cases ht
  · rw [Function.update_of_ne hji] at hcancel
    exact h.cancelled hj hcancel

/-- Calls are cancelled. -/
theorem Drained.cancelCalls (h : s.Drained) (is : List ℕ) {phase : ServePhase} {b : Bool}
    (hawaited : ∀ {js}, phase.awaited = some js → s.Covered js)
    (hcancel : (b = true ∨ phase.Unwound) ∨ s.Covered [] ∧ b = s.timedOut ∧ ¬s.phase.Unwound) :
    { s.cancelCalls is with phase := phase, timedOut := b }.Drained := by
  have hdone : ∀ i, ((s.cancelCalls is).calls i).done = (s.calls i).done := by
    intro i
    change (if i ∈ is then (s.calls i).cancel else s.calls i).done = _
    split_ifs
    · exact TaskState.done_cancel _
    · rfl
  have hcovered : ∀ {js}, s.Covered js → (s.cancelCalls is).Covered js := by
    intro js hcov i hi
    rw [hdone]
    exact hcov i hi
  refine ⟨hcovered h.flight, fun his => hcovered (hawaited his), fun {i} hi hwas => ?_⟩
  rcases hcancel with hcancel | ⟨hall, rfl, hphase⟩
  · exact hcancel
  · -- The call is done, and `cancel` does nothing.
    have hend : (s.calls i).done = true := (hall i hi).resolve_right (by simp)
    have hsame : (s.cancelCalls is).calls i = s.calls i := by
      change (if i ∈ is then (s.calls i).cancel else s.calls i) = _
      split_ifs
      · cases hcall : s.calls i with
        | running | cancelling =>
          rw [hcall] at hend
          cases hend
        | _ => rfl
      · rfl
    change ((s.cancelCalls is).calls i).WasCancelled at hwas
    rw [hsame] at hwas
    exact Or.inl ((h.cancelled hi hwas).resolve_right hphase)

/-- What was waited for is there. -/
theorem covered_nil_of_allDone {is : List ℕ} (h : s.Covered is) (hdone : s.AllDone is) :
    s.Covered [] :=
  fun i hi => Or.inl ((h i hi).elim id (hdone i))

theorem Drained.step (h : s.Drained) (hs : s.step a = some s') : s'.Drained := by
  have hbefore : s.phase.Before → ¬s.phase.Unwound := by
    cases s.phase <;> simp [ServePhase.Before, ServePhase.Unwound]
  cases step_cases hs with
  | conn | requestStop | take | park | acceptCancelled | stopTask | ignored | periodicEnds =>
    exact h.congr rfl rfl rfl rfl id id
  | bind hphase =>
    exact h.congr rfl rfl rfl rfl (fun h => by cases h) fun hu => by rw [hphase] at hu; exact hu
  | fails _ hphase =>
    exact h.congr rfl rfl rfl rfl (fun h => by cases h) fun hu => absurd hu (hbefore hphase)
  | @listening fut port life hphase =>
    refine Drained.nextRound (h.congr rfl rfl rfl rfl id id) ?_
    rw [hphase]
    exact id
  | accepted hphase | stopped hphase =>
    exact h.congr rfl rfl rfl rfl (fun h => by cases h) fun hu => by rw [hphase] at hu; exact hu
  | @joined conn hphase =>
    have hun : ¬s.phase.Unwound := by
      rw [hphase]
      exact id
    exact Drained.nextRound (h.startCall hun conn (by rw [hphase]; rfl)) hun
  | reaped hphase =>
    refine h.leave ?_
    rw [hphase]
    exact id
  | interrupted hphase =>
    refine Drained.leave (h.congr rfl rfl rfl rfl id id) ?_
    rw [hphase]
    exact id
  | periodicDone hphase =>
    refine Drained.drainCalls (h.congr rfl rfl rfl rfl id id) ?_
    rw [hphase]
    exact id
  | @drained is hphase hdone =>
    have hawaited : s.phase.awaited = some is ∧ ¬s.phase.Unwound := by
      rcases hphase with hphase | hphase <;> rw [hphase] <;> exact ⟨rfl, id⟩
    exact h.closeConn hawaited.2 (covered_nil_of_allDone (h.awaited hawaited.1) hdone)
  | @drainTimeout is hphase =>
    refine h.cancelCalls is (fun his => h.awaited ?_) (Or.inl (Or.inl rfl))
    rw [hphase]
    exact his
  | @expired is hphase hdone =>
    have hall := covered_nil_of_allDone (h.awaited (by rw [hphase]; rfl)) hdone
    refine h.cancelCalls s.inflight (b := s.timedOut) (fun his => ?_) (Or.inr ⟨hall, rfl, ?_⟩)
    · obtain rfl := Option.some.inj his
      exact h.flight
    · rw [hphase]
      exact id
  | closed hphase =>
    refine h.congr rfl rfl rfl rfl (fun {is} his => ?_) fun hu => by rw [hphase] at hu; cases hu
    rw [hphase]
    unfold finish at his
    split_ifs at his
    · cases his
    · exact his
  | @unwind is js hphase =>
    exact h.cancelCalls is (b := s.timedOut) (fun h => by cases h) (Or.inl (Or.inr trivial))
  | raises => exact h.congr rfl rfl rfl rfl (fun h => by cases h) fun _ => trivial
  | callEnds _ ht => exact h.callEnds ht
  | @discard i hdone =>
    refine ⟨fun j hj => ?_, h.awaited, h.cancelled⟩
    by_cases hji : j = i
    · exact Or.inl (hji ▸ hdone)
    · exact (h.flight j hj).imp_right fun hmem => (List.mem_erase_of_ne hji).2 hmem

theorem drained_init (n : ℕ) : (init n).Drained where
  flight _ hi := by cases hi
  awaited his := by cases his
  cancelled hi := by cases hi

/-! ## The connections -/

theorem accounted_init (n : ℕ) : (init n).Accounted where
  unopened := Endpoints.unopened_init
  before _ := rfl
  taken h := h.elim
  reaping h := by cases h

theorem Accounted.of_left (h : s.life.streams.base.Unopened) (hphase : s.phase.Left) :
    s.Accounted where
  unopened := h
  before h := absurd h hphase.1
  taken h := absurd h hphase.2
  reaping h := absurd (by rw [h]; trivial) hphase.2

theorem Accounted.leave (h : s.life.streams.base.Unopened) : s.leave.Accounted :=
  .of_left (s.keeps_leave.unopened h) s.left_leave

/-- A round begins with all that was taken handed on. -/
theorem Accounted.nextRound (h : s.life.streams.base.Unopened)
    (htaken : s.life.streams.base.taken s.queue = s.handled) : s.nextRound.Accounted := by
  rcases s.nextRound_cases with hnext | hnext
  · rw [hnext]
    exact .leave h
  · rw [hnext]
    refine ⟨h, fun h => h.elim, fun _ => ?_, nofun⟩
    exact htaken.trans (List.append_nil _).symm

/-- Neither the listener nor the calls change. -/
theorem Accounted.congr (h : s.Accounted) (hlife : s'.life.streams.base = s.life.streams.base)
    (hhandled : s'.handled = s.handled) (hqueue : s'.queue = s.queue)
    (hbefore : s'.phase.Before → s.phase.Before)
    (hloop : s'.phase.InLoop → s.phase.InLoop ∧ s'.acceptTask.result? = s.acceptTask.result?)
    (hreaping : s'.phase = .reaping → s'.acceptTask = .cancelling ∨ s'.acceptTask = .cancelled) :
    s'.Accounted where
  unopened := hlife ▸ h.unopened
  before hp := hhandled ▸ h.before (hbefore hp)
  taken hp := by
    rw [hlife, hhandled, hqueue, (hloop hp).2]
    exact h.taken (hloop hp).1
  reaping := hreaping

theorem Accounted.step (h : s.Accounted) (hs : s.step a = some s') : s'.Accounted := by
  cases step_cases hs with
  | @conn b life hown hlife =>
    refine ⟨StreamLife.unopened_step h.unopened hlife, h.before, fun hp => ?_, h.reaping⟩
    have hb : b ≠ .streams (.endpoint (.accept s.queue)) := by
      rintro rfl
      refine hown ⟨rfl, fun hbefore => ?_⟩
      cases hphase : s.phase <;> rw [hphase] at hp hbefore <;> first | exact hp | exact hbefore
    exact (StreamLife.taken_step hb hlife).trans (h.taken hp)
  | requestStop | stopTask | callEnds | discard | periodicEnds | ignored =>
    exact h.congr rfl rfl rfl id (fun hp => ⟨hp, rfl⟩) h.reaping
  | bind hphase hlife =>
    refine ⟨StreamLife.unopened_step h.unopened hlife, fun _ => h.before ?_, fun hp => hp.elim,
      nofun⟩
    rw [hphase]
    trivial
  | fails _ hphase => exact ⟨h.unopened, fun _ => h.before hphase, fun hp => hp.elim, nofun⟩
  | @listening fut port life hphase hlife =>
    refine Accounted.nextRound (StreamLife.unopened_step h.unopened hlife) ?_
    change life.streams.base.taken s.life.streams.base.queues = s.handled
    rw [StreamLife.taken_step (by simp) hlife, h.unopened.untaken (Nat.le_refl _),
      h.before (by rw [hphase]; trivial)]
  | @take conn rest life htakes hq hlife =>
    have hnone : s.acceptTask.result? = none := by
      cases haccept : s.acceptTask with
      | done => rw [haccept] at htakes; exact htakes.elim
      | _ => rfl
    refine ⟨StreamLife.unopened_step h.unopened hlife, h.before, fun hp => ?_, fun hp => ?_⟩
    · have htaken := h.taken hp
      rw [hnone, Option.toList_none, List.append_nil] at htaken
      change life.streams.base.taken s.queue = s.handled ++ [conn]
      rw [StreamLife.taken_accept hq hlife, htaken]
    · rcases h.reaping hp with haccept | haccept <;> rw [haccept] at htakes <;> exact htakes.elim
  | park hcreated =>
    refine h.congr rfl rfl rfl id (fun hp => ⟨hp, by rw [hcreated]; rfl⟩) fun hp => ?_
    rcases h.reaping hp with haccept | haccept <;> cases hcreated.symm.trans haccept
  | acceptCancelled hcancel =>
    exact h.congr rfl rfl rfl id (fun hp => ⟨hp, by rw [hcancel]; rfl⟩) fun _ => Or.inr rfl
  | accepted hphase =>
    exact h.congr rfl rfl rfl (fun hp => hp.elim) (fun _ => ⟨by rw [hphase]; trivial, rfl⟩) nofun
  | @joined conn hphase _ hconn =>
    refine Accounted.nextRound h.unopened ?_
    refine (h.taken (by rw [hphase]; trivial)).trans ?_
    rw [hconn]
    rfl
  | stopped hphase hnone =>
    refine h.congr rfl rfl rfl (fun hp => hp.elim)
      (fun _ => ⟨by rw [hphase]; trivial, s.acceptTask.result?_cancel⟩) fun _ => ?_
    change s.acceptTask.cancel = .cancelling ∨ s.acceptTask.cancel = .cancelled
    cases haccept : s.acceptTask with
    | done =>
      rw [haccept] at hnone
      cases hnone
    | cancelled => exact Or.inr rfl
    | _ => exact Or.inl rfl
  | reaped | interrupted => exact .leave h.unopened
  | periodicDone => exact .of_left ((keeps_drainCalls _).unopened h.unopened) (left_drainCalls _)
  | drained => exact .of_left (s.keeps_closeConn.unopened h.unopened) s.left_closeConn
  | drainTimeout | expired | unwind => exact .of_left h.unopened ⟨id, id⟩
  | closed =>
    refine .of_left h.unopened ?_
    unfold finish
    split_ifs <;> exact ⟨id, id⟩
  | raises _ _ hlife =>
    refine .of_left ?_ ⟨id, id⟩
    rcases hlife with rfl | hlife
    · exact h.unopened
    · exact StreamLife.unopened_step h.unopened hlife

/-- After the loop no call is started, and the loop is not entered again. -/
theorem left_step (hleft : s.phase.Left) (hs : s.step a = some s') :
    s'.phase.Left ∧ s'.handled = s.handled := by
  have hno : ∀ {p : ServePhase}, s.phase = p → ¬p.Left → False := fun hp hnot => hnot (hp ▸ hleft)
  cases step_cases hs with
  | conn | requestStop | take | park | acceptCancelled | stopTask | ignored | callEnds | discard
  | periodicEnds => exact ⟨hleft, rfl⟩
  | bind hphase => exact (hno hphase (by decide)).elim
  | fails _ hphase => exact absurd hphase hleft.1
  | listening hphase => exact (hno hphase fun h => h.1 trivial).elim
  | accepted hphase | joined hphase | stopped hphase | reaped hphase | interrupted hphase =>
    exact (hno hphase (by decide)).elim
  | periodicDone => exact ⟨left_drainCalls _, (keeps_drainCalls _).handled⟩
  | drained => exact ⟨s.left_closeConn, s.keeps_closeConn.handled⟩
  | drainTimeout | expired | unwind | raises => exact ⟨⟨id, id⟩, rfl⟩
  | closed =>
    refine ⟨?_, rfl⟩
    unfold finish
    split_ifs <;> exact ⟨id, id⟩

/-- What was offered when the loop is left, and what was handed on. -/
theorem Accounted.leaving (h : s.Accounted) (hs : s.step a = some s') (hbefore : ¬s.phase.Left)
    (hleft : s'.phase.Left) : s'.offered = s'.handled ++ s.leftBehind a := by
  have hnot : ∀ {p : ServePhase}, s'.phase = p → ¬p.Left → False := fun hp hn => hn (hp ▸ hleft)
  have hyes : ∀ {p : ServePhase}, s.phase = p → p.Left → False := fun hp hp' =>
    hbefore (hp ▸ hp')
  have hoffered : s.phase.InLoop →
      s.offered = s.handled ++ s.acceptTask.result?.toList ++ s.backlog := fun hp => by
    rw [← h.taken hp]
    rfl
  cases step_cases hs with
  | conn | requestStop | take | park | acceptCancelled | stopTask | ignored | callEnds | discard
  | periodicEnds => exact absurd hleft hbefore
  | bind | fails => exact (hnot rfl fun h => h.1 trivial).elim
  | accepted | stopped => exact (hnot rfl fun h => h.2 trivial).elim
  | @listening fut port life hphase hlife =>
    rcases nextRound_cases { s with
      life, port
      queue := s.life.streams.base.queues
      periodicTasks := List.replicate s.periodic .running } with hnext | hnext
    · rw [hnext, (keeps_leave _).offered, (keeps_leave _).handled]
      refine (StreamLife.offered_listen h.unopened hlife).trans ?_
      change [] = s.handled ++ []
      rw [h.before (by rw [hphase]; trivial), List.append_nil]
    · rw [hnext] at hleft
      exact absurd trivial hleft.2
  | @joined conn hphase _ hconn =>
    rcases (s.startCall conn).nextRound_cases with hnext | hnext
    · rw [hnext, (keeps_leave _).offered, (keeps_leave _).handled]
      refine (hoffered (by rw [hphase]; trivial)).trans ?_
      rw [hconn]
      rfl
    · rw [hnext] at hleft
      exact absurd trivial hleft.2
  | reaped hphase =>
    have hnone : s.acceptTask.result? = none := by
      rcases h.reaping hphase with haccept | haccept <;> rw [haccept] <;> rfl
    rw [s.keeps_leave.offered, s.keeps_leave.handled, hoffered (by rw [hphase]; trivial), hnone,
      Option.toList_none, List.append_nil]
    rfl
  | interrupted hphase =>
    rw [(keeps_leave _).offered, (keeps_leave _).handled]
    refine (hoffered (by rw [hphase]; trivial)).trans ?_
    rw [List.append_assoc]
    rfl
  | periodicDone hphase | closed hphase => exact (hyes hphase (by decide)).elim
  | drained hphase =>
    rcases hphase with hphase | hphase <;> exact (hyes hphase ⟨id, id⟩).elim
  | drainTimeout hphase | expired hphase => exact (hyes hphase ⟨id, id⟩).elim
  | unwind hphase | raises _ hphase => exact absurd hphase hbefore

/-- The loop is left at `a`. What was put into the accept queue by then is passed to
`_handle_one`, all of it and in order, exactly if nothing was left behind; and when
`serve_forever` returns, each call is completed, or was cancelled after the drain timeout. -/
theorem graceful_stop {n : ℕ} {as bs : List Action} {a : Action} {t t' s : Serving}
    (hrun : Machine.run Serving.step (init n) as = some t) (hs : t.step a = some t')
    (hbefore : ¬t.phase.Left) (hleft : t'.phase.Left)
    (hrest : Machine.run Serving.step t' bs = some s) :
    (s.handled = t'.offered ↔ t.leftBehind a = []) ∧
      (s.phase = .returned → ∀ i < s.handled.length,
        s.calls i = .completed ∨ s.calls i = .cancelled ∧ s.timedOut = true) := by
  have haccounted : t.Accounted :=
    Machine.run_induction (fun _ s => s.Accounted) (accounted_init n) (fun _ h hs => h.step hs) hrun
  have hdrained : t.Drained :=
    Machine.run_induction (fun _ s => s.Drained) (drained_init n) (fun _ h hs => h.step hs) hrun
  obtain ⟨hend, hhandled⟩ : s.phase.Left ∧ s.handled = t'.handled :=
    Machine.run_induction (fun _ s => s.phase.Left ∧ s.handled = t'.handled) ⟨hleft, rfl⟩
      (fun _ h hs => ⟨(left_step h.1 hs).1, (left_step h.1 hs).2.trans h.2⟩) hrest
  have hsdrained : s.Drained :=
    Machine.run_induction (fun _ s => s.Drained) (hdrained.step hs) (fun _ h hs => h.step hs) hrest
  refine ⟨?_, fun hreturned i hi => ?_⟩
  · rw [hhandled, haccounted.leaving hs hbefore hleft]
    exact List.self_eq_append_right
  · have hall : s.Covered [] := hsdrained.awaited (by rw [hreturned]; rfl)
    have hdone := (hall i hi).resolve_right (by simp)
    cases hcall : s.calls i with
    | completed => exact Or.inl rfl
    | cancelled =>
      have hwas := hsdrained.cancelled hi (Or.inr hcall)
      rw [hreturned] at hwas
      exact Or.inr ⟨rfl, hwas.resolve_right id⟩
    | running | cancelling =>
      rw [hcall] at hdone
      cases hdone

end

/-- The connection `connId` is announced on port 80. -/
def announces (connId : UInt8) : Action :=
  .conn (.streams (.endpoint (.message cmdAccept [0, 80, 0, 0, 0, connId, 0, 0, 0, 0, 0, 9, 0, 1])))

/-- The accept task gets a connection, and the stop task is cancelled. -/
def serves : List Action :=
  [.acceptTask, .resume, .stopTask]

/-- Stop comes while both tasks wait. -/
def stops : List Action :=
  [.acceptTask, .stopTask, .requestStop, .stopTask, .resume, .acceptTask]

/-- The call ends and the connection is closed. -/
def drains : List Action :=
  [.callEnds 0 false, .discard 0, .resume, .conn .closeResume, .resume]

set_option maxRecDepth 4000 in
/-- One connection, and then the stop. -/
theorem graceful_stop_one :
    ∃ t t' s, Machine.run Serving.step (init 0) (listens ++ [announces 7] ++ serves ++ [.resume] ++
        stops) = some t ∧ t.step .resume = some t' ∧ Machine.run Serving.step t' drains = some s ∧
      s.phase = .returned ∧ s.handled = t'.offered ∧ s.handled = [⟨80, 7, ⟨0, 9⟩, 1⟩] ∧
        s.calls 0 = .completed := by
  obtain ⟨t, t', s, ht, hs, hrest, hbefore, hleft, hbehind, hreturned, hhandled, htimedOut⟩ :
      ∃ t t' s, Machine.run Serving.step (init 0) (listens ++ [announces 7] ++ serves ++
          [.resume] ++ stops) = some t ∧ t.step .resume = some t' ∧
        Machine.run Serving.step t' drains = some s ∧ ¬t.phase.Left ∧ t'.phase.Left ∧
          t.leftBehind .resume = [] ∧ s.phase = .returned ∧
            s.handled = [⟨80, 7, ⟨0, 9⟩, 1⟩] ∧ s.timedOut = false :=
    ⟨_, _, _, rfl, rfl, rfl, by decide, by decide, rfl, rfl, rfl, rfl⟩
  obtain ⟨hiff, hover⟩ := graceful_stop ht hs hbefore hleft hrest
  refine ⟨t, t', s, ht, hs, hrest, hreturned, hiff.2 hbehind, hhandled, ?_⟩
  refine (hover hreturned 0 (by rw [hhandled]; decide)).resolve_right fun h => ?_
  cases htimedOut.symm.trans h.2

set_option maxRecDepth 4000 in
/-- Two connections stand in the accept queue when the stop comes. The first is taken, and the
other one is lost. -/
theorem backlog_lost :
    ∃ s, Machine.run Serving.step (init 0)
        (listens ++ [announces 7, announces 8, .requestStop] ++ serves ++ [.resume] ++ drains) =
          some s ∧
      s.phase = .returned ∧ s.handled = [⟨80, 7, ⟨0, 9⟩, 1⟩] ∧
        s.offered = [⟨80, 7, ⟨0, 9⟩, 1⟩, ⟨80, 8, ⟨0, 9⟩, 1⟩] :=
  ⟨_, rfl, rfl, rfl, rfl⟩

end Serving

end PilotLanggraph

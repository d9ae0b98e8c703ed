import PilotLanggraph.Lib.Machine
import PilotLanggraph.Registration

/-!
# Periodic tasks

`add_periodic_task` notes a function and its interval, `serve_forever` makes a task of
`_run_periodic` for each, and `_drain_inflight` cancels the tasks and waits for them. A task waits
for `_stopping`, and calls its function each time the interval is over first. A plain function
keeps the whole loop; a coroutine function may go on when it is cancelled.

* `called_every_interval` : when a function is called, what ends its task, and what is still called
  once the worker stops.
-/

namespace PilotLanggraph

/-- Where `_run_periodic` is. -/
inductive PeriodicPhase
  | created
  /-- In `wait_for`, since then. -/
  | waits (since : Secs)
  /-- In `fn`. -/
  | runs
  | ended
  deriving DecidableEq

/-- A task of `_run_periodic`. -/
structure PeriodicTask where
  interval : Secs
  /-- `inspect.iscoroutinefunction(fn)`. -/
  isCoroutine : Bool
  phase : PeriodicPhase
  /-- When `fn` was called, the last call first. -/
  calls : List Secs
  deriving DecidableEq

/-- How `fn` ends. -/
inductive FnEnd
  | returns
  /-- With an `Exception`. -/
  | raises
  | cancelled
  deriving DecidableEq

/-- `_drain_inflight`, up to its `gather` of the periodic tasks and after it. -/
inductive PeriodicDrain
  | serving
  | gathers
  | over
  deriving DecidableEq

/-- The periodic tasks of a worker, with the clock of its loop. -/
structure PeriodicTasks where
  now : Secs
  stopping : Bool
  drain : PeriodicDrain
  tasks : List PeriodicTask
  deriving DecidableEq

namespace PeriodicTasks

/-- What can happen. -/
inductive Action
  | advance (secs : Secs)
  /-- The first turn of a task. -/
  | begins (i : ℕ)
  /-- `wait_for` runs into its timeout, and `fn` is called. -/
  | expires (i : ℕ)
  | ends (i : ℕ) (e : FnEnd)
  | requestStop
  /-- `wait_for` returns. -/
  | wakes (i : ℕ)
  /-- `_drain_inflight` cancels the tasks, -/
  | drain
  /-- and they are all done. -/
  | drained
  deriving DecidableEq

/-- `serve_forever`, when it has made the tasks of `_periodic`. -/
def init (start : Secs) (periodic : List (Secs × Bool)) : PeriodicTasks where
  now := start
  stopping := false
  drain := .serving
  tasks := periodic.map fun (interval, isCoroutine) => ⟨interval, isCoroutine, .created, []⟩

def setTask (s : PeriodicTasks) (i : ℕ) (t : PeriodicTask) : PeriodicTasks :=
  { s with tasks := s.tasks.set i t }

/-- The task is in a plain function, which the loop waits for. -/
def Blocks (t : PeriodicTask) : Prop :=
  t.phase = .runs ∧ t.isCoroutine = false

instance (t : PeriodicTask) : Decidable (Blocks t) :=
  inferInstanceAs (Decidable (_ ∧ _))

/-- `while not self._stopping.is_set()`, and the wait. -/
def again (s : PeriodicTasks) (t : PeriodicTask) : PeriodicTask :=
  { t with phase := if s.stopping then .ended else .waits s.now }

/-- What `cancel()` leads to. In a coroutine function it is one more exception. -/
def cancel (t : PeriodicTask) : PeriodicTask :=
  if t.phase = .runs then t else { t with phase := .ended }

/-- One action, if it can happen. -/
def step (s : PeriodicTasks) : Action → Option PeriodicTasks
  | .advance secs => if 0 ≤ secs then some { s with now := s.now + secs } else none
  | .begins i =>
    match s.tasks[i]? with
    | some t =>
      if t.phase = .created ∧ ∀ u ∈ s.tasks, ¬Blocks u then some (s.setTask i (s.again t)) else none
    | none => none
  | .expires i =>
    match s.tasks[i]? with
    | some t =>
      match t.phase with
      | .waits since =>
        if since + t.interval ≤ s.now ∧ ∀ u ∈ s.tasks, ¬Blocks u then
          some (s.setTask i { t with phase := .runs, calls := s.now :: t.calls })
        else none
      | _ => none
    | none => none
  | .ends i e =>
    match s.tasks[i]? with
    | some t =>
      if t.phase = .runs ∧ (t.isCoroutine → ∀ u ∈ s.tasks, ¬Blocks u) then
        some (s.setTask i (if e = .cancelled then { t with phase := .ended } else s.again t))
      else none
    | none => none
  -- By `fn` too, or from another thread.
  | .requestStop => some { s with stopping := true }
  | .wakes i =>
    match s.tasks[i]? with
    | some t =>
      match t.phase with
      | .waits _ =>
        if s.stopping ∧ ∀ u ∈ s.tasks, ¬Blocks u then
          some (s.setTask i { t with phase := .ended })
        else none
      | _ => none
    | none => none
  | .drain =>
    if s.drain = .serving ∧ ∀ u ∈ s.tasks, ¬Blocks u then
      some { s with drain := .gathers, tasks := s.tasks.map cancel }
    else none
  | .drained =>
    if s.drain = .gathers ∧ ∀ u ∈ s.tasks, u.phase = .ended then some { s with drain := .over }
    else none

section

variable {s s' : PeriodicTasks} {a : Action} {as : List Action} {i : ℕ} {t t' : PeriodicTask}
  {start : Secs} {periodic : List (Secs × Bool)}

/-! ## What a step does -/

/-- What a step may do to a task. -/
inductive TaskStep (s : PeriodicTasks) (a : Action) (i : ℕ) (t : PeriodicTask) :
    PeriodicTask → Prop
  | stays : TaskStep s a i t t
  | again (hstop : s.stopping = false) (hphase : t.phase = .created ∨ t.phase = .runs) :
    TaskStep s a i t { t with phase := .waits s.now }
  | calls {since : Secs} (hphase : t.phase = .waits since) (hdue : since + t.interval ≤ s.now) :
    TaskStep s a i t { t with phase := .runs, calls := s.now :: t.calls }
  | ends (h : s.stopping ∨ a = .drain ∨ a = .ends i .cancelled) :
    TaskStep s a i t { t with phase := .ended }

/-- The step takes the state to the other one, task by task. -/
structure Steps (s : PeriodicTasks) (a : Action) (s' : PeriodicTasks) : Prop where
  now : s.now ≤ s'.now
  stopping : s'.stopping ↔ s.stopping ∨ a = .requestStop
  drained : s'.drain = .over → s.drain = .over ∨ ∀ u ∈ s'.tasks, u.phase = .ended
  task : ∀ {i t'}, s'.tasks[i]? = some t' → ∃ t, s.tasks[i]? = some t ∧ TaskStep s a i t t'

theorem getElem?_setTask {u : PeriodicTask} {j : ℕ}
    (hj : (s.setTask i u).tasks[j]? = some t') :
    j = i ∧ t' = u ∨ s.tasks[j]? = some t' := by
  rw [setTask, List.getElem?_set] at hj
  split_ifs at hj with hij hlt
  · exact Or.inl ⟨hij.symm, (Option.some.inj hj).symm⟩
  · exact Or.inr hj

/-- A step of one task. -/
theorem Steps.of_setTask {u : PeriodicTask} (hi : s.tasks[i]? = some t) (hu : TaskStep s a i t u)
    (ha : a ≠ .requestStop) : Steps s a (s.setTask i u) where
  now := le_rfl
  stopping := (or_iff_left ha).symm
  drained h := Or.inl h
  task {j t'} hj := by
    rcases getElem?_setTask hj with ⟨rfl, rfl⟩ | hj
    · exact ⟨t, hi, hu⟩
    · exact ⟨t', hj, .stays⟩

theorem taskStep_again (h : t.phase = .created ∨ t.phase = .runs) :
    TaskStep s a i t (s.again t) := by
  unfold again
  split_ifs with hstop
  · exact .ends (Or.inl hstop)
  · exact .again (Bool.eq_false_iff.2 hstop) h

theorem step_steps (h : step s a = some s') : Steps s a s' := by
  cases a with
  | advance secs =>
    obtain ⟨hsecs, ⟨⟩⟩ := Option.ite_none_right_eq_some.1 h
    exact ⟨le_add_of_nonneg_right hsecs, by simp, Or.inl, fun ht => ⟨_, ht, .stays⟩⟩
  | begins i =>
    simp only [step] at h
    split at h
    · rename_i t ht
      obtain ⟨⟨hphase, -⟩, ⟨⟩⟩ := Option.ite_none_right_eq_some.1 h
      exact .of_setTask ht (taskStep_again (Or.inl hphase)) (by simp)
    · cases h
  | expires i =>
    simp only [step] at h
    split at h
    · rename_i t ht
      split at h
      · rename_i since hphase
        obtain ⟨⟨hdue, -⟩, ⟨⟩⟩ := Option.ite_none_right_eq_some.1 h
        exact .of_setTask ht (.calls hphase hdue) (by simp)
      · cases h
    · cases h
  | ends i e =>
    simp only [step] at h
    split at h
    · rename_i t ht
      obtain ⟨⟨hphase, -⟩, ⟨⟩⟩ := Option.ite_none_right_eq_some.1 h
      refine .of_setTask ht ?_ (by simp)
      split_ifs with he
      · exact .ends (Or.inr (Or.inr (he ▸ rfl)))
      · exact taskStep_again (Or.inr hphase)
    · cases h
  | requestStop =>
    obtain rfl := Option.some.inj h
    exact ⟨le_rfl, by simp, Or.inl, fun ht => ⟨_, ht, .stays⟩⟩
  | wakes i =>
    simp only [step] at h
    split at h
    · rename_i t ht
      split at h
      · obtain ⟨⟨hstop, -⟩, ⟨⟩⟩ := Option.ite_none_right_eq_some.1 h
        exact .of_setTask ht (.ends (Or.inl hstop)) (by simp)
      · cases h
    · cases h
  | drain =>
    obtain ⟨-, ⟨⟩⟩ := Option.ite_none_right_eq_some.1 h
    refine ⟨le_rfl, by simp, (nomatch ·), fun {i t'} ht => ?_⟩
    rw [List.getElem?_map] at ht
    obtain ⟨u, hu, rfl⟩ := Option.map_eq_some_iff.1 ht
    refine ⟨u, hu, ?_⟩
    unfold cancel
    split_ifs
    · exact .stays
    · exact .ends (Or.inr (Or.inl rfl))
  | drained =>
    obtain ⟨⟨-, hall⟩, ⟨⟩⟩ := Option.ite_none_right_eq_some.1 h
    exact ⟨le_rfl, by simp, fun _ => Or.inr hall, fun ht => ⟨_, ht, .stays⟩⟩

/-! ## Runs -/

/-- What the calls of a function were, in a worker that serves since `start`. -/
structure Timed (start : Secs) (s : PeriodicTasks) (t : PeriodicTask) : Prop where
  spaced : (t.calls ++ [start]).IsChain fun later earlier => earlier + t.interval ≤ later
  before : t.calls.headD start ≤ s.now
  waiting : ∀ {since}, t.phase = .waits since → t.calls.headD start ≤ since

/-- What ends a task. -/
def Ended (as : List Action) (i : ℕ) : Prop :=
  .requestStop ∈ as ∨ .drain ∈ as ∨ .ends i .cancelled ∈ as

/-- What is known of a state after some actions. -/
structure Known (start : Secs) (periodic : List (Secs × Bool)) (as : List Action)
    (s : PeriodicTasks) : Prop where
  stopping : s.stopping → .requestStop ∈ as
  drained : s.drain = .over → ∀ {i : ℕ} {t : PeriodicTask}, s.tasks[i]? = some t → t.phase = .ended
  registered : ∀ {i : ℕ} {t : PeriodicTask}, s.tasks[i]? = some t →
    periodic[i]? = some (t.interval, t.isCoroutine)
  timed : ∀ {i : ℕ} {t : PeriodicTask}, s.tasks[i]? = some t → Timed start s t
  ended : ∀ {i : ℕ} {t : PeriodicTask}, s.tasks[i]? = some t → t.phase = .ended → Ended as i

theorem isChain_cons_append {R : Secs → Secs → Prop} {c : Secs} {l : List Secs}
    (hl : (l ++ [start]).IsChain R) (hc : R c (l.headD start)) :
    (c :: l ++ [start]).IsChain R := by
  cases l with
  | nil => exact List.isChain_cons_cons.2 ⟨hc, .singleton _⟩
  | cons d l => exact List.isChain_cons_cons.2 ⟨hc, hl⟩

theorem Timed.step (h : Timed start s t) (hnow : s.now ≤ s'.now) (ht : TaskStep s a i t t') :
    Timed start s' t' := by
  have hbefore := h.before.trans hnow
  cases ht with
  | stays => exact ⟨h.spaced, hbefore, h.waiting⟩
  | again hstop hphase =>
    refine ⟨h.spaced, hbefore, fun hsince => ?_⟩
    rw [← PeriodicPhase.waits.inj hsince]
    exact h.before
  | calls hphase hdue =>
    -- The wait began after the last call.
    have hlast := (add_le_add_left (h.waiting hphase) t.interval).trans hdue
    exact ⟨isChain_cons_append h.spaced hlast, hnow, (nomatch ·)⟩
  | ends hends => exact ⟨h.spaced, hbefore, (nomatch ·)⟩

/-- A task that has ended does nothing more. -/
theorem TaskStep.of_ended (h : TaskStep s a i t t') (hended : t.phase = .ended) : t' = t := by
  cases h with
  | stays => rfl
  | again hstop hphase => rcases hphase with hphase | hphase <;> simp [hended] at hphase
  | calls hphase hdue => simp [hended] at hphase
  | ends hends => rw [← hended]

theorem TaskStep.registered (h : TaskStep s a i t t') :
    t'.interval = t.interval ∧ t'.isCoroutine = t.isCoroutine := by
  cases h <;> exact ⟨rfl, rfl⟩

/-- How a task ends. -/
theorem TaskStep.ended (h : TaskStep s a i t t') (hended : t'.phase = .ended) :
    t.phase = .ended ∨ s.stopping ∨ a = .drain ∨ a = .ends i .cancelled := by
  cases h with
  | stays => exact Or.inl hended
  | again hstop hphase => cases hended
  | calls hphase hdue => cases hended
  | ends hends => exact Or.inr hends

theorem getElem?_init (ht : (init start periodic).tasks[i]? = some t) :
    ∃ p, periodic[i]? = some p ∧ t = ⟨p.1, p.2, .created, []⟩ := by
  rw [init, List.getElem?_map] at ht
  obtain ⟨p, hp, rfl⟩ := Option.map_eq_some_iff.1 ht
  exact ⟨p, hp, rfl⟩

theorem Known.init : Known start periodic [] (init start periodic) := by
  refine ⟨(nomatch ·), (nomatch ·), fun ht => ?_, fun ht => ?_, fun ht hended => ?_⟩
  · obtain ⟨p, hp, rfl⟩ := getElem?_init ht
    exact hp
  · obtain ⟨p, hp, rfl⟩ := getElem?_init ht
    exact ⟨.singleton _, le_rfl, (nomatch ·)⟩
  · obtain ⟨p, hp, rfl⟩ := getElem?_init ht
    cases hended

theorem Known.step (h : Known start periodic as s) (hstep : step s a = some s') :
    Known start periodic (as ++ [a]) s' := by
  have hsteps := step_steps hstep
  refine ⟨fun hstop => ?_, fun hdrained {i t'} ht' => ?_, fun {i t'} ht' => ?_,
    fun {i t'} ht' => ?_, fun {i t'} ht' hended => ?_⟩
  · rcases hsteps.stopping.1 hstop with hstop | rfl
    · exact List.mem_append_left _ (h.stopping hstop)
    · simp
  · rcases hsteps.drained hdrained with hdrained | hall
    · obtain ⟨t, ht, htask⟩ := hsteps.task ht'
      have hended := h.drained hdrained ht
      rwa [htask.of_ended hended]
    · exact hall t' (List.mem_of_getElem? ht')
  · obtain ⟨t, ht, htask⟩ := hsteps.task ht'
    rw [htask.registered.1, htask.registered.2]
    exact h.registered ht
  · obtain ⟨t, ht, htask⟩ := hsteps.task ht'
    exact (h.timed ht).step hsteps.now htask
  · obtain ⟨t, ht, htask⟩ := hsteps.task ht'
    rcases htask.ended hended with hended | hstop | rfl | rfl
    · exact (h.ended ht hended).imp (List.mem_append_left _)
        (Or.imp (List.mem_append_left _) (List.mem_append_left _))
    · exact Or.inl (List.mem_append_left _ (h.stopping hstop))
    · exact Or.inr (Or.inl (by simp))
    · exact Or.inr (Or.inr (by simp))

theorem known_run (hrun : Machine.run step (init start periodic) as = some s) :
    Known start periodic as s :=
  Machine.run_induction (Known start periodic) Known.init (fun _ h hstep => h.step hstep) hrun

/-- The calls that a task may still make when the worker stops. -/
def left (t : PeriodicTask) : ℕ :=
  match t.phase with
  | .waits _ => 1
  | _ => 0

theorem TaskStep.calls_le (h : TaskStep s a i t t') (hstop : s.stopping) :
    t'.calls.length + left t' ≤ t.calls.length + left t := by
  cases h with
  | stays => exact le_rfl
  | again hrunning hphase => simp [hrunning] at hstop
  | calls hphase hdue => simp [left, hphase]
  | ends hends => simp [left]

/-- Once the worker stops, a function is called at most for the interval that its task waits for. -/
theorem calls_le_of_stopping (ht : s.tasks[i]? = some t) (hstop : s.stopping) {bs : List Action}
    (hrun : Machine.run step s bs = some s') (ht' : s'.tasks[i]? = some t') :
    t'.calls.length + left t' ≤ t.calls.length + left t := by
  have hkept : s'.stopping ∧ ∀ u, s'.tasks[i]? = some u →
      u.calls.length + left u ≤ t.calls.length + left t := by
    refine Machine.run_induction (fun _ s' => s'.stopping ∧ ∀ u, s'.tasks[i]? = some u →
      u.calls.length + left u ≤ t.calls.length + left t) ⟨hstop, fun u hu => ?_⟩
      (fun _ h hstep => ?_) hrun
    · rw [Option.some.inj (hu.symm.trans ht)]
    · have hsteps := step_steps hstep
      refine ⟨hsteps.stopping.2 (Or.inl h.1), fun u' hu' => ?_⟩
      obtain ⟨u, hu, htask⟩ := hsteps.task hu'
      exact (htask.calls_le h.1).trans (h.2 u hu)
  exact hkept.2 t' ht'

theorem ended_stays (ht : s.tasks[i]? = some t) (hended : t.phase = .ended) {bs : List Action}
    (hrun : Machine.run step s bs = some s') (ht' : s'.tasks[i]? = some t') : t' = t := by
  have hkept : ∀ u, s'.tasks[i]? = some u → u = t := by
    refine Machine.run_induction (fun _ s' => ∀ u, s'.tasks[i]? = some u → u = t)
      (fun u hu => Option.some.inj (hu.symm.trans ht)) (fun _ h hstep u' hu' => ?_) hrun
    obtain ⟨u, hu, htask⟩ := (step_steps hstep).task hu'
    obtain rfl := h u hu
    exact htask.of_ended hended
  exact hkept t' ht'

/-! ## The next call -/

/-- A task that waits calls its function when nothing else happens. -/
theorem calls_of_waits {since : Secs} (ht : s.tasks[i]? = some t) (hphase : t.phase = .waits since)
    (hfree : ∀ u ∈ s.tasks, ¬Blocks u) :
    ∃ d s' t', Machine.run step s [.advance d, .expires i] = some s' ∧ s'.tasks[i]? = some t' ∧
      t'.calls = s'.now :: t.calls := by
  let d := max 0 (since + t.interval - s.now)
  let s₁ : PeriodicTasks := { s with now := s.now + d }
  let t' : PeriodicTask := { t with phase := .runs, calls := s₁.now :: t.calls }
  have hadvance : step s (.advance d) = some s₁ := if_pos (le_max_left _ _)
  have hdue : since + t.interval ≤ s₁.now := by
    have hle : since + t.interval - s.now ≤ d := le_max_right _ _
    exact sub_le_iff_le_add'.1 hle
  have hcall : step s₁ (.expires i) = some (s₁.setTask i t') := by
    have ht₁ : s₁.tasks[i]? = some t := ht
    simp only [step, ht₁, hphase]
    exact if_pos ⟨hdue, hfree⟩
  refine ⟨d, s₁.setTask i t', t', ?_, ?_, rfl⟩
  · rw [Machine.run_of_step hadvance, Machine.run_of_step hcall, Machine.run]
  · obtain ⟨hi, -⟩ := List.getElem?_eq_some_iff.1 ht
    exact List.getElem?_set_self hi

/-- The loop is free for a task, if no other one blocks it and the task does not. -/
theorem not_blocks (ht : s.tasks[i]? = some t)
    (hfree : ∀ j u, s.tasks[j]? = some u → Blocks u → j = i) (hself : ¬Blocks t) :
    ∀ u ∈ s.tasks, ¬Blocks u := by
  intro u hu hblocks
  obtain ⟨j, hj⟩ := List.mem_iff_getElem?.1 hu
  obtain rfl := hfree j u hj hblocks
  rw [Option.some.inj (hj.symm.trans ht)] at hblocks
  exact hself hblocks

/-- A step after which the task waits again, and then the call. -/
theorem calls_of_again (ht : s.tasks[i]? = some t) (hstop : s.stopping = false)
    (hfree : ∀ j u, s.tasks[j]? = some u → Blocks u → j = i)
    (hstep : step s a = some (s.setTask i (s.again t))) :
    ∃ d s' t', Machine.run step s [a, .advance d, .expires i] = some s' ∧
      s'.tasks[i]? = some t' ∧ t'.calls = s'.now :: t.calls := by
  obtain ⟨hi, -⟩ := List.getElem?_eq_some_iff.1 ht
  have hagain : s.again t = { t with phase := .waits s.now } := by
    simp [again, hstop]
  rw [hagain] at hstep
  have hwaiting : (s.setTask i { t with phase := .waits s.now }).tasks[i]? =
      some { t with phase := .waits s.now } := List.getElem?_set_self hi
  have hnone : ∀ u ∈ (s.setTask i { t with phase := .waits s.now }).tasks, ¬Blocks u := by
    refine not_blocks hwaiting (fun j u hj hblocks => ?_) fun hblocks => by cases hblocks.1
    rcases getElem?_setTask hj with ⟨hji, -⟩ | hj
    · exact hji
    · exact hfree j u hj hblocks
  obtain ⟨d, s', t', hrun, ht', hcalls⟩ := calls_of_waits hwaiting rfl hnone
  exact ⟨d, s', t', (Machine.run_of_step hstep _).trans hrun, ht', hcalls⟩

/-- Unless the worker stops, the function of a task that has not ended is called again, also when it
raises. -/
theorem calls_again (ht : s.tasks[i]? = some t) (hended : t.phase ≠ .ended)
    (hstop : s.stopping = false)
    (hfree : ∀ j u, s.tasks[j]? = some u → Blocks u → j = i) :
    ∃ bs s' t', Machine.run step s bs = some s' ∧ .ends i .returns ∉ bs ∧
      s'.tasks[i]? = some t' ∧ t'.calls = s'.now :: t.calls := by
  cases hphase : t.phase with
  | created =>
    have hself : ¬Blocks t := fun hblocks => by simp [hblocks.1] at hphase
    have hstep : step s (.begins i) = some (s.setTask i (s.again t)) := by
      simp only [step, ht]
      exact if_pos ⟨hphase, not_blocks ht hfree hself⟩
    obtain ⟨d, s', t', hrun, ht', hcalls⟩ := calls_of_again ht hstop hfree hstep
    exact ⟨_, s', t', hrun, by simp, ht', hcalls⟩
  | waits since =>
    have hself : ¬Blocks t := fun hblocks => by simp [hblocks.1] at hphase
    obtain ⟨d, s', t', hrun, ht', hcalls⟩ :=
      calls_of_waits ht hphase (not_blocks ht hfree hself)
    exact ⟨_, s', t', hrun, by simp, ht', hcalls⟩
  | runs =>
    have hstep : step s (.ends i .raises) = some (s.setTask i (s.again t)) := by
      simp only [step, ht]
      refine if_pos ⟨hphase, fun hcoroutine => not_blocks ht hfree fun hblocks => ?_⟩
      simp [hblocks.2] at hcoroutine
    obtain ⟨d, s', t', hrun, ht', hcalls⟩ := calls_of_again ht hstop hfree hstep
    exact ⟨_, s', t', hrun, by simp, ht', hcalls⟩
  | ended => exact absurd hphase hended

/-- A function is called first an interval after the worker began to serve, and then at least an
interval after the call before. Only `request_stop`, the drain and a `CancelledError` of the
function end its task, and a task that has ended calls nothing more; after the drain all have. Until
then the function is called again, whatever exceptions it raises, unless a plain function never
ends; once the worker stops, at most for the interval that the task waits for. -/
theorem called_every_interval (hrun : Machine.run step (init start periodic) as = some s)
    (ht : s.tasks[i]? = some t) :
    periodic[i]? = some (t.interval, t.isCoroutine) ∧
    (t.calls ++ [start]).IsChain (fun later earlier => earlier + t.interval ≤ later) ∧
    (t.phase = .ended → Ended as i) ∧ (s.drain = .over → t.phase = .ended) ∧
    (∀ bs s' t', Machine.run step s bs = some s' → s'.tasks[i]? = some t' →
      (t.phase = .ended → t' = t) ∧
      (s.stopping → t'.calls.length + left t' ≤ t.calls.length + left t)) ∧
    (t.phase ≠ .ended → s.stopping = false →
      (∀ j u, s.tasks[j]? = some u → Blocks u → j = i) →
      ∃ bs s' t', Machine.run step s bs = some s' ∧ .ends i .returns ∉ bs ∧
        s'.tasks[i]? = some t' ∧ t'.calls = s'.now :: t.calls) := by
  have hknown := known_run hrun
  exact ⟨hknown.registered ht, (hknown.timed ht).spaced, hknown.ended ht,
    fun hdrained => hknown.drained hdrained ht,
    fun bs s' t' hbs ht' => ⟨fun hended => ended_stays ht hended hbs ht',
      fun hstop => calls_le_of_stopping ht hstop hbs ht'⟩,
    calls_again ht⟩

/-- A function that raised at its second call is called a third time. -/
theorem called_every_interval_raises : ∃ s t, Machine.run step (init 0 [(1, true)])
      [.begins 0, .advance 1, .expires 0, .ends 0 .returns, .advance 2, .expires 0,
        .ends 0 .raises] = some s ∧ s.tasks[0]? = some t ∧ t.calls = [3, 1] ∧
    ∃ bs s' t', Machine.run step s bs = some s' ∧ .ends 0 .returns ∉ bs ∧
      s'.tasks[0]? = some t' ∧ t'.calls = s'.now :: t.calls := by
  have hrun : Machine.run step (init 0 [(1, true)])
      [.begins 0, .advance 1, .expires 0, .ends 0 .returns, .advance 2, .expires 0,
        .ends 0 .raises] = some ⟨3, false, .serving, [⟨1, true, .waits 3, [3, 1]⟩]⟩ := by
    decide +kernel
  have ht : (PeriodicTasks.mk 3 false .serving [⟨1, true, .waits 3, [3, 1]⟩]).tasks[0]? =
      some ⟨1, true, .waits 3, [3, 1]⟩ := rfl
  obtain ⟨-, -, -, -, -, hagain⟩ := called_every_interval hrun ht
  refine ⟨_, _, hrun, ht, rfl, hagain (by decide) rfl fun j u hu hblocks => ?_⟩
  have hmem := List.mem_singleton.1 (List.mem_of_getElem? hu)
  rw [hmem] at hblocks
  cases hblocks.1

end

end PeriodicTasks

end PilotLanggraph

import Mathlib.Logic.Function.Basic
import PilotLanggraph.Lib.Machine

/-!
# The loop behind the synchronous calls

`_run_sync` gives its coroutine to an event loop in a thread of its own, which the first such call
starts, and waits for the result. `aclose_sync` runs `aclose` there like any other coroutine, takes
the loop out of the registry and stops it. Both can be called from any thread.

A loop is numbered in the order in which they are made. Only the two blocks under `_sync_lock` are
atomic; between any other two steps another thread may run.

* `sync_calls_wait` : whose loop goes on, whose does not, and which loops nobody stops.
-/

namespace PilotLanggraph

/-- The thread of a loop. -/
inductive SyncLoopState
  /-- `run_forever` has not begun. -/
  | started
  | running
  /-- `stop` is scheduled, so this is the last turn of the loop. -/
  | stopping
  | stopped
  deriving DecidableEq

/-- A call of `_run_sync` or of `aclose_sync`, -/
inductive SyncCall
  | runSync
  | acloseSync
  deriving DecidableEq

/-- and where it is. -/
inductive SyncPhase
  | entered
  /-- `sync_loop()` has returned the loop. -/
  | got (loop : ℕ)
  /-- In `fut.result()`, with the coroutine on the loop. -/
  | waits (loop : ℕ)
  /-- `aclose_sync`, with `aclose` done, -/
  | closed
  /-- with the loop that it has taken, -/
  | took (loop : Option ℕ)
  /-- and in the `join` of its thread. -/
  | joins (loop : Option ℕ)
  | returned
  | raised
  deriving DecidableEq

/-- The background loops of the registry, and the calls that use them. -/
structure SyncLoops where
  /-- How many loops were made. -/
  made : ℕ
  loops : ℕ → SyncLoopState
  /-- `_registry._sync_loop`, whose thread is `_registry._sync_thread`. -/
  current : Option ℕ
  calls : ℕ → Option (SyncCall × SyncPhase)

namespace SyncLoops

/-- What can happen. -/
inductive Action
  | call (i : ℕ) (c : SyncCall)
  /-- `sync_loop()`. -/
  | getLoop (i : ℕ)
  /-- `run_coroutine_threadsafe`. -/
  | submit (i : ℕ)
  /-- The coroutine of the call ends, and returns or raises. -/
  | finish (i : ℕ) (returns : Bool)
  /-- `aclose_sync` takes the loop, -/
  | take (i : ℕ)
  /-- stops it, -/
  | stop (i : ℕ)
  /-- and no longer waits for its thread. -/
  | joined (i : ℕ)
  /-- `run_forever` begins, -/
  | begins (loop : ℕ)
  /-- and ends. -/
  | halts (loop : ℕ)

/-- Before the first call. -/
def init : SyncLoops where
  made := 0
  loops _ := .stopped
  current := none
  calls _ := none

def setPhase (s : SyncLoops) (i : ℕ) (c : SyncCall) (phase : SyncPhase) : SyncLoops :=
  { s with calls := Function.update s.calls i (some (c, phase)) }

def setLoop (s : SyncLoops) (loop : ℕ) (x : SyncLoopState) : SyncLoops :=
  { s with loops := Function.update s.loops loop x }

/-- `sync_loop`, for a call. -/
def syncLoop (s : SyncLoops) (i : ℕ) (c : SyncCall) : SyncLoops :=
  match s.current with
  | some loop => s.setPhase i c (.got loop)
  | none =>
    { (s.setLoop s.made .started).setPhase i c (.got s.made) with
      made := s.made + 1
      current := some s.made }

/-- What follows `fut.result()`. -/
def afterResult : SyncCall → Bool → SyncPhase
  | _, false => .raised
  | .runSync, true => .returned
  | .acloseSync, true => .closed

/-- `sync_loop.stop`, if the loop is running. -/
def stopLoop (s : SyncLoops) (loop : ℕ) : SyncLoops :=
  if s.loops loop = .running then s.setLoop loop .stopping else s

/-- One action, if it can happen. -/
def step (s : SyncLoops) : Action → Option SyncLoops
  | .call i c =>
    match s.calls i with
    | none => some (s.setPhase i c .entered)
    | some _ => none
  | .getLoop i =>
    match s.calls i with
    | some (c, .entered) => some (s.syncLoop i c)
    | _ => none
  | .submit i =>
    match s.calls i with
    | some (c, .got loop) => some (s.setPhase i c (.waits loop))
    | _ => none
  | .finish i returns =>
    match s.calls i with
    | some (c, .waits loop) =>
      if s.loops loop = .running ∨ s.loops loop = .stopping then
        some (s.setPhase i c (afterResult c returns))
      else none
    | _ => none
  | .take i =>
    match s.calls i with
    | some (c, .closed) => some { s.setPhase i c (.took s.current) with current := none }
    | _ => none
  | .stop i =>
    match s.calls i with
    | some (c, .took none) => some (s.setPhase i c (.joins none))
    | some (c, .took (some loop)) => some ((s.stopLoop loop).setPhase i c (.joins loop))
    | _ => none
  | .joined i =>
    match s.calls i with
    | some (c, .joins _) => some (s.setPhase i c .returned)
    | _ => none
  | .begins loop =>
    if loop < s.made ∧ s.loops loop = .started then some (s.setLoop loop .running) else none
  | .halts loop =>
    if s.loops loop = .stopping then some (s.setLoop loop .stopped) else none

/-- What an action does where it can be taken. -/
inductive Step (s : SyncLoops) : Action → SyncLoops → Prop
  | call {i : ℕ} {c : SyncCall} (hnone : s.calls i = none) :
    Step s (.call i c) (s.setPhase i c .entered)
  /-- There is a loop, -/
  | found {i loop : ℕ} {c : SyncCall} (hcall : s.calls i = some (c, .entered))
    (hcurrent : s.current = some loop) : Step s (.getLoop i) (s.setPhase i c (.got loop))
  /-- or one is made. -/
  | made {i : ℕ} {c : SyncCall} (hcall : s.calls i = some (c, .entered))
    (hcurrent : s.current = none) :
    Step s (.getLoop i) { (s.setLoop s.made .started).setPhase i c (.got s.made) with
      made := s.made + 1
      current := some s.made }
  | submit {i loop : ℕ} {c : SyncCall} (hcall : s.calls i = some (c, .got loop)) :
    Step s (.submit i) (s.setPhase i c (.waits loop))
  | finish {i loop : ℕ} {c : SyncCall} {returns : Bool}
    (hcall : s.calls i = some (c, .waits loop))
    (hloop : s.loops loop = .running ∨ s.loops loop = .stopping) :
    Step s (.finish i returns) (s.setPhase i c (afterResult c returns))
  | take {i : ℕ} {c : SyncCall} (hcall : s.calls i = some (c, .closed)) :
    Step s (.take i) { s.setPhase i c (.took s.current) with current := none }
  /-- The loop that was taken is stopped, -/
  | stop {i loop : ℕ} {c : SyncCall} (hcall : s.calls i = some (c, .took (some loop)))
    (hloop : s.loops loop = .running) :
    Step s (.stop i) ((s.setLoop loop .stopping).setPhase i c (.joins loop))
  /-- unless there is none, or it is not running. -/
  | passed {i : ℕ} {c : SyncCall} {loop : Option ℕ} (hcall : s.calls i = some (c, .took loop))
    (hloop : ∀ l, loop = some l → s.loops l ≠ .running) :
    Step s (.stop i) (s.setPhase i c (.joins loop))
  | joined {i : ℕ} {c : SyncCall} {loop : Option ℕ} (hcall : s.calls i = some (c, .joins loop)) :
    Step s (.joined i) (s.setPhase i c .returned)
  | begins {loop : ℕ} (hmade : loop < s.made) (hloop : s.loops loop = .started) :
    Step s (.begins loop) (s.setLoop loop .running)
  | halts {loop : ℕ} (hloop : s.loops loop = .stopping) :
    Step s (.halts loop) (s.setLoop loop .stopped)

section

variable {s s' : SyncLoops} {a : Action}

theorem step_cases (h : s.step a = some s') : s.Step a s' := by
  cases a with
  | call i c =>
    simp only [step] at h
    split at h
    · obtain rfl := Option.some.inj h
      exact .call ‹_›
    · cases h
  | getLoop i =>
    simp only [step] at h
    split at h
    · obtain rfl := Option.some.inj h
      unfold syncLoop
      split
      · exact .found ‹_› ‹_›
      · exact .made ‹_› ‹_›
    · cases h
  | submit i =>
    simp only [step] at h
    split at h
    · obtain rfl := Option.some.inj h
      exact .submit ‹_›
    · cases h
  | finish i returns =>
    simp only [step] at h
    split at h
    · obtain ⟨hloop, ⟨⟩⟩ := Option.ite_none_right_eq_some.1 h
      exact .finish ‹_› hloop
    · cases h
  | take i =>
    simp only [step] at h
    split at h
    · obtain rfl := Option.some.inj h
      exact .take ‹_›
    · cases h
  | stop i =>
    simp only [step] at h
    split at h
    · obtain rfl := Option.some.inj h
      exact .passed ‹_› (by simp)
    · obtain rfl := Option.some.inj h
      unfold stopLoop
      split_ifs with hloop
      · exact .stop ‹_› hloop
      · refine .passed ‹_› fun l hl => ?_
        obtain rfl := Option.some.inj hl
        exact hloop
    · cases h
  | joined i =>
    simp only [step] at h
    split at h
    · obtain rfl := Option.some.inj h
      exact .joined ‹_›
    · cases h
  | begins loop =>
    obtain ⟨⟨hmade, hloop⟩, ⟨⟩⟩ := Option.ite_none_right_eq_some.1 h
    exact .begins hmade hloop
  | halts loop =>
    obtain ⟨hloop, ⟨⟩⟩ := Option.ite_none_right_eq_some.1 h
    exact .halts hloop

/-! ## Which loop is whose -/

/-- The loop is stopped, or about to. -/
def Down (s : SyncLoops) (loop : ℕ) : Prop :=
  s.loops loop = .stopping ∨ s.loops loop = .stopped

/-- The call has the loop, and has not heard from its coroutine. -/
def Uses (s : SyncLoops) (i loop : ℕ) : Prop :=
  ∃ c, s.calls i = some (c, .got loop) ∨ s.calls i = some (c, .waits loop)

/-- The loop was taken out of the registry by the call. -/
def Taken (s : SyncLoops) (i loop : ℕ) : Prop :=
  ∃ c, s.calls i = some (c, .took (some loop))

/-- The loop of the registry is not stopped, and is not one that was taken out. -/
structure Sound (s : SyncLoops) : Prop where
  current : ∀ {loop}, s.current = some loop → loop < s.made ∧ ¬s.Down loop
  taken : ∀ {i loop}, s.Taken i loop → loop < s.made ∧ s.current ≠ some loop
  used : ∀ {i loop}, s.Uses i loop → loop < s.made

theorem sound_init : init.Sound where
  current h := by cases h
  taken h := by
    obtain ⟨c, h⟩ := h
    cases h
  used h := by
    obtain ⟨c, h | h⟩ := h <;> cases h

theorem calls_setPhase (i : ℕ) (c : SyncCall) (phase : SyncPhase) (j : ℕ) :
    (s.setPhase i c phase).calls j = if j = i then some (c, phase) else s.calls j :=
  Function.update_apply ..

theorem loops_setLoop (loop : ℕ) (x : SyncLoopState) (l : ℕ) :
    (s.setLoop loop x).loops l = if l = loop then x else s.loops l :=
  Function.update_apply ..

theorem down_setLoop (loop : ℕ) (x : SyncLoopState) (l : ℕ) : (s.setLoop loop x).Down l ↔
    if l = loop then x = .stopping ∨ x = .stopped else s.Down l := by
  simp only [Down, loops_setLoop]
  split_ifs <;> rfl

/-- The calls after a step of one of them. -/
theorem calls_cases {i j : ℕ} {c d : SyncCall} {phase q : SyncPhase}
    (hcalls : s'.calls = (s.setPhase i c phase).calls) (h : s'.calls j = some (d, q)) :
    (j = i ∧ q = phase) ∨ s.calls j = some (d, q) := by
  rw [hcalls, calls_setPhase] at h
  split_ifs at h with hji
  · exact Or.inl ⟨hji, (Prod.mk.inj (Option.some.inj h)).2.symm⟩
  · exact Or.inr h

theorem taken_cases {i j loop : ℕ} {c : SyncCall} {phase : SyncPhase}
    (hcalls : s'.calls = (s.setPhase i c phase).calls) (h : s'.Taken j loop) :
    (j = i ∧ phase = .took (some loop)) ∨ s.Taken j loop := by
  obtain ⟨d, h⟩ := h
  exact (calls_cases hcalls h).imp (fun ⟨hj, hq⟩ => ⟨hj, hq.symm⟩) fun h => ⟨d, h⟩

theorem uses_cases {i j loop : ℕ} {c : SyncCall} {phase : SyncPhase}
    (hcalls : s'.calls = (s.setPhase i c phase).calls) (h : s'.Uses j loop) :
    (j = i ∧ (phase = .got loop ∨ phase = .waits loop)) ∨ s.Uses j loop := by
  obtain ⟨d, h | h⟩ := h
  · exact (calls_cases hcalls h).imp (fun ⟨hj, hq⟩ => ⟨hj, Or.inl hq.symm⟩) fun h => ⟨d, Or.inl h⟩
  · exact (calls_cases hcalls h).imp (fun ⟨hj, hq⟩ => ⟨hj, Or.inr hq.symm⟩) fun h => ⟨d, Or.inr h⟩

/-- A call goes on, and takes no loop. -/
theorem Sound.goesOn {i : ℕ} {c : SyncCall} {phase : SyncPhase} (h : s.Sound)
    (htook : ∀ loop, phase ≠ .took (some loop))
    (huses : ∀ loop, phase = .got loop ∨ phase = .waits loop → loop < s.made) :
    (s.setPhase i c phase).Sound where
  current := h.current
  taken htaken := h.taken ((taken_cases rfl htaken).resolve_left fun hq => htook _ hq.2)
  used hu := (uses_cases rfl hu).elim (fun hq => huses _ hq.2) h.used

theorem not_uses_afterResult (c : SyncCall) (returns : Bool) (loop : ℕ) :
    ¬(afterResult c returns = .got loop ∨ afterResult c returns = .waits loop) ∧
      afterResult c returns ≠ .took (some loop) := by
  cases c <;> cases returns <;> simp [afterResult]

theorem Sound.step (h : s.Sound) (hs : s.step a = some s') : s'.Sound := by
  cases step_cases hs with
  | call | passed | joined => exact h.goesOn (by simp) (by simp)
  | @found i loop c hcall hcurrent =>
    refine h.goesOn (by simp) fun l hl => ?_
    obtain rfl : loop = l := by simpa using hl
    exact (h.current hcurrent).1
  | @submit i loop c hcall =>
    refine h.goesOn (by simp) fun l hl => ?_
    obtain rfl : loop = l := by simpa using hl
    exact h.used ⟨c, Or.inl hcall⟩
  | @finish i loop c returns =>
    exact h.goesOn (fun l => (not_uses_afterResult c returns l).2)
      fun l hl => absurd hl (not_uses_afterResult c returns l).1
  | @made i c hcall hcurrent =>
    refine ⟨fun {loop} hloop => ?_, fun {j loop} hj => ?_, fun {j loop} hj => ?_⟩
    · obtain rfl := Option.some.inj hloop
      refine ⟨Nat.lt_succ_self _, fun hdown => ?_⟩
      have hdown := (down_setLoop s.made .started s.made).1 hdown
      simp at hdown
    · have hold : s.Taken j loop := (taken_cases rfl hj).resolve_left (by simp)
      have hlt := (h.taken hold).1
      exact ⟨Nat.lt_succ_of_lt hlt, fun heq => Nat.ne_of_gt hlt (Option.some.inj heq)⟩
    · rcases uses_cases rfl hj with ⟨-, hq⟩ | hold
      · obtain rfl : s.made = loop := by simpa using hq
        exact Nat.lt_succ_self _
      · exact Nat.lt_succ_of_lt (h.used hold)
  | @take i c hcall =>
    refine ⟨(fun hloop => by cases hloop), fun {j loop} hj => ⟨?_, by simp⟩,
      fun hj => h.used ((uses_cases rfl hj).resolve_left (by simp))⟩
    rcases taken_cases rfl hj with ⟨-, hq⟩ | hold
    · exact (h.current (SyncPhase.took.inj hq)).1
    · exact (h.taken hold).1
  | @stop i loop c hcall hloop =>
    have hne : s.current ≠ some loop := (h.taken ⟨c, hcall⟩).2
    refine ⟨fun {l} hl => ⟨(h.current hl).1, fun hdown => ?_⟩, fun hj =>
      h.taken ((taken_cases rfl hj).resolve_left (by simp)),
      fun hj => h.used ((uses_cases rfl hj).resolve_left (by simp))⟩
    have hll : l ≠ loop := by
      rintro rfl
      exact hne hl
    exact (h.current hl).2 (by simpa [hll] using (down_setLoop loop .stopping l).1 hdown)
  | @begins loop hmade hloop =>
    refine ⟨fun {l} hl => ⟨(h.current hl).1, fun hdown => ?_⟩, h.taken, h.used⟩
    have hdown := (down_setLoop loop .running l).1 hdown
    split_ifs at hdown with hll
    · simp at hdown
    · exact (h.current hl).2 hdown
  | @halts loop hloop =>
    refine ⟨fun {l} hl => ⟨(h.current hl).1, fun hdown => ?_⟩, h.taken, h.used⟩
    have hdown := (down_setLoop loop .stopped l).1 hdown
    split_ifs at hdown with hll
    · exact (h.current hl).2 (hll ▸ Or.inl hloop)
    · exact (h.current hl).2 hdown

theorem sound_run {as : List Action} (hrun : Machine.run SyncLoops.step init as = some s) :
    s.Sound :=
  Machine.run_induction (fun _ t => t.Sound) sound_init (fun _ h hs => h.step hs) hrun

/-! ## Calls that are overtaken -/

/-- `aclose_sync` took the loop while the call had it. -/
def Overtaken (as : List Action) (i loop : ℕ) : Prop :=
  ∃ pre j post t, as = pre ++ .take j :: post ∧ Machine.run SyncLoops.step init pre = some t ∧
    t.current = some loop ∧ t.Uses i loop

/-- `aclose_sync` found the loop that it took not running yet, and did not stop it. -/
def Missed (as : List Action) (loop : ℕ) : Prop :=
  ∃ pre j post t, as = pre ++ .stop j :: post ∧ Machine.run SyncLoops.step init pre = some t ∧
    t.Taken j loop ∧ t.loops loop = .started

theorem Overtaken.concat {as : List Action} {i loop : ℕ} (h : Overtaken as i loop) (a : Action) :
    Overtaken (as ++ [a]) i loop := by
  obtain ⟨pre, j, post, t, rfl, hrun, hcurrent, huses⟩ := h
  exact ⟨pre, j, post ++ [a], t, by simp, hrun, hcurrent, huses⟩

theorem Missed.concat {as : List Action} {loop : ℕ} (h : Missed as loop) (a : Action) :
    Missed (as ++ [a]) loop := by
  obtain ⟨pre, j, post, t, rfl, hrun, htaken, hloop⟩ := h
  exact ⟨pre, j, post ++ [a], t, by simp, hrun, htaken, hloop⟩

/-- A call comes to have the loop of the registry, and that stays the loop unless `aclose_sync`
takes it. -/
theorem uses_step {i loop : ℕ} (hs : s.step a = some s') (h : s'.Uses i loop) :
    s'.current = some loop ∨ s.Uses i loop ∧ (s.current = some loop → ∃ j, a = .take j) := by
  have hkept : s'.current = s.current → s.Uses i loop → s'.current = some loop ∨
      s.Uses i loop ∧ (s.current = some loop → ∃ j, a = .take j) := by
    intro hsame hold
    by_cases hcurrent : s.current = some loop
    · exact Or.inl (hsame.trans hcurrent)
    · exact Or.inr ⟨hold, fun hc => absurd hc hcurrent⟩
  cases step_cases hs with
  | call | stop | passed | joined =>
    exact hkept rfl ((uses_cases rfl h).resolve_left (by simp))
  | @found j l c hcall hcurrent =>
    rcases uses_cases rfl h with ⟨rfl, hq⟩ | hold
    · exact Or.inl (by simpa [hcurrent, setPhase] using hq)
    · exact hkept rfl hold
  | @made j c hcall hcurrent =>
    rcases uses_cases rfl h with ⟨rfl, hq⟩ | hold
    · exact Or.inl (by simpa using hq)
    · exact Or.inr ⟨hold, fun hc => by cases hcurrent.symm.trans hc⟩
  | @submit j l c hcall =>
    rcases uses_cases rfl h with ⟨rfl, hq⟩ | hold
    · obtain rfl : l = loop := by simpa using hq
      exact hkept rfl ⟨c, Or.inl hcall⟩
    · exact hkept rfl hold
  | @finish j l c returns =>
    exact hkept rfl ((uses_cases rfl h).resolve_left fun hq =>
      (not_uses_afterResult c returns loop).1 hq.2)
  | @take j c hcall =>
    exact Or.inr ⟨(uses_cases rfl h).resolve_left (by simp), fun _ => ⟨j, rfl⟩⟩
  | begins | halts => exact hkept rfl h

/-- The loop is the one of the registry, or was stopped, or will be. -/
def Kept (s : SyncLoops) (loop : ℕ) : Prop :=
  s.current = some loop ∨ s.Down loop ∨ ∃ i, s.Taken i loop

/-- Another call leaves a loop that was taken out with the one that took it. -/
theorem Taken.update {i j loop : ℕ} {c : SyncCall} {phase q : SyncPhase} (h : s.Taken i loop)
    (hcalls : s'.calls = (s.setPhase j c phase).calls) (hcall : s.calls j = some (c, q))
    (hq : q ≠ .took (some loop)) : s'.Taken i loop := by
  obtain ⟨d, h⟩ := h
  have hij : i ≠ j := by
    rintro rfl
    exact hq (Prod.mk.inj (Option.some.inj (hcall.symm.trans h))).2
  exact ⟨d, by rw [hcalls, calls_setPhase, if_neg hij, h]⟩

/-- A loop that is kept is kept by a step, unless it was taken before it ran. -/
theorem Kept.step {loop : ℕ} (h : s.Kept loop) (hmade : loop < s.made) (hs : s.step a = some s') :
    s'.Kept loop ∨ ∃ i, a = .stop i ∧ s.Taken i loop ∧ s.loops loop = .started := by
  rcases h with hcurrent | hdown | ⟨i, htaken⟩
  · cases step_cases hs with
    | @take j c hcall =>
      refine Or.inl (Or.inr (Or.inr ⟨j, c, ?_⟩))
      rw [← hcurrent]
      exact (calls_setPhase ..).trans (if_pos rfl)
    | made _ hnone => cases hnone.symm.trans hcurrent
    | _ => exact Or.inl (Or.inl hcurrent)
  · refine Or.inl (Or.inr (Or.inl ?_))
    cases step_cases hs with
    | made => exact (down_setLoop s.made .started loop).2 (by rwa [if_neg (Nat.ne_of_lt hmade)])
    | @stop _ l => exact (down_setLoop l .stopping loop).2 (by split_ifs <;> simp [hdown])
    | @begins l _ hloop =>
      refine (down_setLoop l .running loop).2 ?_
      split_ifs with hl
      · rcases hdown with hdown | hdown <;> cases hloop.symm.trans (hl ▸ hdown)
      · exact hdown
    | @halts l => exact (down_setLoop l .stopped loop).2 (by split_ifs <;> simp [hdown])
    | _ => exact hdown
  · cases step_cases hs with
    | @call j c hnone =>
      obtain ⟨d, htaken⟩ := htaken
      have hij : i ≠ j := by
        rintro rfl
        cases hnone.symm.trans htaken
      exact Or.inl (Or.inr (Or.inr ⟨i, d, by rw [calls_setPhase, if_neg hij, htaken]⟩))
    | found hcall | made hcall | submit hcall | finish hcall | take hcall | joined hcall =>
      exact Or.inl (Or.inr (Or.inr ⟨i, htaken.update rfl hcall (by simp)⟩))
    | @stop j l c hcall =>
      by_cases hl : loop = l
      · refine Or.inl (Or.inr (Or.inl ((down_setLoop l .stopping loop).2 ?_)))
        rw [if_pos hl]
        exact Or.inl rfl
      · exact Or.inl (Or.inr (Or.inr ⟨i, htaken.update rfl hcall (by simpa using Ne.symm hl)⟩))
    | @passed j c l hcall hloop =>
      by_cases hl : l = some loop
      · subst hl
        cases hstate : s.loops loop with
        | started => exact Or.inr ⟨j, rfl, ⟨c, hcall⟩, rfl⟩
        | running => exact absurd hstate (hloop loop rfl)
        | stopping => exact Or.inl (Or.inr (Or.inl (Or.inl hstate)))
        | stopped => exact Or.inl (Or.inr (Or.inl (Or.inr hstate)))
      · exact Or.inl (Or.inr (Or.inr ⟨i, htaken.update rfl hcall (by simpa using hl)⟩))
    | begins | halts => exact Or.inl (Or.inr (Or.inr ⟨i, htaken⟩))

theorem kept_of_made {loop : ℕ} (hs : s.step a = some s') (hmade : loop < s'.made) :
    loop < s.made ∨ s'.Kept loop := by
  cases step_cases hs with
  | made =>
    rcases Nat.lt_succ_iff_lt_or_eq.1 hmade with hlt | rfl
    · exact Or.inl hlt
    · exact Or.inr (Or.inl rfl)
  | _ => exact Or.inl hmade

theorem kept_or_missed {as : List Action} {loop : ℕ}
    (hrun : Machine.run SyncLoops.step init as = some s) (hmade : loop < s.made) :
    s.Kept loop ∨ Missed as loop := by
  refine Machine.run_induction (fun as t => loop < t.made → t.Kept loop ∨ Missed as loop)
    (fun h => absurd h (Nat.not_lt_zero _)) (fun {as t a t'} ht ih hs hlt => ?_) hrun hmade
  rcases kept_of_made hs hlt with hold | hkept
  · rcases ih hold with hkept | hmissed
    · rcases hkept.step hold hs with hkept | ⟨i, rfl, htaken, hloop⟩
      · exact Or.inl hkept
      · exact Or.inr ⟨as, i, [], t, rfl, ht, htaken, hloop⟩
    · exact Or.inr (hmissed.concat a)
  · exact Or.inl hkept

theorem current_or_overtaken {as : List Action} {i loop : ℕ}
    (hrun : Machine.run SyncLoops.step init as = some s) (huses : s.Uses i loop) :
    s.current = some loop ∨ Overtaken as i loop := by
  refine Machine.run_induction
    (fun as t => t.Uses i loop → t.current = some loop ∨ Overtaken as i loop) ?_
    (fun {as t a t'} ht ih hs hnew => ?_) hrun huses
  · rintro ⟨c, h | h⟩ <;> cases h
  · rcases uses_step hs hnew with hcurrent | ⟨hold, htake⟩
    · exact Or.inl hcurrent
    · rcases ih hold with hcurrent | hovertaken
      · obtain ⟨j, rfl⟩ := htake hcurrent
        exact Or.inr ⟨as, j, [], t, rfl, ht, hcurrent, hold⟩
      · exact Or.inr (hovertaken.concat a)

/-! ## Calls that end, and calls that do not -/

/-- The coroutine of the call is on a loop that has stopped. -/
structure Hangs (s : SyncLoops) (i : ℕ) (c : SyncCall) (loop : ℕ) : Prop where
  waits : s.calls i = some (c, .waits loop)
  stopped : s.loops loop = .stopped
  made : loop < s.made

/-- Another step neither wakes the call nor its loop. -/
theorem Hangs.step {i : ℕ} {c : SyncCall} {loop : ℕ} (h : s.Hangs i c loop)
    (hs : s.step a = some s') : s'.Hangs i c loop := by
  have hcalls : ∀ {j d phase q}, s.calls j = some (d, q) → q ≠ .waits loop →
      (s.setPhase j d phase).calls i = some (c, .waits loop) := by
    intro j d phase q hj hq
    rw [calls_setPhase, if_neg, h.waits]
    rintro rfl
    exact hq (Prod.mk.inj (Option.some.inj (hj.symm.trans h.waits))).2
  have hloops : ∀ {l x}, s.loops l ≠ .stopped → (s.setLoop l x).loops loop = .stopped := by
    intro l x hl
    rw [loops_setLoop, if_neg, h.stopped]
    rintro rfl
    exact hl h.stopped
  cases step_cases hs with
  | @call j d hnone =>
    refine ⟨?_, h.stopped, h.made⟩
    rw [calls_setPhase, if_neg, h.waits]
    rintro rfl
    cases hnone.symm.trans h.waits
  | found hj | submit hj | take hj | passed hj | joined hj =>
    exact ⟨hcalls hj (by simp), h.stopped, h.made⟩
  | @made j d hj =>
    refine ⟨hcalls hj (by simp), ?_, Nat.lt_succ_of_lt h.made⟩
    exact (loops_setLoop ..).trans ((if_neg (Nat.ne_of_lt h.made)).trans h.stopped)
  | @finish j l d returns hj hl =>
    refine ⟨hcalls hj fun hq => ?_, h.stopped, h.made⟩
    rw [SyncPhase.waits.inj hq, h.stopped] at hl
    simp at hl
  | stop hj hl => exact ⟨hcalls hj (by simp), hloops (by simp [hl]), h.made⟩
  | begins _ hl | halts hl => exact ⟨h.waits, hloops (by simp [hl]), h.made⟩

/-- Whatever happens, the call does not end. -/
theorem Hangs.run {i : ℕ} {c : SyncCall} {loop : ℕ} {as : List Action} (h : s.Hangs i c loop)
    (hrun : Machine.run SyncLoops.step s as = some s') : s'.Hangs i c loop :=
  Machine.run_invariant (fun t => t.Hangs i c loop) (fun _ _ => True)
    (fun ht _ hs => ht.step hs) h (Machine.along_of_forall (fun _ _ _ => trivial) s) hrun

/-- A call can end as long as its loop is not stopped. -/
theorem finishes {i loop : ℕ} {c : SyncCall} (hcall : s.calls i = some (c, .waits loop))
    (hmade : loop < s.made) (hloop : s.loops loop ≠ .stopped) (returns : Bool) :
    ∃ as s', Machine.run SyncLoops.step s as = some s' ∧
      s'.calls i = some (c, afterResult c returns) := by
  have hself : ∀ t : SyncLoops,
      (t.setPhase i c (afterResult c returns)).calls i = some (c, afterResult c returns) :=
    fun _ => (calls_setPhase ..).trans (if_pos rfl)
  have hends : ∀ t : SyncLoops, t.calls i = some (c, .waits loop) →
      t.loops loop = .running ∨ t.loops loop = .stopping →
      t.step (.finish i returns) = some (t.setPhase i c (afterResult c returns)) := by
    intro t ht hl
    simp only [SyncLoops.step, ht]
    exact if_pos hl
  by_cases hstarted : s.loops loop = .started
  · have hbegins : s.step (.begins loop) = some (s.setLoop loop .running) :=
      if_pos ⟨hmade, hstarted⟩
    have hrunning : (s.setLoop loop .running).loops loop = .running :=
      (loops_setLoop ..).trans (if_pos rfl)
    refine ⟨[.begins loop, .finish i returns], _, ?_, hself (s.setLoop loop .running)⟩
    rw [Machine.run_of_step hbegins,
      Machine.run_of_step (hends (s.setLoop loop .running) hcall (Or.inl hrunning)), Machine.run]
  · refine ⟨[.finish i returns], _, ?_, hself s⟩
    rw [Machine.run_of_step (hends s hcall ?_), Machine.run]
    cases hstate : s.loops loop with
    | started => exact absurd hstate hstarted
    | running => exact Or.inl rfl
    | stopping => exact Or.inr rfl
    | stopped => exact absurd hstate hloop

end

end SyncLoops

end PilotLanggraph

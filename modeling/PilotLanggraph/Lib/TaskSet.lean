import Mathlib.Data.List.Perm.Basic
import PilotLanggraph.Lib.Dict

/-!
# Tasks of an event loop

A task runs until it has a result. It may be asked to stop, which it hears when it runs next, and
then it has a result as well. Whoever waits for a set of tasks finds it split into those that have
a result and those that have not. `gather` collects the results of all.
-/

/-- A task. -/
inductive TaskState (ρ : Type*)
  /-- Not created. -/
  | absent
  | running (stopRequested : Bool)
  | finished (result : ρ)

namespace TaskState

variable {ρ : Type*}

/-- `done()`. -/
def isFinished : TaskState ρ → Bool
  | .finished _ => true
  | _ => false

def isRunning : TaskState ρ → Bool
  | .running _ => true
  | _ => false

/-- `cancel()`. -/
def cancel : TaskState ρ → TaskState ρ
  | .running _ => .running true
  | t => t

theorem exists_of_isFinished {t : TaskState ρ} (h : t.isFinished = true) :
    ∃ r, t = .finished r := by
  cases t with
  | absent => cases h
  | running stopRequested => cases h
  | finished r => exact ⟨r, rfl⟩

@[simp] theorem isRunning_cancel (t : TaskState ρ) : t.cancel.isRunning = t.isRunning := by
  cases t <;> rfl

/-- A result is one from before. -/
theorem finished_of_cancel {t : TaskState ρ} {r : ρ} (h : t.cancel = .finished r) :
    t = .finished r := by
  cases t with
  | absent => cases h
  | running stopRequested => cases h
  | finished r' => exact h

theorem cancel_ne (t : TaskState ρ) : t.cancel ≠ .running false := by
  cases t <;> simp [cancel]

end TaskState

/-- The tasks, by name. -/
abbrev TaskSet (κ ρ : Type*) := κ → TaskState ρ

namespace TaskSet

variable {κ ρ : Type*}

/-- Those of `ks` that have a result, -/
def done (ks : List κ) (ts : TaskSet κ ρ) : List κ :=
  ks.filter fun k => (ts k).isFinished

/-- and those that have none. -/
def pending (ks : List κ) (ts : TaskSet κ ρ) : List κ :=
  ks.filter fun k => !(ts k).isFinished

/-- How many of `ks` are running. -/
def running (ks : List κ) (ts : TaskSet κ ρ) : ℕ :=
  ks.countP fun k => (ts k).isRunning

theorem perm_done_pending (ks : List κ) (ts : TaskSet κ ρ) :
    (done ks ts ++ pending ks ts).Perm ks :=
  List.filter_append_perm _ ks

theorem isFinished_of_mem_done {k : κ} {ks : List κ} {ts : TaskSet κ ρ} (h : k ∈ done ks ts) :
    (ts k).isFinished = true :=
  (List.mem_filter.1 h).2

section

variable [DecidableEq κ]

/-- The tasks `ks` are created. -/
def create (ks : List κ) (ts : TaskSet κ ρ) : TaskSet κ ρ :=
  fun k => if k ∈ ks then .running false else ts k

/-- The task `k` has a result. -/
def finish (k : κ) (r : ρ) (ts : TaskSet κ ρ) : Option (TaskSet κ ρ) :=
  if (ts k).isRunning then some (Function.update ts k (.finished r)) else none

/-- The tasks `ks` are asked to stop. -/
def cancel (ks : List κ) (ts : TaskSet κ ρ) : TaskSet κ ρ :=
  fun k => if k ∈ ks then (ts k).cancel else ts k

variable {k : κ} {ks : List κ} {r : ρ} {ts ts' : TaskSet κ ρ}

theorem finish_of_running (r : ρ) (h : (ts k).isRunning = true) :
    finish k r ts = some (Function.update ts k (.finished r)) := by
  rw [finish, if_pos h]

/-- A result is had by a task that was running. -/
theorem finish_cases (h : finish k r ts = some ts') :
    (ts k).isRunning = true ∧ ts' = Function.update ts k (.finished r) := by
  unfold finish at h
  split_ifs at h with hrunning
  exact ⟨hrunning, (Option.some.inj h).symm⟩

/-- Results stay. -/
theorem eq_of_finish {k₀ : κ} {r₀ : ρ} (h : finish k r ts = some ts')
    (h₀ : ts k₀ = .finished r₀) : ts' k₀ = .finished r₀ := by
  obtain ⟨hrunning, rfl⟩ := finish_cases h
  have hne : k₀ ≠ k := by
    rintro rfl
    rw [h₀] at hrunning
    cases hrunning
  rw [Function.update_of_ne hne, h₀]

theorem finished_of_cancel {ks : List κ} (h : cancel ks ts k = .finished r) :
    ts k = .finished r := by
  unfold cancel at h
  split_ifs at h
  · exact TaskState.finished_of_cancel h
  · exact h

/-- A result is the new one or was there before. -/
theorem finished_of_finish {k₀ : κ} {r₀ : ρ} (h : finish k r ts = some ts')
    (h₀ : ts' k₀ = .finished r₀) : ts k₀ = .finished r₀ ∨ k₀ = k ∧ r₀ = r := by
  obtain ⟨-, rfl⟩ := finish_cases h
  by_cases hk : k₀ = k
  · subst hk
    rw [Function.update_self] at h₀
    exact .inr ⟨rfl, (TaskState.finished.inj h₀).symm⟩
  · rw [Function.update_of_ne hk] at h₀
    exact .inl h₀

theorem running_create (ks : List κ) (ts : TaskSet κ ρ) :
    running ks (create ks ts) = ks.length := by
  rw [running, List.countP_eq_length]
  intro k hk
  simp [create, hk, TaskState.isRunning]

theorem running_cancel (ks ks' : List κ) (ts : TaskSet κ ρ) :
    running ks (cancel ks' ts) = running ks ts := by
  refine List.countP_congr fun k _ => ?_
  unfold cancel
  split_ifs <;> simp

/-- One task less is running. -/
theorem running_finish (hnodup : ks.Nodup) (hk : k ∈ ks) (h : finish k r ts = some ts') :
    running ks ts' + 1 = running ks ts := by
  obtain ⟨hrunning, rfl⟩ := finish_cases h
  have hperm := List.perm_cons_erase hk
  have hrest : (ks.erase k).countP (fun k₀ => (Function.update ts k (.finished r) k₀).isRunning) =
      (ks.erase k).countP fun k₀ => (ts k₀).isRunning := by
    refine List.countP_congr fun k₀ hk₀ => ?_
    have hne : k₀ ≠ k := (hnodup.mem_erase_iff.1 hk₀).1
    rw [Function.update_of_ne hne]
  have hself : (Function.update ts k (.finished r) k).isRunning = false := by
    rw [Function.update_self]
    rfl
  rw [running, running, hperm.countP_eq, hperm.countP_eq, List.countP_cons, List.countP_cons,
    hrest, hself, hrunning]
  rfl

end

/-! ## `gather` -/

section

variable {α ε : Type*}

/-- A result that is no exception, or one where exceptions are results like others. -/
def Quiet (returnExceptions : Bool) (child : κ × Except ε α) : Prop :=
  returnExceptions = true ∨ ∃ value, child.2 = .ok value

/-- Results with an exception have a first one. -/
theorem exists_first_error {results : List (κ × Except ε α)} {k : κ} {e : ε}
    (h : (k, .error e) ∈ results) : ∃ before k' e' after,
      results = before ++ (k', .error e') :: after ∧ ∀ child ∈ before, Quiet false child := by
  induction results with
  | nil => cases h
  | cons child results ih =>
    obtain ⟨k₀, r⟩ := child
    cases r with
    | error e₀ => exact ⟨[], k₀, e₀, results, rfl, by simp⟩
    | ok value =>
      have hmem : (k, .error e) ∈ results := by simpa using h
      obtain ⟨before, k', e', after, rfl, hbefore⟩ := ih hmem
      refine ⟨(k₀, .ok value) :: before, k', e', after, rfl, ?_⟩
      exact List.forall_mem_cons.2 ⟨.inr ⟨value, rfl⟩, hbefore⟩

variable [DecidableEq κ] {outcome : κ → Except ε α} {children : List κ}

/-- The results so far, oldest first, and the result of the whole, once there is one. -/
structure Gathering (κ α ε : Type*) where
  finished : List (κ × Except ε α)
  outer : Option (Except ε (List (Except ε α)))

/-- A child has a result. The first exception is that of the whole, unless exceptions are
returned, too; once the whole has a result, nothing changes it. -/
def Gathering.finish (children : List κ) (returnExceptions : Bool) (g : Gathering κ α ε)
    (child : κ × Except ε α) : Gathering κ α ε :=
  let finished := g.finished ++ [child]
  if g.outer.isSome then ⟨finished, g.outer⟩
  else
    match returnExceptions, child.2 with
    | false, .error e => ⟨finished, some (.error e)⟩
    | _, _ =>
      if finished.length = children.length then
        ⟨finished, some (.ok (children.filterMap fun k => Assoc.get? k finished))⟩
      else ⟨finished, none⟩

/-- The result of the whole, when the children have had their results in this order. -/
def gather (children : List κ) (returnExceptions : Bool) (results : List (κ × Except ε α)) :
    Option (Except ε (List (Except ε α))) :=
  (results.foldl (Gathering.finish children returnExceptions) ⟨[], none⟩).outer

variable {returnExceptions : Bool}

theorem finish_of_quiet {child : κ × Except ε α} (h : Quiet returnExceptions child)
    (results : List (κ × Except ε α)) :
    Gathering.finish children returnExceptions ⟨results, none⟩ child =
      if (results ++ [child]).length = children.length then
        ⟨results ++ [child],
          some (.ok (children.filterMap fun k => Assoc.get? k (results ++ [child])))⟩
      else ⟨results ++ [child], none⟩ := by
  rcases h with rfl | ⟨value, hvalue⟩
  · rfl
  · cases returnExceptions with
    | true => rfl
    | false =>
      unfold Gathering.finish
      rw [hvalue]
      rfl

/-- As long as a child has none, the whole has no result. -/
theorem foldl_finish : ∀ {results : List (κ × Except ε α)},
    (∀ child ∈ results, Quiet returnExceptions child) → results.length < children.length →
    results.foldl (Gathering.finish children returnExceptions) ⟨[], none⟩ = ⟨results, none⟩ := by
  intro results
  induction results using List.reverseRecOn with
  | nil => exact fun _ _ => rfl
  | append_singleton results child ih =>
    intro hquiet hlt
    rw [List.forall_mem_append, List.forall_mem_singleton] at hquiet
    have hne : (results ++ [child]).length ≠ children.length := Nat.ne_of_lt hlt
    rw [List.length_append, List.length_singleton] at hlt
    rw [List.foldl_append, ih hquiet.1 (Nat.lt_of_succ_lt hlt), List.foldl_cons, List.foldl_nil,
      finish_of_quiet hquiet.2, if_neg hne]

/-- In whatever order the children end, the results are in the order of the children. -/
theorem gather_of_quiet (hnodup : children.Nodup) (hne : children ≠ [])
    {results : List (κ × Except ε α)}
    (hperm : results.Perm (children.map fun k => (k, outcome k)))
    (hquiet : ∀ child ∈ results, Quiet returnExceptions child) :
    gather children returnExceptions results = some (.ok (children.map outcome)) := by
  have hlength : results.length = children.length := by
    rw [hperm.length_eq, List.length_map]
  have hkeys : (Assoc.keys results).Nodup := by
    have hmap := hperm.map Prod.fst
    rw [List.map_map] at hmap
    exact hmap.nodup_iff.2 (by simpa [Function.comp_def] using hnodup)
  have hget : ∀ k ∈ children, Assoc.get? k results = some (outcome k) := by
    intro k hk
    refine Assoc.get?_of_mem hkeys (hperm.mem_iff.2 ?_)
    exact List.mem_map_of_mem hk
  have hresults : (children.filterMap fun k => Assoc.get? k results) = children.map outcome := by
    rw [List.filterMap_congr hget]
    exact congrFun List.filterMap_eq_map children
  rcases List.eq_nil_or_concat results with rfl | ⟨before, last, rfl⟩
  · exact absurd (List.length_eq_zero_iff.1 hlength.symm) hne
  · rw [List.concat_eq_append] at hlength hresults hquiet ⊢
    have hlt : before.length < children.length := by
      rw [← hlength, List.length_append]
      exact Nat.lt_succ_self _
    rw [List.forall_mem_append, List.forall_mem_singleton] at hquiet
    rw [gather, List.foldl_append, foldl_finish hquiet.1 hlt, List.foldl_cons, List.foldl_nil,
      finish_of_quiet hquiet.2, if_pos hlength, hresults]

/-- Where exceptions are results, no result is in the way. -/
theorem gather_of_perm (hnodup : children.Nodup) (hne : children ≠ [])
    {results : List (κ × Except ε α)}
    (hperm : results.Perm (children.map fun k => (k, outcome k))) :
    gather children true results = some (.ok (children.map outcome)) :=
  gather_of_quiet hnodup hne hperm fun _ _ => .inl rfl

/-- Nothing changes the result of the whole. -/
theorem outer_foldl_finish {r : Except ε (List (Except ε α))} :
    ∀ {results : List (κ × Except ε α)} {g : Gathering κ α ε}, g.outer = some r →
      (results.foldl (Gathering.finish children returnExceptions) g).outer = some r
  | [], _, h => h
  | child :: results, g, h => by
    rw [List.foldl_cons]
    refine outer_foldl_finish ?_
    simp [Gathering.finish, h]

/-- The first exception is that of the whole. -/
theorem gather_of_error {before after : List (κ × Except ε α)} {k : κ} {e : ε}
    (hbefore : ∀ child ∈ before, Quiet false child) (hlt : before.length < children.length) :
    gather children false (before ++ (k, .error e) :: after) = some (.error e) := by
  rw [gather, List.foldl_append, foldl_finish hbefore hlt, List.foldl_cons]
  exact outer_foldl_finish rfl

end

end TaskSet

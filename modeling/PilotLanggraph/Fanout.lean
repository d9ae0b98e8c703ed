import PilotLanggraph.Lib.Machine
import PilotLanggraph.Lib.TaskSet
import PilotLanggraph.Runnables

/-!
# Fanning out

`PilotFanoutRunnable` sends one input to several targets. `ainvoke` gathers their results, and
`astream` yields each with its label as the targets reply. Its generator holds the set `pending`
of the tasks it still waits for and, while it is suspended at its `yield`, the tasks of `done`
that it has yet to hand out. The labels it has yielded and those two sets are together the labels
of the targets (`Split`), whatever the order in which the tasks end and whatever ends between two
waits. So each label is yielded once, and when the generator stops early every task that has no
result is in `pending` (`astream_once`).
-/

namespace PilotLanggraph

/-- `PilotFanoutRunnable`, which has a target at least. -/
structure PilotFanoutRunnable where
  targets : Dict String PilotRemoteRunnable
  targets_ne_nil : targets.entries ≠ []
  returnExceptions : Bool

namespace PilotFanoutRunnable

/-- `__init__`, on runnables. `none` is its `ValueError`. -/
def new (targets : Dict String PilotRemoteRunnable) (returnExceptions : Bool) :
    Option PilotFanoutRunnable :=
  if h : targets.entries = [] then none else some ⟨targets, h, returnExceptions⟩

variable (fan : PilotFanoutRunnable) {α ε : Type} (isException : ε → Bool)

/-- `labels`. -/
def labels : List String :=
  fan.targets.keys

/-- `ainvoke`, when the targets have had these results in this order. An exception may stand in
place of a value. -/
def ainvoke (results : List (String × Except ε α)) :
    Option (Except ε (Dict String (Except ε α))) :=
  (TaskSet.gather fan.labels fan.returnExceptions results).map fun outer =>
    outer.map fun results => Dict.empty.update (fan.labels.zip results)

/-- `_wrapped`, with what the target's `ainvoke` does. An `Exception` may be returned as a value;
what is none, like `CancelledError`, never is. -/
def wrapped (label : String) (result : Except ε α) : Except ε (String × Except ε α) :=
  match result with
  | .ok value => .ok (label, .ok value)
  | .error e => if isException e && fan.returnExceptions then .ok (label, .error e) else .error e

/-! ## The generator -/

/-- How a generator ends. -/
inductive Ending (ε : Type)
  | returned
  /-- `t.result()` raises. -/
  | raised (e : ε)
  /-- `aclose`, -/
  | closed
  /-- or `athrow`, at a `yield`. -/
  | thrown (e : ε)
  /-- The consumer is cancelled while it waits. -/
  | cancelled

/-- Where `astream` is. -/
inductive StreamPhase (ε : Type)
  | created
  /-- In `asyncio.wait(pending)`. -/
  | waiting (pending : List String)
  /-- At the `yield`, with the rest of `done`. -/
  | yielding (rest pending : List String)
  | ended (how : Ending ε)

/-- The generator of `astream`, with its tasks. -/
structure Stream (α ε : Type) where
  tasks : TaskSet String (Except ε (String × Except ε α))
  phase : StreamPhase ε
  yielded : List (String × Except ε α)

/-- What can happen. -/
inductive Action (α ε : Type)
  /-- `__anext__`. -/
  | next
  /-- The `ainvoke` of a target ends. -/
  | finish (label : String) (result : Except ε α)
  /-- `asyncio.wait` returns, and the loop will take the tasks of `done` in this order. -/
  | wake (order : List String)
  | close
  | throw (e : ε)
  /-- The consumer is cancelled. -/
  | cancel

namespace Stream

/-- A generator that has not begun. -/
def init : Stream α ε :=
  ⟨fun _ => .absent, .created, []⟩

/-- The `except` clause. -/
def fail (s : Stream α ε) (pending : List String) (how : Ending ε) : Stream α ε :=
  { s with tasks := s.tasks.cancel pending, phase := .ended how }

/-- From the loop over `done` to the next point where the generator is suspended. -/
def deliver (s : Stream α ε) (pending : List String) : List String → Option (Stream α ε)
  | [] => some { s with phase := if pending = [] then .ended .returned else .waiting pending }
  | t :: rest =>
    match s.tasks t with
    | .finished (.ok pair) =>
      some { s with phase := .yielding rest pending, yielded := s.yielded ++ [pair] }
    | .finished (.error e) => some (s.fail pending (.raised e))
    | _ => none

/-- One action, if it can happen. -/
def step (s : Stream α ε) (a : Action α ε) : Option (Stream α ε) :=
  match a, s.phase with
  | .next, .created =>
    some { s with tasks := s.tasks.create fan.labels, phase := .waiting fan.labels }
  | .next, .yielding rest pending => s.deliver pending rest
  | .finish label result, _ =>
    (s.tasks.finish label (fan.wrapped isException label result)).map fun tasks =>
      { s with tasks := tasks }
  -- `FIRST_COMPLETED` : there is a result at least.
  | .wake order, .waiting pending =>
    if order.Perm (s.tasks.done pending) ∧ order ≠ [] then
      s.deliver (s.tasks.pending pending) order
    else none
  | .close, .created => some { s with phase := .ended .closed }
  | .close, .yielding _ pending => some (s.fail pending .closed)
  | .throw e, .created => some { s with phase := .ended (.thrown e) }
  | .throw e, .yielding _ pending => some (s.fail pending (.thrown e))
  | .cancel, .waiting pending => some (s.fail pending .cancelled)
  | _, _ => none

end Stream

/-- The consumer stops the generator. -/
def Action.interrupts : Action α ε → Bool
  | .close | .throw _ | .cancel => true
  | _ => false

/-- The targets have these outcomes. -/
def Action.Follows (outcome : String → Except ε α) : Action α ε → Prop
  | .finish label result => result = outcome label
  | _ => True

/-! ## The steps -/

section

variable {fan isException} {s s' : Stream α ε} {a : Action α ε} {label t : String}
  {rest pending : List String} {result : Except ε α} {pair : String × Except ε α}

theorem wrapped_fst (h : fan.wrapped isException label result = .ok pair) : pair.1 = label := by
  unfold wrapped at h
  split at h
  · cases h
    rfl
  · split_ifs at h
    cases h
    rfl

/-- Values, and exceptions that are returned. -/
theorem wrapped_of_ordinary (hreturn : fan.returnExceptions = true)
    (hordinary : ∀ e, result = .error e → isException e = true) :
    fan.wrapped isException label result = .ok (label, result) := by
  cases result with
  | ok value => rfl
  | error e => simp [wrapped, hreturn, hordinary e rfl]

/-- The four ways from the loop over `done` to the next stop. -/
theorem deliver_cases {done : List String} (h : s.deliver pending done = some s') :
    (done = [] ∧ pending = [] ∧ s' = { s with phase := .ended .returned }) ∨
    (done = [] ∧ pending ≠ [] ∧ s' = { s with phase := .waiting pending }) ∨
    (∃ t rest pair, done = t :: rest ∧ s.tasks t = .finished (.ok pair) ∧
      s' = { s with phase := .yielding rest pending, yielded := s.yielded ++ [pair] }) ∨
    (∃ t rest e, done = t :: rest ∧ s.tasks t = .finished (.error e) ∧
      s' = s.fail pending (.raised e)) := by
  cases done with
  | nil =>
    obtain rfl := Option.some.inj h
    by_cases hp : pending = []
    · exact .inl ⟨rfl, hp, by rw [if_pos hp]⟩
    · exact .inr (.inl ⟨rfl, hp, by rw [if_neg hp]⟩)
  | cons t rest =>
    rw [Stream.deliver] at h
    split at h
    · rename_i pair hpair
      exact .inr (.inr (.inl ⟨t, rest, pair, rfl, hpair, (Option.some.inj h).symm⟩))
    · rename_i e he
      exact .inr (.inr (.inr ⟨t, rest, e, rfl, he, (Option.some.inj h).symm⟩))
    · cases h

/-- What an action does. -/
inductive Moves (fan : PilotFanoutRunnable) (isException : ε → Bool) (s : Stream α ε) :
    Action α ε → Stream α ε → Prop
  | begin (hphase : s.phase = .created) :
    Moves fan isException s .next
      { s with tasks := s.tasks.create fan.labels, phase := .waiting fan.labels }
  | loop (rest pending : List String) (s' : Stream α ε)
      (hphase : s.phase = .yielding rest pending)
      (hdeliver : s.deliver pending rest = some s') : Moves fan isException s .next s'
  | finish (label : String) (result : Except ε α)
      (tasks : TaskSet String (Except ε (String × Except ε α)))
      (hfinish : s.tasks.finish label (fan.wrapped isException label result) = some tasks) :
    Moves fan isException s (.finish label result) { s with tasks := tasks }
  | wake (order pending : List String) (s' : Stream α ε) (hphase : s.phase = .waiting pending)
      (horder : order.Perm (s.tasks.done pending)) (hne : order ≠ [])
      (hdeliver : s.deliver (s.tasks.pending pending) order = some s') :
    Moves fan isException s (.wake order) s'
  | drop (a : Action α ε) (how : Ending ε) (hphase : s.phase = .created)
      (hinterrupts : a.interrupts = true) (hhow : how ≠ .returned) :
    Moves fan isException s a { s with phase := .ended how }
  | stop (a : Action α ε) (rest pending : List String) (how : Ending ε)
      (hphase : s.phase = .yielding rest pending ∨ rest = [] ∧ s.phase = .waiting pending)
      (hinterrupts : a.interrupts = true) (hhow : how ≠ .returned) :
    Moves fan isException s a (s.fail pending how)

theorem moves_of_step (h : s.step fan isException a = some s') : Moves fan isException s a s' := by
  unfold Stream.step at h
  split at h
  · rename_i hphase
    obtain rfl := Option.some.inj h
    exact .begin hphase
  · rename_i rest pending hphase
    exact .loop rest pending s' hphase h
  · rename_i label result
    obtain ⟨tasks, hfinish, rfl⟩ := Option.map_eq_some_iff.1 h
    exact .finish label result tasks hfinish
  · rename_i order pending hphase
    split_ifs at h with horder
    exact .wake order pending s' hphase horder.1 horder.2 h
  · rename_i hphase
    obtain rfl := Option.some.inj h
    exact .drop .close .closed hphase rfl nofun
  · rename_i rest pending hphase
    obtain rfl := Option.some.inj h
    exact .stop .close rest pending .closed (.inl hphase) rfl nofun
  · rename_i e hphase
    obtain rfl := Option.some.inj h
    exact .drop (.throw e) (.thrown e) hphase rfl nofun
  · rename_i e rest pending hphase
    obtain rfl := Option.some.inj h
    exact .stop (.throw e) rest pending (.thrown e) (.inl hphase) rfl nofun
  · rename_i pending hphase
    obtain rfl := Option.some.inj h
    exact .stop .cancel [] pending .cancelled (.inr ⟨rfl, hphase⟩) rfl nofun
  · cases h

/-! ## The invariant -/

/-- The targets have tasks, and what was yielded is the result of one. -/
structure Tasked (fan : PilotFanoutRunnable) (isException : ε → Bool) (s : Stream α ε) : Prop where
  absent : ∀ label, s.tasks label = .absent ↔ label ∉ fan.labels
  result : ∀ label r, s.tasks label = .finished r → ∃ result,
    r = fan.wrapped isException label result
  yielded : ∀ p ∈ s.yielded, s.tasks p.1 = .finished (.ok p)

/-- The labels that were yielded, those that `done` still has, and those that are pending are
together the labels of the targets, and each is in one place. -/
structure Split (fan : PilotFanoutRunnable) (s : Stream α ε) (done pending : List String) :
    Prop where
  perm : (s.yielded.map Prod.fst ++ (done ++ pending)).Perm fan.labels
  finished : ∀ label ∈ done, (s.tasks label).isFinished = true

/-- The generator is over, and no task runs that was not asked to stop. -/
structure Over (fan : PilotFanoutRunnable) (s : Stream α ε) (how : Ending ε) : Prop where
  nodup : (s.yielded.map Prod.fst).Nodup
  subset : ∀ p ∈ s.yielded, p.1 ∈ fan.labels
  yielded : ∀ p ∈ s.yielded, s.tasks p.1 = .finished (.ok p)
  outside : ∀ label ∉ fan.labels, s.tasks label = .absent
  stopped : ∀ label, s.tasks label ≠ .running false
  returned : how = .returned → (s.yielded.map Prod.fst).Perm fan.labels

/-- The invariant. -/
def Inv (fan : PilotFanoutRunnable) (isException : ε → Bool) (s : Stream α ε) : Prop :=
  match s.phase with
  | .created => s.yielded = [] ∧ ∀ label, s.tasks label = .absent
  | .waiting pending => Tasked fan isException s ∧ Split fan s [] pending ∧ pending ≠ []
  | .yielding rest pending => Tasked fan isException s ∧ Split fan s rest pending
  | .ended how => Over fan s how

theorem nodup_labels : fan.labels.Nodup :=
  fan.targets.nodup

theorem labels_ne_nil : fan.labels ≠ [] := by
  simpa [labels, Dict.keys, Assoc.keys] using fan.targets_ne_nil

/-- A task that has no result is pending. -/
theorem mem_pending {done : List String} (htasked : Tasked fan isException s)
    (hsplit : Split fan s done pending) {b : Bool} (h : s.tasks label = .running b) :
    label ∈ pending := by
  have hlabel : label ∈ fan.labels := by
    by_contra hnot
    rw [(htasked.absent label).2 hnot] at h
    cases h
  have hmem := hsplit.perm.mem_iff.2 hlabel
  rw [List.mem_append, List.mem_append] at hmem
  rcases hmem with hmem | hmem | hmem
  · obtain ⟨p, hp, rfl⟩ := List.mem_map.1 hmem
    rw [htasked.yielded p hp] at h
    cases h
  · have hfinished := hsplit.finished label hmem
    rw [h] at hfinished
    cases hfinished
  · exact hmem

theorem nodup_yielded {done : List String} (hsplit : Split fan s done pending) :
    (s.yielded.map Prod.fst).Nodup :=
  (List.nodup_append.1 (hsplit.perm.nodup_iff.2 nodup_labels)).1

theorem mem_labels_of_yielded {done : List String} (hsplit : Split fan s done pending) :
    ∀ p ∈ s.yielded, p.1 ∈ fan.labels := fun _ hp =>
  hsplit.perm.subset (List.mem_append_left _ (List.mem_map_of_mem hp))

/-- Every way out but the last asks the pending tasks to stop. -/
theorem over_fail {done : List String} {how : Ending ε} (htasked : Tasked fan isException s)
    (hsplit : Split fan s done pending) (hhow : how ≠ .returned) :
    Over fan (s.fail pending how) how := by
  have hnodup := nodup_yielded hsplit
  have hsubset := mem_labels_of_yielded hsplit
  refine ⟨hnodup, hsubset, fun p hp => ?_, fun label hlabel => ?_, fun label => ?_,
    fun h => absurd h hhow⟩
  · change TaskSet.cancel pending s.tasks p.1 = _
    rw [TaskSet.cancel, htasked.yielded p hp]
    split_ifs <;> rfl
  · change TaskSet.cancel pending s.tasks label = _
    rw [TaskSet.cancel, (htasked.absent label).2 hlabel]
    split_ifs <;> rfl
  · change TaskSet.cancel pending s.tasks label ≠ _
    unfold TaskSet.cancel
    split_ifs with hmem
    · exact TaskState.cancel_ne _
    · exact fun h => hmem (mem_pending htasked hsplit h)

/-- The loop over `done` hands the next label on. -/
theorem inv_deliver {done : List String} (htasked : Tasked fan isException s)
    (hsplit : Split fan s done pending) (h : s.deliver pending done = some s') :
    Inv fan isException s' := by
  rcases deliver_cases h with ⟨rfl, rfl, rfl⟩ | ⟨rfl, hne, rfl⟩ | ⟨t, rest, pair, rfl, ht, rfl⟩ |
    ⟨t, rest, e, rfl, -, rfl⟩
  · have hnodup := nodup_yielded hsplit
    have hsubset := mem_labels_of_yielded hsplit
    have hperm : (s.yielded.map Prod.fst).Perm fan.labels := by
      simpa using hsplit.perm
    exact ⟨hnodup, hsubset, htasked.yielded, fun label => (htasked.absent label).2,
      fun label hlabel => (by simpa using mem_pending htasked hsplit hlabel), fun _ => hperm⟩
  · exact ⟨⟨htasked.absent, htasked.result, htasked.yielded⟩,
      ⟨hsplit.perm, hsplit.finished⟩, hne⟩
  · obtain ⟨result, hresult⟩ := htasked.result t _ ht
    have hfst : pair.1 = t := wrapped_fst hresult.symm
    have hyielded : ∀ p ∈ s.yielded ++ [pair], s.tasks p.1 = .finished (.ok p) := by
      intro p hp
      rcases List.mem_append.1 hp with hp | hp
      · exact htasked.yielded p hp
      · obtain rfl := List.mem_singleton.1 hp
        rw [hfst, ht]
    have hperm : ((s.yielded ++ [pair]).map Prod.fst ++ (rest ++ pending)).Perm fan.labels := by
      have heq : (s.yielded ++ [pair]).map Prod.fst ++ (rest ++ pending) =
          s.yielded.map Prod.fst ++ (t :: rest ++ pending) := by
        simp [hfst]
      rw [heq]
      exact hsplit.perm
    exact ⟨⟨htasked.absent, htasked.result, hyielded⟩, hperm,
      fun label hlabel => hsplit.finished label (List.mem_cons_of_mem _ hlabel)⟩
  · exact over_fail htasked hsplit nofun

/-- A result of a task changes nothing else. -/
theorem tasked_finish {tasks : TaskSet String (Except ε (String × Except ε α))}
    (htasked : Tasked fan isException s)
    (hfinish : s.tasks.finish label (fan.wrapped isException label result) = some tasks) :
    Tasked fan isException { s with tasks := tasks } := by
  obtain ⟨hrunning, htasks⟩ := TaskSet.finish_cases hfinish
  refine ⟨fun label' => ?_, fun label' r hr => ?_, fun p hp => ?_⟩
  · change tasks label' = .absent ↔ _
    rw [← htasked.absent label', htasks]
    by_cases hlabel : label' = label
    · subst hlabel
      rw [Function.update_self]
      constructor
      · nofun
      · intro h
        rw [h] at hrunning
        cases hrunning
    · rw [Function.update_of_ne hlabel]
  · rcases TaskSet.finished_of_finish hfinish hr with hr | ⟨rfl, rfl⟩
    · exact htasked.result label' r hr
    · exact ⟨result, rfl⟩
  · exact TaskSet.eq_of_finish hfinish (htasked.yielded p hp)

theorem split_finish {done : List String}
    {tasks : TaskSet String (Except ε (String × Except ε α))} {r : Except ε (String × Except ε α)}
    (hsplit : Split fan s done pending) (hfinish : s.tasks.finish label r = some tasks) :
    Split fan { s with tasks := tasks } done pending := by
  refine ⟨hsplit.perm, fun label' hlabel' => ?_⟩
  obtain ⟨r', hr'⟩ := TaskState.exists_of_isFinished (hsplit.finished label' hlabel')
  have hstays := TaskSet.eq_of_finish hfinish hr'
  change (tasks label').isFinished = true
  rw [hstays]
  rfl

/-- What stopped stays so. -/
theorem over_finish {how : Ending ε} {tasks : TaskSet String (Except ε (String × Except ε α))}
    {r : Except ε (String × Except ε α)} (hover : Over fan s how)
    (hfinish : s.tasks.finish label r = some tasks) :
    Over fan { s with tasks := tasks } how := by
  refine ⟨hover.nodup, hover.subset, fun p hp => ?_, fun label' hlabel' => ?_, fun label' => ?_,
    hover.returned⟩
  · exact TaskSet.eq_of_finish hfinish (hover.yielded p hp)
  · obtain ⟨hrunning, rfl⟩ := TaskSet.finish_cases hfinish
    have habsent := hover.outside label' hlabel'
    have hne : label' ≠ label := by
      rintro rfl
      rw [habsent] at hrunning
      cases hrunning
    change Function.update s.tasks label _ label' = _
    rw [Function.update_of_ne hne, habsent]
  · obtain ⟨-, rfl⟩ := TaskSet.finish_cases hfinish
    change Function.update s.tasks label _ label' ≠ _
    by_cases hlabel : label' = label
    · subst hlabel
      rw [Function.update_self]
      nofun
    · rw [Function.update_of_ne hlabel]
      exact hover.stopped label'

/-- A generator that never began has no tasks. -/
theorem over_drop {how : Ending ε} (hyielded : s.yielded = [])
    (habsent : ∀ label, s.tasks label = .absent) (hhow : how ≠ .returned) :
    Over fan { s with phase := .ended how } how := by
  have hnone : ∀ p, p ∉ s.yielded := by
    simp [hyielded]
  have hnodup : (s.yielded.map Prod.fst).Nodup := by
    simp [hyielded]
  refine ⟨hnodup, fun p hp => absurd hp (hnone p), fun p hp => absurd hp (hnone p),
    fun label _ => habsent label, fun label hlabel => ?_, fun h => absurd h hhow⟩
  cases (habsent label).symm.trans hlabel

theorem inv_init : Inv fan isException (Stream.init : Stream α ε) :=
  ⟨rfl, fun _ => rfl⟩

/-- Before the first `__anext__` there are no tasks. -/
theorem inv_created (hphase : s.phase = .created) :
    Inv fan isException s ↔ s.yielded = [] ∧ ∀ label, s.tasks label = .absent := by
  rw [Inv, hphase]

theorem inv_waiting (hphase : s.phase = .waiting pending) :
    Inv fan isException s ↔
      Tasked fan isException s ∧ Split fan s [] pending ∧ pending ≠ [] := by
  rw [Inv, hphase]

theorem inv_yielding (hphase : s.phase = .yielding rest pending) :
    Inv fan isException s ↔ Tasked fan isException s ∧ Split fan s rest pending := by
  rw [Inv, hphase]

theorem inv_ended {how : Ending ε} (hphase : s.phase = .ended how) :
    Inv fan isException s ↔ Over fan s how := by
  rw [Inv, hphase]

/-- The first `__anext__` creates a task for each label. -/
theorem inv_begin (h : Inv fan isException s) (hphase : s.phase = .created) :
    Inv fan isException
      { s with tasks := s.tasks.create fan.labels, phase := .waiting fan.labels } := by
  obtain ⟨hyielded, habsent⟩ := (inv_created hphase).1 h
  have htask : ∀ label, s.tasks.create fan.labels label =
      if label ∈ fan.labels then .running false else .absent := by
    intro label
    rw [TaskSet.create, habsent]
  refine ⟨⟨fun label => ?_, fun label r hr => ?_, ?_⟩, ⟨?_, fun _ hlabel => (by cases hlabel)⟩,
    labels_ne_nil⟩
  · change s.tasks.create fan.labels label = .absent ↔ _
    rw [htask]
    split_ifs with hlabel <;> simp [hlabel]
  · change s.tasks.create fan.labels label = .finished r at hr
    rw [htask] at hr
    split_ifs at hr
  · intro p hp
    change p ∈ s.yielded at hp
    rw [hyielded] at hp
    cases hp
  · change (s.yielded.map Prod.fst ++ ([] ++ fan.labels)).Perm fan.labels
    rw [hyielded]
    rfl

/-- The step lemma. -/
theorem inv_step (h : Inv fan isException s) (hstep : s.step fan isException a = some s') :
    Inv fan isException s' := by
  cases moves_of_step hstep with
  | begin hphase => exact inv_begin h hphase
  | loop rest pending s' hphase hdeliver =>
    obtain ⟨htasked, hsplit⟩ := (inv_yielding hphase).1 h
    exact inv_deliver htasked hsplit hdeliver
  | finish label result tasks hfinish =>
    cases hphase : s.phase with
    | created =>
      obtain ⟨-, habsent⟩ := (inv_created hphase).1 h
      obtain ⟨hrunning, -⟩ := TaskSet.finish_cases hfinish
      rw [habsent] at hrunning
      cases hrunning
    | waiting pending =>
      obtain ⟨htasked, hsplit, hpending⟩ := (inv_waiting hphase).1 h
      rw [← hphase]
      exact (inv_waiting (s := { s with tasks := tasks }) hphase).2
        ⟨tasked_finish htasked hfinish, split_finish hsplit hfinish, hpending⟩
    | yielding rest pending =>
      obtain ⟨htasked, hsplit⟩ := (inv_yielding hphase).1 h
      rw [← hphase]
      exact (inv_yielding (s := { s with tasks := tasks }) hphase).2
        ⟨tasked_finish htasked hfinish, split_finish hsplit hfinish⟩
    | ended how =>
      rw [← hphase]
      exact (inv_ended (s := { s with tasks := tasks }) hphase).2
        (over_finish ((inv_ended hphase).1 h) hfinish)
  | wake order pending s' hphase horder hne hdeliver =>
    obtain ⟨htasked, hsplit, -⟩ := (inv_waiting hphase).1 h
    refine inv_deliver htasked ⟨?_, fun label hlabel => ?_⟩ hdeliver
    · -- What was pending has a result or is pending still.
      have hpending : (order ++ s.tasks.pending pending).Perm pending :=
        (horder.append_right _).trans (TaskSet.perm_done_pending pending s.tasks)
      exact (hpending.append_left _).trans hsplit.perm
    · exact TaskSet.isFinished_of_mem_done (horder.subset hlabel)
  | drop a how hphase hinterrupts hhow =>
    obtain ⟨hyielded, habsent⟩ := (inv_created hphase).1 h
    exact over_drop hyielded habsent hhow
  | stop a rest pending how hphase hinterrupts hhow =>
    rcases hphase with hphase | ⟨rfl, hphase⟩
    · obtain ⟨htasked, hsplit⟩ := (inv_yielding hphase).1 h
      exact over_fail htasked hsplit hhow
    · obtain ⟨htasked, hsplit, -⟩ := (inv_waiting hphase).1 h
      exact over_fail htasked hsplit hhow

/-- Only targets have tasks. -/
theorem mem_labels_of_running (h : Inv fan isException s)
    (hrunning : (s.tasks label).isRunning = true) : label ∈ fan.labels := by
  by_contra hlabel
  have habsent : s.tasks label = .absent := by
    cases hphase : s.phase with
    | created => exact ((inv_created hphase).1 h).2 label
    | waiting pending => exact (((inv_waiting hphase).1 h).1.absent label).2 hlabel
    | yielding rest pending => exact (((inv_yielding hphase).1 h).1.absent label).2 hlabel
    | ended how => exact ((inv_ended hphase).1 h).outside label hlabel
  rw [habsent] at hrunning
  cases hrunning

theorem inv_run {as : List (Action α ε)}
    (hrun : Machine.run (Stream.step fan isException) Stream.init as = some s) :
    Inv fan isException s :=
  Machine.run_induction (fun _ s => Inv fan isException s) inv_init
    (fun _ h hstep => inv_step h hstep) hrun

/-! ## The outcomes -/

/-- The results are those of the outcomes, exceptions among them. -/
def Resulting (outcome : String → Except ε α) (s : Stream α ε) : Prop :=
  ∀ label r, s.tasks label = .finished r → r = .ok (label, outcome label)

section

variable {outcome : String → Except ε α}

theorem tasks_deliver {done : List String} {r : Except ε (String × Except ε α)}
    (h : s.deliver pending done = some s') (hr : s'.tasks label = .finished r) :
    s.tasks label = .finished r := by
  rcases deliver_cases h with ⟨-, -, rfl⟩ | ⟨-, -, rfl⟩ | ⟨t, rest, pair, -, -, rfl⟩ |
    ⟨t, rest, e, -, -, rfl⟩
  · exact hr
  · exact hr
  · exact hr
  · exact TaskSet.finished_of_cancel hr

theorem resulting_step (hreturn : fan.returnExceptions = true)
    (hordinary : ∀ label ∈ fan.labels, ∀ e, outcome label = .error e → isException e = true)
    (hinv : Inv fan isException s) (h : Resulting outcome s) (hfollows : a.Follows outcome)
    (hstep : s.step fan isException a = some s') : Resulting outcome s' := by
  intro label r hr
  cases moves_of_step hstep with
  | begin hphase =>
    change s.tasks.create fan.labels label = .finished r at hr
    unfold TaskSet.create at hr
    split_ifs at hr
    exact h label r hr
  | loop rest pending s' hphase hdeliver => exact h label r (tasks_deliver hdeliver hr)
  | finish label' result tasks hfinish =>
    rcases TaskSet.finished_of_finish hfinish hr with hr | ⟨rfl, rfl⟩
    · exact h label r hr
    · obtain rfl : result = outcome label := hfollows
      have hlabel := mem_labels_of_running hinv (TaskSet.finish_cases hfinish).1
      exact wrapped_of_ordinary hreturn (hordinary label hlabel)
  | wake order pending s' hphase horder hne hdeliver =>
    exact h label r (tasks_deliver hdeliver hr)
  | drop a how hphase hinterrupts hhow => exact h label r hr
  | stop a rest pending how hphase hinterrupts hhow =>
    exact h label r (TaskSet.finished_of_cancel hr)

/-- If no result raises, the loop over `done` only ends when there is nothing left. -/
theorem ended_deliver {done : List String} (h : Resulting outcome s)
    (hdeliver : s.deliver pending done = some s') :
    ∀ how, s'.phase = .ended how → how = .returned := by
  intro how hphase
  rcases deliver_cases hdeliver with ⟨-, -, rfl⟩ | ⟨-, -, rfl⟩ | ⟨t, rest, pair, -, -, rfl⟩ |
    ⟨t, rest, e, -, he, rfl⟩
  · cases hphase
    rfl
  · cases hphase
  · cases hphase
  · cases h t _ he

theorem ended_step (h : Resulting outcome s)
    (hended : ∀ how, s.phase = .ended how → how = .returned) (hcalm : a.interrupts = false)
    (hstep : s.step fan isException a = some s') :
    ∀ how, s'.phase = .ended how → how = .returned := by
  cases moves_of_step hstep with
  | begin hphase => nofun
  | loop rest pending s' hphase hdeliver => exact ended_deliver h hdeliver
  | finish label result tasks hfinish => exact hended
  | wake order pending s' hphase horder hne hdeliver => exact ended_deliver h hdeliver
  | drop a how hphase hinterrupts hhow => cases hcalm.symm.trans hinterrupts
  | stop a rest pending how hphase hinterrupts hhow => cases hcalm.symm.trans hinterrupts

theorem resulting_run (hreturn : fan.returnExceptions = true)
    (hordinary : ∀ label ∈ fan.labels, ∀ e, outcome label = .error e → isException e = true)
    {as : List (Action α ε)}
    (hrun : Machine.run (Stream.step fan isException) Stream.init as = some s)
    (hfollows : ∀ a ∈ as, a.Follows outcome) : Resulting outcome s := by
  refine Machine.run_induction (fun as s => (∀ a ∈ as, a.Follows outcome) → Resulting outcome s)
    (fun _ _ _ h => (by cases h)) (fun hrun h hstep hfollows => ?_) hrun hfollows
  rw [List.forall_mem_append, List.forall_mem_singleton] at hfollows
  exact resulting_step hreturn hordinary (inv_run hrun) (h hfollows.1) hfollows.2 hstep

/-- The generator only returns, unless it is interrupted. -/
theorem ended_run (hreturn : fan.returnExceptions = true)
    (hordinary : ∀ label ∈ fan.labels, ∀ e, outcome label = .error e → isException e = true)
    {as : List (Action α ε)}
    (hrun : Machine.run (Stream.step fan isException) Stream.init as = some s)
    (hfollows : ∀ a ∈ as, a.Follows outcome) (hcalm : ∀ a ∈ as, a.interrupts = false) :
    ∀ how, s.phase = .ended how → how = .returned := by
  refine Machine.run_induction (fun as s => (∀ a ∈ as, a.Follows outcome) →
    (∀ a ∈ as, a.interrupts = false) → ∀ how, s.phase = .ended how → how = .returned)
    (fun _ _ => nofun) (fun hrun h hstep hfollows hcalm => ?_) hrun hfollows hcalm
  rw [List.forall_mem_append, List.forall_mem_singleton] at hfollows hcalm
  exact ended_step (resulting_run hreturn hordinary hrun hfollows.1) (h hfollows.1 hcalm.1)
    hcalm.2 hstep

end

/-! ## The end -/

/-- How many steps are left, at most. Each label is finished once and yielded once, and each
wait yields a label at least. -/
def budget (fan : PilotFanoutRunnable) (s : Stream α ε) : ℕ :=
  s.tasks.running fan.labels +
    match s.phase with
    | .created => 3 * fan.labels.length + 1
    | .waiting pending => 2 * pending.length
    | .yielding rest pending => 2 * (rest.length + pending.length) + 1
    | .ended _ => 0

theorem budget_waiting (hphase : s.phase = .waiting pending) :
    budget fan s = s.tasks.running fan.labels + 2 * pending.length := by
  rw [budget, hphase]

theorem budget_yielding (hphase : s.phase = .yielding rest pending) :
    budget fan s = s.tasks.running fan.labels + (2 * (rest.length + pending.length) + 1) := by
  rw [budget, hphase]

theorem budget_deliver {done : List String} (h : s.deliver pending done = some s') :
    budget fan s' + 1 ≤
      s.tasks.running fan.labels + (2 * (done.length + pending.length) + 1) ∧
    (done ≠ [] → budget fan s' + 1 ≤
      s.tasks.running fan.labels + 2 * (done.length + pending.length)) := by
  rcases deliver_cases h with ⟨rfl, -, rfl⟩ | ⟨rfl, -, rfl⟩ | ⟨t, rest, pair, rfl, -, rfl⟩ |
    ⟨t, rest, e, rfl, -, rfl⟩
  · exact ⟨by simp [budget], fun h => absurd rfl h⟩
  · refine ⟨?_, fun h => absurd rfl h⟩
    simp only [budget, List.length_nil]
    omega
  · simp only [budget, List.length_cons]
    omega
  · simp only [budget, Stream.fail, TaskSet.running_cancel, List.length_cons]
    omega

theorem budget_step (h : Inv fan isException s) (hstep : s.step fan isException a = some s') :
    budget fan s' + 1 ≤ budget fan s := by
  cases moves_of_step hstep with
  | begin hphase =>
    simp only [budget, hphase, TaskSet.running_create]
    omega
  | loop rest pending s' hphase hdeliver =>
    rw [budget_yielding hphase]
    exact (budget_deliver hdeliver).1
  | finish label result tasks hfinish =>
    have hlabel := mem_labels_of_running h (TaskSet.finish_cases hfinish).1
    have hle := TaskSet.running_finish nodup_labels hlabel hfinish
    simp only [budget]
    omega
  | wake order pending s' hphase horder hne hdeliver =>
    have hlength : order.length + (s.tasks.pending pending).length = pending.length := by
      rw [horder.length_eq, ← List.length_append]
      exact (TaskSet.perm_done_pending pending s.tasks).length_eq
    rw [budget_waiting hphase, ← hlength]
    exact (budget_deliver hdeliver).2 hne
  | drop a how hphase hinterrupts hhow =>
    simp only [budget, hphase]
    omega
  | stop a rest pending how hphase hinterrupts hhow =>
    have hfail : budget fan (s.fail pending how) = s.tasks.running fan.labels := by
      simp [budget, Stream.fail, TaskSet.running_cancel]
    rw [hfail]
    rcases hphase with hphase | ⟨rfl, hphase⟩
    · rw [budget_yielding hphase]
      omega
    · have hpending := List.length_pos_of_ne_nil ((inv_waiting hphase).1 h).2.2
      rw [budget_waiting hphase]
      omega

/-- Every run is bounded. -/
theorem length_le_of_run {as : List (Action α ε)}
    (hrun : Machine.run (Stream.step fan isException) Stream.init as = some s) :
    as.length ≤ 3 * fan.labels.length + 1 := by
  have hbudget : budget fan s + as.length ≤ budget fan (Stream.init : Stream α ε) :=
    Machine.run_induction (fun as s => budget fan s + as.length ≤
      budget fan (Stream.init : Stream α ε)) (Nat.le_refl _) (fun {as s a s'} hrun h hstep => (by
        have hstep := budget_step (inv_run hrun) hstep
        rw [List.length_append, List.length_singleton]
        omega)) hrun
  have hinit : budget fan (Stream.init : Stream α ε) = 3 * fan.labels.length + 1 := by
    have hrunning : TaskSet.running fan.labels (Stream.init : Stream α ε).tasks = 0 := by
      simp [TaskSet.running, Stream.init, TaskState.isRunning]
    rw [budget, hrunning, Nat.zero_add]
    rfl
  omega

theorem exists_deliver {done : List String}
    (hfinished : ∀ label ∈ done, (s.tasks label).isFinished = true) (pending : List String) :
    ∃ s', s.deliver pending done = some s' := by
  cases done with
  | nil => exact ⟨_, rfl⟩
  | cons t rest =>
    obtain ⟨r, hr⟩ := TaskState.exists_of_isFinished (hfinished t (by simp))
    simp only [Stream.deliver, hr]
    cases r with
    | ok pair => exact ⟨_, rfl⟩
    | error e => exact ⟨_, rfl⟩

/-- A generator that is not over can go on : a task ends, the wait for it, or the consumer asks
for the next pair. -/
theorem exists_step (outcome : String → Except ε α) (h : Inv fan isException s)
    (hphase : ∀ how, s.phase ≠ .ended how) :
    ∃ a s', a.Follows outcome ∧ a.interrupts = false ∧ s.step fan isException a = some s' := by
  cases hs : s.phase with
  | created =>
    have hstep : s.step fan isException .next =
        some { s with tasks := s.tasks.create fan.labels, phase := .waiting fan.labels } := by
      simp only [Stream.step, hs]
    exact ⟨.next, _, trivial, rfl, hstep⟩
  | waiting pending =>
    obtain ⟨htasked, hsplit, hpending⟩ := (inv_waiting hs).1 h
    by_cases hdone : s.tasks.done pending = []
    · obtain ⟨label, hlabel⟩ := List.exists_mem_of_ne_nil _ hpending
      have hmem : label ∈ fan.labels :=
        hsplit.perm.subset (by simp [hlabel])
      have hrunning : (s.tasks label).isRunning = true := by
        cases htask : s.tasks label with
        | absent => exact absurd hmem ((htasked.absent label).1 htask)
        | running b => rfl
        | finished r =>
          have hnot : label ∈ s.tasks.done pending :=
            List.mem_filter.2 ⟨hlabel, by rw [htask]; rfl⟩
          rw [hdone] at hnot
          cases hnot
      obtain ⟨tasks, hfinish⟩ : ∃ tasks, s.tasks.finish label
          (fan.wrapped isException label (outcome label)) = some tasks :=
        ⟨_, TaskSet.finish_of_running _ hrunning⟩
      have hstep : s.step fan isException (.finish label (outcome label)) =
          some { s with tasks := tasks } := by
        simp only [Stream.step, hfinish, Option.map_some]
      exact ⟨.finish label (outcome label), _, rfl, rfl, hstep⟩
    · obtain ⟨s', hs'⟩ := exists_deliver (fun label => TaskSet.isFinished_of_mem_done)
        (s.tasks.pending pending)
      refine ⟨.wake (s.tasks.done pending), s', trivial, rfl, ?_⟩
      simp only [Stream.step, hs]
      rw [if_pos ⟨List.Perm.refl _, hdone⟩]
      exact hs'
  | yielding rest pending =>
    obtain ⟨htasked, hsplit⟩ := (inv_yielding hs).1 h
    obtain ⟨s', hs'⟩ := exists_deliver hsplit.finished pending
    exact ⟨.next, s', trivial, rfl, by simp only [Stream.step, hs, hs']⟩
  | ended how => exact absurd hs (hphase how)

theorem yielded_of_split {done : List String} (htasked : Tasked fan isException s)
    (hsplit : Split fan s done pending) :
    (s.yielded.map Prod.fst).Nodup ∧ ∀ p ∈ s.yielded, p.1 ∈ fan.labels ∧
      s.tasks p.1 = .finished (.ok p) :=
  ⟨nodup_yielded hsplit, fun p hp => ⟨mem_labels_of_yielded hsplit p hp, htasked.yielded p hp⟩⟩

/-- In every state, what was yielded are labels of targets, each once. -/
theorem yielded_of_inv (h : Inv fan isException s) :
    (s.yielded.map Prod.fst).Nodup ∧ ∀ p ∈ s.yielded, p.1 ∈ fan.labels ∧
      s.tasks p.1 = .finished (.ok p) := by
  cases hphase : s.phase with
  | created =>
    obtain ⟨hyielded, -⟩ := (inv_created hphase).1 h
    simp [hyielded]
  | waiting pending =>
    obtain ⟨htasked, hsplit, -⟩ := (inv_waiting hphase).1 h
    exact yielded_of_split htasked hsplit
  | yielding rest pending =>
    obtain ⟨htasked, hsplit⟩ := (inv_yielding hphase).1 h
    exact yielded_of_split htasked hsplit
  | ended how =>
    have hover := (inv_ended hphase).1 h
    exact ⟨hover.nodup, fun p hp => ⟨hover.subset p hp, hover.yielded p hp⟩⟩

/-! ## The dictionaries -/

theorem get?_pairs {outcome : String → Except ε α} {ps : List (String × Except ε α)}
    (hps : ∀ p ∈ ps, p.2 = outcome p.1) (label : String) :
    ((Dict.empty : Dict String (Except ε α)).update ps).get? label =
      if label ∈ ps.map Prod.fst then some (outcome label) else none := by
  split_ifs with hmem
  · obtain ⟨r, hr⟩ := Option.ne_none_iff_exists'.1 (mt Dict.get?_update_eq_none.1 (not_not.2 hmem))
    have houtcome : r = outcome label := hps _ (Dict.mem_of_get?_update hr)
    rw [hr, houtcome]
  · exact Dict.get?_update_eq_none.2 hmem

/-- `ainvoke` returns the outcomes in the order of the targets. -/
theorem ainvoke_of_perm (hreturn : fan.returnExceptions = true) {outcome : String → Except ε α}
    {results : List (String × Except ε α)}
    (hperm : results.Perm (fan.labels.map fun label => (label, outcome label))) :
    fan.ainvoke results = some (.ok
      (Dict.empty.update (fan.labels.map fun label => (label, outcome label)))) := by
  have hzip : fan.labels.zip (fan.labels.map outcome) =
      fan.labels.map fun label => (label, outcome label) := by
    simpa using List.zip_map' (f := id) (g := outcome) (l := fan.labels)
  rw [ainvoke, hreturn, TaskSet.gather_of_perm nodup_labels labels_ne_nil hperm, Option.map_some,
    Except.map, hzip]

end

/-- With `return_exceptions=True`, and targets whose outcomes are values or exceptions : whatever
the order in which the tasks end and the waits return, `astream` yields at most one pair for each
label, with its outcome. Unless it is interrupted it cannot get stuck, and it returns with one
pair for each label, of which the dictionary is the one that `ainvoke` returns, in whatever order
the outcomes reach that.

In every run, which is of bounded length, and however the generator ends, no task is left running
that was not asked to stop. -/
theorem astream_once (fan : PilotFanoutRunnable) {α ε : Type} (isException : ε → Bool) :
    (fan.returnExceptions = true → ∀ outcome : String → Except ε α,
      (∀ label ∈ fan.labels, ∀ e, outcome label = .error e → isException e = true) →
      ∀ as (s : Stream α ε), Machine.run (Stream.step fan isException) Stream.init as = some s →
      (∀ a ∈ as, a.Follows outcome) →
        (s.yielded.map Prod.fst).Nodup ∧
        (∀ p ∈ s.yielded, p.1 ∈ fan.labels ∧ p.2 = outcome p.1) ∧
        ((∀ a ∈ as, a.interrupts = false) →
          ((∀ how, s.phase ≠ .ended how) → ∃ a s', a.Follows outcome ∧ a.interrupts = false ∧
            s.step fan isException a = some s') ∧
          ∀ how, s.phase = .ended how → how = .returned ∧
            s.yielded.Perm (fan.labels.map fun label => (label, outcome label)) ∧
            ∀ results, results.Perm (fan.labels.map fun label => (label, outcome label)) →
              ∃ d, fan.ainvoke results = some (.ok d) ∧
                ∀ label, (Dict.empty.update s.yielded).get? label = d.get? label)) ∧
    ∀ as (s : Stream α ε), Machine.run (Stream.step fan isException) Stream.init as = some s →
      as.length ≤ 3 * fan.labels.length + 1 ∧
      ∀ how, s.phase = .ended how → ∀ label, s.tasks label ≠ .running false := by
  refine ⟨fun hreturn outcome hordinary as s hrun hfollows => ?_, fun as s hrun => ?_⟩
  · have hinv := inv_run hrun
    have hresult := resulting_run hreturn hordinary hrun hfollows
    obtain ⟨hnodup, hyielded⟩ := yielded_of_inv hinv
    have houtcome : ∀ p ∈ s.yielded, p.2 = outcome p.1 := by
      intro p hp
      have hpair := hresult p.1 _ (hyielded p hp).2
      exact congrArg Prod.snd (Except.ok.inj hpair)
    refine ⟨hnodup, fun p hp => ⟨(hyielded p hp).1, houtcome p hp⟩, fun hcalm => ?_⟩
    refine ⟨exists_step outcome hinv, fun how hphase => ?_⟩
    have hreturned := ended_run hreturn hordinary hrun hfollows hcalm how hphase
    have hperm := ((inv_ended hphase).1 hinv).returned hreturned
    refine ⟨hreturned, ?_, fun results hresults => ?_⟩
    · have hmap : s.yielded = (s.yielded.map Prod.fst).map fun label => (label, outcome label) := by
        rw [List.map_map]
        refine (List.map_id s.yielded).symm.trans (List.map_congr_left fun p hp => ?_)
        exact Prod.ext rfl (houtcome p hp)
      rw [hmap]
      exact hperm.map _
    · refine ⟨_, ainvoke_of_perm hreturn hresults, fun label => ?_⟩
      have hpairs : ∀ p ∈ fan.labels.map fun label => (label, outcome label),
          p.2 = outcome p.1 := by
        simp
      rw [get?_pairs houtcome, get?_pairs hpairs, List.map_map]
      simp only [hperm.mem_iff, Function.comp_def, List.map_id']
  · exact ⟨length_le_of_run hrun, fun how hphase =>
      ((inv_ended hphase).1 (inv_run hrun)).stopped⟩

/-- Two targets. -/
def searchAndScore : PilotFanoutRunnable where
  targets := (Dict.empty.set "search" ⟨"search", "worker-a", "30"⟩).set "score"
    ⟨"score", "worker-b", "30"⟩
  targets_ne_nil := by decide
  returnExceptions := true

/-- The second target replies first, the other one fails, and both have their pair. -/
theorem astream_once_searchAndScore :
    ∃ s : Stream ℕ String, Machine.run (Stream.step searchAndScore fun _ => true) Stream.init
        [.next, .finish "score" (.ok 3), .wake ["score"], .finish "search" (.error "busy"), .next,
          .wake ["search"], .next] = some s ∧
      s.yielded.Perm [("search", .error "busy"), ("score", .ok 3)] ∧
      ∀ label, s.tasks label ≠ .running false := by
  obtain ⟨s, hrun, hphase⟩ : ∃ s : Stream ℕ String,
      Machine.run (Stream.step searchAndScore fun _ => true) Stream.init
        [.next, .finish "score" (.ok 3), .wake ["score"], .finish "search" (.error "busy"), .next,
          .wake ["search"], .next] = some s ∧ s.phase = .ended .returned := ⟨_, rfl, rfl⟩
  let outcome (label : String) : Except String ℕ :=
    if label = "search" then .error "busy" else .ok 3
  obtain ⟨honce, hstopped⟩ := @astream_once searchAndScore ℕ String fun _ => true
  obtain ⟨-, -, hend⟩ := honce rfl outcome (fun _ _ _ _ => rfl) _ s hrun
    (by simp [Action.Follows, outcome])
  obtain ⟨-, hreturned⟩ := hend (by simp [Action.interrupts])
  exact ⟨s, hrun, (hreturned _ hphase).2.1, (hstopped _ s hrun).2 _ hphase⟩

end PilotFanoutRunnable

end PilotLanggraph

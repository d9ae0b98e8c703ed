import PilotLanggraph.Lib.Machine
import PilotLanggraph.Retries

/-!
# The synchronous stream

`stream` runs `astream` on the loop of another thread, which fills a queue, and takes from the
queue what it yields : `_drain` puts each value, then the exception if there is one, then a
sentinel. The two sides run as they like. `stream_eq_astream` says that the caller gets the values
of `astream`, in order, and its end; that the caller is never left waiting, unless the loop was
stopped; and that every run ends.
-/

namespace PilotLanggraph

/-- How an asynchronous iteration ends. `cancelled` is an exception that is no `Exception`. -/
inductive IterationEnd
  | returned
  | raised (e : CallError)
  | cancelled
  | waiting
  deriving DecidableEq

/-- An asynchronous iteration : its values and how it ends. -/
structure Iteration where
  values : List Json
  ending : IterationEnd

/-- The iteration of `astream`. -/
def StreamRun.iteration (run : StreamRun) : Iteration where
  values := run.chunks
  ending :=
    match run.outcome with
    | .returned _ => .returned
    | .raised e => .raised e
    | .waiting => .waiting

/-- What stands in the queue. -/
inductive SyncItem
  | value (v : Json)
  | error (e : CallError)
  | sentinel
  deriving DecidableEq

/-- What `_drain` puts when the iteration ends : `except` and `finally`. -/
def IterationEnd.items : IterationEnd → List SyncItem
  | .returned => [.sentinel]
  | .raised e => [.error e, .sentinel]
  | .cancelled => [.sentinel]
  | .waiting => []

/-- Where the caller's thread is. -/
inductive SyncCaller
  /-- Before `run_coroutine_threadsafe(queue.get(), loop)`. -/
  | calling
  /-- In `.result()`, and `queue.get()` has nothing yet. -/
  | waiting
  /-- `queue.get()` has an item. -/
  | resumed (item : SyncItem)
  /-- At `yield v`. -/
  | suspended
  | returned
  | raised (e : CallError)
  /-- Closed at a `yield`. -/
  | closed
  deriving DecidableEq

/-- The two sides, once `stream` has scheduled `_drain`. `seen` is what was yielded. -/
structure SyncStream where
  rest : List Json
  drained : Bool
  queue : List SyncItem
  running : Bool
  caller : SyncCaller
  seen : List Json

/-- What can happen. `stop` is `sync_loop.stop()`. -/
inductive SyncAction
  | drain
  | get
  | serve
  | resume
  | next
  | close
  | stop
  deriving DecidableEq

namespace SyncStream

def init (g : Iteration) : SyncStream :=
  ⟨g.values, false, [], true, .calling, []⟩

/-- What the caller makes of an item. -/
def receive (s : SyncStream) : SyncItem → SyncStream
  | .value v => { s with caller := .suspended, seen := s.seen ++ [v] }
  | .error e => { s with caller := .raised e }
  | .sentinel => { s with caller := .returned }

/-- The loop steps while it runs, the caller whenever it can. -/
def step (g : Iteration) (s : SyncStream) : SyncAction → Option SyncStream
  | .drain =>
    if s.running ∧ !s.drained then
      match s.rest with
      | v :: rest => some { s with rest, queue := s.queue ++ [.value v] }
      | [] =>
        if g.ending = .waiting then none
        else some { s with drained := true, queue := s.queue ++ g.ending.items }
    else none
  | .get => if s.caller = .calling then some { s with caller := .waiting } else none
  | .serve =>
    match s.queue with
    | item :: queue =>
      if s.running ∧ s.caller = .waiting then some { s with queue, caller := .resumed item }
      else none
    | [] => none
  | .resume =>
    match s.caller with
    | .resumed item => some (s.receive item)
    | _ => none
  | .next => if s.caller = .suspended then some { s with caller := .calling } else none
  | .close => if s.caller = .suspended then some { s with caller := .closed } else none
  | .stop => if s.running then some { s with running := false } else none

/-- What the caller is still to get. -/
def pending (g : Iteration) (s : SyncStream) : List SyncItem :=
  (match s.caller with
    | .resumed item => [item]
    | _ => []) ++ s.queue ++
  match s.drained with
    | true => []
    | false => s.rest.map .value ++ g.ending.items

/-- What was yielded and what is still to come are the iteration, and an end is its end. -/
def Faithful (g : Iteration) (s : SyncStream) : Prop :=
  match s.caller with
  | .returned => s.seen = g.values ∧ (g.ending = .returned ∨ g.ending = .cancelled)
  | .raised e => s.seen = g.values ∧ g.ending = .raised e
  | .closed => s.seen <+: g.values
  | _ => s.seen.map .value ++ s.pending g = g.values.map .value ++ g.ending.items

/-- A caller that is not at an end is still to get what was not yielded. -/
theorem pending_of_faithful {g : Iteration} {s : SyncStream} (h : s.Faithful g)
    (hret : s.caller ≠ .returned) (hraised : ∀ e, s.caller ≠ .raised e)
    (hclosed : s.caller ≠ .closed) :
    s.seen.map .value ++ s.pending g = g.values.map .value ++ g.ending.items := by
  unfold Faithful at h
  split at h
  · exact absurd ‹_› hret
  · exact absurd ‹_› (hraised _)
  · exact absurd ‹_› hclosed
  · exact h

variable {g : Iteration} {s s' : SyncStream}

/-- Values before an item that is none : the values end where the others do. -/
theorem values_eq_of_item {seen values : List Json} {item : SyncItem} {more items : List SyncItem}
    (hitem : ∀ v, item ≠ .value v) (hitems : ∀ v, SyncItem.value v ∉ items)
    (h : seen.map .value ++ item :: more = values.map .value ++ items) :
    seen = values ∧ item :: more = items := by
  induction seen generalizing values with
  | nil =>
    cases values with
    | nil => exact ⟨rfl, h⟩
    | cons v values => exact absurd (List.cons.inj h).1 (hitem v)
  | cons v seen ih =>
    cases values with
    | nil =>
      rw [List.map_nil, List.nil_append] at h
      exact absurd (h ▸ List.mem_cons_self) (hitems v)
    | cons w values =>
      obtain ⟨hhead, htail⟩ := List.cons.inj h
      obtain ⟨rfl, hmore⟩ := ih htail
      cases hhead
      exact ⟨rfl, hmore⟩

theorem value_not_mem_items (ending : IterationEnd) (v : Json) : .value v ∉ ending.items := by
  cases ending <;> simp [IterationEnd.items]

/-- Values before a value : the caller has seen less than there is. -/
theorem prefix_of_values {seen values : List Json} {more items : List SyncItem}
    (hitems : ∀ v, SyncItem.value v ∉ items)
    (h : seen.map .value ++ more = values.map .value ++ items) : seen <+: values := by
  induction seen generalizing values with
  | nil => exact List.nil_prefix
  | cons v seen ih =>
    cases values with
    | nil =>
      rw [List.map_nil, List.nil_append] at h
      exact absurd (h ▸ List.mem_cons_self) (hitems v)
    | cons w values =>
      obtain ⟨hhead, htail⟩ := List.cons.inj h
      cases hhead
      exact List.cons_prefix_cons.2 ⟨rfl, ih htail⟩

/-! ## Each step -/

theorem faithful_receive {item : SyncItem} (h : s.Faithful g) (hcaller : s.caller = .resumed item) :
    (s.receive item).Faithful g := by
  have hpending := pending_of_faithful h (by simp [hcaller]) (by simp [hcaller]) (by simp [hcaller])
  simp only [pending, hcaller, List.cons_append, List.nil_append] at hpending
  cases item with
  | value v => simpa [Faithful, receive, pending] using hpending
  | error e =>
    obtain ⟨hseen, hitems⟩ := values_eq_of_item (by simp) (value_not_mem_items _) hpending
    refine ⟨hseen, ?_⟩
    cases hending : g.ending with
    | raised e' =>
      rw [hending, IterationEnd.items, List.cons.injEq, SyncItem.error.injEq] at hitems
      rw [hitems.1]
    | returned | cancelled | waiting =>
      rw [hending] at hitems
      simp [IterationEnd.items] at hitems
  | sentinel =>
    obtain ⟨hseen, hitems⟩ := values_eq_of_item (by simp) (value_not_mem_items _) hpending
    refine ⟨hseen, ?_⟩
    cases hending : g.ending with
    | returned => exact .inl rfl
    | cancelled => exact .inr rfl
    | raised e | waiting =>
      rw [hending] at hitems
      simp [IterationEnd.items] at hitems

/-- `_drain` puts a value, or what its end puts. -/
theorem drain_cases (h : s.step g .drain = some s') :
    s.running = true ∧ s.drained = false ∧
      ((∃ v rest, s.rest = v :: rest ∧ s' = { s with rest, queue := s.queue ++ [.value v] }) ∨
        (s.rest = [] ∧ g.ending ≠ .waiting ∧
          s' = { s with drained := true, queue := s.queue ++ g.ending.items })) := by
  simp only [step] at h
  by_cases hrun : s.running ∧ !s.drained
  · rw [if_pos hrun] at h
    refine ⟨hrun.1, by simpa using hrun.2, ?_⟩
    cases hrest : s.rest with
    | cons v rest =>
      simp only [hrest, Option.some.injEq] at h
      exact .inl ⟨v, rest, rfl, h.symm⟩
    | nil =>
      simp only [hrest] at h
      by_cases hending : g.ending = .waiting
      · rw [if_pos hending] at h
        cases h
      · rw [if_neg hending, Option.some.injEq] at h
        exact .inr ⟨rfl, hending, h.symm⟩
  · rw [if_neg hrun] at h
    cases h

/-- What `_drain` puts was still to come. -/
theorem pending_drain (h : s.step g .drain = some s') :
    s'.caller = s.caller ∧ s'.seen = s.seen ∧ s'.pending g = s.pending g := by
  obtain ⟨-, hdrained, ⟨v, rest, hrest, rfl⟩ | ⟨hrest, -, rfl⟩⟩ := drain_cases h
  · simp [pending, hdrained, hrest]
  · simp [pending, hdrained, hrest]

theorem faithful_step {a : SyncAction} (h : s.Faithful g) (hstep : s.step g a = some s') :
    s'.Faithful g := by
  cases a with
  | drain =>
    obtain ⟨hcaller, hseen, hpending⟩ := pending_drain hstep
    simpa only [Faithful, hcaller, hseen, hpending] using h
  | get =>
    simp only [step] at hstep
    split_ifs at hstep with hcaller
    cases hstep
    simpa [Faithful, pending, hcaller] using h
  | serve =>
    cases hqueue : s.queue with
    | nil => simp [step, hqueue] at hstep
    | cons item queue =>
      simp only [step, hqueue] at hstep
      split_ifs at hstep with hserve
      cases hstep
      simpa [Faithful, pending, hserve.2, hqueue] using h
  | resume =>
    cases hcaller : s.caller with
    | resumed item =>
      simp only [step, hcaller, Option.some.injEq] at hstep
      exact hstep ▸ faithful_receive h hcaller
    | _ => simp [step, hcaller] at hstep
  | next =>
    simp only [step] at hstep
    split_ifs at hstep with hcaller
    cases hstep
    simpa [Faithful, pending, hcaller] using h
  | close =>
    simp only [step] at hstep
    split_ifs at hstep with hcaller
    cases hstep
    simp only [Faithful, hcaller] at h
    exact prefix_of_values (value_not_mem_items _) h
  | stop =>
    simp only [step] at hstep
    split_ifs at hstep
    cases hstep
    exact h

theorem ended_step {a : SyncAction} (h : s.drained → g.ending ≠ .waiting)
    (hstep : s.step g a = some s') : s'.drained → g.ending ≠ .waiting := by
  cases a with
  | drain =>
    obtain ⟨-, -, ⟨v, rest, -, rfl⟩ | ⟨-, hending, rfl⟩⟩ := drain_cases hstep
    · exact h
    · exact fun _ => hending
  | serve =>
    cases hqueue : s.queue with
    | nil => simp [step, hqueue] at hstep
    | cons item queue =>
      simp only [step, hqueue] at hstep
      split_ifs at hstep
      cases hstep
      exact h
  | resume =>
    cases hcaller : s.caller with
    | resumed item =>
      simp only [step, hcaller, Option.some.injEq] at hstep
      subst hstep
      cases item <;> exact h
    | _ => simp [step, hcaller] at hstep
  | get | next | close | stop =>
    simp only [step] at hstep
    split_ifs at hstep
    cases hstep
    exact h

/-- Of every reachable state. -/
theorem inv_run {as : List SyncAction} (hrun : Machine.run (step g) (init g) as = some s) :
    s.Faithful g ∧ (s.drained → g.ending ≠ .waiting) := by
  refine Machine.run_invariant (fun s => s.Faithful g ∧ (s.drained → g.ending ≠ .waiting))
    (fun _ _ => True) (fun h _ hstep => ⟨faithful_step h.1 hstep, ended_step h.2 hstep⟩)
    ⟨rfl, fun h => by cases h⟩ (Machine.along_of_forall (fun _ _ _ => trivial) _) hrun

theorem prefix_of_faithful (h : s.Faithful g) : s.seen <+: g.values := by
  cases hcaller : s.caller with
  | returned | raised e =>
    simp only [Faithful, hcaller] at h
    exact h.1 ▸ List.prefix_rfl
  | closed =>
    simpa only [Faithful, hcaller] using h
  | _ =>
    exact prefix_of_values (value_not_mem_items _)
      (pending_of_faithful h (by simp [hcaller]) (by simp [hcaller]) (by simp [hcaller]))

/-! ## What is left -/

/-- What the caller has still to do with what it has. -/
def callerWork : SyncCaller → ℕ
  | .calling => 1
  | .resumed _ => 3
  | .suspended => 2
  | _ => 0

/-- What is left to do. A value costs five steps, from `put_nowait` to the next call. -/
def work (s : SyncStream) : ℕ :=
  5 * s.rest.length + 9 * (!s.drained).toNat + 4 * s.queue.length + s.running.toNat +
    callerWork s.caller

theorem length_items_le (ending : IterationEnd) : ending.items.length ≤ 2 := by
  cases ending <;> simp [IterationEnd.items]

/-- Each step uses up some of the work. -/
theorem work_step {a : SyncAction} (h : s.step g a = some s') : s'.work + 1 ≤ s.work := by
  cases a with
  | drain =>
    obtain ⟨-, hdrained, ⟨v, rest, hrest, rfl⟩ | ⟨hrest, -, rfl⟩⟩ := drain_cases h
    · simp only [work, hrest, List.length_cons, List.length_append, List.length_nil]
      omega
    · have hitems := length_items_le g.ending
      simp only [work, hrest, hdrained, List.length_append, List.length_nil, Bool.not_true,
        Bool.not_false, Bool.toNat_true, Bool.toNat_false]
      omega
  | get =>
    simp only [step] at h
    split_ifs at h with hcaller
    cases h
    simp only [work, hcaller, callerWork]
    omega
  | serve =>
    cases hqueue : s.queue with
    | nil => simp [step, hqueue] at h
    | cons item queue =>
      simp only [step, hqueue] at h
      split_ifs at h with hserve
      cases h
      simp only [work, hserve.2, hqueue, callerWork, List.length_cons]
      omega
  | resume =>
    cases hcaller : s.caller with
    | resumed item =>
      simp only [step, hcaller, Option.some.injEq] at h
      subst h
      cases item with
      | value v | error e | sentinel =>
        simp only [work, receive, hcaller, callerWork]
        omega
    | _ => simp [step, hcaller] at h
  | next | close =>
    simp only [step] at h
    split_ifs at h with hcaller
    cases h
    simp only [work, hcaller, callerWork]
    omega
  | stop =>
    simp only [step] at h
    split_ifs at h with hrunning
    cases h
    simp only [work, hrunning, Bool.toNat_true, Bool.toNat_false]
    omega

/-! ## Nobody is left waiting -/

/-- Nothing goes on by itself : the caller may close the stream, and the loop may be stopped. -/
def Blocked (g : Iteration) (s : SyncStream) : Prop :=
  ∀ a, a ≠ .close → a ≠ .stop → s.step g a = none

/-- `astream` is over, or it waits for ever and gave all its values. -/
def Drained (g : Iteration) (s : SyncStream) : Prop :=
  s.drained ∨ g.ending = .waiting ∧ s.rest = []

theorem drained_of_blocked (h : s.Blocked g) (hrunning : s.running) : s.Drained g := by
  have hdrain := h .drain (by simp) (by simp)
  simp only [step] at hdrain
  by_cases hdrained : s.drained
  · exact .inl hdrained
  · rw [if_pos ⟨hrunning, by simpa using hdrained⟩] at hdrain
    cases hrest : s.rest with
    | cons v rest => simp [hrest] at hdrain
    | nil =>
      simp only [hrest, ite_eq_left_iff, reduceCtorEq, imp_false, not_not] at hdrain
      exact .inr ⟨hdrain, hrest⟩

/-- A caller at which nothing goes on has its end, or has closed the stream, or waits for an
`astream` that does not end. -/
theorem caller_of_blocked (hfaithful : s.Faithful g) (hended : s.drained → g.ending ≠ .waiting)
    (h : s.Blocked g) (hrunning : s.running) :
    s.caller = .returned ∨ (∃ e, s.caller = .raised e) ∨ s.caller = .closed ∨
      s.caller = .waiting ∧ g.ending = .waiting ∧ s.seen = g.values := by
  have hdrained := drained_of_blocked h hrunning
  cases hcaller : s.caller with
  | returned => exact .inl rfl
  | raised e => exact .inr (.inl ⟨e, rfl⟩)
  | closed => exact .inr (.inr (.inl rfl))
  | calling =>
    have hget := h .get (by simp) (by simp)
    simp [step, hcaller] at hget
  | resumed item =>
    have hresume := h .resume (by simp) (by simp)
    simp [step, hcaller] at hresume
  | suspended =>
    have hnext := h .next (by simp) (by simp)
    simp [step, hcaller] at hnext
  | waiting =>
    have hserve := h .serve (by simp) (by simp)
    have hqueue : s.queue = [] := by
      cases hqueue : s.queue with
      | nil => rfl
      | cons item queue => simp [step, hqueue, hrunning, hcaller] at hserve
    have hpending := pending_of_faithful hfaithful (by simp [hcaller]) (by simp [hcaller])
      (by simp [hcaller])
    simp only [pending, hcaller, hqueue, List.nil_append] at hpending
    rcases hdrained with hdrained | ⟨hending, hrest⟩
    · -- The sentinel was put, and is neither in the queue nor with the caller.
      have hitems : g.ending.items = [] := by
        simp only [hdrained, List.append_nil] at hpending
        refine List.eq_nil_iff_forall_not_mem.2 fun item hitem => ?_
        have hmem : item ∈ s.seen.map .value := hpending ▸ List.mem_append_right _ hitem
        obtain ⟨v, -, rfl⟩ := List.mem_map.1 hmem
        exact value_not_mem_items _ v hitem
      cases hending : g.ending with
      | waiting => exact absurd hending (hended hdrained)
      | returned | raised e | cancelled => simp [hending, IterationEnd.items] at hitems
    · refine .inr (.inr (.inr ⟨rfl, hending, ?_⟩))
      have hvalues : s.seen.map SyncItem.value = g.values.map .value := by
        cases hdrained : s.drained <;>
          simpa [hrest, hending, hdrained, IterationEnd.items] using hpending
      exact List.map_injective_iff.2 (fun v w hvw => SyncItem.value.inj hvw) hvalues

/-! ## Every run -/

/-- The caller of `stream` gets the values of `astream`, in order and none of them twice, and its
end : an exception of `astream` is raised after all its values, and no other. A run in which the
loop is not stopped goes on until the caller has the end, or has closed the stream, and `astream`
was read to its end even then; and no run is longer than the values allow. -/
theorem stream_eq_astream {g : Iteration} {as : List SyncAction} {s : SyncStream}
    (hrun : Machine.run (step g) (init g) as = some s) :
    s.seen <+: g.values ∧
      (s.caller = .returned → s.seen = g.values ∧
        (g.ending = .returned ∨ g.ending = .cancelled)) ∧
      (∀ e, s.caller = .raised e → s.seen = g.values ∧ g.ending = .raised e) ∧
      (s.Blocked g → s.running → s.Drained g ∧
        (s.caller = .returned ∨ (∃ e, s.caller = .raised e) ∨ s.caller = .closed ∨
          s.caller = .waiting ∧ g.ending = .waiting ∧ s.seen = g.values)) ∧
      as.length ≤ 5 * g.values.length + 11 := by
  obtain ⟨hfaithful, hended⟩ := inv_run hrun
  refine ⟨prefix_of_faithful hfaithful, fun h => ?_, fun e h => ?_, fun h hrunning =>
    ⟨drained_of_blocked h hrunning, caller_of_blocked hfaithful hended h hrunning⟩, ?_⟩
  · simpa only [Faithful, h] using hfaithful
  · simpa only [Faithful, h] using hfaithful
  · have hlength := Machine.length_le_of_measure (fun _ => True) work
      (fun _ hstep => ⟨trivial, work_step hstep⟩) trivial hrun
    have hinit : (init g).work = 5 * g.values.length + 11 := by
      simp [work, init, callerWork]
    omega

/-- A stream of `1` and `2`, of which the second is put before the first is taken. -/
def twoChunks : StreamRun :=
  ⟨[.int 1, .int 2], .returned (), 1, []⟩

def twoChunksActions : List SyncAction :=
  [.get, .drain, .serve, .drain, .resume, .drain, .next, .get, .serve, .resume, .next, .get, .serve,
    .resume]

theorem run_twoChunksActions :
    Machine.run (step twoChunks.iteration) (init twoChunks.iteration) twoChunksActions =
      some ⟨[], true, [], true, .returned, [.int 1, .int 2]⟩ :=
  rfl

theorem stream_eq_astream_twoChunks :
    ∃ s, Machine.run (step twoChunks.iteration) (init twoChunks.iteration) twoChunksActions =
      some s ∧ s.seen = twoChunks.chunks :=
  ⟨_, run_twoChunksActions, ((stream_eq_astream run_twoChunksActions).2.1 rfl).1⟩

end SyncStream

end PilotLanggraph

import PilotLanggraph.Fanout

/-!
# Failing fast

Without `return_exceptions`, the first target that fails ends the fan-out. Which failure is raised
depends on the order in which the tasks end, and on the order of a set where several end between
two waits; that one is raised does not. `astream_failfast` says that `astream` yields values only,
that it returns exactly when every target has a value, and that `ainvoke` returns exactly then,
with the same values.
-/

namespace PilotLanggraph

namespace PilotFanoutRunnable

section

variable {α ε : Type} {fan : PilotFanoutRunnable} {isException : ε → Bool} {s s' : Stream α ε}
  {a : Action α ε} {label : String} {pending : List String} {outcome : String → Except ε α}

/-- The results are those of `_wrapped`, on the outcomes. -/
def Wrapping (fan : PilotFanoutRunnable) (isException : ε → Bool) (outcome : String → Except ε α)
    (s : Stream α ε) : Prop :=
  ∀ label r, s.tasks label = .finished r → label ∈ fan.labels ∧
    r = fan.wrapped isException label (outcome label)

theorem wrapping_step (hinv : Inv fan isException s) (h : Wrapping fan isException outcome s)
    (hfollows : a.Follows outcome) (hstep : s.step fan isException a = some s') :
    Wrapping fan isException outcome s' := by
  intro label r hr
  cases moves_of_step hstep with
  | begin hphase =>
    change s.tasks.create fan.labels label = .finished r at hr
    unfold TaskSet.create at hr
    split_ifs at hr
    exact h label r hr
  | loop rest pending s' hphase hdeliver => exact h label r (tasks_deliver hdeliver hr)
  | finish label' result tasks hfinish =>
    rcases TaskSet.finished_of_finish hfinish hr with hr | ⟨rfl, rfl⟩
    · exact h label r hr
    · obtain rfl : result = outcome label := hfollows
      exact ⟨mem_labels_of_running hinv (TaskSet.finish_cases hfinish).1, rfl⟩
  | wake order pending s' hphase horder hne hdeliver =>
    exact h label r (tasks_deliver hdeliver hr)
  | drop a how hphase hinterrupts hhow => exact h label r hr
  | stop a rest pending how hphase hinterrupts hhow =>
    exact h label r (TaskSet.finished_of_cancel hr)

theorem wrapping_run {as : List (Action α ε)}
    (hrun : Machine.run (Stream.step fan isException) Stream.init as = some s)
    (hfollows : ∀ a ∈ as, a.Follows outcome) : Wrapping fan isException outcome s := by
  refine Machine.run_induction
    (fun as s => (∀ a ∈ as, a.Follows outcome) → Wrapping fan isException outcome s)
    (fun _ _ _ h => (by cases h)) (fun hrun h hstep hfollows => ?_) hrun hfollows
  rw [List.forall_mem_append, List.forall_mem_singleton] at hfollows
  exact wrapping_step (inv_run hrun) (h hfollows.1) hfollows.2 hstep

/-- How a generator ends that nobody interrupts : it returns, or it raises what a target raised. -/
def EndsBy (fan : PilotFanoutRunnable) (isException : ε → Bool) (outcome : String → Except ε α)
    (s : Stream α ε) : Prop :=
  ∀ how, s.phase = .ended how → how = .returned ∨ ∃ label ∈ fan.labels, ∃ e, how = .raised e ∧
    fan.wrapped isException label (outcome label) = .error e

theorem endsBy_deliver {done : List String} (h : Wrapping fan isException outcome s)
    (hdeliver : s.deliver pending done = some s') : EndsBy fan isException outcome s' := by
  intro how hphase
  rcases deliver_cases hdeliver with ⟨-, -, rfl⟩ | ⟨-, -, rfl⟩ | ⟨t, rest, pair, -, -, rfl⟩ |
    ⟨t, rest, e, -, he, rfl⟩
  · cases hphase
    exact .inl rfl
  · cases hphase
  · cases hphase
  · cases hphase
    obtain ⟨hmem, hwrapped⟩ := h t _ he
    exact .inr ⟨t, hmem, e, rfl, hwrapped.symm⟩

theorem endsBy_step (h : Wrapping fan isException outcome s)
    (hended : EndsBy fan isException outcome s) (hcalm : a.interrupts = false)
    (hstep : s.step fan isException a = some s') : EndsBy fan isException outcome s' := by
  cases moves_of_step hstep with
  | begin hphase => exact fun _ h => by cases h
  | loop rest pending s' hphase hdeliver => exact endsBy_deliver h hdeliver
  | finish label result tasks hfinish => exact hended
  | wake order pending s' hphase horder hne hdeliver => exact endsBy_deliver h hdeliver
  | drop a how hphase hinterrupts hhow => cases hcalm.symm.trans hinterrupts
  | stop a rest pending how hphase hinterrupts hhow => cases hcalm.symm.trans hinterrupts

theorem endsBy_run {as : List (Action α ε)}
    (hrun : Machine.run (Stream.step fan isException) Stream.init as = some s)
    (hfollows : ∀ a ∈ as, a.Follows outcome) (hcalm : ∀ a ∈ as, a.interrupts = false) :
    EndsBy fan isException outcome s := by
  refine Machine.run_induction (fun as s => (∀ a ∈ as, a.Follows outcome) →
    (∀ a ∈ as, a.interrupts = false) → EndsBy fan isException outcome s)
    (fun _ _ _ h => by cases h) (fun hrun h hstep hfollows hcalm => ?_) hrun hfollows hcalm
  rw [List.forall_mem_append, List.forall_mem_singleton] at hfollows hcalm
  exact endsBy_step (wrapping_run hrun hfollows.1) (h hfollows.1 hcalm.1) hcalm.2 hstep

/-! ## Without `return_exceptions` -/

theorem wrapped_of_failfast (hfail : fan.returnExceptions = false) (label : String)
    (result : Except ε α) :
    fan.wrapped isException label result = result.map fun value => (label, .ok value) := by
  cases result with
  | ok value => rfl
  | error e => simp [wrapped, hfail, Except.map]

/-- What is yielded is a value. -/
theorem value_of_wrapping (hfail : fan.returnExceptions = false)
    (h : Wrapping fan isException outcome s) {p : String × Except ε α}
    (hp : s.tasks p.1 = .finished (.ok p)) :
    ∃ value, outcome p.1 = .ok value ∧ p.2 = .ok value := by
  obtain ⟨-, hwrapped⟩ := h p.1 _ hp
  rw [wrapped_of_failfast hfail] at hwrapped
  cases houtcome : outcome p.1 with
  | ok value =>
    rw [houtcome] at hwrapped
    exact ⟨value, rfl, congrArg Prod.snd (Except.ok.inj hwrapped)⟩
  | error e =>
    rw [houtcome] at hwrapped
    cases hwrapped

/-- Pairs with their outcomes are those of their labels. -/
theorem map_outcome {ps : List (String × Except ε α)} (h : ∀ p ∈ ps, p.2 = outcome p.1) :
    ps = (ps.map Prod.fst).map fun label => (label, outcome label) := by
  rw [List.map_map]
  refine (List.map_id ps).symm.trans (List.map_congr_left fun p hp => ?_)
  exact Prod.ext rfl (h p hp)

/-- If every target has a value, `ainvoke` has them all. -/
theorem ainvoke_of_values (hvalues : ∀ label ∈ fan.labels, ∃ value, outcome label = .ok value)
    {results : List (String × Except ε α)}
    (hperm : results.Perm (fan.labels.map fun label => (label, outcome label))) :
    fan.ainvoke results = some (.ok
      (Dict.empty.update (fan.labels.map fun label => (label, outcome label)))) := by
  have hzip : fan.labels.zip (fan.labels.map outcome) =
      fan.labels.map fun label => (label, outcome label) := by
    simpa using List.zip_map' (f := id) (g := outcome) (l := fan.labels)
  have hquiet : ∀ child ∈ results, TaskSet.Quiet fan.returnExceptions child := by
    intro child hchild
    obtain ⟨label, hlabel, rfl⟩ := List.mem_map.1 (hperm.subset hchild)
    exact .inr (hvalues label hlabel)
  rw [ainvoke, TaskSet.gather_of_quiet nodup_labels labels_ne_nil hperm hquiet, Option.map_some,
    Except.map, hzip]

/-- If a target fails, `ainvoke` raises the first failure. -/
theorem ainvoke_of_failure (hfail : fan.returnExceptions = false) {e : ε}
    (hlabel : label ∈ fan.labels) (he : outcome label = .error e)
    {results : List (String × Except ε α)}
    (hperm : results.Perm (fan.labels.map fun label => (label, outcome label))) :
    ∃ first ∈ fan.labels, ∃ e', outcome first = .error e' ∧
      fan.ainvoke results = some (.error e') := by
  have hmem : (label, .error e) ∈ results := by
    refine hperm.mem_iff.2 (List.mem_map.2 ⟨label, hlabel, ?_⟩)
    rw [he]
  obtain ⟨before, first, e', after, rfl, hbefore⟩ := TaskSet.exists_first_error hmem
  obtain ⟨first', hfirst, heq⟩ := List.mem_map.1 (hperm.subset (by simp : (first, .error e') ∈ _))
  obtain ⟨rfl, he'⟩ := Prod.mk.inj heq
  have hlt : before.length < fan.labels.length := by
    have hlength := hperm.length_eq
    rw [List.length_map, List.length_append, List.length_cons] at hlength
    omega
  refine ⟨first', hfirst, e', he', ?_⟩
  rw [ainvoke, hfail, TaskSet.gather_of_error hbefore hlt]
  rfl

end

/-- Without `return_exceptions` : in every run, whatever the order in which the tasks end and the
waits return, what was yielded are the values of targets, each at most once. Unless it is
interrupted the generator goes on until it is over. If it returns, then every target has a value,
each was yielded, and `ainvoke` returns the same dictionary, in whatever order the values reach
it. If it raises, it raises what a target raised, no task runs on that was not asked to stop, and
`ainvoke` raises, too : the first failure that reaches it. -/
theorem astream_failfast (fan : PilotFanoutRunnable) (hfail : fan.returnExceptions = false)
    {α ε : Type} (isException : ε → Bool) (outcome : String → Except ε α) {as : List (Action α ε)}
    {s : Stream α ε} (hrun : Machine.run (Stream.step fan isException) Stream.init as = some s)
    (hfollows : ∀ a ∈ as, a.Follows outcome) :
    (s.yielded.map Prod.fst).Nodup ∧
    (∀ p ∈ s.yielded, p.1 ∈ fan.labels ∧
      ∃ value, outcome p.1 = .ok value ∧ p.2 = .ok value) ∧
    ((∀ a ∈ as, a.interrupts = false) →
      ((∀ how, s.phase ≠ .ended how) → ∃ a s', a.Follows outcome ∧ a.interrupts = false ∧
        s.step fan isException a = some s') ∧
      ∀ how, s.phase = .ended how →
        how = .returned ∧ (∀ label ∈ fan.labels, ∃ value, outcome label = .ok value) ∧
          s.yielded.Perm (fan.labels.map fun label => (label, outcome label)) ∧
          (∀ results, results.Perm (fan.labels.map fun label => (label, outcome label)) →
            ∃ d, fan.ainvoke results = some (.ok d) ∧
              ∀ label, (Dict.empty.update s.yielded).get? label = d.get? label) ∨
        (∃ label ∈ fan.labels, ∃ e, how = .raised e ∧ outcome label = .error e) ∧
          (∀ label, s.tasks label ≠ .running false) ∧
          ∀ results, results.Perm (fan.labels.map fun label => (label, outcome label)) →
            ∃ first ∈ fan.labels, ∃ e, outcome first = .error e ∧
              fan.ainvoke results = some (.error e)) := by
  have hinv := inv_run hrun
  have hwrapping := wrapping_run hrun hfollows
  obtain ⟨hnodup, hyielded⟩ := yielded_of_inv hinv
  have hvalue : ∀ p ∈ s.yielded, ∃ value, outcome p.1 = .ok value ∧ p.2 = .ok value :=
    fun p hp => value_of_wrapping hfail hwrapping (hyielded p hp).2
  have houtcome : ∀ p ∈ s.yielded, p.2 = outcome p.1 := by
    intro p hp
    obtain ⟨value, hok, hpair⟩ := hvalue p hp
    rw [hok, hpair]
  refine ⟨hnodup, fun p hp => ⟨(hyielded p hp).1, hvalue p hp⟩, fun hcalm =>
    ⟨exists_step outcome hinv, fun how hphase => ?_⟩⟩
  have hover := (inv_ended hphase).1 hinv
  rcases endsBy_run hrun hfollows hcalm how hphase with rfl | ⟨label, hlabel, e, rfl, he⟩
  · have hperm := hover.returned rfl
    have hvalues : ∀ label ∈ fan.labels, ∃ value, outcome label = .ok value := by
      intro label hlabel
      obtain ⟨p, hp, rfl⟩ := List.mem_map.1 (hperm.mem_iff.2 hlabel)
      obtain ⟨value, hok, -⟩ := hvalue p hp
      exact ⟨value, hok⟩
    refine .inl ⟨rfl, hvalues, ?_, fun results hresults => ?_⟩
    · rw [map_outcome houtcome]
      exact hperm.map _
    · refine ⟨_, ainvoke_of_values hvalues hresults, fun label => ?_⟩
      have hpairs : ∀ p ∈ fan.labels.map fun label => (label, outcome label),
          p.2 = outcome p.1 := by
        simp
      rw [get?_pairs houtcome, get?_pairs hpairs, List.map_map]
      simp only [hperm.mem_iff, Function.comp_def, List.map_id']
  · rw [wrapped_of_failfast hfail] at he
    have he : outcome label = .error e := by
      cases houtcome : outcome label with
      | ok value =>
        rw [houtcome] at he
        cases he
      | error e' =>
        rw [houtcome] at he
        cases he
        rfl
    exact .inr ⟨⟨label, hlabel, e, rfl, he⟩, hover.stopped, fun results hresults =>
      ainvoke_of_failure hfail hlabel he hresults⟩

/-- Two targets, the second of which fails first. -/
theorem astream_failfast_searchAndScore :
    ∃ s : Stream ℕ String, Machine.run
        (Stream.step { searchAndScore with returnExceptions := false } fun _ => true) Stream.init
        [.next, .finish "score" (.error "busy"), .finish "search" (.ok 3),
          .wake ["search", "score"], .next] = some s ∧
      s.yielded = [("search", .ok 3)] ∧ (∀ label, s.tasks label ≠ .running false) := by
  let outcome (label : String) : Except String ℕ :=
    if label = "score" then .error "busy" else .ok 3
  obtain ⟨s, hrun, hyielded, hphase⟩ : ∃ s : Stream ℕ String, Machine.run
      (Stream.step { searchAndScore with returnExceptions := false } fun _ => true) Stream.init
      [.next, .finish "score" (.error "busy"), .finish "search" (.ok 3),
        .wake ["search", "score"], .next] = some s ∧ s.yielded = [("search", .ok 3)] ∧
      s.phase = .ended (.raised "busy") := ⟨_, rfl, rfl, rfl⟩
  obtain ⟨-, -, hend⟩ := astream_failfast { searchAndScore with returnExceptions := false } rfl
    (fun _ => true) outcome hrun (by simp [Action.Follows, outcome])
  rcases (hend (by simp [Action.interrupts])).2 _ hphase with ⟨hreturned, -⟩ | ⟨-, hstopped, -⟩
  · cases hreturned
  · exact ⟨s, hrun, hyielded, hstopped⟩

end PilotFanoutRunnable

end PilotLanggraph

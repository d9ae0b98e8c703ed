import Mathlib.Data.List.Induction

/-!
# Runs of a machine

A machine is a partial step function : `step s a` is the state after the action `a`, if
`a` can happen in `s`. `run` takes a whole sequence of actions, `Along` says that a
condition on states and actions holds at every step of it, and `run_invariant` carries
what each such step keeps to the end of the run, and `length_le_of_measure` bounds the run by
what each step uses up. In `run_induction` the invariant may also
speak of the actions taken so far. `outputs` collects what the steps of a run put out.
-/

namespace Machine

variable {σ α : Type*} (step : σ → α → Option σ)

/-- The state after a sequence of actions, if each can happen when its turn comes. -/
def run : σ → List α → Option σ
  | s, [] => some s
  | s, a :: as => (step s a).bind fun s' => run s' as

/-- The condition holds at every step of the sequence. -/
def Along (ok : σ → α → Prop) : σ → List α → Prop
  | _, [] => True
  | s, a :: as => ok s a ∧
    match step s a with
    | some s' => Along ok s' as
    | none => True

instance decidableAlong (ok : σ → α → Prop) [∀ s a, Decidable (ok s a)] :
    ∀ (s : σ) (as : List α), Decidable (Along step ok s as)
  | _, [] => inferInstanceAs (Decidable True)
  | s, a :: as =>
    match h : step s a with
    | some s' =>
      have := decidableAlong ok s' as
      decidable_of_iff (ok s a ∧ Along step ok s' as) (by simp only [Along, h])
    | none => decidable_of_iff (ok s a) (by simp only [Along, h, and_true])

/-- What the steps of the sequence put out. -/
def outputs {β : Type*} (out : σ → α → Option β) : σ → List α → List β
  | _, [] => []
  | s, a :: as => (out s a).toList ++
    match step s a with
    | some s' => outputs out s' as
    | none => []

variable {step}

theorem run_cons {s s'' : σ} {a : α} {as : List α} (h : run step s (a :: as) = some s'') :
    ∃ s', step s a = some s' ∧ run step s' as = some s'' :=
  Option.bind_eq_some_iff.1 h

/-- What every step keeps holds at the end of a run. -/
theorem run_invariant (Inv : σ → Prop) (ok : σ → α → Prop)
    (hstep : ∀ {s a s'}, Inv s → ok s a → step s a = some s' → Inv s') :
    ∀ {as : List α} {s s' : σ}, Inv s → Along step ok s as → run step s as = some s' → Inv s'
  | [], _, _, hs, _, hrun => Option.some.inj hrun ▸ hs
  | _ :: _, _, _, hs, hok, hrun => by
    obtain ⟨s₁, hs₁, hrun⟩ := run_cons hrun
    obtain ⟨hok, hrest⟩ := hok
    rw [hs₁] at hrest
    exact run_invariant Inv ok hstep (hstep hs hok hs₁) hrest hrun

/-- A condition that every step of a run meets. -/
theorem along_of_forall {ok : σ → α → Prop} {as : List α} (h : ∀ a ∈ as, ∀ s, ok s a) (s : σ) :
    Along step ok s as := by
  induction as generalizing s with
  | nil => trivial
  | cons a as ih =>
    refine ⟨h a (by simp) s, ?_⟩
    cases step s a with
    | none => trivial
    | some s' => exact ih (fun b hb => h b (List.mem_cons_of_mem _ hb)) s'

theorem along_cons {ok : σ → α → Prop} {as : List α} {s s' : σ} {a : α} (hok : ok s a)
    (hstep : step s a = some s') (h : Along step ok s' as) : Along step ok s (a :: as) := by
  refine ⟨hok, ?_⟩
  rwa [hstep]

/-- Two conditions that each hold along a run. -/
theorem Along.and {ok ok' : σ → α → Prop} {as : List α} {s : σ} (h : Along step ok s as)
    (h' : Along step ok' s as) : Along step (fun s a => ok s a ∧ ok' s a) s as := by
  induction as generalizing s with
  | nil => trivial
  | cons a as ih =>
    obtain ⟨ha, hrest⟩ := h
    obtain ⟨ha', hrest'⟩ := h'
    refine ⟨⟨ha, ha'⟩, ?_⟩
    cases hs : step s a with
    | none => trivial
    | some s' =>
      rw [hs] at hrest hrest'
      exact ih hrest hrest'

/-- A weaker condition. -/
theorem Along.mono {ok ok' : σ → α → Prop} (himp : ∀ s a, ok s a → ok' s a) {as : List α} {s : σ}
    (h : Along step ok s as) : Along step ok' s as := by
  induction as generalizing s with
  | nil => trivial
  | cons a as ih =>
    obtain ⟨ha, hrest⟩ := h
    refine ⟨himp s a ha, ?_⟩
    cases hs : step s a with
    | none => trivial
    | some s' =>
      rw [hs] at hrest
      exact ih hrest

/-- Two machines that agree at every step of a run run alike. -/
theorem run_congr {step' : σ → α → Option σ} {as : List α} {s : σ}
    (h : Along step (fun s a => step' s a = step s a) s as) : run step' s as = run step s as := by
  induction as generalizing s with
  | nil => rfl
  | cons a as ih =>
    obtain ⟨hstep, hrest⟩ := h
    rw [run, run, hstep]
    cases hs : step s a with
    | none => rfl
    | some s' =>
      rw [hs] at hrest
      exact ih hrest

/-- Two machines that can do the same and stay related run alike. -/
theorem run_lockstep {τ : Type*} {step' : τ → α → Option τ} {Rel : σ → τ → Prop}
    (h : ∀ s t a, Rel s t → Option.Rel Rel (step s a) (step' t a)) :
    ∀ {as : List α} {s : σ} {t : τ}, Rel s t → Option.Rel Rel (run step s as) (run step' t as)
  | [], _, _, hst => .some hst
  | a :: as, s, t, hst => by
    have hstep : Option.Rel Rel (step s a) (step' t a) := h s t a hst
    rw [run, run]
    cases hs : step s a with
    | none =>
      rw [hs] at hstep
      cases ht : step' t a with
      | none => exact .none
      | some t' =>
        rw [ht] at hstep
        cases hstep
    | some s' =>
      rw [hs] at hstep
      cases ht : step' t a with
      | none =>
        rw [ht] at hstep
        cases hstep
      | some t' =>
        rw [ht] at hstep
        cases hstep with
        | some hst' => exact run_lockstep h hst'

theorem run_of_step {s s' : σ} {a : α} (h : step s a = some s') (as : List α) :
    run step s (a :: as) = run step s' as := by
  rw [run, h, Option.bind_some]

theorem run_append (s : σ) (as bs : List α) :
    run step s (as ++ bs) = (run step s as).bind fun s' => run step s' bs := by
  induction as generalizing s with
  | nil => rfl
  | cons a as ih => simp only [List.cons_append, run, Option.bind_assoc, ih]

theorem run_concat {s t t' : σ} {as : List α} {a : α} (hrun : run step s as = some t)
    (hstep : step t a = some t') : run step s (as ++ [a]) = some t' := by
  rw [run_append, hrun, Option.bind_some, run_of_step hstep, run]

/-- A run through a given action, step by step. -/
theorem run_split {s s' : σ} {as bs : List α} {a : α} (h : run step s (as ++ a :: bs) = some s') :
    ∃ t t', run step s as = some t ∧ step t a = some t' ∧ run step t' bs = some s' := by
  rw [run_append] at h
  obtain ⟨t, ht, h⟩ := Option.bind_eq_some_iff.1 h
  obtain ⟨t', hstep, h⟩ := run_cons h
  exact ⟨t, t', ht, hstep, h⟩

theorem along_append {ok : σ → α → Prop} {s t : σ} {as bs : List α}
    (hrun : run step s as = some t) :
    Along step ok s (as ++ bs) ↔ Along step ok s as ∧ Along step ok t bs := by
  induction as generalizing s with
  | nil =>
    obtain rfl := Option.some.inj hrun
    exact (and_iff_right trivial).symm
  | cons a as ih =>
    obtain ⟨s', hstep, hrun⟩ := run_cons hrun
    simp only [List.cons_append, Along, hstep, ih hrun, and_assoc]

theorem outputs_append {β : Type*} {out : σ → α → Option β} {s t : σ} {as : List α}
    (hrun : run step s as = some t) (a : α) :
    outputs step out s (as ++ [a]) = outputs step out s as ++ (out t a).toList := by
  induction as generalizing s with
  | nil =>
    obtain rfl := Option.some.inj hrun
    rw [List.nil_append, outputs, outputs, List.nil_append]
    cases step s a <;> simp [outputs]
  | cons b as ih =>
    obtain ⟨s', hstep, hrun⟩ := run_cons hrun
    simp only [List.cons_append, outputs, hstep, ih hrun, List.append_assoc]

theorem outputs_run_append {β : Type*} {out : σ → α → Option β} {s t : σ} {as : List α}
    (hrun : run step s as = some t) (bs : List α) :
    outputs step out s (as ++ bs) = outputs step out s as ++ outputs step out t bs := by
  induction as generalizing s with
  | nil =>
    obtain rfl := Option.some.inj hrun
    rfl
  | cons a as ih =>
    obtain ⟨s', hstep, hrun⟩ := run_cons hrun
    simp only [List.cons_append, outputs, hstep, ih hrun, List.append_assoc]

theorem mem_outputs {β : Type*} {out : σ → α → Option β} {b : β} {as : List α} {s : σ}
    (h : b ∈ outputs step out s as) : ∃ t, ∃ a ∈ as, out t a = some b := by
  induction as generalizing s with
  | nil => cases h
  | cons a as ih =>
    rw [outputs, List.mem_append] at h
    rcases h with h | h
    · exact ⟨s, a, List.mem_cons_self, Option.mem_toList.1 h⟩
    · cases hs : step s a with
      | none =>
        rw [hs] at h
        cases h
      | some s' =>
        rw [hs] at h
        obtain ⟨t, a', ha', hout⟩ := ih h
        exact ⟨t, a', List.mem_cons_of_mem _ ha', hout⟩

/-- What the outputs of a run say of its actions, whatever the states. -/
theorem filterMap_outputs {β γ : Type*} {out : σ → α → Option β} {f : β → Option γ}
    {g : α → Option γ} (h : ∀ s a, (out s a).bind f = g a) {as : List α} {s t : σ}
    (hrun : run step s as = some t) : (outputs step out s as).filterMap f = as.filterMap g := by
  induction as generalizing s with
  | nil => rfl
  | cons a as ih =>
    obtain ⟨s', hstep, hrun⟩ := run_cons hrun
    rw [outputs, hstep, List.filterMap_append, ih hrun, List.filterMap_cons, ← h s a]
    cases out s a with
    | none => rfl
    | some b =>
      rw [Option.toList_some, List.filterMap_cons, List.filterMap_nil, Option.bind_some]
      cases f b <;> rfl

/-- What each step that meets a condition keeps, of the state and of the actions so far,
holds at the end of a run. -/
theorem run_induction_along {s₀ : σ} (P : List α → σ → Prop) (ok : σ → α → Prop) (hnil : P [] s₀)
    (hstep : ∀ {as s a s'}, run step s₀ as = some s → P as s → ok s a → step s a = some s' →
      P (as ++ [a]) s') {as : List α} {s : σ} (hok : Along step ok s₀ as)
    (hrun : run step s₀ as = some s) : P as s := by
  induction as using List.reverseRecOn generalizing s with
  | nil => exact Option.some.inj hrun ▸ hnil
  | append_singleton as a ih =>
    obtain ⟨t, t', ht, ha, hend⟩ := run_split hrun
    obtain rfl : t' = s := Option.some.inj hend
    obtain ⟨hok, hlast⟩ := (along_append ht).1 hok
    exact hstep ht (ih hok ht) hlast.1 ha

/-- What each step keeps, of the state and of the actions so far, holds at the end of a run. -/
theorem run_induction {s₀ : σ} (P : List α → σ → Prop) (hnil : P [] s₀)
    (hstep : ∀ {as s a s'}, run step s₀ as = some s → P as s → step s a = some s' →
      P (as ++ [a]) s') {as : List α} {s : σ} (hrun : run step s₀ as = some s) : P as s :=
  run_induction_along P (fun _ _ => True) hnil (fun hrun h _ hs => hstep hrun h hs)
    (along_of_forall (fun _ _ _ => trivial) s₀) hrun

/-- If every step of a run uses up some of a measure, the run is no longer than that. -/
theorem length_le_of_measure (Inv : σ → Prop) (μ : σ → ℕ)
    (hstep : ∀ {s a s'}, Inv s → step s a = some s' → Inv s' ∧ μ s' + 1 ≤ μ s) :
    ∀ {as : List α} {s s' : σ}, Inv s → run step s as = some s' → as.length + μ s' ≤ μ s
  | [], _, _, _, hrun => by
    obtain rfl := Option.some.inj hrun
    simp
  | a :: as, s, s', hs, hrun => by
    obtain ⟨t, ht, hrun⟩ := run_cons hrun
    obtain ⟨hinv, hlt⟩ := hstep hs ht
    have hrest := length_le_of_measure Inv μ hstep hinv hrun
    rw [List.length_cons]
    omega

end Machine

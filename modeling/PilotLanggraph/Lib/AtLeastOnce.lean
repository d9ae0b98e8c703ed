import Mathlib.Data.List.Basic

/-!
# Requests delivered at least once

A client that repeats a request until it is answered may have it handled several times, or handled
and not answered. If the machine behind it `Absorbs` repetitions, a request that was repeated leaves
it where one delivery or none would have left it (`Touched`), and what the client saw of all its
requests is `Explained` by a run in which each was delivered once, or, where the client got an
error, once or never.
-/

namespace PilotLanggraph

namespace AtLeastOnce

variable {σ τ ρ β : Type*} {step : σ → ρ → σ} {reply : σ → ρ → β} {r : ρ} {s s' s'' : σ}

/-- A request that is handled again right away changes nothing and is answered as before. -/
structure Absorbs (step : σ → ρ → σ) (reply : σ → ρ → β) : Prop where
  step_step : ∀ s r, step (step s r) r = step s r
  reply_step : ∀ s r, reply (step s r) r = reply s r

/-- The state after a number of deliveries of one request. -/
def Touched (step : σ → ρ → σ) (r : ρ) (s s' : σ) : Prop :=
  s' = s ∨ s' = step s r

theorem Touched.refl (step : σ → ρ → σ) (r : ρ) (s : σ) : Touched step r s s :=
  .inl rfl

/-- One more delivery. -/
theorem Touched.step_eq (habsorbs : Absorbs step reply) (h : Touched step r s s') :
    step s' r = step s r := by
  rcases h with rfl | rfl
  · rfl
  · exact habsorbs.step_step s r

theorem Touched.reply_eq (habsorbs : Absorbs step reply) (h : Touched step r s s') :
    reply s' r = reply s r := by
  rcases h with rfl | rfl
  · rfl
  · exact habsorbs.reply_step s r

theorem Touched.trans (habsorbs : Absorbs step reply) (h : Touched step r s s')
    (h' : Touched step r s' s'') : Touched step r s s'' := by
  rcases h' with rfl | rfl
  · exact h
  · exact .inr (h.step_eq habsorbs)

/-- What a client saw of its requests, each with its answer or none, is what it would have seen of a
machine that handled every answered request once and every other once or never. -/
inductive Explained (step : σ → ρ → σ) (reply : σ → ρ → β) : σ → List (ρ × Option β) → σ → Prop
  | nil (s : σ) : Explained step reply s [] s
  | answered {s s' : σ} {r : ρ} {log : List (ρ × Option β)}
    (h : Explained step reply (step s r) log s') :
    Explained step reply s ((r, some (reply s r)) :: log) s'
  | handled {s s' : σ} {r : ρ} {log : List (ρ × Option β)}
    (h : Explained step reply (step s r) log s') : Explained step reply s ((r, none) :: log) s'
  | lost {s s' : σ} {r : ρ} {log : List (ρ × Option β)}
    (h : Explained step reply s log s') : Explained step reply s ((r, none) :: log) s'

/-- A request that was answered, or not, after some deliveries. -/
theorem Explained.cons_of_touched {answer : Option β} {log : List (ρ × Option β)}
    (htouched : Touched step r s s')
    (hanswer : answer = some (reply s r) ∧ s' = step s r ∨ answer = none)
    (h : Explained step reply s' log s'') : Explained step reply s ((r, answer) :: log) s'' := by
  rcases hanswer with ⟨rfl, rfl⟩ | rfl
  · exact .answered h
  · rcases htouched with rfl | rfl
    · exact .lost h
    · exact .handled h

/-- A machine that refines another explains what the other explains. -/
theorem Explained.of_refines {step' : τ → ρ → τ} {reply' : τ → ρ → β} {Refines : τ → σ → Prop}
    (hstep : ∀ {t s}, Refines t s → ∀ r, Refines (step' t r) (step s r))
    (hreply : ∀ {t s}, Refines t s → ∀ r, reply' t r = reply s r) {log : List (ρ × Option β)}
    (h : Explained step reply s log s') {t : τ} (ht : Refines t s) :
    ∃ t', Explained step' reply' t log t' ∧ Refines t' s' := by
  induction h generalizing t with
  | nil s => exact ⟨t, .nil t, ht⟩
  | @answered s s' r log h ih =>
    obtain ⟨t', hexplained, ht'⟩ := ih (hstep ht r)
    refine ⟨t', ?_, ht'⟩
    rw [← hreply ht r]
    exact .answered hexplained
  | @handled s s' r log h ih =>
    obtain ⟨t', hexplained, ht'⟩ := ih (hstep ht r)
    exact ⟨t', .handled hexplained, ht'⟩
  | lost h ih =>
    obtain ⟨t', hexplained, ht'⟩ := ih ht
    exact ⟨t', .lost hexplained, ht'⟩

end AtLeastOnce

end PilotLanggraph

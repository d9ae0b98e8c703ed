import Mathlib.Data.Nat.Notation

/-!
# Coroutines that may be interrupted

A coroutine works on a state, and each of its awaits returns, raises or is cancelled, as comes.
`except Exception` catches what was raised, and not a cancellation; the clean-up of a `finally` runs
in either case, and where it does not return either, that is what goes up.

A `Triple` says what holds of the state after the coroutine, whether it has returned or not, for all
that its awaits may do. The rules follow the constructs.
-/

/-- How an await ends. -/
inductive Async.Wait (ε : Type)
  | returns
  | raises (e : ε)
  | cancelled

/-- What goes up when a coroutine does not return. -/
inductive Async.Unwound (ε : Type)
  | raised (e : ε)
  | cancelled

/-- The awaits that are to come, and the state. -/
structure Async.World (σ ε : Type) where
  waits : ℕ → Wait ε
  state : σ

/-- A coroutine. -/
def Async (σ ε α : Type) : Type :=
  Async.World σ ε → Except (Async.Unwound ε) α × Async.World σ ε

namespace Async

variable {σ ε α β : Type}

instance : Monad (Async σ ε) where
  pure a := fun w => (.ok a, w)
  bind m f := fun w =>
    match m w with
    | (.ok a, w') => f a w'
    | (.error u, w') => (.error u, w')

/-- `await` of something that leaves the state alone. -/
def await : Async σ ε Unit := fun w =>
  let w' : World σ ε := ⟨fun n => w.waits (n + 1), w.state⟩
  match w.waits 0 with
  | .returns => (.ok (), w')
  | .raises e => (.error (.raised e), w')
  | .cancelled => (.error .cancelled, w')

/-- A call that may raise, without an await. -/
def attempt : Async σ ε Unit := fun w =>
  let w' : World σ ε := ⟨fun n => w.waits (n + 1), w.state⟩
  match w.waits 0 with
  | .raises e => (.error (.raised e), w')
  | _ => (.ok (), w')

/-- An await of what never raises. -/
def pause : Async σ ε Unit := fun w =>
  let w' : World σ ε := ⟨fun n => w.waits (n + 1), w.state⟩
  match w.waits 0 with
  | .cancelled => (.error .cancelled, w')
  | _ => (.ok (), w')

def get : Async σ ε σ := fun w =>
  (.ok w.state, w)

def set (s : σ) : Async σ ε Unit := fun w =>
  (.ok (), { w with state := s })

def raise (e : ε) : Async σ ε α := fun w =>
  (.error (.raised e), w)

/-- `try: m except ...`, with `none` for what is not caught. -/
def tryExcept (m : Async σ ε α) (handler : Unwound ε → Option (Async σ ε α)) : Async σ ε α :=
  fun w =>
    match m w with
    | (.ok a, w') => (.ok a, w')
    | (.error u, w') =>
      match handler u with
      | some h => h w'
      | none => (.error u, w')

/-- `except Exception as e: h(e)`. -/
def exception (h : ε → Async σ ε α) : Unwound ε → Option (Async σ ε α)
  | .raised e => some (h e)
  | .cancelled => none

/-- `try: m finally: cleanup`. -/
def tryFinally (m : Async σ ε α) (cleanup : Async σ ε Unit) : Async σ ε α := fun w =>
  match m w with
  | (r, w') =>
    match cleanup w' with
    | (.ok _, w'') => (r, w'')
    | (.error u, w'') => (.error u, w'')

theorem bind_of_ok {m : Async σ ε α} {f : α → Async σ ε β} {w w' : World σ ε} {a : α}
    (h : m w = (.ok a, w')) : (m >>= f) w = f a w' := by
  simp only [Bind.bind, h]

theorem bind_of_error {m : Async σ ε α} {f : α → Async σ ε β} {w w' : World σ ε} {u : Unwound ε}
    (h : m w = (.error u, w')) : (m >>= f) w = (.error u, w') := by
  simp only [Bind.bind, h]

/-! ## Triples -/

/-- From a state with `P`, the coroutine returns with `Q` or goes up with `E`. -/
def Triple (P : σ → Prop) (m : Async σ ε α) (Q : α → σ → Prop) (E : Unwound ε → σ → Prop) : Prop :=
  ∀ w : World σ ε, P w.state →
    match m w with
    | (.ok a, w') => Q a w'.state
    | (.error u, w') => E u w'.state

section

variable {P P' : σ → Prop} {Q G : α → σ → Prop} {R : β → σ → Prop} {E F : Unwound ε → σ → Prop}
  {m : Async σ ε α}

theorem Triple.mono (h : Triple P m Q E) (hP : ∀ s, P' s → P s) (hQ : ∀ a s, Q a s → G a s)
    (hE : ∀ u s, E u s → F u s) : Triple P' m G F := by
  intro w hw
  have hm := h w (hP _ hw)
  revert hm
  rcases m w with ⟨_ | _, w'⟩
  · exact hE _ _
  · exact hQ _ _

theorem Triple.pure {a : α} (h : ∀ s, P s → Q a s) : Triple P (pure a : Async σ ε α) Q E :=
  fun _ hw => h _ hw

theorem Triple.bind {f : α → Async σ ε β} (h : Triple P m Q E)
    (hf : ∀ a, Triple (Q a) (f a) R E) : Triple P (m >>= f) R E := by
  intro w hw
  have hrun := h w hw
  rcases hm : m w with ⟨u | a, w'⟩
  · rw [hm] at hrun
    rw [bind_of_error hm]
    exact hrun
  · rw [hm] at hrun
    rw [bind_of_ok hm]
    exact hf a w' hrun

/-- An await keeps what it starts from. -/
theorem Triple.await (h : ∀ u s, P s → E u s) :
    Triple P (await : Async σ ε Unit) (fun _ => P) E := by
  intro w hw
  unfold Async.await
  cases hwait : w.waits 0 with
  | returns => simpa [hwait] using hw
  | raises e => simpa [hwait] using h _ _ hw
  | cancelled => simpa [hwait] using h _ _ hw

theorem Triple.attempt (h : ∀ e s, P s → E (.raised e) s) :
    Triple P (attempt : Async σ ε Unit) (fun _ => P) E := by
  intro w hw
  unfold Async.attempt
  cases hwait : w.waits 0 with
  | raises e => simpa [hwait] using h _ _ hw
  | _ => simpa [hwait] using hw

theorem Triple.pause (h : ∀ s, P s → E .cancelled s) :
    Triple P (pause : Async σ ε Unit) (fun _ => P) E := by
  intro w hw
  unfold Async.pause
  cases hwait : w.waits 0 with
  | cancelled => simpa [hwait] using h _ hw
  | _ => simpa [hwait] using hw

theorem Triple.get : Triple P (get : Async σ ε σ) (fun s s' => s' = s ∧ P s) E :=
  fun _ hw => ⟨rfl, hw⟩

theorem Triple.set {s : σ} {Q : Unit → σ → Prop} (h : ∀ s', P s' → Q () s) :
    Triple P (set s : Async σ ε Unit) Q E :=
  fun _ hw => h _ hw

theorem Triple.raise {e : ε} (h : ∀ s, P s → E (.raised e) s) :
    Triple P (raise e : Async σ ε α) Q E :=
  fun _ hw => h _ hw

/-- What goes up from the body is what a handler starts from, or goes up further. -/
theorem Triple.tryExcept {handler : Unwound ε → Option (Async σ ε α)} (h : Triple P m Q F)
    (hcaught : ∀ u h, handler u = some h → Triple (F u) h Q E)
    (huncaught : ∀ u s, handler u = none → F u s → E u s) :
    Triple P (tryExcept m handler) Q E := by
  intro w hw
  have hm := h w hw
  unfold Async.tryExcept
  revert hm
  rcases m w with ⟨u | a, w'⟩
  · intro hm
    simp only
    cases hu : handler u with
    | some h => exact hcaught u h hu w' hm
    | none => exact huncaught u _ hu hm
  · exact id

theorem Triple.exception {h : ε → Async σ ε α} (hm : Triple P m Q F)
    (hraised : ∀ e, Triple (F (.raised e)) (h e) Q E)
    (hcancelled : ∀ s, F .cancelled s → E .cancelled s) :
    Triple P (Async.tryExcept m (Async.exception h)) Q E := by
  refine hm.tryExcept (fun u h' hu => ?_) fun u s hu => ?_
  · cases u with
    | raised e =>
      obtain rfl := Option.some.inj hu
      exact hraised e
    | cancelled => cases hu
  · cases u with
    | raised e => cases hu
    | cancelled => exact hcancelled s

/-- The clean-up starts from what holds after the body in either case. -/
theorem Triple.tryFinally {cleanup : Async σ ε Unit} (h : Triple P m G F)
    (hQ : ∀ a, Triple (G a) cleanup (fun _ => Q a) E)
    (hE : ∀ u, Triple (F u) cleanup (fun _ => E u) E) : Triple P (tryFinally m cleanup) Q E := by
  intro w hw
  have hm := h w hw
  unfold Async.tryFinally
  revert hm
  rcases m w with ⟨u | a, w'⟩
  · intro hm
    have hc := hE u w' hm
    simp only
    revert hc
    rcases cleanup w' with ⟨u' | _, w''⟩ <;> exact id
  · intro hm
    have hc := hQ a w' hm
    simp only
    revert hc
    rcases cleanup w' with ⟨u' | _, w''⟩ <;> exact id

end

end Async

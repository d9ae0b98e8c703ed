import Mathlib.Data.List.Infix
import Mathlib.Logic.Function.Basic
import PilotLanggraph.Lib.Machine

/-!
# Coroutines that call coroutines

An activation runs a program. Its behaviour says, from its argument and what it has heard so
far, which operation comes next : an effect, a call, a wait for the outcome of one of its
calls, or its end. A call makes a coroutine that does nothing until it is begun, by a wait or
as a task, at any time; what it then runs is the business of a `Script`, from the program of
the caller and a state that all activations share. A `Pool` is the activations of one program,
and each action lets one of them do its next operation, or begins a call.

`view` forgets how calls are linked. Two scripts with the same view do the same, up to the
beginning of calls (`step_own_view`).
-/

namespace Coroutine

/-- What an activation hears after an operation. -/
inductive Answer (R O : Type*)
  /-- The coroutine of a call is made. -/
  | made
  | heard (r : R)
  /-- The outcome of a call. -/
  | ended (o : O)

/-- What an activation does next. -/
inductive Op (A E O : Type*)
  | perform (e : E)
  | call (arg : A)
  /-- Wait for the outcome of the `k`-th call. -/
  | await (k : ℕ)
  | finish (o : O)

/-- The operation is a call. -/
def Op.IsCall {A E O : Type*} : Op A E O → Prop
  | .call _ => True
  | _ => False

/-- The next operation, from the argument and the replies so far. -/
abbrev Behaviour (A E R O : Type*) :=
  A → List (Answer R O) → Op A E O

/-- The operation can have this answer. -/
def Op.Hears {A E R O : Type*} : Op A E O → Answer R O → Prop
  | .perform _, .heard _ | .call _, .made | .await _, .ended _ | .await _, .heard _ => True
  | _, _ => False

/-- The behaviour can have heard these replies. -/
def Behaviour.CanHear {A E R O : Type*} (b : Behaviour A E R O) (arg : A)
    (replies : List (Answer R O)) : Prop :=
  ∀ earlier r, earlier ++ [r] <+: replies → (b arg earlier).Hears r

/-- A coroutine that has begun. -/
structure Activation (P A R O : Type*) where
  prog : P
  arg : A
  /-- The activation that called it, and the number of the call. -/
  caller : Option (ℕ × ℕ)
  replies : List (Answer R O)
  /-- The arguments of its calls. -/
  calls : List A
  outcome : Option O

/-- The activations, in the order in which they began, and the effects so far. -/
structure Pool (σ P A E R O : Type*) where
  shared : σ
  acts : List (Activation P A R O)
  effects : List (ℕ × E)

/-- How programs behave, and which program a call begins. -/
structure Script (σ P A E R O : Type*) where
  behave : P → Behaviour A E R O
  link : σ → P → P × σ

/-- One operation of an activation, with the reply of the environment. -/
inductive Move (R : Type*)
  | perform (r : R)
  | call
  | await
  /-- A wait ends in another way. -/
  | interrupt (r : R)
  | finish

/-- What can happen in a pool. -/
inductive Pool.Action (R : Type*)
  | own (a : ℕ) (m : Move R)
  | begin (a k : ℕ)

variable {σ τ P Q A E R O : Type*}

namespace Activation

/-- Hear a reply. -/
def hear (act : Activation P A R O) (r : Answer R O) : Activation P A R O :=
  { act with replies := act.replies ++ [r] }

/-- The next operation, with the effect it has. `outcome k` is that of the `k`-th call. -/
def move (b : Behaviour A E R O) (outcome : ℕ → Option O) (act : Activation P A R O)
    (m : Move R) : Option (Activation P A R O × Option E) :=
  if act.outcome.isSome then none
  else
    match b act.arg act.replies, m with
    | .perform e, .perform r => some (act.hear (.heard r), some e)
    | .call arg, .call => some ({ act.hear .made with calls := act.calls ++ [arg] }, none)
    | .await k, .await => (outcome k).map fun o => (act.hear (.ended o), none)
    | .await _, .interrupt r => some (act.hear (.heard r), none)
    | .finish o, .finish => some ({ act with outcome := some o }, none)
    | _, _ => none

/-- What an activation can become by its next operation. -/
inductive Moves (b : Behaviour A E R O) (outcome : ℕ → Option O) (act : Activation P A R O) :
    Activation P A R O → Prop
  | performed {e : E} {r : R} (hop : b act.arg act.replies = .perform e) :
    Moves b outcome act (act.hear (.heard r))
  | called {arg : A} (hop : b act.arg act.replies = .call arg) :
    Moves b outcome act { act.hear .made with calls := act.calls ++ [arg] }
  | awaited {k : ℕ} {o : O} (hop : b act.arg act.replies = .await k) (ho : outcome k = some o) :
    Moves b outcome act (act.hear (.ended o))
  | interrupted {k : ℕ} {r : R} (hop : b act.arg act.replies = .await k) :
    Moves b outcome act (act.hear (.heard r))
  | finished {o : O} (hop : b act.arg act.replies = .finish o) :
    Moves b outcome act { act with outcome := some o }

theorem moves_of_move {b : Behaviour A E R O} {outcome : ℕ → Option O} {act : Activation P A R O}
    {m : Move R} {next : Activation P A R O × Option E} (h : act.move b outcome m = some next) :
    act.Moves b outcome next.1 := by
  unfold move at h
  split_ifs at h
  split at h
  · rename_i hop
    obtain rfl := Option.some.inj h
    exact .performed hop
  · rename_i hop
    obtain rfl := Option.some.inj h
    exact .called hop
  · rename_i hop
    obtain ⟨o, ho, rfl⟩ := Option.map_eq_some_iff.1 h
    exact .awaited hop ho
  · rename_i hop
    obtain rfl := Option.some.inj h
    exact .interrupted hop
  · rename_i hop
    obtain rfl := Option.some.inj h
    exact .finished hop
  · cases h

/-- The same activation, of another program. -/
def mapProg (f : P → Q) (act : Activation P A R O) : Activation Q A R O :=
  { act with prog := f act.prog }

end Activation

namespace Pool

/-- The activation that began the `k`-th call of `a`. -/
def begun? (s : Pool σ P A E R O) (a k : ℕ) : Option (Activation P A R O) :=
  s.acts.find? fun act => act.caller = some (a, k)

/-- One program with its argument. -/
def start (shared : σ) (prog : P) (arg : A) : Pool σ P A E R O :=
  ⟨shared, [⟨prog, arg, none, [], [], none⟩], []⟩

/-- One action, if it can happen. -/
def step (sc : Script σ P A E R O) (s : Pool σ P A E R O) :
    Pool.Action R → Option (Pool σ P A E R O)
  | .own a m =>
    s.acts[a]?.bind fun act =>
      (act.move (sc.behave act.prog) (fun k => (s.begun? a k).bind Activation.outcome) m).map
        fun next => { s with
          acts := s.acts.set a next.1
          effects := s.effects ++ next.2.toList.map fun e => (a, e) }
  | .begin a k =>
    s.acts[a]?.bind fun act =>
      act.calls[k]?.bind fun arg =>
        if (s.begun? a k).isSome then none
        else
          let (prog, shared) := sc.link s.shared act.prog
          some { s with shared, acts := s.acts ++ [⟨prog, arg, some (a, k), [], [], none⟩] }

/-- The `k`-th call of `a` leads to an activation : it began it, or something in between did. -/
inductive LeadsTo (s : Pool σ P A E R O) (a k : ℕ) : ℕ → Prop
  | begun {x : ℕ} {act : Activation P A R O} (hx : s.acts[x]? = some act)
      (hcaller : act.caller = some (a, k)) : LeadsTo s a k x
  | inner {b k' x : ℕ} {act : Activation P A R O} (hb : LeadsTo s a k b)
      (hx : s.acts[x]? = some act) (hcaller : act.caller = some (b, k')) : LeadsTo s a k x

/-- The pool without the links between calls. -/
def view (f : P → Q) (s : Pool σ P A E R O) : Pool Unit Q A E R O :=
  ⟨(), s.acts.map (Activation.mapProg f), s.effects⟩

section

variable {sc : Script σ P A E R O} {s s' : Pool σ P A E R O}

/-- An activation does one operation. Its program, its argument and its caller stay, it may
have heard a reply, and it may have called. -/
theorem step_own {a : ℕ} {m : Move R} (h : s.step sc (.own a m) = some s') :
    ∃ act act', s.acts[a]? = some act ∧ s'.acts = s.acts.set a act' ∧ s'.shared = s.shared ∧
      act'.prog = act.prog ∧ act'.caller = act.caller ∧ act'.arg = act.arg ∧
        (act'.replies = act.replies ∧ act'.calls = act.calls ∨
          ∃ r, (sc.behave act.prog act.arg act.replies).Hears r ∧
            act'.replies = act.replies ++ [r] ∧ (act'.calls = act.calls ∨
              ∃ arg, sc.behave act.prog act.arg act.replies = .call arg ∧
                act'.calls = act.calls ++ [arg])) := by
  obtain ⟨act, hact, h⟩ := Option.bind_eq_some_iff.1 h
  obtain ⟨⟨act', e⟩, hmove, rfl⟩ := Option.map_eq_some_iff.1 h
  refine ⟨act, act', hact, rfl, rfl, ?_⟩
  cases Activation.moves_of_move hmove with
  | @performed e r hop =>
    exact ⟨rfl, rfl, rfl, Or.inr ⟨.heard r, by rw [hop]; trivial, rfl, Or.inl rfl⟩⟩
  | @called arg hop =>
    exact ⟨rfl, rfl, rfl, Or.inr ⟨.made, by rw [hop]; trivial, rfl, Or.inr ⟨arg, hop, rfl⟩⟩⟩
  | @awaited k o hop =>
    exact ⟨rfl, rfl, rfl, Or.inr ⟨.ended o, by rw [hop]; trivial, rfl, Or.inl rfl⟩⟩
  | @interrupted k r hop =>
    exact ⟨rfl, rfl, rfl, Or.inr ⟨.heard r, by rw [hop]; trivial, rfl, Or.inl rfl⟩⟩
  | finished => exact ⟨rfl, rfl, rfl, Or.inl ⟨rfl, rfl⟩⟩

/-- A call is begun, once. -/
theorem step_begin {a k : ℕ} (h : s.step sc (.begin a k) = some s') :
    ∃ act arg, s.acts[a]? = some act ∧ act.calls[k]? = some arg ∧ s.begun? a k = none ∧
      s' = { s with
        shared := (sc.link s.shared act.prog).2
        acts := s.acts ++ [⟨(sc.link s.shared act.prog).1, arg, some (a, k), [], [], none⟩] } := by
  obtain ⟨act, hact, h⟩ := Option.bind_eq_some_iff.1 h
  obtain ⟨arg, harg, h⟩ := Option.bind_eq_some_iff.1 h
  split_ifs at h with hbegun
  obtain rfl := Option.some.inj h
  exact ⟨act, arg, hact, harg, by simpa using hbegun, rfl⟩

/-- What holds of each activation, if a move keeps it, and a call hands it on. -/
theorem step_forall {Good : Activation P A R O → Prop}
    (hmove : ∀ {act act' : Activation P A R O} {outcome : ℕ → Option O}, Good act →
      (∀ k o, outcome k = some o → ∃ other, Good other ∧ other.outcome = some o) →
      act.Moves (sc.behave act.prog) outcome act' → Good act')
    (hbegin : ∀ {act : Activation P A R O} {arg : A} {shared : σ} {caller : Option (ℕ × ℕ)},
      Good act → arg ∈ act.calls → Good ⟨(sc.link shared act.prog).1, arg, caller, [], [], none⟩)
    {x : Pool.Action R} (hs : ∀ act ∈ s.acts, Good act) (h : s.step sc x = some s') :
    ∀ act ∈ s'.acts, Good act := by
  cases x with
  | own a m =>
    obtain ⟨act, hact, h⟩ := Option.bind_eq_some_iff.1 h
    obtain ⟨⟨act', e⟩, hstep, rfl⟩ := Option.map_eq_some_iff.1 h
    intro act₁ hact₁
    rcases List.mem_or_eq_of_mem_set hact₁ with hact₁ | rfl
    · exact hs act₁ hact₁
    · refine hmove (hs act (List.mem_of_getElem? hact)) (fun k o ho => ?_)
        (Activation.moves_of_move hstep)
      obtain ⟨other, hother, ho⟩ := Option.bind_eq_some_iff.1 ho
      exact ⟨other, hs other (List.mem_of_find?_eq_some hother), ho⟩
  | begin a k =>
    obtain ⟨act, arg, hact, harg, -, rfl⟩ := step_begin h
    intro act₁ hact₁
    rcases List.mem_append.1 hact₁ with hact₁ | hact₁
    · exact hs act₁ hact₁
    · rw [List.mem_singleton.1 hact₁]
      exact hbegin (hs act (List.mem_of_getElem? hact)) (List.mem_of_getElem? harg)

/-- The activations after one of them has moved. -/
theorem getElem?_own {acts : List (Activation P A R O)} {a j : ℕ} {act' act₁ : Activation P A R O}
    (hj : (acts.set a act')[j]? = some act₁) :
    j = a ∧ act₁ = act' ∨ j ≠ a ∧ acts[j]? = some act₁ := by
  rw [List.getElem?_set] at hj
  split_ifs at hj with hja hlt
  · exact Or.inl ⟨hja.symm, (Option.some.inj hj).symm⟩
  · exact Or.inr ⟨fun h => hja h.symm, hj⟩

/-- The activations after another has begun. -/
theorem getElem?_begin {acts : List (Activation P A R O)} {j : ℕ} {new act : Activation P A R O}
    (hj : (acts ++ [new])[j]? = some act) :
    acts[j]? = some act ∨ j = acts.length ∧ act = new := by
  rw [List.getElem?_append] at hj
  split_ifs at hj with hlt
  · exact Or.inl hj
  · refine Or.inr ?_
    obtain ⟨hlen, hnew⟩ := List.getElem?_eq_some_iff.1 hj
    rw [List.length_singleton] at hlen
    exact ⟨by omega, by simpa using hnew.symm⟩

theorem begun?_eq_none {a k : ℕ} :
    s.begun? a k = none ↔ ∀ act ∈ s.acts, act.caller ≠ some (a, k) := by
  simp only [begun?, List.find?_eq_none, decide_eq_true_eq]

/-- Where callers come before what they called, a call leads to what came later. -/
theorem LeadsTo.lt
    (h : ∀ {x a k : ℕ} {act : Activation P A R O}, s.acts[x]? = some act →
      act.caller = some (a, k) → a < x) {a k x : ℕ} (hx : s.LeadsTo a k x) : a < x := by
  induction hx with
  | begun hx hcaller => exact h hx hcaller
  | inner hb hx hcaller ih => exact Nat.lt_trans ih (h hx hcaller)

/-- Whether a call is begun, the view says as well. -/
theorem begun?_view (f : P → Q) (s : Pool σ P A E R O) (a k : ℕ) :
    (s.view f).begun? a k = (s.begun? a k).map (Activation.mapProg f) := by
  rw [begun?, begun?, view, List.find?_map]
  rfl

theorem move_mapProg (f : P → Q) (b : Behaviour A E R O) (outcome : ℕ → Option O)
    (act : Activation P A R O) (m : Move R) :
    (act.mapProg f).move b outcome m =
      (act.move b outcome m).map fun next => (next.1.mapProg f, next.2) := by
  obtain ⟨prog, arg, caller, replies, calls, outcome₀⟩ := act
  cases outcome₀ with
  | some o => rfl
  | none =>
    unfold Activation.move
    simp only [Activation.mapProg, Option.isSome_none, Bool.false_eq_true, if_false]
    generalize b arg replies = op
    cases op with
    | perform e => cases m <;> rfl
    | call arg => cases m <;> rfl
    | await k =>
      cases m with
      | await =>
        simp only [Option.map_map]
        rfl
      | _ => rfl
    | finish o => cases m <;> rfl

/-- The script of the behaviours themselves. -/
def plain : Script Unit (Behaviour A E R O) A E R O :=
  ⟨id, fun _ b => (b, ())⟩

/-- What an activation does, it does in the view. -/
theorem step_own_plain (sc : Script σ P A E R O) (s : Pool σ P A E R O) (a : ℕ) (m : Move R) :
    (s.step sc (.own a m)).map (view sc.behave) = (s.view sc.behave).step plain (.own a m) := by
  have houtcome : ∀ k, ((s.view sc.behave).begun? a k).bind Activation.outcome =
      (s.begun? a k).bind Activation.outcome := by
    intro k
    rw [begun?_view]
    cases s.begun? a k <;> rfl
  simp only [step, houtcome]
  simp only [view, List.getElem?_map]
  cases s.acts[a]? with
  | none => rfl
  | some act =>
    simp only [Option.map_some, Option.bind_some, move_mapProg, Option.map_map]
    show Option.map _ (act.move (sc.behave act.prog) _ m) =
      Option.map _ (act.move (sc.behave act.prog) _ m)
    congr 1
    funext next
    simp only [Function.comp_apply, view, List.map_set]

/-- Two scripts with the same view do the same. -/
theorem step_own_view {sc' : Script τ Q A E R O} {t : Pool τ Q A E R O}
    (h : s.view sc.behave = t.view sc'.behave) (a : ℕ) (m : Move R) :
    (s.step sc (.own a m)).map (view sc.behave) =
      (t.step sc' (.own a m)).map (view sc'.behave) := by
  rw [step_own_plain, step_own_plain, h]

end

end Pool

namespace Behaviour

variable {b : Behaviour A E R O} {arg : A} {replies : List (Answer R O)}

theorem canHear_nil : b.CanHear arg [] := by
  intro earlier r hpre
  simp at hpre

theorem CanHear.hear (h : b.CanHear arg replies) {r : Answer R O} (hr : (b arg replies).Hears r) :
    b.CanHear arg (replies ++ [r]) := by
  intro earlier r' hpre
  rcases List.prefix_concat_iff.1 hpre with heq | hpre
  · obtain ⟨rfl, hlast⟩ := List.append_inj' heq rfl
    obtain rfl := List.singleton_inj.1 hlast
    exact hr
  · exact h earlier r' hpre

end Behaviour

/-- Many pools, with the effects of all of them. -/
structure Traffic (σ P A E R O : Type*) where
  pools : ℕ → Pool σ P A E R O
  effects : List (ℕ × ℕ × E)

namespace Traffic

/-- One action in one of the pools. -/
def step (sc : ℕ → Script σ P A E R O) (s : Traffic σ P A E R O) (a : ℕ × Pool.Action R) :
    Option (Traffic σ P A E R O) :=
  ((s.pools a.1).step (sc a.1) a.2).map fun pool =>
    { pools := Function.update s.pools a.1 pool
      effects := s.effects ++
        (pool.effects.drop (s.pools a.1).effects.length).map fun e => (a.1, e) }

/-- The pools without the links between calls. -/
def view (f : ℕ → P → Q) (s : Traffic σ P A E R O) : Traffic Unit Q A E R O :=
  ⟨fun i => (s.pools i).view (f i), s.effects⟩

/-- Each pool is related to its counterpart, and so far all have had the same effects. -/
def Alike (Rel : ℕ → Pool σ P A E R O → Pool τ Q A E R O → Prop) (s : Traffic σ P A E R O)
    (t : Traffic τ Q A E R O) : Prop :=
  (∀ i, Rel i (s.pools i) (t.pools i)) ∧ s.effects = t.effects

section

variable (sc : ℕ → Script σ P A E R O) (sc' : ℕ → Script τ Q A E R O)
  (Rel : ℕ → Pool σ P A E R O → Pool τ Q A E R O → Prop)
  (hview : ∀ {i s t}, Rel i s t → s.view (sc i).behave = t.view (sc' i).behave)
  (hstep : ∀ {i s t a}, Rel i s t → Option.Rel (Rel i) (s.step (sc i) a) (t.step (sc' i) a))

include hview in
theorem Alike.view {s : Traffic σ P A E R O} {t : Traffic τ Q A E R O} (h : Alike Rel s t) :
    s.view (fun i => (sc i).behave) = t.view (fun i => (sc' i).behave) := by
  simp only [Traffic.view, h.2, hview (h.1 _)]

include hview hstep

/-- Pools that run in lockstep, with the same view, make traffic that does. -/
theorem step_lockstep {s : Traffic σ P A E R O} {t : Traffic τ Q A E R O} (h : Alike Rel s t)
    (a : ℕ × Pool.Action R) : Option.Rel (Alike Rel) (s.step sc a) (t.step sc' a) := by
  have heffects : ∀ {i s t}, Rel i s t → s.effects = t.effects := fun hst =>
    congrArg Pool.effects (hview hst)
  have hpool : Option.Rel (Rel a.1) ((s.pools a.1).step (sc a.1) a.2)
      ((t.pools a.1).step (sc' a.1) a.2) := hstep (h.1 a.1)
  unfold step
  cases hs : (s.pools a.1).step (sc a.1) a.2 with
  | none =>
    rw [hs] at hpool
    cases ht : (t.pools a.1).step (sc' a.1) a.2 with
    | none => exact .none
    | some t' =>
      rw [ht] at hpool
      cases hpool
  | some s' =>
    rw [hs] at hpool
    cases ht : (t.pools a.1).step (sc' a.1) a.2 with
    | none =>
      rw [ht] at hpool
      cases hpool
    | some t' =>
      rw [ht] at hpool
      cases hpool with
      | some hst =>
        refine .some ⟨fun i => ?_, ?_⟩
        · by_cases hi : i = a.1
          · subst hi
            simpa using hst
          · simpa [hi] using h.1 i
        · simp only [h.2, heffects hst, heffects (h.1 a.1)]

theorem run_lockstep {s : Traffic σ P A E R O} {t : Traffic τ Q A E R O} (h : Alike Rel s t)
    (as : List (ℕ × Pool.Action R)) :
    Option.Rel (Alike Rel) (Machine.run (step sc) s as) (Machine.run (step sc') t as) :=
  Machine.run_lockstep (fun _ _ a hst => step_lockstep sc sc' Rel hview hstep hst a) h

end

end Traffic

end Coroutine

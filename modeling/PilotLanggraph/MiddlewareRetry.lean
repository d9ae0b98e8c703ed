import PilotLanggraph.Middleware

/-!
# Middlewares that call again

`next_fn` goes on from where the request stands in the chain, not from the middleware that
calls it. What a call leads to (`LeadsTo`) should go through each middleware that comes after
the caller (`Guarded`). It does while no middleware but the last begins a second call
(`NoRetry`) : then the activations go through the chain in order (`Levelled`). A second call
goes around the middleware after the caller.

* `guarded_of_noRetry` : without retries, the handler runs inside what comes after each caller.
* `retry_unguarded` : behind a middleware that tries again, a second one is left out.
-/

namespace PilotLanggraph

open Coroutine

namespace Middleware

variable {A E R O : Type*}

/-- Every execution of the handler is inside one of each middleware that comes after the one
whose call of `next_fn` led to it, begun by that call. -/
def Guarded (n : ℕ) (s : Pool ℕ ℕ A E R O) : Prop :=
  ∀ (x : ℕ) (act : Activation ℕ A R O), s.acts[x]? = some act → n ≤ act.prog →
    ∀ (a k : ℕ) (outer : Activation ℕ A R O), s.acts[a]? = some outer → s.LeadsTo a k x →
      ∀ j, outer.prog < j → j < n → ∃ b mid k', s.acts[b]? = some mid ∧ mid.prog = j ∧
        s.LeadsTo a k b ∧ s.LeadsTo b k' x

/-- A middleware that tries again after the first outcome. -/
def retry : Behaviour A E R O
  | arg, [] | arg, [_, _] => .call arg
  | _, [_] => .await 0
  | _, _ :: _ :: _ :: .ended o :: _ => .finish o
  | _, _ => .await 1

/-- No middleware but the last of the list begins a second call of `next_fn`. -/
def NoRetry (n : ℕ) (s : Pool ℕ ℕ A E R O) : Pool.Action R → Prop
  | .own .. => True
  | .begin a _ => ∀ act ∈ s.acts[a]?, act.prog + 1 < n →
      ∀ other ∈ s.acts, other.caller.map Prod.fst ≠ some a

instance (n : ℕ) (s : Pool ℕ ℕ A E R O) : ∀ x : Pool.Action R, Decidable (NoRetry n s x)
  | .own .. => inferInstanceAs (Decidable True)
  | .begin a _ => inferInstanceAs (Decidable (∀ act ∈ s.acts[a]?, act.prog + 1 < n →
      ∀ other ∈ s.acts, other.caller.map Prod.fst ≠ some a))

/-- The activations go through the chain in order, and then each is the handler, begun by the
last middleware. -/
structure Levelled (n : ℕ) (s : Pool ℕ ℕ A E R O) : Prop where
  place : ∀ {j : ℕ} {act : Activation ℕ A R O}, s.acts[j]? = some act → act.prog = min j n
  caller : ∀ {j : ℕ} {act : Activation ℕ A R O}, s.acts[j + 1]? = some act →
    ∃ k, act.caller = some (min j (n - 1), k)
  first : ∀ {act : Activation ℕ A R O}, s.acts[0]? = some act → act.caller = none
  calls : ∀ {j : ℕ} {act : Activation ℕ A R O}, s.acts[j]? = some act → act.calls ≠ [] →
    act.prog < n
  idx : s.shared = min s.acts.length n

section

variable {n : ℕ} {s : Pool ℕ ℕ A E R O}

theorem Levelled.caller_eq (h : Levelled n s) {a k x : ℕ} {act : Activation ℕ A R O}
    (hx : s.acts[x]? = some act) (hcaller : act.caller = some (a, k)) :
    0 < x ∧ a = min (x - 1) (n - 1) := by
  cases x with
  | zero => simp [h.first hx] at hcaller
  | succ x =>
    obtain ⟨k', hk'⟩ := h.caller hx
    rw [hcaller] at hk'
    exact ⟨Nat.succ_pos x, (Prod.mk.inj (Option.some.inj hk')).1⟩

/-- What comes between a call and what it leads to. -/
theorem Levelled.between (h : Levelled n s) {a k x : ℕ} (hx : s.LeadsTo a k x) {j : ℕ} (ha : a < j)
    (hj : j < n) (hjx : j < x) : s.LeadsTo a k j ∧ ∃ k', s.LeadsTo j k' x := by
  induction hx with
  | begun hx hcaller =>
    obtain ⟨-, ha'⟩ := h.caller_eq hx hcaller
    omega
  | @inner b k' x act hb hx hcaller ih =>
    obtain ⟨-, hb'⟩ := h.caller_eq hx hcaller
    by_cases hjb : j = b
    · subst hjb
      exact ⟨hb, k', .begun hx hcaller⟩
    · obtain ⟨hleft, k'', hright⟩ := ih (by omega)
      exact ⟨hleft, k'', .inner hright hx hcaller⟩

theorem Levelled.guarded (h : Levelled n s) : Guarded n s := by
  intro x act hx hplace a k outer ha hleads j haj hj
  have hxn := h.place hx
  have han := h.place ha
  have hjx : j < x := by omega
  have hjlen : j < s.acts.length := hjx.trans (List.getElem?_eq_some_iff.1 hx).1
  have hmid := List.getElem?_eq_getElem hjlen
  obtain ⟨hleft, k', hright⟩ := h.between hleads (by omega) hj hjx
  exact ⟨j, _, k', hmid, by rw [h.place hmid]; omega, hleft, hright⟩

theorem levelled_start (mws : List (Behaviour A E R O)) (handler : Behaviour A E R O) (arg : A) :
    Levelled mws.length (throughMiddleware mws handler arg) := by
  refine ⟨fun hj => ?_, fun hj => ?_, fun hj => ?_, fun hj hne => ?_, ?_⟩
  · obtain ⟨rfl, rfl⟩ := getElem?_singleton hj
    exact (Nat.zero_min _).symm
  · exact absurd (getElem?_singleton hj).1 (Nat.succ_ne_zero _)
  · obtain ⟨-, rfl⟩ := getElem?_singleton hj
    rfl
  · obtain ⟨-, rfl⟩ := getElem?_singleton hj
    exact absurd rfl hne
  · show (if 0 < mws.length then 0 + 1 else 0) = min 1 mws.length
    split_ifs <;> omega

section

variable {mws : List (Behaviour A E R O)} {handler : Behaviour A E R O} {s' : Pool ℕ ℕ A E R O}

theorem Levelled.own (h : Levelled mws.length s)
    (hhandler : ∀ arg replies, ¬(handler arg replies).IsCall) {a : ℕ} {m : Move R}
    (hs : s.step (sharedIndex mws handler) (.own a m) = some s') : Levelled mws.length s' := by
  obtain ⟨act, act', hact, hacts, hshared, hprog, hcaller, -, hheard⟩ := Pool.step_own hs
  have hlen : s'.acts.length = s.acts.length := by rw [hacts, List.length_set]
  -- Every activation is one of before, up to what it has heard and called.
  have hold : ∀ {j : ℕ} {act₁ : Activation ℕ A R O}, s'.acts[j]? = some act₁ →
      ∃ old, s.acts[j]? = some old ∧ act₁.prog = old.prog ∧ act₁.caller = old.caller ∧
        (act₁.calls ≠ [] → old.prog < mws.length) := by
    intro j act₁ hj
    rw [hacts] at hj
    rcases Pool.getElem?_own hj with ⟨rfl, rfl⟩ | ⟨-, hj⟩
    · refine ⟨act, hact, hprog, hcaller, fun hne => ?_⟩
      rcases hheard with ⟨-, hcalls⟩ | ⟨r, -, -, hcalls | ⟨arg, hop, -⟩⟩
      · exact h.calls hact (hcalls ▸ hne)
      · exact h.calls hact (hcalls ▸ hne)
      · exact lt_of_isCall hhandler (by rw [hop]; trivial)
    · exact ⟨act₁, hj, rfl, rfl, h.calls hj⟩
  constructor
  · intro j act₁ hj
    obtain ⟨old, hj, hprog, -, -⟩ := hold hj
    exact hprog.trans (h.place hj)
  · intro j act₁ hj
    obtain ⟨old, hj, -, hcaller, -⟩ := hold hj
    exact hcaller ▸ h.caller hj
  · intro act₁ hj
    obtain ⟨old, hj, -, hcaller, -⟩ := hold hj
    exact hcaller.trans (h.first hj)
  · intro j act₁ hj hne
    obtain ⟨old, -, hprog, -, hlt⟩ := hold hj
    exact hprog ▸ hlt hne
  · rw [hshared, hlen]
    exact h.idx

/-- A call that is no retry begins the place after its own. -/
theorem Levelled.begin (h : Levelled mws.length s) {a k : ℕ}
    (hretry : NoRetry mws.length s (.begin a k : Pool.Action R))
    (hs : s.step (sharedIndex mws handler) (.begin a k) = some s') : Levelled mws.length s' := by
  obtain ⟨act, arg, hact, harg, -, rfl⟩ := Pool.step_begin hs
  have halen := (List.getElem?_eq_some_iff.1 hact).1
  have hlt : act.prog < mws.length := h.calls hact
    (List.ne_nil_of_length_pos (Nat.zero_lt_of_lt (List.getElem?_eq_some_iff.1 harg).1))
  have haplace : act.prog = a := by
    have hplace := h.place hact
    omega
  have ha : a = min (s.acts.length - 1) (mws.length - 1) := by
    by_contra hne
    have hnext : a + 1 < s.acts.length := by omega
    have hother := List.getElem?_eq_getElem hnext
    obtain ⟨k', hk'⟩ := h.caller hother
    refine hretry act hact (by omega) _ (List.getElem_mem hnext) ?_
    rw [hk', Option.map_some]
    congr 1
    show min a (mws.length - 1) = a
    omega
  have hidx := h.idx
  constructor
  · intro j act₁ hj
    rcases Pool.getElem?_begin hj with hj | ⟨rfl, rfl⟩
    · exact h.place hj
    · exact hidx
  · intro j act₁ hj
    rcases Pool.getElem?_begin hj with hj | ⟨hlen, rfl⟩
    · exact h.caller hj
    · exact ⟨k, by rw [ha, ← hlen]; rfl⟩
  · intro act₁ hj
    rcases Pool.getElem?_begin hj with hj | ⟨hlen, -⟩
    · exact h.first hj
    · omega
  · intro j act₁ hj hne
    rcases Pool.getElem?_begin hj with hj | ⟨-, rfl⟩
    · exact h.calls hj hne
    · exact absurd rfl hne
  · simp only [sharedIndex, List.length_append, List.length_singleton, hidx]
    split_ifs <;> omega

theorem Levelled.step (h : Levelled mws.length s)
    (hhandler : ∀ arg replies, ¬(handler arg replies).IsCall) {x : Pool.Action R}
    (hretry : NoRetry mws.length s x) (hs : s.step (sharedIndex mws handler) x = some s') :
    Levelled mws.length s' := by
  cases x with
  | own a m => exact h.own hhandler hs
  | begin a k => exact h.begin hretry hs

/-- A retry leaves out the place after its own. -/
theorem Levelled.skips (h : Levelled mws.length s) {a k : ℕ}
    (hretry : ¬NoRetry mws.length s (.begin a k : Pool.Action R)) {act : Activation ℕ A R O}
    (hact : s.acts[a]? = some act) : act.prog + 1 < mws.length ∧ act.prog + 1 < s.shared := by
  obtain ⟨act₁, hact₁, hlt, other, hother, hcaller⟩ :
      ∃ act₁ ∈ s.acts[a]?, act₁.prog + 1 < mws.length ∧
        ∃ other ∈ s.acts, other.caller.map Prod.fst = some a := by
    simpa only [NoRetry, not_forall, exists_prop, not_not] using hretry
  obtain rfl : act = act₁ := by
    rw [Option.mem_def, hact] at hact₁
    exact Option.some.inj hact₁
  obtain ⟨⟨b, k'⟩, hpair, hba⟩ := Option.map_eq_some_iff.1 hcaller
  obtain ⟨x, hx⟩ := List.mem_iff_getElem?.1 hother
  obtain ⟨hpos, hb⟩ := h.caller_eq hx hpair
  have hxlen := (List.getElem?_eq_some_iff.1 hx).1
  have hplace := h.place hact
  have hidx := h.idx
  replace hba : b = a := hba
  exact ⟨hlt, by omega⟩

/-- A retry that begins the handler leaves it unguarded. -/
theorem Levelled.not_guarded (h : Levelled mws.length s) {a k : ℕ}
    (hretry : ¬NoRetry mws.length s (.begin a k : Pool.Action R))
    (hs : s.step (sharedIndex mws handler) (.begin a k) = some s') (hend : mws.length ≤ s.shared) :
    ¬Guarded mws.length s' := by
  obtain ⟨act, arg, hact, -, -, rfl⟩ := Pool.step_begin hs
  intro hguarded
  have halen := (List.getElem?_eq_some_iff.1 hact).1
  obtain ⟨hlt, -⟩ := h.skips hretry hact
  have hact' : (s.acts ++ [⟨s.shared, arg, some (a, k), [], [], none⟩])[a]? = some act := by
    rw [List.getElem?_append_left halen]
    exact hact
  have hbefore : ∀ {x b i : ℕ} {act₁ : Activation ℕ A R O},
      (s.acts ++ [⟨s.shared, arg, some (a, k), [], [], none⟩])[x]? = some act₁ →
        act₁.caller = some (b, i) → b < x := by
    intro x b i act₁ hx hcaller
    rcases Pool.getElem?_begin hx with hx | ⟨rfl, rfl⟩
    · obtain ⟨hpos, hb⟩ := h.caller_eq hx hcaller
      omega
    · obtain ⟨rfl, rfl⟩ := Prod.mk.inj (Option.some.inj hcaller)
      exact halen
  obtain ⟨b, mid, k', hmid, hplace, hab, hbx⟩ := hguarded s.acts.length _
    List.getElem?_concat_length hend a k act hact' (.begun List.getElem?_concat_length rfl)
      (act.prog + 1) (Nat.lt_succ_self _) hlt
  have hltab : a < b := Pool.LeadsTo.lt hbefore hab
  -- The handler was begun by the retry, so what leads to it leads to the retry.
  have hba : b ≤ a := by
    cases hbx with
    | begun hx hcaller =>
      obtain rfl := Option.some.inj (List.getElem?_concat_length.symm.trans hx)
      exact le_of_eq (Prod.mk.inj (Option.some.inj hcaller)).1.symm
    | inner hb hx hcaller =>
      obtain rfl := Option.some.inj (List.getElem?_concat_length.symm.trans hx)
      obtain ⟨rfl, -⟩ := Prod.mk.inj (Option.some.inj hcaller)
      exact (Pool.LeadsTo.lt hbefore hb).le
  omega

end

end

section

variable (mws : List (Behaviour A E R O)) (fn : A → List (Answer R O) → E ⊕ O) (arg : A)
  {as : List (Pool.Action R)} {s : Pool ℕ ℕ A E R O}
  (hretry : Machine.Along (Pool.step (sharedIndex mws (handlerOf fn))) (NoRetry mws.length)
    (throughMiddleware mws (handlerOf fn) arg) as)
  (hrun : Machine.run (Pool.step (sharedIndex mws (handlerOf fn)))
    (throughMiddleware mws (handlerOf fn) arg) as = some s)

include hretry hrun

theorem levelled_of_noRetry : Levelled mws.length s :=
  Machine.run_invariant (Levelled mws.length) (NoRetry mws.length)
    (fun h hok hs => h.step (not_isCall_handlerOf fn) hok hs) (levelled_start _ _ _) hretry hrun

end

/-- The first try of a request is over, and the next call is made. -/
def firstTry : Pool ℕ ℕ ℕ Unit Unit ℕ where
  shared := 2
  acts := [⟨0, 5, none, [.made, .ended 5, .made], [5, 5], none⟩,
    ⟨1, 5, some (0, 0), [.made, .ended 5], [5], some 5⟩, ⟨2, 5, some (1, 0), [], [], some 5⟩]
  effects := []

end Middleware

end PilotLanggraph

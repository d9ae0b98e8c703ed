import PilotLanggraph.Lib.Coroutine
import PilotLanggraph.Server

/-!
# The middleware chain

`_through_middleware` with its middlewares as coroutines. All of them get the same `next_fn`,
which keeps the position in the chain in one variable of the request (`sharedIndex`). What it
stands for is the nested composition, where the `next_fn` of a middleware is the rest of the
list around the handler (`compose`, `closures`).

A middleware may await `next_fn`, run it as a task, or drop it; the pool of a request holds
all that has begun. Requests are served at the same time, each with a chain of its own.

* `through_middleware_composes` : middlewares that call `next_fn` at most once cannot tell the
  two apart, in any number of requests.
-/

namespace PilotLanggraph

open Coroutine

namespace Middleware

variable {A E R O : Type*}

/-- A handler. It has no `next_fn`. -/
def handlerOf (fn : A → List (Answer R O) → E ⊕ O) : Behaviour A E R O :=
  fun arg replies =>
    match fn arg replies with
    | .inl e => .perform e
    | .inr o => .finish o

/-- A handler that returns what it gets. -/
def echo (arg : A) (_ : List (Answer R A)) : E ⊕ A :=
  .inr arg

/-- `mws`. -/
def mws {B : Type*} (middleware : List B) (node : String) : List B :=
  if Server.isIntrospection node then [] else middleware

/-- `_next`, with `idx` the variable of the request. A program is a place in the chain, the
place after the last being the handler's. -/
def sharedIndex (mws : List (Behaviour A E R O)) (handler : Behaviour A E R O) :
    Script ℕ ℕ A E R O where
  behave place := mws[place]?.getD handler
  link idx _ := (idx, if idx < mws.length then idx + 1 else idx)

/-- `_through_middleware` : `idx` is 0, and `_next` is awaited. -/
def throughMiddleware (mws : List (Behaviour A E R O)) (handler : Behaviour A E R O) (arg : A) :
    Pool ℕ ℕ A E R O :=
  let (place, idx) := (sharedIndex mws handler).link 0 0
  .start idx place arg

/-- A call of `next_fn` on the server is one of the script : it leaves the variable alike, and
runs the middleware, or the handler, that the script begins. -/
theorem next_link (behaviour : ℕ → Behaviour A E R O) (handler : Behaviour A E R O) {s : Server}
    {i idx : ℕ} {c : Call} {d : Dispatch} (hcall : s.calls i = some c) (hidx : c.idx = some idx)
    (valid : Bool) (place : ℕ) :
    let sc := sharedIndex (mws (s.middleware.map behaviour) d.node) handler
    let s' := s.next i c d idx valid
    (s'.calls i).bind Call.idx = some (sc.link idx place).2 ∧
      ((∃ mw, s'.events = s.events ++ [⟨i, d.reg, .middleware mw⟩] ∧
          sc.behave (sc.link idx place).1 = behaviour mw) ∨
        s'.events = s.events ++ (Server.invoked (s.regs d.reg) valid).map (⟨i, d.reg, ·⟩) ∧
          sc.behave (sc.link idx place).1 = handler) := by
  have hmws : mws (s.middleware.map behaviour) d.node = (s.mws d.node).map behaviour := by
    unfold mws Server.mws
    split_ifs <;> rfl
  simp only [hmws, sharedIndex, Server.next, List.getElem?_map, List.length_map]
  cases hmw : (s.mws d.node)[idx]? with
  | some mw =>
    have hlt := (List.getElem?_eq_some_iff.1 hmw).1
    refine ⟨?_, Or.inl ⟨mw, rfl, rfl⟩⟩
    simp [Server.log, Server.setCall, hlt]
  | none =>
    have hle := List.getElem?_eq_none_iff.1 hmw
    refine ⟨?_, Or.inr ⟨rfl, rfl⟩⟩
    simp [Server.log, hcall, hidx, hle]

/-! ## The nested composition -/

/-- What `next_fn` stands for. -/
inductive Next (B : Type*)
  | handler
  | wrap (mw : B) (inner : Next B)

/-- The middlewares around the handler, the first outermost. -/
def compose {B : Type*} : List B → Next B
  | [] => .handler
  | mw :: mws => .wrap mw (compose mws)

/-- Each middleware calls what it was given. -/
def closures (handler : Behaviour A E R O) :
    Script Unit (Next (Behaviour A E R O)) A E R O where
  behave
    | .handler => handler
    | .wrap mw _ => mw
  link _
    | .handler => (.handler, ())
    | .wrap _ inner => (inner, ())

/-- The composition, run on an argument. -/
def composed (mws : List (Behaviour A E R O)) (arg : A) :
    Pool Unit (Next (Behaviour A E R O)) A E R O :=
  .start () (compose mws) arg

/-! ## Middlewares that call once -/

/-- The middleware calls `next_fn` at most once. -/
def OneShot (mw : Behaviour A E R O) : Prop :=
  ∀ arg replies replies', mw.CanHear arg replies' → replies <+: replies' →
    replies.length < replies'.length → (mw arg replies).IsCall → ¬(mw arg replies').IsCall

/-- A middleware that hands everything on. -/
def passOn : Behaviour A E R O
  | arg, [] => .call arg
  | _, _ :: .ended o :: _ => .finish o
  | _, _ => .await 0

theorem oneShot_passOn : OneShot (passOn : Behaviour A E R O) := by
  intro arg replies replies' _ _ hlt hcall
  cases replies with
  | nil =>
    cases replies' with
    | nil => exact absurd hlt (Nat.lt_irrefl 0)
    | cons r rest =>
      unfold passOn
      split <;> simp_all [Op.IsCall]
  | cons r rest =>
    unfold passOn at hcall
    split at hcall <;> simp_all [Op.IsCall]

theorem not_isCall_handlerOf (fn : A → List (Answer R O) → E ⊕ O) (arg : A)
    (replies : List (Answer R O)) : ¬(handlerOf fn arg replies).IsCall := by
  unfold handlerOf
  split
  · exact id
  · exact id

/-- The chain goes inwards : the activations are the first places of the chain, each begun by
the only call of the one before. A middleware that did not call is the last. -/
structure InTurn (n : ℕ) (s : Pool ℕ ℕ A E R O) : Prop where
  place : ∀ {j : ℕ} {act : Activation ℕ A R O}, s.acts[j]? = some act → act.prog = j
  caller : ∀ {j : ℕ} {act : Activation ℕ A R O}, s.acts[j + 1]? = some act →
    act.caller = some (j, 0)
  called : ∀ {j : ℕ} {act : Activation ℕ A R O}, s.acts[j]? = some act →
    j + 1 < s.acts.length → act.calls ≠ []
  length : s.acts.length ≤ n + 1
  idx : s.shared = min s.acts.length n

/-- No activation has called twice, and those that have called did so at an operation that is
over. -/
def OnceSoFar (sc : Script ℕ ℕ A E R O) (s : Pool ℕ ℕ A E R O) : Prop :=
  ∀ (j : ℕ) (act : Activation ℕ A R O), s.acts[j]? = some act →
    (sc.behave act.prog).CanHear act.arg act.replies ∧ act.calls.length ≤ 1 ∧
      (act.calls ≠ [] → ∃ replies, replies <+: act.replies ∧
        replies.length < act.replies.length ∧ (sc.behave act.prog act.arg replies).IsCall)

/-- The chain and the composition, side by side. -/
structure Nested (mws : List (Behaviour A E R O)) (handler : Behaviour A E R O)
    (s : Pool ℕ ℕ A E R O) (t : Pool Unit (Next (Behaviour A E R O)) A E R O) : Prop where
  inTurn : InTurn mws.length s
  once : OnceSoFar (sharedIndex mws handler) s
  view : s.view (sharedIndex mws handler).behave = t.view (closures handler).behave
  inner : ∀ {j : ℕ} {act : Activation (Next (Behaviour A E R O)) A R O}, t.acts[j]? = some act →
    act.prog = compose (mws.drop j)

section

variable {mws : List (Behaviour A E R O)} {handler : Behaviour A E R O}

theorem behave_compose (j : ℕ) :
    (closures handler).behave (compose (mws.drop j)) = (sharedIndex mws handler).behave j := by
  simp only [sharedIndex]
  cases hj : mws[j]? with
  | none =>
    rw [List.drop_eq_nil_of_le (List.getElem?_eq_none_iff.1 hj)]
    rfl
  | some mw =>
    obtain ⟨hlt, rfl⟩ := List.getElem?_eq_some_iff.1 hj
    rw [List.drop_eq_getElem_cons hlt]
    rfl

theorem link_compose {j : ℕ} (hj : j < mws.length) :
    (closures handler).link () (compose (mws.drop j)) = (compose (mws.drop (j + 1)), ()) := by
  rw [List.drop_eq_getElem_cons hj]
  rfl

theorem getElem?_singleton {α : Type*} {x y : α} {j : ℕ} (hj : [x][j]? = some y) :
    j = 0 ∧ y = x := by
  obtain ⟨hlt, rfl⟩ := List.getElem?_eq_some_iff.1 hj
  rw [List.length_singleton, Nat.lt_one_iff] at hlt
  exact ⟨hlt, by simp⟩

theorem nested_start (mws : List (Behaviour A E R O)) (handler : Behaviour A E R O) (arg : A) :
    Nested mws handler (throughMiddleware mws handler arg) (composed mws arg) := by
  refine ⟨⟨fun hj => ?_, fun hj => ?_, fun hj hlt => ?_, ?_, ?_⟩, fun j act hj => ?_, ?_,
    fun hj => ?_⟩
  · obtain ⟨rfl, rfl⟩ := getElem?_singleton hj
    rfl
  · exact absurd (getElem?_singleton hj).1 (Nat.succ_ne_zero _)
  · exact absurd hlt (by simp [throughMiddleware, Pool.start])
  · simp [throughMiddleware, Pool.start]
  · show (if 0 < mws.length then 0 + 1 else 0) = min 1 mws.length
    split_ifs <;> omega
  · obtain ⟨rfl, rfl⟩ := getElem?_singleton hj
    exact ⟨Behaviour.canHear_nil, Nat.zero_le _, fun h => absurd rfl h⟩
  · have hfirst : (closures handler).behave (compose mws) = (sharedIndex mws handler).behave 0 :=
      behave_compose 0
    simp only [throughMiddleware, composed, Pool.start, Pool.view, List.map_cons, List.map_nil,
      Activation.mapProg, hfirst]
    rfl
  · obtain ⟨rfl, rfl⟩ := getElem?_singleton hj
    rfl

/-- Only middlewares call. -/
theorem lt_of_isCall (hhandler : ∀ arg replies, ¬(handler arg replies).IsCall) {place : ℕ}
    {arg : A} {replies : List (Answer R O)}
    (h : ((sharedIndex mws handler).behave place arg replies).IsCall) : place < mws.length := by
  by_contra hle
  simp only [sharedIndex, List.getElem?_eq_none (Nat.not_lt.1 hle), Option.getD_none] at h
  exact hhandler _ _ h

theorem OnceSoFar.lt_of_calls (hhandler : ∀ arg replies, ¬(handler arg replies).IsCall)
    {s : Pool ℕ ℕ A E R O} (h : OnceSoFar (sharedIndex mws handler) s) {j : ℕ}
    {act : Activation ℕ A R O} (hj : s.acts[j]? = some act) (hcalls : act.calls ≠ []) :
    act.prog < mws.length := by
  obtain ⟨replies, -, -, hcall⟩ := (h j act hj).2.2 hcalls
  exact lt_of_isCall hhandler hcall

theorem oneShot_behave (honce : ∀ mw ∈ mws, OneShot mw)
    (hhandler : ∀ arg replies, ¬(handler arg replies).IsCall) (place : ℕ) :
    OneShot ((sharedIndex mws handler).behave place) := by
  simp only [sharedIndex]
  cases hmw : mws[place]? with
  | none => exact fun arg replies _ _ _ _ hcall => absurd hcall (hhandler arg replies)
  | some mw => exact honce mw (List.mem_of_getElem? hmw)

section

variable {sc : Script ℕ ℕ A E R O} {s s' : Pool ℕ ℕ A E R O} {a : ℕ} {m : Move R}

theorem InTurn.own {n : ℕ} (h : InTurn n s) (hs : s.step sc (.own a m) = some s') :
    InTurn n s' := by
  obtain ⟨act, act', hact, hacts, hshared, hprog, hcaller, -, hheard⟩ := Pool.step_own hs
  have hlen : s'.acts.length = s.acts.length := by rw [hacts, List.length_set]
  constructor
  · intro j act₁ hj
    rw [hacts] at hj
    rcases Pool.getElem?_own hj with ⟨rfl, rfl⟩ | ⟨-, hj⟩
    · exact hprog.trans (h.place hact)
    · exact h.place hj
  · intro j act₁ hj
    rw [hacts] at hj
    rcases Pool.getElem?_own hj with ⟨rfl, rfl⟩ | ⟨-, hj⟩
    · exact hcaller.trans (h.caller hact)
    · exact h.caller hj
  · intro j act₁ hj hlt
    rw [hlen] at hlt
    rw [hacts] at hj
    rcases Pool.getElem?_own hj with ⟨rfl, rfl⟩ | ⟨-, hj⟩
    · rcases hheard with ⟨-, hcalls⟩ | ⟨r, -, -, hcalls | ⟨arg, -, hcalls⟩⟩
      · exact hcalls ▸ h.called hact hlt
      · exact hcalls ▸ h.called hact hlt
      · simp [hcalls]
    · exact h.called hj hlt
  · exact hlen ▸ h.length
  · rw [hshared, hlen]
    exact h.idx

theorem OnceSoFar.own (h : OnceSoFar sc s) (honce : ∀ place, OneShot (sc.behave place))
    (hs : s.step sc (.own a m) = some s') : OnceSoFar sc s' := by
  obtain ⟨act, act', hact, hacts, -, hprog, -, harg, hheard⟩ := Pool.step_own hs
  intro j act₁ hj
  rw [hacts] at hj
  rcases Pool.getElem?_own hj with ⟨rfl, rfl⟩ | ⟨-, hj⟩
  · obtain ⟨hcan, hlen, hcall⟩ := h j act hact
    rw [hprog, harg]
    rcases hheard with ⟨hreplies, hcalls⟩ | ⟨r, hr, hreplies, hcalls⟩
    · rw [hreplies, hcalls]
      exact ⟨hcan, hlen, hcall⟩
    · rw [hreplies]
      refine ⟨hcan.hear hr, ?_⟩
      have hlonger : act.replies.length < (act.replies ++ [r]).length := by simp
      rcases hcalls with hcalls | ⟨arg, hop, hcalls⟩
      · rw [hcalls]
        refine ⟨hlen, fun hne => ?_⟩
        obtain ⟨replies, hpre, hlt, hop⟩ := hcall hne
        exact ⟨replies, hpre.trans (List.prefix_append _ _), hlt.trans hlonger, hop⟩
      · -- It has not called before.
        have hnone : act.calls = [] := by
          by_contra hne
          obtain ⟨replies, hpre, hlt, hop'⟩ := hcall hne
          exact honce _ _ _ _ hcan hpre hlt hop' (by rw [hop]; trivial)
        rw [hcalls, hnone]
        exact ⟨Nat.le_refl _, fun _ =>
          ⟨act.replies, List.prefix_append _ _, hlonger, by rw [hop]; trivial⟩⟩
  · exact h j act₁ hj

end

/-- Only the innermost activation can begin its call. -/
theorem InTurn.innermost {n : ℕ} {s : Pool ℕ ℕ A E R O} {a : ℕ} {act : Activation ℕ A R O}
    (h : InTurn n s) (hact : s.acts[a]? = some act) (hnone : s.begun? a 0 = none) :
    a + 1 = s.acts.length := by
  have hlt := (List.getElem?_eq_some_iff.1 hact).1
  by_contra hne
  have hnext : a + 1 < s.acts.length := by omega
  exact Pool.begun?_eq_none.1 hnone _ (List.getElem_mem hnext)
    (h.caller (List.getElem?_eq_getElem hnext))

theorem InTurn.begin {n : ℕ} {s : Pool ℕ ℕ A E R O} {a : ℕ} {act : Activation ℕ A R O}
    (h : InTurn n s) (hact : s.acts[a]? = some act) (hlast : a + 1 = s.acts.length) (hlt : a < n)
    (hcalls : act.calls ≠ []) (arg : A) :
    InTurn n { s with
      shared := if s.shared < n then s.shared + 1 else s.shared
      acts := s.acts ++ [⟨s.shared, arg, some (a, 0), [], [], none⟩] } := by
  have hidx : s.shared = s.acts.length := by
    have hidx := h.idx
    omega
  constructor
  · intro j act₁ hj
    rcases Pool.getElem?_begin hj with hj | ⟨rfl, rfl⟩
    · exact h.place hj
    · exact hidx
  · intro j act₁ hj
    rcases Pool.getElem?_begin hj with hj | ⟨hlen, rfl⟩
    · exact h.caller hj
    · have hja : j = a := by omega
      rw [hja]
  · intro j act₁ hj hjlt
    rcases Pool.getElem?_begin hj with hold | ⟨rfl, rfl⟩
    · by_cases hja : j = a
      · rw [hja, hact] at hold
        exact Option.some.inj hold ▸ hcalls
      · have hjlen := (List.getElem?_eq_some_iff.1 hold).1
        exact h.called hold (by omega)
    · simp at hjlt
  · simp only [List.length_append, List.length_singleton]
    omega
  · simp only [List.length_append, List.length_singleton, hidx]
    split_ifs <;> omega

theorem OnceSoFar.begin {sc : Script ℕ ℕ A E R O} {s : Pool ℕ ℕ A E R O} (h : OnceSoFar sc s)
    (shared place : ℕ) (arg : A) (caller : Option (ℕ × ℕ)) :
    OnceSoFar sc { s with
      shared, acts := s.acts ++ [⟨place, arg, caller, [], [], none⟩] } := by
  intro j act hj
  rcases Pool.getElem?_begin hj with hj | ⟨-, rfl⟩
  · exact h j act hj
  · exact ⟨Behaviour.canHear_nil, Nat.zero_le _, fun hne => absurd rfl hne⟩

/-- The only call of the innermost activation is begun : the next place of the chain. -/
theorem Nested.begin {s : Pool ℕ ℕ A E R O} {t : Pool Unit (Next (Behaviour A E R O)) A E R O}
    (h : Nested mws handler s t) (hhandler : ∀ arg replies, ¬(handler arg replies).IsCall)
    (a k : ℕ) :
    Option.Rel (Nested mws handler) (s.step (sharedIndex mws handler) (.begin a k))
      (t.step (closures handler) (.begin a k)) := by
  have hacts : s.acts.map (Activation.mapProg (sharedIndex mws handler).behave) =
      t.acts.map (Activation.mapProg (closures handler).behave) := congrArg Pool.acts h.view
  have hbegun : (s.begun? a k).isSome = (t.begun? a k).isSome := by
    have hview := congrArg (fun p : Pool Unit _ A E R O => (p.begun? a k).isSome) h.view
    simpa only [Pool.begun?_view, Option.isSome_map] using hview
  have ha := congrArg (fun acts => acts[a]?) hacts
  simp only [List.getElem?_map] at ha
  cases hact : s.acts[a]? with
  | none =>
    rw [hact, Option.map_none, eq_comm, Option.map_eq_none_iff] at ha
    simp only [Pool.step, hact, ha, Option.bind_none]
    exact .none
  | some act =>
    rw [hact, Option.map_some, eq_comm, Option.map_eq_some_iff] at ha
    obtain ⟨nact, hnact, hsame⟩ := ha
    have hcalls : nact.calls = act.calls := congrArg Activation.calls hsame
    simp only [Pool.step, hact, hnact, Option.bind_some, hcalls, hbegun]
    cases harg : act.calls[k]? with
    | none => exact .none
    | some arg =>
      simp only [Option.bind_some]
      split_ifs with hsome
      · exact .none
      · have hklt := (List.getElem?_eq_some_iff.1 harg).1
        have hne : act.calls ≠ [] := List.ne_nil_of_length_pos (Nat.zero_lt_of_lt hklt)
        have hlt : act.prog < mws.length := h.once.lt_of_calls hhandler hact hne
        rw [h.inTurn.place hact] at hlt
        have hk : k = 0 := by
          have hone := (h.once a act hact).2.1
          omega
        subst hk
        have hlast : a + 1 = s.acts.length := by
          rw [← hbegun] at hsome
          exact h.inTurn.innermost hact (by simpa using hsome)
        have hidx : s.shared = a + 1 := by
          have hidx := h.inTurn.idx
          omega
        have hlen : t.acts.length = s.acts.length := by
          simpa using (congrArg List.length hacts).symm
        refine .some ⟨h.inTurn.begin hact hlast hlt hne arg, h.once.begin _ _ _ _, ?_, ?_⟩
        · simp only [Pool.view, List.map_append, hacts, List.map_singleton]
          have hnew : (sharedIndex mws handler).behave ((sharedIndex mws handler).link s.shared
              act.prog).1 = (closures handler).behave ((closures handler).link t.shared
              nact.prog).1 := by
            rw [h.inner hnact]
            show (sharedIndex mws handler).behave s.shared =
              (closures handler).behave ((closures handler).link () (compose (mws.drop a))).1
            rw [link_compose hlt, behave_compose, hidx]
          have heffects : s.effects = t.effects := congrArg Pool.effects h.view
          simp only [Activation.mapProg, hnew, heffects]
        · intro j act₁ hj
          rcases Pool.getElem?_begin hj with hj | ⟨rfl, rfl⟩
          · exact h.inner hj
          · show ((closures handler).link () nact.prog).1 = _
            rw [h.inner hnact, link_compose hlt, hlen, ← hlast]

/-- The chain and the composition go on together. -/
theorem Nested.step {s : Pool ℕ ℕ A E R O} {t : Pool Unit (Next (Behaviour A E R O)) A E R O}
    (h : Nested mws handler s t) (honce : ∀ mw ∈ mws, OneShot mw)
    (hhandler : ∀ arg replies, ¬(handler arg replies).IsCall) (x : Pool.Action R) :
    Option.Rel (Nested mws handler) (s.step (sharedIndex mws handler) x)
      (t.step (closures handler) x) := by
  cases x with
  | begin a k => exact h.begin hhandler a k
  | own a m =>
    have hview := Pool.step_own_view h.view a m
    cases hs : s.step (sharedIndex mws handler) (.own a m) with
    | none =>
      rw [hs, Option.map_none, eq_comm, Option.map_eq_none_iff] at hview
      rw [hview]
      exact .none
    | some s' =>
      rw [hs, Option.map_some, eq_comm, Option.map_eq_some_iff] at hview
      obtain ⟨t', ht, hview⟩ := hview
      rw [ht]
      refine .some ⟨h.inTurn.own hs, h.once.own (oneShot_behave honce hhandler) hs, hview.symm, ?_⟩
      obtain ⟨act, act', hact, hacts, -, hprog, -⟩ := Pool.step_own ht
      intro j act₁ hj
      rw [hacts] at hj
      rcases Pool.getElem?_own hj with ⟨rfl, rfl⟩ | ⟨-, hj⟩
      · exact hprog.trans (h.inner hact)
      · exact h.inner hj

end

/-! ## Requests at the same time -/

section

variable (middleware : List (Behaviour A E R O)) (node : ℕ → String)
  (fn : ℕ → A → List (Answer R O) → E ⊕ O) (arg : ℕ → A)

/-- The chain of each request. -/
def chain (i : ℕ) : Script ℕ ℕ A E R O :=
  sharedIndex (mws middleware (node i)) (handlerOf (fn i))

/-- The requests, each at the start of its chain. -/
def requests : Traffic ℕ ℕ A E R O :=
  ⟨fun i => throughMiddleware (mws middleware (node i)) (handlerOf (fn i)) (arg i), []⟩

/-- The requests, each at the start of the composition. -/
def composedRequests : Traffic Unit (Next (Behaviour A E R O)) A E R O :=
  ⟨fun i => composed middleware (arg i), []⟩

/-- The chains of requests and the compositions can do the same, and do it with the same
effects in the same order and the same outcomes. `next_fn` goes one place inwards, and what is
inside a middleware begins only if it called. -/
theorem through_middleware_composes (hnode : ∀ i, Server.isIntrospection (node i) = false)
    (honce : ∀ mw ∈ middleware, OneShot mw) (as : List (ℕ × Pool.Action R)) :
    (Machine.run (Traffic.step (chain middleware node fn)) (requests middleware node fn arg) as).map
        (Traffic.view fun i => (chain middleware node fn i).behave) =
      (Machine.run (Traffic.step fun i => closures (handlerOf (fn i)))
        (composedRequests middleware arg) as).map
          (Traffic.view fun i => (closures (handlerOf (fn i))).behave) ∧
    ∀ s, Machine.run (Traffic.step (chain middleware node fn)) (requests middleware node fn arg) as
        = some s →
      ∀ i, InTurn middleware.length (s.pools i) := by
  have hmws : ∀ i, mws middleware (node i) = middleware := by
    intro i
    simp only [mws, hnode i, Bool.false_eq_true, if_false]
  have hnested : ∀ {i s t}, Nested middleware (handlerOf (fn i)) s t →
      s.view (chain middleware node fn i).behave =
        t.view (closures (handlerOf (fn i))).behave := by
    intro i s t h
    rw [chain, hmws]
    exact h.view
  have hstart : Traffic.Alike (fun i => Nested middleware (handlerOf (fn i)))
      (requests middleware node fn arg) (composedRequests middleware arg) := by
    refine ⟨fun i => ?_, rfl⟩
    show Nested _ (handlerOf (fn i)) (throughMiddleware (mws middleware (node i))
      (handlerOf (fn i)) (arg i)) _
    rw [hmws]
    exact nested_start middleware (handlerOf (fn i)) (arg i)
  have hrun := Traffic.run_lockstep (chain middleware node fn)
    (fun i => closures (handlerOf (fn i))) (fun i => Nested middleware (handlerOf (fn i))) hnested
    (fun {i s t a} h => by
      rw [chain, hmws]
      exact h.step honce (not_isCall_handlerOf _) a) hstart as
  generalize Machine.run _ (composedRequests middleware arg) as = composed at hrun ⊢
  cases hs : Machine.run (Traffic.step (chain middleware node fn)) (requests middleware node fn arg)
      as with
  | none =>
    rw [hs] at hrun
    cases hrun
    exact ⟨rfl, fun s h => by cases h⟩
  | some s =>
    rw [hs] at hrun
    cases hrun with
    | some h =>
      refine ⟨congrArg some ?_, fun s' hs' i => ?_⟩
      · exact h.view (chain middleware node fn) (fun i => closures (handlerOf (fn i))) _ hnested
      · obtain rfl := Option.some.inj hs'
        exact (h.1 i).inTurn

/-- Two requests with a middleware each, one of them all the way to its outcome. -/
theorem through_middleware_composes_echo : ∃ as : List (ℕ × Pool.Action Unit),
    (Machine.run (Traffic.step (chain [passOn] (fun _ => "echo") fun _ => echo))
      (requests [passOn] (fun _ => "echo") (fun _ => echo) id :
        Traffic ℕ ℕ ℕ Unit Unit ℕ) as).isSome ∧
    (Machine.run (Traffic.step (chain [passOn] (fun _ => "echo") fun _ => echo))
      (requests [passOn] (fun _ => "echo") (fun _ => echo) id :
        Traffic ℕ ℕ ℕ Unit Unit ℕ) as).map
          (Traffic.view fun i => (chain [passOn] (fun _ => "echo") (fun _ => echo) i).behave) =
      (Machine.run (Traffic.step fun _ => closures (handlerOf echo))
        (composedRequests [passOn] id) as).map
          (Traffic.view fun _ => (closures (handlerOf echo)).behave) :=
  ⟨[(0, .own 0 .call), (1, .own 0 .call), (1, .begin 0 0), (1, .own 1 .finish),
      (1, .own 0 .await), (1, .own 0 .finish)], rfl,
    (through_middleware_composes [passOn] (fun _ => "echo") (fun _ => echo) id
      (fun _ => by decide) (by simpa using oneShot_passOn) _).1⟩

end

end Middleware

end PilotLanggraph

import PilotLanggraph.Drive
import PilotLanggraph.Lib.Awaitable

/-!
# Sync middlewares

`next_fn` is a coroutine function. An async middleware awaits what a call of it returns; a sync one
can only hand the coroutine on, through the middlewares around it to `_drive`, which puts it into
the reply as any other value. So the chain is here one of coroutines that are values (`chain`), in
which a middleware may await whatever it has been given.

* `sync_alike` : while the middleware that is replaced does not get to its `next_fn`, nothing
  changes; behind a sync middleware that does, the handler is not called.
-/

namespace PilotLanggraph

open Awaitable Drive Middleware

namespace SyncMiddleware

variable {V C E R : Type*}

/-! ## The chain -/

/-- What a coroutine of the chain runs : a middleware, or the handler. -/
abbrev Body (V C E R : Type*) :=
  Awaitable.Behaviour (V × C) E R Raised (Drive.Outcome V E R)

/-- `async def m(p, c, next_fn): return await next_fn(f(p), c)`. -/
def asyncForward (f : V → Except Raised V) : Body V C E R :=
  fun arg replies =>
    match f arg.1, replies with
    | .error e, _ => .finish (.error e)
    | .ok p, [] => .call (p, arg.2)
    | .ok _, _ :: .ended o :: _ => .finish o
    | .ok _, _ :: .threw e :: _ => .finish (.error e)
    | .ok _, .made w :: _ => .await w
    -- There is no other first reply.
    | .ok _, _ => .await 0

/-- `def m(p, c, next_fn): return next_fn(f(p), c)`, with the coroutines among the values. -/
def syncForward (coroutine : ℕ → V) (f : V → Except Raised V) : Body V C E R :=
  fun arg replies =>
    match f arg.1, replies with
    | .error e, _ => .finish (.error e)
    | .ok _, .made w :: _ => .finish (.ok (.inr (coroutine w)))
    | .ok p, _ => .call (p, arg.2)

/-- A reply of the environment, as a handler hears it. -/
def environment : Awaitable.Answer R Raised (Drive.Outcome V E R) →
    Option (Coroutine.Answer R (Drive.Outcome V E R))
  | .heard r => some (.heard r)
  | _ => none

/-- `_invoke_handler`, as the end of the chain. -/
def invokes (lib : Library V) (reg : Registration) (handler : HandlerFn V C E R) : Body V C E R :=
  fun arg replies =>
    match invokeHandler lib reg handler arg (replies.filterMap environment) with
    | .inl e => .perform e
    | .inr o => .finish o

/-- `_next`, as in `sharedIndex`. -/
def chain (mws : List (Body V C E R)) (handler : Body V C E R) :
    Awaitable.Script ℕ ℕ (V × C) E R Raised (Drive.Outcome V E R) where
  behave place := mws[place]?.getD handler
  link idx := (idx, if idx < mws.length then idx + 1 else idx)

/-- The chain goes as the one without coroutines as values does. -/
theorem link_chain {A O : Type*} {mws : List (Body V C E R)}
    {mws' : List (Coroutine.Behaviour A E R O)} (h : mws.length = mws'.length)
    (handler : Body V C E R) (handler' : Coroutine.Behaviour A E R O) (idx place : ℕ) :
    (chain mws handler).link idx = (sharedIndex mws' handler').link idx place := by
  simp only [chain, sharedIndex, h]

/-! ## Requests -/

/-- A request that is dispatched, with the handler it has found. -/
structure Request (V C E R : Type*) where
  node : String
  reg : Registration
  handler : HandlerFn V C E R
  payload : V
  ctx : C

/-- The coroutines of a request. -/
abbrev Coros (V C E R : Type*) :=
  Heap ℕ ℕ (V × C) E R Raised (Drive.Outcome V E R)

section

variable (lib : Library V) (rt : Runtime) (middleware : List (Body V C E R))

namespace Request

variable (req : Request V C E R)

/-- `_through_middleware`. -/
def script : Awaitable.Script ℕ ℕ (V × C) E R Raised (Drive.Outcome V E R) :=
  chain (mws middleware req.node) (invokes lib req.reg req.handler)

/-- The arguments with which the handler is called, one list for each call. -/
def invocations (s : Coros V C E R) : List (List (Arg V C)) :=
  match req.handler, mws middleware req.node with
  | .asyncGen _, [] => [.payload req.payload :: ctxArgs req.reg req.ctx]
  | _, mws =>
    s.coros.filterMap fun c =>
      if c.prog = some mws.length then
        (handlerPayload lib req.reg c.arg.1).toOption.map
          (.payload · :: ctxArgs req.reg c.arg.2)
      else none

/-- What `_drive` goes through, once it is there. -/
def result (s : Coros V C E R) : Option (Drive.Outcome V E R) :=
  match req.handler, mws middleware req.node with
  | .asyncGen call, [] => some ((call (.payload req.payload :: ctxArgs req.reg req.ctx)).map .inl)
  | _, _ => s.coros[0]?.bind Coro.outcome

/-- The frames handed to `_send_chunk`, while these things happen. -/
def frames (turns : List (Turn R)) (s : Coros V C E R) : List Frame :=
  match req.result middleware s with
  | some o => collected lib req.reg rt turns o
  | none => []

end Request

variable (reqs : ℕ → Request V C E R)

/-- The requests, each at the start of its chain. -/
def start (i : ℕ) : Coros V C E R :=
  .start ((reqs i).script lib middleware) 0 ((reqs i).payload, (reqs i).ctx)

/-- One operation of a coroutine of a request. -/
def step (s : ℕ → Coros V C E R) (a : ℕ × ℕ × Move R Raised) : Option (ℕ → Coros V C E R) :=
  ((s a.1).step ((reqs a.1).script lib middleware) a.2).map (Function.update s a.1)

/-- The handler invocations and the reply frames of the requests, after a run. -/
def observed (turns : ℕ → List (Turn R)) (as : List (ℕ × ℕ × Move R Raised)) :
    Option (ℕ → List (List (Arg V C)) × List Frame) :=
  (Machine.run (step lib middleware reqs) (start lib middleware reqs) as).map fun s i =>
    ((reqs i).invocations lib middleware (s i), (reqs i).frames lib rt middleware (turns i) (s i))

end

/-! ## The two middlewares -/

section

variable {coroutine : ℕ → V} {f : V → Except Raised V}

/-- Where `f` raises, both end so. -/
theorem forwards_of_error {arg : V × C} {e : Raised} (h : f arg.1 = .error e) :
    (syncForward coroutine f : Body V C E R) arg = asyncForward f arg := by
  funext replies
  simp only [syncForward, asyncForward, h]

/-- An async one calls `next_fn` once. -/
theorem oneCall_asyncForward : (asyncForward f : Body V C E R).OneCall := by
  intro arg replies w x hw
  unfold asyncForward
  split
  · exact fun h => by cases h
  · cases hw
  · exact fun h => by cases h
  · exact fun h => by cases h
  · exact fun h => by cases h
  · exact fun h => by cases h

/-- A sync middleware awaits nothing. -/
theorem plain_syncForward : (syncForward coroutine f : Body V C E R).Plain := by
  intro arg replies w
  unfold syncForward
  split
  · constructor <;> intro h <;> cases h
  · constructor <;> intro h <;> cases h
  · constructor <;> intro h <;> cases h

end

section

variable {lib : Library V} {rt : Runtime} {reqs : ℕ → Request V C E R} {x y : Body V C E R}
  {pre post : List (Body V C E R)}

/-- Another middleware at one place of the list. -/
theorem getElem?_replaced {j : ℕ} (hj : j ≠ pre.length) :
    (pre ++ x :: post)[j]? = (pre ++ y :: post)[j]? := by
  rcases Nat.lt_or_gt_of_ne hj with hlt | hgt
  · rw [List.getElem?_append_left hlt, List.getElem?_append_left hlt]
  · have hpos : j - pre.length ≠ 0 := Nat.sub_ne_zero_of_lt hgt
    rw [List.getElem?_append_right hgt.le, List.getElem?_append_right hgt.le,
      List.getElem?_cons, List.getElem?_cons, if_neg hpos, if_neg hpos]

theorem length_replaced : (pre ++ x :: post).length = (pre ++ y :: post).length := by
  rw [List.length_append, List.length_append, List.length_cons, List.length_cons]

theorem op?_replaced {handler : Body V C E R}
    {c : Coro ℕ (V × C) R Raised (Drive.Outcome V E R)}
    (h : c.prog = some pre.length → x c.arg = y c.arg) :
    c.op? (chain (pre ++ x :: post) handler) = c.op? (chain (pre ++ y :: post) handler) := by
  unfold Coro.op?
  cases hprog : c.prog with
  | none => rfl
  | some place =>
    cases c.outcome with
    | some o => rfl
    | none =>
      simp only [chain, Option.some.injEq]
      rcases eq_or_ne place pre.length with rfl | hne
      · simp [h hprog]
      · rw [getElem?_replaced hne]

theorem length_mws_replaced (node : String) :
    (mws (pre ++ x :: post) node).length = (mws (pre ++ y :: post) node).length := by
  unfold mws
  split_ifs
  · rfl
  · exact length_replaced

theorem link_replaced (req : Request V C E R) :
    (req.script lib (pre ++ x :: post)).link = (req.script lib (pre ++ y :: post)).link := by
  funext idx
  simp only [Request.script, chain, length_mws_replaced (x := x) (y := y) req.node]

theorem start_replaced :
    start lib (pre ++ x :: post) reqs = start lib (pre ++ y :: post) reqs := by
  funext i
  unfold start Heap.start
  rw [link_replaced (y := y)]

/-- The two middlewares do the same at this step of a request. -/
def AlikeAt (reqs : ℕ → Request V C E R) (x y : Body V C E R) (place : ℕ)
    (s : ℕ → Coros V C E R) (a : ℕ × ℕ × Move R Raised) : Prop :=
  Server.isIntrospection (reqs a.1).node = true ∨
    ∀ c ∈ (s a.1).coros[a.2.1]?, c.prog = some place → x c.arg = y c.arg

theorem step_replaced {s : ℕ → Coros V C E R} {a : ℕ × ℕ × Move R Raised}
    (h : AlikeAt reqs x y pre.length s a) :
    step lib (pre ++ x :: post) reqs s a = step lib (pre ++ y :: post) reqs s a := by
  unfold step
  congr 1
  refine Heap.step_congr (link_replaced _) fun c hc => ?_
  unfold Request.script mws
  split_ifs with hnode
  · rfl
  · exact op?_replaced (h.resolve_left hnode c hc)

theorem invocations_replaced (req : Request V C E R) (s : Coros V C E R) :
    req.invocations lib (pre ++ x :: post) s = req.invocations lib (pre ++ y :: post) s := by
  unfold Request.invocations mws
  split_ifs
  · rfl
  · cases pre <;> cases req.handler <;> simp

theorem frames_replaced (req : Request V C E R) (turns : List (Turn R)) (s : Coros V C E R) :
    req.frames lib rt (pre ++ x :: post) turns s =
      req.frames lib rt (pre ++ y :: post) turns s := by
  unfold Request.frames Request.result mws
  split_ifs
  · rfl
  · cases pre <;> cases req.handler <;> rfl

/-- Nothing changes while the two middlewares do the same. -/
theorem observed_replaced {turns : ℕ → List (Turn R)} {as : List (ℕ × ℕ × Move R Raised)}
    (h : Machine.Along (step lib (pre ++ y :: post) reqs) (AlikeAt reqs x y pre.length)
      (start lib (pre ++ y :: post) reqs) as) :
    observed lib rt (pre ++ x :: post) reqs turns as =
      observed lib rt (pre ++ y :: post) reqs turns as := by
  have hrun : Machine.run (step lib (pre ++ x :: post) reqs)
      (start lib (pre ++ y :: post) reqs) as = Machine.run (step lib (pre ++ y :: post) reqs)
        (start lib (pre ++ y :: post) reqs) as :=
    Machine.run_congr (h.mono fun _ _ => step_replaced)
  unfold observed
  rw [start_replaced (y := y), hrun]
  congr 1
  funext s i
  rw [invocations_replaced (y := y), frames_replaced (y := y)]

end

/-! ## What a sync middleware hands on -/

section

variable {lib : Library V} {coroutine : ℕ → V} {f : V → Except Raised V}
  {pre post : List (Body V C E R)}

theorem mws_all {B : Type*} {node : String} (hnode : Server.isIntrospection node = false)
    (middleware : List B) : mws middleware node = middleware := by
  rw [mws, hnode]
  rfl

/-- A request whose outermost middleware is sync : its `next_fn` has not been called, or has made
a coroutine, which is what the middleware returns. -/
inductive HandsOn (coroutine : ℕ → V) (arg : V × C) (p : V) : Coros V C E R → Prop
  | begun : HandsOn coroutine arg p ⟨1, [⟨arg, none, some 0, none, [], none⟩], []⟩
  | called (outcome : Option (Drive.Outcome V E R))
    (h : ∀ o ∈ outcome, o = .ok (.inr (coroutine 1))) :
    HandsOn coroutine arg p ⟨1, [⟨arg, none, some 0, none, [.made 1], outcome⟩,
      ⟨(p, arg.2), some 0, none, none, [], none⟩], []⟩

/-- It does nothing else. -/
theorem HandsOn.step {handler : Body V C E R} {arg : V × C} {p : V} (hf : f arg.1 = .ok p)
    {s s' : Coros V C E R} (h : HandsOn coroutine arg p s) {a : ℕ × Move R Raised}
    (hstep : s.step (chain (syncForward coroutine f :: post) handler) a = some s') :
    HandsOn coroutine arg p s' := by
  obtain ⟨j, m⟩ := a
  obtain ⟨c, hc, hstep⟩ := Option.bind_eq_some_iff.1 hstep
  obtain ⟨op, hop, hstep⟩ := Option.bind_eq_some_iff.1 hstep
  cases h with
  | begun =>
    obtain ⟨rfl, rfl⟩ := getElem?_singleton hc
    obtain rfl : op = .call (p, arg.2) := by
      simpa [Coro.op?, chain, syncForward, hf] using hop.symm
    cases m <;> cases hstep
    exact .called none (by simp)
  | called outcome houtcome =>
    match j, hc with
    | 0, hc =>
      obtain rfl := Option.some.inj hc
      cases outcome with
      | some o => cases hop
      | none =>
        obtain rfl : op = .finish (.ok (.inr (coroutine 1))) := by
          simpa [Coro.op?, chain, syncForward, hf] using hop.symm
        cases m <;> cases hstep
        exact .called _ (by simp)
    | 1, hc =>
      obtain rfl := Option.some.inj hc
      cases hop
    | j + 2, hc => cases hc

/-- In any traffic. -/
theorem handsOn_run {reqs : ℕ → Request V C E R} {i : ℕ}
    (hnode : Server.isIntrospection (reqs i).node = false) {p : V}
    (hf : f (reqs i).payload = .ok p) {as : List (ℕ × ℕ × Move R Raised)}
    {s : ℕ → Coros V C E R}
    (hrun : Machine.run (step lib (syncForward coroutine f :: post) reqs)
      (start lib (syncForward coroutine f :: post) reqs) as = some s) :
    HandsOn coroutine ((reqs i).payload, (reqs i).ctx) p (s i) := by
  refine Machine.run_induction
    (fun _ s => HandsOn coroutine ((reqs i).payload, (reqs i).ctx) p (s i)) ?_ ?_ hrun
  · unfold start Request.script
    rw [mws_all hnode]
    exact .begun
  · intro _ s a s' _ h hstep
    obtain ⟨t, ht, rfl⟩ := Option.map_eq_some_iff.1 hstep
    by_cases hi : i = a.1
    · subst hi
      rw [Function.update_self]
      unfold Request.script at ht
      rw [mws_all hnode] at ht
      exact h.step hf ht
    · rw [Function.update_of_ne hi]
      exact h

theorem HandsOn.invocations {req : Request V C E R}
    (hnode : Server.isIntrospection req.node = false) {x : Body V C E R} {arg : V × C} {p : V}
    {s : Coros V C E R} (h : HandsOn coroutine arg p s) :
    req.invocations lib (x :: post) s = [] := by
  unfold Request.invocations
  rw [mws_all hnode]
  cases h <;> simp

theorem HandsOn.frames {req : Request V C E R} {rt : Runtime} {turns : List (Turn R)}
    (hnode : Server.isIntrospection req.node = false) {x : Body V C E R} {arg : V × C} {p : V}
    {s : Coros V C E R} (h : HandsOn coroutine arg p s) :
    req.frames lib rt (x :: post) turns s = [] ∨
      req.frames lib rt (x :: post) turns s =
        collected lib req.reg rt turns (.ok (.inr (coroutine 1)) : Drive.Outcome V E R) := by
  have hresult : req.result (x :: post) s = s.coros[0]?.bind Coro.outcome := by
    unfold Request.result
    rw [mws_all hnode]
    cases req.handler <;> rfl
  unfold Request.frames
  rw [hresult]
  cases h with
  | begun => exact .inl rfl
  | called outcome houtcome =>
    cases outcome with
    | none => exact .inl rfl
    | some o =>
      obtain rfl := houtcome o rfl
      exact .inr rfl

end

/-! ## Lists that keep the contract -/

section

variable {middleware : List (Body V C E R)} {handler : Body V C E R} {s s' : Coros V C E R}
  {k : ℕ}

/-- The places of the chain have begun in turn up to some place, each by the coroutine of the one
before, and none is behind the place `k`. -/
structure Inward (k : ℕ) (s : Coros V C E R) : Prop where
  shared : s.shared ≤ k + 1
  begun : ∀ {w j : ℕ} {m : Option ℕ}, s.links[w]? = some (m, some j) → j < s.shared
  inner : ∀ {w j : ℕ} {m : Option ℕ}, s.links[w]? = some (m, some (j + 1)) →
    ∃ (x : ℕ) (m' : Option ℕ), m = some x ∧ s.links[x]? = some (m', some j)
  all : ∀ {j : ℕ}, j < s.shared → ∃ (w : ℕ) (m : Option ℕ), s.links[w]? = some (m, some j)
  inj : ∀ {w w' j : ℕ} {m m' : Option ℕ}, s.links[w]? = some (m, some j) →
    s.links[w']? = some (m', some j) → w = w'

theorem inward_start (arg : V × C) (hne : middleware ≠ []) :
    Inward k (.start (chain middleware handler) 0 arg) := by
  have hpos : 0 < middleware.length := List.length_pos_iff.2 hne
  have hshared : (Heap.start (chain middleware handler) 0 arg).shared = 1 := if_pos hpos
  have hlink : ∀ {w j : ℕ} {m : Option ℕ},
      (Heap.start (chain middleware handler) 0 arg).links[w]? = some (m, some j) →
        w = 0 ∧ m = none ∧ j = 0 := by
    intro w j m hw
    obtain ⟨rfl, h⟩ := getElem?_singleton hw
    rw [Prod.mk.injEq, Option.some.injEq] at h
    exact ⟨rfl, h⟩
  refine ⟨by omega, fun hw => ?_, fun hw => ?_, fun hj => ⟨0, none, ?_⟩, fun hw hw' => ?_⟩
  · have := (hlink hw).2.2
    omega
  · exact absurd (hlink hw).2.2 (Nat.succ_ne_zero _)
  · rw [hshared, Nat.lt_one_iff] at hj
    rw [hj]
    rfl
  · exact (hlink hw).1.trans (hlink hw').1.symm

/-- Nothing begins. -/
theorem Inward.same (h : Inward k s) (hshared : s'.shared = s.shared)
    (hlinks : ∀ (w : ℕ) (m : Option ℕ) (j : ℕ),
      s'.links[w]? = some (m, some j) ↔ s.links[w]? = some (m, some j)) :
    Inward k s' := by
  constructor
  · rw [hshared]
    exact h.shared
  · intro w j m hw
    rw [hshared]
    exact h.begun ((hlinks _ _ _).1 hw)
  · intro w j m hw
    obtain ⟨x, m', hm, hx⟩ := h.inner ((hlinks _ _ _).1 hw)
    exact ⟨x, m', hm, (hlinks _ _ _).2 hx⟩
  · intro j hj
    rw [hshared] at hj
    obtain ⟨w, m, hw⟩ := h.all hj
    exact ⟨w, m, (hlinks _ _ _).2 hw⟩
  · intro w w' j m m' hw hw'
    exact h.inj ((hlinks _ _ _).1 hw) ((hlinks _ _ _).1 hw')

/-- The next place begins. -/
theorem Inward.next (h : Inward k s) {w₀ x₀ j₀ : ℕ} {m₀ : Option ℕ} (hlt : s.shared ≤ k)
    (hj₀ : s.shared = j₀ + 1) (hx₀ : s.links[x₀]? = some (m₀, some j₀))
    (hw₀ : s.links[w₀]? = some (some x₀, none)) (hshared : s'.shared = s.shared + 1)
    (hlinks : s'.links = s.links.set w₀ (some x₀, some s.shared)) : Inward k s' := by
  have hlen := (List.getElem?_eq_some_iff.1 hw₀).1
  have hnew : s'.links[w₀]? = some (some x₀, some s.shared) := by
    rw [hlinks, List.getElem?_set_self hlen]
  have hold : ∀ {w j : ℕ} {m : Option ℕ}, s.links[w]? = some (m, some j) →
      s'.links[w]? = some (m, some j) := by
    intro w j m hw
    have hne : w₀ ≠ w := by
      rintro rfl
      rw [hw₀] at hw
      cases hw
    rw [hlinks, List.getElem?_set_ne hne, hw]
  have hcases : ∀ {w j : ℕ} {m : Option ℕ}, s'.links[w]? = some (m, some j) →
      w = w₀ ∧ m = some x₀ ∧ j = s.shared ∨ s.links[w]? = some (m, some j) := by
    intro w j m hw
    rw [hlinks, List.getElem?_set] at hw
    split_ifs at hw with heq
    · rw [Option.some.injEq, Prod.mk.injEq, Option.some.injEq] at hw
      exact .inl ⟨heq.symm, hw.1.symm, hw.2.symm⟩
    · exact .inr hw
  constructor
  · omega
  · intro w j m hw
    rcases hcases hw with ⟨-, -, rfl⟩ | hw
    · omega
    · have := h.begun hw
      omega
  · intro w j m hw
    rcases hcases hw with ⟨-, rfl, hj⟩ | hw
    · obtain rfl : j = j₀ := by omega
      exact ⟨x₀, m₀, rfl, hold hx₀⟩
    · obtain ⟨x, m', hm, hx⟩ := h.inner hw
      exact ⟨x, m', hm, hold hx⟩
  · intro j hj
    rcases Nat.lt_or_ge j s.shared with hj' | hj'
    · obtain ⟨w, m, hw⟩ := h.all hj'
      exact ⟨w, m, hold hw⟩
    · obtain rfl : j = s.shared := by omega
      exact ⟨w₀, _, hnew⟩
  · intro w w' j m m' hw hw'
    rcases hcases hw with ⟨rfl, -, rfl⟩ | hw
    · rcases hcases hw' with ⟨rfl, -, -⟩ | hw'
      · rfl
      · exact absurd (h.begun hw') (Nat.lt_irrefl _)
    · rcases hcases hw' with ⟨-, -, rfl⟩ | hw'
      · exact absurd (h.begun hw) (Nat.lt_irrefl _)
      · exact h.inj hw hw'

/-- Where each coroutine is begun by the one that made it, and the places before `k` call at most
once, the chain stops at a place that begins nothing. -/
theorem Inward.step (h : Inward k s) (hk : k < middleware.length)
    (hplain : ((chain middleware handler).behave k).Plain) (honce : s.MadeOnce (· < k))
    {a : ℕ × Move R Raised}
    (hown : Heap.BeginsOwn (chain middleware handler) s a)
    (hstep : s.step (chain middleware handler) a = some s') : Inward k s' := by
  obtain ⟨c, hc, hprog, hlinks⟩ := Heap.step_links hstep
  cases hlinks with
  | same hshared hsame => exact h.same hshared fun w m j => by rw [hsame]
  | made arg hop hshared _ hmade =>
    refine h.same hshared fun w m j => ?_
    rw [hmade, List.getElem?_append]
    split_ifs with hlt
    · rfl
    · rw [List.getElem?_eq_none (Nat.not_lt.1 hlt)]
      refine iff_of_false (fun hw => ?_) fun hw => by cases hw
      have hmem := List.mem_singleton.1 (List.mem_of_getElem? hw)
      cases hmem
  | begun w maker hop hw hshared hbegun =>
    obtain rfl := hown c hc w hop maker none hw
    obtain ⟨j, hj, hx⟩ := Heap.links_of_prog hc hprog
    have hjlt := h.begun hx
    have hle := h.shared
    have hne : j ≠ k := by
      rintro rfl
      exact Coro.not_begins hj hplain w hop
    have hlast : s.shared = j + 1 := by
      by_contra hnot
      -- The place after `j` has begun, so the coroutine of `j` has made another.
      obtain ⟨w', m, hw'⟩ := h.all (show j + 1 < s.shared by omega)
      obtain ⟨x, m', rfl, hx'⟩ := h.inner hw'
      obtain rfl := h.inj hx hx'
      have hsame := honce w w' a.1 _ _ _ j hw hw' hx (show j < k by omega)
      subst hsame
      rw [hw] at hw'
      cases hw'
    refine h.next (by omega) hlast hx hw ?_ hbegun
    rw [hshared]
    exact if_pos (by omega)

variable {lib : Library V} {reqs : ℕ → Request V C E R} {i : ℕ}

/-- In the request `i`, coroutines are begun by those that made them. -/
def AwaitsOwn (lib : Library V) (middleware : List (Body V C E R)) (reqs : ℕ → Request V C E R)
    (i : ℕ) (s : ℕ → Coros V C E R) (a : ℕ × ℕ × Move R Raised) : Prop :=
  a.1 = i → Heap.BeginsOwn ((reqs i).script lib middleware) (s i) a.2

/-- In any traffic. -/
theorem inward_run {as : List (ℕ × ℕ × Move R Raised)} {s : ℕ → Coros V C E R}
    (hnode : Server.isIntrospection (reqs i).node = false) (hk : k < middleware.length)
    (hplain : (middleware[k]).Plain) (honce : ∀ mw ∈ middleware.take k, mw.OneCall)
    (hown : Machine.Along (step lib middleware reqs) (AwaitsOwn lib middleware reqs i)
      (start lib middleware reqs) as)
    (hrun : Machine.run (step lib middleware reqs) (start lib middleware reqs) as = some s) :
    Inward k (s i) := by
  have hscript : (reqs i).script lib middleware =
      chain middleware (invokes lib (reqs i).reg (reqs i).handler) := by
    rw [Request.script, mws_all hnode]
  have hbehave : ∀ {handler : Body V C E R} {j : ℕ} (hj : j < middleware.length),
      (chain middleware handler).behave j = middleware[j] := by
    intro handler j hj
    simp only [chain, List.getElem?_eq_getElem hj, Option.getD_some]
  have hcalls : ∀ j, j < k →
      ((chain middleware (invokes lib (reqs i).reg (reqs i).handler)).behave j).OneCall := by
    intro j hj
    rw [hbehave (hj.trans hk)]
    exact honce _ (List.mem_take_iff_getElem.2 ⟨j, by omega, rfl⟩)
  have hne : middleware ≠ [] := List.ne_nil_of_length_pos (Nat.zero_lt_of_lt hk)
  have h : (s i).Called ∧ (s i).MadeOnce (· < k) ∧ Inward k (s i) := by
    refine Machine.run_invariant (fun s => (s i).Called ∧ (s i).MadeOnce (· < k) ∧
      Inward k (s i)) _ ?_ ?_ hown hrun
    · rintro s a s' ⟨hcalled, hmade, hinward⟩ hown hstep
      obtain ⟨t, ht, rfl⟩ := Option.map_eq_some_iff.1 hstep
      by_cases hi : i = a.1
      · subst hi
        rw [Function.update_self]
        have hown := hown rfl
        rw [hscript] at ht hown
        exact ⟨Heap.called_step hcalled ht, Heap.madeOnce_step hcalls hcalled hmade ht,
          hinward.step hk (by rwa [hbehave hk]) hmade hown ht⟩
      · rw [Function.update_of_ne hi]
        exact ⟨hcalled, hmade, hinward⟩
    · unfold start
      rw [hscript]
      exact ⟨Heap.called_start _ _ _, Heap.madeOnce_start _ _ _, inward_start _ hne⟩
  exact h.2.2

/-- The handler is not called. -/
theorem Inward.invocations (h : Inward k s) {req : Request V C E R}
    (hnode : Server.isIntrospection req.node = false) (hk : k < middleware.length) :
    req.invocations lib middleware s = [] := by
  have hlate : ∀ c ∈ s.coros, c.prog ≠ some middleware.length := by
    intro c hc hprog
    obtain ⟨w, hw⟩ := List.getElem?_of_mem hc
    have hlink : s.links[w]? = some (c.maker, c.prog) := by
      rw [Heap.links, List.getElem?_map, hw, Option.map_some]
    rw [hprog] at hlink
    have hlt := h.begun hlink
    have hle := h.shared
    omega
  unfold Request.invocations
  rw [mws_all hnode]
  cases middleware with
  | nil => exact absurd hk (Nat.not_lt_zero k)
  | cons mw rest =>
    cases req.handler <;>
      exact List.filterMap_eq_nil_iff.2 fun c hc => if_neg (hlate c hc)

end

/-! ## The two lists -/

section

variable (lib : Library V) (rt : Runtime) (middleware : List (Body V C E R))
  {reqs : ℕ → Request V C E R} (turns : ℕ → List (Turn R))

/-- The others wait. -/
theorem run_request {i : ℕ} {as : List (ℕ × Move R Raised)} {s : ℕ → Coros V C E R}
    {t : Coros V C E R}
    (h : Machine.run (Heap.step ((reqs i).script lib middleware)) (s i) as = some t) :
    Machine.run (step lib middleware reqs) s (as.map (Prod.mk i)) =
      some (Function.update s i t) := by
  induction as generalizing s with
  | nil =>
    obtain rfl := Option.some.inj h
    rw [Function.update_eq_self]
    rfl
  | cons a as ih =>
    obtain ⟨u, hu, h⟩ := Machine.run_cons h
    have hstep : step lib middleware reqs s (i, a) = some (Function.update s i u) := by
      unfold step
      rw [hu, Option.map_some]
    rw [List.map_cons, Machine.run_of_step hstep, ih (by rwa [Function.update_self]),
      Function.update_idem]

/-- What one request shows, on its own. -/
theorem observed_request {i : ℕ} (hnode : Server.isIntrospection (reqs i).node = false)
    (as : List (ℕ × Move R Raised)) {t : Coros V C E R}
    (h : Machine.run (Heap.step (chain middleware (invokes lib (reqs i).reg (reqs i).handler)))
      (.start (chain middleware (invokes lib (reqs i).reg (reqs i).handler)) 0
        ((reqs i).payload, (reqs i).ctx)) as = some t) :
    ∃ o, observed lib rt middleware reqs turns (as.map (Prod.mk i)) = some o ∧
      o i = ((reqs i).invocations lib middleware t,
        (reqs i).frames lib rt middleware (turns i) t) := by
  have hscript : (reqs i).script lib middleware =
      chain middleware (invokes lib (reqs i).reg (reqs i).handler) := by
    rw [Request.script, mws_all hnode]
  have hstart : Machine.run (Heap.step ((reqs i).script lib middleware))
      (start lib middleware reqs i) as = some t := by
    rw [start, hscript]
    exact h
  have hrun := run_request lib middleware hstart
  refine ⟨_, by rw [observed, hrun, Option.map_some], ?_⟩
  rw [Function.update_self]

end

/-- The async middleware makes the coroutine of the handler, and begins it. -/
theorem run_asyncForward {f : V → Except Raised V} {handler : Body V C E R} {arg : V × C} {p : V}
    (hf : f arg.1 = .ok p) :
    Machine.run (Heap.step (chain [asyncForward f] handler))
        (.start (chain [asyncForward f] handler) 0 arg) [(0, .call), (0, .begin)] =
      some ⟨1, [⟨arg, none, some 0, none, [.made 1], none⟩,
        ⟨(p, arg.2), some 0, some 1, some 0, [], none⟩], []⟩ := by
  have hcall : Coro.op? (chain [asyncForward f] handler) ⟨arg, none, some 0, none, [], none⟩ =
      some (.call (p, arg.2)) := by
    simp [Coro.op?, chain, asyncForward, hf]
  have hawait : Coro.op? (chain [asyncForward f] handler)
      ⟨arg, none, some 0, none, [.made 1], none⟩ = some (.await 1) := by
    simp [Coro.op?, chain, asyncForward, hf]
  have hmade : Heap.step (chain [asyncForward f] handler)
      (.start (chain [asyncForward f] handler) 0 arg) (0, .call) =
        some ⟨1, [⟨arg, none, some 0, none, [.made 1], none⟩,
          ⟨(p, arg.2), some 0, none, none, [], none⟩], []⟩ :=
    (Heap.step_of_op? rfl hcall).trans rfl
  have hbegun : Heap.step (chain [asyncForward f] handler)
      ⟨1, [⟨arg, none, some 0, none, [.made 1], none⟩,
        ⟨(p, arg.2), some 0, none, none, [], none⟩], []⟩ (0, .begin) =
        some ⟨1, [⟨arg, none, some 0, none, [.made 1], none⟩,
          ⟨(p, arg.2), some 0, some 1, some 0, [], none⟩], []⟩ :=
    (Heap.step_of_op? rfl hawait).trans rfl
  rw [Machine.run_of_step hmade, Machine.run_of_step hbegun, Machine.run]

section

variable (lib : Library V) (rt : Runtime) (coroutine : ℕ → V) (f : V → Except Raised V)
  (reqs : ℕ → Request V C E R) (turns : ℕ → List (Turn R))

/-- Where the middleware at this place runs, `f` raises. -/
def Raises (place : ℕ) (s : ℕ → Coros V C E R) (a : ℕ × ℕ × Move R Raised) : Prop :=
  Server.isIntrospection (reqs a.1).node = true ∨
    ∀ c ∈ (s a.1).coros[a.2.1]?, c.prog = some place → ∃ e, f c.arg.1 = .error e

/-- The sync middleware shows what the async one shows, whatever the list and the order of steps,
as long as `f` raises where it runs. With it in a list whose middlewares before it call `next_fn`
once and await it themselves, the handler is not called. As the outermost it hands on a coroutine
where `f` returns, which is the reply, and the async one calls the handler. -/
theorem sync_alike :
    (∀ (pre post : List (Body V C E R)) (as : List (ℕ × ℕ × Move R Raised)),
      Machine.Along (step lib (pre ++ asyncForward f :: post) reqs) (Raises f reqs pre.length)
          (start lib (pre ++ asyncForward f :: post) reqs) as →
        observed lib rt (pre ++ syncForward coroutine f :: post) reqs turns as =
          observed lib rt (pre ++ asyncForward f :: post) reqs turns as) ∧
    (∀ (i : ℕ) (pre post : List (Body V C E R)) as o,
      Server.isIntrospection (reqs i).node = false → (∀ mw ∈ pre, mw.OneCall) →
        Machine.Along (step lib (pre ++ syncForward coroutine f :: post) reqs)
            (AwaitsOwn lib (pre ++ syncForward coroutine f :: post) reqs i)
            (start lib (pre ++ syncForward coroutine f :: post) reqs) as →
          observed lib rt (pre ++ syncForward coroutine f :: post) reqs turns as = some o →
            (o i).1 = []) ∧
    ∀ (i : ℕ) (p : V), Server.isIntrospection (reqs i).node = false →
      f (reqs i).payload = .ok p →
        (∀ post as o,
          observed lib rt (syncForward coroutine f :: post) reqs turns as = some o →
            (o i).1 = [] ∧ ((o i).2 = [] ∨ (o i).2 = collected lib (reqs i).reg rt (turns i)
              (.ok (.inr (coroutine 1)) : Drive.Outcome V E R))) ∧
        ∀ v, handlerPayload lib (reqs i).reg p = .ok v →
          ∃ as o, observed lib rt [asyncForward f] reqs turns as = some o ∧
            (o i).1 = [.payload v :: ctxArgs (reqs i).reg (reqs i).ctx] := by
  refine ⟨fun pre post as h => ?_, fun i pre post as o hnode honce hown ho => ?_,
    fun i p hnode hf => ⟨fun post as o ho => ?_, fun v hv => ?_⟩⟩
  · refine observed_replaced (h.mono fun s a hraises => ?_)
    refine hraises.imp id fun hraises c hc hprog => ?_
    obtain ⟨e, he⟩ := hraises c hc hprog
    exact forwards_of_error he
  · obtain ⟨s, hrun, rfl⟩ := Option.map_eq_some_iff.1 ho
    have hk : pre.length < (pre ++ syncForward coroutine f :: post).length := by simp
    have hplain : ((pre ++ syncForward coroutine f :: post)[pre.length]).Plain := by
      simpa using plain_syncForward
    have hpre : ∀ mw ∈ (pre ++ syncForward coroutine f :: post).take pre.length, mw.OneCall := by
      rwa [List.take_left]
    exact (inward_run hnode hk hplain hpre hown hrun).invocations hnode hk
  · obtain ⟨s, hrun, rfl⟩ := Option.map_eq_some_iff.1 ho
    have hs := handsOn_run hnode hf hrun
    exact ⟨hs.invocations hnode, hs.frames hnode⟩
  · obtain ⟨o, ho, hi⟩ := observed_request lib rt [asyncForward f] turns hnode
      [(0, .call), (0, .begin)] (run_asyncForward hf)
    refine ⟨_, o, ho, ?_⟩
    rw [hi]
    unfold Request.invocations
    rw [mws_all hnode]
    cases (reqs i).handler <;> simp [hv, Except.toOption]

end

/-! ## One sync middleware -/

/-- JSON values, and coroutines. -/
inductive Value
  | json (j : Json)
  | coroutine (w : ℕ)

/-- What `str` gives for a coroutine of `next_fn`. -/
def coroutineText : String :=
  "<coroutine object WorkerServer._handle_one.<locals>._through_middleware.<locals>._next at 0x7f>"

/-- `json.dumps` with `default=str`. -/
def defaultStr : Library Value where
  validate _ v := .ok v
  validateDump _ v := .ok v
  dumps
    | .json j => .ok j
    | .coroutine _ => .ok (.str coroutineText)

/-- A handler that returns `"ok"`. -/
def okRequest (_ : ℕ) : Request Value Unit Unit Unit where
  node := "op"
  reg := .new ⟨1, .plain, some ⟨1, false⟩⟩ {}
  handler := .plain fun _ => .ok (.json (.str "ok"))
  payload := .json .null
  ctx := ()

/-- Two requests whose payload the middleware refuses. -/
theorem sync_alike_refusing :
    let as : List (ℕ × ℕ × Move Unit Raised) := [(0, 0, .finish), (1, 0, .finish)]
    let refuse : Value → Except Raised Value := fun _ => .error (.exception "ValueError" "bad")
    observed defaultStr Server.plainRuntime [syncForward .coroutine refuse] okRequest
        (fun _ => []) as =
      observed defaultStr Server.plainRuntime [asyncForward refuse] okRequest (fun _ => []) as ∧
    (observed defaultStr Server.plainRuntime [asyncForward refuse] okRequest
      (fun _ => []) as).map (· 1) = some ([], [.ofError "handler_error" "ValueError: bad"]) := by
  intro as refuse
  refine ⟨(sync_alike defaultStr Server.plainRuntime .coroutine refuse okRequest
    (fun _ => [])).1 [] [] as ?_, rfl⟩
  exact Machine.along_of_forall (fun _ _ _ => .inr fun _ _ _ => ⟨_, rfl⟩) _

/-- A middleware that hands on what it gets, and a handler that returns `"ok"`. The async one
replies so; with the sync one the handler is not called, and the reply is a coroutine's text. -/
theorem coroutine_in_reply :
    (∃ as o, observed defaultStr Server.plainRuntime [asyncForward .ok] okRequest
        (fun _ => []) as = some o ∧
      o 0 = ([[.payload (.json .null)]], [.ofResult (.str "ok") true])) ∧
    (∃ as o, observed defaultStr Server.plainRuntime [syncForward .coroutine .ok] okRequest
        (fun _ => []) as = some o ∧
      o 0 = ([], [.ofResult (.str coroutineText) true])) ∧
    ∀ as o, observed defaultStr Server.plainRuntime [syncForward .coroutine .ok] okRequest
        (fun _ => []) as = some o →
      o 0 ≠ ([[.payload (.json .null)]], [.ofResult (.str "ok") true]) := by
  have hnode : Server.isIntrospection (okRequest 0).node = false := by decide
  refine ⟨?_, ?_, fun as o ho h => ?_⟩
  · obtain ⟨o, ho, h⟩ := observed_request defaultStr Server.plainRuntime [asyncForward .ok]
      (fun _ => []) hnode [(0, .call), (0, .begin), (1, .finish), (0, .wake), (0, .finish)] rfl
    exact ⟨_, o, ho, h⟩
  · obtain ⟨o, ho, h⟩ := observed_request defaultStr Server.plainRuntime
      [syncForward .coroutine .ok] (fun _ => []) hnode [(0, .call), (0, .finish)] rfl
    exact ⟨_, o, ho, h⟩
  · obtain ⟨s, hrun, rfl⟩ := Option.map_eq_some_iff.1 ho
    have hs := handsOn_run hnode rfl hrun
    have hcalls := (congrArg Prod.fst h).symm.trans (hs.invocations hnode)
    cases hcalls

end SyncMiddleware

end PilotLanggraph

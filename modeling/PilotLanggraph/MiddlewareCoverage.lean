import PilotLanggraph.CallSteps

/-!
# What the middleware covers

Which user code a step of a call runs (`Runs`), and with it how far the call is in the chain.
A handler runs inside the chain when a middleware's call of `next_fn` began it, with every
middleware of the server begun before (`InsideChain`).

* `handler_in_chain_iff` : it does for every name that does not start with an underscore, but
  for the body of an async generator, which `_drive` runs once the chain has returned it.
* `underscore_uncovered` : a user's handler with an underscore is reached by no middleware.
-/

namespace PilotLanggraph

namespace Server

/-! ## The user code of a step -/

/-- A step runs user code for the call `i`, which goes from `c` to `c'` by the action `a`. -/
inductive Runs (s : Server) (i : ℕ) (c : Call) (a : Action) (c' : Call) : List Event → Prop
  /-- None at all. -/
  | quiet (hidx : c'.idx = c.idx) : Runs s i c a c' []
  /-- The drive starts, and there is no middleware. -/
  | bare {d : Dispatch} {codes : List UserCode} (hd : c'.phase.branch = .dispatched d)
    (hmws : s.mws d.node = []) (hcodes : ∀ mw, .middleware mw ∉ codes) :
    Runs s i c a c' (codes.map (⟨i, d.reg, ·⟩))
  /-- A middleware, the first or the next. -/
  | middleware {d : Dispatch} {k mw : ℕ} (hd : c'.phase.branch = .dispatched d)
    (hk : k = 0 ∨ c.idx = some k) (hmw : (s.mws d.node)[k]? = some mw)
    (hidx : c'.idx = some (k + 1)) : Runs s i c a c' [⟨i, d.reg, .middleware mw⟩]
  /-- The end of the chain. -/
  | handler {d : Dispatch} {k : ℕ} {valid : Bool} {codes : List UserCode}
    (ha : a = .next i valid) (hd : c'.phase.branch = .dispatched d) (hk : c.idx = some k)
    (hend : (s.mws d.node)[k]? = none) (hidx : c'.idx = c.idx)
    (hcodes : ∀ mw, .middleware mw ∉ codes) : Runs s i c a c' (codes.map (⟨i, d.reg, ·⟩))
  /-- Output validation. -/
  | output {d : Dispatch} {models : List ℕ} (hidx : c'.idx = c.idx) :
    Runs s i c a c' (models.map fun model => ⟨i, d.reg, .outputModel model⟩)
  /-- The generator that the chain returned. -/
  | body {d : Dispatch} {fn : ℕ} (ha : a = .returnedGenerator i true) (hidx : c'.idx = c.idx) :
    Runs s i c a c' [⟨i, d.reg, .handler fn⟩]

/-- The call `i` has gone from `c` to `c'`, with what it ran. -/
def Ran (s s' : Server) (i : ℕ) (c : Call) (a : Action) (c' : Call) : Prop :=
  s'.calls = Function.update s.calls i (some c') ∧ s'.middleware = s.middleware ∧
    ∃ new, s'.events = s.events ++ new ∧ Runs s i c a c' new

section

variable {rt : Runtime} {s s' t : Server} {i : ℕ} {c c' : Call} {d : Dispatch} {a : Action}

theorem not_middleware_invoked (r : Registration) (valid : Bool) (mw : ℕ) :
    .middleware mw ∉ invoked r valid := by
  unfold invoked
  split
  · simp
  · split_ifs <;> simp

theorem ran_quiet (hcalls : s'.calls = Function.update s.calls i (some c'))
    (hmws : s'.middleware = s.middleware) (hevents : s'.events = s.events)
    (hidx : c'.idx = c.idx) : Ran s s' i c a c' :=
  ⟨hcalls, hmws, [], hevents.trans (List.append_nil _).symm, .quiet hidx⟩

theorem next_ran (hc : s.calls i = some c) (hd : c.phase.branch = .dispatched d) {k : ℕ}
    (hk : c.idx = some k) (valid : Bool) :
    ∃ c', Ran s (s.next i c d k valid) i c (.next i valid) c' := by
  unfold next
  split
  · rename_i mw hmw
    exact ⟨{ c with idx := some (k + 1) }, rfl, rfl, _, rfl, .middleware hd (.inr hk) hmw rfl⟩
  · rename_i hend
    exact ⟨c, by rw [← hc, Function.update_eq_self]; rfl, rfl, _, rfl,
      .handler rfl hd hk hend rfl (not_middleware_invoked _ valid)⟩

theorem startDrive_ran (s : Server) (i : ℕ) (c : Call) (d : Dispatch) (valid : Bool) (a : Action) :
    ∃ c', Ran s (s.startDrive i c d valid) i c a c' := by
  unfold startDrive
  split_ifs with hfast
  · exact ⟨{ c with phase := .driving d .fast }, rfl, rfl, _, rfl, .bare rfl hfast.2 (by simp)⟩
  · unfold next
    have hmws : ∀ c', (s.setCall i c').mws d.node = s.mws d.node := fun _ => rfl
    simp only [hmws]
    split
    · rename_i mw hmw
      refine ⟨{ c with phase := .driving d .chain, idx := some 1 }, ?_, rfl, _, rfl,
        .middleware rfl (.inl rfl) hmw rfl⟩
      exact Function.update_idem ..
    · rename_i hend
      refine ⟨{ c with phase := .driving d .chain, idx := some 0 }, rfl, rfl, _, rfl,
        .bare rfl ?_ (not_middleware_invoked _ valid)⟩
      exact List.length_eq_zero_iff.1 (Nat.le_zero.1 (List.getElem?_eq_none_iff.1 hend))

/-- Registrations are no part of it. -/
theorem Ran.of_setReg {id : ℕ} {r : Registration} (h : Ran (s.setReg id r) s' i c a c') :
    Ran s s' i c a c' := by
  obtain ⟨hcalls, hmws, new, hnew, hruns⟩ := h
  refine ⟨hcalls, hmws, new, hnew, ?_⟩
  cases hruns with
  | quiet hidx => exact .quiet hidx
  | bare hd hmws hcodes => exact .bare hd hmws hcodes
  | middleware hd hk hmw hidx => exact .middleware hd hk hmw hidx
  | handler ha hd hk hend hidx hcodes => exact .handler ha hd hk hend hidx hcodes
  | output hidx => exact .output hidx
  | body ha hidx => exact .body ha hidx

/-- Past the gates, or turned away. -/
theorem enter_ran (rt : Runtime) (s : Server) (i : ℕ) (c : Call) (d : Dispatch) (valid : Bool)
    (gate : Gate) (a : Action) : ∃ c', Ran s (s.enter rt i c d valid gate) i c a c' := by
  cases gate with
  | refused why => exact ⟨_, ran_quiet rfl rfl rfl rfl⟩
  | raises => exact ⟨_, ran_quiet rfl rfl rfl rfl⟩
  | admitted =>
    unfold enter launch
    simp only
    split
    · exact ⟨_, ran_quiet rfl rfl rfl rfl⟩
    · exact startDrive_ran s i c d valid a

/-- A chunk in the read loop. -/
theorem receive_ran (rt : Runtime) (s : Server) (i : ℕ) (c : Call) (buf chunk : Bytes) (now : Secs)
    (valid : Bool) (a : Action) : ∃ c', Ran s (s.receive rt i c buf chunk now valid) i c a c' := by
  unfold receive
  split_ifs
  · exact ⟨_, ran_quiet rfl rfl rfl rfl⟩
  split
  · exact ⟨_, ran_quiet rfl rfl rfl rfl⟩
  · exact ⟨_, ran_quiet rfl rfl rfl rfl⟩
  unfold handleRequest
  split
  · split
    · exact ⟨_, ran_quiet rfl rfl rfl rfl⟩
    · exact ⟨_, ran_quiet rfl rfl rfl rfl⟩
    · split
      · rw [passGates_eq]
        obtain ⟨c', h⟩ := enter_ran rt (s.setReg _ _) i c _ valid _ a
        exact ⟨c', h.of_setReg⟩
      · exact ⟨_, ran_quiet rfl rfl rfl rfl⟩
    · exact ⟨_, ran_quiet rfl rfl rfl rfl⟩
  · exact ⟨_, ran_quiet rfl rfl rfl rfl⟩

theorem stepCall_ran (hc : s.calls i = some c) (h : s.stepCall rt i c a = some s')
    (ha : a.call? = some i) : ∃ c', Ran s s' i c a c' := by
  cases stepCall_cases h ha with
  | @read buf chunk now valid hphase => exact receive_ran rt s i c buf chunk now valid _
  | @start d valid hphase => exact startDrive_ran s i c d valid _
  | @next d idx valid hd hidx => exact next_ran hc hd hidx valid
  | handled hd =>
    refine ⟨c, by rw [← hc, Function.update_eq_self]; rfl, rfl, _, rfl, ?_⟩
    rw [List.map_map]
    exact .output rfl
  | @returnedGenerator d body hphase =>
    cases body with
    | true => exact ⟨_, rfl, rfl, _, rfl, .body rfl rfl⟩
    | false => exact ⟨_, rfl, rfl, _, rfl, .quiet rfl⟩
  | _ => exact ⟨_, ran_quiet rfl rfl rfl rfl⟩

/-! ## How far a call is -/

/-- The call `i` of a server with middleware. As far as `idx`, the middlewares have begun for it;
under a name with an underscore, none has. -/
structure Wrapped (s : Server) (i : ℕ) : Prop where
  middleware : s.middleware ≠ []
  fresh : ∀ c, s.calls i = some c → c.phase.branch = .undecided → c.idx = none
  reached : ∀ c d k, s.calls i = some c → c.phase.branch = .dispatched d →
    isIntrospection d.node = false → c.idx = some k → k ≤ s.middleware.length ∧
      ∀ j mw, j < k → s.middleware[j]? = some mw → ⟨i, d.reg, .middleware mw⟩ ∈ s.events
  bare : ∀ c d, s.calls i = some c → c.phase.branch = .dispatched d →
    isIntrospection d.node = true → ∀ e ∈ s.events, e.call = i → ∀ mw, e.code ≠ .middleware mw

/-- A call that is not accepted yet, or is still being read. -/
theorem wrapped_of_fresh (hmws : s.middleware ≠ [])
    (h : ∀ c, s.calls i = some c → c.phase.branch = .undecided ∧ c.idx = none) : Wrapped s i := by
  refine ⟨hmws, fun c hc _ => (h c hc).2, fun c d k hc hd => ?_, fun c d hc hd => ?_⟩
  · rw [(h c hc).1] at hd
    cases hd
  · rw [(h c hc).1] at hd
    cases hd

theorem mws_of_isIntrospection (h : isIntrospection d.node = true) : s.mws d.node = [] :=
  if_pos h

theorem mws_of_not_isIntrospection (h : isIntrospection d.node = false) :
    s.mws d.node = s.middleware := by
  rw [mws, h]
  rfl

/-- What does not belong to the call leaves it as it is. -/
theorem Wrapped.of_calls (h : Wrapped s i) (hcalls : s'.calls i = s.calls i)
    (hmws : s.middleware <+: s'.middleware)
    (hevents : ∃ new, s'.events = s.events ++ new ∧ ∀ e ∈ new, e.call ≠ i) : Wrapped s' i := by
  obtain ⟨new, hnew, hother⟩ := hevents
  refine ⟨fun hnil => h.middleware ?_, ?_, ?_, ?_⟩
  · rw [hnil] at hmws
    exact List.prefix_nil.1 hmws
  · rw [hcalls]
    exact h.fresh
  · rw [hcalls, hnew]
    intro c d k hc hd hnode hk
    obtain ⟨hle, hreached⟩ := h.reached c d k hc hd hnode hk
    refine ⟨hle.trans hmws.length_le, fun j mw hj hmw => List.mem_append_left _ ?_⟩
    obtain ⟨later, hlater⟩ := hmws
    rw [← hlater, List.getElem?_append_left (by omega)] at hmw
    exact hreached j mw hj hmw
  · rw [hcalls, hnew]
    intro c d hc hd hnode e he hei
    rcases List.mem_append.1 he with he | he
    · exact h.bare c d hc hd hnode e he hei
    · exact absurd hei (hother e he)

theorem Ran.self (h : Ran s s' i c a c') : s'.calls i = some c' := by
  rw [h.1, Function.update_self]

theorem Wrapped.ran (h : Wrapped s i) (hc : s.calls i = some c) (hran : Ran s s' i c a c')
    (hbranch : c.phase.branch ≠ .undecided → c'.phase.branch = c.phase.branch)
    (hold : ∀ e ∈ s.events, e.call = i → ∃ d, c.phase.branch = .dispatched d) : Wrapped s' i := by
  have hself := hran.self
  obtain ⟨-, hmws, new, hnew, hruns⟩ := hran
  have hdecided : ∀ {k}, c.idx = some k → c'.phase.branch = c.phase.branch := fun hk =>
    hbranch fun hundecided => by simp [h.fresh c hc hundecided] at hk
  refine ⟨hmws ▸ h.middleware, fun c₁ hc₁ hundecided => ?_, fun c₁ d k hc₁ hd hnode hk => ?_,
    fun c₁ d hc₁ hd hnode e he hei mw => ?_⟩
  · obtain rfl := Option.some.inj (hself.symm.trans hc₁)
    have hnone : c.idx = none := by
      by_contra hne
      obtain ⟨k, hk⟩ := Option.ne_none_iff_exists'.1 hne
      rw [hdecided hk] at hundecided
      exact hne (h.fresh c hc hundecided)
    cases hruns with
    | quiet hidx | output hidx | body _ hidx => exact hidx.trans hnone
    | bare hd | middleware hd | handler _ hd =>
      rw [hundecided] at hd
      cases hd
  · obtain rfl := Option.some.inj (hself.symm.trans hc₁)
    rw [hmws, hnew]
    have hreached : ∀ {k}, c.idx = some k → k ≤ s.middleware.length ∧ ∀ j mw, j < k →
        s.middleware[j]? = some mw → ⟨i, d.reg, .middleware mw⟩ ∈ s.events := fun hk =>
      h.reached c d _ hc (by rw [← hdecided hk, hd]) hnode hk
    have hsame : c'.idx = c.idx → k ≤ s.middleware.length ∧ ∀ j mw, j < k →
        s.middleware[j]? = some mw → ⟨i, d.reg, .middleware mw⟩ ∈ s.events ++ new := by
      intro hidx
      obtain ⟨hle, hreached⟩ := hreached (hidx ▸ hk)
      exact ⟨hle, fun j mw hj hmw => List.mem_append_left _ (hreached j mw hj hmw)⟩
    cases hruns with
    | quiet hidx | output hidx | body _ hidx | handler _ _ _ _ hidx => exact hsame hidx
    | bare hd' hnil =>
      obtain rfl := Branch.dispatched.inj (hd'.symm.trans hd)
      rw [mws_of_not_isIntrospection hnode] at hnil
      exact absurd hnil h.middleware
    | @middleware d' k' mw' hd' hk' hmw' hidx =>
      obtain rfl := Branch.dispatched.inj (hd'.symm.trans hd)
      rw [mws_of_not_isIntrospection hnode] at hmw'
      obtain rfl : k' + 1 = k := Option.some.inj (hidx.symm.trans hk)
      refine ⟨(List.getElem?_eq_some_iff.1 hmw').1, fun j mw hj hmw => ?_⟩
      by_cases hjk : j = k'
      · obtain rfl : mw' = mw := by
          rw [hjk, hmw'] at hmw
          exact Option.some.inj hmw
        exact List.mem_append_right _ (List.mem_singleton_self _)
      · rcases hk' with rfl | hk'
        · omega
        · exact List.mem_append_left _ ((hreached hk').2 j mw (by omega) hmw)
  · obtain rfl := Option.some.inj (hself.symm.trans hc₁)
    rw [hnew] at he
    rcases List.mem_append.1 he with he | he
    · obtain ⟨d', hd'⟩ := hold e he hei
      have hsame : c'.phase.branch = c.phase.branch := hbranch (by simp [hd'])
      exact h.bare c d hc (hsame ▸ hd) hnode e he hei mw
    · have hcodes : ∀ {codes : List UserCode} {reg : ℕ}, (∀ mw, .middleware mw ∉ codes) →
          e ∈ codes.map (⟨i, reg, ·⟩) → e.code ≠ .middleware mw := by
        intro codes reg hcodes he hcode
        obtain ⟨code, hmem, rfl⟩ := List.mem_map.1 he
        exact hcodes mw (hcode ▸ hmem)
      cases hruns with
      | quiet => cases he
      | bare _ _ hno | handler _ _ _ _ _ hno => exact hcodes hno he
      | middleware hd' _ hmw' =>
        obtain rfl := Branch.dispatched.inj (hd'.symm.trans hd)
        rw [mws_of_isIntrospection hnode] at hmw'
        cases hmw'
      | output =>
        obtain ⟨model, -, rfl⟩ := List.mem_map.1 he
        simp
      | body =>
        rw [List.mem_singleton.1 he]
        simp

theorem Runs.call {new : List Event} (h : Runs s i c a c' new) : ∀ e ∈ new, e.call = i := by
  intro e he
  cases h with
  | quiet => cases he
  | bare | handler =>
    obtain ⟨code, -, rfl⟩ := List.mem_map.1 he
    rfl
  | output =>
    obtain ⟨model, -, rfl⟩ := List.mem_map.1 he
    rfl
  | middleware | body => rw [List.mem_singleton.1 he]

theorem Wrapped.step (h : Wrapped s i) (hstep : s.step rt a = some s')
    (hold : ∀ e ∈ s.events, ∃ c d, s.calls e.call = some c ∧ c.phase.branch = .dispatched d ∧
      e.reg = d.reg) : Wrapped s' i := by
  rcases step_split hstep with ⟨-, hcalls, hevents, hmws⟩ | ⟨j, caller, -, -, rfl⟩ |
    ⟨j, c, hj, hc, hcall⟩
  · exact h.of_calls (by rw [hcalls]) hmws ⟨[], by rw [hevents, List.append_nil], by simp⟩
  · by_cases hij : i = j
    · subst hij
      refine wrapped_of_fresh h.middleware fun c hc => ?_
      simp only [setCall, Function.update_self] at hc
      obtain rfl := Option.some.inj hc
      exact ⟨rfl, rfl⟩
    · exact h.of_calls (Function.update_of_ne hij _ _) (List.prefix_refl _)
        ⟨[], (List.append_nil _).symm, by simp⟩
  · obtain ⟨c', hran⟩ := stepCall_ran hc hcall hj
    by_cases hij : i = j
    · subst hij
      refine h.ran hc hran (fun hne => ?_) fun e he hei => ?_
      · obtain ⟨c₁, hc₁, hbranch, -⟩ := branch_step hstep hc hne
        obtain rfl := Option.some.inj (hran.self.symm.trans hc₁)
        exact hbranch
      · obtain ⟨c₁, d, hc₁, hd, -⟩ := hold e he
        rw [hei, hc] at hc₁
        obtain rfl := Option.some.inj hc₁
        exact ⟨d, hd⟩
    · obtain ⟨hcalls, hmws, new, hnew, hruns⟩ := hran
      exact h.of_calls (by rw [hcalls, Function.update_of_ne hij]) (by rw [hmws])
        ⟨new, hnew, fun e he hei => hij (hei.symm.trans (hruns.call e he))⟩

/-- A request that is accepted when there is middleware. -/
theorem wrapped_run {mws : List ℕ} {bs cs : List Action}
    (ht : Machine.run (Server.step rt) (init mws) bs = some t) (hmws : t.middleware ≠ [])
    (hnone : t.calls i = none) (hrun : Machine.run (Server.step rt) t cs = some s) :
    Wrapped s i := by
  refine Machine.run_induction (fun _ s => Wrapped s i) (wrapped_of_fresh hmws ?_) ?_ hrun
  · intro c hc
    rw [hnone] at hc
    cases hc
  intro as s a s' has h hstep
  have hall : Machine.run (Server.step rt) (init mws) (bs ++ as) = some s := by
    rw [Machine.run_append, ht, Option.bind_some, has]
  exact h.step hstep (guarded_run hall).events

/-! ## The handler -/

/-- The step executes the handler for the call `i`. -/
def Executes (s s' : Server) (i : ℕ) (d : Dispatch) : Prop :=
  (∃ c, s'.calls i = some c ∧ c.phase.branch = .dispatched d) ∧
    ∃ fn new, s'.events = s.events ++ new ∧ ⟨i, d.reg, .handler fn⟩ ∈ new

/-- What the step executes is inside the chain : a middleware calls `next_fn`, and all of them
have begun for the call. -/
def InsideChain (s : Server) (i : ℕ) (d : Dispatch) (a : Action) : Prop :=
  (∃ valid, a = .next i valid) ∧ ∀ mw ∈ s.middleware, ⟨i, d.reg, .middleware mw⟩ ∈ s.events

/-- In any run, a handler that is executed for a request accepted when there is middleware is
inside the chain if and only if its name has no underscore in front and it is no body of a
generator that the chain has returned. -/
theorem handler_in_chain_iff (rt : Runtime) (mws : List ℕ) (bs cs : List Action) (t s s' : Server)
    (i : ℕ) (d : Dispatch) (a : Action)
    (ht : Machine.run (step rt) (init mws) bs = some t) (hmws : t.middleware ≠ [])
    (hnone : t.calls i = none) (hrun : Machine.run (step rt) t cs = some s)
    (hstep : s.step rt a = some s') (hexec : Executes s s' i d) :
    InsideChain s i d a ↔ isIntrospection d.node = false ∧ a ≠ .returnedGenerator i true := by
  have hwrapped' := wrapped_run ht hmws hnone (Machine.run_concat hrun hstep)
  obtain ⟨⟨c₁, hc₁, hd⟩, fn, new₁, hnew₁, hmem⟩ := hexec
  obtain ⟨c', new, hc', hmws', hnew, c, hruns⟩ : ∃ c' new, s'.calls i = some c' ∧
      s'.middleware = s.middleware ∧ s'.events = s.events ++ new ∧ ∃ c, Runs s i c a c' new := by
    have hquiet : s'.events ≠ s.events := by
      intro hevents
      rw [hnew₁, List.append_right_eq_self] at hevents
      simp [hevents] at hmem
    rcases step_split hstep with ⟨-, -, hevents, -⟩ | ⟨j, caller, -, -, rfl⟩ |
      ⟨j, c, hj, hc, hcall⟩
    · exact absurd hevents hquiet
    · exact absurd rfl hquiet
    · obtain ⟨c', hran⟩ := stepCall_ran hc hcall hj
      have hself := hran.self
      obtain ⟨-, hmws', new, hnew, hruns⟩ := hran
      obtain rfl : new₁ = new := List.append_cancel_left (hnew₁.symm.trans hnew)
      obtain rfl : i = j := hruns.call _ hmem
      exact ⟨c', new₁, hself, hmws', hnew, c, hruns⟩
  obtain rfl : new₁ = new := List.append_cancel_left (hnew₁.symm.trans hnew)
  obtain rfl := Option.some.inj (hc₁.symm.trans hc')
  constructor
  · rintro ⟨⟨valid, rfl⟩, hall⟩
    refine ⟨?_, by simp⟩
    obtain ⟨mw, hmw⟩ := List.exists_mem_of_ne_nil _ (hmws' ▸ hwrapped'.middleware)
    by_contra hnode
    have hbegun : (⟨i, d.reg, .middleware mw⟩ : Event) ∈ s'.events :=
      hnew ▸ List.mem_append_left _ (hall mw hmw)
    exact hwrapped'.bare c₁ d hc₁ hd (by simpa using hnode) _ hbegun rfl mw rfl
  · rintro ⟨hnode, ha⟩
    cases hruns with
    | quiet => cases hmem
    | bare hd' hnil =>
      obtain rfl := Branch.dispatched.inj (hd'.symm.trans hd)
      rw [mws_of_not_isIntrospection hnode] at hnil
      exact absurd hnil (hmws' ▸ hwrapped'.middleware)
    | middleware => simp at hmem
    | output => simp at hmem
    | body ha' => exact absurd ha' ha
    | @handler d' k valid codes ha' hd' hk hend hidx hcodes =>
      obtain rfl := Branch.dispatched.inj (hd'.symm.trans hd)
      rw [mws_of_not_isIntrospection hnode, List.getElem?_eq_none_iff] at hend
      refine ⟨⟨valid, ha'⟩, fun mw hmw => ?_⟩
      obtain ⟨j, hj⟩ := List.mem_iff_getElem?.1 hmw
      have hjk : j < k := Nat.lt_of_lt_of_le (List.getElem?_eq_some_iff.1 hj).1 hend
      have hbegun := (hwrapped'.reached c₁ d' k hc₁ hd hnode (hidx.trans hk)).2 j mw hjk
        (by rw [hmws', hj])
      rw [hnew] at hbegun
      rcases List.mem_append.1 hbegun with hbegun | hbegun
      · exact hbegun
      · obtain ⟨code, hcode, heq⟩ := List.mem_map.1 hbegun
        obtain rfl : code = .middleware mw := congrArg Event.code heq
        exact absurd hcode (hcodes mw)

end

/-! ## Two names -/

/-- A server with the middleware 7, and a handler. -/
def wrappedServer (node : String) : Server :=
  (init [7]).register node ⟨40, .coroutine, some ⟨1, false⟩⟩ {}

/-- A call of it, before the request and after. -/
def wrappedCall (node : String) : Server :=
  (wrappedServer node).setCall 0 ⟨9, .reading [], none, []⟩

def wrappedRequest (node : String) : Server :=
  (wrappedCall node).handleRequest plainRuntime 0 ⟨9, .reading [], none, []⟩
    (.obj (nodeRequest node)) 0 true

theorem run_wrappedServer (node : String) :
    Machine.run (step plainRuntime) (init [7])
      [.register node ⟨40, .coroutine, some ⟨1, false⟩⟩ {}] = some (wrappedServer node) :=
  rfl

theorem run_wrappedRequest (node : String) :
    Machine.run (step plainRuntime) (wrappedServer node)
      [.accept 0 (some ⟨1, 9⟩), .read 0 (nodeRequest node).text 0 true] =
        some (wrappedRequest node) := by
  have haccept : (wrappedServer node).step plainRuntime (.accept 0 (some ⟨1, 9⟩)) =
      some (wrappedCall node) := rfl
  rw [Machine.run_of_step haccept, Machine.run_of_step (step_read_nodeRequest node rfl rfl),
    Machine.run]
  rfl

/-- The middleware hands the request on, and the handler runs inside. -/
theorem handler_in_chain_iff_enrich :
    ∃ s', (wrappedRequest "enrich").step plainRuntime (.next 0 true) = some s' ∧
      s'.events = [⟨0, 2, .middleware 7⟩, ⟨0, 2, .handler 40⟩] ∧
      InsideChain (wrappedRequest "enrich") 0 ⟨"enrich", 2⟩ (.next 0 true) :=
  ⟨_, rfl, rfl, (handler_in_chain_iff plainRuntime [7] _ _ _ _ _ 0 ⟨"enrich", 2⟩ (.next 0 true)
    (run_wrappedServer "enrich") (by decide) rfl (run_wrappedRequest "enrich") rfl
    ⟨⟨_, rfl, rfl⟩, 40, [⟨0, 2, .handler 40⟩], rfl, by simp⟩).2 ⟨by decide, by simp⟩⟩

/-- A handler that its user has named with an underscore runs, and the middleware does not. -/
theorem underscore_uncovered :
    ∃ as s', Machine.run (step plainRuntime) (init [7]) as = some (wrappedCall "_secret") ∧
      (wrappedCall "_secret").step plainRuntime (.read 0 (nodeRequest "_secret").text 0 true) =
        some s' ∧
      Executes (wrappedCall "_secret") s' 0 ⟨"_secret", 2⟩ ∧ s'.events = [⟨0, 2, .handler 40⟩] ∧
      ¬InsideChain (wrappedCall "_secret") 0 ⟨"_secret", 2⟩
        (.read 0 (nodeRequest "_secret").text 0 true) :=
  ⟨[.register "_secret" ⟨40, .coroutine, some ⟨1, false⟩⟩ {}, .accept 0 (some ⟨1, 9⟩)],
    wrappedRequest "_secret", rfl, step_read_nodeRequest "_secret" rfl rfl,
    ⟨⟨_, rfl, rfl⟩, 40, [⟨0, 2, .handler 40⟩], rfl, by simp⟩, rfl, fun h => by
      obtain ⟨⟨valid, ha⟩, -⟩ := h
      cases ha⟩

end Server

end PilotLanggraph

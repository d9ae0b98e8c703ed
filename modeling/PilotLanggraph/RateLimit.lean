import PilotLanggraph.ConcurrencyCap
import PilotLanggraph.Lib.SlidingWindow

/-!
# The rate limit

A handler registered with `rate_per_caller = N` and `rate_window_secs = W`, where `N` is not
zero, lets at most `N` calls of a caller through in any closed interval of length `W`, over
the readings of the clock at the rate gate (`rate_limit`). The limiter belongs to the
registration, which `@pilot_handler` makes without a name and `register_many` may bind to several,
so it is followed by its identity from where it was made. With `N = 0` there is no limiter, and
every call passes (`zero_rate_passes`).
-/

namespace PilotLanggraph

open SlidingWindow

/-! ## The limiter -/

namespace RateLimiter

/-- The timestamps kept for a caller. -/
def window (l : RateLimiter) (callerNodeId : ℕ) : List Secs :=
  (l.windows.get? callerNodeId).getD []

variable (l : RateLimiter) (callerNodeId : ℕ) (now : Secs)

theorem limit_consume : (l.consume callerNodeId now).1.limit = l.limit := by
  simp only [consume]
  split_ifs <;> rfl

theorem windowSecs_consume : (l.consume callerNodeId now).1.windowSecs = l.windowSecs := by
  simp only [consume]
  split_ifs <;> rfl

/-- The windows of other callers are left alone. -/
theorem window_consume_of_ne {caller : ℕ} (h : caller ≠ callerNodeId) :
    (l.consume callerNodeId now).1.window caller = l.window caller := by
  simp only [consume]
  split_ifs
  · rw [window, Dict.get?_set_of_ne _ _ h, window]
  · rw [window, Dict.get?_set_of_ne _ _ h, window]

/-- A reading of the clock for the caller. -/
theorem spaced_consume {seen taken : List Secs}
    (h : Spaced l.limit l.windowSecs seen taken (l.window callerNodeId))
    (hclock : ∀ t ∈ seen, t ≤ now) :
    Spaced l.limit l.windowSecs (seen ++ [now])
      (if (l.consume callerNodeId now).2 = true then taken ++ [now] else taken)
      ((l.consume callerNodeId now).1.window callerNodeId) := by
  simp only [consume]
  split_ifs with hfull hpass hpass
  · cases hpass
  · rw [window, Dict.get?_set_self, Option.getD_some]
    exact h.refuse hclock
  · rw [window, Dict.get?_set_self, Option.getD_some]
    exact h.take hclock (not_le.1 hfull)
  · exact absurd rfl hpass

end RateLimiter

/-! ## Calls that pass -/

/-- The node whose handler chain the call is executing. -/
def CallPhase.node? : CallPhase → Option String
  | .ready d | .driving d _ | .finishing d => some d.node
  | _ => none

theorem CallPhase.exists_running? {phase : CallPhase} {name : String}
    (h : phase.node? = some name) : ∃ id, phase.running? = some id := by
  cases phase with
  | ready d => exact ⟨_, rfl⟩
  | driving d mode => exact ⟨_, rfl⟩
  | finishing d => exact ⟨_, rfl⟩
  | _ => cases h

namespace Server

/-- The reading of the clock with which an action brings a call of the caller into such a
phase. -/
def brings? (rt : Runtime) (caller : ℕ) (p : CallPhase → Bool) (s : Server) (a : Action) :
    Option Secs :=
  match a with
  | .read i chunk now valid =>
    match s.calls i, (s.step rt (.read i chunk now valid)).bind fun s' => s'.calls i with
    | some c, some c' => if c.caller = caller ∧ p c'.phase then some now else none
    | _, _ => none
  | _ => none

/-- The reading of the clock with which an action lets a call of the caller through to the
handler. -/
def passes? (rt : Runtime) (name : String) (caller : ℕ) : Server → Action → Option Secs :=
  brings? rt caller fun phase => phase.node? = some name

/-- All such readings of a run. -/
def passed (rt : Runtime) (name : String) (caller : ℕ) (s : Server) (as : List Action) :
    List Secs :=
  Machine.outputs (step rt) (passes? rt name caller) s as

/-- The same for a registration, by whatever name it was called. -/
def enters? (rt : Runtime) (id caller : ℕ) : Server → Action → Option Secs :=
  brings? rt caller fun phase => phase.running? = some id

def entered (rt : Runtime) (id caller : ℕ) (s : Server) (as : List Action) : List Secs :=
  Machine.outputs (step rt) (enters? rt id caller) s as

/-- The names an action binds. -/
def Action.names : Action → List String
  | .register name .. => [name]
  | .registerMany mapping => mapping.map Prod.fst
  | _ => []

/-- What a step of a call does to the rate windows of a registration. -/
inductive RateChange (s : Server) (id : ℕ) (c c' : Call) (a : Action) (b : Books) : Prop
  | kept (hreg : (b.regs id).rateLimiter = (s.regs id).rateLimiter)
    (hphase : a.now? = none ∨ c'.phase.running? ≠ some id)
  | consumed {now : Secs} (hnow : a.now? = some now)
    (hreg : (b.regs id).rateLimiter = ((s.regs id).consume c.caller now).1.rateLimiter)
    (hphase : c'.phase.running? = some id → ((s.regs id).consume c.caller now).2 = true)

section

variable {rt : Runtime} {s s' : Server} {i id : ℕ} {c c' : Call} {a : Action} {b : Books}

/-- The rate gate comes after the access list and before the semaphore. -/
theorem gate_rate (r : Registration) (caller : ℕ) (now : Secs) :
    ((r.gate caller now).1.rateLimiter = r.rateLimiter ∧ (r.gate caller now).2 ≠ .admitted) ∨
      (r.gate caller now).1.rateLimiter = (r.consume caller now).1.rateLimiter ∧
        ((r.gate caller now).2 = .admitted → (r.consume caller now).2 = true) := by
  unfold Registration.gate
  split_ifs with hauth hallowed
  · exact .inl ⟨rfl, by simp⟩
  · exact .inr ⟨rfl, by simp⟩
  · refine .inr ?_
    have hallowed : (r.consume caller now).2 = true := by simpa using hallowed
    cases hsem : (r.consume caller now).1.semaphore with
    | none => exact ⟨rfl, fun _ => hallowed⟩
    | some reg =>
      obtain ⟨v, rfl⟩ := Registration.semaphore_eq hsem
      simp only
      split_ifs
      · exact ⟨rfl, fun _ => hallowed⟩
      · exact ⟨rfl, fun _ => hallowed⟩

/-- The call went through the gates of the registration `id'`. -/
theorem rateChange_of_gate {id' : ℕ} {now : Secs} {reg : Registration} {gate : Gate}
    (hgate : (s.regs id').gate c.caller now = (reg, gate)) (hnow : a.now? = some now)
    (hregs : b.regs = Function.update s.regs id' reg)
    (hphase : ∀ id, c'.phase.running? = some id → id = id' ∧ gate = .admitted) (id : ℕ) :
    RateChange s id c c' a b := by
  by_cases hid : id = id'
  · subst hid
    have hreg : (b.regs id).rateLimiter = reg.rateLimiter := by rw [hregs, Function.update_self]
    have hrate := gate_rate (s.regs id) c.caller now
    rw [hgate] at hrate
    rcases hrate with ⟨hsame, hnot⟩ | ⟨hsame, hadmitted⟩
    · exact .kept (hreg.trans hsame) (.inr fun h => hnot (hphase id h).2)
    · exact .consumed hnow (hreg.trans hsame) fun h => hadmitted (hphase id h).2
  · refine .kept ?_ (.inr fun h => hid (hphase id h).1)
    rw [hregs, Function.update_of_ne hid]

theorem CallStep.rateChange (h : CallStep rt s i c a c' b) (id : ℕ) : RateChange s id c c' a b := by
  have hset {id' : ℕ} {reg : Registration} (hreg : reg.rateLimiter = (s.regs id').rateLimiter) :
      (Function.update s.regs id' reg id).rateLimiter = (s.regs id).rateLimiter := by
    by_cases hid : id = id'
    · rw [hid, Function.update_self, hreg]
    · rw [Function.update_of_ne hid]
  cases h with
  | unserved _ _ hrun => exact .kept rfl (.inr (by rw [hrun]; simp))
  | notFound => exact .kept rfl (.inr (by simp [CallPhase.running?]))
  | refused _ hgate =>
    exact rateChange_of_gate hgate rfl rfl (fun _ h => by cases h) id
  | raises _ hgate => exact rateChange_of_gate hgate rfl rfl (fun _ h => by cases h) id
  | admitted _ hgate _ _ hphase =>
    refine rateChange_of_gate hgate rfl rfl (fun id' h => ⟨?_, rfl⟩) id
    rcases hphase with hphase | ⟨mode, hphase⟩
    · rw [hphase] at h
      exact (Option.some.inj h).symm
    · rw [hphase] at h
      exact (Option.some.inj h).symm
  | working hnow => exact .kept rfl (.inl hnow)
  | yield => exact .kept rfl (.inl rfl)
  | finish ha =>
    refine .kept rfl (.inl ?_)
    rcases ha with rfl | rfl <;> rfl
  | completed => exact .kept (hset rfl) (.inl rfl)
  | failed ha =>
    refine .kept (hset rfl) (.inl ?_)
    rcases ha with rfl | rfl | rfl <;> rfl
  | cancelled => exact .kept (hset rfl) (.inl rfl)
  | ending ha =>
    refine .kept rfl (.inl ?_)
    rcases ha with rfl | rfl | rfl <;> rfl

variable {name : String} {caller : ℕ}

theorem now?_of_call?_none (h : a.call? = none) : a.now? = none := by
  cases a <;> first | rfl | cases h

theorem brings?_of_now?_none {p : CallPhase → Bool} (h : a.now? = none) :
    brings? rt caller p s a = none := by
  cases a with
  | read i chunk now valid => cases h
  | _ => rfl

theorem brings?_eq {p : CallPhase → Bool} {now : Secs} (hc : s.calls i = some c)
    (ha : a.call? = some i) (hnow : a.now? = some now) (hstep : s.step rt a = some s')
    (hcalls : s'.calls = Function.update s.calls i (some c')) :
    brings? rt caller p s a = if c.caller = caller ∧ p c'.phase then some now else none := by
  cases a with
  | read j chunk now' valid =>
    obtain rfl := Option.some.inj ha
    obtain rfl := Option.some.inj hnow
    simp only [brings?, hc, hstep, Option.bind_some, hcalls, Function.update_self]
  | _ => cases hnow

/-- A call that is let through runs the registration the name is bound to. -/
theorem CallStep.running?_of_node? {now : Secs} (h : CallStep rt s i c a c' b)
    (hnow : a.now? = some now) (hnode : c'.phase.node? = some name) :
    ∃ id, s.handlers.get? name = some id ∧ c'.phase.running? = some id := by
  cases h with
  | unserved _ _ hrun =>
    obtain ⟨id, hid⟩ := CallPhase.exists_running? hnode
    cases hrun.symm.trans hid
  | notFound => cases hnode
  | refused => cases hnode
  | raises => cases hnode
  | admitted hlookup _ _ _ hphase =>
    obtain ⟨-, -, -, -, -, -, -, -, -, hid⟩ := hlookup
    rcases hphase with hphase | ⟨mode, hphase⟩
    · rw [hphase] at hnode ⊢
      obtain rfl := Option.some.inj hnode
      exact ⟨_, hid, rfl⟩
    · rw [hphase] at hnode ⊢
      obtain rfl := Option.some.inj hnode
      exact ⟨_, hid, rfl⟩
  | working hnone => cases hnone.symm.trans hnow
  | finish ha => rcases ha with rfl | rfl <;> cases hnow
  | failed ha => rcases ha with rfl | rfl | rfl <;> cases hnow
  | ending ha => rcases ha with rfl | rfl | rfl <;> cases hnow
  | _ => cases hnow

/-! ## Names -/

theorem handlers_registerMany {mapping : List (String × (Handler ⊕ ℕ))} :
    ∀ {s : Server}, name ∉ mapping.map Prod.fst →
      (s.registerMany mapping).handlers.get? name = s.handlers.get? name := by
  induction mapping with
  | nil => exact fun _ => rfl
  | cons entry mapping ih =>
    intro s hname
    rw [List.map_cons, List.mem_cons, not_or] at hname
    obtain ⟨name', fn | id⟩ := entry
    · exact (ih hname.2).trans (Dict.get?_set_of_ne _ _ hname.1)
    · exact (ih hname.2).trans (Dict.get?_set_of_ne _ _ hname.1)

/-- A name that is not bound anew keeps its registration, or loses it. -/
theorem handlers_step (hname : name ∉ a.names) (hstep : s.step rt a = some s')
    (hid : s'.handlers.get? name = some id) : s.handlers.get? name = some id := by
  have hcall := step_callSteps hstep
  cases a with
  | create fn o =>
    cases hstep
    exact hid
  | register name' fn o =>
    cases hstep
    rw [Action.names, List.mem_singleton] at hname
    exact (Dict.get?_set_of_ne _ _ hname).symm.trans hid
  | registerMany mapping =>
    simp only [step] at hstep
    split_ifs at hstep
    cases hstep
    exact (handlers_registerMany hname).symm.trans hid
  | clearUserHandlers =>
    cases hstep
    change (s.handlers.filterKeys isIntrospection).get? name = some id at hid
    rw [Dict.get?_filterKeys] at hid
    split_ifs at hid
    exact hid
  | authorize name' allow =>
    cases hstep
    unfold authorize at hid
    split at hid
    · exact hid
    · exact hid
  | use mw =>
    cases hstep
    exact hid
  | accept j peer =>
    cases hcall with
    | registry ha => cases ha
    | accept _ _ hbooks => exact (congrArg (·.handlers.get? name) hbooks).symm.trans hid
    | call _ _ _ hstep => exact (congrArg (·.get? name) hstep.registry_eq.1).symm.trans hid
  | _ =>
    cases hcall with
    | registry ha => cases ha
    | call _ _ _ hstep => exact (congrArg (·.get? name) hstep.registry_eq.1).symm.trans hid

/-- While a name stays with a registration, the calls let through under it enter the
registration. -/
theorem passes?_sublist_enters? (hbound : ∀ id', s.handlers.get? name = some id' → id' = id)
    (hstep : s.step rt a = some s') :
    (passes? rt name caller s a).toList.Sublist (enters? rt id caller s a).toList := by
  have hnone (hpasses : passes? rt name caller s a = none) :
      (passes? rt name caller s a).toList.Sublist (enters? rt id caller s a).toList := by
    rw [hpasses]
    exact List.nil_sublist _
  cases hnow : a.now? with
  | none => exact hnone (brings?_of_now?_none hnow)
  | some now =>
    cases step_callSteps hstep with
    | registry ha => cases (now?_of_call?_none ha).symm.trans hnow
    | accept => cases hnow
    | @call a j c c' s' ha hc hcalls hcall =>
      by_cases hnode : c.caller = caller ∧ c'.phase.node? = some name
      · obtain ⟨id', hid', hrunning⟩ := hcall.running?_of_node? hnow hnode.2
        obtain rfl := hbound id' hid'
        rw [passes?, enters?, brings?_eq hc ha hnow hstep hcalls,
          brings?_eq hc ha hnow hstep hcalls, if_pos (by simpa using hnode),
          if_pos (by simpa using ⟨hnode.1, hrunning⟩)]
      · exact hnone (by
          rw [passes?, brings?_eq hc ha hnow hstep hcalls, if_neg (by simpa using hnode)])

theorem passed_sublist_entered : ∀ {as : List Action} {s s' : Server},
    (∀ id', s.handlers.get? name = some id' → id' = id) → (∀ a ∈ as, name ∉ a.names) →
    Machine.run (step rt) s as = some s' →
      (passed rt name caller s as).Sublist (entered rt id caller s as)
  | [], _, _, _, _, _ => List.Sublist.refl _
  | a :: as, s, s', hbound, hname, hrun => by
    obtain ⟨t, hstep, hrun⟩ := Machine.run_cons hrun
    have hlater := passed_sublist_entered
      (fun id' hid => hbound id' (handlers_step (hname a List.mem_cons_self) hstep hid))
      (fun a' ha' => hname a' (List.mem_cons_of_mem _ ha')) hrun
    rw [passed, entered, Machine.outputs, Machine.outputs, hstep]
    exact (passes?_sublist_enters? hbound hstep).append hlater

/-! ## Runs -/

/-- The limiter of the registration `id` against the clock readings `seen` so far and those the
caller entered it with. -/
structure Limited (id caller : ℕ) (limit : ℤ) (width : Secs) (seen entered : List Secs)
    (s : Server) : Prop where
  created : id < s.created
  limiter : ∃ l taken, (s.regs id).rateLimiter = some l ∧ l.limit = limit ∧
    l.windowSecs = width ∧ entered.Sublist taken ∧ Spaced limit width seen taken (l.window caller)

variable {limit : ℤ} {width : Secs} {seen entered : List Secs}

/-- A step that asks the limiter for nothing and lets nobody of the caller in. -/
theorem Limited.kept (h : Limited id caller limit width seen entered s)
    (hcreated : s.created ≤ s'.created)
    (hreg : (s'.regs id).rateLimiter = (s.regs id).rateLimiter) {seen' : List Secs}
    (hseen : seen ⊆ seen') : Limited id caller limit width seen' entered s' := by
  obtain ⟨l, taken, hl, hlimit, hwidth, hsub, hspaced⟩ := h.limiter
  exact ⟨h.created.trans_le hcreated, l, taken, hreg.trans hl, hlimit, hwidth, hsub,
    hspaced.mono hseen⟩

theorem limited_step (h : Limited id caller limit width seen entered s)
    (hclock : ∀ now ∈ a.now?, ∀ t ∈ seen, t ≤ now) (hstep : s.step rt a = some s') :
    Limited id caller limit width (seen ++ a.now?.toList)
      (entered ++ (enters? rt id caller s a).toList) s' := by
  have hseen : seen ⊆ seen ++ a.now?.toList := List.subset_append_left _ _
  cases step_callSteps hstep with
  | registry ha hcalls hbooks =>
    rw [enters?, brings?_of_now?_none (now?_of_call?_none ha), Option.toList_none, List.append_nil]
    refine h.kept hbooks.created ?_ hseen
    rcases hbooks.regs id with ⟨allow, hold⟩ | ⟨hge, -⟩
    · rw [show s'.regs id = _ from hold]
      rfl
    · exact absurd h.created (Nat.not_lt.2 hge)
  | accept _ _ hbooks =>
    rw [enters?, brings?_of_now?_none rfl, Option.toList_none, List.append_nil]
    exact h.kept (congrArg Books.created hbooks).ge
      (congrArg (fun b => (b.regs id).rateLimiter) hbooks) hseen
  | @call a j c c' s' ha hc hcalls hcall =>
    have hcreated : s'.created = s.created := hcall.registry_eq.2
    cases hcall.rateChange id with
    | kept hreg hphase =>
      have hnone : enters? rt id caller s a = none := by
        cases hnow : a.now? with
        | none => exact brings?_of_now?_none hnow
        | some now =>
          rw [enters?, brings?_eq hc ha hnow hstep hcalls, if_neg]
          rintro ⟨-, hrunning⟩
          rcases hphase with hphase | hphase
          · cases hphase.symm.trans hnow
          · exact hphase (of_decide_eq_true hrunning)
      rw [hnone, Option.toList_none, List.append_nil]
      exact h.kept hcreated.ge hreg hseen
    | @consumed now hnow hreg hphase =>
      obtain ⟨l, taken, hl, rfl, rfl, hsub, hspaced⟩ := h.limiter
      rw [Registration.consume_of_some hl] at hreg hphase
      rw [enters?, brings?_eq hc ha hnow hstep hcalls]
      refine ⟨hcreated ▸ h.created, (l.consume c.caller now).1, ?_⟩
      by_cases hcaller : c.caller = caller
      · subst hcaller
        have hspaced' := l.spaced_consume c.caller now hspaced (hclock now hnow)
        rw [hnow, Option.toList_some]
        refine ⟨_, hreg, l.limit_consume .., l.windowSecs_consume .., ?_, hspaced'⟩
        by_cases hrunning : c'.phase.running? = some id
        · rw [if_pos ⟨rfl, decide_eq_true hrunning⟩, if_pos (hphase hrunning),
            Option.toList_some]
          exact hsub.append (List.Sublist.refl _)
        · rw [if_neg fun h => hrunning (of_decide_eq_true h.2), Option.toList_none,
            List.append_nil]
          split_ifs
          · exact hsub.trans (List.sublist_append_left _ _)
          · exact hsub
      · rw [if_neg fun h => hcaller h.1, Option.toList_none, List.append_nil]
        refine ⟨taken, hreg, l.limit_consume .., l.windowSecs_consume .., hsub, ?_⟩
        rw [l.window_consume_of_ne _ _ (Ne.symm hcaller)]
        exact hspaced.mono hseen

/-- The clock readings of a run. -/
def readings (as : List Action) : List Secs :=
  as.filterMap Action.now?

theorem readings_append (as : List Action) (a : Action) :
    readings (as ++ [a]) = readings as ++ a.now?.toList := by
  rw [readings, List.filterMap_append, List.filterMap_cons, List.filterMap_nil]
  cases a.now? <;> rfl

theorem limited_run {as : List Action} (h : Limited id caller limit width [] [] s)
    (hclock : (readings as).Pairwise (· ≤ ·)) (hrun : Machine.run (step rt) s as = some s') :
    Limited id caller limit width (readings as) (Server.entered rt id caller s as) s' := by
  refine Machine.run_induction (fun as s' => (readings as).Pairwise (· ≤ ·) →
    Limited id caller limit width (readings as) (Server.entered rt id caller s as) s')
    (fun _ => h) ?_ hrun hclock
  rintro as t a t' hrun ih hstep hclock
  rw [readings_append, List.pairwise_append] at hclock
  obtain ⟨hold, -, hnew⟩ := hclock
  rw [readings_append, Server.entered, Machine.outputs_append hrun]
  exact limited_step (ih hold) (fun now hnow t ht => hnew t ht now (by simpa using hnow)) hstep

/-- A new registration with a rate. -/
theorem limited_new {fn : Handler} {o : Options} (hnew : s.regs id = .new fn o)
    (hcreated : id < s.created) (hrate : o.ratePerCaller = some limit) (hlimit : 0 ≤ limit)
    (hne : limit ≠ 0) : Limited id caller limit o.rateWindowSecs [] [] s := by
  refine ⟨hcreated, ⟨limit, o.rateWindowSecs, .empty⟩, [], ?_, rfl, rfl, List.Sublist.refl _,
    spaced_nil hlimit _⟩
  rw [hnew, Registration.new, hrate, Option.filter_some, if_pos (by simp [hne]), Option.map_some]

end

/-- A registration is made with `rate_per_caller = limit`, not zero. After anything else it stands
under a name, by `register` itself or by `register_many`, and from then on the name is not
registered again. Whatever happens, as long as the clock does not go back : the calls of a caller
that are let through under the name with readings in any one closed interval of the length of the
rate window are `limit` at most. -/
theorem rate_limit (rt : Runtime) {s₀ s₁ s : Server} {name : String} {id : ℕ} {fn : Handler}
    {o : Options} {limit : ℤ} {bs as : List Action} (hnew : s₀.regs id = .new fn o)
    (hcreated : id < s₀.created) (hrate : o.ratePerCaller = some limit) (hlimit : 0 ≤ limit)
    (hne : limit ≠ 0) (hbefore : Machine.run (step rt) s₀ bs = some s₁)
    (hbound : s₁.handlers.get? name = some id) (hrun : Machine.run (step rt) s₁ as = some s)
    (hname : ∀ a ∈ as, name ∉ a.names) (hclock : (readings (bs ++ as)).Pairwise (· ≤ ·))
    (caller : ℕ) (lo : Secs) :
    ((between o.rateWindowSecs lo (passed rt name caller s₁ as)).length : ℤ) ≤ limit := by
  have hlimited : Limited id caller limit o.rateWindowSecs [] [] s₀ :=
    limited_new hnew hcreated hrate hlimit hne
  have hwhole : Machine.run (step rt) s₀ (bs ++ as) = some s := by
    rw [Machine.run_append, hbefore, Option.bind_some, hrun]
  obtain ⟨l, taken, -, -, -, hsub, hspaced⟩ := (limited_run hlimited hclock hwhole).limiter
  have hpassed : (passed rt name caller s₁ as).Sublist taken := by
    refine .trans ?_ hsub
    rw [entered, Machine.outputs_run_append hbefore]
    refine (passed_sublist_entered (fun id' hid => ?_) hname hrun).trans
      (List.sublist_append_right _ _)
    exact Option.some.inj (hid.symm.trans hbound)
  have hle := (hpassed.filter fun t => lo ≤ t ∧ t ≤ lo + o.rateWindowSecs).length_le
  exact (Int.ofNat_le.2 hle).trans (hspaced.sparse lo)

/-! ## One call -/

/-- `enrich`, registered with a rate. -/
def rated (rate : ℤ) : Server :=
  (init []).register "enrich" enrichHandler { ratePerCaller := some rate }

/-- The node 7 calls it at time 0. -/
def firstCall : List Action :=
  [.accept 0 (some ⟨1, 7⟩), .read 0 enrichRequest.text 0 true]

/-- The call, connected and then through the gates. -/
def connected (rate : ℤ) : Server :=
  (rated rate).setCall 0 ⟨7, .reading [], none, []⟩

def called (rate : ℤ) : Server :=
  (connected rate).handleRequest plainRuntime 0 ⟨7, .reading [], none, []⟩ (.obj enrichRequest)
    0 true

theorem step_connected (rate : ℤ) : (rated rate).step plainRuntime (.accept 0 (some ⟨1, 7⟩)) =
    some (connected rate) :=
  rfl

theorem step_called (rate : ℤ) :
    (connected rate).step plainRuntime (.read 0 enrichRequest.text 0 true) = some (called rate) :=
  step_read_enrichRequest rfl rfl

theorem run_firstCall (rate : ℤ) :
    Machine.run (step plainRuntime) (rated rate) firstCall = some (called rate) := by
  rw [firstCall, Machine.run_of_step (step_connected rate), Machine.run_of_step (step_called rate),
    Machine.run]

theorem rate_limit_firstCall :
    ((between 60 0 (passed plainRuntime "enrich" 7 (rated 1) firstCall)).length : ℤ) ≤ 1 :=
  rate_limit plainRuntime (o := { ratePerCaller := some 1 }) rfl (Nat.lt_succ_self 2) rfl
    (by decide) (by decide) (show Machine.run _ (rated 1) [] = some (rated 1) from rfl) rfl
    (run_firstCall 1) (by simp [firstCall, Action.names]) (List.pairwise_singleton _ (0 : Secs)) 7 0

/-- A rate of zero lets the call through. -/
theorem zero_rate_passes :
    Machine.run (step plainRuntime) (rated 0) firstCall = some (called 0) ∧
      (between 60 0 (passed plainRuntime "enrich" 7 (rated 0) firstCall)).length = 1 := by
  refine ⟨run_firstCall 0, ?_⟩
  have hcalls : (called 0).calls 0 = some ⟨7, .driving ⟨"enrich", 2⟩ .chain, some 0, []⟩ := rfl
  have hpasses : passes? plainRuntime "enrich" 7 (connected 0)
      (.read 0 enrichRequest.text 0 true) = some 0 := by
    have hc : (connected 0).calls 0 = some ⟨7, .reading [], none, []⟩ := rfl
    simp only [passes?, brings?, step_called, Option.bind_some, hc, hcalls, CallPhase.node?,
      decide_true, and_self, if_true]
  have hnone : passes? plainRuntime "enrich" 7 (rated 0) (.accept 0 (some ⟨1, 7⟩)) = none := rfl
  simp [passed, firstCall, Machine.outputs, step_connected, step_called, hpasses, hnone, between]

end Server

end PilotLanggraph

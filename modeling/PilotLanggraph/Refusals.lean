import PilotLanggraph.Agreement

/-!
# What a refusal consumes

A run in which a call is refused is compared with the run without that call. Turned away for
any reason but one, the call leaves servers that agree, so both runs go on alike, call by call.
The one reason is a cap reached after the rate gate was passed : then the caller's budget is
one call smaller (`refusal_consumes_nothing`), and its next call may be refused for it
(`busy_call_charged`).
-/

namespace PilotLanggraph

namespace Server

section

variable {rt : Runtime} {j : ℕ} {now now' : Secs} {s t : Server} {c : Call} {d : Dispatch}

/-! ## The call itself -/

/-- A call that was turned away does nothing to the books. -/
theorem CallStep.books_of_refused {i : ℕ} {c' : Call} {a : Action} {b : Books} {why : Refusal}
    (h : CallStep rt s i c a c' b) (hc : s.calls i = some c)
    (hrefused : c.phase.branch = .refused why) : b = s.books ∧ c'.phase.branch = .refused why := by
  have hnot {d : Dispatch} (hd : c.phase.branch = .dispatched d) : False := by
    cases hd.symm.trans hrefused
  have hlooks {chunk : Bytes} {caller : ℕ} {d : Dispatch} (hl : s.LooksUp rt i chunk caller d) :
      False := by
    obtain ⟨buf, hphase⟩ := hl.reading hc
    rw [hphase] at hrefused
    cases hrefused
  cases h with
  | unserved hold =>
    rw [hold] at hrefused
    cases hrefused
  | notFound hold =>
    rw [hold] at hrefused
    cases hrefused
  | refused hlookup => exact (hlooks hlookup).elim
  | raises hlookup => exact (hlooks hlookup).elim
  | admitted hlookup => exact (hlooks hlookup).elim
  | working _ _ _ _ _ hphase =>
    rcases hphase with hphase | ⟨d, mode, -, hold | hold⟩
    · exact ⟨rfl, by rw [hphase, hrefused]⟩
    · exact (hnot (d := d) (by rw [hold]; rfl)).elim
    · exact (hnot (d := d) (by rw [hold]; rfl)).elim
  | yield hphase => exact (hnot (by rw [hphase]; rfl)).elim
  | finish _ hphase => exact (hnot (by rw [hphase]; rfl)).elim
  | completed hphase => exact (hnot (by rw [hphase]; rfl)).elim
  | failed _ _ hbranch => exact (hnot hbranch).elim
  | cancelled _ hbranch => exact (hnot hbranch).elim
  | ending _ _ hphase =>
    rcases hphase with rfl | rfl
    · exact ⟨rfl, hrefused⟩
    · exact ⟨rfl, hrefused⟩

/-- A call that has not been decided on has done nothing to the books. -/
theorem CallStep.books_of_undecided {i : ℕ} {c' : Call} {a : Action} {b : Books}
    (h : CallStep rt s i c a c' b) (hundecided : c'.phase.branch = .undecided) :
    b = s.books ∧ c.phase.branch = .undecided := by
  cases h with
  | unserved hold => exact ⟨rfl, by rw [hold]; rfl⟩
  | notFound => cases hundecided
  | refused => cases hundecided
  | raises => cases hundecided
  | admitted _ _ _ _ hphase =>
    rcases hphase with hphase | ⟨mode, hphase⟩
    · rw [hphase] at hundecided
      cases hundecided
    · rw [hphase] at hundecided
      cases hundecided
  | working _ _ _ _ _ hphase =>
    rcases hphase with hphase | ⟨d, mode, hphase, -⟩
    · exact ⟨rfl, by rw [← hphase, hundecided]⟩
    · rw [hphase] at hundecided
      cases hundecided
  | yield => exact ⟨rfl, hundecided⟩
  | finish => cases hundecided
  | completed => cases hundecided
  | failed => cases hundecided
  | cancelled => cases hundecided
  | ending _ _ hphase =>
    rcases hphase with rfl | rfl
    · exact ⟨rfl, hundecided⟩
    · exact ⟨rfl, hundecided⟩

/-! ## Runs -/

/-- The actions of other calls, and of the registry. -/
def without (j : ℕ) (as : List Action) : List Action :=
  as.filter fun a => a.call? ≠ some j

/-- The clock does not go back behind `now`. -/
def After (now : Secs) (as : List Action) : Prop :=
  ∀ a ∈ as, ∀ now' ∈ a.now?, now ≤ now'

theorem exists_after (now : Secs) : ∀ as : List Action, ∃ now₀ ≤ now, After now₀ as
  | [] => ⟨now, le_rfl, fun _ ha => by cases ha⟩
  | a :: as => by
    obtain ⟨now₀, hle, h⟩ := exists_after now as
    refine ⟨min now₀ (a.now?.getD now₀), (min_le_left _ _).trans hle, fun b hb now' hnow' => ?_⟩
    rcases List.mem_cons.1 hb with rfl | hb
    · rw [Option.mem_def.1 hnow']
      exact min_le_right _ _
    · exact (min_le_left _ _).trans (h b hb now' hnow')

/-- Up to the verdict on it, the run goes as one in which the call is never made. -/
theorem run_undecided {mws : List ℕ} {as : List Action}
    (hrun : Machine.run (step rt) (init mws) as = some s)
    (hundecided : ∀ c, s.calls j = some c → c.phase.branch = .undecided) (hclock : After now as) :
    ∃ t, Machine.run (step rt) (init mws) (without j as) = some t ∧ Agree j now s t := by
  refine Machine.run_induction (fun as s =>
    (∀ c, s.calls j = some c → c.phase.branch = .undecided) → After now as →
      ∃ t, Machine.run (step rt) (init mws) (without j as) = some t ∧ Agree j now s t)
    (fun _ _ => ⟨init mws, rfl, agree_refl j now _⟩) ?_ hrun hundecided hclock
  rintro as s a s' hrun ih hstep hundecided hclock
  have hlast : without j (as ++ [a]) = without j as ++ without j [a] := List.filter_append ..
  have hbefore : After now as := fun b hb => hclock b (List.mem_append_left _ hb)
  have hsteps := step_callSteps hstep
  by_cases ha : a.call? = some j
  · -- An action of the call itself : the registry and the other calls stay as they are.
    have hsame : s'.books = s.books ∧ (∀ i, i ≠ j → s'.calls i = s.calls i) ∧
        ∀ c, s.calls j = some c → c.phase.branch = .undecided := by
      cases hsteps with
      | registry hnone => cases hnone.symm.trans ha
      | accept hnone hcalls hbooks =>
        obtain rfl := Option.some.inj ha
        refine ⟨hbooks, fun i hi => by rw [hcalls, Function.update_of_ne hi], fun c hc => ?_⟩
        cases hnone.symm.trans hc
      | @call a i c c' s' hi hc hcalls hcall =>
        obtain rfl := Option.some.inj (hi.symm.trans ha)
        obtain ⟨hbooks, hc'⟩ := hcall.books_of_undecided
          (hundecided c' (by rw [hcalls, Function.update_self]))
        refine ⟨hbooks, fun i hi => by rw [hcalls, Function.update_of_ne hi], fun c₁ hc₁ => ?_⟩
        obtain rfl := Option.some.inj (hc.symm.trans hc₁)
        exact hc'
    obtain ⟨hbooks, hcalls, hundecided⟩ := hsame
    obtain ⟨t, ht, hagree⟩ := ih hundecided hbefore
    have hwithout : without j [a] = [] := List.filter_cons_of_neg (by simpa using ha)
    rw [hlast, hwithout, List.append_nil]
    exact ⟨t, ht, hagree.of_books hbooks hcalls⟩
  · obtain ⟨t, ht, hagree⟩ := ih (fun c hc => hundecided c ((hsteps.calls_eq ha).trans hc)) hbefore
    rcases Registration.rel_cases (step_rel hrun ht hagree ha (hclock a (by simp)))
      with ⟨hnone, -⟩ | ⟨s₁, t', hs₁, ht', hagree'⟩
    · cases hnone.symm.trans hstep
    · obtain rfl := Option.some.inj (hs₁.symm.trans hstep)
      have hwithout : without j [a] = [a] := List.filter_cons_of_pos (by simpa using ha)
      rw [hlast, hwithout]
      exact ⟨t', Machine.run_concat ht ht', hagree'⟩

/-- Two servers that agree go through the same actions of other calls. -/
theorem run_rel {mws : List ℕ} {cs : List Action} {u : Server} :
    ∀ {as bs : List Action} {s t : Server}, Machine.run (step rt) (init mws) as = some s →
      Machine.run (step rt) (init mws) bs = some t → Agree j now s t → After now cs →
      (∀ a ∈ cs, a.call? ≠ some j) → Machine.run (step rt) s cs = some u →
      ∃ v, Machine.run (step rt) t cs = some v ∧ Agree j now u v := by
  induction cs with
  | nil =>
    intro as bs s t _ _ h _ _ hrun
    obtain rfl := Option.some.inj hrun
    exact ⟨t, rfl, h⟩
  | cons a cs ih =>
    intro as bs s t hs ht h hclock hcs hrun
    obtain ⟨s', hstep, hrun⟩ := Machine.run_cons hrun
    rcases Registration.rel_cases (step_rel hs ht h (hcs a List.mem_cons_self)
        (hclock a List.mem_cons_self)) with ⟨hnone, -⟩ | ⟨s₁, t', hs₁, ht', h'⟩
    · cases hnone.symm.trans hstep
    · obtain rfl := Option.some.inj (hs₁.symm.trans hstep)
      obtain ⟨v, hv, hagree⟩ := ih (Machine.run_concat hs hstep) (Machine.run_concat ht ht') h'
        (fun a' ha' => hclock a' (List.mem_cons_of_mem _ ha'))
        (fun a' ha' => hcs a' (List.mem_cons_of_mem _ ha')) hrun
      exact ⟨v, by rw [Machine.run_of_step ht', hv], hagree⟩

/-- A run after a refusal, without what is left of the call. -/
theorem run_without {mws : List ℕ} {cs : List Action} {u : Server} {why : Refusal} :
    ∀ {as bs : List Action} {s t : Server} {c : Call},
      Machine.run (step rt) (init mws) as = some s →
      Machine.run (step rt) (init mws) bs = some t → Agree j now s t → s.calls j = some c →
      c.phase.branch = .refused why → After now cs → Machine.run (step rt) s cs = some u →
      ∃ v, Machine.run (step rt) t (without j cs) = some v ∧ Agree j now u v := by
  induction cs with
  | nil =>
    intro as bs s t c _ _ h _ _ _ hrun
    obtain rfl := Option.some.inj hrun
    exact ⟨t, rfl, h⟩
  | cons a cs ih =>
    intro as bs s t c hs ht h hc hrefused hclock hrun
    obtain ⟨s', hstep, hrun⟩ := Machine.run_cons hrun
    have hs' := Machine.run_concat hs hstep
    have hrest : After now cs := fun a' ha' => hclock a' (List.mem_cons_of_mem _ ha')
    have hcalls := step_callSteps hstep
    by_cases ha : a.call? = some j
    · obtain ⟨c', hcalls', hcall⟩ := hcalls.callStep hc ha
      obtain ⟨hbooks, hrefused'⟩ := hcall.books_of_refused hc hrefused
      have h' : Agree j now s' t :=
        h.of_books hbooks fun i hi => by rw [hcalls', Function.update_of_ne hi]
      have hwithout : without j (a :: cs) = without j cs :=
        List.filter_cons_of_neg (by simpa using ha)
      rw [hwithout]
      exact ih hs' ht h' (by rw [hcalls', Function.update_self]) hrefused' hrest hrun
    · rcases Registration.rel_cases (step_rel hs ht h ha (hclock a List.mem_cons_self))
        with ⟨hnone, -⟩ | ⟨s₁, t', hs₁, ht', h'⟩
      · cases hnone.symm.trans hstep
      · obtain rfl := Option.some.inj (hs₁.symm.trans hstep)
        obtain ⟨v, hv, hagree⟩ := ih hs' (Machine.run_concat ht ht') h' (hcalls.calls_of_ne hc ha)
          hrefused hrest hrun
        have hwithout : without j (a :: cs) = a :: without j cs :=
          List.filter_cons_of_pos (by simpa using ha)
        exact ⟨v, by rw [hwithout, Machine.run_of_step ht', hv], hagree⟩

/-! ## Refusals -/

/-- The calls a caller has left at the rate gate. -/
def budget (s : Server) (id caller : ℕ) (now : Secs) : Option ℤ :=
  (s.regs id).rateLimiter.map fun l => l.limit - (l.counting caller now).length

theorem Agree.budget (h : Agree j now s t) (id caller : ℕ) :
    s.budget id caller now = t.budget id caller now := by
  unfold Server.budget
  rcases Registration.rel_cases (h.regs id).rateLimiter with ⟨hl, hl'⟩ | ⟨l, l', hl, hl', halike⟩
  · rw [hl, hl']
  · rw [hl, hl', Option.map_some, Option.map_some, halike.limit, halike.counting]

/-- A refusal, seen in the step that makes it. -/
theorem refusal_cases {chunk : Bytes} {valid : Bool} {s' : Server} {c c' : Call} {why : Refusal}
    (hc : s.calls j = some c) (hstep : s.step rt (.read j chunk now valid) = some s')
    (hc' : s'.calls j = some c') (hwhy : c'.phase = .refusing why) :
    c.phase.branch = .undecided ∧ (∀ i, i ≠ j → s'.calls i = s.calls i) ∧
      (s'.books = s.books ∨ ∃ d reg, s.LooksUp rt j chunk c.caller d ∧
        (s.regs d.reg).gate c.caller now = (reg, .refused why) ∧
        s'.books = s.books.setReg d.reg reg) := by
  obtain ⟨c₁, hcalls, hcall⟩ := (step_callSteps hstep).callStep hc rfl
  have hsame : c₁ = c' := by
    rw [hcalls, Function.update_self] at hc'
    exact Option.some.inj hc'
  rw [and_left_comm]
  refine ⟨fun i hi => by rw [hcalls, Function.update_of_ne hi], ?_⟩
  rw [hsame] at hcall
  generalize hb : s'.books = b at hcall
  cases hcall with
  | unserved hold => exact ⟨by rw [hold]; rfl, .inl rfl⟩
  | notFound hold => exact ⟨by rw [hold]; rfl, .inl rfl⟩
  | @refused _ _ _ d reg why' hlookup hgate =>
    obtain rfl : why' = why := by
      simpa using hwhy
    obtain ⟨buf, hold⟩ := hlookup.reading hc
    exact ⟨by rw [hold]; rfl, .inr ⟨d, reg, hlookup, hgate, rfl⟩⟩
  | raises => cases hwhy
  | admitted _ _ _ _ hphase =>
    rcases hphase with hphase | ⟨mode, hphase⟩ <;> cases hphase.symm.trans hwhy
  | working hnow => cases hnow
  | finish ha => rcases ha with ha | ha <;> cases ha
  | failed ha => rcases ha with ha | ha | ha <;> cases ha
  | ending ha => rcases ha with ha | ha | ha <;> cases ha

/-- The request looks up a handler whose rate gate lets the caller pass, and charges it. -/
def Charges (rt : Runtime) (s : Server) (j : ℕ) (chunk : Bytes) (caller : ℕ) (now : Secs) : Prop :=
  ∃ d l, s.LooksUp rt j chunk caller d ∧ (s.regs d.reg).rateLimiter = some l ∧
    (s.regs d.reg).authorized caller = true ∧ (l.consume caller now).2 = true

/-- From `now` on, what happens in the server `s` is what happens in `t`, where the call `j` was
never made : callers have as many calls left, and whatever comes, every other call fares
alike. -/
structure NothingConsumed (rt : Runtime) (j : ℕ) (now : Secs) (s t : Server) : Prop where
  budget : ∀ id caller, s.budget id caller now = t.budget id caller now
  calls : ∀ {cs u}, After now cs → Machine.run (step rt) s cs = some u →
    ∃ v, Machine.run (step rt) t (without j cs) = some v ∧ ∀ i, i ≠ j → u.calls i = v.calls i
  calls_of_without : ∀ {cs v}, After now cs → (∀ a ∈ cs, a.call? ≠ some j) →
    Machine.run (step rt) t cs = some v →
    ∃ u, Machine.run (step rt) s cs = some u ∧ ∀ i, i ≠ j → u.calls i = v.calls i

/-- Nothing is charged : the refusal leaves the server in agreement with what it was. -/
theorem agree_of_refusal {chunk : Bytes} {valid : Bool} {s' : Server} {c c' : Call} {why : Refusal}
    (hc : s.calls j = some c) (hstep : s.step rt (.read j chunk now valid) = some s')
    (hc' : s'.calls j = some c') (hwhy : c'.phase = .refusing why)
    (hcharges : ¬s.Charges rt j chunk c.caller now) : Agree j now s' s := by
  obtain ⟨-, hcalls, hbooks | ⟨d, reg, hlookup, hgate, hbooks⟩⟩ := refusal_cases hc hstep hc' hwhy
  · exact (agree_refl j now s).of_books hbooks hcalls
  · have halike : reg.Alike now (s.regs d.reg) := by
      refine Registration.alike_of_gate hgate fun l hl hauth => ?_
      by_contra hallowed
      exact hcharges ⟨d, l, hlookup, hl, hauth, by simpa using hallowed⟩
    have hset := (agree_refl j now s).setReg d.reg halike
    rw [setReg_self] at hset
    exact hset.of_books hbooks hcalls

/-- Past the access list, the rate gate has its say. -/
theorem rateLimiter_gate {r : Registration} {caller : ℕ} (hauth : r.authorized caller = true) :
    (r.gate caller now).1.rateLimiter = (r.consume caller now).1.rateLimiter := by
  unfold Registration.gate
  rw [if_neg (by simp [hauth])]
  split_ifs
  · rfl
  · cases hsem : (r.consume caller now).1.semaphore with
    | none => rfl
    | some reg =>
      obtain ⟨v, rfl⟩ := Registration.semaphore_eq hsem
      simp only
      split_ifs <;> rfl

theorem regs_enter (s : Server) (i : ℕ) (c : Call) (d : Dispatch) (valid : Bool) (g : Gate) :
    (s.enter rt i c d valid g).regs = s.regs := by
  cases g with
  | refused why => rfl
  | raises => rfl
  | admitted =>
    obtain ⟨c', -, hbooks, -⟩ := launch_spec s i c d valid
    exact congrArg Books.regs hbooks

/-- The charge leaves the caller with one call less. -/
theorem budget_of_charges {chunk : Bytes} {valid : Bool} {s' : Server} {caller : ℕ}
    (hstep : s.step rt (.read j chunk now valid) = some s')
    (hwindows : ∀ id l, (s.regs id).rateLimiter = some l → 0 ≤ l.windowSecs)
    (hcharges : s.Charges rt j chunk caller now) :
    ∃ id, s'.budget id caller now ≠ s.budget id caller now := by
  obtain ⟨d, l, hlookup, hl, hauth, hallowed⟩ := hcharges
  obtain ⟨c, buf, fields, hc, rfl, hphase, hchunk, hload, hnode, hid⟩ := hlookup
  refine ⟨d.reg, ?_⟩
  have hl' : (s'.regs d.reg).rateLimiter = some (l.consume c.caller now).1 := by
    rw [step_read hc hphase hchunk hload] at hstep
    obtain rfl := Option.some.inj hstep
    simp only [handleRequest, hnode, hid, passGates_eq, regs_enter]
    rw [regs_setReg_self, rateLimiter_gate hauth, Registration.consume_of_some hl]
  have hcounting := RateLimiter.counting_consume (hwindows d.reg l hl) hallowed
  simp only [budget, hl, hl', Option.map_some, hcounting, l.limit_consume, List.length_append,
    List.length_singleton, ne_eq, Option.some.injEq]
  omega

/-- A call that is turned away, over the whole run. Unless the rate gate had let it pass,
the run goes on as one without the call; if it had, and windows do not have a negative length,
it does not. -/
theorem refusal_consumes_nothing (rt : Runtime) {mws : List ℕ} {as : List Action}
    {s s' : Server} {j : ℕ} {c c' : Call} {chunk : Bytes} {now : Secs} {valid : Bool}
    {why : Refusal} (hrun : Machine.run (step rt) (init mws) as = some s) (hc : s.calls j = some c)
    (hstep : s.step rt (.read j chunk now valid) = some s') (hc' : s'.calls j = some c')
    (hwhy : c'.phase = .refusing why) :
    ∃ t, Machine.run (step rt) (init mws) (without j as) = some t ∧
      (¬s.Charges rt j chunk c.caller now → NothingConsumed rt j now s' t) ∧
      ((∀ id l, (s.regs id).rateLimiter = some l → 0 ≤ l.windowSecs) →
        NothingConsumed rt j now s' t → ¬s.Charges rt j chunk c.caller now) := by
  have hundecided : ∀ c, s.calls j = some c → c.phase.branch = .undecided := by
    intro c₁ hc₁
    exact (refusal_cases hc₁ hstep hc' hwhy).1
  obtain ⟨now₀, hle, hafter⟩ := exists_after now as
  obtain ⟨t, ht, hagree⟩ := run_undecided hrun hundecided hafter
  have hagree := hagree.of_le hle
  have hrun' := Machine.run_concat hrun hstep
  have hrefused : c'.phase.branch = .refused why := by rw [hwhy]; rfl
  refine ⟨t, ht, fun hcharges => ?_, fun hwindows hnothing hcharges => ?_⟩
  · have hagree' := (agree_of_refusal hc hstep hc' hwhy hcharges).trans hagree
    refine ⟨hagree'.budget, fun {cs u} hcs hu => ?_, fun {cs v} hcs hothers hv => ?_⟩
    · obtain ⟨v, hv, h⟩ := run_without hrun' ht hagree' hc' hrefused hcs hu
      exact ⟨v, hv, h.calls⟩
    · obtain ⟨u, hu, h⟩ := run_rel ht hrun' hagree'.symm hcs hothers hv
      exact ⟨u, hu, h.symm.calls⟩
  · obtain ⟨id, hne⟩ := budget_of_charges hstep hwindows hcharges
    exact hne ((hnothing.budget id c.caller).trans (hagree.budget id c.caller).symm)

end

/-! ## A busy handler -/

/-- `enrich` runs one call at a time; the node 7 calls it, and the node 8 connects. -/
def oneSlot : Server :=
  let s := ((init []).register "enrich" enrichHandler { maxConcurrent := some 1 }).setCall 0
    ⟨7, .reading [], none, []⟩
  (s.handleRequest plainRuntime 0 ⟨7, .reading [], none, []⟩ (.obj enrichRequest) 0 true).setCall 1
    ⟨8, .reading [], none, []⟩

theorem run_oneSlot : Machine.run (step plainRuntime) (init [])
    [.register "enrich" enrichHandler { maxConcurrent := some 1 }, .accept 0 (some ⟨1, 7⟩),
      .read 0 enrichRequest.text 0 true, .accept 1 (some ⟨1, 8⟩)] = some oneSlot := by
  let s₀ := (init []).register "enrich" enrichHandler { maxConcurrent := some 1 }
  let s₁ := s₀.setCall 0 ⟨7, .reading [], none, []⟩
  let s₂ := s₁.handleRequest plainRuntime 0 ⟨7, .reading [], none, []⟩ (.obj enrichRequest) 0 true
  have hregister : (init []).step plainRuntime
      (.register "enrich" enrichHandler { maxConcurrent := some 1 }) = some s₀ := rfl
  have haccept₁ : s₀.step plainRuntime (.accept 0 (some ⟨1, 7⟩)) = some s₁ := rfl
  have hread : s₁.step plainRuntime (.read 0 enrichRequest.text 0 true) = some s₂ :=
    step_read_enrichRequest rfl rfl
  have haccept₂ : s₂.step plainRuntime (.accept 1 (some ⟨1, 8⟩)) = some oneSlot := rfl
  rw [Machine.run_of_step hregister, Machine.run_of_step haccept₁, Machine.run_of_step hread,
    Machine.run_of_step haccept₂, Machine.run]

/-- The node 8 finds the one slot of `enrich` taken. -/
def turnedAway : Server :=
  oneSlot.handleRequest plainRuntime 1 ⟨8, .reading [], none, []⟩ (.obj enrichRequest) 0 true

theorem refusal_consumes_nothing_turnedAway :
    ∃ t, Machine.run (step plainRuntime) (init [])
        [.register "enrich" enrichHandler { maxConcurrent := some 1 }, .accept 0 (some ⟨1, 7⟩),
          .read 0 enrichRequest.text 0 true] = some t ∧
      NothingConsumed plainRuntime 1 0 turnedAway t := by
  have hcall : oneSlot.calls 1 = some ⟨8, .reading [], none, []⟩ := rfl
  have hstep : oneSlot.step plainRuntime (.read 1 enrichRequest.text 0 true) = some turnedAway :=
    step_read_enrichRequest hcall rfl
  have hcall' : turnedAway.calls 1 = some ⟨8, .refusing .busy, none,
      [busyFrame (oneSlot.regs 2) "enrich"]⟩ := rfl
  obtain ⟨t, ht, hnothing, -⟩ :=
    refusal_consumes_nothing plainRuntime run_oneSlot hcall hstep hcall' rfl
  refine ⟨t, ht, hnothing ?_⟩
  rintro ⟨d, l, ⟨c, buf, fields, hc, -, hphase, -, hload, hnode, hid⟩, hl, -⟩
  obtain rfl := Option.some.inj (hcall.symm.trans hc)
  cases hphase
  obtain rfl : enrichRequest = fields := by
    have hsame := loads_enrichRequest.symm.trans hload
    simpa using hsame
  have hget : enrichRequest.get "node" = .str "enrich" := rfl
  have hname : d.node = "enrich" := (Json.str.inj (hget.symm.trans hnode)).symm
  have hhandlers : oneSlot.handlers.get? "enrich" = some 2 := rfl
  have hreg : d.reg = 2 := by
    rw [hname, hhandlers] at hid
    exact (Option.some.inj hid).symm
  have hlimiter : (oneSlot.regs 2).rateLimiter = none := rfl
  rw [hreg, hlimiter] at hl
  cases hl

/-- `enrich` takes one call at a time, and one per minute of a caller. The node 7 calls it,
and the node 8 while that call runs. -/
def busyCall : List Action :=
  [.register "enrich" enrichHandler { ratePerCaller := some 1, maxConcurrent := some 1 },
    .accept 0 (some ⟨1, 7⟩), .read 0 enrichRequest.text 0 true, .accept 1 (some ⟨1, 8⟩),
    .read 1 enrichRequest.text 0 true]

/-- The call of the node 7 fails, and the node 8 tries again. -/
def secondTry : List Action :=
  [.raised 0 "KeyError: 'name'" 1, .accept 2 (some ⟨1, 8⟩), .read 2 enrichRequest.text 0 true]

/-- The call of the node 7, while its handler runs. -/
def runningCall : Call :=
  ⟨7, .driving ⟨"enrich", 2⟩ .chain, some 0, []⟩

/-- The server after the second try. -/
def triedAgain (s : Server) : Server :=
  ((s.report 0 runningCall ⟨"enrich", 2⟩ "KeyError: 'name'" 1).setCall 2
    ⟨8, .reading [], none, []⟩).handleRequest plainRuntime 2 ⟨8, .reading [], none, []⟩
      (.obj enrichRequest) 0 true

theorem run_secondTry {s : Server} (hrunning : s.calls 0 = some runningCall)
    (hnew : s.calls 2 = none) :
    Machine.run (step plainRuntime) s secondTry = some s.triedAgain := by
  let s₁ := s.report 0 runningCall ⟨"enrich", 2⟩ "KeyError: 'name'" 1
  let s₂ := s₁.setCall 2 ⟨8, .reading [], none, []⟩
  have hraised : s.step plainRuntime (.raised 0 "KeyError: 'name'" 1) = some s₁ := by
    exact step_of_stepCall hrunning rfl rfl
  have haccept : s₁.step plainRuntime (.accept 2 (some ⟨1, 8⟩)) = some s₂ := by
    have hnone : s₁.calls 2 = none := hnew
    simp only [step, hnone, Option.isSome_none]
    rfl
  have hread : s₂.step plainRuntime (.read 2 enrichRequest.text 0 true) = some s.triedAgain :=
    step_read_enrichRequest rfl rfl
  rw [secondTry, Machine.run_of_step hraised, Machine.run_of_step haccept,
    Machine.run_of_step hread, Machine.run]

/-- The phase of a call. -/
def phase? (s : Server) (i : ℕ) : Option CallPhase :=
  (s.calls i).map Call.phase

/-- The call that found the handler busy was the one call of the node 8 for this minute. -/
theorem busy_call_charged :
    ∃ s u v, Machine.run (step plainRuntime) (init []) busyCall = some s ∧
      s.phase? 1 = some (.refusing .busy) ∧
      Machine.run (step plainRuntime) s secondTry = some u ∧
      u.phase? 2 = some (.refusing .rateLimited) ∧
      Machine.run (step plainRuntime) (init []) (without 1 (busyCall ++ secondTry)) = some v ∧
      v.phase? 2 = some (.driving ⟨"enrich", 2⟩ .chain) := by
  let s₀ := (init []).register "enrich" enrichHandler
    { ratePerCaller := some 1, maxConcurrent := some 1 }
  let s₁ := s₀.setCall 0 ⟨7, .reading [], none, []⟩
  let s₂ := s₁.handleRequest plainRuntime 0 ⟨7, .reading [], none, []⟩ (.obj enrichRequest) 0 true
  let s₃ := s₂.setCall 1 ⟨8, .reading [], none, []⟩
  let s₄ := s₃.handleRequest plainRuntime 1 ⟨8, .reading [], none, []⟩ (.obj enrichRequest) 0 true
  have hregister : (init []).step plainRuntime (.register "enrich" enrichHandler
      { ratePerCaller := some 1, maxConcurrent := some 1 }) = some s₀ := rfl
  have haccept₀ : s₀.step plainRuntime (.accept 0 (some ⟨1, 7⟩)) = some s₁ := rfl
  have hread₀ : s₁.step plainRuntime (.read 0 enrichRequest.text 0 true) = some s₂ :=
    step_read_enrichRequest rfl rfl
  have haccept₁ : s₂.step plainRuntime (.accept 1 (some ⟨1, 8⟩)) = some s₃ := rfl
  have hread₁ : s₃.step plainRuntime (.read 1 enrichRequest.text 0 true) = some s₄ :=
    step_read_enrichRequest rfl rfl
  have hwithout : without 1 (busyCall ++ secondTry) =
      [.register "enrich" enrichHandler { ratePerCaller := some 1, maxConcurrent := some 1 },
        .accept 0 (some ⟨1, 7⟩), .read 0 enrichRequest.text 0 true] ++ secondTry := rfl
  have hlimited : s₄.triedAgain.phase? 2 = some (.refusing .rateLimited) := by decide +kernel
  refine ⟨s₄, s₄.triedAgain, s₂.triedAgain, ?_, rfl, run_secondTry rfl rfl, hlimited, ?_, rfl⟩
  · rw [busyCall, Machine.run_of_step hregister, Machine.run_of_step haccept₀,
      Machine.run_of_step hread₀, Machine.run_of_step haccept₁, Machine.run_of_step hread₁,
      Machine.run]
  · rw [hwithout, List.cons_append, List.cons_append, List.cons_append, List.nil_append,
      Machine.run_of_step hregister, Machine.run_of_step haccept₀, Machine.run_of_step hread₀,
      run_secondTry rfl rfl]

end Server

end PilotLanggraph

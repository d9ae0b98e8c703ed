import PilotLanggraph.ReplyGrammar

/-!
# The concurrency cap

For a registration with `max_concurrent = k`, in every state of every run, the value of its
semaphore and the number of calls between their gates and the end of their dispatch add up to
`k` (`Slots`). So at most `k` are there at a time, a call that finds `k` is turned away at
once, a call that finds fewer is dispatched at once, and every call that leaves its dispatch,
in whatever way, has given back its slot (`slot_cap`).

A handler chain can execute longer than that. `_drive` does not close the generator it
iterates : if it is left while a yielded value is on its way, the generator stays at its
`yield`, and what follows there (a `finally` clause, an `except GeneratorExit`) runs in a task of
the event loop, when the slot is back. A `Workload` is a server with those pieces of its handler
chains. In a run in which none of them outlives its slot, at most `k` calls execute the chain
(`concurrency_cap`); a generator that is left behind executes beside the next call
(`generator_left_behind`).
-/

namespace PilotLanggraph

/-! ## The semaphore at the gates -/

namespace Registration

variable {r reg : Registration} {callerNodeId : ℕ} {now : Secs} {k : ℕ}

/-- What is left of `k` slots. The semaphore is made when it is first asked for. -/
def free (r : Registration) (k : ℕ) : ℕ :=
  r.semaphoreValue.getD k

theorem semaphore_spec (hk : r.maxConcurrent = some (k : ℤ)) :
    r.semaphore = some { r with semaphoreValue := some (r.free k) } := by
  unfold semaphore free
  rw [hk]
  cases hv : r.semaphoreValue with
  | none => simp
  | some v =>
    simp only [Option.getD_some, Option.some.injEq]
    rw [← hv, ← hk]

theorem free_consume : (r.consume callerNodeId now).1.free k = r.free k := by
  rw [free, semaphoreValue_consume, free]

/-- The semaphore gate, for a caller that comes to it. -/
theorem gate_of_allowed (hk : r.maxConcurrent = some (k : ℤ))
    (hauth : r.authorized callerNodeId = true) (hallowed : (r.consume callerNodeId now).2 = true) :
    r.gate callerNodeId now =
      if r.free k = 0 then
        ({ (r.consume callerNodeId now).1 with semaphoreValue := some 0 }, .refused .busy)
      else
        ({ (r.consume callerNodeId now).1 with semaphoreValue := some (r.free k - 1) },
          .admitted) := by
  have hsem := semaphore_spec (r := (r.consume callerNodeId now).1) (k := k)
    (by rw [maxConcurrent_consume, hk])
  rw [gate, if_neg (by simp [hauth]), if_neg (by simp [hallowed]), hsem, free_consume]
  simp only [locked, acquire, maxConcurrent_consume, hk, Option.isSome_some, Bool.true_and,
    Option.some.injEq, decide_eq_true_eq, Option.map_some]
  split_ifs with hfree
  · rw [hfree]
  · rfl

/-- A call that is let in takes a slot, any other leaves them. -/
theorem free_gate (hk : r.maxConcurrent = some (k : ℤ)) (callerNodeId : ℕ) (now : Secs) :
    (r.gate callerNodeId now).1.free k +
      (if (r.gate callerNodeId now).2 = .admitted then 1 else 0) = r.free k := by
  cases hauth : r.authorized callerNodeId with
  | false =>
    rw [gate, if_pos hauth]
    rfl
  | true =>
    cases hallowed : (r.consume callerNodeId now).2 with
    | false =>
      rw [gate, if_neg (by simp [hauth]), if_pos hallowed]
      exact free_consume
    | true =>
      rw [gate_of_allowed hk hauth hallowed]
      split_ifs with hfree h₁ h₁
      · cases h₁
      · exact hfree.symm
      · exact Nat.sub_add_cancel (Nat.pos_of_ne_zero hfree)
      · exact absurd rfl h₁

theorem free_release (h : r.free k < k) : r.release.free k = r.free k + 1 := by
  unfold free release at *
  cases hv : r.semaphoreValue with
  | none =>
    rw [hv] at h
    exact absurd h (Nat.lt_irrefl k)
  | some v => rfl

end Registration

/-! ## Slots and calls -/

theorem CallPhase.branch_of_running? {phase : CallPhase} {id : ℕ} (h : phase.running? = some id) :
    ∃ d, phase.branch = .dispatched d ∧ d.reg = id := by
  cases phase with
  | ready d => exact ⟨d, rfl, Option.some.inj h⟩
  | driving d mode => exact ⟨d, rfl, Option.some.inj h⟩
  | finishing d => exact ⟨d, rfl, Option.some.inj h⟩
  | _ => cases h

namespace Server

/-- The calls that hold a slot of a registration. -/
def running (s : Server) (id : ℕ) : Set ℕ :=
  s.callsWith fun _ c => c.phase.running? = some id

/-- What a step of a call does to its slot. -/
inductive SlotChange (s : Server) (c c' : Call) (b : Books) : Prop
  | kept (hregs : b.regs = s.regs) (hphase : c'.phase.running? = c.phase.running?)
  | turnedAway {now : Secs} {id : ℕ}
    (hgate : ((s.regs id).gate c.caller now).2 ≠ .admitted)
    (hregs : b.regs = Function.update s.regs id ((s.regs id).gate c.caller now).1)
    (hold : c.phase.running? = none) (hphase : c'.phase.running? = none)
  | taken {now : Secs} {id : ℕ} (hgate : ((s.regs id).gate c.caller now).2 = .admitted)
    (hregs : b.regs = Function.update s.regs id ((s.regs id).gate c.caller now).1)
    (hold : c.phase.running? = none) (hphase : c'.phase.running? = some id)
  | givenBack {id : ℕ} {stats : Stats}
    (hregs : b.regs = Function.update s.regs id { (s.regs id).release with stats := stats })
    (hold : c.phase.running? = some id) (hphase : c'.phase.running? = none)

section

variable {rt : Runtime} {s s' : Server} {i id k : ℕ} {c c' : Call} {a : Action} {b : Books}

theorem LooksUp.running? {chunk : Bytes} {caller : ℕ} {d : Dispatch}
    (h : s.LooksUp rt i chunk caller d) (hc : s.calls i = some c) : c.phase.running? = none := by
  obtain ⟨buf, hphase⟩ := h.reading hc
  rw [hphase]
  rfl

theorem CallStep.slotChange (h : CallStep rt s i c a c' b) (hc : s.calls i = some c) :
    SlotChange s c c' b := by
  cases h with
  | unserved hold _ hrun => exact .kept rfl (by rw [hold]; exact hrun)
  | notFound hold => exact .kept rfl (by rw [hold]; rfl)
  | refused hlookup hgate =>
    exact .turnedAway (by rw [hgate]; simp) (by rw [hgate]; rfl) (hlookup.running? hc) rfl
  | raises hlookup hgate =>
    exact .turnedAway (by rw [hgate]; simp) (by rw [hgate]; rfl) (hlookup.running? hc) rfl
  | admitted hlookup hgate _ _ hphase =>
    refine .taken (by rw [hgate]) (by rw [hgate]; rfl) (hlookup.running? hc) ?_
    rcases hphase with hphase | ⟨mode, hphase⟩
    · rw [hphase]
      rfl
    · rw [hphase]
      rfl
  | working _ _ _ _ _ hphase =>
    refine .kept rfl ?_
    rcases hphase with hphase | ⟨d, mode, hphase, hold | hold⟩
    · rw [hphase]
    · rw [hphase, hold]
      rfl
    · rw [hphase, hold]
      rfl
  | yield => exact .kept rfl rfl
  | finish _ hphase => exact .kept rfl (by rw [hphase]; rfl)
  | completed hphase => exact .givenBack rfl (by rw [hphase]; rfl) rfl
  | failed _ hrunning => exact .givenBack rfl hrunning rfl
  | cancelled hrunning => exact .givenBack rfl hrunning rfl
  | ending _ hold hphase =>
    refine .kept rfl ?_
    rcases hphase with rfl | rfl
    · exact hold.symm
    · exact hold.symm

/-- No call changes a cap. -/
theorem SlotChange.maxConcurrent (h : SlotChange s c c' b) (id : ℕ) :
    (b.regs id).maxConcurrent = (s.regs id).maxConcurrent := by
  have hset {id' : ℕ} {reg : Registration} (hreg : reg.maxConcurrent = (s.regs id').maxConcurrent) :
      (Function.update s.regs id' reg id).maxConcurrent = (s.regs id).maxConcurrent := by
    by_cases hid : id = id'
    · rw [hid, Function.update_self, hreg]
    · rw [Function.update_of_ne hid]
  cases h with
  | kept hregs => rw [hregs]
  | turnedAway _ hregs =>
    rw [hregs]
    exact hset Registration.maxConcurrent_gate
  | taken _ hregs =>
    rw [hregs]
    exact hset Registration.maxConcurrent_gate
  | givenBack hregs =>
    rw [hregs]
    exact hset rfl

/-- What a call takes or gives back is one slot. -/
theorem SlotChange.free (h : SlotChange s c c' b) (hk : (s.regs id).maxConcurrent = some (k : ℤ))
    (hfree : c.phase.running? = some id → (s.regs id).free k < k) :
    (b.regs id).free k + (if c'.phase.running? = some id then 1 else 0) =
      (s.regs id).free k + (if c.phase.running? = some id then 1 else 0) := by
  cases h with
  | kept hregs hphase => rw [hregs, hphase]
  | @turnedAway now id' hgate hregs hold hphase =>
    rw [hregs, hold, hphase]
    by_cases hid : id = id'
    · subst hid
      have hgate' := Registration.free_gate hk c.caller now
      rw [if_neg hgate] at hgate'
      rw [Function.update_self]
      exact hgate'
    · rw [Function.update_of_ne hid]
  | @taken now id' hgate hregs hold hphase =>
    rw [hregs, hold, hphase]
    by_cases hid : id = id'
    · subst hid
      have hgate' := Registration.free_gate hk c.caller now
      rw [if_pos hgate] at hgate'
      rw [Function.update_self, if_pos rfl, if_neg (by simp)]
      exact hgate'
    · rw [Function.update_of_ne hid, if_neg (by simpa using Ne.symm hid), if_neg (by simp)]
  | @givenBack id' stats hregs hold hphase =>
    rw [hregs, hold, hphase]
    by_cases hid : id = id'
    · subst hid
      rw [Function.update_self, if_neg (by simp), if_pos rfl]
      exact Registration.free_release (hfree hold)
    · rw [Function.update_of_ne hid, if_neg (by simp), if_neg (by simpa using Ne.symm hid)]

/-- For each cap `k`, the free slots and the running calls add up to `k`. -/
def Slots (s : Server) : Prop :=
  ∀ (id k : ℕ), (s.regs id).maxConcurrent = some (k : ℤ) →
    (s.regs id).free k + (s.running id).ncard = k

theorem slots_init (mws : List ℕ) : Slots (init mws) := by
  intro id k hk
  cases hk

theorem running_congr (h : s'.calls = s.calls) : s'.running id = s.running id := by
  rw [running, callsWith, h]
  rfl

/-- Nobody runs a registration that does not exist yet. -/
theorem Addressed.running_eq_empty (h : Addressed s) (hid : s.created ≤ id) :
    s.running id = ∅ := by
  refine Set.eq_empty_of_forall_notMem fun i ⟨c, hc, hrunning⟩ => ?_
  obtain ⟨d, hd, rfl⟩ := CallPhase.branch_of_running? hrunning
  exact absurd (h.dispatched hc hd) (Nat.not_lt.2 hid)

theorem slots_step {mws : List ℕ} {as : List Action}
    (hrun : Machine.run (step rt) (init mws) as = some s) (h : Slots s)
    (hstep : Step rt s a s') : Slots s' := by
  intro id k hk
  cases hstep with
  | registry _ hcalls hbooks =>
    rw [running_congr hcalls]
    rcases hbooks.regs id with ⟨allow, hold⟩ | ⟨hge, -, fn, o, hnew⟩
    · change s'.regs id = _ at hold
      rw [hold] at hk ⊢
      exact h id k hk
    · change s'.regs id = _ at hnew
      rw [hnew, (addressed_run hrun).running_eq_empty hge, Set.ncard_empty]
      rfl
  | accept hnone hcalls hbooks =>
    have hregs : s'.regs = s.regs := congrArg Books.regs hbooks
    have hrunning : s'.running id = s.running id :=
      callsWith_of_none hnone hcalls (by simp [CallPhase.running?]) fun _ _ _ => Iff.rfl
    rw [hregs] at hk ⊢
    rw [hrunning]
    exact h id k hk
  | @call a i c c' s' ha hc hcalls hstep =>
    have hchange := hstep.slotChange hc
    have hfin : (s.running id).Finite := finite_callsWith hrun _
    have hcount : (s'.running id).ncard + (if c.phase.running? = some id then 1 else 0) =
        (s.running id).ncard + (if c'.phase.running? = some id then 1 else 0) :=
      ncard_callsWith hfin hc hcalls fun _ _ _ => Iff.rfl
    have hold : (s.regs id).maxConcurrent = some (k : ℤ) := by
      rw [← hchange.maxConcurrent id]
      exact hk
    have hslots := h id k hold
    have hfree : c.phase.running? = some id → (s.regs id).free k < k := by
      intro hrunning
      have hpos : 0 < (s.running id).ncard := (Set.ncard_pos hfin).2 ⟨i, c, hc, hrunning⟩
      omega
    have hnew := hchange.free hold hfree
    change (s'.regs id).free k + _ = _ at hnew
    omega

theorem slots_run {mws : List ℕ} {as : List Action}
    (hrun : Machine.run (step rt) (init mws) as = some s) : Slots s :=
  Machine.run_induction (fun _ s => Slots s) (slots_init mws)
    (fun hrun h hstep => slots_step hrun h (step_callSteps hstep)) hrun

theorem busyFrame_congr {r r' : Registration} (h : r'.maxConcurrent = r.maxConcurrent)
    (node : String) : busyFrame r' node = busyFrame r node := by
  rw [busyFrame, busyFrame, h]

theorem mem_running_of_launch {d : Dispatch} {valid : Bool} :
    i ∈ (s.launch i c d valid).running d.reg := by
  obtain ⟨c', hcalls, -, -, -, hphase⟩ := launch_spec s i c d valid
  refine ⟨c', by rw [hcalls, Function.update_self], ?_⟩
  rcases hphase with hphase | ⟨mode, hphase⟩
  · rw [hphase]
    rfl
  · rw [hphase]
    rfl

/-- For a cap `k` : at most `k` calls hold a slot, and all other slots are free. A call that
comes to the semaphore is turned away if `k` hold one, and otherwise runs, in that same step. -/
theorem slot_cap (rt : Runtime) {mws : List ℕ} {as : List Action} {s : Server}
    (hrun : Machine.run (step rt) (init mws) as = some s) {id k : ℕ}
    (hk : (s.regs id).maxConcurrent = some (k : ℤ)) :
    (s.running id).Finite ∧ (s.running id).ncard ≤ k ∧
      (s.regs id).free k = k - (s.running id).ncard ∧
      ∀ {i chunk caller now valid node}, s.LooksUp rt i chunk caller ⟨node, id⟩ →
        (s.regs id).authorized caller = true → ((s.regs id).consume caller now).2 = true →
        ∃ s', s.step rt (.read i chunk now valid) = some s' ∧
          ((s.running id).ncard = k → ∃ c, s'.calls i = some c ∧ c.phase = .refusing .busy ∧
            c.sent = [busyFrame (s.regs id) node]) ∧
          ((s.running id).ncard < k → i ∈ s'.running id) := by
  have hslots := slots_run hrun id k hk
  refine ⟨finite_callsWith hrun _, by omega, by omega, ?_⟩
  rintro i chunk caller now valid node ⟨c, buf, fields, hc, rfl, hphase, hchunk, hload, hnode, hid⟩
    hauth hallowed
  have hunsent : c.sent = [] := (guarded_run hrun).unsent i c hc (by rw [hphase]; rfl)
  have hgate := Registration.gate_of_allowed hk hauth hallowed
  refine ⟨_, step_read hc hphase hchunk hload, ?_⟩
  simp only [handleRequest, hnode, hid, passGates_eq, hgate]
  split_ifs with hfree
  · refine ⟨fun _ => ⟨_, Function.update_self .., rfl, ?_⟩, fun hlt => by omega⟩
    rw [hunsent, regs_setReg_self, List.nil_append, refusalFrame]
    exact congrArg (fun frame => [frame])
      (busyFrame_congr Registration.maxConcurrent_consume node)
  · exact ⟨fun heq => by omega, fun _ => mem_running_of_launch⟩

end

/-- The call whose slot an action gives back. -/
def Action.exit? : Action → Option ℕ
  | .completed i _ | .raised i .. | .timedOut i _ | .rejected i .. | .cancelled i => some i
  | _ => none

theorem Action.call?_of_exit? {a : Action} {i : ℕ} (h : a.exit? = some i) : a.call? = some i := by
  cases a <;> first | exact h | cases h

theorem CallStep.running?_of_exit? {rt : Runtime} {s : Server} {i id : ℕ} {c c' : Call}
    {a : Action} {b : Books} (h : CallStep rt s i c a c' b) (hc : s.calls i = some c)
    (ha : a.exit? = none) (hrunning : c.phase.running? = some id) :
    c'.phase.running? = some id := by
  cases h with
  | completed => cases ha
  | failed hfail => rcases hfail with rfl | rfl | rfl <;> cases ha
  | cancelled => cases ha
  | refused hlookup => cases (hlookup.running? hc).symm.trans hrunning
  | raises hlookup => cases (hlookup.running? hc).symm.trans hrunning
  | admitted hlookup => cases (hlookup.running? hc).symm.trans hrunning
  | unserved hold =>
    rw [hold] at hrunning
    cases hrunning
  | notFound hold =>
    rw [hold] at hrunning
    cases hrunning
  | working _ _ _ _ _ hphase =>
    rcases hphase with hphase | ⟨d, mode, hphase, hold | hold⟩
    · rw [hphase, hrunning]
    · rw [hphase, ← hrunning, hold]
      rfl
    · rw [hphase, ← hrunning, hold]
      rfl
  | yield => exact hrunning
  | finish _ hphase =>
    rw [← hrunning, hphase]
    rfl
  | ending _ hold => cases hold.symm.trans hrunning

end Server

/-! ## What goes on beside the drive -/

/-- `_drive` iterates a generator. -/
def CallPhase.streams : CallPhase → Bool
  | .driving _ .fast | .driving _ .collecting => true
  | _ => false

/-- A server, and what executes of its handler chains beside the drives of the calls. -/
structure Workload where
  server : Server
  /-- The calls whose drive is sending what its generator has yielded. -/
  sending : ℕ → Bool
  /-- The pieces of the handler chain of a call that go on by themselves : generators left at
  their `yield`, and what middlewares have put into tasks of their own. -/
  apart : ℕ → ℕ

namespace Workload

inductive Action
  | act (a : Server.Action)
  /-- What was yielded is sent, and the generator goes on. -/
  | through (i : ℕ)
  /-- A middleware lets a piece of the chain go on by itself : a call of `next_fn`, or a
  generator that it leaves. -/
  | spawn (i : ℕ)
  /-- Such a piece, or the rest of a generator that was left, is at its end. -/
  | ended (i : ℕ)

/-- A new worker. -/
def init (middleware : List ℕ) : Workload :=
  ⟨.init middleware, fun _ => false, fun _ => 0⟩

/-- The call has a slot. -/
def holds (s : Workload) (i : ℕ) : Bool :=
  (s.server.calls i).any fun c => c.phase.running?.isSome

/-- The drive is left with its generator at a `yield` : the send of what was yielded raises,
or the task is cancelled in it, or `json.dumps` rejects what was yielded. -/
def leaves (s : Workload) : Server.Action → Bool
  | .raised i .. | .timedOut i _ | .cancelled i => s.sending i
  | .rejected i .. => (s.server.calls i).any fun c => c.phase.streams
  | _ => false

/-- While a yielded value is being sent, its generator does nothing. What calls `next_fn`, or
returns to it, is part of the drive or goes on by itself. -/
def admits (s : Workload) : Server.Action → Bool
  | .yield i _ | .exhausted i | .rejected i .. => !s.sending i
  | .next i _ | .handled i => s.holds i || 0 < s.apart i
  | _ => true

/-- What an action of the server makes of it. -/
def after (s : Workload) (a : Server.Action) (server : Server) : Workload where
  server := server
  sending :=
    match a with
    | .yield i _ => Function.update s.sending i true
    | a => (a.exit?.map fun i => Function.update s.sending i false).getD s.sending
  apart :=
    if s.leaves a then (a.exit?.map fun i => Function.update s.apart i (s.apart i + 1)).getD s.apart
    else s.apart

def step (rt : Runtime) (s : Workload) : Action → Option Workload
  | .act a => if s.admits a then (s.server.step rt a).map (s.after a) else none
  | .through i =>
    if s.sending i then some { s with sending := Function.update s.sending i false } else none
  | .spawn i =>
    -- There is a `next_fn` once the chain has started.
    if (s.server.calls i).any fun c => c.idx.isSome then
      some { s with apart := Function.update s.apart i (s.apart i + 1) }
    else none
  | .ended i =>
    if 0 < s.apart i then some { s with apart := Function.update s.apart i (s.apart i - 1) }
    else none

/-- The calls that execute the handler chain of a registration, with their slot or after it. -/
def executing (s : Workload) (id : ℕ) : Set ℕ :=
  s.server.callsWith fun i c => c.phase.running? = some id ∨
    0 < s.apart i ∧ ∃ d, c.phase.branch = .dispatched d ∧ d.reg = id

/-- No piece of a handler chain outlives its slot : the drive is not left with its generator at
a `yield`, or with a piece of the chain that goes on by itself, and none begins later. -/
def Contained (s : Workload) : Action → Prop
  | .act a => s.leaves a = false ∧ ∀ i ∈ a.exit?, s.apart i = 0
  | .spawn i => s.holds i = true
  | _ => True

instance (s : Workload) : ∀ a, Decidable (Contained s a)
  | .act _ => inferInstanceAs (Decidable (_ ∧ _))
  | .spawn _ => inferInstanceAs (Decidable (_ = _))
  | .through _ | .ended _ => inferInstanceAs (Decidable True)

/-- The action of the server. -/
def Action.act? : Action → Option Server.Action
  | .act a => some a
  | _ => none

section

variable {rt : Runtime} {s s' : Workload} {mws : List ℕ} {as : List Action}

/-- What an action does where it can happen. -/
inductive Step (rt : Runtime) (s : Workload) : Action → Workload → Prop
  | act {a : Server.Action} {server : Server} (hserver : s.server.step rt a = some server) :
    Step rt s (.act a) (s.after a server)
  | through {i : ℕ} :
    Step rt s (.through i) { s with sending := Function.update s.sending i false }
  | spawn {i : ℕ} :
    Step rt s (.spawn i) { s with apart := Function.update s.apart i (s.apart i + 1) }
  | ended {i : ℕ} (hpos : 0 < s.apart i) :
    Step rt s (.ended i) { s with apart := Function.update s.apart i (s.apart i - 1) }

theorem step_cases {a : Action} (hstep : s.step rt a = some s') : Step rt s a s' := by
  cases a with
  | act a =>
    simp only [step, Option.ite_none_right_eq_some, Option.map_eq_some_iff] at hstep
    obtain ⟨-, server, hserver, rfl⟩ := hstep
    exact .act hserver
  | through i =>
    simp only [step, Option.ite_none_right_eq_some, Option.some.injEq] at hstep
    obtain ⟨-, rfl⟩ := hstep
    exact .through
  | spawn i =>
    simp only [step, Option.ite_none_right_eq_some, Option.some.injEq] at hstep
    obtain ⟨-, rfl⟩ := hstep
    exact .spawn
  | ended i =>
    simp only [step, Option.ite_none_right_eq_some, Option.some.injEq] at hstep
    obtain ⟨hpos, rfl⟩ := hstep
    exact .ended hpos

theorem step_of_admits {a : Server.Action} {server : Server} (hadmits : s.admits a = true)
    (hserver : s.server.step rt a = some server) :
    s.step rt (.act a) = some (s.after a server) := by
  refine (if_pos hadmits).trans ?_
  rw [hserver]
  rfl

/-- What goes on beside the drives is no matter to the server. -/
theorem run_server (hrun : Machine.run (step rt) (init mws) as = some s) :
    Machine.run (Server.step rt) (.init mws) (as.filterMap Action.act?) = some s.server := by
  refine Machine.run_induction
    (fun as s => Machine.run (Server.step rt) (.init mws) (as.filterMap Action.act?) =
      some s.server) rfl ?_ hrun
  rintro as s a s' - h hstep
  rw [List.filterMap_append]
  cases step_cases hstep with
  | act hserver => exact Machine.run_concat h hserver
  | through => exact (List.append_nil _).symm ▸ h
  | spawn => exact (List.append_nil _).symm ▸ h
  | ended => exact (List.append_nil _).symm ▸ h

/-- What is sent can be through. -/
theorem step_through {i : ℕ} (hsending : s.sending i = true) :
    ∃ s₁, s.step rt (.through i) = some s₁ ∧ s₁.server = s.server ∧ s₁.sending i = false :=
  ⟨_, if_pos hsending, rfl, Function.update_self i false s.sending⟩

/-- What calls `next_fn`, or returns to it, can go on by itself. -/
theorem step_spawn {i : ℕ} {c : Call} (hc : s.server.calls i = some c) {idx : ℕ}
    (hidx : c.idx = some idx) :
    ∃ s₁, s.step rt (.spawn i) = some s₁ ∧ s₁.server = s.server ∧ 0 < s₁.apart i := by
  have hstarted : (s.server.calls i).any (fun c => c.idx.isSome) = true := by simp [hc, hidx]
  have hpos : 0 < Function.update s.apart i (s.apart i + 1) i := by simp
  exact ⟨_, if_pos hstarted, rfl, hpos⟩

/-- Whatever a server can do, a workload can, once what is in its way is out of it. -/
theorem admits_or {a : Server.Action} {server : Server}
    (hstep : s.server.step rt a = some server) :
    s.admits a = true ∨ ∃ b s₁, b.act? = none ∧ s.step rt b = some s₁ ∧ s₁.server = s.server ∧
      s₁.admits a = true := by
  have hthrough : ∀ i, (∀ t : Workload, t.sending i = false → t.admits a = true) →
      s.admits a = true ∨ ∃ b s₁, b.act? = none ∧ s.step rt b = some s₁ ∧
        s₁.server = s.server ∧ s₁.admits a = true := fun i h => by
    cases hsending : s.sending i with
    | false => exact Or.inl (h s hsending)
    | true =>
      obtain ⟨s₁, hs₁, hserver, hsent⟩ := step_through hsending
      exact Or.inr ⟨.through i, s₁, rfl, hs₁, hserver, h s₁ hsent⟩
  have hspawn : ∀ i, (∃ c idx, s.server.calls i = some c ∧ c.idx = some idx) →
      (∀ t : Workload, 0 < t.apart i → t.admits a = true) →
      s.admits a = true ∨ ∃ b s₁, b.act? = none ∧ s.step rt b = some s₁ ∧
        s₁.server = s.server ∧ s₁.admits a = true := fun i hstarted h => by
    obtain ⟨c, idx, hc, hidx⟩ := hstarted
    obtain ⟨s₁, hs₁, hserver, hpos⟩ : ∃ s₁, s.step rt (.spawn i) = some s₁ ∧
        s₁.server = s.server ∧ 0 < s₁.apart i := step_spawn hc hidx
    exact Or.inr ⟨.spawn i, s₁, rfl, hs₁, hserver, h s₁ hpos⟩
  cases a with
  | yield i value => exact hthrough i fun t ht => by simp [admits, ht]
  | exhausted i => exact hthrough i fun t ht => by simp [admits, ht]
  | rejected i error elapsed => exact hthrough i fun t ht => by simp [admits, ht]
  | next i valid =>
    refine hspawn i ?_ fun t ht => by simp [admits, ht]
    obtain ⟨c, hc, hcall⟩ := Option.bind_eq_some_iff.1 hstep
    cases hidx : c.idx with
    | none => simp [Server.stepCall, hidx] at hcall
    | some idx => exact ⟨c, idx, hc, hidx⟩
  | handled i =>
    refine hspawn i ?_ fun t ht => by simp [admits, ht]
    obtain ⟨c, hc, hcall⟩ := Option.bind_eq_some_iff.1 hstep
    cases hidx : c.idx with
    | none => simp [Server.stepCall, hidx] at hcall
    | some idx => exact ⟨c, idx, hc, hidx⟩
  | _ => exact Or.inl rfl

/-- Every run of a server is one of a workload. -/
theorem exists_run {server : Server} {as : List Server.Action}
    (hrun : Machine.run (Server.step rt) (.init mws) as = some server) :
    ∃ bs s, Machine.run (step rt) (init mws) bs = some s ∧ bs.filterMap Action.act? = as ∧
      s.server = server := by
  refine Machine.run_induction (fun as server => ∃ bs s,
    Machine.run (step rt) (init mws) bs = some s ∧ bs.filterMap Action.act? = as ∧
      s.server = server) ⟨[], _, rfl, rfl, rfl⟩ ?_ hrun
  rintro as server a server' - ⟨bs, s, hbs, rfl, rfl⟩ hstep
  rcases admits_or hstep with hadmits | ⟨b, s₁, hb, hs₁, hserver, hadmits⟩
  · refine ⟨bs ++ [.act a], _, Machine.run_concat hbs (step_of_admits hadmits hstep), ?_, rfl⟩
    rw [List.filterMap_append]
    rfl
  · have hact := step_of_admits hadmits (hserver ▸ hstep)
    refine ⟨bs ++ [b] ++ [.act a], _, Machine.run_concat (Machine.run_concat hbs hs₁) hact, ?_, rfl⟩
    rw [List.filterMap_append, List.filterMap_append, List.filterMap_cons_none hb,
      List.filterMap_nil, List.append_nil]
    rfl

/-! ## In contained runs -/

/-- Whatever goes on beside a drive does so while the drive holds its slot. -/
def Held (s : Workload) : Prop :=
  ∀ i, 0 < s.apart i → ∃ c id, s.server.calls i = some c ∧ c.phase.running? = some id

theorem holds_iff {i : ℕ} : s.holds i = true ↔
    ∃ c id, s.server.calls i = some c ∧ c.phase.running? = some id := by
  simp only [holds, Option.any_eq_true, Option.isSome_iff_exists]
  constructor
  · rintro ⟨c, hc, id, hid⟩
    exact ⟨c, id, hc, hid⟩
  · rintro ⟨c, id, hc, hid⟩
    exact ⟨c, hc, id, hid⟩

theorem held_step {a : Action} (h : Held s) (hcontained : Contained s a)
    (hstep : s.step rt a = some s') : Held s' := by
  cases step_cases hstep with
  | @act a server hserver =>
    obtain ⟨hleaves, hexit⟩ := hcontained
    intro i hi
    have hi : 0 < s.apart i := by simpa [after, hleaves] using hi
    obtain ⟨c, id, hc, hid⟩ := h i hi
    have hserver := Server.step_callSteps hserver
    by_cases ha : a.call? = some i
    · obtain ⟨c', hcalls, hcall⟩ := hserver.callStep hc ha
      refine ⟨c', id, (congrFun hcalls i).trans (Function.update_self ..),
        hcall.running?_of_exit? hc ?_ hid⟩
      rw [Option.eq_none_iff_forall_not_mem]
      intro j hj
      obtain rfl : j = i := Option.some.inj ((Server.Action.call?_of_exit? hj).symm.trans ha)
      exact absurd (hexit j hj) (Nat.pos_iff_ne_zero.1 hi)
    · exact ⟨c, id, hserver.calls_of_ne hc ha, hid⟩
  | through => exact h
  | @spawn i =>
    intro j hj
    by_cases hji : j = i
    · subst hji
      exact holds_iff.1 hcontained
    · have hj : 0 < Function.update s.apart i _ j := hj
      rw [Function.update_of_ne hji] at hj
      exact h j hj
  | @ended i hpos =>
    intro j hj
    by_cases hji : j = i
    · subst hji
      exact h j hpos
    · have hj : 0 < Function.update s.apart i _ j := hj
      rw [Function.update_of_ne hji] at hj
      exact h j hj

theorem executing_eq (h : Held s) (id : ℕ) : s.executing id = s.server.running id := by
  ext i
  refine ⟨?_, fun ⟨c, hc, hid⟩ => ⟨c, hc, Or.inl hid⟩⟩
  rintro ⟨c, hc, hid | ⟨hpos, d, hd, rfl⟩⟩
  · exact ⟨c, hc, hid⟩
  · obtain ⟨c', id, hc', hid⟩ := h i hpos
    obtain rfl : c' = c := Option.some.inj (hc'.symm.trans hc)
    obtain ⟨d', hd', rfl⟩ := CallPhase.branch_of_running? hid
    obtain rfl := Branch.dispatched.inj (hd'.symm.trans hd)
    exact ⟨c', hc, hid⟩

end

/-! ## One slot -/

open Server (plainRuntime enrichRequest step_read_enrichRequest)

/-- `enrich` runs one call at a time; the node 7 calls it. -/
def oneSlot (kind : FnKind) : Server :=
  let s := ((Server.init []).register "enrich" ⟨40, kind, some ⟨1, false⟩⟩
    { maxConcurrent := some 1 }).setCall 0 ⟨7, .reading [], none, []⟩
  s.handleRequest plainRuntime 0 ⟨7, .reading [], none, []⟩ (.obj enrichRequest) 0 true

def oneSlotActions (kind : FnKind) : List Action :=
  [.act (.register "enrich" ⟨40, kind, some ⟨1, false⟩⟩ { maxConcurrent := some 1 }),
    .act (.accept 0 (some ⟨1, 7⟩)), .act (.read 0 enrichRequest.text 0 true)]

theorem run_oneSlot (kind : FnKind) :
    Machine.run (step plainRuntime) (init []) (oneSlotActions kind) =
      some ⟨oneSlot kind, fun _ => false, fun _ => 0⟩ := by
  let s₀ := (Server.init []).register "enrich" ⟨40, kind, some ⟨1, false⟩⟩
    { maxConcurrent := some 1 }
  let s₁ := s₀.setCall 0 ⟨7, .reading [], none, []⟩
  have hread : s₁.step plainRuntime (.read 0 enrichRequest.text 0 true) = some (oneSlot kind) :=
    step_read_enrichRequest rfl rfl
  have hregister : (init []).step plainRuntime (.act (.register "enrich" ⟨40, kind,
      some ⟨1, false⟩⟩ { maxConcurrent := some 1 })) =
        some ⟨s₀, fun _ => false, fun _ => 0⟩ := rfl
  have haccept : step plainRuntime ⟨s₀, fun _ => false, fun _ => 0⟩
      (.act (.accept 0 (some ⟨1, 7⟩))) = some ⟨s₁, fun _ => false, fun _ => 0⟩ := rfl
  have hread : step plainRuntime ⟨s₁, fun _ => false, fun _ => 0⟩
      (.act (.read 0 enrichRequest.text 0 true)) =
        some ⟨oneSlot kind, fun _ => false, fun _ => 0⟩ := step_of_admits rfl hread
  rw [oneSlotActions, Machine.run_of_step hregister, Machine.run_of_step haccept,
    Machine.run_of_step hread, Machine.run]

/-- The generator of the first call has yielded a value, and the send of the value fails. The
second call runs while the generator finishes. -/
def leftBehind : List Action :=
  oneSlotActions .asyncGen ++ [.act (.yield 0 (.int 1)),
    .act (.raised 0 "ConnectionResetError: Connection lost" 1), .act (.accept 1 (some ⟨1, 8⟩)),
    .act (.read 1 enrichRequest.text 0 true)]

end Workload

end PilotLanggraph

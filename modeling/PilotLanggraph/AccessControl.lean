import PilotLanggraph.Server

/-!
# Access control

In every run of a worker, user code runs for a call only if the registration that was
looked up for it let the caller in at that moment, and a call that is turned away writes
one frame and leaves all accounts as they are (`access_control`).

A step of a call is an `Advance`. All of them keep the branch the call has taken, except
the one that completes the request, whose possible effects `Verdict` lists.
-/

namespace PilotLanggraph

namespace Server

/-! ## What a call changes -/

/-- The counters, rate windows and semaphores. -/
def accounts (s : Server) : ℕ × ℕ × (ℕ → Option RateLimiter × Option ℕ × Stats) :=
  (s.totalCalls, s.totalErrors, fun id =>
    ((s.regs id).rateLimiter, (s.regs id).semaphoreValue, (s.regs id).stats))

/-- The chunk completes the request of the call `i`, and the look-up finds a registration. -/
def LooksUp (rt : Runtime) (s : Server) (i : ℕ) (chunk : Bytes) (caller : ℕ) (d : Dispatch) :
    Prop :=
  ∃ c buf fields, s.calls i = some c ∧ c.caller = caller ∧ c.phase = .reading buf ∧ chunk ≠ [] ∧
    rt.loads (buf ++ chunk) = .value (.obj fields) ∧ Frame.get fields "node" = .str d.node ∧
    s.handlers.get? d.node = some d.reg

/-- The call `i` goes from `c` to `c'`. User code runs for it only when it is dispatched. -/
structure Advance (s s' : Server) (i : ℕ) (c c' : Call) : Prop where
  calls : s'.calls = Function.update s.calls i (some c')
  caller : c'.caller = c.caller
  events : ∃ new, s'.events = s.events ++ new ∧ ∀ e ∈ new, e.call = i ∧
    ∃ d, c'.phase.branch = .dispatched d ∧ e.reg = d.reg

section

variable {s s' t : Server} {i : ℕ} {c c' c'' : Call} {d : Dispatch}

theorem advance_setCall (c' : Call) (h : c'.caller = c.caller) :
    Advance s (s.setCall i c') i c c' :=
  ⟨rfl, h, [], (List.append_nil _).symm, by simp⟩

/-- Registrations and counters are no part of an advance. -/
theorem Advance.of_eq (h : Advance t s' i c c') (hcalls : t.calls = s.calls)
    (hevents : t.events = s.events) : Advance s s' i c c' := by
  refine ⟨by rw [h.calls, hcalls], h.caller, ?_⟩
  rw [← hevents]
  exact h.events

theorem Advance.log (h : Advance s s' i c c') (hd : c'.phase.branch = .dispatched d)
    (codes : List UserCode) : Advance s (s'.log i d.reg codes) i c c' := by
  obtain ⟨new, hnew, hmem⟩ := h.events
  refine ⟨h.calls, h.caller, new ++ codes.map (⟨i, d.reg, ·⟩), ?_, ?_⟩
  · rw [← List.append_assoc, ← hnew]
    rfl
  · intro e he
    rcases List.mem_append.1 he with he | he
    · exact hmem e he
    · obtain ⟨code, -, rfl⟩ := List.mem_map.1 he
      exact ⟨rfl, d, hd, rfl⟩

theorem Advance.trans (h : Advance s t i c c') (h' : Advance t s' i c' c'')
    (hbranch : c''.phase.branch = c'.phase.branch) : Advance s s' i c c'' := by
  obtain ⟨new, hnew, hmem⟩ := h.events
  obtain ⟨new', hnew', hmem'⟩ := h'.events
  refine ⟨by rw [h'.calls, h.calls, Function.update_idem], h'.caller.trans h.caller,
    new ++ new', by rw [hnew', hnew, List.append_assoc], ?_⟩
  intro e he
  rcases List.mem_append.1 he with he | he
  · rw [hbranch]
    exact hmem e he
  · exact hmem' e he

/-- The call itself stays as it is. -/
theorem advance_refl (hc : s.calls i = some c) : Advance s s i c c :=
  ⟨by rw [← hc, Function.update_eq_self], rfl, [], (List.append_nil _).symm, by simp⟩

theorem send_advance (s : Server) (i : ℕ) (c : Call) (frame : Frame) (phase : CallPhase) :
    Advance s (s.send i c frame phase) i c { c with sent := c.sent ++ [frame], phase := phase } :=
  advance_setCall _ rfl

theorem move_advance (s : Server) (i : ℕ) (c : Call) (phase : CallPhase) (idx : Option ℕ) :
    Advance s (s.setCall i { c with phase := phase, idx := idx }) i c
      { c with phase := phase, idx := idx } :=
  advance_setCall _ rfl

theorem leave_advance (s : Server) (i : ℕ) (c : Call) (b : Branch) :
    Advance s (s.leave i c b) i c { c with phase := .closing b } :=
  advance_setCall _ rfl

theorem next_advance (hc : s.calls i = some c) (hd : c.phase.branch = .dispatched d) (idx : ℕ)
    (valid : Bool) : ∃ c', Advance s (s.next i c d idx valid) i c c' ∧ c'.phase = c.phase := by
  unfold next
  split
  · exact ⟨_, (move_advance s i c c.phase (some (idx + 1))).log hd _, rfl⟩
  · exact ⟨c, (advance_refl hc).log hd _, rfl⟩

theorem Advance.next_advance (h : Advance s t i c c') (hd : c'.phase.branch = .dispatched d)
    (idx : ℕ) (valid : Bool) :
    ∃ c'', Advance t (t.next i c' d idx valid) i c' c'' ∧ c''.phase = c'.phase :=
  Server.next_advance (by rw [h.calls, Function.update_self]) hd idx valid

theorem startDrive_advance (s : Server) (i : ℕ) (c : Call) (d : Dispatch) (valid : Bool) :
    ∃ c', Advance s (s.startDrive i c d valid) i c c' ∧ c'.phase.branch = .dispatched d := by
  unfold startDrive
  split_ifs
  · exact ⟨_, (move_advance s i c (.driving d .fast) c.idx).log rfl _, rfl⟩
  · have hstart := move_advance s i c (.driving d .chain) (some 0)
    obtain ⟨c', h, hphase⟩ := hstart.next_advance rfl 0 valid
    exact ⟨c', hstart.trans h (congrArg CallPhase.branch hphase), congrArg CallPhase.branch hphase⟩

theorem dispatch_advance (s : Server) (i : ℕ) (c : Call) (d : Dispatch) (valid : Bool) :
    ∃ c', Advance s (s.dispatch i c d valid) i c c' ∧ c'.phase.branch = .dispatched d := by
  unfold dispatch
  simp only
  split
  · exact ⟨_, (move_advance _ i c (.ready d) c.idx).of_eq rfl rfl, rfl⟩
  · obtain ⟨c', h, hbranch⟩ := startDrive_advance
      (s.setReg d.reg (s.regs d.reg).acquire) i c d valid
    exact ⟨c', h.of_eq rfl rfl, hbranch⟩

/-! ## The gates -/

/-- What can come of a chunk in the read loop. -/
inductive Verdict (rt : Runtime) (s s' : Server) (i : ℕ) (chunk : Bytes) (c c' : Call) : Prop
  /-- There is no request yet, or the stream has ended. -/
  | pending (hbranch : c'.phase.branch = .undecided) (hsent : c'.sent = c.sent)
      (haccounts : s'.accounts = s.accounts)
  /-- The request is malformed, or there is no such handler. -/
  | unserved (hbranch : c'.phase.branch = .failed ∨ c'.phase.branch = .refused .handlerNotFound)
      (haccounts : s'.accounts = s.accounts)
  | denied (d : Dispatch) (hlookup : LooksUp rt s i chunk c.caller d)
      (hauth : (s.regs d.reg).authorized c.caller = false)
      (hbranch : c'.phase.branch = .refused .unauthorized)
      (hsent : c'.sent = c.sent ++ [unauthorizedFrame c.caller d.node])
      (haccounts : s'.accounts = s.accounts)
  | granted (d : Dispatch) (hlookup : LooksUp rt s i chunk c.caller d)
      (hauth : (s.regs d.reg).authorized c.caller = true)
      (hbranch : c'.phase.branch = .dispatched d ∨ c'.phase.branch = .failed ∨
        c'.phase.branch = .refused .rateLimited ∨ c'.phase.branch = .refused .busy)

variable {rt : Runtime}

/-- Past the access list a call is dispatched, or turned away for another reason. -/
theorem passGates_advance (rt : Runtime) (d : Dispatch)
    (hauth : (s.regs d.reg).authorized c.caller = true) (now : Secs)
    (valid : Bool) : ∃ c', Advance s (s.passGates rt i c d now valid) i c c' ∧
      (c'.phase.branch = .dispatched d ∨ c'.phase.branch = .failed ∨
        c'.phase.branch = .refused .rateLimited ∨ c'.phase.branch = .refused .busy) := by
  unfold passGates
  rw [if_neg (by simp [hauth])]
  generalize (s.regs d.reg).consume c.caller now = consumed
  obtain ⟨reg, allowed⟩ := consumed
  simp only
  split_ifs
  · refine ⟨_, (send_advance _ i c _ _).of_eq rfl rfl, ?_⟩
    exact Or.inr (Or.inr (Or.inl rfl))
  · split
    · refine ⟨_, (leave_advance _ i c _).of_eq rfl rfl, ?_⟩
      exact Or.inr (Or.inl rfl)
    · split_ifs
      · refine ⟨_, (send_advance _ i c _ _).of_eq rfl rfl, ?_⟩
        exact Or.inr (Or.inr (Or.inr rfl))
      · obtain ⟨c', h, hbranch⟩ := dispatch_advance _ i c d valid
        exact ⟨c', h.of_eq rfl rfl, Or.inl hbranch⟩

theorem receive_verdict (rt : Runtime) (hc : s.calls i = some c) {buf : Bytes}
    (hphase : c.phase = .reading buf) (chunk : Bytes) (now : Secs) (valid : Bool) :
    ∃ c', Advance s (s.receive rt i c buf chunk now valid) i c c' ∧
      Verdict rt s (s.receive rt i c buf chunk now valid) i chunk c c' := by
  unfold receive
  split_ifs with hchunk
  · exact ⟨_, advance_setCall _ rfl, .pending rfl rfl rfl⟩
  · split
    · exact ⟨_, advance_setCall _ rfl, .pending rfl rfl rfl⟩
    · exact ⟨_, advance_setCall _ rfl, .unserved (Or.inl rfl) rfl⟩
    · rename_i req hload
      unfold handleRequest
      split
      · rename_i fields
        split
        · exact ⟨_, advance_setCall _ rfl, .unserved (Or.inl rfl) rfl⟩
        · exact ⟨_, advance_setCall _ rfl, .unserved (Or.inl rfl) rfl⟩
        · rename_i node hnode
          split
          · rename_i reg hreg
            have hlookup : LooksUp rt s i chunk c.caller ⟨node, reg⟩ :=
              ⟨c, buf, fields, hc, rfl, hphase, hchunk, hload, hnode, hreg⟩
            cases hauth : (s.regs reg).authorized c.caller with
            | true =>
              obtain ⟨c', h, hbranch⟩ := passGates_advance rt ⟨node, reg⟩ hauth now valid
              exact ⟨c', h, .granted _ hlookup hauth hbranch⟩
            | false =>
              rw [passGates, if_pos hauth]
              exact ⟨_, advance_setCall _ rfl, .denied _ hlookup hauth rfl rfl rfl⟩
          · exact ⟨_, advance_setCall _ rfl, .unserved (Or.inr rfl) rfl⟩
        · exact ⟨_, advance_setCall _ rfl, .unserved (Or.inr rfl) rfl⟩
      · exact ⟨_, advance_setCall _ rfl, .unserved (Or.inl rfl) rfl⟩

/-! ## Steps -/

/-- The call keeps to its branch, and changes nothing else if it is not dispatched. -/
structure Kept (s s' : Server) (c c' : Call) : Prop where
  branch : c'.phase.branch = c.phase.branch
  idle : (∀ d, c.phase.branch ≠ .dispatched d) → c'.sent = c.sent ∧ s'.accounts = s.accounts

/-- What an action of the call `i` does. -/
inductive Progress (rt : Runtime) (s s' : Server) (i : ℕ) (a : Action) : Prop
  | accepted (caller : ℕ) (hnone : s.calls i = none)
      (h : s' = s.setCall i ⟨caller, .reading [], none, []⟩)
  | kept (c c' : Call) (hc : s.calls i = some c) (hadv : Advance s s' i c c')
      (hkept : Kept s s' c c')
  | read (c c' : Call) (buf chunk : Bytes) (now : Secs) (valid : Bool)
      (ha : a = .read i chunk now valid) (hc : s.calls i = some c) (hphase : c.phase = .reading buf)
      (hadv : Advance s s' i c c') (hverdict : Verdict rt s s' i chunk c c')

/-- An action of a dispatched call that stays dispatched. -/
theorem progress_of_dispatched {a : Action} (hc : s.calls i = some c) (hadv : Advance s s' i c c')
    (h : c.phase.branch = .dispatched d) (h' : c'.phase.branch = .dispatched d) :
    Progress rt s s' i a :=
  .kept c c' hc hadv ⟨h'.trans h.symm, fun hne => absurd h (hne d)⟩

/-- The call reaches its end. -/
theorem progress_of_leave {a : Action} (hc : s.calls i = some c) {b : Branch}
    (h : c.phase.branch = b) : Progress rt s (s.leave i c b) i a :=
  .kept c _ hc (leave_advance s i c b) ⟨h.symm, fun _ => ⟨rfl, rfl⟩⟩

/-- The dispatch `d` is on. -/
def InDispatch (d : Dispatch) : CallPhase → Prop
  | .ready d' | .driving d' _ | .finishing d' => d' = d
  | _ => False

theorem InDispatch.branch {phase : CallPhase} (h : InDispatch d phase) :
    phase.branch = .dispatched d := by
  cases phase <;> cases h <;> rfl

/-- What an action of the call `i`, which stands as `c`, does where it can be taken. -/
inductive StepCall (rt : Runtime) (s : Server) (i : ℕ) (c : Call) : Action → Server → Prop
  | read {buf chunk : Bytes} {now : Secs} {valid : Bool} (hphase : c.phase = .reading buf) :
    StepCall rt s i c (.read i chunk now valid) (s.receive rt i c buf chunk now valid)
  | start {d : Dispatch} {valid : Bool} (hphase : c.phase = .ready d) :
    StepCall rt s i c (.start i valid) (s.startDrive i c d valid)
  | next {d : Dispatch} {idx : ℕ} {valid : Bool} (hd : c.phase.branch = .dispatched d)
    (hidx : c.idx = some idx) : StepCall rt s i c (.next i valid) (s.next i c d idx valid)
  | handled {d : Dispatch} (hd : c.phase.branch = .dispatched d) :
    StepCall rt s i c (.handled i)
      (s.log i d.reg ((s.regs d.reg).outputModel.toList.map .outputModel))
  | yield {d : Dispatch} {mode : Mode} {value : Json} (hphase : c.phase = .driving d mode) :
    StepCall rt s i c (.yield i value)
      (s.send i c (.ofResult value false) (.driving d mode))
  /-- The last value of the dispatch. -/
  | finish {a : Action} {d : Dispatch} {mode : Mode} {value : Json}
    (ha : a = .exhausted i ∧ value = .null ∨ a = .returned i value)
    (hphase : c.phase = .driving d mode) :
    StepCall rt s i c a (s.send i c (.ofResult value true) (.finishing d))
  | returnedGenerator {d : Dispatch} {body : Bool} (hphase : c.phase = .driving d .chain) :
    StepCall rt s i c (.returnedGenerator i body)
      ((s.setCall i { c with phase := .driving d .collecting }).log i d.reg
        (if body then [.handler (s.regs d.reg).fn.id] else []))
  | completed {d : Dispatch} {elapsed : Secs} (hphase : c.phase = .finishing d) :
    StepCall rt s i c (.completed i elapsed)
      ((s.settle d.reg false elapsed).leave i c (.dispatched d))
  | failed {a : Action} {d : Dispatch} {error : String} {elapsed : Secs}
    (ha : a = .raised i error elapsed ∨ a = .timedOut i elapsed ∨ a = .rejected i error elapsed)
    (hphase : InDispatch d c.phase) : StepCall rt s i c a (s.report i c d error elapsed)
  | cancelled {d : Dispatch} (hphase : InDispatch d c.phase) :
    StepCall rt s i c (.cancelled i)
      ((s.setReg d.reg (s.regs d.reg).release).leave i c (.dispatched d))
  /-- The last frame is sent or given up, -/
  | ending {a : Action} (ha : a = .sent i ∨ a = .aborted i)
    (hphase : ∀ d, ¬InDispatch d c.phase) : StepCall rt s i c a (s.leave i c c.phase.branch)
  /-- and the stream closed. -/
  | close {b : Branch} (hphase : c.phase = .closing b) :
    StepCall rt s i c (.close i) (s.setCall i { c with phase := .closed b })

theorem stepCall_cases {a : Action} (h : s.stepCall rt i c a = some s') (ha : a.call? = some i) :
    StepCall rt s i c a s' := by
  have hends {phase : CallPhase} (hphase : c.phase = phase) (hd : ∀ d, ¬InDispatch d phase)
      (ha : a = .sent i ∨ a = .aborted i) : StepCall rt s i c a (s.leave i c phase.branch) := by
    subst hphase
    exact .ending ha hd
  have hin {d : Dispatch} {phase : CallPhase} (hphase : c.phase = phase) (hd : InDispatch d phase) :
      InDispatch d c.phase := hphase ▸ hd
  cases a with
  | read j chunk now valid =>
    obtain rfl : j = i := Option.some.inj ha
    simp only [stepCall] at h
    split at h <;> cases h
    exact .read ‹_›
  | start j valid =>
    obtain rfl : j = i := Option.some.inj ha
    simp only [stepCall] at h
    split at h <;> cases h
    exact .start ‹_›
  | next j valid =>
    obtain rfl : j = i := Option.some.inj ha
    simp only [stepCall] at h
    split at h <;> cases h
    exact .next ‹_› ‹_›
  | handled j =>
    obtain rfl : j = i := Option.some.inj ha
    simp only [stepCall] at h
    split at h <;> cases h
    exact .handled ‹_›
  | yield j value =>
    obtain rfl : j = i := Option.some.inj ha
    simp only [stepCall] at h
    split at h <;> cases h <;> exact .yield ‹_›
  | exhausted j =>
    obtain rfl : j = i := Option.some.inj ha
    simp only [stepCall] at h
    split at h <;> cases h <;> exact .finish (Or.inl ⟨rfl, rfl⟩) ‹_›
  | returned j value =>
    obtain rfl : j = i := Option.some.inj ha
    simp only [stepCall] at h
    split at h <;> cases h
    exact .finish (Or.inr rfl) ‹_›
  | returnedGenerator j body =>
    obtain rfl : j = i := Option.some.inj ha
    simp only [stepCall] at h
    split at h <;> cases h
    exact .returnedGenerator ‹_›
  | completed j elapsed =>
    obtain rfl : j = i := Option.some.inj ha
    simp only [stepCall] at h
    split at h <;> cases h
    exact .completed ‹_›
  | raised j error elapsed =>
    obtain rfl : j = i := Option.some.inj ha
    simp only [stepCall] at h
    split at h <;> cases h
    all_goals
      rename_i hphase
      exact .failed (Or.inl rfl) (hin hphase rfl)
  | timedOut j elapsed =>
    obtain rfl : j = i := Option.some.inj ha
    simp only [stepCall] at h
    split at h <;> cases h
    all_goals
      rename_i hphase
      exact .failed (Or.inr (Or.inl rfl)) (hin hphase rfl)
  | rejected j error elapsed =>
    obtain rfl : j = i := Option.some.inj ha
    simp only [stepCall] at h
    split at h <;> cases h
    rename_i hphase
    exact .failed (Or.inr (Or.inr rfl)) (hin hphase rfl)
  | cancelled j =>
    obtain rfl : j = i := Option.some.inj ha
    simp only [stepCall] at h
    split at h <;> cases h
    all_goals
      rename_i hphase
      exact .cancelled (hin hphase rfl)
  | sent j =>
    obtain rfl : j = i := Option.some.inj ha
    simp only [stepCall] at h
    split at h <;> cases h
    all_goals
      rename_i hphase
      exact hends hphase (fun _ hd => hd) (Or.inl rfl)
  | aborted j =>
    obtain rfl : j = i := Option.some.inj ha
    simp only [stepCall] at h
    split at h <;> cases h
    all_goals
      rename_i hphase
      exact hends hphase (fun _ hd => hd) (Or.inr rfl)
  | close j =>
    obtain rfl : j = i := Option.some.inj ha
    simp only [stepCall] at h
    split at h <;> cases h
    exact .close ‹_›
  | _ => simp [stepCall] at h

theorem stepCall_progress {a : Action} (hc : s.calls i = some c)
    (h : s.stepCall rt i c a = some s') (ha : a.call? = some i) : Progress rt s s' i a := by
  cases stepCall_cases h ha with
  | @read buf chunk now valid hphase =>
    obtain ⟨c', hadv, hverdict⟩ := receive_verdict rt hc hphase chunk now valid
    exact .read c c' buf chunk now valid rfl hc hphase hadv hverdict
  | @start d valid hphase =>
    obtain ⟨c', hadv, hbranch⟩ := startDrive_advance s i c d valid
    exact progress_of_dispatched hc hadv (by rw [hphase]; rfl) hbranch
  | @next d idx valid hd hidx =>
    obtain ⟨c', hadv, hphase⟩ := next_advance hc hd idx valid
    exact progress_of_dispatched hc hadv hd (by rw [hphase, hd])
  | handled hd => exact progress_of_dispatched hc ((advance_refl hc).log hd _) hd hd
  | yield hphase | finish _ hphase =>
    exact progress_of_dispatched hc (send_advance ..) (by rw [hphase]; rfl) rfl
  | @returnedGenerator d body hphase =>
    have hadv := move_advance s i c (.driving d .collecting) c.idx
    exact progress_of_dispatched hc (hadv.log rfl _) (by rw [hphase]; rfl) rfl
  | completed hphase =>
    exact progress_of_dispatched hc ((leave_advance ..).of_eq rfl rfl) (by rw [hphase]; rfl) rfl
  | failed _ hphase =>
    exact progress_of_dispatched hc ((send_advance ..).of_eq rfl rfl) hphase.branch rfl
  | cancelled hphase =>
    exact progress_of_dispatched hc ((leave_advance ..).of_eq rfl rfl) hphase.branch rfl
  | ending => exact progress_of_leave hc rfl
  | @close b hphase =>
    exact .kept c _ hc (move_advance s i c (.closed b) c.idx)
      ⟨by rw [hphase]; rfl, fun _ => ⟨rfl, rfl⟩⟩

theorem registerMany_calls (mapping : List (String × (Handler ⊕ ℕ))) (s : Server) :
    (s.registerMany mapping).calls = s.calls ∧ (s.registerMany mapping).events = s.events := by
  induction mapping generalizing s with
  | nil => exact ⟨rfl, rfl⟩
  | cons entry mapping ih =>
    obtain ⟨name, fn | id⟩ := entry
    · exact ih (s.register name fn {})
    · exact ih (s.bind name id)

theorem authorize_calls (s : Server) (name : String) (allow : List ℕ) :
    (s.authorize name allow).calls = s.calls ∧ (s.authorize name allow).events = s.events := by
  unfold authorize
  split <;> exact ⟨rfl, rfl⟩

theorem registerMany_middleware (mapping : List (String × (Handler ⊕ ℕ))) (s : Server) :
    (s.registerMany mapping).middleware = s.middleware := by
  induction mapping generalizing s with
  | nil => rfl
  | cons entry mapping ih =>
    rw [registerMany, List.foldl_cons, ← registerMany, ih]
    cases entry.2 <;> rfl

theorem authorize_middleware (s : Server) (name : String) (allow : List ℕ) :
    (s.authorize name allow).middleware = s.middleware := by
  unfold authorize
  split <;> rfl

/-- A step is an operation on the registry, which leaves the calls and only adds to the
middleware, the arrival of a request, or an action of a call that has started. -/
theorem step_split {a : Action} (h : s.step rt a = some s') :
    (a.call? = none ∧ s'.calls = s.calls ∧ s'.events = s.events ∧
      s.middleware <+: s'.middleware) ∨
    (∃ i caller, a.call? = some i ∧ s.calls i = none ∧
      s' = s.setCall i ⟨caller, .reading [], none, []⟩) ∨
    ∃ i c, a.call? = some i ∧ s.calls i = some c ∧ s.stepCall rt i c a = some s' := by
  cases a with
  | create fn o =>
    cases h
    exact Or.inl ⟨rfl, rfl, rfl, List.prefix_refl _⟩
  | register name fn o =>
    cases h
    exact Or.inl ⟨rfl, rfl, rfl, List.prefix_refl _⟩
  | registerMany mapping =>
    simp only [step] at h
    split_ifs at h
    cases h
    obtain ⟨hcalls, hevents⟩ := registerMany_calls mapping s
    exact Or.inl ⟨rfl, hcalls, hevents, by simp [registerMany_middleware]⟩
  | clearUserHandlers =>
    cases h
    exact Or.inl ⟨rfl, rfl, rfl, List.prefix_refl _⟩
  | authorize name allow =>
    cases h
    obtain ⟨hcalls, hevents⟩ := authorize_calls s name allow
    exact Or.inl ⟨rfl, hcalls, hevents, by simp [authorize_middleware]⟩
  | use mw =>
    cases h
    exact Or.inl ⟨rfl, rfl, rfl, List.prefix_append _ _⟩
  | accept i peer =>
    simp only [step] at h
    split_ifs at h with hnone
    cases h
    exact Or.inr (Or.inl ⟨i, _, rfl, by simpa using hnone, rfl⟩)
  | _ =>
    obtain ⟨c, hc, hstep⟩ := Option.bind_eq_some_iff.1 h
    exact Or.inr (Or.inr ⟨_, c, rfl, hc, hstep⟩)

/-- A step is an operation on the registry, or belongs to a call. -/
theorem step_cases {a : Action} (h : s.step rt a = some s') :
    (a.call? = none ∧ s'.calls = s.calls ∧ s'.events = s.events) ∨
      ∃ i, a.call? = some i ∧ Progress rt s s' i a := by
  rcases step_split h with ⟨hcall, hcalls, hevents, -⟩ | ⟨i, caller, hi, hnone, rfl⟩ |
    ⟨i, c, hi, hc, hstep⟩
  · exact Or.inl ⟨hcall, hcalls, hevents⟩
  · exact Or.inr ⟨i, hi, .accepted caller hnone rfl⟩
  · exact Or.inr ⟨i, hi, stepCall_progress hc hstep hi⟩

/-! ## Runs -/

theorem Progress.calls_of_ne {a : Action} {j : ℕ} (h : Progress rt s s' j a) (hij : i ≠ j) :
    s'.calls i = s.calls i := by
  cases h with
  | accepted caller hnone h =>
    rw [h]
    exact Function.update_of_ne hij _ _
  | kept c c' hc hadv hkept => rw [hadv.calls, Function.update_of_ne hij]
  | read c c' buf chunk now valid ha hc hphase hadv hverdict =>
    rw [hadv.calls, Function.update_of_ne hij]

/-- A call that has taken a branch stays on it, and without a dispatch it sends no more. -/
theorem branch_step {a : Action} (h : s.step rt a = some s') (hc : s.calls i = some c)
    (hne : c.phase.branch ≠ .undecided) :
    ∃ c', s'.calls i = some c' ∧ c'.phase.branch = c.phase.branch ∧
      ((∀ d, c.phase.branch ≠ .dispatched d) → c'.sent = c.sent) := by
  rcases step_cases h with ⟨-, hcalls, -⟩ | ⟨j, -, hprogress⟩
  · exact ⟨c, by rw [hcalls, hc], rfl, fun _ => rfl⟩
  · by_cases hij : i = j
    · subst hij
      cases hprogress with
      | accepted caller hnone h =>
        rw [hnone] at hc
        cases hc
      | kept c₀ c' hc₀ hadv hkept =>
        obtain rfl : c₀ = c := Option.some.inj (hc₀.symm.trans hc)
        exact ⟨c', by rw [hadv.calls, Function.update_self], hkept.branch,
          fun hd => (hkept.idle hd).1⟩
      | read c₀ c' buf chunk now valid ha hc₀ hphase hadv hverdict =>
        obtain rfl : c₀ = c := Option.some.inj (hc₀.symm.trans hc)
        exact absurd (by rw [hphase]; rfl) hne
    · exact ⟨c, by rw [hprogress.calls_of_ne hij, hc], rfl, fun _ => rfl⟩

theorem branch_run {as : List Action} (hrun : Machine.run (step rt) s as = some s')
    (hc : s.calls i = some c) (hne : c.phase.branch ≠ .undecided) :
    ∃ c', s'.calls i = some c' ∧ c'.phase.branch = c.phase.branch ∧
      ((∀ d, c.phase.branch ≠ .dispatched d) → c'.sent = c.sent) := by
  refine Machine.run_induction (fun _ s => ∃ c', s.calls i = some c' ∧
    c'.phase.branch = c.phase.branch ∧ ((∀ d, c.phase.branch ≠ .dispatched d) → c'.sent = c.sent))
    ⟨c, hc, rfl, fun _ => rfl⟩ ?_ hrun
  rintro as t a t' - ⟨c₁, hc₁, hbranch, hsent⟩ hstep
  obtain ⟨c₂, hc₂, hbranch₂, hsent₂⟩ := branch_step hstep hc₁ (by rwa [hbranch])
  rw [hbranch] at hbranch₂ hsent₂
  exact ⟨c₂, hc₂, hbranch₂, fun hd => (hsent₂ hd).trans (hsent hd)⟩

/-- Only a dispatched call, or one that has passed the access list, touches the accounts. -/
theorem Progress.accounts_eq {a : Action} (h : Progress rt s s' i a) (hc : s'.calls i = some c)
    (hbranch : c.phase.branch = .undecided ∨ c.phase.branch = .refused .unauthorized) :
    s'.accounts = s.accounts := by
  have self : ∀ {c₁ c₂}, Advance s s' i c₁ c₂ → c₂ = c := by
    intro c₁ c₂ hadv
    rw [hadv.calls, Function.update_self] at hc
    exact Option.some.inj hc
  cases h with
  | accepted caller hnone h =>
    rw [h]
    rfl
  | kept c₁ c₂ hc₁ hadv hkept =>
    obtain rfl := self hadv
    refine (hkept.idle fun d hd => ?_).2
    rw [hkept.branch, hd] at hbranch
    simp at hbranch
  | read c₁ c₂ buf chunk now valid ha hc₁ hphase hadv hverdict =>
    obtain rfl := self hadv
    cases hverdict with
    | pending _ _ haccounts => exact haccounts
    | unserved _ haccounts => exact haccounts
    | denied _ _ _ _ _ haccounts => exact haccounts
    | granted d _ _ hgranted =>
      rcases hbranch with hb | hb <;> rw [hb] at hgranted <;> simp at hgranted

/-- Some read in the run completed the request of the call `i`, and the registration found
for it let the caller in. -/
def Granted (rt : Runtime) (mws : List ℕ) (as : List Action) (i : ℕ) (d : Dispatch) : Prop :=
  ∃ as₁ chunk now valid as₂ s₁ caller, as = as₁ ++ .read i chunk now valid :: as₂ ∧
    Machine.run (step rt) (init mws) as₁ = some s₁ ∧ s₁.LooksUp rt i chunk caller d ∧
    (s₁.regs d.reg).authorized caller = true

theorem Granted.append {mws : List ℕ} {as : List Action} (h : Granted rt mws as i d)
    (bs : List Action) : Granted rt mws (as ++ bs) i d := by
  obtain ⟨as₁, chunk, now, valid, as₂, s₁, caller, rfl, h⟩ := h
  exact ⟨as₁, chunk, now, valid, as₂ ++ bs, s₁, caller, by simp, h⟩

/-- Every dispatched call was let in, user code runs for dispatched calls only, and a call
that is still reading has sent nothing. -/
structure Guarded (rt : Runtime) (mws : List ℕ) (as : List Action) (s : Server) : Prop where
  granted : ∀ i c d, s.calls i = some c → c.phase.branch = .dispatched d → Granted rt mws as i d
  events : ∀ e ∈ s.events, ∃ c d, s.calls e.call = some c ∧ c.phase.branch = .dispatched d ∧
    e.reg = d.reg
  unsent : ∀ i c, s.calls i = some c → c.phase.branch = .undecided → c.sent = []

theorem guarded_init (rt : Runtime) (mws : List ℕ) : Guarded rt mws [] (init mws) where
  granted _ _ _ hc := by cases hc
  events e he := by cases he
  unsent _ _ hc := by cases hc

theorem Guarded.registry {mws : List ℕ} {as : List Action} (h : Guarded rt mws as s) (a : Action)
    (hcalls : s'.calls = s.calls) (hevents : s'.events = s.events) :
    Guarded rt mws (as ++ [a]) s' where
  granted i c d hc hd := (h.granted i c d (by rw [← hcalls, hc]) hd).append [a]
  events e he := by
    rw [hcalls]
    exact h.events e (by rwa [← hevents])
  unsent i c hc := h.unsent i c (by rw [← hcalls, hc])

/-- A step of the call `i` keeps the state guarded if its new branch is accounted for. -/
theorem Guarded.update {mws : List ℕ} {as : List Action} (h : Guarded rt mws as s) (a : Action)
    (hcalls : s'.calls = Function.update s.calls i (some c'))
    (hevents : ∃ new, s'.events = s.events ++ new ∧ ∀ e ∈ new, e.call = i ∧
      ∃ d, c'.phase.branch = .dispatched d ∧ e.reg = d.reg)
    (hgranted : ∀ d, c'.phase.branch = .dispatched d → Granted rt mws (as ++ [a]) i d)
    (hold : ∀ c d, s.calls i = some c → c.phase.branch = .dispatched d →
      c'.phase.branch = .dispatched d)
    (hunsent : c'.phase.branch = .undecided → c'.sent = []) : Guarded rt mws (as ++ [a]) s' := by
  have hself : s'.calls i = some c' := by rw [hcalls, Function.update_self]
  have hother : ∀ j, j ≠ i → s'.calls j = s.calls j := fun j hj => by
    rw [hcalls, Function.update_of_ne hj]
  refine ⟨fun j cj d hcj hd => ?_, fun e he => ?_, fun j cj hcj hb => ?_⟩
  · by_cases hj : j = i
    · subst hj
      obtain rfl : c' = cj := Option.some.inj (hself.symm.trans hcj)
      exact hgranted d hd
    · exact (h.granted j cj d (by rw [← hother j hj, hcj]) hd).append [a]
  · obtain ⟨new, hnew, hmem⟩ := hevents
    rw [hnew] at he
    rcases List.mem_append.1 he with he | he
    · obtain ⟨ce, d, hce, hd, hreg⟩ := h.events e he
      by_cases hj : e.call = i
      · rw [hj] at hce
        exact ⟨c', d, by rw [hj, hself], hold ce d hce hd, hreg⟩
      · exact ⟨ce, d, by rw [hother _ hj, hce], hd, hreg⟩
    · obtain ⟨hj, d, hd, hreg⟩ := hmem e he
      exact ⟨c', d, by rw [hj, hself], hd, hreg⟩
  · by_cases hj : j = i
    · subst hj
      obtain rfl : c' = cj := Option.some.inj (hself.symm.trans hcj)
      exact hunsent hb
    · exact h.unsent j cj (by rw [← hother j hj, hcj]) hb

theorem Guarded.step {mws : List ℕ} {as : List Action} {a : Action}
    (hrun : Machine.run (Server.step rt) (init mws) as = some s) (h : Guarded rt mws as s)
    (hstep : s.step rt a = some s') : Guarded rt mws (as ++ [a]) s' := by
  rcases step_cases hstep with ⟨-, hcalls, hevents⟩ | ⟨i, -, hprogress⟩
  · exact h.registry a hcalls hevents
  cases hprogress with
  | accepted caller hnone hs' =>
    subst hs'
    refine h.update a rfl ⟨[], (List.append_nil _).symm, by simp⟩ (fun d hd => by cases hd)
      (fun c d hc => ?_) fun _ => rfl
    rw [hnone] at hc
    cases hc
  | kept c c' hc hadv hkept =>
    refine h.update a hadv.calls hadv.events (fun d hd => ?_) (fun c₀ d hc₀ hd => ?_) fun hb => ?_
    · exact (h.granted i c d hc (by rw [← hkept.branch, hd])).append [a]
    · obtain rfl : c = c₀ := Option.some.inj (hc.symm.trans hc₀)
      rw [hkept.branch, hd]
    · rw [hkept.branch] at hb
      rw [(hkept.idle (by simp [hb])).1, h.unsent i c hc hb]
  | read c c' buf chunk now valid ha hc hphase hadv hverdict =>
    have hundecided : c.phase.branch = .undecided := by rw [hphase]; rfl
    refine h.update a hadv.calls hadv.events (fun d hd => ?_) (fun c₀ d hc₀ hd => ?_) fun hb => ?_
    · cases hverdict with
      | pending hb => simp [hb] at hd
      | unserved hb => rcases hb with hb | hb <;> simp [hb] at hd
      | denied _ _ _ hb => simp [hb] at hd
      | granted d' hlookup hauth hb =>
        obtain rfl : d' = d := by simpa [hd, eq_comm] using hb
        exact ⟨as, chunk, now, valid, [], s, c.caller, by rw [ha], hrun, hlookup, hauth⟩
    · obtain rfl : c = c₀ := Option.some.inj (hc.symm.trans hc₀)
      simp [hundecided] at hd
    · cases hverdict with
      | pending _ hsent => rw [hsent, h.unsent i c hc hundecided]
      | unserved hb' => rcases hb' with hb' | hb' <;> simp [hb'] at hb
      | denied _ _ _ hb' => simp [hb'] at hb
      | granted _ _ _ hb' => simp [hb] at hb'

theorem guarded_run {mws : List ℕ} {as : List Action}
    (hrun : Machine.run (step rt) (init mws) as = some s) : Guarded rt mws as s :=
  Machine.run_induction (Guarded rt mws) (guarded_init rt mws)
    (fun hrun h hstep => h.step hrun hstep) hrun

theorem Progress.exists_call {a : Action} (h : Progress rt s s' i a) :
    ∃ c, s'.calls i = some c := by
  cases h with
  | accepted caller hnone h =>
    rw [h]
    exact ⟨_, Function.update_self ..⟩
  | kept c c' hc hadv hkept => exact ⟨c', by rw [hadv.calls, Function.update_self]⟩
  | read c c' buf chunk now valid ha hc hphase hadv hverdict =>
    exact ⟨c', by rw [hadv.calls, Function.update_self]⟩

/-- No action of a call that ends up denied touches the accounts. -/
theorem accounts_of_refused {mws : List ℕ} {bs cs : List Action} {b : Action} {t' : Server}
    (hrun : Machine.run (step rt) (init mws) (bs ++ b :: cs) = some s) (hc : s.calls i = some c)
    (hbranch : c.phase.branch = .refused .unauthorized) (hb : b.call? = some i)
    (ht : Machine.run (step rt) (init mws) bs = some t) (hstep : t.step rt b = some t') :
    t'.accounts = t.accounts := by
  obtain ⟨t₁, t₂, ht₁, hstep₁, hrest⟩ := Machine.run_split hrun
  obtain rfl : t = t₁ := Option.some.inj (ht.symm.trans ht₁)
  obtain rfl : t' = t₂ := Option.some.inj (hstep.symm.trans hstep₁)
  rcases step_cases hstep with ⟨hnone, -⟩ | ⟨j, hj, hprogress⟩
  · rw [hnone] at hb
    cases hb
  · obtain rfl : j = i := Option.some.inj (hj.symm.trans hb)
    obtain ⟨c₁, hc₁⟩ := hprogress.exists_call
    by_cases hundecided : c₁.phase.branch = .undecided
    · exact hprogress.accounts_eq hc₁ (Or.inl hundecided)
    · obtain ⟨c₂, hc₂, hbranch₂, -⟩ := branch_run hrest hc₁ hundecided
      obtain rfl : c₂ = c := Option.some.inj (hc₂.symm.trans hc)
      exact hprogress.accounts_eq hc₁ (Or.inr (by rw [← hbranch₂, hbranch]))

/-- A step of a call that has started. -/
theorem step_of_stepCall {a : Action} (hc : s.calls i = some c) (ha : a.call? = some i)
    (h : s.stepCall rt i c a = some s') : s.step rt a = some s' := by
  cases a with
  | create | register | registerMany | clearUserHandlers | authorize | use => cases ha
  | accept => cases h
  | _ =>
    obtain rfl := Option.some.inj ha
    simp only [step, Action.call?, Option.bind_some, hc, h]

theorem step_read {buf chunk : Bytes} {req : Json} {now : Secs} {valid : Bool}
    (hc : s.calls i = some c) (hphase : c.phase = .reading buf) (hchunk : chunk ≠ [])
    (hload : rt.loads (buf ++ chunk) = .value req) :
    s.step rt (.read i chunk now valid) = some (s.handleRequest rt i c req now valid) := by
  refine step_of_stepCall hc rfl ?_
  simp only [stepCall, hphase, receive, if_neg hchunk, hload]

/-- The read that is turned away by the access list. -/
theorem denied_of_lookup {chunk : Bytes} {caller : ℕ} {now : Secs} {valid : Bool}
    (hlookup : s.LooksUp rt i chunk caller d) (hauth : (s.regs d.reg).authorized caller = false)
    (hstep : s.step rt (.read i chunk now valid) = some s')
    (hunsent : ∀ c, s.calls i = some c → c.phase.branch = .undecided → c.sent = []) :
    ∃ c', s'.calls i = some c' ∧ c'.phase.branch = .refused .unauthorized ∧
      c'.sent = [unauthorizedFrame caller d.node] := by
  obtain ⟨c, buf, fields, hc, rfl, hphase, hchunk, hload, hnode, hreg⟩ := hlookup
  have hs' : s' = s.send i c (unauthorizedFrame c.caller d.node) (.refusing .unauthorized) := by
    rw [step_read hc hphase hchunk hload] at hstep
    simp only [handleRequest, hnode, hreg, passGates, if_pos hauth, Option.some.injEq] at hstep
    exact hstep.symm
  have hnil : c.sent = [] := hunsent c hc (by rw [hphase]; rfl)
  refine ⟨_, by rw [hs']; exact Function.update_self .., rfl, ?_⟩
  simp [hnil]

/-- User code runs for a call only if the registration looked up for its request had no
access list, or the caller on it, at that moment. A call that the list turns away sends
one frame, runs no user code, and changes no counter, rate window or semaphore. -/
theorem access_control (rt : Runtime) (mws : List ℕ) (as : List Action) (s : Server)
    (hrun : Machine.run (step rt) (init mws) as = some s) :
    (∀ e ∈ s.events, ∃ as₁ chunk now valid as₂ s₁ caller d,
      as = as₁ ++ .read e.call chunk now valid :: as₂ ∧
      Machine.run (step rt) (init mws) as₁ = some s₁ ∧ s₁.LooksUp rt e.call chunk caller d ∧
      e.reg = d.reg ∧ ((s₁.regs d.reg).allow = none ∨
        ∃ allow, (s₁.regs d.reg).allow = some allow ∧ caller ∈ allow)) ∧
    ∀ as₁ i chunk now valid as₂ s₁ caller d, as = as₁ ++ .read i chunk now valid :: as₂ →
      Machine.run (step rt) (init mws) as₁ = some s₁ → s₁.LooksUp rt i chunk caller d →
      (s₁.regs d.reg).authorized caller = false →
      (∃ c, s.calls i = some c ∧ c.sent = [unauthorizedFrame caller d.node]) ∧
      (∀ e ∈ s.events, e.call ≠ i) ∧
      ∀ bs b cs t t', as = bs ++ b :: cs → b.call? = some i →
        Machine.run (step rt) (init mws) bs = some t → step rt t b = some t' →
        t'.accounts = t.accounts := by
  have hguarded := guarded_run hrun
  refine ⟨fun e he => ?_, ?_⟩
  · obtain ⟨c, d, hc, hd, hreg⟩ := hguarded.events e he
    obtain ⟨as₁, chunk, now, valid, as₂, s₁, caller, has, hrun₁, hlookup, hauth⟩ :=
      hguarded.granted e.call c d hc hd
    exact ⟨as₁, chunk, now, valid, as₂, s₁, caller, d, has, hrun₁, hlookup, hreg,
      (Registration.authorized_iff _ _).1 hauth⟩
  · rintro as₁ i chunk now valid as₂ s₁ caller d rfl hrun₁ hlookup hauth
    obtain ⟨t₁, t₂, ht₁, hread, hrun₂⟩ := Machine.run_split hrun
    obtain rfl : s₁ = t₁ := Option.some.inj (hrun₁.symm.trans ht₁)
    obtain ⟨c₂, hc₂, hbranch₂, hsent₂⟩ := denied_of_lookup hlookup hauth hread
      ((guarded_run hrun₁).unsent i)
    obtain ⟨c, hc, hbranch, hsent⟩ := branch_run hrun₂ hc₂ (by simp [hbranch₂])
    rw [hbranch₂] at hbranch hsent
    refine ⟨⟨c, hc, by rw [hsent (by simp), hsent₂]⟩, fun e he hei => ?_, ?_⟩
    · obtain ⟨ce, de, hce, hde, -⟩ := hguarded.events e he
      obtain rfl : ce = c := Option.some.inj (hce.symm.trans (by rw [hei, hc]))
      simp [hbranch] at hde
    · intro bs b cs t t' has hb ht hstep
      rw [has] at hrun
      exact accounts_of_refused hrun hc hbranch hb ht hstep

end

/-! ## Two callers -/

/-- A runtime with the JSON reader of the library. -/
def plainRuntime : Runtime where
  loads := Json.loads
  str v :=
    match v with
    | .str s => s
    | v => String.ofList (Json.dumps Json.spaced v)
  formatG q := toString q
  strSecs q := (q.map toString).getD "None"

theorem plainRuntime_loads : plainRuntime.loads = Json.loads :=
  rfl

/-- A request for the node `enrich`. -/
def enrichRequest : Frame :=
  [("node", .str "enrich"), ("payload", .null)]

/-- `enrich`, with an access list. -/
def enrichOptions : Options :=
  { allow := some [7] }

def enrichHandler : Handler :=
  ⟨40, .coroutine, some ⟨1, false⟩⟩

/-- `enrich` lets in the node 7, which calls it; the node 8 connects. -/
def twoCallers : List Action :=
  [.register "enrich" enrichHandler enrichOptions, .accept 0 (some ⟨1, 7⟩),
    .read 0 enrichRequest.text 0 true, .accept 1 (some ⟨1, 8⟩)]

/-- A request for any node. -/
def nodeRequest (node : String) : Frame :=
  [("node", .str node), ("payload", .null)]

theorem loads_nodeRequest (node : String) :
    plainRuntime.loads ([] ++ (nodeRequest node).text) = .value (.obj (nodeRequest node)) := by
  have hwf : (Json.obj (nodeRequest node)).WF := by
    simp [nodeRequest, Json.WF, Json.WFMembers, Assoc.keys]
  rw [List.nil_append, plainRuntime_loads, Frame.loads_text hwf]

theorem step_read_nodeRequest (node : String) {s : Server} {i : ℕ} {c : Call}
    (hc : s.calls i = some c) (hphase : c.phase = .reading []) :
    s.step plainRuntime (.read i (nodeRequest node).text 0 true) =
      some (s.handleRequest plainRuntime i c (.obj (nodeRequest node)) 0 true) :=
  step_read hc hphase (nodeRequest node).text_ne_nil (loads_nodeRequest node)

theorem loads_enrichRequest :
    plainRuntime.loads ([] ++ enrichRequest.text) = .value (.obj enrichRequest) :=
  loads_nodeRequest "enrich"

theorem step_read_enrichRequest {s : Server} {i : ℕ} {c : Call} (hc : s.calls i = some c)
    (hphase : c.phase = .reading []) :
    s.step plainRuntime (.read i enrichRequest.text 0 true) =
      some (s.handleRequest plainRuntime i c (.obj enrichRequest) 0 true) :=
  step_read_nodeRequest "enrich" hc hphase

theorem access_control_twoCallers :
    ∃ s, Machine.run (step plainRuntime) (init [])
        (twoCallers ++ [.read 1 enrichRequest.text 0 true]) = some s ∧
      s.events = [⟨0, 2, .handler 40⟩] ∧
      ∃ c, s.calls 1 = some c ∧ c.sent = [unauthorizedFrame 8 "enrich"] := by
  let s₁ := ((init []).register "enrich" enrichHandler enrichOptions).setCall 0
    ⟨7, .reading [], none, []⟩
  let s₂ := s₁.handleRequest plainRuntime 0 ⟨7, .reading [], none, []⟩ (.obj enrichRequest) 0 true
  let s₃ := s₂.setCall 1 ⟨8, .reading [], none, []⟩
  let s₄ := s₃.handleRequest plainRuntime 1 ⟨8, .reading [], none, []⟩ (.obj enrichRequest) 0 true
  have hregister : (init []).step plainRuntime (.register "enrich" enrichHandler enrichOptions) =
      some ((init []).register "enrich" enrichHandler enrichOptions) := rfl
  have haccept₁ : ((init []).register "enrich" enrichHandler enrichOptions).step plainRuntime
      (.accept 0 (some ⟨1, 7⟩)) = some s₁ := rfl
  have hread₁ : s₁.step plainRuntime (.read 0 enrichRequest.text 0 true) = some s₂ :=
    step_read_enrichRequest rfl rfl
  have haccept₂ : s₂.step plainRuntime (.accept 1 (some ⟨1, 8⟩)) = some s₃ := rfl
  have hread₂ : s₃.step plainRuntime (.read 1 enrichRequest.text 0 true) = some s₄ :=
    step_read_enrichRequest rfl rfl
  have hconnected : Machine.run (step plainRuntime) (init []) twoCallers = some s₃ := by
    rw [twoCallers, Machine.run_of_step hregister, Machine.run_of_step haccept₁,
      Machine.run_of_step hread₁, Machine.run_of_step haccept₂, Machine.run]
  have hrun : Machine.run (step plainRuntime) (init [])
      (twoCallers ++ [.read 1 enrichRequest.text 0 true]) = some s₄ := by
    rw [Machine.run_append, hconnected, Option.bind_some, Machine.run_of_step hread₂, Machine.run]
  have hlookup : s₃.LooksUp plainRuntime 1 enrichRequest.text 8 ⟨"enrich", 2⟩ :=
    ⟨⟨8, .reading [], none, []⟩, [], enrichRequest, rfl, rfl, rfl, enrichRequest.text_ne_nil,
      loads_enrichRequest, rfl, rfl⟩
  exact ⟨s₄, hrun, rfl, ((access_control plainRuntime [] _ s₄ hrun).2 twoCallers 1
    enrichRequest.text 0 true [] s₃ 8 ⟨"enrich", 2⟩ rfl hconnected hlookup rfl).1⟩

end Server

end PilotLanggraph

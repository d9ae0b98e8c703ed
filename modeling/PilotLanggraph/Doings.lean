import PilotLanggraph.Answers

/-!
# What was done, and what is told of it

`Doing` is what the code behind a call does on the worker, as far as its caller can see : it yields
values and ends, by itself, with a result or with an exception. The worker tells the caller about it
in frames. `told_run` says, of every run in which nothing cuts the call off, that the frames of a
call that was dispatched are exactly what its code has done, in order, and for the node that was
asked for; those of a call that was refused are a single error.
-/

namespace PilotLanggraph

/-! ## What the code of a call does -/

/-- What a handler and its middlewares do that the caller can see. -/
inductive Doing
  | yielded (value : Json)
  | exhausted
  | returned (value : Json)
  /-- An exception, by its name and text, or a timeout. -/
  | failed (error : String)

namespace Doing

/-- The frame `_handle_one` writes for it. -/
def frame : Doing → Frame
  | yielded value => .ofResult value false
  | exhausted => .ofResult .null true
  | returned value => .ofResult value true
  | failed error => .ofError "handler_error" error

/-- Values so far. -/
def Ongoing (doings : List Doing) : Prop :=
  ∃ values : List Json, doings = values.map yielded

/-- Values, and then an end. -/
def Over (doings : List Doing) : Prop :=
  ∃ (values : List Json) (last : Doing),
    doings = values.map yielded ++ [last] ∧ ∀ value, last ≠ yielded value

theorem done_frame_of_ne {doing : Doing} (h : ∀ value, doing ≠ yielded value) :
    Assoc.get? "done" doing.frame = some (.bool true) := by
  cases doing with
  | yielded value => exact absurd rfl (h value)
  | _ => rfl

end Doing

/-- The `error_type` of a refusal. -/
def Refusal.errorType : Refusal → String
  | .handlerNotFound => "handler_not_found"
  | .unauthorized => "unauthorized"
  | .rateLimited | .busy => "rate_limited"

/-- The class a caller should get for it. -/
def Refusal.errorClass : Refusal → RemoteErrorClass
  | .handlerNotFound => .handlerNotFound
  | .unauthorized => .unauthorized
  | .rateLimited | .busy => .rateLimited

namespace Server

/-- The text of a timeout. -/
def timeoutText (rt : Runtime) (r : Registration) : String :=
  "timeout after " ++ rt.strSecs r.timeoutSecs ++ "s"

/-- What the code of the call `i` does with an action. -/
def did? (rt : Runtime) (i : ℕ) (s : Server) : Action → Option Doing
  | .yield j value => if j = i then some (.yielded value) else none
  | .exhausted j => if j = i then some .exhausted else none
  | .returned j value => if j = i then some (.returned value) else none
  | .raised j error _ | .rejected j error _ => if j = i then some (.failed error) else none
  | .timedOut j _ =>
    if j = i then
      (s.calls i).bind fun c => c.phase.running?.map fun id => .failed (timeoutText rt (s.regs id))
    else none
  | _ => none

/-- What it does in a run. -/
def doings (rt : Runtime) (i : ℕ) (s : Server) (as : List Action) : List Doing :=
  Machine.outputs (step rt) (did? rt i) s as

variable {rt : Runtime} {s s' : Server} {i : ℕ} {c c' : Call} {a : Action} {text : Bytes}
  {ds : List Doing}

theorem did?_of_call?_ne (h : a.call? ≠ some i) : did? rt i s a = none := by
  cases a with
  | yield j value => exact if_neg fun hij => h (congrArg some hij)
  | exhausted j => exact if_neg fun hij => h (congrArg some hij)
  | returned j value => exact if_neg fun hij => h (congrArg some hij)
  | raised j error elapsed => exact if_neg fun hij => h (congrArg some hij)
  | rejected j error elapsed => exact if_neg fun hij => h (congrArg some hij)
  | timedOut j elapsed => exact if_neg fun hij => h (congrArg some hij)
  | _ => rfl

/-! ## The frames tell what was done -/

/-- The request that was read is for the node. -/
def Asks (rt : Runtime) (text : Bytes) (node : String) : Prop :=
  ∃ fields, rt.loads text = .value (.obj fields) ∧ Frame.get fields "node" = .str node

/-- The frames are those of what was done, which is over. -/
def TellsAll (rt : Runtime) (text : Bytes) (ds : List Doing) (c : Call) (d : Dispatch) : Prop :=
  Asks rt text d.node ∧ c.sent = ds.map Doing.frame ∧ Doing.Over ds

/-- The only frame is that of the refusal. -/
def TellsRefusal (c : Call) (why : Refusal) : Prop :=
  ∃ error, error ≠ "" ∧ c.sent = [.ofError why.errorType error]

/-- What a call, by the phase it is in, has made of the bytes it has read and of what its code has
done. -/
def Told (rt : Runtime) (text : Bytes) (ds : List Doing) (c : Call) : Prop :=
  match c.phase with
  | .reading buf => buf = text ∧ (text = [] ∨ rt.loads text = .invalid) ∧ c.sent = [] ∧ ds = []
  | .refusing why => TellsRefusal c why
  | .ready d | .driving d _ =>
    Asks rt text d.node ∧ c.sent = ds.map Doing.frame ∧ Doing.Ongoing ds
  | .finishing d | .failing d => TellsAll rt text ds c d
  | .closing b | .closed b =>
    match b with
    | .undecided => text = [] ∨ rt.loads text = .invalid
    | .failed => ∀ node, ¬Asks rt text node
    | .refused why => TellsRefusal c why
    | .dispatched d => TellsAll rt text ds c d

/-- The task of the call is not cancelled, its writes succeed, and the limits of the registrations
are values of semaphores. -/
def Orderly (i : ℕ) (s : Server) (a : Action) : Prop :=
  Undisturbed i s a ∧ ∀ id k, (s.regs id).maxConcurrent = some k → 0 ≤ k

theorem Told.of_eq (h : Told rt text ds c) (hphase : c'.phase = c.phase)
    (hsent : c'.sent = c.sent) : Told rt text ds c' := by
  unfold Told TellsAll TellsRefusal at h ⊢
  rwa [hphase, hsent]

theorem Told.of_driving {d : Dispatch} {mode : Mode} (h : Told rt text ds c)
    (hphase : c.phase = .driving d mode) :
    Asks rt text d.node ∧ c.sent = ds.map Doing.frame ∧ Doing.Ongoing ds := by
  unfold Told at h
  rwa [hphase] at h

/-- What a failure strikes, unless it is the last frame. -/
theorem Told.of_inDispatch {d : Dispatch} (h : Told rt text ds c) (hphase : InDispatch d c.phase)
    (hnot : c.phase ≠ .finishing d) :
    Asks rt text d.node ∧ c.sent = ds.map Doing.frame ∧ Doing.Ongoing ds := by
  unfold Told at h
  cases hc : c.phase with
  | ready d' =>
    rw [hc] at h hphase
    obtain rfl : d' = d := hphase
    exact h
  | driving d' mode =>
    rw [hc] at h hphase
    obtain rfl : d' = d := hphase
    exact h
  | finishing d' =>
    rw [hc] at hphase hnot
    obtain rfl : d' = d := hphase
    exact absurd rfl hnot
  | _ =>
    rw [hc] at hphase
    exact hphase.elim

/-- The frame of a refusal gives its type, and a text. -/
theorem exists_refusalFrame_eq (rt : Runtime) {r reg : Registration} {callerNodeId : ℕ}
    {now : Secs} {why : Refusal} (h : r.gate callerNodeId now = (reg, .refused why))
    (node : String) :
    ∃ error, error ≠ "" ∧
      refusalFrame rt reg callerNodeId node why = .ofError why.errorType error := by
  unfold Registration.gate at h
  split_ifs at h with hauth hallowed
  · cases h
    exact ⟨_, by simp, rfl⟩
  · cases h
    obtain ⟨l, hl⟩ := Registration.exists_rateLimiter hallowed
    rw [refusalFrame, rateLimitedFrame, hl]
    exact ⟨_, by simp, rfl⟩
  · split at h
    · cases h
    · split_ifs at h with hlocked
      · cases h
        obtain ⟨k, hk⟩ := Registration.exists_maxConcurrent hlocked
        rw [refusalFrame, busyFrame, hk]
        exact ⟨_, by simp, rfl⟩
      · cases h

/-- A request is dispatched, refused, or none that can be looked up. -/
theorem handleRequest_told (rt : Runtime) (s : Server) (i : ℕ) {c : Call} {req : Json} (now : Secs)
    (valid : Bool) (hload : rt.loads text = .value req) (hunsent : c.sent = [])
    (hlimit : ∀ id k, (s.regs id).maxConcurrent = some k → 0 ≤ k) :
    ∃ c', (s.handleRequest rt i c req now valid).calls i = some c' ∧ Told rt text [] c' := by
  have hfailed : (∀ node, ¬Asks rt text node) →
      ∃ c', (s.leave i c .failed).calls i = some c' ∧ Told rt text [] c' :=
    fun hnot => ⟨_, Function.update_self .., hnot⟩
  have hrefused (t : Server) (why : Refusal) (error : String) (herror : error ≠ "") :
      ∃ c', (t.send i c (.ofError why.errorType error) (.refusing why)).calls i = some c' ∧
        Told rt text [] c' :=
    ⟨_, Function.update_self .., error, herror, by rw [hunsent]; rfl⟩
  cases req with
  | obj fields =>
    have hasks : ∀ node, Asks rt text node → Frame.get fields "node" = .str node := by
      rintro node ⟨fields', hload', hnode⟩
      rw [hload] at hload'
      cases hload'
      exact hnode
    cases hnode : Frame.get fields "node" with
    | arr xs =>
      rw [handleRequest, hnode]
      exact hfailed fun node h => by cases hnode.symm.trans (hasks node h)
    | obj ms =>
      rw [handleRequest, hnode]
      exact hfailed fun node h => by cases hnode.symm.trans (hasks node h)
    | str node =>
      rw [handleRequest, hnode]
      simp only
      cases hid : s.handlers.get? node with
      | none => exact hrefused s .handlerNotFound _ (by simp)
      | some id =>
        simp only [passGates_eq]
        cases hgate : (s.regs id).gate c.caller now with
        | mk reg gate =>
          cases gate with
          | refused why =>
            obtain ⟨error, herror, hframe⟩ := exists_refusalFrame_eq rt hgate node
            simp only [enter, regs_setReg_self, hframe]
            exact hrefused _ why error herror
          | raises =>
            refine absurd (congrArg Prod.snd hgate) (Registration.gate_ne_raises fun k hk => ?_)
            exact hlimit id k hk
          | admitted =>
            obtain ⟨c', hcalls, -, hsent, -, hphase⟩ :=
              launch_spec (s.setReg id reg) i c ⟨node, id⟩ valid
            refine ⟨c', by rw [enter, hcalls, Function.update_self], ?_⟩
            have htold : Asks rt text node ∧ c'.sent = ([] : List Doing).map Doing.frame ∧
                Doing.Ongoing [] :=
              ⟨⟨fields, hload, hnode⟩, hsent.trans hunsent, [], rfl⟩
            unfold Told
            rcases hphase with hphase | ⟨mode, hphase⟩
            · rw [hphase]
              exact htold
            · rw [hphase]
              exact htold
    | null | bool | int | float =>
      rw [handleRequest, hnode]
      exact hrefused s .handlerNotFound _ (by simp)
  | null | bool | int | float | str | arr =>
    refine hfailed ?_
    rintro node ⟨fields, hload', -⟩
    cases hload.symm.trans hload'

/-- A chunk is read. -/
theorem receive_told {buf chunk : Bytes} (h : Told rt text ds c) (hphase : c.phase = .reading buf)
    (now : Secs) (valid : Bool) (hlimit : ∀ id k, (s.regs id).maxConcurrent = some k → 0 ≤ k) :
    ∃ c', (s.receive rt i c buf chunk now valid).calls i = some c' ∧
      Told rt (text ++ chunk) ds c' := by
  unfold Told at h
  rw [hphase] at h
  obtain ⟨rfl, hunread, hunsent, rfl⟩ := h
  unfold receive
  split_ifs with hchunk
  · refine ⟨_, Function.update_self .., ?_⟩
    rw [hchunk, List.append_nil]
    exact hunread
  · cases hload : rt.loads (buf ++ chunk) with
    | invalid => exact ⟨_, Function.update_self .., rfl, .inr hload, hunsent, rfl⟩
    | undecodable =>
      refine ⟨_, Function.update_self .., ?_⟩
      rintro node ⟨fields, hload', -⟩
      cases hload.symm.trans hload'
    | value req => exact handleRequest_told rt s i now valid hload hunsent hlimit

/-- A timeout is reported with its text. -/
theorem stepCall_timedOut {elapsed : Secs} (h : s.stepCall rt i c (.timedOut i elapsed) = some s') :
    ∃ d, InDispatch d c.phase ∧ c.phase.running? = some d.reg ∧
      s' = s.report i c d (timeoutText rt (s.regs d.reg)) elapsed := by
  simp only [stepCall] at h
  split at h
  · rename_i d hphase
    rw [hphase]
    exact ⟨d, rfl, rfl, (Option.some.inj h).symm⟩
  · rename_i d mode hphase
    rw [hphase]
    exact ⟨d, rfl, rfl, (Option.some.inj h).symm⟩
  · rename_i d hphase
    rw [hphase]
    exact ⟨d, rfl, rfl, (Option.some.inj h).symm⟩
  · cases h

/-- The chunk of an action, as bytes. -/
def Action.bytes (i : ℕ) (a : Action) : Bytes :=
  (a.chunk? i).getD []

theorem flatten_chunksRead_concat (as : List Action) (a : Action) :
    (chunksRead i (as ++ [a])).flatten = (chunksRead i as).flatten ++ a.bytes i := by
  rw [chunksRead_concat, List.flatten_append]
  unfold Action.bytes
  cases a.chunk? i with
  | none => rfl
  | some chunk => rw [Option.toList_some, List.flatten_singleton, Option.getD_some]

/-- A step of the call. -/
theorem stepCall_told (h : Told rt text ds c) (hc : s.calls i = some c) (hok : Orderly i s a)
    (hstep : s.stepCall rt i c a = some s') (ha : a.call? = some i) :
    ∃ c', s'.calls i = some c' ∧
      Told rt (text ++ a.bytes i) (ds ++ (did? rt i s a).toList) c' := by
  -- Most steps read no byte and do nothing that the caller sees.
  have hquiet : ∀ {c' : Call}, s'.calls i = some c' → a.bytes i = [] → did? rt i s a = none →
      Told rt text ds c' → ∃ c', s'.calls i = some c' ∧
        Told rt (text ++ a.bytes i) (ds ++ (did? rt i s a).toList) c' := by
    intro c' hc' hbytes hdid htold
    refine ⟨c', hc', ?_⟩
    rwa [hbytes, hdid, List.append_nil, Option.toList_none, List.append_nil]
  cases stepCall_cases hstep ha with
  | @read buf chunk now valid hphase =>
    obtain ⟨c', hc', htold⟩ := receive_told (i := i) h hphase now valid hok.2
    have hbytes : (Action.read i chunk now valid).bytes i = chunk := by
      simp [Action.bytes, Action.chunk?]
    refine ⟨c', hc', ?_⟩
    rw [hbytes]
    simpa [did?] using htold
  | @start d valid hphase =>
    obtain ⟨c', hcalls, -, hsent, -, mode, hphase'⟩ := startDrive_spec s i c d valid
    refine hquiet (by rw [hcalls, Function.update_self]) rfl rfl ?_
    unfold Told at h ⊢
    rw [hphase] at h
    rw [hphase', hsent]
    exact h
  | @next d idx valid hd hidx =>
    obtain ⟨c', hcalls, -, hsent, -, hphase⟩ := next_spec (d := d) hc idx valid
    exact hquiet (by rw [hcalls, Function.update_self]) rfl rfl (h.of_eq hphase hsent)
  | handled => exact hquiet hc rfl rfl h
  | @yield d mode value hphase =>
    obtain ⟨hasks, hsent, values, rfl⟩ := h.of_driving hphase
    refine ⟨_, Function.update_self .., ?_⟩
    have hdid : did? rt i s (.yield i value) = some (.yielded value) := if_pos rfl
    rw [hdid, show (Action.yield i value).bytes i = [] from rfl, List.append_nil]
    refine ⟨hasks, ?_, values ++ [value], ?_⟩
    · simp [hsent, Doing.frame]
    · simp
  | @finish a d mode value hfinish hphase =>
    obtain ⟨hasks, hsent, values, rfl⟩ := h.of_driving hphase
    refine ⟨_, Function.update_self .., ?_⟩
    rcases hfinish with ⟨rfl, rfl⟩ | rfl
    · have hdid : did? rt i s (.exhausted i) = some .exhausted := if_pos rfl
      rw [hdid, show (Action.exhausted i).bytes i = [] from rfl, List.append_nil]
      exact ⟨hasks, by simp [hsent, Doing.frame], values, .exhausted, rfl, by simp⟩
    · have hdid : did? rt i s (.returned i value) = some (.returned value) := if_pos rfl
      rw [hdid, show (Action.returned i value).bytes i = [] from rfl, List.append_nil]
      exact ⟨hasks, by simp [hsent, Doing.frame], values, .returned value, rfl, by simp⟩
  | @returnedGenerator d body hphase =>
    exact hquiet (Function.update_self ..) rfl rfl (h.of_driving hphase)
  | @completed d elapsed hphase =>
    refine hquiet (Function.update_self ..) rfl rfl ?_
    unfold Told at h
    rw [hphase] at h
    exact h
  | @failed a d error elapsed hfail hphase =>
    have hnot : c.phase ≠ .finishing d := by
      intro hfinishing
      have hfailure : a.failure? = some i := by rcases hfail with rfl | rfl | rfl <;> rfl
      exact hok.1.2.2 c d hc hfinishing hfailure
    obtain ⟨hasks, hsent, values, rfl⟩ := h.of_inDispatch hphase hnot
    have hends : ∀ error, Told rt text (values.map .yielded ++ [.failed error])
        { c with sent := c.sent ++ [.ofError "handler_error" error], phase := .failing d } :=
      fun error => ⟨hasks, by simp [hsent, Doing.frame], values, .failed error, rfl, by simp⟩
    rcases hfail with rfl | rfl | rfl
    · refine ⟨_, Function.update_self .., ?_⟩
      have hdid : did? rt i s (.raised i error elapsed) = some (.failed error) := if_pos rfl
      rw [hdid, show (Action.raised i error elapsed).bytes i = [] from rfl, List.append_nil]
      exact hends error
    · obtain ⟨d', hphase', hrunning, heq⟩ := stepCall_timedOut hstep
      obtain rfl : d' = d := by
        have := hphase'.branch.symm.trans hphase.branch
        cases this
        rfl
      have hdid : did? rt i s (.timedOut i elapsed) =
          some (.failed (timeoutText rt (s.regs d'.reg))) := by
        simp [did?, hc, hrunning]
      rw [heq, hdid, show (Action.timedOut i elapsed).bytes i = [] from rfl, List.append_nil]
      exact ⟨_, Function.update_self .., hends _⟩
    · refine ⟨_, Function.update_self .., ?_⟩
      have hdid : did? rt i s (.rejected i error elapsed) = some (.failed error) := if_pos rfl
      rw [hdid, show (Action.rejected i error elapsed).bytes i = [] from rfl, List.append_nil]
      exact hends error
  | cancelled => exact absurd rfl hok.1.1
  | @ending a hend hphase =>
    rcases hend with rfl | rfl
    · refine hquiet (Function.update_self ..) rfl rfl ?_
      rcases ending_cases hstep (.inl rfl) with ⟨buf, hphase⟩ | ⟨why, hphase⟩ | ⟨d, hphase⟩
      · rw [stepCall, hphase] at hstep
        cases hstep
      · unfold Told at h ⊢
        rw [hphase] at h ⊢
        exact h
      · unfold Told at h ⊢
        rw [hphase] at h ⊢
        exact h
    · exact absurd rfl hok.1.2.1
  | @close b hphase =>
    refine hquiet (Function.update_self ..) rfl rfl ?_
    unfold Told at h
    rw [hphase] at h
    exact h

/-- What is told of a call that may not have started. -/
def Recounted (rt : Runtime) (i : ℕ) (text : Bytes) (ds : List Doing) (s : Server) : Prop :=
  match s.calls i with
  | none => text = [] ∧ ds = []
  | some c => Told rt text ds c

theorem recounted_of_some (hc : s.calls i = some c) :
    Recounted rt i text ds s ↔ Told rt text ds c := by
  rw [Recounted, hc]

theorem recounted_of_none (hc : s.calls i = none) :
    Recounted rt i text ds s ↔ text = [] ∧ ds = [] := by
  rw [Recounted, hc]

theorem bytes_of_call?_ne (h : a.call? ≠ some i) : a.bytes i = [] := by
  rw [Action.bytes, Action.chunk?_of_call?_ne h]
  rfl

/-- A step of the worker. -/
theorem recounted_step (h : Recounted rt i text ds s) (hok : Orderly i s a)
    (hstep : s.step rt a = some s') :
    Recounted rt i (text ++ a.bytes i) (ds ++ (did? rt i s a).toList) s' := by
  have hother : a.call? ≠ some i → s'.calls i = s.calls i →
      Recounted rt i (text ++ a.bytes i) (ds ++ (did? rt i s a).toList) s' := by
    intro hcall hcalls
    unfold Recounted
    rw [bytes_of_call?_ne hcall, did?_of_call?_ne hcall, List.append_nil, Option.toList_none,
      List.append_nil, hcalls]
    exact h
  rcases step_split hstep with ⟨hcall, hcalls, -⟩ | ⟨j, caller, hcall, hnone, rfl⟩ |
    ⟨j, c, hcall, hc, hstepCall⟩
  · exact hother (by simp [hcall]) (by rw [hcalls])
  · by_cases hij : j = i
    · subst hij
      obtain ⟨rfl, rfl⟩ := (recounted_of_none hnone).1 h
      refine (recounted_of_some (Function.update_self ..)).2 ?_
      -- Only `accept` is there for a call that has not started.
      have haccept : a.bytes j = [] ∧ did? rt j s a = none := by
        cases a with
        | accept => exact ⟨rfl, rfl⟩
        | create | register | registerMany | clearUserHandlers | authorize | use => cases hcall
        | _ =>
          cases hcall
          simp [step, Action.call?, hnone] at hstep
      rw [haccept.1, haccept.2]
      exact ⟨rfl, .inl rfl, rfl, rfl⟩
    · exact hother (by simpa [hcall] using hij) (Function.update_of_ne (Ne.symm hij) _ _)
  · by_cases hij : j = i
    · subst hij
      obtain ⟨c', hc', htold⟩ :=
        stepCall_told ((recounted_of_some hc).1 h) hc hok hstepCall hcall
      exact (recounted_of_some hc').2 htold
    · obtain ⟨c', hcalls, -⟩ := stepCall_callStep hc hstepCall hcall
      have hne : s'.calls i = s.calls i := by rw [hcalls, Function.update_of_ne (Ne.symm hij)]
      exact hother (by simpa [hcall] using hij) hne

/-- In every orderly run the frames of a call tell what was done for the request it has read. -/
theorem told_run {mws : List ℕ} {as : List Action}
    (hok : Machine.Along (step rt) (Orderly i) (init mws) as)
    (hrun : Machine.run (step rt) (init mws) as = some s) (hc : s.calls i = some c) :
    Told rt (chunksRead i as).flatten (doings rt i (init mws) as) c := by
  refine (recounted_of_some hc).1 (Machine.run_induction_along (fun as s =>
    Recounted rt i (chunksRead i as).flatten (doings rt i (init mws) as) s) _
    ((recounted_of_none rfl).2 ⟨rfl, rfl⟩) ?_ hok hrun)
  intro as s a s' hrun h hok hstep
  have hdoings : doings rt i (init mws) (as ++ [a]) =
      doings rt i (init mws) as ++ (did? rt i s a).toList := Machine.outputs_append hrun a
  rw [flatten_chunksRead_concat, hdoings]
  exact recounted_step h hok hstep

end Server

end PilotLanggraph

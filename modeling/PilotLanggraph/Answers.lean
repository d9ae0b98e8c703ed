import PilotLanggraph.RequestAssembly
import PilotLanggraph.ReplyGrammar

/-!
# Answers

A request that parses should be answered : before the stream is closed, one frame marked `done`
should be written. Between the parsing and the dispatch nothing catches an exception, and there
`_handle_one` takes the request for a `dict`, its `node` for a key, and the limit of the
registration for the value of a semaphore. `answered_iff` says, of every run, that the request is
answered exactly if these three hold and nothing but an `Exception` ends the dispatch or a last
frame.
-/

namespace PilotLanggraph

namespace Registration

/-- A semaphore is at hand for a caller that access list and rate limiter let pass. -/
def Admits (r : Registration) (callerNodeId : ℕ) (now : Secs) : Prop :=
  r.authorized callerNodeId = true → (r.consume callerNodeId now).2 = true →
    r.semaphoreValue = none → ∀ k, r.maxConcurrent = some k → 0 ≤ k

theorem semaphore_eq_none_iff (r : Registration) :
    r.semaphore = none ↔ r.semaphoreValue = none ∧ ∃ k, r.maxConcurrent = some k ∧ k < 0 := by
  unfold semaphore
  cases r.maxConcurrent with
  | none => simp
  | some k =>
    cases r.semaphoreValue with
    | none => simp
    | some v => simp

/-- The gates raise for want of a semaphore alone. -/
theorem gate_raises_iff (r : Registration) (callerNodeId : ℕ) (now : Secs) :
    (r.gate callerNodeId now).2 = .raises ↔ ¬r.Admits callerNodeId now := by
  have hnone := (r.consume callerNodeId now).1.semaphore_eq_none_iff
  rw [semaphoreValue_consume, maxConcurrent_consume] at hnone
  unfold gate Admits
  by_cases hauth : r.authorized callerNodeId = false
  · simp [hauth]
  rw [if_neg hauth]
  by_cases hallowed : (r.consume callerNodeId now).2 = false
  · simp [hallowed]
  rw [if_neg hallowed]
  rw [Bool.not_eq_false] at hauth hallowed
  cases hsem : (r.consume callerNodeId now).1.semaphore with
  | none =>
    obtain ⟨hvalue, k, hk, hneg⟩ := hnone.1 hsem
    refine iff_of_true rfl fun h => ?_
    have := h hauth hallowed hvalue k hk
    omega
  | some reg =>
    refine iff_of_false ?_ fun h => h fun _ _ hvalue k hk => ?_
    · simp only
      split_ifs <;> simp
    · by_contra hneg
      rw [hnone.2 ⟨hvalue, k, hk, by omega⟩] at hsem
      cases hsem

end Registration

namespace Server

/-! ## The frames that are written -/

/-- The last frame of the call `i`, when its `_send_chunk` returns. -/
def written? (i : ℕ) (s : Server) : Action → Option Frame
  | .sent j | .completed j _ => if j = i then (s.calls i).bind (·.sent.getLast?) else none
  | _ => none

/-- The last frames of the call `i` that are written in a run. -/
def written (rt : Runtime) (i : ℕ) (s : Server) (as : List Action) : List Frame :=
  Machine.outputs (step rt) (written? i) s as

/-- The code before the dispatch raises nothing : the request is a `dict`, its `node` can be looked
up, and a semaphore is at hand. -/
def Answerable (s : Server) (callerNodeId : ℕ) (now : Secs) : Json → Prop
  | .obj fields =>
    match Frame.get fields "node" with
    | .arr _ | .obj _ => False
    | .str node => ∀ id, s.handlers.get? node = some id → (s.regs id).Admits callerNodeId now
    | _ => True
  | _ => False

/-- What ends the call without an answer : a cancellation, or another exception that is no
`Exception`, during the dispatch, or an exception while a last frame is sent. -/
def Action.abandons (i : ℕ) (a : Action) : Prop :=
  a = .cancelled i ∨ a = .aborted i

/-- The last frame is on its way. -/
def EndsDone (c : Call) : Prop :=
  ∃ f ∈ c.sent.getLast?, f.done = true

/-- Where a call stands whose request has been parsed, by what it has written and by whether it was
abandoned. -/
def Standing (answerable abandoned : Prop) (written : List Frame) (c : Call) : Prop :=
  match c.phase with
  | .reading _ => False
  | .ready _ | .driving .. => answerable ∧ ¬abandoned ∧ written = []
  | .refusing _ | .finishing _ | .failing _ =>
    answerable ∧ ¬abandoned ∧ written = [] ∧ EndsDone c
  | .closing _ | .closed _ => (∃ f ∈ written, f.done = true) ↔ answerable ∧ ¬abandoned

variable {rt : Runtime} {s s' : Server} {i : ℕ} {c c' : Call} {a : Action} {frames : List Frame}
  {answerable abandoned : Prop}

theorem endsDone_concat {f : Frame} (hf : f.done = true) (hsent : c'.sent = c.sent ++ [f]) :
    EndsDone c' :=
  ⟨f, by simp [hsent], hf⟩

theorem done_of_isLast {f : Frame} {ok : Bool} (h : f.isLast ok) : f.done = true := by
  rw [Frame.done, h.2]
  rfl

/-- The call after its request is parsed. -/
theorem handleRequest_standing (rt : Runtime) (s : Server) (i : ℕ) (c : Call) (req : Json)
    (now : Secs) (valid : Bool) :
    ∃ c', (s.handleRequest rt i c req now valid).calls i = some c' ∧
      Standing (s.Answerable c.caller now req) False [] c' := by
  have hfailed : ∀ (t : Server), ¬s.Answerable c.caller now req →
      ∃ c', (t.leave i c .failed).calls i = some c' ∧
        Standing (s.Answerable c.caller now req) False [] c' :=
    fun t hnot => ⟨_, Function.update_self .., iff_of_false (by simp) fun h => hnot h.1⟩
  have hrefused : ∀ (t : Server) (f : Frame) (why : Refusal), f.done = true →
      s.Answerable c.caller now req →
      ∃ c', (t.send i c f (.refusing why)).calls i = some c' ∧
        Standing (s.Answerable c.caller now req) False [] c' :=
    fun t f why hf hanswerable => ⟨_, Function.update_self .., hanswerable, not_false, rfl,
      endsDone_concat hf rfl⟩
  cases req with
  | obj fields =>
    cases hnode : Frame.get fields "node" with
    | arr xs =>
      have hnot : ¬s.Answerable c.caller now (.obj fields) := by
        rw [Answerable, hnode]
        exact not_false
      rw [handleRequest, hnode]
      exact hfailed s hnot
    | obj ms =>
      have hnot : ¬s.Answerable c.caller now (.obj fields) := by
        rw [Answerable, hnode]
        exact not_false
      rw [handleRequest, hnode]
      exact hfailed s hnot
    | str node =>
      have hiff : s.Answerable c.caller now (.obj fields) ↔
          ∀ id, s.handlers.get? node = some id → (s.regs id).Admits c.caller now := by
        rw [Answerable, hnode]
      rw [handleRequest, hnode]
      simp only
      cases hid : s.handlers.get? node with
      | none =>
        refine hrefused s _ _ rfl (hiff.2 fun id h => ?_)
        rw [hid] at h
        cases h
      | some id =>
        have hadmits : s.Answerable c.caller now (.obj fields) ↔
            (s.regs id).Admits c.caller now := by
          rw [hiff, hid]
          exact ⟨fun h => h id rfl, fun h id' hid' => Option.some.inj hid' ▸ h⟩
        have hraises := (s.regs id).gate_raises_iff c.caller now
        rw [← hadmits] at hraises
        simp only [passGates_eq]
        cases hgate : (s.regs id).gate c.caller now with
        | mk reg gate =>
          rw [hgate] at hraises
          cases gate with
          | refused why =>
            refine hrefused _ _ _ ?_ (by_contra fun h => by cases hraises.2 h)
            rw [regs_setReg_self]
            exact done_of_isLast (isLast_refusalFrame rt hgate node)
          | raises => exact hfailed _ (hraises.1 rfl)
          | admitted =>
            obtain ⟨c', hcalls, -, -, -, hphase⟩ :=
              launch_spec (s.setReg id reg) i c ⟨node, id⟩ valid
            have hanswerable : s.Answerable c.caller now (.obj fields) :=
              by_contra fun h => by cases hraises.2 h
            refine ⟨c', by rw [enter, hcalls, Function.update_self], ?_⟩
            unfold Standing
            rcases hphase with hphase | ⟨mode, hphase⟩
            · rw [hphase]
              exact ⟨hanswerable, not_false, rfl⟩
            · rw [hphase]
              exact ⟨hanswerable, not_false, rfl⟩
    | null | bool | int | float =>
      have hanswerable : s.Answerable c.caller now (.obj fields) := by
        rw [Answerable, hnode]
        trivial
      rw [handleRequest, hnode]
      exact hrefused s _ _ rfl hanswerable
  | null | bool | int | float | str | arr => exact hfailed s not_false

/-! ## Steps -/

theorem Standing.of_eq (h : Standing answerable abandoned frames c) (hphase : c'.phase = c.phase)
    (hsent : c'.sent = c.sent) : Standing answerable abandoned frames c' := by
  unfold Standing EndsDone at h ⊢
  rwa [hphase, hsent]

theorem Standing.of_inDispatch {d : Dispatch} (h : Standing answerable abandoned frames c)
    (hphase : InDispatch d c.phase) : answerable ∧ ¬abandoned ∧ frames = [] := by
  unfold Standing at h
  cases hc : c.phase with
  | ready d' =>
    rw [hc] at h
    exact h
  | driving d' mode =>
    rw [hc] at h
    exact h
  | finishing d' =>
    rw [hc] at h
    exact ⟨h.1, h.2.1, h.2.2.1⟩
  | _ =>
    rw [hc] at hphase
    exact hphase.elim

theorem Standing.of_driving {d : Dispatch} {mode : Mode}
    (h : Standing answerable abandoned frames c) (hphase : c.phase = .driving d mode) :
    answerable ∧ ¬abandoned ∧ frames = [] := by
  refine h.of_inDispatch (d := d) ?_
  rw [hphase]
  rfl

/-- The phases in which a frame is sent after the dispatch, or instead of it. -/
theorem ending_cases (h : s.stepCall rt i c a = some s') (ha : a = .sent i ∨ a = .aborted i) :
    (∃ buf, c.phase = .reading buf) ∨ (∃ why, c.phase = .refusing why) ∨
      ∃ d, c.phase = .failing d := by
  cases hphase : c.phase with
  | reading buf => exact .inl ⟨buf, rfl⟩
  | refusing why => exact .inr (.inl ⟨why, rfl⟩)
  | failing d => exact .inr (.inr ⟨d, rfl⟩)
  | _ => rcases ha with rfl | rfl <;> simp [stepCall, hphase] at h

/-- What a step of the call does to where it stands. -/
theorem standing_stepCall (h : Standing answerable abandoned frames c) (hc : s.calls i = some c)
    (hstep : s.stepCall rt i c a = some s') (ha : a.call? = some i) :
    ∃ c', s'.calls i = some c' ∧
      Standing answerable (abandoned ∨ a.abandons i) (frames ++ (written? i s a).toList) c' := by
  have hquiet : ∀ {c' : Call}, s'.calls i = some c' → ¬a.abandons i → written? i s a = none →
      Standing answerable abandoned frames c' →
      ∃ c', s'.calls i = some c' ∧
        Standing answerable (abandoned ∨ a.abandons i) (frames ++ (written? i s a).toList) c' := by
    intro c' hc' habandons hwritten hstanding
    refine ⟨c', hc', ?_⟩
    rw [hwritten, Option.toList_none, List.append_nil]
    simpa only [habandons, or_false] using hstanding
  cases stepCall_cases hstep ha with
  | read hphase =>
    unfold Standing at h
    rw [hphase] at h
    exact h.elim
  | @start d valid hphase =>
    have hd : InDispatch d c.phase := by
      rw [hphase]
      rfl
    obtain ⟨c', hcalls, -, -, -, mode, hphase'⟩ := startDrive_spec s i c d valid
    refine hquiet (by rw [hcalls, Function.update_self]) (by simp [Action.abandons]) rfl ?_
    unfold Standing
    rw [hphase']
    exact h.of_inDispatch hd
  | @next d idx valid hd hidx =>
    obtain ⟨c', hcalls, -, hsent, -, hphase⟩ := next_spec (d := d) hc idx valid
    exact hquiet (by rw [hcalls, Function.update_self]) (by simp [Action.abandons]) rfl
      (h.of_eq hphase hsent)
  | handled => exact hquiet hc (by simp [Action.abandons]) rfl h
  | @yield d mode value hphase =>
    exact hquiet (Function.update_self ..) (by simp [Action.abandons]) rfl (h.of_driving hphase)
  | @finish a d mode value hfinish hphase =>
    obtain ⟨hanswerable, habandoned, hframes⟩ := h.of_driving hphase
    have hends : Standing answerable abandoned frames
        { c with sent := c.sent ++ [.ofResult value true], phase := .finishing d } :=
      ⟨hanswerable, habandoned, hframes, endsDone_concat rfl rfl⟩
    rcases hfinish with ⟨rfl, -⟩ | rfl
    · exact hquiet (Function.update_self ..) (by simp [Action.abandons]) rfl hends
    · exact hquiet (Function.update_self ..) (by simp [Action.abandons]) rfl hends
  | @returnedGenerator d body hphase =>
    exact hquiet (Function.update_self ..) (by simp [Action.abandons]) rfl (h.of_driving hphase)
  | @completed d elapsed hphase =>
    unfold Standing at h
    rw [hphase] at h
    obtain ⟨hanswerable, habandoned, rfl, f, hf, hdone⟩ := h
    refine ⟨_, Function.update_self .., ?_⟩
    have hwritten : written? i s (.completed i elapsed) = some f := by
      rw [written?, if_pos rfl, hc]
      exact hf
    rw [hwritten]
    exact iff_of_true ⟨f, by simp, hdone⟩ ⟨hanswerable, by simp [habandoned, Action.abandons]⟩
  | @failed a d error elapsed hfail hphase =>
    obtain ⟨hanswerable, habandoned, hframes⟩ := h.of_inDispatch hphase
    have hends : Standing answerable abandoned frames
        { c with sent := c.sent ++ [.ofError "handler_error" error], phase := .failing d } :=
      ⟨hanswerable, habandoned, hframes, endsDone_concat rfl rfl⟩
    rcases hfail with rfl | rfl | rfl
    · exact hquiet (Function.update_self ..) (by simp [Action.abandons]) rfl hends
    · exact hquiet (Function.update_self ..) (by simp [Action.abandons]) rfl hends
    · exact hquiet (Function.update_self ..) (by simp [Action.abandons]) rfl hends
  | @cancelled d hphase =>
    obtain ⟨-, -, rfl⟩ := h.of_inDispatch hphase
    refine ⟨_, Function.update_self .., iff_of_false ?_ fun h => h.2 (.inr (.inl rfl))⟩
    rintro ⟨f, hf, -⟩
    cases hf
  | @ending a hend hphase =>
    have hdone : answerable ∧ ¬abandoned ∧ frames = [] ∧ EndsDone c := by
      unfold Standing at h
      rcases ending_cases hstep hend with ⟨buf, hphase⟩ | ⟨why, hphase⟩ | ⟨d, hphase⟩
      · rw [hphase] at h
        exact h.elim
      · rw [hphase] at h
        exact h
      · rw [hphase] at h
        exact h
    obtain ⟨hanswerable, habandoned, rfl, f, hf, hdone⟩ := hdone
    refine ⟨_, Function.update_self .., ?_⟩
    rcases hend with rfl | rfl
    · have hwritten : written? i s (.sent i) = some f := by
        rw [written?, if_pos rfl, hc]
        exact hf
      rw [hwritten]
      exact iff_of_true ⟨f, by simp, hdone⟩ ⟨hanswerable, by simp [habandoned, Action.abandons]⟩
    · refine iff_of_false ?_ fun h => h.2 (.inr (.inr rfl))
      rintro ⟨f, hf, -⟩
      cases hf
  | @close b hphase =>
    refine hquiet (Function.update_self ..) (by simp [Action.abandons]) rfl ?_
    unfold Standing at h
    rw [hphase] at h
    exact h

theorem written?_of_call?_ne (h : a.call? ≠ some i) : written? i s a = none := by
  cases a with
  | sent j => exact if_neg fun hij => h (congrArg some hij)
  | completed j elapsed => exact if_neg fun hij => h (congrArg some hij)
  | _ => rfl

theorem not_abandons_of_call?_ne (h : a.call? ≠ some i) : ¬a.abandons i := by
  rintro (rfl | rfl)
  · exact h rfl
  · exact h rfl

theorem standing_step (h : Standing answerable abandoned frames c) (hc : s.calls i = some c)
    (hstep : s.step rt a = some s') :
    ∃ c', s'.calls i = some c' ∧
      Standing answerable (abandoned ∨ a.abandons i) (frames ++ (written? i s a).toList) c' := by
  have hother : a.call? ≠ some i → s'.calls i = s.calls i → ∃ c', s'.calls i = some c' ∧
      Standing answerable (abandoned ∨ a.abandons i) (frames ++ (written? i s a).toList) c' := by
    intro hcall hcalls
    refine ⟨c, hcalls.trans hc, ?_⟩
    rw [written?_of_call?_ne hcall, Option.toList_none, List.append_nil]
    simpa only [not_abandons_of_call?_ne hcall, or_false] using h
  rcases step_split hstep with ⟨hcall, hcalls, -⟩ | ⟨j, caller, hcall, hnone, rfl⟩ |
    ⟨j, c₁, hcall, hc₁, hstepCall⟩
  · exact hother (by simp [hcall]) (by rw [hcalls])
  · have hij : j ≠ i := by
      rintro rfl
      rw [hc] at hnone
      cases hnone
    exact hother (by simpa [hcall] using hij) (Function.update_of_ne (Ne.symm hij) _ _)
  · by_cases hij : j = i
    · subst hij
      obtain rfl := Option.some.inj (hc.symm.trans hc₁)
      exact standing_stepCall h hc hstepCall hcall
    · obtain ⟨c', hcalls, -⟩ := stepCall_callStep hc₁ hstepCall hcall
      have hne : s'.calls i = s.calls i := by rw [hcalls, Function.update_of_ne (Ne.symm hij)]
      exact hother (by simpa [hcall] using hij) hne

/-- The run lemma, from the state in which the request has been parsed. -/
theorem standing_run {as : List Action} (h : Standing answerable False [] c)
    (hc : s.calls i = some c) (hrun : Machine.run (step rt) s as = some s') :
    ∃ c', s'.calls i = some c' ∧
      Standing answerable (∃ a ∈ as, a.abandons i) (written rt i s as) c' := by
  refine Machine.run_induction (fun as t => ∃ c', t.calls i = some c' ∧
    Standing answerable (∃ a ∈ as, a.abandons i) (written rt i s as) c') ⟨c, hc, ?_⟩ ?_ hrun
  · simpa [written, Machine.outputs] using h
  · rintro as t a t' ht ⟨c₁, hc₁, hstanding⟩ hstep
    obtain ⟨c₂, hc₂, hstanding₂⟩ := standing_step hstanding hc₁ hstep
    refine ⟨c₂, hc₂, ?_⟩
    have hwritten : written rt i s (as ++ [a]) = written rt i s as ++ (written? i t a).toList :=
      Machine.outputs_append ht a
    rw [hwritten]
    simpa only [List.mem_append, List.mem_singleton, or_and_right, exists_or, exists_eq_left]
      using hstanding₂

/-- A request that parses, sent in one chunk to a server in any state, is answered by the time its
stream is closed exactly if the code before the dispatch does not raise, the dispatch ends by itself
or by an `Exception`, and the last frame can be sent. -/
theorem answered_iff (rt : Runtime) {s₁ s : Server} {as : List Action} {i : ℕ} {c₁ c : Call}
    {chunk : Bytes} {req : Json} {now : Secs} {valid : Bool} {b : Branch}
    (hc₁ : s₁.calls i = some c₁) (hphase : c₁.phase = .reading []) (hchunk : chunk ≠ [])
    (hload : rt.loads chunk = .value req)
    (hrun : Machine.run (step rt) s₁ (.read i chunk now valid :: as) = some s)
    (hc : s.calls i = some c) (hthrough : c.phase = .closing b ∨ c.phase = .closed b) :
    (∃ f ∈ written rt i s₁ (.read i chunk now valid :: as), f.done = true) ↔
      s₁.Answerable c₁.caller now req ∧ ¬∃ a ∈ as, a.abandons i := by
  obtain ⟨s₂, hread, hrun₂⟩ := Machine.run_cons hrun
  have hwritten : written rt i s₁ (.read i chunk now valid :: as) = written rt i s₂ as := by
    rw [written, Machine.outputs, hread]
    rfl
  rw [step_read hc₁ hphase hchunk (by rw [List.nil_append, hload]), Option.some.injEq] at hread
  obtain ⟨c₂, hc₂, hstanding⟩ := handleRequest_standing rt s₁ i c₁ req now valid
  rw [hread] at hc₂
  obtain ⟨c₃, hc₃, hend⟩ := standing_run hstanding hc₂ hrun₂
  obtain rfl := Option.some.inj (hc.symm.trans hc₃)
  rw [hwritten]
  unfold Standing at hend
  rcases hthrough with hthrough | hthrough
  · rw [hthrough] at hend
    exact hend
  · rw [hthrough] at hend
    exact hend

/-! ## A node that is no name -/

/-- A request for the node `["enrich"]`. -/
def listRequest : Frame :=
  [("node", .arr [.str "enrich"]), ("payload", .null)]

theorem wf_listRequest : (Json.obj listRequest).WF := by
  simp [listRequest, Json.WF, Json.WFMembers, Json.WFElems, Assoc.keys]

/-- A worker that has accepted the stream of a caller. -/
def accepted : Server :=
  (init []).setCall 0 ⟨7, .reading [], none, []⟩

theorem step_accepted : (init []).step plainRuntime (.accept 0 (some ⟨1, 7⟩)) = some accepted :=
  rfl

theorem step_listRequest :
    accepted.step plainRuntime (.read 0 listRequest.text 0 true) =
      some (accepted.leave 0 ⟨7, .reading [], none, []⟩ .failed) := by
  have hload : plainRuntime.loads ([] ++ listRequest.text) = .value (.obj listRequest) := by
    rw [List.nil_append, plainRuntime_loads, Frame.loads_text wf_listRequest]
  have hc : accepted.calls 0 = some ⟨7, .reading [], none, []⟩ := rfl
  rw [step_read hc rfl listRequest.text_ne_nil hload]
  rfl

/-- The look-up of a node that is an array raises, and the stream is closed without a frame. -/
theorem list_node_unanswered :
    plainRuntime.loads listRequest.text = .value (.obj listRequest) ∧
      ∃ s c, Machine.run (step plainRuntime) (init [])
          [.accept 0 (some ⟨1, 7⟩), .read 0 listRequest.text 0 true, .close 0] = some s ∧
        s.calls 0 = some c ∧ c.phase = .closed .failed ∧ c.sent = [] := by
  have hload : plainRuntime.loads listRequest.text = .value (.obj listRequest) := by
    rw [plainRuntime_loads, Frame.loads_text wf_listRequest]
  refine ⟨hload, (accepted.leave 0 ⟨7, .reading [], none, []⟩ .failed).setCall 0
    ⟨7, .closed .failed, none, []⟩, ⟨7, .closed .failed, none, []⟩, ?_, rfl, rfl, rfl⟩
  rw [Machine.run_of_step step_accepted, Machine.run_of_step step_listRequest]
  exact (Machine.run_of_step rfl []).trans rfl

/-- The stream of `twoChunks` is answered. -/
theorem answered_iff_twoChunks :
    ∃ f ∈ written plainRuntime 0 streaming twoChunks, f.done = true := by
  have hanswerable : streaming.Answerable 7 0 (.obj enrichRequest) := by
    intro id hid
    obtain rfl : 2 = id := Option.some.inj hid
    exact fun _ _ _ k hk => by cases hk
  have hload : plainRuntime.loads enrichRequest.text = .value (.obj enrichRequest) :=
    loads_enrichRequest
  have hc : streaming.calls 0 = some ⟨7, .reading [], none, []⟩ := rfl
  have hquiet : ¬∃ a ∈ twoChunks.tail, a.abandons 0 := by
    simp [twoChunks, Action.abandons]
  exact (answered_iff plainRuntime (b := .dispatched ⟨"enrich", 2⟩) hc rfl
    enrichRequest.text_ne_nil hload run_twoChunks rfl (.inl rfl)).2 ⟨hanswerable, hquiet⟩

end Server

end PilotLanggraph

import PilotLanggraph.CallSteps

/-!
# The grammar of replies

A caller reads frames until one is marked `done`. Whatever the handler and the middlewares do,
a call that is through has sent chunks and then one last frame, which is an error exactly when
an exception ended the call; a call that was turned away has sent one error (`reply_grammar`).
`Conforms` says where a reply stands in each phase of its call.
-/

namespace PilotLanggraph

namespace Frame

/-- `{"ok": True, ..., "done": False}`. -/
def isChunk (f : Frame) : Prop :=
  f.get "ok" = .bool true ∧ f.get "done" = .bool false

/-- `{"ok": ok, ..., "done": True}`. -/
def isLast (f : Frame) (ok : Bool) : Prop :=
  f.get "ok" = .bool ok ∧ f.get "done" = .bool true

theorem isChunk_ofResult (value : Json) : (ofResult value false).isChunk :=
  ⟨rfl, rfl⟩

theorem isLast_ofResult (value : Json) : (ofResult value true).isLast true :=
  ⟨rfl, rfl⟩

theorem isLast_ofError (errorType error : String) : (ofError errorType error).isLast false :=
  ⟨rfl, rfl⟩

/-- Chunks and a last frame. -/
def IsReply (fs : List Frame) (ok : Bool) : Prop :=
  ∃ chunks last, fs = chunks ++ [last] ∧ (∀ f ∈ chunks, f.isChunk) ∧ last.isLast ok

end Frame

/-! ## Refusals -/

namespace Registration

variable {r reg : Registration} {callerNodeId : ℕ} {now : Secs}

/-- Only a limiter refuses for the rate. -/
theorem exists_rateLimiter (h : (r.consume callerNodeId now).2 = false) :
    ∃ l, (r.consume callerNodeId now).1.rateLimiter = some l := by
  unfold consume at h ⊢
  split at h
  · cases h
  · exact ⟨_, rfl⟩

theorem exists_maxConcurrent (h : r.locked = true) : ∃ k, r.maxConcurrent = some k :=
  Option.isSome_iff_exists.1 (Bool.and_eq_true_iff.1 h).1

/-- A semaphore can be made for every limit that is not negative. -/
theorem gate_ne_raises (h : ∀ k, r.maxConcurrent = some k → 0 ≤ k) :
    (r.gate callerNodeId now).2 ≠ .raises := by
  unfold gate
  split_ifs
  · simp
  · simp
  · cases hsem : (r.consume callerNodeId now).1.semaphore with
    | none =>
      unfold semaphore at hsem
      split at hsem
      · cases hsem
      · cases hsem
      · rename_i k hk _
        rw [maxConcurrent_consume] at hk
        rw [if_neg (by simpa using h k hk)] at hsem
        cases hsem
    | some reg =>
      simp only
      split_ifs <;> simp

end Registration

namespace Server

theorem isLast_refusalFrame (rt : Runtime) {r reg : Registration} {callerNodeId : ℕ} {now : Secs}
    {why : Refusal} (h : r.gate callerNodeId now = (reg, .refused why)) (node : String) :
    (refusalFrame rt reg callerNodeId node why).isLast false := by
  unfold Registration.gate at h
  split_ifs at h with hauth hallowed
  · cases h
    exact Frame.isLast_ofError ..
  · cases h
    obtain ⟨l, hl⟩ := Registration.exists_rateLimiter hallowed
    rw [refusalFrame, rateLimitedFrame, hl]
    exact Frame.isLast_ofError ..
  · split at h
    · cases h
    · split_ifs at h with hlocked
      · cases h
        obtain ⟨k, hk⟩ := Registration.exists_maxConcurrent hlocked
        rw [refusalFrame, busyFrame, hk]
        exact Frame.isLast_ofError ..
      · cases h

/-! ## Replies -/

/-- The reply of a call, and whether an exception has ended it. -/
def Conforms (failed : Prop) (c : Call) : Prop :=
  match c.phase with
  | .reading _ => c.sent = [] ∧ ¬failed
  | .refusing _ => ∃ frame, c.sent = [frame] ∧ frame.isLast false
  | .ready _ | .driving .. => (∀ f ∈ c.sent, f.isChunk) ∧ ¬failed
  | .finishing _ => Frame.IsReply c.sent true ∧ ¬failed
  | .failing _ => Frame.IsReply c.sent false ∧ failed
  | .closing b | .closed b =>
    match b with
    | .undecided | .failed => True
    | .refused _ => ∃ frame, c.sent = [frame] ∧ frame.isLast false
    | .dispatched _ => ∃ ok, Frame.IsReply c.sent ok ∧ (ok = true ↔ ¬failed)

/-- The task of the call `i` is not cancelled, and its writes succeed. -/
def Undisturbed (i : ℕ) (s : Server) (a : Action) : Prop :=
  a.cancellation? ≠ some i ∧ a ≠ .aborted i ∧
    ∀ c d, s.calls i = some c → c.phase = .finishing d → a.failure? ≠ some i

section

variable {rt : Runtime} {s s' : Server} {i : ℕ} {c c' : Call} {a : Action} {b : Books}
  {failed : Prop}

theorem Conforms.of_reading {buf : Bytes} (h : Conforms failed c)
    (hphase : c.phase = .reading buf) : c.sent = [] ∧ ¬failed := by
  unfold Conforms at h
  rwa [hphase] at h

theorem Conforms.of_driving {d : Dispatch} {mode : Mode} (h : Conforms failed c)
    (hphase : c.phase = .driving d mode) : (∀ f ∈ c.sent, f.isChunk) ∧ ¬failed := by
  unfold Conforms at h
  rwa [hphase] at h

theorem Conforms.of_ready {d : Dispatch} (h : Conforms failed c) (hphase : c.phase = .ready d) :
    (∀ f ∈ c.sent, f.isChunk) ∧ ¬failed := by
  unfold Conforms at h
  rwa [hphase] at h

/-- The last frame is sent or given up, and the stream closed. -/
theorem Conforms.ending {phase : CallPhase} (h : Conforms failed c) (hold : c.phase.running? = none)
    (hphase : phase = .closing c.phase.branch ∨ phase = .closed c.phase.branch) :
    Conforms failed { c with phase := phase } := by
  have hclosing : Conforms failed { c with phase := .closing c.phase.branch } := by
    unfold Conforms at h ⊢
    cases hc : c.phase with
    | reading buf => trivial
    | refusing why =>
      rw [hc] at h
      exact h
    | failing d =>
      rw [hc] at h
      exact ⟨false, h.1, by simp [h.2]⟩
    | closing b =>
      rw [hc] at h
      exact h
    | closed b =>
      rw [hc] at h
      exact h
    | _ =>
      rw [hc] at hold
      cases hold
  rcases hphase with rfl | rfl
  · exact hclosing
  · exact hclosing

/-- A step that is no exception. -/
theorem callStep_conforms_of_none (h : Conforms failed c) (hc : s.calls i = some c)
    (hok : Undisturbed i s a) (hnone : a.failure? = none) (hstep : CallStep rt s i c a c' b) :
    Conforms failed c' := by
  cases hstep with
  | @unserved buf chunk now valid phase hold hphase hrun =>
    obtain ⟨hsent, hfailed⟩ := h.of_reading hold
    cases phase with
    | reading buf => exact ⟨hsent, hfailed⟩
    | closing b =>
      rcases hphase with rfl | rfl
      · trivial
      · trivial
    | closed b =>
      rcases hphase with rfl | rfl
      · trivial
      · trivial
    | _ => rcases hphase with hphase | hphase <;> cases hphase
  | notFound hold =>
    obtain ⟨hsent, -⟩ := h.of_reading hold
    exact ⟨_, by rw [hsent]; rfl, Frame.isLast_ofError ..⟩
  | refused hlookup hgate =>
    obtain ⟨buf, hphase⟩ := hlookup.reading hc
    obtain ⟨hsent, -⟩ := h.of_reading hphase
    exact ⟨_, by rw [hsent]; rfl, isLast_refusalFrame rt hgate _⟩
  | raises => trivial
  | admitted hlookup hgate hsent hcaller hphase =>
    obtain ⟨buf, hold⟩ := hlookup.reading hc
    obtain ⟨hnil, hfailed⟩ := h.of_reading hold
    have hchunks : ∀ f ∈ c'.sent, f.isChunk := by simp [hsent, hnil]
    unfold Conforms
    rcases hphase with hphase | ⟨mode, hphase⟩
    · rw [hphase]
      exact ⟨hchunks, hfailed⟩
    · rw [hphase]
      exact ⟨hchunks, hfailed⟩
  | working _ _ _ hsent _ hphase =>
    rcases hphase with hphase | ⟨d, mode, hphase, hold⟩
    · unfold Conforms at h ⊢
      rwa [hphase, hsent]
    · unfold Conforms
      rw [hphase, hsent]
      rcases hold with hold | hold
      · exact h.of_ready hold
      · exact h.of_driving hold
  | yield hphase =>
    obtain ⟨hchunks, hfailed⟩ := h.of_driving hphase
    unfold Conforms
    simp only [hphase]
    refine ⟨fun f hf => ?_, hfailed⟩
    rcases List.mem_append.1 hf with hf | hf
    · exact hchunks f hf
    · rw [List.mem_singleton.1 hf]
      exact Frame.isChunk_ofResult _
  | finish _ hphase =>
    obtain ⟨hchunks, hfailed⟩ := h.of_driving hphase
    exact ⟨⟨_, _, rfl, hchunks, Frame.isLast_ofResult _⟩, hfailed⟩
  | completed hphase =>
    unfold Conforms at h
    rw [hphase] at h
    exact ⟨true, h.1, by simp [h.2]⟩
  | failed ha =>
    rcases ha with rfl | rfl | rfl <;> cases hnone
  | cancelled => exact absurd rfl hok.1
  | ending _ hold hphase =>
    exact h.ending hold hphase

/-- A step that is one. -/
theorem callStep_conforms_of_some (h : Conforms failed c) (hc : s.calls i = some c)
    (hok : Undisturbed i s a) (hsome : a.failure? = some i) (hstep : CallStep rt s i c a c' b) :
    Conforms True c' := by
  have hsent : ∀ {d : Dispatch} {error : String}, (∀ f ∈ c.sent, f.isChunk) →
      Conforms True { c with
        sent := c.sent ++ [.ofError "handler_error" error], phase := .failing d } :=
    fun hchunks => ⟨⟨_, _, rfl, hchunks, Frame.isLast_ofError ..⟩, trivial⟩
  cases hstep with
  | failed ha hrunning hbranch =>
    cases hphase : c.phase with
    | ready d => exact hsent (h.of_ready hphase).1
    | driving d mode => exact hsent (h.of_driving hphase).1
    | finishing d => exact absurd hsome (hok.2.2 c d hc hphase)
    | _ =>
      rw [hphase] at hrunning
      cases hrunning
  | working _ hfail => cases hfail.symm.trans hsome
  | finish ha => rcases ha with rfl | rfl <;> cases hsome
  | ending ha => rcases ha with rfl | rfl | rfl <;> cases hsome
  | _ => cases hsome

theorem step_conforms (h : Conforms failed c) (hc : s.calls i = some c) (hok : Undisturbed i s a)
    (hstep : s.step rt a = some s') :
    ∃ c', s'.calls i = some c' ∧ Conforms (failed ∨ a.failure? = some i) c' := by
  have hstep := step_callSteps hstep
  by_cases ha : a.call? = some i
  · obtain ⟨c', hcalls, hstep⟩ := hstep.callStep hc ha
    refine ⟨c', by rw [hcalls, Function.update_self], ?_⟩
    by_cases hfail : a.failure? = some i
    · simp only [hfail, or_true]
      exact callStep_conforms_of_some h hc hok hfail hstep
    · have hnone : a.failure? = none := by
        cases hj : a.failure? with
        | none => rfl
        | some j =>
          obtain rfl := Option.some.inj (ha.symm.trans (Action.call?_of_failure? hj))
          exact absurd hj hfail
      simp only [hfail, or_false]
      exact callStep_conforms_of_none h hc hok hnone hstep
  · refine ⟨c, hstep.calls_of_ne hc ha, ?_⟩
    simp only [mt Action.call?_of_failure? ha, or_false]
    exact h

theorem run_conforms {as : List Action} (h : Conforms False c) (hc : s.calls i = some c)
    (hok : Machine.Along (step rt) (Undisturbed i) s as)
    (hrun : Machine.run (step rt) s as = some s') :
    ∃ c', s'.calls i = some c' ∧ Conforms (∃ a ∈ as, a.failure? = some i) c' := by
  refine Machine.run_induction_along (fun as s => ∃ c', s.calls i = some c' ∧
    Conforms (∃ a ∈ as, a.failure? = some i) c') _ ⟨c, hc, by simpa using h⟩ ?_ hok hrun
  rintro as t a t' - ⟨c₁, hc₁, hconforms⟩ hok hstep
  obtain ⟨c₂, hc₂, hconforms₂⟩ := step_conforms hconforms hc₁ hok hstep
  refine ⟨c₂, hc₂, ?_⟩
  simpa only [List.mem_append, List.mem_singleton, or_and_right, exists_or, exists_eq_left]
    using hconforms₂

/-- A request for a node is dispatched or turned away. -/
theorem branch_of_request {buf chunk : Bytes} {fields : Frame} {node : String} {now : Secs}
    {valid : Bool} (hc : s.calls i = some c) (hphase : c.phase = .reading buf) (hchunk : chunk ≠ [])
    (hload : rt.loads (buf ++ chunk) = .value (.obj fields))
    (hnode : fields.get "node" = .str node)
    (hlimit : ∀ id k, s.handlers.get? node = some id → (s.regs id).maxConcurrent = some k → 0 ≤ k)
    (hstep : s.step rt (.read i chunk now valid) = some s') :
    ∃ c', s'.calls i = some c' ∧
      ((∃ why, c'.phase.branch = .refused why) ∨ ∃ d, c'.phase.branch = .dispatched d) := by
  rw [step_read hc hphase hchunk hload, handleRequest, hnode] at hstep
  simp only [Option.some.injEq] at hstep
  subst hstep
  cases hid : s.handlers.get? node with
  | none => exact ⟨_, Function.update_self .., .inl ⟨.handlerNotFound, rfl⟩⟩
  | some id =>
    simp only [passGates_eq]
    cases hgate : ((s.regs id).gate c.caller now).2 with
    | refused why => exact ⟨_, Function.update_self .., .inl ⟨why, rfl⟩⟩
    | raises => exact absurd hgate (Registration.gate_ne_raises fun k => hlimit id k hid)
    | admitted =>
      obtain ⟨c', hcalls, -, -, -, hphase'⟩ :=
        launch_spec (s.setReg id ((s.regs id).gate c.caller now).1) i c ⟨node, id⟩ valid
      refine ⟨c', ?_, .inr ⟨⟨node, id⟩, ?_⟩⟩
      · rw [enter, hcalls, Function.update_self]
      · rcases hphase' with hphase' | ⟨mode, hphase'⟩
        · rw [hphase']
          rfl
        · rw [hphase']
          rfl

/-- A call whose request names a node, if it is through, its task was not cancelled and its
writes have succeeded : either it was turned away and has sent one error, or its handler
was driven and it has sent chunks and one last frame, an error just when an exception, of the
handler, of a middleware or of `json.dumps`, has ended the call. -/
theorem reply_grammar (rt : Runtime) {mws : List ℕ} {as₁ as₂ : List Action} {s₁ s : Server}
    {i : ℕ} {c₁ c : Call} {buf chunk : Bytes} {fields : Frame} {node : String} {now : Secs}
    {valid : Bool} {b : Branch} (hrun₁ : Machine.run (step rt) (init mws) as₁ = some s₁)
    (hc₁ : s₁.calls i = some c₁) (hphase : c₁.phase = .reading buf) (hchunk : chunk ≠ [])
    (hload : rt.loads (buf ++ chunk) = .value (.obj fields))
    (hnode : fields.get "node" = .str node)
    (hreg : ∀ id, s₁.handlers.get? node = some id → (s₁.regs id).timeoutSecs = none ∧
      ∀ k, (s₁.regs id).maxConcurrent = some k → 0 ≤ k)
    (hrun : Machine.run (step rt) s₁ (.read i chunk now valid :: as₂) = some s)
    (hok : Machine.Along (step rt) (Undisturbed i) s₁ (.read i chunk now valid :: as₂))
    (hc : s.calls i = some c) (hthrough : c.phase = .closing b ∨ c.phase = .closed b) :
    (∃ why, b = .refused why ∧ ∃ frame, c.sent = [frame] ∧ frame.isLast false) ∨
      ∃ d ok, b = .dispatched d ∧ Frame.IsReply c.sent ok ∧
        (ok = true ↔ ∀ a ∈ as₂, a.failure? ≠ some i) := by
  have hunsent : c₁.sent = [] := (guarded_run hrun₁).unsent i c₁ hc₁ (by rw [hphase]; rfl)
  have hstart : Conforms False c₁ := by
    unfold Conforms
    rw [hphase]
    exact ⟨hunsent, not_false⟩
  obtain ⟨c', hc', hconforms⟩ := run_conforms hstart hc₁ hok hrun
  obtain rfl : c' = c := Option.some.inj (hc'.symm.trans hc)
  obtain ⟨s₂, hread, hrun₂⟩ := Machine.run_cons hrun
  obtain ⟨c₂, hc₂, hbranch₂⟩ := branch_of_request hc₁ hphase hchunk hload hnode
    (fun id k hid => (hreg id hid).2 k) hread
  have hne : c₂.phase.branch ≠ .undecided := by
    rcases hbranch₂ with ⟨why, h⟩ | ⟨d, h⟩ <;> simp [h]
  obtain ⟨c₃, hc₃, hbranch, -⟩ := branch_run hrun₂ hc₂ hne
  obtain rfl : c₃ = c' := Option.some.inj (hc₃.symm.trans hc)
  have hb : c₃.phase.branch = b := by
    rcases hthrough with h | h
    · rw [h]
      rfl
    · rw [h]
      rfl
  have hend : Conforms (∃ a ∈ as₂, a.failure? = some i) { c₃ with phase := .closing b } := by
    have hiff : (∃ a ∈ Action.read i chunk now valid :: as₂, a.failure? = some i) ↔
        ∃ a ∈ as₂, a.failure? = some i := by simp [Action.failure?]
    rw [hiff] at hconforms
    unfold Conforms at hconforms ⊢
    rcases hthrough with h | h
    · rwa [h] at hconforms
    · rwa [h] at hconforms
  rw [← hbranch, hb] at hbranch₂
  rcases hbranch₂ with ⟨why, rfl⟩ | ⟨d, rfl⟩
  · exact .inl ⟨why, rfl, hend⟩
  · obtain ⟨ok, hreply, hiff⟩ := hend
    exact .inr ⟨d, ok, rfl, hreply, by simpa using hiff⟩

end

/-! ## A stream -/

def streamHandler : Handler :=
  ⟨41, .asyncGen, some ⟨1, false⟩⟩

/-- `enrich` streams to whoever calls it, and the node 7 connects. -/
def streamStart : List Action :=
  [.register "enrich" streamHandler {}, .accept 0 (some ⟨1, 7⟩)]

def streaming : Server :=
  ((init []).register "enrich" streamHandler {}).setCall 0 ⟨7, .reading [], none, []⟩

theorem run_streamStart : Machine.run (step plainRuntime) (init []) streamStart = some streaming :=
  rfl

theorem step_streaming : streaming.step plainRuntime (.read 0 enrichRequest.text 0 true) =
    some (streaming.handleRequest plainRuntime 0 ⟨7, .reading [], none, []⟩ (.obj enrichRequest)
      0 true) :=
  step_read_enrichRequest rfl rfl

/-- It yields twice. -/
def twoChunks : List Action :=
  [.read 0 enrichRequest.text 0 true, .yield 0 (.str "a"), .yield 0 (.str "b"), .exhausted 0,
    .completed 0 1]

def streamed : Server :=
  (Machine.run (step plainRuntime) (streaming.handleRequest plainRuntime 0
    ⟨7, .reading [], none, []⟩ (.obj enrichRequest) 0 true) twoChunks.tail).getD streaming

theorem run_twoChunks : Machine.run (step plainRuntime) streaming twoChunks = some streamed :=
  (Machine.run_of_step step_streaming _).trans rfl

theorem reply_grammar_twoChunks :
    ∃ c, streamed.calls 0 = some c ∧ c.phase = .closing (.dispatched ⟨"enrich", 2⟩) ∧
      Frame.IsReply c.sent true := by
  have hok : Machine.Along (step plainRuntime) (Undisturbed 0) streaming twoChunks := by
    refine Machine.along_of_forall (fun a ha s => ?_) _
    simp only [twoChunks, List.mem_cons, List.not_mem_nil, or_false] at ha
    rcases ha with rfl | rfl | rfl | rfl | rfl <;>
      exact ⟨by simp [Action.cancellation?], by simp, fun _ _ _ _ => by simp [Action.failure?]⟩
  have hreg : ∀ id, streaming.handlers.get? "enrich" = some id →
      (streaming.regs id).timeoutSecs = none ∧
        ∀ k, (streaming.regs id).maxConcurrent = some k → 0 ≤ k := by
    intro id hid
    obtain rfl : 2 = id := Option.some.inj hid
    exact ⟨rfl, fun k hk => by cases hk⟩
  refine ⟨⟨7, .closing (.dispatched ⟨"enrich", 2⟩), none, [.ofResult (.str "a") false,
    .ofResult (.str "b") false, .ofResult .null true]⟩, rfl, rfl, ?_⟩
  rcases @reply_grammar plainRuntime [] streamStart twoChunks.tail streaming _ 0 _ _ []
      enrichRequest.text enrichRequest "enrich" 0 true (.dispatched ⟨"enrich", 2⟩) run_streamStart
      rfl rfl enrichRequest.text_ne_nil loads_enrichRequest rfl hreg run_twoChunks hok rfl
      (.inl rfl)
    with ⟨why, hb, -⟩ | ⟨d, ok, -, hreply, hiff⟩
  · cases hb
  · obtain rfl : ok = true := hiff.2 (by simp [twoChunks, Action.failure?])
    exact hreply

end Server

end PilotLanggraph

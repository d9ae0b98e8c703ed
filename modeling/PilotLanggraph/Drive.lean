import PilotLanggraph.CallSteps
import PilotLanggraph.Middleware

/-!
# The two ways of `_drive`

`_invoke_handler` and `_drive` with their values : the models of a registration, the arguments
of a handler, the generator that a streaming handler makes. Without middleware such a handler
is called at once; otherwise the chain runs, and `_drive` goes through what it has returned
(`Writes`). `streamed` is the loop that both ways share, with whatever happens meanwhile; on
the server it is a run of the call (`streamed_run`).

* `paths_agree_iff` : all streaming handlers write the same frames without middleware and with
  one that hands everything on, if and only if the input model leaves the payload as it is.
* `invalid_payload_streams` : a payload that the model rejects reaches the handler.
-/

namespace PilotLanggraph

open Coroutine Middleware

namespace Drive

/-! ## Values -/

/-- An exception, as the `except` clauses tell them apart. -/
inductive Raised
  /-- `asyncio.TimeoutError`. -/
  | timeout
  /-- Another `Exception`, with the name of its type and its text. -/
  | exception (type text : String)
  /-- No `Exception`, such as a cancellation. -/
  | base
  deriving DecidableEq

/-- An argument of a handler, `V` being the values of the interpreter and `C` the contexts. -/
inductive Arg (V C : Type*)
  | payload (v : V)
  | context (ctx : C)

/-- What an async generator does next. -/
inductive GenOp (V E : Type*)
  | perform (e : E)
  | yield (v : V)
  | stop
  | raise (e : Raised)

/-- An async generator, from what it has heard : the replies, and nothing at a `yield`. -/
abbrev Generator (V E R : Type*) :=
  List (Option R) → GenOp V E

/-- What a handler, or the chain around it, ends with. -/
abbrev Outcome (V E R : Type*) :=
  Except Raised (Generator V E R ⊕ V)

/-- A handler, by what `inspect` says about it. -/
inductive HandlerFn (V C E R : Type*)
  | plain (call : List (Arg V C) → Except Raised V)
  | coroutine (call : List (Arg V C) → List (Answer R (Outcome V E R)) → E ⊕ Except Raised V)
  | asyncGen (call : List (Arg V C) → Except Raised (Generator V E R))

/-- The models, which raise with a text, and `json.dumps`. -/
structure Library (V : Type*) where
  /-- `input_model.model_validate`. -/
  validate : ℕ → V → Except String V
  /-- `output_model.model_validate` and `model_dump`. -/
  validateDump : ℕ → V → Except String V
  dumps : V → Except Raised Json

section

variable {V C E R : Type*} (lib : Library V) (reg : Registration)

/-! ## `_invoke_handler` -/

/-- `ctx_args`. -/
def ctxArgs (ctx : C) : List (Arg V C) :=
  if reg.wantsCtx then [.context ctx] else []

/-- `handler_p`. -/
def handlerPayload (payload : V) : Except Raised V :=
  match reg.inputModel with
  | none => .ok payload
  | some model =>
    match lib.validate model payload with
    | .ok v => .ok v
    | .error e => .error (.exception "ValueError" ("input validation: " ++ e))

/-- Output validation. -/
def handlerResult (result : V) : Outcome V E R :=
  match reg.outputModel with
  | none => .ok (.inr result)
  | some model =>
    match lib.validateDump model result with
    | .ok v => .ok (.inr v)
    | .error e => .error (.exception "ValueError" ("output validation: " ++ e))

/-- `_invoke_handler`. -/
def invokeHandler (handler : HandlerFn V C E R) (arg : V × C)
    (replies : List (Answer R (Outcome V E R))) : E ⊕ Outcome V E R :=
  match handlerPayload lib reg arg.1 with
  | .error e => .inr (.error e)
  | .ok payload =>
    let args := .payload payload :: ctxArgs reg arg.2
    match handler with
    | .asyncGen call => .inr ((call args).map .inl)
    | .coroutine call =>
      (call args replies).map id fun result => result.bind (handlerResult lib reg)
    | .plain call => .inr ((call args).bind (handlerResult lib reg))

/-! ## `_drive` -/

variable (rt : Runtime)

/-- The frame of an exception. -/
def report : Raised → List Frame
  | .timeout =>
    [.ofError "handler_error" ("timeout after " ++ rt.strSecs reg.timeoutSecs ++ "s")]
  | .exception type text => [.ofError "handler_error" (type ++ ": " ++ text)]
  | .base => []

/-- Where the loop over a generator is. -/
inductive Stage (E : Type*)
  /-- In the generator, -/
  | busy (e : E)
  /-- or in `_send_chunk`. -/
  | sending (chunkResult : Json)
  | finished
  | failed (e : Raised)

/-- Where the loop gets to. -/
def stage (g : Generator V E R) (heard : List (Option R)) : Stage E :=
  match g heard with
  | .perform e => .busy e
  | .yield v =>
    match lib.dumps v with
    | .ok chunkResult => .sending chunkResult
    | .error e => .failed e
  | .stop => .finished
  | .raise e => .failed e

/-- What has been handed to `_send_chunk` there, since the stage before. -/
def Stage.sent : Stage E → List Frame
  | .busy _ => []
  | .sending chunkResult => [.ofResult chunkResult false]
  | .finished => [.ofResult .null true]
  | .failed e => report reg rt e

/-- What happens while `_drive` waits. -/
inductive Turn (R : Type*)
  | reply (r : R)
  /-- The frame is written. -/
  | written
  /-- An exception comes up : a write fails, the time is over, the task is cancelled. -/
  | interrupt (e : Raised)

/-- `async for chunk_result in ...`, with the frame at its end. -/
def streamed (g : Generator V E R) : List (Option R) → List (Turn R) → List Frame
  | heard, [] => (stage lib g heard).sent reg rt
  | heard, turn :: turns =>
    (stage lib g heard).sent reg rt ++
      match stage lib g heard, turn with
      | .busy _, .reply r => streamed g (heard ++ [some r]) turns
      | .sending _, .written => streamed g (heard ++ [none]) turns
      | .busy _, .interrupt e | .sending _, .interrupt e | .finished, .interrupt e =>
        report reg rt e
      | _, _ => []

/-- The last frame, of what is no generator. -/
def answered (value : Json) : List (Turn R) → List Frame
  | .interrupt e :: _ => .ofResult value true :: report reg rt e
  | _ => [.ofResult value true]

/-- `_drive` goes through what the chain has returned. -/
def collected (turns : List (Turn R)) : Outcome V E R → List Frame
  | .error e => report reg rt e
  | .ok (.inl g) => streamed lib reg rt g [] turns
  | .ok (.inr result) =>
    match lib.dumps result with
    | .ok value => answered reg rt value turns
    | .error e => report reg rt e

/-- `_through_middleware` can end so. -/
def Ends {A O : Type*} (mws : List (Behaviour A E R O)) (handler : Behaviour A E R O) (arg : A)
    (o : O) : Prop :=
  ∃ as s act, Machine.run (Pool.step (sharedIndex mws handler)) (throughMiddleware mws handler arg)
    as = some s ∧ s.acts[0]? = some act ∧ act.outcome = some o

/-- `_drive` and the `except` clauses : the frames handed to `_send_chunk` while these things
happen. -/
def Writes (handler : HandlerFn V C E R) (mws : List (Behaviour (V × C) E R (Outcome V E R)))
    (payload : V) (ctx : C) (turns : List (Turn R)) (frames : List Frame) : Prop :=
  match handler, mws with
  | .asyncGen call, [] =>
    frames = match call (.payload payload :: ctxArgs reg ctx) with
      | .ok g => streamed lib reg rt g [] turns
      | .error e => report reg rt e
  | handler, mws =>
    ∃ o, Ends mws (handlerOf (invokeHandler lib reg handler)) (payload, ctx) o ∧
      frames = collected lib reg rt turns o

/-! ## On the server -/

section

variable {s : Server} {i : ℕ} {c : Call} {d : Dispatch} {mode : Mode}

/-- An exception ends the dispatch. -/
theorem report_run (hc : s.calls i = some c)
    (hphase : c.phase = .driving d mode ∨ c.phase = .finishing d) (e : Raised) :
    ∃ a s' c', s.step rt a = some s' ∧ s'.calls i = some c' ∧
      c'.sent = c.sent ++ report (s.regs d.reg) rt e := by
  cases e with
  | timeout =>
    have hstep : s.step rt (.timedOut i 0) = some (s.report i c d
        ("timeout after " ++ rt.strSecs (s.regs d.reg).timeoutSecs ++ "s") 0) := by
      refine Server.step_of_stepCall hc rfl ?_
      rcases hphase with hphase | hphase <;> simp only [Server.stepCall, hphase]
    exact ⟨_, _, _, hstep, Function.update_self .., rfl⟩
  | exception type text =>
    have hstep : s.step rt (.raised i (type ++ ": " ++ text) 0) =
        some (s.report i c d (type ++ ": " ++ text) 0) := by
      refine Server.step_of_stepCall hc rfl ?_
      rcases hphase with hphase | hphase <;> simp only [Server.stepCall, hphase]
    exact ⟨_, _, _, hstep, Function.update_self .., rfl⟩
  | base =>
    have hstep : s.step rt (.cancelled i) =
        some ((s.setReg d.reg (s.regs d.reg).release).leave i c (.dispatched d)) := by
      refine Server.step_of_stepCall hc rfl ?_
      rcases hphase with hphase | hphase <;> simp only [Server.stepCall, hphase]
    exact ⟨_, _, _, hstep, Function.update_self .., (List.append_nil _).symm⟩

/-- The call goes on from a stage, unless it has failed. -/
def Stage.GoesOn (d : Dispatch) (mode : Mode) (phase : CallPhase) : Stage E → Prop
  | .busy _ | .sending _ => phase = .driving d mode
  | .finished => phase = .finishing d
  | .failed _ => True

/-- The loop gets to a stage. -/
theorem stage_run (hc : s.calls i = some c) (hphase : c.phase = .driving d mode)
    (hmode : mode = .fast ∨ mode = .collecting) (st : Stage E) :
    ∃ as s' c', Machine.run (Server.step rt) s as = some s' ∧ s'.calls i = some c' ∧
      c'.sent = c.sent ++ st.sent (s.regs d.reg) rt ∧ st.GoesOn d mode c'.phase ∧
        ((∃ e, st = .failed e) ∨ s'.regs = s.regs) := by
  cases st with
  | busy e => exact ⟨[], s, c, rfl, hc, (List.append_nil _).symm, hphase, .inr rfl⟩
  | sending chunkResult =>
    have hstep : s.step rt (.yield i chunkResult) =
        some (s.send i c (.ofResult chunkResult false) (.driving d mode)) := by
      refine Server.step_of_stepCall hc rfl ?_
      rcases hmode with rfl | rfl <;> simp only [Server.stepCall, hphase]
    exact ⟨[_], _, _, Machine.run_of_step hstep [], Function.update_self .., rfl, rfl, .inr rfl⟩
  | finished =>
    have hstep : s.step rt (.exhausted i) =
        some (s.send i c (.ofResult .null true) (.finishing d)) := by
      refine Server.step_of_stepCall hc rfl ?_
      rcases hmode with rfl | rfl <;> simp only [Server.stepCall, hphase]
    exact ⟨[_], _, _, Machine.run_of_step hstep [], Function.update_self .., rfl, rfl, .inr rfl⟩
  | failed e =>
    obtain ⟨a, s', c', hstep, hc', hsent⟩ := report_run rt hc (.inl hphase) e
    exact ⟨[a], s', c', Machine.run_of_step hstep [], hc', hsent, trivial, .inl ⟨e, rfl⟩⟩

/-- A generator on the server : whatever happens, the loop over it is a run of its call. -/
theorem streamed_run (hc : s.calls i = some c) (hphase : c.phase = .driving d mode)
    (hmode : mode = .fast ∨ mode = .collecting) (g : Generator V E R) (heard : List (Option R))
    (turns : List (Turn R)) : ∃ as s' c', Machine.run (Server.step rt) s as = some s' ∧
      s'.calls i = some c' ∧ c'.sent = c.sent ++ streamed lib (s.regs d.reg) rt g heard turns := by
  induction turns generalizing s c heard with
  | nil =>
    obtain ⟨as, s', c', hrun, hc', hsent, -⟩ := stage_run rt hc hphase hmode (stage lib g heard)
    exact ⟨as, s', c', hrun, hc', hsent⟩
  | cons turn turns ih =>
    obtain ⟨as, t, c₁, hrun, hc₁, hsent, hgoes, hregs⟩ :=
      stage_run rt hc hphase hmode (stage lib g heard)
    unfold streamed
    -- What comes after the stage, as a run of its own.
    suffices h : ∃ bs s' c', Machine.run (Server.step rt) t bs = some s' ∧
        s'.calls i = some c' ∧ c'.sent = c₁.sent ++ match stage lib g heard, turn with
          | .busy _, .reply r => streamed lib (s.regs d.reg) rt g (heard ++ [some r]) turns
          | .sending _, .written => streamed lib (s.regs d.reg) rt g (heard ++ [none]) turns
          | .busy _, .interrupt e | .sending _, .interrupt e | .finished, .interrupt e =>
            report (s.regs d.reg) rt e
          | _, _ => [] by
      obtain ⟨bs, s', c', hbs, hc', hsent'⟩ := h
      refine ⟨as ++ bs, s', c', by rw [Machine.run_append, hrun, Option.bind_some, hbs], hc', ?_⟩
      rw [hsent', hsent, List.append_assoc]
    have hstay : ∃ bs s' c', Machine.run (Server.step rt) t bs = some s' ∧
        s'.calls i = some c' ∧ c'.sent = c₁.sent ++ [] :=
      ⟨[], t, c₁, rfl, hc₁, (List.append_nil _).symm⟩
    have hreport : ∀ e, t.regs = s.regs →
        (c₁.phase = .driving d mode ∨ c₁.phase = .finishing d) →
        ∃ bs s' c', Machine.run (Server.step rt) t bs = some s' ∧
          s'.calls i = some c' ∧ c'.sent = c₁.sent ++ report (s.regs d.reg) rt e := by
      intro e hregs hphase₁
      obtain ⟨a, s', c', hstep, hc', hsent'⟩ := report_run rt hc₁ hphase₁ e
      exact ⟨[a], s', c', Machine.run_of_step hstep [], hc', hregs ▸ hsent'⟩
    cases hst : stage lib g heard with
    | failed e => exact hstay
    | busy e =>
      rw [hst] at hgoes hregs
      have hsame : t.regs = s.regs := by simpa using hregs
      cases turn with
      | reply r => exact hsame ▸ ih hc₁ hgoes (heard ++ [some r])
      | written => exact hstay
      | interrupt e => exact hreport e hsame (.inl hgoes)
    | sending chunkResult =>
      rw [hst] at hgoes hregs
      have hsame : t.regs = s.regs := by simpa using hregs
      cases turn with
      | reply r => exact hstay
      | written => exact hsame ▸ ih hc₁ hgoes (heard ++ [none])
      | interrupt e => exact hreport e hsame (.inl hgoes)
    | finished =>
      rw [hst] at hgoes hregs
      have hsame : t.regs = s.regs := by simpa using hregs
      cases turn with
      | reply r => exact hstay
      | written => exact hstay
      | interrupt e => exact hreport e hsame (.inr hgoes)

end

/-! ## One middleware that hands everything on -/

section

variable {A O : Type*} (inv : A → O) (arg : A)

/-- The middleware around a handler that is done at once. -/
def handsOn : Script ℕ ℕ A E R O :=
  sharedIndex [passOn] (handlerOf fun x _ => .inr (inv x))

theorem behave_handsOn (place : ℕ) :
    (handsOn inv : Script ℕ ℕ A E R O).behave place = passOn ∨
      (handsOn inv : Script ℕ ℕ A E R O).behave place = fun x _ => .finish (inv x) := by
  cases place with
  | zero => exact Or.inl rfl
  | succ place => exact Or.inr rfl

/-- What an activation handles there. -/
def Handed (act : Activation ℕ A R O) : Prop :=
  act.arg = arg ∧ (∀ x ∈ act.calls, x = arg) ∧ (∀ o, .ended o ∈ act.replies → o = inv arg) ∧
    ∀ o, act.outcome = some o → o = inv arg

theorem eq_of_passOn_call {a x : A} {replies : List (Answer R O)}
    (h : (passOn a replies : Op A E O) = .call x) : x = a := by
  unfold passOn at h
  split at h <;> cases h
  rfl

theorem mem_of_passOn_finish {a : A} {o : O} {replies : List (Answer R O)}
    (h : (passOn a replies : Op A E O) = .finish o) : .ended o ∈ replies := by
  unfold passOn at h
  split at h <;> cases h
  simp

theorem Handed.moves {act act' : Activation ℕ A R O} {outcome : ℕ → Option O}
    (h : Handed inv arg act)
    (houtcome : ∀ k o, outcome k = some o → ∃ other : Activation ℕ A R O, Handed inv arg other ∧
      other.outcome = some o)
    (hmove : act.Moves ((handsOn inv : Script ℕ ℕ A E R O).behave act.prog) outcome act') :
    Handed inv arg act' := by
  obtain ⟨harg, hcalls, hended, hdone⟩ := h
  have hbehave := behave_handsOn (R := R) (E := E) inv act.prog
  have hheard : ∀ r : R, ∀ o, .ended o ∈ act.replies ++ [.heard r] → o = inv arg := by
    intro r o ho
    exact hended o (by simpa using ho)
  cases hmove with
  | performed => exact ⟨harg, hcalls, hheard _, hdone⟩
  | interrupted => exact ⟨harg, hcalls, hheard _, hdone⟩
  | @called x hop =>
    refine ⟨harg, fun y hy => ?_, fun o ho => hended o (by simpa [Activation.hear] using ho), hdone⟩
    rcases List.mem_append.1 hy with hy | hy
    · exact hcalls y hy
    · rw [List.mem_singleton.1 hy]
      rcases hbehave with hbehave | hbehave
      · rw [hbehave] at hop
        exact (eq_of_passOn_call hop).trans harg
      · rw [hbehave] at hop
        cases hop
  | @awaited k o hop ho =>
    refine ⟨harg, hcalls, fun o' ho' => ?_, hdone⟩
    rcases List.mem_append.1 ho' with ho' | ho'
    · exact hended o' ho'
    · obtain ⟨other, hother, hout⟩ := houtcome k o ho
      obtain rfl : o' = o := by simpa using ho'
      exact hother.2.2.2 o' hout
  | @finished o hop =>
    refine ⟨harg, hcalls, hended, fun o' ho' => ?_⟩
    obtain rfl := Option.some.inj ho'
    rcases hbehave with hbehave | hbehave
    · rw [hbehave] at hop
      exact hended _ (mem_of_passOn_finish hop)
    · rw [hbehave] at hop
      obtain rfl := Op.finish.inj hop
      rw [harg]

/-- Through such a middleware, the chain ends as the handler does. -/
theorem ends_passOn (o : O) :
    Ends ([passOn] : List (Behaviour A E R O)) (handlerOf fun x _ => .inr (inv x)) arg o ↔
      o = inv arg := by
  constructor
  · rintro ⟨as, s, act, hrun, hact, ho⟩
    have hhanded : ∀ act ∈ s.acts, Handed inv arg act := by
      refine Machine.run_induction (fun _ s => ∀ act ∈ s.acts, Handed inv arg act) ?_ ?_ hrun
      · intro act hact
        rw [List.mem_singleton.1 hact]
        exact ⟨rfl, by simp, by simp, by simp⟩
      · intro as s x s' _ h hstep
        refine Pool.step_forall (fun h houtcome hmove => h.moves inv arg houtcome hmove) ?_ h hstep
        intro act x shared caller h hx
        exact ⟨h.2.1 x hx, by simp, by simp, by simp⟩
    exact (hhanded act (List.mem_of_getElem? hact)).2.2.2 o ho
  · rintro rfl
    exact ⟨[.own 0 .call, .begin 0 0, .own 1 .finish, .own 0 .await, .own 0 .finish], _, _,
      rfl, rfl, rfl⟩

end

/-! ## The two ways -/

/-- What `_invoke_handler` does with a streaming handler : it makes the generator. -/
def opened (call : List (Arg V C) → Except Raised (Generator V E R)) (arg : V × C) :
    Outcome V E R :=
  (handlerPayload lib reg arg.1).bind fun payload =>
    (call (.payload payload :: ctxArgs reg arg.2)).map .inl

theorem invokeHandler_asyncGen (call : List (Arg V C) → Except Raised (Generator V E R)) :
    invokeHandler lib reg (.asyncGen call) = fun arg _ => .inr (opened lib reg call arg) := by
  funext arg replies
  unfold invokeHandler opened
  cases handlerPayload lib reg arg.1 <;> rfl

section

variable {lib reg rt} {call : List (Arg V C) → Except Raised (Generator V E R)} {payload : V}
  {ctx : C} {turns : List (Turn R)} {frames : List Frame}

theorem writes_direct : Writes lib reg rt (.asyncGen call) [] payload ctx turns frames ↔
    frames = collected lib reg rt turns
      ((call (.payload payload :: ctxArgs reg ctx)).map .inl) := by
  show frames = (match call (.payload payload :: ctxArgs reg ctx) with
    | .ok g => streamed lib reg rt g [] turns
    | .error e => report reg rt e) ↔ _
  cases call (.payload payload :: ctxArgs reg ctx) <;> rfl

theorem writes_passOn : Writes lib reg rt (.asyncGen call) [passOn] payload ctx turns frames ↔
    frames = collected lib reg rt turns (opened lib reg call (payload, ctx)) := by
  unfold Writes
  simp only [invokeHandler_asyncGen, ends_passOn, exists_eq_left]

end

/-- A generator that is done at once, and one that raises at once, are told apart. -/
theorem finished_ne_report (e : Raised) : [Frame.ofResult .null true] ≠ report reg rt e := by
  cases e <;> simp [report, Frame.ofResult, Frame.ofError]

/-- Whatever the handler, and whatever happens, the frames are those of a server with one
middleware that hands everything on, if and only if the name has no chain or the input model
gives the payload back as it is. -/
theorem paths_agree_iff (node : String) (payload : V) (ctx : C) :
    (∀ (call : List (Arg V C) → Except Raised (Generator V E R)) (turns : List (Turn R))
        (frames : List Frame),
      Writes lib reg rt (.asyncGen call) (mws [] node) payload ctx turns frames ↔
        Writes lib reg rt (.asyncGen call) (mws [passOn] node) payload ctx turns frames) ↔
    Server.isIntrospection node = true ∨ ∀ model, reg.inputModel = some model →
      lib.validate model payload = .ok payload := by
  have hnone : (mws [] node : List (Behaviour (V × C) E R (Outcome V E R))) = [] := ite_self _
  rw [hnone]
  constructor
  · intro h
    by_contra hne
    rw [not_or, not_forall] at hne
    obtain ⟨hnode, model, hne⟩ := hne
    obtain ⟨hmodel, hne⟩ := Classical.not_imp.1 hne
    have hmws : (mws [passOn] node : List (Behaviour (V × C) E R (Outcome V E R))) = [passOn] :=
      if_neg hnode
    rw [hmws] at h
    simp only [writes_direct, writes_passOn] at h
    cases hv : lib.validate model payload with
    | error e =>
      -- The model rejects the payload, and a handler takes it all the same.
      have hpayload : handlerPayload lib reg payload =
          .error (.exception "ValueError" ("input validation: " ++ e)) := by
        simp only [handlerPayload, hmodel, hv]
      have hframes := (h (fun _ => .ok fun _ => .stop) [] _).1 rfl
      simp only [opened, hpayload] at hframes
      exact finished_ne_report reg rt (.exception "ValueError" ("input validation: " ++ e)) hframes
    | ok v =>
      -- The model makes another value of it, and a handler takes the payload only.
      classical
      have hpayload : handlerPayload lib reg payload = .ok v := by
        simp only [handlerPayload, hmodel, hv]
      have hother : (.payload v :: ctxArgs reg ctx : List (Arg V C)) ≠
          .payload payload :: ctxArgs reg ctx := by
        intro heq
        obtain rfl : v = payload := Arg.payload.inj (List.cons.inj heq).1
        exact hne hv
      have hframes := (h (fun args => if args = .payload payload :: ctxArgs reg ctx then
        .ok fun _ => .stop else .error .base) [] _).1 rfl
      simp only [opened, hpayload, if_pos, Except.bind, if_neg hother] at hframes
      exact finished_ne_report reg rt .base hframes
  · rintro (hnode | hmodel) call turns frames
    · rw [mws, if_pos hnode]
    · have hpayload : handlerPayload lib reg payload = .ok payload := by
        unfold handlerPayload
        cases hreg : reg.inputModel with
        | none => rfl
        | some model => simp only [hmodel model hreg]
      unfold mws
      split_ifs
      · exact Iff.rfl
      · rw [writes_direct, writes_passOn, opened, hpayload]
        rfl

end

/-! ## A model that rejects -/

/-- A model that takes nothing. -/
def strictLibrary : Library Json where
  validate _ _ := .error "1 validation error for Query"
  validateDump _ v := .ok v
  dumps := .ok

/-- A streaming handler with that model. -/
def strictStream : Registration :=
  .new ⟨40, .asyncGen, some ⟨1, false⟩⟩ { inputModel := some 0 }

/-- It says that it has run. -/
def streamOnce (_ : List (Arg Json Unit)) : Except Raised (Generator Json Unit Unit) :=
  .ok fun heard => if heard = [] then .yield (.str "ran") else .stop

/-- Without middleware the handler runs on a payload that its model rejects, and with a
middleware that hands everything on, the caller gets the error. -/
theorem invalid_payload_streams :
    Writes strictLibrary strictStream Server.plainRuntime (.asyncGen streamOnce)
      (mws [] "stream") (.str "oops") () [.written]
      [.ofResult (.str "ran") false, .ofResult .null true] ∧
    Writes strictLibrary strictStream Server.plainRuntime (.asyncGen streamOnce)
      (mws [passOn] "stream") (.str "oops") () [.written]
      [.ofError "handler_error" "ValueError: input validation: 1 validation error for Query"] ∧
    ¬Writes strictLibrary strictStream Server.plainRuntime (.asyncGen streamOnce)
      (mws [passOn] "stream") (.str "oops") () [.written]
      [.ofResult (.str "ran") false, .ofResult .null true] := by
  have hmws : (mws [passOn] "stream" : List (Behaviour (Json × Unit) Unit Unit
      (Outcome Json Unit Unit))) = [passOn] := by
    unfold mws
    rw [if_neg (by decide)]
  rw [hmws, writes_passOn, writes_passOn]
  refine ⟨rfl, by decide, by decide⟩

end Drive

end PilotLanggraph

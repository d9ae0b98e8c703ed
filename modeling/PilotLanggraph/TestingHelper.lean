import PilotLanggraph.Drive

/-!
# The test helper

`testing.invoke_handler` beside the worker. The helper has its own copy of the dispatch : it
validates, calls the handler with a context or without, collects the chunks of a generator and
validates the result. Both run the same handler, and the same happens to it meanwhile
(`heard`) : the replies that it waits for, and the times at which a generator goes on.

* `predicts_iff` : when the helper predicts the reply of the worker.
* `generators_predicted_iff` : it does for all streaming handlers exactly if the input model
  leaves the payload as it is.
-/

namespace PilotLanggraph

open Coroutine Middleware Drive

namespace Testing

/-! ## Values -/

/-- The values of the interpreter, those of JSON among them. -/
structure Interpreter (V : Type*) extends Library V where
  /-- What `json.loads` makes. -/
  ofJson : Json → V
  dumps_ofJson : ∀ j, dumps (ofJson j) = .ok j
  /-- `isinstance(result, list)`. -/
  isList : V → Bool
  isList_ofJson : ∀ j, isList (ofJson j) = true ↔ ∃ items, j = .arr items
  /-- What the models dump is JSON. -/
  dumped : ∀ model v w, validateDump model v = .ok w → ∃ j, w = ofJson j

/-- The result of a handler, or the list of what it has yielded. -/
inductive Returned (V : Type*)
  | value (v : V)
  | chunks (vs : List V)
  deriving DecidableEq

section

variable {V C E R : Type*} (py : Interpreter V)

/-! ## `invoke_handler` -/

/-- `handler_p`. -/
def handlerP (inputModel : Option ℕ) (payload : V) : Except Raised V :=
  match inputModel with
  | none => .ok payload
  | some model =>
    match py.validate model payload with
    | .ok v => .ok v
    | .error e => .error (.exception "ValueError" ("input validation: " ++ e))

/-- `args`. Without a `ctx` the helper makes one. -/
def args (fn : Handler) (makeContext : C) (ctx : Option C) (handlerP : V) : List (Arg V C) :=
  if fn.wantsContext then [.payload handlerP, .context (ctx.getD makeContext)]
  else [.payload handlerP]

/-- `await`, until there is an outcome or nothing more is heard. -/
def awaited {O P : Type*} (coro : List (Answer R O) → E ⊕ P) :
    List (Answer R O) → List (Option R) → Option P
  | replies, [] => (coro replies).getRight?
  | replies, some r :: heard =>
    match coro replies with
    | .inl _ => awaited coro (replies ++ [.heard r]) heard
    | .inr o => some o
  | replies, none :: _ => (coro replies).getRight?

/-- `async for c in handler(*args): chunks.append(c)`, from the chunks so far. -/
def collect (g : Generator V E R) :
    List V → List (Option R) → List (Option R) → Option (Except Raised (List V))
  | chunks, earlier, [] =>
    match g earlier with
    | .stop => some (.ok chunks)
    | .raise e => some (.error e)
    | _ => none
  | chunks, earlier, next :: heard =>
    match g earlier, next with
    | .perform _, some r => collect g chunks (earlier ++ [some r]) heard
    | .yield c, none => collect g (chunks ++ [c]) (earlier ++ [none]) heard
    | .stop, _ => some (.ok chunks)
    | .raise e, _ => some (.error e)
    | _, _ => none

/-- The handler is run on its arguments. -/
def call (handler : HandlerFn V C E R) (args : List (Arg V C)) (heard : List (Option R)) :
    Option (Except Raised (Returned V)) :=
  match handler with
  | .asyncGen call =>
    match call args with
    | .ok g => (collect g [] [] heard).map (Except.map .chunks)
    | .error e => some (.error e)
  | .coroutine call => (awaited (call args) [] heard).map (Except.map .value)
  | .plain call => some ((call args).map .value)

/-- Output validation, of what is no list. -/
def validated (outputModel : Option ℕ) (result : Returned V) : Except Raised (Returned V) :=
  match outputModel, result with
  | some model, .value v =>
    if py.isList v then .ok result
    else
      match py.validateDump model v with
      | .ok v => .ok (.value v)
      | .error e => .error (.exception "ValueError" ("output validation: " ++ e))
  | _, _ => .ok result

/-- `invoke_handler`, of `testing`. -/
def invokeHandler (fn : Handler) (handler : HandlerFn V C E R) (inputModel outputModel : Option ℕ)
    (makeContext : C) (ctx : Option C) (payload : V) (heard : List (Option R)) :
    Option (Except Raised (Returned V)) :=
  match handlerP py inputModel payload with
  | .error e => some (.error e)
  | .ok handlerP =>
    (call handler (args fn makeContext ctx handlerP) heard).map
      fun result => result.bind (validated py outputModel)

/-! ## The worker -/

variable (rt : Runtime)

/-- The registration with the options of the helper. -/
def registered (fn : Handler) (inputModel outputModel : Option ℕ) : Registration :=
  .new fn { inputModel := inputModel, outputModel := outputModel }

/-- What the handler hears, to `_drive` : its generator goes on when a frame is written. -/
def turns (heard : List (Option R)) : List (Turn R) :=
  heard.map fun next => next.elim .written .reply

/-- What `_invoke_handler` ends with, when it is awaited. -/
def workerOutcome (reg : Registration) (handler : HandlerFn V C E R) (payload : V) (ctx : C)
    (heard : List (Option R)) : Option (Drive.Outcome V E R) :=
  awaited (Drive.invokeHandler py.toLibrary reg handler (payload, ctx)) [] heard

/-- The frames of `_drive` without middleware. -/
def replied (reg : Registration) (handler : HandlerFn V C E R) (payload : V) (ctx : C)
    (heard : List (Option R)) : List Frame :=
  match handler with
  | .asyncGen call =>
    collected py.toLibrary reg rt (turns heard)
      ((call (.payload payload :: ctxArgs reg ctx)).map .inl)
  | handler =>
    (workerOutcome py reg handler payload ctx heard).elim [] (collected py.toLibrary reg rt [])

/-! ## Prediction -/

/-- The reply of the worker brings this result : a value in one frame, or chunks in theirs. -/
def Replies (handler : HandlerFn V C E R) (frames : List Frame) : Returned V → Prop
  | .value v => (∀ call, handler ≠ .asyncGen call) ∧
      ∃ j, v = py.ofJson j ∧ frames = [.ofResult j true]
  | .chunks vs => (∃ call, handler = .asyncGen call) ∧
      ∃ js : List Json, vs = js.map py.ofJson ∧
        frames = js.map (Frame.ofResult · false) ++ [.ofResult .null true]

/-- What the helper does is what the worker replies. -/
def Predicts (handler : HandlerFn V C E R) (helper : Option (Except Raised (Returned V)))
    (frames : List Frame) : Prop :=
  (∀ result, Replies py handler frames result → helper = some (.ok result)) ∧
    ((∃ e, helper = some (.error e)) ↔ ∃ text, .ofError "handler_error" text ∈ frames)

/-- All that the handler returns or yields is JSON. -/
structure JsonResults (handler : HandlerFn V C E R) : Prop where
  plain : ∀ call, handler = .plain call → ∀ args v, call args = .ok v → ∃ j, v = py.ofJson j
  coroutine : ∀ call, handler = .coroutine call → ∀ args replies v,
    call args replies = .inr (.ok v) → ∃ j, v = py.ofJson j
  asyncGen : ∀ call, handler = .asyncGen call → ∀ args g, call args = .ok g →
    ∀ earlier v, g earlier = .yield v → ∃ j, v = py.ofJson j

/-- A generator does with the payload as it came what it does with the checked one : it yields
the same chunks to the end, or both raise. -/
def StreamsAlike (raw checked : Option (Except Raised (Returned V))) : Prop :=
  (∀ result, raw = some (.ok result) → checked = some (.ok result)) ∧
    ((∃ e, checked = some (.error e)) ↔ ∃ e, e ≠ .base ∧ raw = some (.error e))

/-- The handler does not end by an exception that is no `Exception`, and a list that it returns
is one that the output model leaves as it is. -/
def AnswersAlike (outputModel : Option ℕ) (checked : Option (Except Raised (Returned V))) : Prop :=
  checked ≠ some (.error .base) ∧ ∀ items model,
    checked = some (.ok (.value (py.ofJson (.arr items)))) → outputModel = some model →
      py.validateDump model (py.ofJson (.arr items)) = .ok (py.ofJson (.arr items))

/-- The run of the handler on the payload that the input model makes. -/
def checkedRun (fn : Handler) (handler : HandlerFn V C E R) (inputModel : Option ℕ)
    (makeContext : C) (ctx : Option C) (payload : V) (heard : List (Option R)) :
    Option (Except Raised (Returned V)) :=
  match handlerP py inputModel payload with
  | .error e => some (.error e)
  | .ok v => call handler (args fn makeContext ctx v) heard

/-- The two dispatch alike. -/
def DispatchedAlike (fn : Handler) (handler : HandlerFn V C E R)
    (inputModel outputModel : Option ℕ) (makeContext : C) (ctx : Option C) (payload : V)
    (heard : List (Option R)) : Prop :=
  let checked := checkedRun py fn handler inputModel makeContext ctx payload heard
  match handler with
  | .asyncGen _ => StreamsAlike (call handler (args fn makeContext ctx payload) heard) checked
  | _ => AnswersAlike py outputModel checked

variable {py rt}

/-- A handler that makes no generator. -/
theorem replied_of_not_streaming {handler : HandlerFn V C E R}
    (h : ∀ call, handler ≠ .asyncGen call) (reg : Registration) (payload : V) (ctx : C)
    (heard : List (Option R)) :
    replied py rt reg handler payload ctx heard =
      (workerOutcome py reg handler payload ctx heard).elim []
        (collected py.toLibrary reg rt []) := by
  cases handler with
  | asyncGen call => exact absurd rfl (h call)
  | coroutine call => rfl
  | plain call => rfl

section

variable {A O : Type*} {fn : A → List (Answer R O) → E ⊕ O} {s : Pool ℕ ℕ A E R O}
  {act : Activation ℕ A R O}

/-- The chain without middlewares : the handler alone. -/
def alone (fn : A → List (Answer R O) → E ⊕ O) : Script ℕ ℕ A E R O :=
  sharedIndex [] (handlerOf fn)

theorem step_heard {e : E} (hacts : s.acts = [act]) (hgoing : act.outcome = none)
    (h : fn act.arg act.replies = .inl e) (r : R) :
    Pool.step (alone fn) s (.own 0 (.perform r)) =
      some { s with acts := [act.hear (.heard r)], effects := s.effects ++ [(0, e)] } := by
  have hop : (alone fn).behave act.prog act.arg act.replies = .perform e := by
    show handlerOf fn act.arg act.replies = .perform e
    rw [handlerOf, h]
  simp [Pool.step, hacts, Activation.move, hgoing, hop]

theorem step_finish {o : O} (hacts : s.acts = [act]) (hgoing : act.outcome = none)
    (h : fn act.arg act.replies = .inr o) :
    Pool.step (alone fn) s (.own 0 .finish) =
      some { s with acts := [{ act with outcome := some o }] } := by
  have hop : (alone fn).behave act.prog act.arg act.replies = .finish o := by
    show handlerOf fn act.arg act.replies = .finish o
    rw [handlerOf, h]
  simp [Pool.step, hacts, Activation.move, hgoing, hop]

theorem awaited_of_inr {P : Type*} {coro : List (Answer R O) → E ⊕ P}
    {replies : List (Answer R O)} {o : P} (h : coro replies = .inr o) (heard : List (Option R)) :
    awaited coro replies heard = some o := by
  unfold awaited
  split <;> simp [h]

/-- What is awaited is an outcome of the chain. -/
theorem run_of_awaited {o : O} (heard : List (Option R)) (hacts : s.acts = [act])
    (hgoing : act.outcome = none) (h : awaited (fn act.arg) act.replies heard = some o) :
    ∃ as s' act', Machine.run (Pool.step (alone fn)) s as = some s' ∧ s'.acts[0]? = some act' ∧
      act'.outcome = some o := by
  induction heard generalizing s act with
  | nil =>
    have hfn : fn act.arg act.replies = .inr o := Sum.getRight?_eq_some_iff.1 h
    exact ⟨_, _, _, Machine.run_of_step (step_finish hacts hgoing hfn) [], rfl, rfl⟩
  | cons next heard ih =>
    cases hfn : fn act.arg act.replies with
    | inr o' =>
      rw [awaited_of_inr hfn] at h
      cases h
      exact ⟨_, _, _, Machine.run_of_step (step_finish hacts hgoing hfn) [], rfl, rfl⟩
    | inl e =>
      cases next with
      | none =>
        rw [awaited, hfn] at h
        cases h
      | some r =>
        rw [awaited, hfn] at h
        obtain ⟨as, s', act', hrun, hact', ho⟩ :=
          ih (s := { s with acts := [act.hear (.heard r)], effects := s.effects ++ [(0, e)] }) rfl
            hgoing h
        exact ⟨_, s', act', (Machine.run_of_step (step_heard hacts hgoing hfn r) as).trans hrun,
          hact', ho⟩

end

/-- The frames are such as the worker writes, if it writes any. -/
theorem writes_replied (reg : Registration) (handler : HandlerFn V C E R) (payload : V) (ctx : C)
    (heard : List (Option R)) :
    replied py rt reg handler payload ctx heard = [] ∨
      ∃ turns, Writes py.toLibrary reg rt handler [] payload ctx turns
        (replied py rt reg handler payload ctx heard) := by
  by_cases hstreaming : ∃ call, handler = .asyncGen call
  · obtain ⟨call, rfl⟩ := hstreaming
    exact Or.inr ⟨turns heard, writes_direct.2 rfl⟩
  · rw [replied_of_not_streaming (not_exists.1 hstreaming)]
    cases h : workerOutcome py reg handler payload ctx heard with
    | none => exact Or.inl rfl
    | some o =>
      have hstart : (throughMiddleware [] (handlerOf (Drive.invokeHandler py.toLibrary reg handler))
          (payload, ctx)).acts = [⟨0, (payload, ctx), none, [], [], none⟩] := rfl
      obtain ⟨as, s, act, hrun, hact, ho⟩ := run_of_awaited heard hstart rfl h
      refine Or.inr ⟨[], ?_⟩
      cases handler with
      | asyncGen call => exact absurd ⟨call, rfl⟩ hstreaming
      | coroutine call => exact ⟨o, ⟨as, s, act, hrun, hact, ho⟩, rfl⟩
      | plain call => exact ⟨o, ⟨as, s, act, hrun, hact, ho⟩, rfl⟩

/-! ## The frames of a generator -/

/-- A chunk. -/
def chunkFrame (j : Json) : Frame :=
  .ofResult j false

theorem chunkFrame_injective : Function.Injective chunkFrame := by
  intro j j' h
  simpa [chunkFrame, Frame.ofResult] using h

/-- What ends a reply is no chunk. -/
theorem done_notMem (js : List Json) : Frame.ofResult .null true ∉ js.map chunkFrame := by
  simp [chunkFrame, Frame.ofResult]

theorem ofError_notMem (js : List Json) (text : String) :
    Frame.ofError "handler_error" text ∉ js.map chunkFrame := by
  simp [chunkFrame, Frame.ofResult, Frame.ofError]

/-- Every exception but those that are no `Exception` is reported. -/
theorem ofError_mem_report_iff {reg : Registration} {e : Raised} :
    (∃ text, Frame.ofError "handler_error" text ∈ report reg rt e) ↔ e ≠ .base := by
  cases e <;> simp [report]

theorem ofResult_notMem_report {reg : Registration} {e : Raised} (j : Json) (done : Bool) :
    Frame.ofResult j done ∉ report reg rt e := by
  cases e <;> simp [report, Frame.ofResult, Frame.ofError]

variable {reg : Registration}

/-- What the loop over a generator has sent, and what the helper has collected meanwhile. -/
inductive InStep (py : Interpreter V) (rt : Runtime) (reg : Registration) :
    List Frame → Option (Except Raised (List V)) → Prop
  | going (js : List Json) : InStep py rt reg (js.map chunkFrame) none
  | finished (js : List Json) : InStep py rt reg (js.map chunkFrame ++ [.ofResult .null true])
      (some (.ok (js.map py.ofJson)))
  | failed (js : List Json) (e : Raised) :
    InStep py rt reg (js.map chunkFrame ++ report reg rt e) (some (.error e))

theorem InStep.sent (js : List Json) (j : Json) :
    InStep py rt reg (js.map chunkFrame ++ [.ofResult j false]) none := by
  have h : InStep py rt reg ((js ++ [j]).map chunkFrame) none := .going (js ++ [j])
  rwa [List.map_append] at h

/-- The two loops over a generator stay in step. -/
theorem inStep_collect {g : Generator V E R}
    (hjson : ∀ earlier v, g earlier = .yield v → ∃ j, v = py.ofJson j) (heard : List (Option R)) :
    ∀ (earlier : List (Option R)) (js : List Json),
      InStep py rt reg (js.map chunkFrame ++ streamed py.toLibrary reg rt g earlier (turns heard))
        (collect g (js.map py.ofJson) earlier heard) := by
  induction heard with
  | nil =>
    intro earlier js
    rw [turns, List.map_nil, streamed, stage, collect]
    cases hop : g earlier with
    | perform e =>
      dsimp only [Stage.sent]
      rw [List.append_nil]
      exact .going js
    | yield v =>
      obtain ⟨j, rfl⟩ := hjson earlier v hop
      dsimp only
      rw [py.dumps_ofJson]
      exact .sent js j
    | stop => exact .finished js
    | raise e => exact .failed js e
  | cons next heard ih =>
    intro earlier js
    rw [turns, List.map_cons]
    unfold streamed stage collect
    cases hop : g earlier with
    | perform e =>
      dsimp only [Stage.sent]
      cases next with
      | none =>
        rw [List.nil_append, Option.elim_none, List.append_nil]
        exact .going js
      | some r =>
        rw [List.nil_append]
        exact ih (earlier ++ [some r]) js
    | yield v =>
      obtain ⟨j, rfl⟩ := hjson earlier v hop
      dsimp only
      rw [py.dumps_ofJson]
      dsimp only [Stage.sent]
      cases next with
      | none =>
        have hnext := ih (earlier ++ [none]) (js ++ [j])
        rw [List.map_append, List.map_append, List.append_assoc] at hnext
        exact hnext
      | some r =>
        rw [Option.elim_some, List.append_nil]
        exact .sent js j
    | stop =>
      cases next with
      | none => exact .finished js
      | some r => exact .finished js
    | raise e =>
      dsimp only [Stage.sent]
      rw [List.append_nil]
      exact .failed js e

/-- The chunks of a reply are those that the helper has collected. -/
theorem InStep.replies_iff {frames : List Frame} {out : Option (Except Raised (List V))}
    (h : InStep py rt reg frames out) (c : List (Arg V C) → Except Raised (Generator V E R))
    (result : Returned V) :
    Replies py (.asyncGen c) frames result ↔
      out.map (Except.map .chunks) = some (.ok result) := by
  cases result with
  | value v =>
    refine iff_of_false (fun hvalue => hvalue.1 c rfl) ?_
    rcases out with _ | _ | vs
    · exact fun hout => nomatch hout
    · exact fun hout => nomatch hout
    · exact fun hout => nomatch hout
  | chunks vs =>
    have hlast : ∀ js : List Json,
        Frame.ofResult .null true ∈ js.map chunkFrame ++ [.ofResult .null true] :=
      fun js => List.mem_append_right _ (List.mem_singleton_self _)
    cases h with
    | going js =>
      refine iff_of_false ?_ fun hout => nomatch hout
      rintro ⟨-, js', -, hframes⟩
      exact done_notMem js (hframes ▸ hlast js')
    | finished js =>
      constructor
      · rintro ⟨-, js', rfl, hframes⟩
        obtain rfl : js = js' := by
          exact chunkFrame_injective.list_map (List.append_left_injective _ hframes)
        rfl
      · intro hout
        cases hout
        exact ⟨⟨c, rfl⟩, js, rfl, rfl⟩
    | failed js e =>
      refine iff_of_false ?_ fun hout => nomatch hout
      rintro ⟨-, js', -, hframes⟩
      rcases List.mem_append.1 (hframes ▸ hlast js') with hmem | hmem
      · exact done_notMem js hmem
      · exact ofResult_notMem_report .null true hmem

/-- The reply reports what the helper has raised. -/
theorem InStep.error_iff {frames : List Frame} {out : Option (Except Raised (List V))}
    (h : InStep py rt reg frames out) :
    (∃ text, Frame.ofError "handler_error" text ∈ frames) ↔
      ∃ e, e ≠ .base ∧ out.map (Except.map Returned.chunks) = some (.error e) := by
  cases h with
  | going js =>
    exact iff_of_false (fun ⟨text, hmem⟩ => ofError_notMem js text hmem)
      fun ⟨e, _, hout⟩ => nomatch hout
  | finished js =>
    refine iff_of_false ?_ fun ⟨e, _, hout⟩ => nomatch hout
    rintro ⟨text, hmem⟩
    rcases List.mem_append.1 hmem with hmem | hmem
    · exact ofError_notMem js text hmem
    · simp [Frame.ofResult, Frame.ofError] at hmem
  | failed js e =>
    have hreport : (∃ text, Frame.ofError "handler_error" text ∈
        js.map chunkFrame ++ report reg rt e) ↔ e ≠ .base := by
      rw [← ofError_mem_report_iff]
      refine exists_congr fun text => ?_
      rw [List.mem_append, or_iff_right (ofError_notMem js text)]
    rw [hreport]
    constructor
    · exact fun hne => ⟨e, hne, rfl⟩
    · rintro ⟨e', hne, hout⟩
      cases hout
      exact hne

/-- The loop of the worker, beside a run of the handler on the same arguments. -/
theorem inStep_replied (rt : Runtime) (reg : Registration)
    {c : List (Arg V C) → Except Raised (Generator V E R)}
    (hjson : ∀ args g, c args = .ok g → ∀ earlier v, g earlier = .yield v → ∃ j, v = py.ofJson j)
    (payload : V) (ctx : C) (heard : List (Option R)) :
    ∃ out, InStep py rt reg (replied py rt reg (.asyncGen c) payload ctx heard) out ∧
      call (.asyncGen c) (.payload payload :: ctxArgs reg ctx) heard =
        out.map (Except.map .chunks) := by
  unfold replied call
  dsimp only
  cases hc : c (.payload payload :: ctxArgs reg ctx) with
  | error e => exact ⟨some (.error e), .failed [] e, rfl⟩
  | ok g => exact ⟨_, inStep_collect (hjson _ g hc) heard [] [], rfl⟩

/-! ## The result of another handler -/

section

variable {fn : Handler} {inputModel outputModel : Option ℕ} {makeContext : C} {ctx : Option C}

/-- The helper builds the arguments of the worker, -/
theorem args_eq (inputModel outputModel : Option ℕ) (v : V) : args fn makeContext ctx v =
    .payload v :: ctxArgs (registered fn inputModel outputModel) (ctx.getD makeContext) := by
  have hwants : (registered fn inputModel outputModel).wantsCtx = fn.wantsContext := rfl
  unfold args ctxArgs
  rw [hwants]
  cases fn.wantsContext <;> rfl

/-- and checks the payload like `_invoke_handler`. -/
theorem handlerPayload_registered (payload : V) :
    handlerPayload py.toLibrary (registered fn inputModel outputModel) payload =
      handlerP py inputModel payload := by
  cases inputModel <;> rfl

/-- The helper runs the handler on the checked payload, and validates. -/
theorem invokeHandler_eq (handler : HandlerFn V C E R) (payload : V) (heard : List (Option R)) :
    invokeHandler py fn handler inputModel outputModel makeContext ctx payload heard =
      (checkedRun py fn handler inputModel makeContext ctx payload heard).map
        fun result => result.bind (validated py outputModel) := by
  unfold invokeHandler checkedRun
  cases handlerP py inputModel payload <;> rfl

theorem awaited_map {O P Q : Type*} (f : P → Q) {coro : List (Answer R O) → E ⊕ P} :
    ∀ (heard : List (Option R)) (replies : List (Answer R O)),
      awaited (fun replies => (coro replies).map id f) replies heard =
        (awaited coro replies heard).map f
  | [], replies => by
    unfold awaited
    cases coro replies <;> rfl
  | none :: _, replies => by
    unfold awaited
    cases coro replies <;> rfl
  | some r :: heard, replies => by
    unfold awaited
    cases coro replies with
    | inl e => exact awaited_map f heard (replies ++ [.heard r])
    | inr o => rfl

theorem awaited_ok {O P : Type*} {coro : List (Answer R O) → E ⊕ P} {o : P} :
    ∀ {heard : List (Option R)} {replies : List (Answer R O)},
      awaited coro replies heard = some o → ∃ replies, coro replies = .inr o
  | [], replies, h => ⟨replies, Sum.getRight?_eq_some_iff.1 h⟩
  | none :: _, replies, h => ⟨replies, Sum.getRight?_eq_some_iff.1 h⟩
  | some r :: heard, replies, h => by
    unfold awaited at h
    cases hop : coro replies with
    | inl e =>
      rw [hop] at h
      exact awaited_ok h
    | inr o' =>
      rw [hop] at h
      cases h
      exact ⟨replies, hop⟩

/-- A handler that is not streaming ends for both in the same way, up to the validation. -/
theorem value_run (fn : Handler) (inputModel outputModel : Option ℕ) (makeContext : C)
    (ctx : Option C) {handler : HandlerFn V C E R} (hjson : JsonResults py handler)
    (hvalue : ∀ call, handler ≠ .asyncGen call) (payload : V) (heard : List (Option R)) :
    ∃ run : Option (Except Raised V),
      checkedRun py fn handler inputModel makeContext ctx payload heard =
        run.map (Except.map .value) ∧
      workerOutcome py (registered fn inputModel outputModel) handler payload
          (ctx.getD makeContext) heard =
        run.map (fun result =>
          result.bind (handlerResult py.toLibrary (registered fn inputModel outputModel))) ∧
      ∀ v, run = some (.ok v) → ∃ j, v = py.ofJson j := by
  unfold checkedRun workerOutcome Drive.invokeHandler
  dsimp only
  rw [handlerPayload_registered]
  cases handlerP py inputModel payload with
  | error e =>
    refine ⟨some (.error e), rfl, ?_, fun v h => nomatch h⟩
    refine awaited_of_inr ?_ heard
    rfl
  | ok v =>
    dsimp only
    rw [args_eq inputModel outputModel]
    cases handler with
    | asyncGen c => exact absurd rfl (hvalue c)
    | coroutine c =>
      refine ⟨awaited (c _) [] heard, rfl, awaited_map _ heard [], fun v h => ?_⟩
      obtain ⟨replies, hreplies⟩ := awaited_ok h
      exact hjson.coroutine c rfl _ replies v hreplies
    | plain c =>
      refine ⟨some (c _), rfl, ?_, fun v h => hjson.plain c rfl _ v (Option.some.inj h)⟩
      refine awaited_of_inr ?_ heard
      rfl

/-- The frames of a result that is no generator. -/
theorem collected_value (j : Json) :
    collected py.toLibrary reg rt [] (.ok (.inr (py.ofJson j)) : Drive.Outcome V E R) =
      [.ofResult j true] := by
  unfold collected
  dsimp only
  rw [py.dumps_ofJson]
  rfl

/-- A reply in one frame. -/
theorem predicts_value_iff {handler : HandlerFn V C E R}
    (hvalue : ∀ call, handler ≠ .asyncGen call) (helper : Option (Except Raised (Returned V)))
    (j : Json) :
    Predicts py handler helper [.ofResult j true] ↔
      helper = some (.ok (.value (py.ofJson j))) := by
  have herror : ¬∃ text, Frame.ofError "handler_error" text ∈ [Frame.ofResult j true] := by
    simp [Frame.ofResult, Frame.ofError]
  constructor
  · exact fun h => h.1 (.value (py.ofJson j)) ⟨hvalue, j, rfl, rfl⟩
  · rintro rfl
    have hvalues : ¬∃ e : Raised,
        (some (.ok (.value (py.ofJson j))) : Option (Except Raised (Returned V))) =
          some (.error e) := by
      rintro ⟨e, he⟩
      cases he
    refine ⟨?_, iff_of_false hvalues herror⟩
    rintro (v | vs) hreplies
    · obtain ⟨-, j', rfl, hframes⟩ := hreplies
      obtain rfl : j = j' := by simpa [Frame.ofResult] using hframes
      rfl
    · exact absurd hreplies.1 (not_exists.2 hvalue)

/-- A reply that reports an exception. -/
theorem predicts_report_iff {handler : HandlerFn V C E R}
    (hvalue : ∀ call, handler ≠ .asyncGen call) (helper : Option (Except Raised (Returned V)))
    (e : Raised) :
    Predicts py handler helper (report reg rt e) ↔
      ((∃ e, helper = some (.error e)) ↔ e ≠ .base) := by
  unfold Predicts
  rw [ofError_mem_report_iff, and_iff_right]
  rintro (v | vs) hreplies
  · obtain ⟨-, j, -, hframes⟩ := hreplies
    exact absurd (hframes ▸ List.mem_singleton_self _) (ofResult_notMem_report j true)
  · exact absurd hreplies.1 (not_exists.2 hvalue)

/-- Over a result, only a list matters. -/
theorem answersAlike_value_iff (j : Json) :
    AnswersAlike py outputModel (some (.ok (.value (py.ofJson j)))) ↔
      (py.isList (py.ofJson j) = true → ∀ model, outputModel = some model →
        py.validateDump model (py.ofJson j) = .ok (py.ofJson j)) := by
  constructor
  · intro h hlist model hmodel
    obtain ⟨items, rfl⟩ := (py.isList_ofJson j).1 hlist
    exact h.2 items model rfl hmodel
  · intro h
    refine ⟨nofun, fun items model hitems hmodel => ?_⟩
    have hj : py.ofJson j = py.ofJson (.arr items) :=
      Returned.value.inj (Except.ok.inj (Option.some.inj hitems))
    rw [hj] at h
    exact h ((py.isList_ofJson _).2 ⟨items, rfl⟩) model hmodel

/-- The worker validates every result, the helper those that are no list. -/
theorem predicts_validated_iff (fn : Handler) {handler : HandlerFn V C E R}
    (hvalue : ∀ call, handler ≠ .asyncGen call) (j : Json) :
    Predicts py handler (some (validated py outputModel (.value (py.ofJson j))))
        (collected py.toLibrary (registered fn inputModel outputModel) rt []
          (handlerResult py.toLibrary (registered fn inputModel outputModel) (py.ofJson j) :
            Drive.Outcome V E R)) ↔
      (py.isList (py.ofJson j) = true → ∀ model, outputModel = some model →
        py.validateDump model (py.ofJson j) = .ok (py.ofJson j)) := by
  cases outputModel with
  | none =>
    refine iff_of_true ?_ fun _ model hmodel => nomatch hmodel
    show Predicts py handler (some (.ok (.value (py.ofJson j))))
      (collected py.toLibrary _ rt [] (.ok (.inr (py.ofJson j)) : Drive.Outcome V E R))
    rw [collected_value, predicts_value_iff hvalue]
  | some model =>
    have hmodel : (registered fn inputModel (some model)).outputModel = some model := rfl
    unfold validated handlerResult
    rw [hmodel]
    dsimp only
    cases hdump : py.validateDump model (py.ofJson j) with
    | error e =>
      show Predicts py handler _ (report (registered fn inputModel (some model)) rt
        (.exception "ValueError" ("output validation: " ++ e))) ↔ _
      rw [predicts_report_iff hvalue]
      cases hlist : py.isList (py.ofJson j) with
      | false => exact iff_of_true (iff_of_true ⟨_, rfl⟩ nofun) fun h => nomatch h
      | true =>
        refine iff_of_false (fun h => ?_) fun h => ?_
        · obtain ⟨e', he'⟩ := h.2 nofun
          cases he'
        · cases hdump.symm.trans (h rfl model rfl)
    | ok w =>
      obtain ⟨j', rfl⟩ := py.dumped model _ w hdump
      dsimp only
      rw [collected_value, predicts_value_iff hvalue]
      cases hlist : py.isList (py.ofJson j) with
      | false => exact iff_of_true rfl fun h => nomatch h
      | true =>
        rw [if_pos rfl]
        constructor
        · intro h _ model' hmodel'
          cases hmodel'
          rw [hdump, Returned.value.inj (Except.ok.inj (Option.some.inj h))]
        · intro h
          rw [Except.ok.inj (hdump.symm.trans (h rfl model rfl))]

/-- What is answered in one frame is predicted exactly if the two validate alike. -/
theorem answers_predicted_iff {handler : HandlerFn V C E R} (hjson : JsonResults py handler)
    (hvalue : ∀ call, handler ≠ .asyncGen call) (payload : V) (heard : List (Option R)) :
    Predicts py handler
        (invokeHandler py fn handler inputModel outputModel makeContext ctx payload heard)
        (replied py rt (registered fn inputModel outputModel) handler payload
          (ctx.getD makeContext) heard) ↔
      AnswersAlike py outputModel
        (checkedRun py fn handler inputModel makeContext ctx payload heard) := by
  obtain ⟨run, hchecked, hworker, hresult⟩ :=
    value_run fn inputModel outputModel makeContext ctx hjson hvalue payload heard
  rw [invokeHandler_eq, replied_of_not_streaming hvalue, hchecked, hworker]
  rcases run with _ | e | v
  · -- Nothing has come of it yet.
    refine iff_of_true ⟨?_, iff_of_false (fun ⟨e, h⟩ => nomatch h) fun ⟨text, h⟩ => nomatch h⟩
      ⟨nofun, nofun⟩
    rintro (v | vs) hreplies
    · obtain ⟨-, j, -, hframes⟩ := hreplies
      cases hframes
    · exact absurd hreplies.1 (not_exists.2 hvalue)
  · refine (predicts_report_iff hvalue _ e).trans ?_
    constructor
    · exact fun h => ⟨fun hbase => h.1 ⟨e, rfl⟩ (by cases hbase; rfl), nofun⟩
    · exact fun h => iff_of_true ⟨e, rfl⟩ fun hbase => h.1 (by rw [hbase]; rfl)
  · obtain ⟨j, rfl⟩ := hresult v rfl
    exact (predicts_validated_iff fn hvalue j).trans (answersAlike_value_iff j).symm

/-- Chunks are not validated. -/
theorem invokeHandler_asyncGen (c : List (Arg V C) → Except Raised (Generator V E R)) (payload : V)
    (heard : List (Option R)) :
    invokeHandler py fn (.asyncGen c) inputModel outputModel makeContext ctx payload heard =
      checkedRun py fn (.asyncGen c) inputModel makeContext ctx payload heard := by
  have hchunks : ∀ vs, validated py outputModel (.chunks vs) = .ok (.chunks vs) := by
    intro vs
    cases outputModel <;> rfl
  rw [invokeHandler_eq]
  unfold checkedRun
  cases handlerP py inputModel payload with
  | error e => rfl
  | ok v =>
    unfold call
    dsimp only
    cases c (args fn makeContext ctx v) with
    | error e => rfl
    | ok g =>
      dsimp only
      rcases collect g [] [] heard with _ | _ | vs
      · rfl
      · rfl
      · exact congrArg some (hchunks vs)

/-- A generator is predicted exactly if the input model makes no difference to it. -/
theorem streams_predicted_iff {c : List (Arg V C) → Except Raised (Generator V E R)}
    (hjson : JsonResults py (.asyncGen c)) (payload : V) (heard : List (Option R)) :
    Predicts py (.asyncGen c)
        (invokeHandler py fn (.asyncGen c) inputModel outputModel makeContext ctx payload heard)
        (replied py rt (registered fn inputModel outputModel) (.asyncGen c) payload
          (ctx.getD makeContext) heard) ↔
      StreamsAlike (call (.asyncGen c) (args fn makeContext ctx payload) heard)
        (checkedRun py fn (.asyncGen c) inputModel makeContext ctx payload heard) := by
  obtain ⟨out, hstep, hraw⟩ := inStep_replied rt (registered fn inputModel outputModel)
    (hjson.asyncGen c rfl) payload (ctx.getD makeContext) heard
  rw [invokeHandler_asyncGen, args_eq inputModel outputModel, hraw]
  unfold Predicts StreamsAlike
  rw [hstep.error_iff]
  simp only [hstep.replies_iff]

/-- A payload that the input model leaves as it is makes no difference. -/
theorem streamsAlike_of_unchanged {c : List (Arg V C) → Except Raised (Generator V E R)}
    {payload : V} {heard : List (Option R)}
    (hmodel : ∀ model, inputModel = some model → py.validate model payload = .ok payload) :
    StreamsAlike (call (.asyncGen c) (args fn makeContext ctx payload) heard)
        (checkedRun py fn (.asyncGen c) inputModel makeContext ctx payload heard) ↔
      call (.asyncGen c) (args fn makeContext ctx payload) heard ≠ some (.error .base) := by
  have hsame : handlerP py inputModel payload = .ok payload := by
    unfold handlerP
    cases inputModel with
    | none => rfl
    | some model => simp only [hmodel model rfl]
  unfold checkedRun
  rw [hsame]
  dsimp only
  constructor
  · intro h hbase
    obtain ⟨e, hne, he⟩ := h.2.1 ⟨.base, hbase⟩
    cases hbase.symm.trans he
    exact hne rfl
  · intro hbase
    refine ⟨fun result h => h, fun ⟨e, he⟩ => ⟨e, ?_, he⟩, fun ⟨e, _, he⟩ => ⟨e, he⟩⟩
    rintro rfl
    exact hbase he

open Classical in
/-- A streaming handler that takes these arguments only. -/
noncomputable def onlyOn (as : List (Arg V C)) (as' : List (Arg V C)) :
    Except Raised (Generator V E R) :=
  if as' = as then .ok fun _ => .stop else .error (.exception "TypeError" "")

theorem jsonResults_onlyOn (py : Interpreter V) (as : List (Arg V C)) :
    JsonResults py (.asyncGen (onlyOn as) : HandlerFn V C E R) := by
  refine ⟨nofun, nofun, fun c hc as' g hg earlier v hop => ?_⟩
  cases hc
  unfold onlyOn at hg
  split_ifs at hg
  cases hg
  cases hop

/-- The helper predicts all streaming handlers that raise nothing but an `Exception` exactly if
the input model leaves the payload as it is. -/
theorem generators_predicted_iff (payload : V) :
    (∀ (c : List (Arg V C) → Except Raised (Generator V E R)) (heard : List (Option R)),
      JsonResults py (.asyncGen c) →
      call (.asyncGen c) (args fn makeContext ctx payload) heard ≠ some (.error .base) →
      Predicts py (.asyncGen c)
        (invokeHandler py fn (.asyncGen c) inputModel outputModel makeContext ctx payload heard)
        (replied py rt (registered fn inputModel outputModel) (.asyncGen c) payload
          (ctx.getD makeContext) heard)) ↔
    ∀ model, inputModel = some model → py.validate model payload = .ok payload := by
  constructor
  · intro h
    by_contra hne
    obtain ⟨model, hne⟩ := not_forall.1 hne
    obtain ⟨rfl, hne⟩ := Classical.not_imp.1 hne
    cases hv : py.validate model payload with
    | error e =>
      -- The model rejects the payload, and a handler takes it all the same.
      have hjson : JsonResults py (.asyncGen fun _ => .ok fun _ => .stop : HandlerFn V C E R) :=
        ⟨nofun, nofun, fun c hc as g hg earlier v hop => by cases hc; cases hg; cases hop⟩
      have hpredicted := (streams_predicted_iff hjson payload []).1 (h _ [] hjson nofun)
      have hchecked := hpredicted.1 _ rfl
      simp only [checkedRun, handlerP, hv] at hchecked
      cases hchecked
    | ok v =>
      -- The model makes another value of it, and a handler takes the payload only.
      have hother : args fn makeContext ctx v ≠ args fn makeContext ctx payload := by
        intro heq
        rw [args_eq none none, args_eq none none] at heq
        obtain rfl : v = payload := Arg.payload.inj (List.cons.inj heq).1
        exact hne fun _ => hv
      have hjson := jsonResults_onlyOn (E := E) (R := R) py (args fn makeContext ctx payload)
      have hraw : call (.asyncGen (onlyOn (args fn makeContext ctx payload)) : HandlerFn V C E R)
          (args fn makeContext ctx payload) [] = some (.ok (.chunks [])) := by
        simp only [call, onlyOn, if_true]
        rfl
      have hpredicted := (streams_predicted_iff hjson payload []).1
        (h _ [] hjson (by rw [hraw]; nofun))
      have hchecked := hpredicted.1 _ hraw
      simp only [checkedRun, handlerP, hv, call, onlyOn, if_neg hother] at hchecked
      cases hchecked
  · intro hmodel c heard hjson hbase
    exact (streams_predicted_iff hjson payload heard).2 ((streamsAlike_of_unchanged hmodel).2 hbase)

/-- The gates before `_drive` are open for such a registration. -/
theorem registered_open (callerNodeId : ℕ) (now : Secs) :
    (registered fn inputModel outputModel).authorized callerNodeId = true ∧
      (registered fn inputModel outputModel).consume callerNodeId now =
        (registered fn inputModel outputModel, true) ∧
      (registered fn inputModel outputModel).semaphore =
        some (registered fn inputModel outputModel) ∧
      (registered fn inputModel outputModel).locked = false :=
  ⟨rfl, rfl, rfl, rfl⟩

end

end

/-! ## Two handlers -/

/-- `class _Out(BaseModel): greeting: str`, as far as it looks for the field. -/
def greeting : Json → Except String Json
  | .obj fields =>
    if (Assoc.get? "greeting" fields).isSome then .ok (.obj fields)
    else .error "1 validation error for _Out"
  | _ => .error "1 validation error for _Out"

/-- An interpreter of JSON values. -/
def jsonInterpreter : Interpreter Json where
  validate _ := greeting
  validateDump _ := greeting
  dumps := .ok
  ofJson := id
  dumps_ofJson _ := rfl
  isList
    | .arr _ => true
    | _ => false
  isList_ofJson j := by cases j <;> simp
  dumped _ _ w _ := ⟨w, rfl⟩

/-- A handler of one parameter. -/
def oneParameter (kind : FnKind) : Handler :=
  ⟨0, kind, some ⟨1, false⟩⟩

/-- `def fn(payload): return result`. -/
def returning (result : Json) : HandlerFn Json Unit Unit Unit :=
  .plain fun _ => .ok result

theorem jsonResults_returning (result : Json) : JsonResults jsonInterpreter (returning result) :=
  ⟨fun _ _ _ v _ => ⟨v, rfl⟩, nofun, nofun⟩

end Testing

end PilotLanggraph

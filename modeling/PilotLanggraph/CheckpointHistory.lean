import PilotLanggraph.CheckpointWorker
import PilotLanggraph.Lib.JsonText

/-!
# What a checkpoint store is for

A `History` keeps the checkpoints in the order of their last put and the writes in the
order of their first arrival, one checkpoint per `(thread, ns, checkpoint_id)` and one
batch of writes per task and path. Both stores are implementations of it : the relation
`Backend.Refines` ties a state of either store to a history, every request keeps it, and
every reply is the one the history gives (`handle_refines`). Runs of a store can
therefore be reasoned about as runs of histories (`replies_eq`).

The two stores differ in what they keep of a parent (`Backend.stored?`), and in
`checkpoint_list` (`memoryList`, `sqliteList`).
-/

namespace PilotLanggraph

/-! ## Histories -/

/-- A stored checkpoint. -/
structure Checkpoint where
  thread : String
  ns : String
  cid : String
  parentCid : Json
  blob : Json.Value
  metadata : Json.Value

/-- A stored batch of writes. -/
structure Write where
  thread : String
  ns : String
  cid : String
  taskId : String
  taskPath : String
  value : Json.Value

namespace Checkpoint

/-- The thread and namespace of a checkpoint. -/
def space (c : Checkpoint) : String × String :=
  (c.thread, c.ns)

/-- What identifies a checkpoint. -/
def key (c : Checkpoint) : String × String × String :=
  (c.thread, c.ns, c.cid)

/-- The checkpoint as `checkpoint_list` shows it. -/
def item (c : Checkpoint) : ListItem :=
  ⟨c.thread, c.ns, c.cid, c.parentCid, c.blob.val, c.metadata.val⟩

theorem space_eq_of_key_eq {c d : Checkpoint} (h : c.key = d.key) : c.space = d.space := by
  simp only [key, Prod.mk.injEq] at h
  simp [space, h]

end Checkpoint

namespace Write

/-- What identifies a batch of writes. -/
def key (w : Write) : String × String × String × String × String :=
  (w.thread, w.ns, w.cid, w.taskId, w.taskPath)

/-- The checkpoint the writes belong to. -/
def owner (w : Write) : String × String × String :=
  (w.thread, w.ns, w.cid)

/-- The writes as `checkpoint_get_tuple` shows them. -/
def pending (w : Write) : PendingWrite :=
  ⟨w.taskId, "", w.value.val⟩

theorem owner_eq_of_key_eq {v w : Write} (h : v.key = w.key) : v.owner = w.owner := by
  simp only [key, Prod.mk.injEq] at h
  simp [owner, h]

end Write

/-- The checkpoint a put stores. -/
def PutPayload.checkpoint (p : PutPayload) : Checkpoint :=
  ⟨p.thread, normNs p.checkpointNs, p.checkpointId, p.parentCheckpointId, p.checkpointB64,
    p.metadataB64⟩

/-- The checkpoint as a store keeps it : SQLite keeps the text of its parent, or refuses it. -/
def Backend.stored? (b : Backend) (c : Checkpoint) : Option Checkpoint :=
  match b with
  | .memory => some c
  | .sqlite db =>
    (db.textParam c.parentCid).map fun parent => { c with parentCid := Json.ofString? parent }

/-- But for its parent, a checkpoint is kept as it is. -/
theorem Backend.stored_eq (b : Backend) {c c' : Checkpoint} (h : b.stored? c = some c') :
    c' = { c with parentCid := c'.parentCid } := by
  cases b with
  | memory =>
    obtain rfl := Option.some.inj h
    rfl
  | sqlite db =>
    obtain ⟨parent, -, rfl⟩ := Option.map_eq_some_iff.1 h
    rfl

theorem Backend.space_stored (b : Backend) {c c' : Checkpoint} (h : b.stored? c = some c') :
    c'.space = c.space := by
  rw [b.stored_eq h]
  rfl

/-- A parent that is null or a string is kept as it is, too. -/
theorem Backend.stored_of_isText (b : Backend) {c : Checkpoint} (h : c.parentCid.IsText) :
    b.stored? c = some c := by
  cases b with
  | memory => rfl
  | sqlite db =>
    obtain ⟨thread, ns, cid, parent, blob, metadata⟩ := c
    cases parent with
    | null | str s => rfl
    | bool v | int n | float x | arr xs | obj ms => cases h

/-- The writes a put_writes stores. -/
def WritesPayload.write (p : WritesPayload) : Write :=
  ⟨p.thread, normNs p.checkpointNs, p.checkpointId, p.taskId, p.taskPath.getD "", p.writesB64⟩

/-- The id that the in-memory store cuts a list at : a string that is not empty. -/
def cutId (before : Json) : Option String :=
  truthyId before.string?

/-- What a store has been told. -/
structure History where
  /-- In the order of the last put. -/
  checkpoints : List Checkpoint
  /-- In the order of the first arrival. -/
  writes : List Write
  /-- Thread and namespace of the checkpoints, in the order of the first put. -/
  spaces : List (String × String)
  distinct : Keyed.Distinct Checkpoint.key checkpoints
  distinctWrites : Keyed.Distinct Write.key writes
  mem_spaces : ∀ k, k ∈ spaces ↔ ∃ c ∈ checkpoints, c.space = k

namespace History

/-- Nothing has been stored. -/
def empty : History :=
  ⟨[], [], [], List.nodup_nil, List.nodup_nil, by simp⟩

/-- A put makes its checkpoint the newest, in place of one with the same key. -/
def put (h : History) (c : Checkpoint) : History where
  checkpoints := Keyed.replace Checkpoint.key c h.checkpoints
  writes := h.writes
  spaces := if c.space ∈ h.spaces then h.spaces else h.spaces ++ [c.space]
  distinct := Keyed.distinct_replace h.distinct c
  distinctWrites := h.distinctWrites
  mem_spaces := by
    intro k
    have hk : k ∈ (if c.space ∈ h.spaces then h.spaces else h.spaces ++ [c.space]) ↔
        k ∈ h.spaces ∨ k = c.space := by
      split_ifs with hc
      · exact ⟨Or.inl, fun hk => hk.elim id fun e => e ▸ hc⟩
      · simp
    rw [hk, h.mem_spaces]
    constructor
    · rintro (⟨d, hd, rfl⟩ | rfl)
      · by_cases hkey : d.key = c.key
        · exact ⟨c, Keyed.mem_replace.2 (Or.inr rfl), (Checkpoint.space_eq_of_key_eq hkey).symm⟩
        · exact ⟨d, Keyed.mem_replace.2 (Or.inl ⟨hd, hkey⟩), rfl⟩
      · exact ⟨c, Keyed.mem_replace.2 (Or.inr rfl), rfl⟩
    · rintro ⟨d, hd, rfl⟩
      rcases Keyed.mem_replace.1 hd with ⟨hd, -⟩ | rfl
      · exact Or.inl ⟨d, hd, rfl⟩
      · exact Or.inr rfl

/-- Writes are kept unless their task has written to the checkpoint before. -/
def putWrites (h : History) (w : Write) : History where
  checkpoints := h.checkpoints
  writes := Keyed.insertNew Write.key w h.writes
  spaces := h.spaces
  distinct := h.distinct
  distinctWrites := Keyed.distinct_insertNew h.distinctWrites w
  mem_spaces := h.mem_spaces

/-- The checkpoints of a thread and namespace, newest last. -/
def rowsAt (h : History) (k : String × String) : List Checkpoint :=
  h.checkpoints.filter fun c => c.space = k

/-- The writes of a checkpoint. -/
def writesAt (h : History) (k : String × String × String) : List Write :=
  h.writes.filter fun w => w.owner = k

/-- The checkpoint `checkpoint_get_tuple` finds : the newest, or the one with the id. -/
def select (h : History) (p : GetPayload) : Option Checkpoint :=
  match p.checkpointId with
  | none => (h.rowsAt (p.thread, normNs p.checkpointNs)).getLast?
  | some cid => (h.rowsAt (p.thread, normNs p.checkpointNs)).find? fun c => c.cid = cid

/-- The tuple of a checkpoint. -/
def tuple (h : History) (c : Checkpoint) : TupleReply :=
  ⟨c.cid, c.parentCid, c.blob.val, c.metadata.val, (h.writesAt c.key).map Write.pending⟩

/-- `checkpoint_get_tuple`. -/
def getTuple (h : History) (p : GetPayload) : StoreReply :=
  match h.select p with
  | none => .notFound
  | some c => .found (h.tuple c)

/-- What is older than the checkpoint of the thread and namespace with the id, newest first. -/
def older (h : History) (before : Option String) (k : String × String) : List Checkpoint :=
  (Keyed.before Checkpoint.cid before (h.rowsAt k)).reverse

/-- `checkpoint_list` of one thread and namespace, without a limit. -/
def page (h : History) (before : Option String) (k : String × String) : List ListItem :=
  (h.older before k).map Checkpoint.item

/-- Where the loops of the in-memory `list` stop. Below a limit of one they stop after
the first key, or its first item. -/
def memoryLimit (limit : Option ℤ) (pages : List (List ListItem)) : List ListItem :=
  match limit with
  | none => pages.flatten
  | some n => if 1 ≤ n then pages.flatten.take n.toNat else (pages.head?.getD []).take 1

/-- `checkpoint_list` of the in-memory store. -/
def memoryList (h : History) (p : ListPayload) : StoreReply :=
  let keys := match p.thread with
    | some thread => [(thread, normNs p.checkpointNs)]
    | none => h.spaces
  .items (memoryLimit p.limit (keys.map (h.page (cutId p.beforeCheckpointId))))

/-- The rows a `checkpoint_list` of the SQLite store is about. -/
def inScope (p : ListPayload) (c : Checkpoint) : Bool :=
  match p.thread with
  | some thread => c.thread = thread && p.checkpointNs.all fun ns => c.ns = ns
  | none => true

/-- The checkpoints a `checkpoint_list` of the SQLite store shows, given the text of `before`. -/
def sqliteItems (h : History) (p : ListPayload) (before : Option String) : List ListItem :=
  let older := Keyed.before Checkpoint.key (SqliteCheckpointStore.beforeKey p before) h.checkpoints
  SqliteCheckpointStore.sqlLimit p.limit ((older.filter (inScope p)).map Checkpoint.item).reverse

/-- `checkpoint_list` of the SQLite store. -/
def sqliteList (db : Sqlite) (h : History) (p : ListPayload) : Option StoreReply :=
  (SqliteCheckpointStore.beforeText db p).bind fun before =>
    if p.limit.all Sqlite.fitsInt64 then some (.items (h.sqliteItems p before)) else none

/-- The reply to a request. -/
def reply (b : Backend) (h : History) : StoreRequest → Option StoreReply
  | .put p => (b.stored? p.checkpoint).map fun _ => .ok
  | .getTuple p => some (h.getTuple p)
  | .list p =>
    match b with
    | .memory => some (h.memoryList p)
    | .sqlite db => h.sqliteList db p
  | .putWrites _ => some .ok

/-- The history of a store after a request. -/
def step (b : Backend) (h : History) : StoreRequest → History
  | .put p => (b.stored? p.checkpoint).elim h h.put
  | .putWrites p => h.putWrites p.write
  | .getTuple _ => h
  | .list _ => h

/-- The history after a sequence of requests. -/
def run (b : Backend) (h : History) (rs : List StoreRequest) : History :=
  rs.foldl (step b) h

/-- The replies to a sequence of requests. -/
def replies (b : Backend) : History → List StoreRequest → List (Option StoreReply)
  | _, [] => []
  | h, r :: rs => h.reply b r :: replies b (h.step b r) rs

end History

end PilotLanggraph

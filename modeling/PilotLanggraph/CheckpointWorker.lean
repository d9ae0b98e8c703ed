import Mathlib.Algebra.Group.Int.Defs
import PilotLanggraph.Lib.Json
import PilotLanggraph.Lib.Table

/-!
# The checkpoint stores

The two stores behind the checkpoint handlers (`checkpoint_worker.py`) : `CheckpointStore`
keeps everything in dictionaries, `SqliteCheckpointStore` in two tables. A payload is a
structure with one field per entry of the wire dictionary, an optional field standing
for an entry that may be missing or null (for `taskPath` : missing). The ids of a parent and
of a `before` are whatever JSON value the entry has, null if there is none. Blobs are JSON
values; the SQLite store writes them out as text and reads the text back.

`Backend` is the store a worker runs on, chosen by `makeStore`, and `Backend.handle`
answers one request. `none` as an answer stands for an exception raised to the
dispatcher.
-/

namespace PilotLanggraph

/-! ## Requests and replies -/

/-- The payload of `checkpoint_put`. -/
structure PutPayload where
  thread : String
  checkpointNs : Option String
  checkpointId : String
  parentCheckpointId : Json
  checkpointB64 : Json.Value
  metadataB64 : Json.Value
  newVersions : Option Json.Value

/-- The payload of `checkpoint_get_tuple`. -/
structure GetPayload where
  thread : String
  checkpointNs : Option String
  checkpointId : Option String

/-- The payload of `checkpoint_list`. The `filter` entry is not read by the stores. -/
structure ListPayload where
  thread : Option String
  checkpointNs : Option String
  beforeCheckpointId : Json
  limit : Option ℤ

/-- The payload of `checkpoint_put_writes`. -/
structure WritesPayload where
  thread : String
  checkpointNs : Option String
  checkpointId : String
  taskId : String
  taskPath : Option String
  writesB64 : Json.Value

/-- `payload.get("checkpoint_ns") or ""`. -/
def normNs (ns : Option String) : String :=
  ns.getD ""

/-- `payload.get("new_versions") or {}`. -/
def normVersions (v : Option Json.Value) : Json :=
  match v with
  | some v => if v.val.truthy then v.val else .obj []
  | none => .obj []

/-- A request to the store. -/
inductive StoreRequest
  | put (p : PutPayload)
  | getTuple (p : GetPayload)
  | list (p : ListPayload)
  | putWrites (p : WritesPayload)

/-- One entry of `pending_writes`. -/
structure PendingWrite where
  taskId : String
  channel : String
  valueB64 : Json
  deriving DecidableEq

/-- The checkpoint a `checkpoint_get_tuple` found. -/
structure TupleReply where
  checkpointId : String
  parentCheckpointId : Json
  checkpointB64 : Json
  metadataB64 : Json
  pendingWrites : List PendingWrite
  deriving DecidableEq

/-- One item of a `checkpoint_list` reply. -/
structure ListItem where
  thread : String
  checkpointNs : String
  checkpointId : String
  parentCheckpointId : Json
  checkpointB64 : Json
  metadataB64 : Json
  deriving DecidableEq

/-- A reply of the store : `{ok: true}`, `{found: false}`, a tuple, or items. -/
inductive StoreReply
  | ok
  | notFound
  | found (t : TupleReply)
  | items (xs : List ListItem)
  deriving DecidableEq

/-- An id counts only when it is not the empty string. -/
def truthyId (cid : Option String) : Option String :=
  cid.filter (· ≠ "")

/-! ## The in-memory store -/

/-- What `_CheckpointStore` keeps of one checkpoint. -/
structure CheckpointRecord where
  checkpointId : String
  parentCheckpointId : Json
  checkpointB64 : Json
  metadataB64 : Json
  newVersions : Json

/-- What `_CheckpointStore` keeps of one `put_writes`. -/
structure WriteRecord where
  taskId : String
  taskPath : String
  writesB64 : Json
  channel : String

/-- `_CheckpointStore`. -/
structure CheckpointStore where
  /-- `(thread, ns)` to the records by checkpoint id. -/
  byThread : Dict (String × String) (Dict String CheckpointRecord)
  /-- `(thread, ns, checkpoint_id)` to the writes, in order. -/
  writes : Dict (String × String × String) (List WriteRecord)
  /-- `(thread, ns)` to the checkpoint ids, newest last. -/
  order : Dict (String × String) (List String)

namespace CheckpointStore

/-- A new store. -/
def init : CheckpointStore :=
  ⟨Dict.empty, Dict.empty, Dict.empty⟩

/-- `_CheckpointStore.put`. -/
def put (s : CheckpointStore) (p : PutPayload) : CheckpointStore × StoreReply :=
  let key := (p.thread, normNs p.checkpointNs)
  let cid := p.checkpointId
  let record : CheckpointRecord :=
    ⟨cid, p.parentCheckpointId, p.checkpointB64.val, p.metadataB64.val, normVersions p.newVersions⟩
  let order := (s.order.get? key).getD []
  let order := if cid ∈ order then order.erase cid else order
  ({ s with
      byThread := s.byThread.set key (((s.byThread.get? key).getD Dict.empty).set cid record)
      order := s.order.set key (order ++ [cid]) }, .ok)

/-- The tuple under a checkpoint id, once the records of its thread are known. -/
def tupleAt (s : CheckpointStore) (thread ns : String) (records : Dict String CheckpointRecord)
    (cid : String) : StoreReply :=
  match records.get? cid with
  | none => .notFound
  | some record =>
    let writes := (s.writes.get? (thread, ns, cid)).getD []
    .found ⟨cid, record.parentCheckpointId, record.checkpointB64, record.metadataB64,
      writes.map fun w => ⟨w.taskId, w.channel, w.writesB64⟩⟩

/-- `_CheckpointStore.get_tuple`. -/
def getTuple (s : CheckpointStore) (p : GetPayload) : StoreReply :=
  let key := (p.thread, normNs p.checkpointNs)
  match s.byThread.get? key with
  | none => .notFound
  | some records =>
    if records.entries.isEmpty then .notFound
    else
      match p.checkpointId with
      | some cid => s.tupleAt p.thread (normNs p.checkpointNs) records cid
      | none =>
        match ((s.order.get? key).getD []).getLast? with
        | none => .notFound
        | some cid => s.tupleAt p.thread (normNs p.checkpointNs) records cid

/-- `limit is not None and len(items) >= limit`. -/
def full (limit : Option ℤ) (items : List ListItem) : Bool :=
  limit.any fun n => decide (n ≤ (items.length : ℤ))

/-- The inner loop of `list` : the records of one key, newest first. -/
def listIds (records : Dict String CheckpointRecord) (key : String × String)
    (limit : Option ℤ) : List String → List ListItem → List ListItem
  | [], items => items
  | cid :: ids, items =>
    match records.get? cid with
    | none => listIds records key limit ids items
    | some r =>
      let items := items ++
        [⟨key.1, key.2, cid, r.parentCheckpointId, r.checkpointB64, r.metadataB64⟩]
      if full limit items then items else listIds records key limit ids items

/-- `ordered_ids` after the cut at `before_cid`. A value that is not a string equals no id. -/
def cutBefore (before : Json) (ids : List String) : List String :=
  match before with
  | .str b => if b ≠ "" ∧ b ∈ ids then ids.drop (ids.idxOf b + 1) else ids
  | _ => ids

/-- The outer loop of `list`. -/
def listKeys (s : CheckpointStore) (before : Json) (limit : Option ℤ) :
    List (String × String) → List ListItem → List ListItem
  | [], items => items
  | key :: keys, items =>
    match s.order.get? key with
    | none => listKeys s before limit keys items
    | some order =>
      let records := (s.byThread.get? key).getD Dict.empty
      let items := listIds records key limit (cutBefore before order.reverse) items
      if full limit items then items else listKeys s before limit keys items

/-- `_CheckpointStore.list`. -/
def list (s : CheckpointStore) (p : ListPayload) : StoreReply :=
  let keys := match p.thread with
    | some thread => [(thread, normNs p.checkpointNs)]
    | none => s.byThread.keys
  .items (s.listKeys p.beforeCheckpointId p.limit keys [])

/-- `_CheckpointStore.put_writes`. -/
def putWrites (s : CheckpointStore) (p : WritesPayload) : CheckpointStore × StoreReply :=
  let key := (p.thread, normNs p.checkpointNs, p.checkpointId)
  let existing := (s.writes.get? key).getD []
  let ident := (p.taskId, p.taskPath.getD "")
  if existing.any fun w => (w.taskId, w.taskPath) = ident then (s, .ok)
  else
    let record : WriteRecord := ⟨p.taskId, p.taskPath.getD "", p.writesB64.val, ""⟩
    ({ s with writes := s.writes.set key (existing ++ [record]) }, .ok)

end CheckpointStore

/-! ## The SQLite store -/

/-- What the code leaves to the database : how rows are numbered, and the text of a float that is
bound to a column of text, where `none` is NULL. -/
structure Sqlite where
  auto : Autoincrement
  realText : Json.Float → Option String

namespace Sqlite

/-- A bound integer has 64 bits. -/
def fitsInt64 (n : ℤ) : Bool :=
  -(2 ^ 63) ≤ n && n < 2 ^ 63

/-- What becomes of a value that is bound where the column is one of text : a text, or NULL. `none`
is an exception. -/
def textParam (db : Sqlite) : Json → Option (Option String)
  | .null => some none
  | .bool b => some (some (if b then "1" else "0"))
  | .int n => if fitsInt64 n then some (some (String.ofList (Json.dumpsInt n))) else none
  | .float x => some (db.realText x)
  | .str s => some (some s)
  | .arr _ => none
  | .obj _ => none

/-- Rows with consecutive numbers. A float that is written as its text keeps this text. -/
def consecutive : Sqlite where
  auto := .succ
  realText
    | .lit l => some (String.ofList l.text)
    | .nan => none
    | .infinity => some "Inf"
    | .negInfinity => some "-Inf"

end Sqlite

/-- A row of `checkpoints`. -/
structure CheckpointRow where
  thread : String
  ns : String
  cid : String
  parentCid : Option String
  blobDictJson : List Char
  metaDictJson : List Char
  newVersionsJson : List Char

/-- A row of `writes`. -/
structure WriteRow where
  thread : String
  ns : String
  cid : String
  taskId : String
  taskPath : String
  valueDictJson : List Char

/-- `UNIQUE(thread, ns, cid)`. -/
def CheckpointRow.key (r : CheckpointRow) : String × String × String :=
  (r.thread, r.ns, r.cid)

/-- `UNIQUE(thread, ns, cid, task_id, task_path)`. -/
def WriteRow.key (r : WriteRow) : String × String × String × String × String :=
  (r.thread, r.ns, r.cid, r.taskId, r.taskPath)

/-- The database of `_SqliteCheckpointStore`. -/
structure SqliteCheckpointStore where
  checkpoints : Table CheckpointRow
  writes : Table WriteRow

namespace SqliteCheckpointStore

/-- A new database. -/
def init : SqliteCheckpointStore :=
  ⟨Table.empty, Table.empty⟩

/-- `json.dumps` with its default separators. -/
def jsonDumps (v : Json) : List Char :=
  Json.dumps Json.spaced v

/-- `_SqliteCheckpointStore.put`. -/
def put (db : Sqlite) (s : SqliteCheckpointStore) (p : PutPayload) :
    SqliteCheckpointStore × Option StoreReply :=
  match db.textParam p.parentCheckpointId with
  | none => (s, none)
  | some parent =>
    let row : CheckpointRow :=
      ⟨p.thread, normNs p.checkpointNs, p.checkpointId, parent, jsonDumps p.checkpointB64.val,
        jsonDumps p.metadataB64.val, jsonDumps (normVersions p.newVersions)⟩
    ({ s with checkpoints := s.checkpoints.insertOrReplace db.auto CheckpointRow.key row },
      some .ok)

/-- The rows of one thread and namespace. -/
def atKey (thread ns : String) (r : CheckpointRow) : Bool :=
  r.thread = thread && r.ns = ns

/-- `json.loads` of the stored value of one write. -/
def pendingOf (r : WriteRow) : Option PendingWrite :=
  (Json.loadsText r.valueDictJson).map fun v => ⟨r.taskId, "", v⟩

/-- The row `get_tuple` selects : the newest, or the one with the id. -/
def tupleRow (s : SqliteCheckpointStore) (thread ns : String) :
    Option String → Option CheckpointRow
  | none => (((s.checkpoints.selectDesc fun r => atKey thread ns r.2).take 1).head?).map Prod.snd
  | some cid => (s.checkpoints.selectOne fun r => atKey thread ns r && r.cid = cid).map Prod.snd

/-- The reply for a selected row. -/
def tupleReply (s : SqliteCheckpointStore) (thread ns : String) (row : CheckpointRow) :
    Option StoreReply := do
  let writeRows := s.writes.selectAsc fun r =>
    r.2.thread = thread && r.2.ns = ns && r.2.cid = row.cid
  let pending ← writeRows.mapM fun r => pendingOf r.2
  let blob ← Json.loadsText row.blobDictJson
  let metaVal ← Json.loadsText row.metaDictJson
  some (.found ⟨row.cid, Json.ofString? row.parentCid, blob, metaVal, pending⟩)

/-- `_SqliteCheckpointStore.get_tuple`. -/
def getTuple (s : SqliteCheckpointStore) (p : GetPayload) : Option StoreReply :=
  match s.tupleRow p.thread (normNs p.checkpointNs) p.checkpointId with
  | none => some .notFound
  | some row => s.tupleReply p.thread (normNs p.checkpointNs) row

/-- `json.loads` of the stored values of one checkpoint row. -/
def itemOf (r : CheckpointRow) : Option ListItem := do
  let blob ← Json.loadsText r.blobDictJson
  let metaVal ← Json.loadsText r.metaDictJson
  some ⟨r.thread, r.ns, r.cid, Json.ofString? r.parentCid, blob, metaVal⟩

/-- `LIMIT n` : a negative bound is no bound. -/
def sqlLimit {α : Type*} (limit : Option ℤ) (rows : List α) : List α :=
  match limit with
  | some n => if n < 0 then rows else rows.take n.toNat
  | none => rows

/-- The thread of a `list` if it is given, and then its namespace if that is given too. -/
def listScope (p : ListPayload) (r : CheckpointRow) : Bool :=
  match p.thread with
  | some thread => r.thread = thread && p.checkpointNs.all fun ns => r.ns = ns
  | none => true

/-- The `WHERE` clause of `list` : its scope, and the rows below a number. -/
def listWhere (p : ListPayload) (bound : Option ℕ) (r : ℕ × CheckpointRow) : Bool :=
  listScope p r.2 && bound.all fun n => r.1 < n

/-- The text that `before_checkpoint_id` is compared as, if it counts. -/
def beforeText (db : Sqlite) (p : ListPayload) : Option (Option String) :=
  if p.beforeCheckpointId.truthy then db.textParam p.beforeCheckpointId else some none

/-- The row with this id. A null thread equals no thread, and a null id no id. -/
def beforeKey (p : ListPayload) (before : Option String) : Option (String × String × String) :=
  match before, p.thread with
  | some b, some thread => some (thread, normNs p.checkpointNs, b)
  | _, _ => none

/-- The number of that row, if it is there. -/
def beforeSeq (s : SqliteCheckpointStore) (p : ListPayload) (before : Option String) : Option ℕ :=
  (beforeKey p before).bind fun k => (s.checkpoints.selectOne fun r => r.key = k).map Prod.fst

/-- `_SqliteCheckpointStore.list`. -/
def list (db : Sqlite) (s : SqliteCheckpointStore) (p : ListPayload) : Option StoreReply := do
  let before ← beforeText db p
  if p.limit.all Sqlite.fitsInt64 then
    let rows := sqlLimit p.limit (s.checkpoints.selectDesc (listWhere p (s.beforeSeq p before)))
    let items ← rows.mapM fun r => itemOf r.2
    some (.items items)
  else none

/-- `_SqliteCheckpointStore.put_writes`. -/
def putWrites (db : Sqlite) (s : SqliteCheckpointStore) (p : WritesPayload) :
    SqliteCheckpointStore × StoreReply :=
  let row : WriteRow :=
    ⟨p.thread, normNs p.checkpointNs, p.checkpointId, p.taskId, p.taskPath.getD "",
      jsonDumps p.writesB64.val⟩
  ({ s with writes := s.writes.insertOrIgnore db.auto WriteRow.key row }, .ok)

end SqliteCheckpointStore

/-! ## The store of a worker -/

/-- Which store a worker runs on, and what its database does. -/
inductive Backend
  | memory
  | sqlite (db : Sqlite)

/-- The characters `str.strip` removes. -/
def isPySpace (c : Char) : Bool :=
  (9 ≤ c.toNat && c.toNat ≤ 13) || (28 ≤ c.toNat && c.toNat ≤ 32) ||
    (8192 ≤ c.toNat && c.toNat ≤ 8202) ||
    [133, 160, 5760, 8232, 8233, 8239, 8287, 12288].contains c.toNat

/-- `make_store` : a `PILOT_CHECKPOINT_DB` that is not blank selects SQLite. -/
def makeStore (db : Sqlite) (dbPath : String) : Backend :=
  if dbPath.toList.all isPySpace then .memory else .sqlite db

/-- The state of a store. -/
def Backend.State : Backend → Type
  | .memory => CheckpointStore
  | .sqlite _ => SqliteCheckpointStore

namespace Backend

/-- An empty store. -/
def init : (b : Backend) → b.State
  | .memory => CheckpointStore.init
  | .sqlite _ => SqliteCheckpointStore.init

/-- One request to the store. A request that raises leaves the state as it was. -/
def handle : (b : Backend) → b.State → StoreRequest → b.State × Option StoreReply
  | .memory, s, .put p => ((CheckpointStore.put s p).1, some (CheckpointStore.put s p).2)
  | .memory, s, .getTuple p => (s, some (CheckpointStore.getTuple s p))
  | .memory, s, .list p => (s, some (CheckpointStore.list s p))
  | .memory, s, .putWrites p =>
    ((CheckpointStore.putWrites s p).1, some (CheckpointStore.putWrites s p).2)
  | .sqlite db, s, .put p => SqliteCheckpointStore.put db s p
  | .sqlite _, s, .getTuple p => (s, SqliteCheckpointStore.getTuple s p)
  | .sqlite db, s, .list p => (s, SqliteCheckpointStore.list db s p)
  | .sqlite db, s, .putWrites p =>
    ((SqliteCheckpointStore.putWrites db s p).1, some (SqliteCheckpointStore.putWrites db s p).2)

/-- The state after a sequence of requests. -/
def run (b : Backend) (s : b.State) (rs : List StoreRequest) : b.State :=
  rs.foldl (fun s r => (b.handle s r).1) s

/-- The replies to a sequence of requests, in order. -/
def replies (b : Backend) : b.State → List StoreRequest → List (Option StoreReply)
  | _, [] => []
  | s, r :: rs => (b.handle s r).2 :: replies b (b.handle s r).1 rs

end Backend

end PilotLanggraph

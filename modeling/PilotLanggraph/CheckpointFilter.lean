import PilotLanggraph.CheckpointRoundTrip
import PilotLanggraph.CheckpointPaging

/-!
# Listing with a filter

`PilotCheckpointSaver.alist` sends its metadata filter along with the request, and neither store
reads it : the limit counts checkpoints that do not match, and these are yielded. `listing` is
what was put on a thread and namespace, newest first, so a filtered list is the first of those
that match. `alist_filter_iff` says when this is what `alist` yields.
-/

namespace PilotLanggraph

/-- A checkpoint as it was handed to `aput`. -/
structure Stored (C M : Type) where
  thread : String
  ns : String
  cid : String
  parentCid : Option String
  checkpoint : C
  metadata : M

namespace Stored

variable {C M V : Type}

/-- What identifies it. -/
def key (x : Stored C M) : String × String × String :=
  (x.thread, x.ns, x.cid)

/-- The row that a store keeps of it. -/
def row (sv : Saver C M V) (x : Stored C M) : Checkpoint :=
  ⟨x.thread, x.ns, x.cid, Json.ofString? x.parentCid, sv.encodeTyped (.checkpoint x.checkpoint),
    sv.encodeTyped (.metadata x.metadata)⟩

/-- The tuple that stands for it in a list. -/
def tuple (x : Stored C M) : CheckpointTuple C M V :=
  ⟨⟨x.thread, some x.ns, some x.cid⟩, x.checkpoint, x.metadata,
    (truthyId x.parentCid).map fun cid => ⟨x.thread, some x.ns, some cid⟩, []⟩

end Stored

/-- The payload of `alist`, with the filter. -/
structure AlistPayload (W : Type) where
  list : ListPayload
  filter : Option (List (String × W))

/-- The metadata has every key of the filter, with an equal value. -/
def Matches {M W : Type} (entry : M → String → Option W) (filter : Option (List (String × W)))
    (metadata : M) : Prop :=
  ∀ e ∈ filter.getD [], entry metadata e.1 = some e.2

instance {M W : Type} [DecidableEq W] (entry : M → String → Option W)
    (filter : Option (List (String × W))) (metadata : M) :
    Decidable (Matches entry filter metadata) :=
  inferInstanceAs (Decidable (∀ e ∈ filter.getD [], entry metadata e.1 = some e.2))

namespace Saver

variable {C M V W : Type} (sv : Saver C M V)

/-- The payload that `alist` sends. -/
def alistPayload (config : Option Config) (filter : Option (List (String × W)))
    (before : Option Config) (limit : Option ℤ) : AlistPayload W :=
  ⟨⟨config.map Config.threadId, config.bind Config.checkpointNs,
    Json.ofString? (before.bind Config.checkpointId), limit⟩, filter⟩

/-- One item of the reply. -/
def decodeItem (item : ListItem) : Option (CheckpointTuple C M V) := do
  let checkpoint ← sv.decodeCheckpoint item.checkpointB64
  let metadata ← sv.decodeMetadata item.metadataB64
  some ⟨⟨item.thread, some item.checkpointNs, some item.checkpointId⟩, checkpoint, metadata,
    (truthyId item.parentCheckpointId.string?).map fun cid =>
      ⟨item.thread, some item.checkpointNs, some cid⟩, []⟩

/-- The loop of `alist` : what it yields, and whether it ends without an exception. -/
def yieldItems : List ListItem → List (CheckpointTuple C M V) × Bool
  | [] => ([], true)
  | item :: items =>
    match sv.decodeItem item with
    | none => ([], false)
    | some t => (t :: (yieldItems items).1, (yieldItems items).2)

/-- `checkpoint_list` of a worker. The filter is not read by either store. -/
def handleList (b : Backend) (s : b.State) (p : AlistPayload W) : Option StoreReply :=
  (b.handle s (.list p.list)).2

/-- `alist`. -/
def alist (b : Backend) (s : b.State) (config : Option Config)
    (filter : Option (List (String × W))) (before : Option Config) (limit : Option ℤ) :
    List (CheckpointTuple C M V) × Bool :=
  match handleList b s (alistPayload config filter before limit) with
  | some (.items items) => sv.yieldItems items
  | some _ => ([], true)
  | none => ([], false)

/-! ## What was put -/

/-- The checkpoint that a call hands over. -/
def stored? : SaverCall C M V → Option (Stored C M)
  | .aput cfg c m _ => some ⟨cfg.threadId, cfg.ns, sv.idOf c, cfg.checkpointId, c, m⟩
  | _ => none

/-- The checkpoints that were put, each where it was put last. -/
def stored (calls : List (SaverCall C M V)) : List (Stored C M) :=
  (calls.filterMap sv.stored?).foldl (fun l x => Keyed.replace Stored.key x l) []

/-- Those of a thread and namespace that are older than the one `before` names, if it is there;
newest first. -/
def listing (k : String × String) (before : Option String) (calls : List (SaverCall C M V)) :
    List (Stored C M) :=
  (Keyed.before Stored.cid (truthyId before)
    ((sv.stored calls).filter fun x => (x.thread, x.ns) = k)).reverse

theorem checkpoints_run (b : Backend) (calls : List (SaverCall C M V)) :
    (History.empty.run b (calls.filterMap sv.request?)).checkpoints =
      (sv.stored calls).map (Stored.row sv) := by
  induction calls using List.reverseRecOn with
  | nil => rfl
  | append_singleton calls call ih =>
    rw [stored, List.filterMap_append, List.filterMap_append, List.foldl_append,
      History.run_append, ← stored]
    cases call with
    | aput cfg c m nv =>
      have hstored : b.stored? (sv.putPayload cfg c m nv).checkpoint =
          some (sv.putPayload cfg c m nv).checkpoint := sv.put?_putPayload b cfg c m nv
      change (((History.empty.run b _).step b (.put (sv.putPayload cfg c m nv))).checkpoints) = _
      rw [History.step, hstored]
      refine (congrArg (Keyed.replace Checkpoint.key _) ih).trans ?_
      exact (Keyed.map_replace Stored.key Checkpoint.key (Stored.row sv) (fun _ => rfl)
        ⟨cfg.threadId, cfg.ns, sv.idOf c, cfg.checkpointId, c, m⟩ (sv.stored calls)).symm
    | agetTuple cfg => exact ih
    | aputWrites cfg ws task path =>
      cases hcid : cfg.checkpointId with
      | none =>
        simp only [List.filterMap_cons, request?, hcid]
        exact ih
      | some cid =>
        simp only [List.filterMap_cons, request?, hcid]
        exact ih

theorem page_eq (b : Backend) (k : String × String) (before : Option String)
    (calls : List (SaverCall C M V)) :
    (History.empty.run b (calls.filterMap sv.request?)).page (truthyId before) k =
      (sv.listing k before calls).map fun x => (x.row sv).item := by
  rw [History.page, History.older, History.rowsAt, checkpoints_run, List.filter_map, listing,
    List.map_reverse, List.map_reverse,
    ← Keyed.map_before Stored.cid Checkpoint.cid (Stored.row sv) (fun _ => rfl), List.map_map]
  rfl

/-! ## What `alist` yields -/

variable {sv}

theorem dumped_of_mem_stored {calls : List (SaverCall C M V)} {x : Stored C M}
    (hx : x ∈ sv.stored calls) :
    .checkpoint x.checkpoint ∈ dumped calls ∧ .metadata x.metadata ∈ dumped calls := by
  obtain ⟨call, hcall, hx⟩ := List.mem_filterMap.1
    ((Keyed.mem_of_mem_foldl_replace hx).resolve_right List.not_mem_nil)
  cases call with
  | agetTuple cfg => cases hx
  | aputWrites cfg ws task path => cases hx
  | aput cfg c m nv =>
    obtain rfl := Option.some.inj hx
    exact ⟨List.mem_flatMap.2 ⟨_, hcall, by simp⟩, List.mem_flatMap.2 ⟨_, hcall, by simp⟩⟩

theorem mem_stored_of_mem_listing {calls : List (SaverCall C M V)} {k : String × String}
    {before : Option String} {x : Stored C M} (hx : x ∈ sv.listing k before calls) :
    x ∈ sv.stored calls :=
  (List.mem_filter.1 (Keyed.mem_of_mem_before (List.mem_reverse.1 hx))).1

theorem decodeItem_row {calls : List (SaverCall C M V)} (hserde : sv.RoundTrips calls)
    {x : Stored C M} (hx : x ∈ sv.stored calls) :
    sv.decodeItem (x.row sv).item = some x.tuple := by
  obtain ⟨hc, hm⟩ := dumped_of_mem_stored hx
  simp [decodeItem, Checkpoint.item, Stored.row, decodeCheckpoint, decodeMetadata,
    sv.decodeTyped_encodeTyped (hserde _ hc), sv.decodeTyped_encodeTyped (hserde _ hm),
    Stored.tuple]

theorem yieldItems_rows {calls : List (SaverCall C M V)} (hserde : sv.RoundTrips calls) :
    ∀ {xs : List (Stored C M)}, (∀ x ∈ xs, x ∈ sv.stored calls) →
      sv.yieldItems (xs.map fun x => (x.row sv).item) = (xs.map Stored.tuple, true)
  | [], _ => rfl
  | x :: xs, h => by
    rw [List.forall_mem_cons] at h
    have ih := yieldItems_rows hserde h.2
    rw [List.map_cons, yieldItems, decodeItem_row hserde h.1]
    simp only
    rw [ih]
    rfl

/-- `alist` yields the first of the listing, whatever the filter, if the store takes the limit. -/
theorem alist_eq (b : Backend) {calls : List (SaverCall C M V)} (hserde : sv.RoundTrips calls)
    (thread ns : String) (cid : Option String) (filter : Option (List (String × W)))
    (before : Option Config) {limit : Option ℤ} (hlimit : ∀ n ∈ limit, 1 ≤ n) :
    sv.alist b (sv.run b calls) (some ⟨thread, some ns, cid⟩) filter before limit =
      if b.takes limit then
        ((atMost limit (sv.listing (thread, ns) (before.bind Config.checkpointId) calls)).map
          Stored.tuple, true)
      else ([], false) := by
  have hreply : handleList b (sv.run b calls)
      (alistPayload (some ⟨thread, some ns, cid⟩) filter before limit) =
        if b.takes limit then
          some (.items ((atMost limit (sv.listing (thread, ns) (before.bind Config.checkpointId)
            calls)).map fun x => (x.row sv).item))
        else none := by
    rw [handleList, run_eq, Backend.reply_list]
    refine (History.reply_list_named b _ thread ns _ hlimit).trans ?_
    rw [sv.page_eq b, History.map_atMost]
  rw [alist, hreply]
  split_ifs
  · exact yieldItems_rows hserde fun x hx =>
      mem_stored_of_mem_listing (History.mem_of_mem_atMost hx)
  · rfl

/-- The first of those that match are the first of all, if these match. -/
theorem atMost_filter_eq {α : Type*} {p : α → Bool} {limit : Option ℤ} {l : List α}
    (h : ∀ x ∈ atMost limit l, p x = true) : atMost limit (l.filter p) = atMost limit l := by
  unfold atMost at *
  cases limit with
  | none => exact List.filter_eq_self.2 h
  | some n =>
    simp only at h ⊢
    have hsplit : l.filter p = l.take n.toNat ++ (l.drop n.toNat).filter p := by
      rw [← List.filter_eq_self.2 h, ← List.filter_append, List.take_append_drop]
    rw [hsplit]
    rcases Nat.le_total n.toNat l.length with hle | hle
    · rw [List.take_append_of_le_length (by rw [List.length_take]; omega), List.take_take,
        Nat.min_self]
    · rw [List.drop_of_length_le hle, List.filter_nil, List.append_nil, List.take_take,
        Nat.min_self]

/-- `alist` yields the first `limit` of the checkpoints of the thread and namespace that match the
filter, newest first and after `before`, exactly if the store takes the limit and the first `limit`
of all of them match. -/
theorem alist_filter_iff [DecidableEq W] (entry : M → String → Option W) (b : Backend)
    (calls : List (SaverCall C M V)) (hserde : sv.RoundTrips calls) (thread ns : String)
    (cid : Option String) (filter : Option (List (String × W))) (before : Option Config)
    (limit : Option ℤ) (hlimit : ∀ n ∈ limit, 1 ≤ n) :
    sv.alist b (sv.run b calls) (some ⟨thread, some ns, cid⟩) filter before limit =
        ((atMost limit ((sv.listing (thread, ns) (before.bind Config.checkpointId) calls).filter
          fun x => Matches entry filter x.metadata)).map Stored.tuple, true) ↔
      (b = .memory ∨ ∀ n ∈ limit, n < 2 ^ 63) ∧
        ∀ x ∈ atMost limit (sv.listing (thread, ns) (before.bind Config.checkpointId) calls),
          Matches entry filter x.metadata := by
  rw [sv.alist_eq b hserde thread ns cid filter before hlimit,
    ← b.takes_limit_iff fun n hn => zero_le_one.trans (hlimit n hn)]
  split_ifs with htakes
  · rw [Prod.mk.injEq, and_iff_left rfl, and_iff_right htakes]
    constructor
    · intro h x hx
      have hmem : (x.tuple : CheckpointTuple C M V) ∈ (atMost limit
          ((sv.listing (thread, ns) (before.bind Config.checkpointId) calls).filter
            fun x => Matches entry filter x.metadata)).map Stored.tuple := by
        rw [← h]
        exact List.mem_map_of_mem hx
      obtain ⟨y, hy, htuple⟩ := List.mem_map.1 hmem
      have hmatches := of_decide_eq_true (List.mem_filter.1 (History.mem_of_mem_atMost hy)).2
      have hmetadata : y.metadata = x.metadata := congrArg CheckpointTuple.metadata htuple
      rwa [hmetadata] at hmatches
    · intro h
      rw [atMost_filter_eq fun x hx => decide_eq_true (h x hx)]
  · exact iff_of_false (by simp) fun h => htakes h.1

theorem alist_filter_iff_empty :
    (⟨msgpackSerde, fun _ => "1"⟩ : Saver Unit Unit String).alist .memory
        ((⟨msgpackSerde, fun _ => "1"⟩ : Saver Unit Unit String).run .memory
          [.aput ⟨"t", none, none⟩ () () ⟨.obj [], List.nodup_nil, trivial⟩])
        (some ⟨"t", some "", none⟩) (some ([] : List (String × String))) none (some 1) =
      ([⟨⟨"t", some "", some "1"⟩, (), (), none, []⟩], true) :=
  (alist_filter_iff (fun _ _ => none) .memory
    [.aput ⟨"t", none, none⟩ () () ⟨.obj [], List.nodup_nil, trivial⟩]
    (msgpackSerde_roundTrips (by simp [dumped])) "t" "" none (some ([] : List (String × String)))
    none (some 1) (by simp)).2 ⟨.inl rfl, fun _ _ _ h => by cases h⟩

/-- A checkpoint with empty metadata is yielded for a filter that asks for an entry. -/
theorem filter_not_applied :
    (⟨msgpackSerde, fun _ => "1"⟩ : Saver Unit Unit String).RoundTrips
        [.aput ⟨"t", none, none⟩ () () ⟨.obj [], List.nodup_nil, trivial⟩] ∧
      (⟨msgpackSerde, fun _ => "1"⟩ : Saver Unit Unit String).alist .memory
          ((⟨msgpackSerde, fun _ => "1"⟩ : Saver Unit Unit String).run .memory
            [.aput ⟨"t", none, none⟩ () () ⟨.obj [], List.nodup_nil, trivial⟩])
          (some ⟨"t", some "", none⟩) (some [("source", "loop")]) none none =
        ([⟨⟨"t", some "", some "1"⟩, (), (), none, []⟩], true) ∧
      ((⟨msgpackSerde, fun _ => "1"⟩ : Saver Unit Unit String).listing ("t", "") none
          [.aput ⟨"t", none, none⟩ () () ⟨.obj [], List.nodup_nil, trivial⟩]).filter
        (fun x => Matches (fun _ _ => none) (some [("source", "loop")]) x.metadata) = [] := by
  have hserde : (⟨msgpackSerde, fun _ => "1"⟩ : Saver Unit Unit String).RoundTrips
      [.aput ⟨"t", none, none⟩ () () ⟨.obj [], List.nodup_nil, trivial⟩] :=
    msgpackSerde_roundTrips (by simp [dumped])
  refine ⟨hserde, ?_, rfl⟩
  rw [alist_eq .memory hserde "t" "" none _ none (by simp), if_pos (Backend.takes_none .memory)]
  rfl

end Saver

end PilotLanggraph

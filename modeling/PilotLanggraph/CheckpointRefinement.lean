import PilotLanggraph.CheckpointHistory

/-!
# Both stores implement histories

A state of either store refines a history when its dictionaries, or its tables, hold the
checkpoints and writes of the history. Every request keeps the relation and is answered
as the history answers it (`Backend.handle_refines`), so the replies of a store over a
whole sequence of requests are those of the history (`Backend.replies_eq`).
-/

namespace PilotLanggraph

/-! ## Rows of one thread and namespace -/

namespace History

theorem rowsAt_put (h : History) (c : Checkpoint) (k : String × String) :
    (h.put c).rowsAt k =
      if c.space = k then Keyed.replace Checkpoint.key c (h.rowsAt k) else h.rowsAt k := by
  rw [rowsAt, rowsAt, put, Keyed.filter_replace]
  · simp
  · intro d _ hk
    rw [Checkpoint.space_eq_of_key_eq hk]

theorem writesAt_putWrites (h : History) (w : Write) (k : String × String × String) :
    (h.putWrites w).writesAt k =
      if w.owner = k then Keyed.insertNew Write.key w (h.writesAt k) else h.writesAt k := by
  rw [writesAt, writesAt, putWrites, Keyed.filter_insertNew]
  · simp
  · intro v _ hk
    rw [Write.owner_eq_of_key_eq hk]

theorem space_of_mem_rowsAt {h : History} {k : String × String} {c : Checkpoint}
    (hc : c ∈ h.rowsAt k) : c.space = k :=
  of_decide_eq_true (List.mem_filter.1 hc).2

theorem owner_of_mem_writesAt {h : History} {k : String × String × String} {w : Write}
    (hw : w ∈ h.writesAt k) : w.owner = k :=
  of_decide_eq_true (List.mem_filter.1 hw).2

theorem rowsAt_eq_nil {h : History} {k : String × String} : h.rowsAt k = [] ↔ k ∉ h.spaces := by
  rw [h.mem_spaces, rowsAt, List.filter_eq_nil_iff]
  simp

/-- In one thread and namespace, the id tells the checkpoints apart. -/
theorem key_eq_iff_cid_eq {h : History} {k : String × String} {c d : Checkpoint}
    (hd : d ∈ h.rowsAt k) (hc : c.space = k) : d.key = c.key ↔ d.cid = c.cid := by
  have hs := space_of_mem_rowsAt hd
  rw [← hc] at hs
  simp only [Checkpoint.space, Prod.mk.injEq] at hs
  simp [Checkpoint.key, hs]

/-- The ids of one thread and namespace are distinct. -/
theorem nodup_cids (h : History) (k : String × String) :
    ((h.rowsAt k).map Checkpoint.cid).Nodup := by
  have hkeys : ((h.rowsAt k).map Checkpoint.key).Nodup :=
    h.distinct.sublist (List.filter_sublist.map _)
  have hmap : (h.rowsAt k).map Checkpoint.key =
      ((h.rowsAt k).map Checkpoint.cid).map fun cid => (k.1, k.2, cid) := by
    rw [List.map_map]
    refine List.map_congr_left fun c hc => ?_
    have hs := space_of_mem_rowsAt hc
    simp [← hs, Checkpoint.key, Checkpoint.space]
  rw [hmap] at hkeys
  exact hkeys.of_map _

/-- A checkpoint is the one found under its id. -/
theorem find?_of_mem (h : History) {k : String × String} {c : Checkpoint} (hc : c ∈ h.rowsAt k) :
    (h.rowsAt k).find? (fun d => d.cid = c.cid) = some c := by
  cases hf : (h.rowsAt k).find? (fun d => d.cid = c.cid) with
  | none => exact absurd (decide_eq_true rfl) (List.find?_eq_none.1 hf c hc)
  | some d =>
    have hcid : d.cid = c.cid := by simpa using List.find?_some hf
    rw [List.inj_on_of_nodup_map (h.nodup_cids k) (List.mem_of_find?_eq_some hf) hc hcid]

theorem mem_of_select {h : History} {p : GetPayload} {c : Checkpoint} (hc : h.select p = some c) :
    c ∈ h.rowsAt (p.thread, normNs p.checkpointNs) := by
  unfold select at hc
  split at hc
  · exact List.mem_of_getLast? hc
  · exact List.mem_of_find?_eq_some hc

/-- A put moves its id to the end. -/
theorem cids_rowsAt_put (h : History) (c : Checkpoint) :
    ((h.put c).rowsAt c.space).map Checkpoint.cid =
      ((h.rowsAt c.space).map Checkpoint.cid).erase c.cid ++ [c.cid] := by
  rw [rowsAt_put, if_pos rfl, (h.nodup_cids c.space).erase_eq_filter, List.filter_map,
    Keyed.replace, List.map_append, List.map_singleton]
  congr 2
  refine List.filter_congr fun d hd => ?_
  simp [key_eq_iff_cid_eq hd rfl, bne, beq_eq_decide]

/-- The checkpoint with an id, after a put. -/
theorem find?_rowsAt_put (h : History) (c : Checkpoint) (cid : String) :
    ((h.put c).rowsAt c.space).find? (fun d => d.cid = cid) =
      if c.cid = cid then some c else (h.rowsAt c.space).find? fun d => d.cid = cid := by
  rw [rowsAt_put, if_pos rfl, Keyed.find?_replace]
  · simp
  · intro d hd
    rw [key_eq_iff_cid_eq hd rfl]
    constructor
    · intro hc hd
      rw [of_decide_eq_true hc, of_decide_eq_true hd]
    · intro hcid
      rw [hcid]

end History

/-! ## The in-memory store -/

/-- A record as `checkpoint_list` shows it. -/
def CheckpointRecord.item (k : String × String) (cid : String) (r : CheckpointRecord) : ListItem :=
  ⟨k.1, k.2, cid, r.parentCheckpointId, r.checkpointB64, r.metadataB64⟩

/-- The record of a batch of writes. -/
def Write.record (w : Write) : WriteRecord :=
  ⟨w.taskId, w.taskPath, w.value.val, ""⟩

namespace CheckpointStore

/-- The record under a thread, namespace and id. -/
def record? (s : CheckpointStore) (k : String × String) (cid : String) : Option CheckpointRecord :=
  ((s.byThread.get? k).getD Dict.empty).get? cid

/-- The dictionaries hold the history. -/
structure Refines (s : CheckpointStore) (h : History) : Prop where
  keys : s.byThread.keys = h.spaces
  order : ∀ k, s.order.get? k =
    if h.rowsAt k = [] then none else some ((h.rowsAt k).map Checkpoint.cid)
  records : ∀ k cid, (s.record? k cid).map (CheckpointRecord.item k cid) =
    ((h.rowsAt k).find? fun c => c.cid = cid).map Checkpoint.item
  nonempty : ∀ k d, s.byThread.get? k = some d → d.entries ≠ []
  writes : ∀ k, (s.writes.get? k).getD [] = (h.writesAt k).map Write.record

theorem init_refines : Refines init History.empty where
  keys := rfl
  order := fun _ => rfl
  records := fun _ _ => rfl
  nonempty := by simp [init]
  writes := fun _ => rfl

section

variable {s : CheckpointStore} {h : History}

theorem Refines.getD_order (hr : Refines s h) (k : String × String) :
    (s.order.get? k).getD [] = (h.rowsAt k).map Checkpoint.cid := by
  rw [hr.order k]
  split_ifs with hk
  · simp [hk]
  · rfl

theorem record?_put_self (s : CheckpointStore) (p : PutPayload) (cid : String) :
    (s.put p).1.record? (p.thread, normNs p.checkpointNs) cid =
      if p.checkpointId = cid then
        some ⟨p.checkpointId, p.parentCheckpointId, p.checkpointB64.val, p.metadataB64.val,
          normVersions p.newVersions⟩
      else s.record? (p.thread, normNs p.checkpointNs) cid := by
  rw [record?, put, Dict.get?_set_self, Option.getD_some]
  split_ifs with hcid
  · rw [hcid, Dict.get?_set_self]
  · rw [Dict.get?_set_of_ne _ _ fun e => hcid e.symm]
    rfl

theorem record?_put_of_ne (s : CheckpointStore) (p : PutPayload) {k : String × String}
    (hk : k ≠ (p.thread, normNs p.checkpointNs)) (cid : String) :
    (s.put p).1.record? k cid = s.record? k cid := by
  rw [record?, put, Dict.get?_set_of_ne _ _ hk]
  rfl

theorem refines_put (hr : Refines s h) (p : PutPayload) :
    Refines (s.put p).1 (h.put p.checkpoint) where
  keys := by
    change (s.byThread.set _ _).keys = _
    rw [Dict.keys_set, hr.keys]
    by_cases hk : p.checkpoint.space ∈ h.spaces
    · exact (if_pos hk).trans (if_pos hk).symm
    · exact (if_neg hk).trans (if_neg hk).symm
  order := by
    intro k
    by_cases hk : p.checkpoint.space = k
    · subst hk
      have hne : (h.put p.checkpoint).rowsAt p.checkpoint.space ≠ [] := by
        rw [h.rowsAt_put, if_pos rfl, Keyed.replace]
        simp
      rw [if_neg hne, h.cids_rowsAt_put]
      change (s.order.set p.checkpoint.space _).get? p.checkpoint.space = _
      rw [Dict.get?_set_self, ← hr.getD_order]
      change some ((if p.checkpoint.cid ∈ (s.order.get? p.checkpoint.space).getD [] then _ else _)
        ++ _) = _
      split_ifs with hmem
      · rfl
      · rw [List.erase_of_not_mem hmem]
        rfl
    · rw [h.rowsAt_put, if_neg hk, ← hr.order k]
      exact Dict.get?_set_of_ne _ _ fun e => hk e.symm
  records := by
    intro k cid
    by_cases hk : p.checkpoint.space = k
    · subst hk
      rw [h.find?_rowsAt_put]
      change ((s.put p).1.record? (p.thread, normNs p.checkpointNs) cid).map _ = _
      rw [record?_put_self]
      change (if p.checkpoint.cid = cid then _ else _ : Option CheckpointRecord).map _ = _
      split_ifs with hcid
      · subst hcid
        rfl
      · exact hr.records _ cid
    · rw [h.rowsAt_put, if_neg hk, record?_put_of_ne s p fun e => hk e.symm]
      exact hr.records k cid
  nonempty := by
    intro k d hd
    by_cases hk : k = p.checkpoint.space
    · subst hk
      change (s.byThread.set p.checkpoint.space _).get? p.checkpoint.space = _ at hd
      rw [Dict.get?_set_self] at hd
      rw [← Option.some.inj hd]
      exact Dict.entries_set_ne_nil _ _ _
    · refine hr.nonempty k d ?_
      rw [← hd]
      exact (Dict.get?_set_of_ne _ _ hk).symm
  writes := hr.writes

/-- The dedupe of `put_writes` looks for the key of the writes. -/
theorem any_writes_eq (hr : Refines s h) (p : WritesPayload) :
    ((s.writes.get? p.write.owner).getD []).any
        (fun w => (w.taskId, w.taskPath) = (p.taskId, p.taskPath.getD "")) =
      (h.writesAt p.write.owner).any fun w => w.key = p.write.key := by
  rw [hr.writes, List.any_map, Bool.eq_iff_iff, List.any_eq_true, List.any_eq_true]
  refine exists_congr fun w => and_congr_right fun hw => ?_
  have ho := History.owner_of_mem_writesAt hw
  simp only [Write.owner, Prod.mk.injEq] at ho
  rw [Function.comp_apply, decide_eq_true_iff, decide_eq_true_iff]
  simp [Write.key, Write.record, WritesPayload.write, ho]

/-- What `put_writes` does to the dictionaries. -/
theorem putWrites_cases (s : CheckpointStore) (p : WritesPayload) :
    (((s.writes.get? p.write.owner).getD []).any
        (fun w => (w.taskId, w.taskPath) = (p.taskId, p.taskPath.getD "")) = true ∧
      s.putWrites p = (s, .ok)) ∨
    (((s.writes.get? p.write.owner).getD []).any
        (fun w => (w.taskId, w.taskPath) = (p.taskId, p.taskPath.getD "")) = false ∧
      s.putWrites p = ({ s with
        writes := s.writes.set p.write.owner
          ((s.writes.get? p.write.owner).getD [] ++ [p.write.record]) }, .ok)) := by
  by_cases hany : ((s.writes.get? p.write.owner).getD []).any
      (fun w => (w.taskId, w.taskPath) = (p.taskId, p.taskPath.getD "")) = true
  · exact Or.inl ⟨hany, if_pos hany⟩
  · exact Or.inr ⟨by simpa using hany, if_neg hany⟩

theorem refines_putWrites (hr : Refines s h) (p : WritesPayload) :
    Refines (s.putWrites p).1 (h.putWrites p.write) := by
  rcases putWrites_cases s p with ⟨hany, he⟩ | ⟨hany, he⟩
  · rw [he]
    refine ⟨hr.keys, hr.order, hr.records, hr.nonempty, fun k => ?_⟩
    rw [any_writes_eq hr p] at hany
    obtain ⟨w, hw, hkey⟩ := List.any_eq_true.1 hany
    rw [h.writesAt_putWrites]
    split_ifs with hk
    · subst hk
      rw [Keyed.insertNew_of_mem hw (of_decide_eq_true hkey)]
      exact hr.writes _
    · exact hr.writes k
  · rw [he]
    refine ⟨hr.keys, hr.order, hr.records, hr.nonempty, fun k => ?_⟩
    rw [any_writes_eq hr p] at hany
    rw [h.writesAt_putWrites]
    split_ifs with hk
    · subst hk
      have hne : ∀ w ∈ h.writesAt p.write.owner, w.key ≠ p.write.key := by
        intro w hw hkey
        exact List.any_eq_false.1 hany w hw (decide_eq_true hkey)
      rw [Dict.get?_set_self, Keyed.insertNew_of_forall_ne hne, Option.getD_some, hr.writes,
        List.map_append, List.map_singleton]
    · rw [Dict.get?_set_of_ne _ _ fun e => hk e.symm]
      exact hr.writes k

/-! ### Its replies -/

theorem tupleAt_eq (hr : Refines s h) (k : String × String) (cid : String) :
    s.tupleAt k.1 k.2 ((s.byThread.get? k).getD Dict.empty) cid =
      match (h.rowsAt k).find? fun c => c.cid = cid with
      | none => .notFound
      | some c => .found (h.tuple c) := by
  have hrec := hr.records k cid
  unfold tupleAt
  unfold record? at hrec
  cases hf : (h.rowsAt k).find? (fun c => c.cid = cid) with
  | none =>
    rw [hf, Option.map_none, Option.map_eq_none_iff] at hrec
    rw [hrec]
  | some c =>
    rw [hf, Option.map_some, Option.map_eq_some_iff] at hrec
    obtain ⟨r, hr', hitem⟩ := hrec
    have hcid : c.cid = cid := by simpa using List.find?_some hf
    have hspace := History.space_of_mem_rowsAt (List.mem_of_find?_eq_some hf)
    have hkey : c.key = (k.1, k.2, cid) := by
      rw [← hspace, ← hcid]
      rfl
    simp only [CheckpointRecord.item, Checkpoint.item, ListItem.mk.injEq] at hitem
    have hpend : ((s.writes.get? (k.1, k.2, cid)).getD []).map
          (fun w => (⟨w.taskId, w.channel, w.writesB64⟩ : PendingWrite)) =
        (h.writesAt c.key).map Write.pending := by
      rw [hr.writes, hkey, List.map_map]
      rfl
    rw [hr']
    change StoreReply.found ⟨cid, r.parentCheckpointId, r.checkpointB64, r.metadataB64, _⟩ =
      StoreReply.found ⟨c.cid, c.parentCid, c.blob.val, c.metadata.val, _⟩
    rw [hpend, hitem.2.2.2.1, hitem.2.2.2.2.1, hitem.2.2.2.2.2, hcid]

/-- A thread and namespace without checkpoints has no dictionary. -/
theorem Refines.byThread_eq_none (hr : Refines s h) {k : String × String} :
    s.byThread.get? k = none ↔ h.rowsAt k = [] := by
  rw [Dict.get?_eq_none, hr.keys, History.rowsAt_eq_nil]

theorem getTuple_eq (hr : Refines s h) (p : GetPayload) : s.getTuple p = h.getTuple p := by
  have htuple := tupleAt_eq hr (p.thread, normNs p.checkpointNs)
  have hnone := hr.byThread_eq_none (k := (p.thread, normNs p.checkpointNs))
  have hlast := congrArg List.getLast? (hr.getD_order (p.thread, normNs p.checkpointNs))
  simp only [getTuple, History.getTuple, History.select]
  cases hd : s.byThread.get? (p.thread, normNs p.checkpointNs) with
  | none =>
    rw [hnone.1 hd]
    cases p.checkpointId <;> rfl
  | some d =>
    have hne := hr.nonempty _ d hd
    rw [hd] at htuple
    simp only [List.isEmpty_iff, hne, if_false]
    cases p.checkpointId with
    | some cid => exact htuple cid
    | none =>
      simp only
      rw [hlast, List.getLast?_map]
      cases hc : (h.rowsAt (p.thread, normNs p.checkpointNs)).getLast? with
      | none => rfl
      | some c =>
        refine (htuple c.cid).trans ?_
        rw [h.find?_of_mem (List.mem_of_getLast? hc)]

/-- What one more page adds to `len` items : at least its first item, and otherwise as
much as the limit leaves room for. -/
def takeRoom (limit : Option ℤ) (len : ℕ) (page : List ListItem) : List ListItem :=
  match limit with
  | none => page
  | some n => page.take (max 1 (n - len)).toNat

theorem full_some (n : ℤ) (items : List ListItem) :
    full (some n) items = decide (n ≤ (items.length : ℤ)) :=
  rfl

theorem listIds_eq {records : Dict String CheckpointRecord} {k : String × String}
    (limit : Option ℤ) : ∀ (cs : List Checkpoint) (items : List ListItem),
    (∀ c ∈ cs, (records.get? c.cid).map (CheckpointRecord.item k c.cid) = some c.item) →
    listIds records k limit (cs.map Checkpoint.cid) items =
      items ++ takeRoom limit items.length (cs.map Checkpoint.item)
  | [], items, _ => by cases limit <;> simp [listIds, takeRoom]
  | c :: cs, items, hc => by
    obtain ⟨r, hr, hitem⟩ := Option.map_eq_some_iff.1 (hc c (by simp))
    have ih := listIds_eq limit cs (items ++ [c.item]) fun d hd => hc d (List.mem_cons_of_mem _ hd)
    rw [List.map_cons, listIds, hr]
    change (if full limit (items ++ [CheckpointRecord.item k c.cid r]) = true then
      items ++ [CheckpointRecord.item k c.cid r] else
        listIds records k limit (cs.map Checkpoint.cid)
          (items ++ [CheckpointRecord.item k c.cid r])) = _
    rw [hitem, ih]
    cases limit with
    | none => simp [full, takeRoom]
    | some n =>
      simp only [full_some, takeRoom, List.length_append, List.length_singleton, decide_eq_true_eq,
        List.map_cons]
      split_ifs with hfull
      · have hone : (max 1 (n - (items.length : ℤ))).toNat = 0 + 1 := by omega
        rw [hone, List.take_succ_cons, List.take_zero]
      · have hroom : (max 1 (n - (items.length : ℤ))).toNat =
            (max 1 (n - ((items.length + 1 : ℕ) : ℤ))).toNat + 1 := by omega
        rw [hroom, List.take_succ_cons]
        simp

/-- The cut is at a string that is not empty. -/
theorem cutBefore_eq_ite (before : Json) (ids : List String) :
    cutBefore before ids =
      match cutId before with
      | some b => if b ∈ ids then ids.drop (ids.idxOf b + 1) else ids
      | none => ids := by
  cases before with
  | str b =>
    by_cases hb : b = ""
    · subst hb
      have htruthy : truthyId (some "") = none := by simp [truthyId, Option.filter_some]
      simp [cutBefore, cutId, Json.string?, htruthy]
    · have htruthy : truthyId (some b) = some b := by simp [truthyId, Option.filter_some, hb]
      simp [cutBefore, cutId, Json.string?, htruthy, hb]
  | null | bool b | int n | float x | arr xs | obj ms => rfl

/-- The ids after the cut at `before_checkpoint_id`, newest first. -/
theorem cutBefore_eq (h : History) (before : Json) (k : String × String) :
    cutBefore before ((h.rowsAt k).map Checkpoint.cid).reverse =
      (Keyed.before Checkpoint.cid (cutId before) (h.rowsAt k)).reverse.map Checkpoint.cid := by
  rw [cutBefore_eq_ite]
  cases cutId before with
  | none => simp [Keyed.before]
  | some b =>
    simp only [List.mem_reverse]
    rw [List.map_reverse, Keyed.map_before Checkpoint.cid id Checkpoint.cid
      fun _ => rfl]
    split_ifs with hb
    · rw [Keyed.drop_idxOf_reverse (h.nodup_cids k) hb]
    · rw [Keyed.before_of_forall_ne]
      rintro cid hcid rfl
      exact hb hcid

/-- The inner loop adds one page. -/
theorem listIds_page (hr : Refines s h) (before : Json) (limit : Option ℤ)
    (k : String × String) (items : List ListItem) :
    listIds ((s.byThread.get? k).getD Dict.empty) k limit
        (cutBefore before ((h.rowsAt k).map Checkpoint.cid).reverse) items =
      items ++ takeRoom limit items.length (h.page (cutId before) k) := by
  rw [cutBefore_eq, listIds_eq, History.page, History.older]
  intro c hc
  have hmem : c ∈ h.rowsAt k := Keyed.mem_of_mem_before (List.mem_reverse.1 hc)
  exact (hr.records k c.cid).trans (by rw [h.find?_of_mem hmem, Option.map_some])

/-- One round of the outer loop. -/
theorem listKeys_cons (hr : Refines s h) (before : Json) (limit : Option ℤ)
    {k : String × String} (hk : h.rowsAt k ≠ []) (keys : List (String × String))
    (items : List ListItem) :
    s.listKeys before limit (k :: keys) items =
      if full limit (items ++ takeRoom limit items.length (h.page (cutId before) k)) then
        items ++ takeRoom limit items.length (h.page (cutId before) k)
      else s.listKeys before limit keys
        (items ++ takeRoom limit items.length (h.page (cutId before) k)) := by
  rw [listKeys, hr.order k, if_neg hk, ← listIds_page hr]

/-- The outer loop without a limit. -/
theorem listKeys_none (hr : Refines s h) (before : Json) :
    ∀ (keys : List (String × String)) (items : List ListItem), (∀ k ∈ keys, h.rowsAt k ≠ []) →
    s.listKeys before none keys items = items ++ (keys.map (h.page (cutId before))).flatten
  | [], items, _ => by simp [listKeys]
  | k :: keys, items, hk => by
    have ih := listKeys_none hr before keys (items ++ h.page (cutId before) k) fun k' hk' =>
      hk k' (List.mem_cons_of_mem _ hk')
    rw [listKeys_cons hr before none (hk k (by simp))]
    simp only [full, takeRoom, Option.any_none, Bool.false_eq_true, if_false]
    rw [ih, List.map_cons, List.flatten_cons, List.append_assoc]

/-- The outer loop with room for more items. -/
theorem listKeys_some (hr : Refines s h) (before : Json) (n : ℤ) :
    ∀ (keys : List (String × String)) (items : List ListItem), (∀ k ∈ keys, h.rowsAt k ≠ []) →
    (items.length : ℤ) < n → s.listKeys before (some n) keys items =
      items ++ ((keys.map (h.page (cutId before))).flatten).take (n - items.length).toNat
  | [], items, _, _ => by simp [listKeys]
  | k :: keys, items, hk, hlt => by
    have hroom : (max 1 (n - (items.length : ℤ))).toNat = (n - (items.length : ℤ)).toNat := by omega
    rw [listKeys_cons hr before (some n) (hk k (by simp))]
    simp only [full_some, takeRoom, hroom, List.length_append, List.length_take, decide_eq_true_eq,
      List.map_cons, List.flatten_cons]
    split_ifs with hfull
    · have hle : (n - (items.length : ℤ)).toNat ≤ (h.page (cutId before) k).length := by omega
      rw [List.take_append_of_le_length hle]
    · have hle : (h.page (cutId before) k).length ≤ (n - (items.length : ℤ)).toNat := by omega
      have hlt' : ((items ++ h.page (cutId before) k).length : ℤ) < n := by
        rw [List.length_append]
        omega
      rw [List.take_of_length_le hle, listKeys_some hr before n keys _ (fun k' hk' =>
        hk k' (List.mem_cons_of_mem _ hk')) hlt', List.take_append, List.take_of_length_le hle,
        List.append_assoc]
      congr 3
      rw [List.length_append]
      omega

/-- The loops of `list` over keys that have checkpoints. -/
theorem listKeys_eq (hr : Refines s h) (before : Json) (limit : Option ℤ)
    (keys : List (String × String)) (hk : ∀ k ∈ keys, h.rowsAt k ≠ []) :
    s.listKeys before limit keys [] =
      History.memoryLimit limit (keys.map (h.page (cutId before))) := by
  unfold History.memoryLimit
  cases limit with
  | none => simpa using listKeys_none hr before keys [] hk
  | some n =>
    simp only
    split_ifs with hn
    · have hlt : (([] : List ListItem).length : ℤ) < n := by
        rw [List.length_nil]
        omega
      simpa using listKeys_some hr before n keys [] hk hlt
    · cases keys with
      | nil => simp [listKeys]
      | cons k keys =>
        have hroom : (max 1 (n - (([] : List ListItem).length : ℤ))).toNat = 1 := by
          rw [List.length_nil]
          omega
        rw [listKeys_cons hr before (some n) (hk k (by simp)), if_pos]
        · simp only [takeRoom, hroom, List.nil_append, List.map_cons, List.head?_cons,
            Option.getD_some]
        · rw [full_some, decide_eq_true_eq]
          omega

/-- A key without checkpoints is passed over. -/
theorem listKeys_singleton_of_nil (hr : Refines s h) (before : Json) (limit : Option ℤ)
    {k : String × String} (hk : h.rowsAt k = []) :
    s.listKeys before limit [k] [] = History.memoryLimit limit [h.page (cutId before) k] := by
  have hpage : h.page (cutId before) k = [] := by
    rw [History.page, History.older, hk]
    cases cutId before <;> rfl
  rw [listKeys, hr.order k, if_pos hk, hpage]
  cases limit <;> simp [listKeys, History.memoryLimit]

theorem list_eq (hr : Refines s h) (p : ListPayload) : s.list p = h.memoryList p := by
  simp only [list, History.memoryList]
  cases p.thread with
  | none =>
    refine congrArg StoreReply.items ?_
    rw [hr.keys]
    refine listKeys_eq hr _ _ _ fun k hk hnil => ?_
    exact History.rowsAt_eq_nil.1 hnil hk
  | some thread =>
    refine congrArg StoreReply.items ?_
    by_cases hk : h.rowsAt (thread, normNs p.checkpointNs) = []
    · exact listKeys_singleton_of_nil hr _ _ hk
    · refine listKeys_eq hr _ _ _ fun k hk' => ?_
      rw [List.mem_singleton.1 hk']
      exact hk

end

end CheckpointStore

/-! ## The SQLite store -/

/-- The row of a checkpoint. -/
def Checkpoint.row (c : Checkpoint) (versions : Json) : CheckpointRow :=
  ⟨c.thread, c.ns, c.cid, c.parentCid.string?, SqliteCheckpointStore.jsonDumps c.blob.val,
    SqliteCheckpointStore.jsonDumps c.metadata.val, SqliteCheckpointStore.jsonDumps versions⟩

/-- The row of a batch of writes. -/
def Write.row (w : Write) : WriteRow :=
  ⟨w.thread, w.ns, w.cid, w.taskId, w.taskPath, SqliteCheckpointStore.jsonDumps w.value.val⟩

namespace SqliteCheckpointStore

/-- The tables hold the history. The versions column is written and never read, and a parent is
null or a string. -/
structure Refines (s : SqliteCheckpointStore) (h : History) : Prop where
  checkpoints : ∃ es : List (Checkpoint × Json),
    s.checkpoints.contents = es.map (fun e => e.1.row e.2) ∧ h.checkpoints = es.map Prod.fst
  parents : ∀ c ∈ h.checkpoints, c.parentCid.IsText
  writes : s.writes.contents = h.writes.map Write.row

theorem init_refines : Refines init History.empty where
  checkpoints := ⟨[], rfl, rfl⟩
  parents := List.forall_mem_nil _
  writes := rfl

section

variable {s : SqliteCheckpointStore} {h : History}

/-- A put is stored with the text of its parent, or refused. -/
theorem refines_put (db : Sqlite) (hr : Refines s h) (p : PutPayload) :
    Refines (s.put db p).1 (h.step (.sqlite db) (.put p)) ∧
      (s.put db p).2 = h.reply (.sqlite db) (.put p) := by
  have hstored : Backend.stored? (.sqlite db) p.checkpoint =
      (db.textParam p.parentCheckpointId).map fun parent =>
        { p.checkpoint with parentCid := Json.ofString? parent } := rfl
  unfold put
  rw [History.step, History.reply, hstored]
  cases db.textParam p.parentCheckpointId with
  | none => exact ⟨hr, rfl⟩
  | some parent =>
    refine ⟨⟨?_, ?_, hr.writes⟩, rfl⟩
    · obtain ⟨es, hs, hh⟩ := hr.checkpoints
      let e : Checkpoint × Json :=
        ({ p.checkpoint with parentCid := Json.ofString? parent }, normVersions p.newVersions)
      have hrow : e.1.row e.2 = ⟨p.thread, normNs p.checkpointNs, p.checkpointId, parent,
          jsonDumps p.checkpointB64.val, jsonDumps p.metadataB64.val,
          jsonDumps (normVersions p.newVersions)⟩ := by
        simp [e, Checkpoint.row, PutPayload.checkpoint]
      refine ⟨Keyed.replace (fun e => e.1.key) e es, ?_, ?_⟩
      · refine (Table.contents_insertOrReplace db.auto _ _ _).trans ?_
        rw [hs, ← hrow]
        exact (Keyed.map_replace (fun e : Checkpoint × Json => e.1.key) CheckpointRow.key
          (fun e => e.1.row e.2) (fun _ => rfl) e es).symm
      · refine (congrArg (Keyed.replace Checkpoint.key e.1) hh).trans ?_
        exact (Keyed.map_replace (fun e : Checkpoint × Json => e.1.key) Checkpoint.key Prod.fst
          (fun _ => rfl) e es).symm
    · intro c hc
      rcases Keyed.mem_replace.1 hc with ⟨hc, -⟩ | rfl
      · exact hr.parents c hc
      · simp

theorem refines_putWrites (db : Sqlite) (hr : Refines s h) (p : WritesPayload) :
    Refines (s.putWrites db p).1 (h.putWrites p.write) where
  checkpoints := hr.checkpoints
  parents := hr.parents
  writes := by
    refine (Table.contents_insertOrIgnore db.auto _ _ _).trans ?_
    rw [hr.writes]
    exact
      (Keyed.map_insertNew Write.key WriteRow.key Write.row (fun _ => rfl) p.write h.writes).symm

/-! ### Its replies -/

/-- What is written out as JSON text is read back. -/
theorem loadsText_jsonDumps (v : Json.Value) : Json.loadsText (jsonDumps v.val) = some v.val :=
  Json.loadsText_dumps Json.spaced v.wf

theorem itemOf_row {c : Checkpoint} (hc : c.parentCid.IsText) (versions : Json) :
    itemOf (c.row versions) = some c.item := by
  unfold Json.IsText at hc
  simp [itemOf, Checkpoint.row, loadsText_jsonDumps, Checkpoint.item, hc]

theorem pendingOf_row (w : Write) : pendingOf w.row = some w.pending := by
  simp [pendingOf, Write.row, loadsText_jsonDumps, Write.pending]

/-- Rows that all read back. -/
theorem mapM_eq_some {α β γ : Type*} {f : β → Option γ} {e : α → β} {g : α → γ} : ∀ {l : List α},
    (∀ a ∈ l, f (e a) = some (g a)) → (l.map e).mapM f = some (l.map g)
  | [], _ => rfl
  | a :: l, hf => by
    rw [List.forall_mem_cons] at hf
    simp [hf.1, mapM_eq_some hf.2]

/-- The pending writes of a checkpoint. -/
theorem mapM_pendingOf (hr : Refines s h) (k : String × String × String) :
    (s.writes.selectAsc fun r => r.2.thread = k.1 && r.2.ns = k.2.1 && r.2.cid = k.2.2).mapM
        (fun r => pendingOf r.2) = some ((h.writesAt k).map Write.pending) := by
  refine (List.mapM_map (f := Prod.snd) (g := pendingOf)).symm.trans ?_
  rw [Table.map_selectAsc (fun r : WriteRow => r.thread = k.1 && r.ns = k.2.1 && r.cid = k.2.2),
    hr.writes, List.filter_map, mapM_eq_some fun w _ => pendingOf_row w, History.writesAt]
  congr 3
  funext w
  rw [Bool.eq_iff_iff]
  simp only [Function.comp_apply, Bool.and_eq_true, decide_eq_true_eq]
  simp [Write.row, Write.owner, Prod.ext_iff, and_assoc]

/-- The selected row is the row of the selected checkpoint. -/
theorem tupleRow_eq (hr : Refines s h) (p : GetPayload) :
    ∃ e : Option (Checkpoint × Json),
      s.tupleRow p.thread (normNs p.checkpointNs) p.checkpointId = e.map (fun e => e.1.row e.2) ∧
      h.select p = e.map Prod.fst := by
  obtain ⟨es, hs, hh⟩ := hr.checkpoints
  have hspace : ∀ e : Checkpoint × Json,
      atKey p.thread (normNs p.checkpointNs) (e.1.row e.2) =
        decide (e.1.space = (p.thread, normNs p.checkpointNs)) := by
    intro e
    rw [Bool.eq_iff_iff]
    simp only [atKey, Bool.and_eq_true, decide_eq_true_eq]
    simp [Checkpoint.row, Checkpoint.space]
  unfold History.select History.rowsAt
  rw [hh]
  cases p.checkpointId with
  | none =>
    refine ⟨(es.filter fun e => e.1.space = (p.thread, normNs p.checkpointNs)).getLast?, ?_, ?_⟩
    · rw [tupleRow, List.head?_take, if_neg (by simp), ← List.head?_map,
        Table.map_selectDesc (atKey p.thread (normNs p.checkpointNs)), List.head?_reverse, hs,
        List.filter_map, List.getLast?_map]
      simp only [Function.comp_def, hspace]
    · rw [List.filter_map, List.getLast?_map]
      rfl
  | some cid =>
    refine ⟨es.find? fun e =>
      decide (e.1.space = (p.thread, normNs p.checkpointNs)) && e.1.cid = cid, ?_, ?_⟩
    · rw [tupleRow, Table.map_selectOne, hs]
      simp only [List.find?_map, Function.comp_def, hspace]
      rfl
    · simp only [List.filter_map, List.find?_map, List.find?_filter, Function.comp_def]
      simp

theorem getTuple_eq (hr : Refines s h) (p : GetPayload) : s.getTuple p = some (h.getTuple p) := by
  obtain ⟨e, hrow, hsel⟩ := tupleRow_eq hr p
  rw [getTuple, hrow, History.getTuple, hsel]
  cases e with
  | none => rfl
  | some e =>
    have hmem : e.1 ∈ h.rowsAt (p.thread, normNs p.checkpointNs) := h.mem_of_select hsel
    have hspace := History.space_of_mem_rowsAt hmem
    have hkey : e.1.key = (p.thread, normNs p.checkpointNs, e.1.cid) := by
      rw [Checkpoint.space, Prod.mk.injEq] at hspace
      rw [Checkpoint.key, hspace.1, hspace.2]
    have hpend := mapM_pendingOf hr (p.thread, normNs p.checkpointNs, e.1.cid)
    simp only [Option.map_some, tupleReply]
    change ((s.writes.selectAsc fun r => r.2.thread = p.thread && r.2.ns = normNs p.checkpointNs &&
      r.2.cid = e.1.cid).mapM fun r => pendingOf r.2) >>= _ = _
    have hparent : Json.ofString? e.1.parentCid.string? = e.1.parentCid :=
      hr.parents e.1 (List.mem_filter.1 hmem).1
    rw [hpend]
    simp [Checkpoint.row, loadsText_jsonDumps, History.tuple, hkey, hparent]

/-! ### `list` -/

/-- The rows of `list`, before the limit. -/
theorem map_listed (s : SqliteCheckpointStore) (p : ListPayload) (before : Option String) :
    (s.checkpoints.selectDesc (listWhere p (s.beforeSeq p before))).map Prod.snd =
      ((Keyed.before CheckpointRow.key (beforeKey p before) s.checkpoints.contents).filter
        (listScope p)).reverse := by
  have hunbounded : (s.checkpoints.rows.filter (listWhere p none)).map Prod.snd =
      s.checkpoints.contents.filter (listScope p) := by
    rw [Table.contents, List.filter_map]
    congr 2
    funext r
    simp [listWhere]
  rw [Table.selectDesc_eq, List.map_reverse, beforeSeq]
  congr 1
  cases beforeKey p before with
  | none => exact hunbounded
  | some k =>
    rw [Option.bind_some]
    cases hk : s.checkpoints.selectOne (fun r => r.key = k) with
    | some e => exact Table.map_filter_lt hk (listScope p)
    | none =>
      have hnone := (Table.map_selectOne _ _).symm.trans (congrArg (Option.map Prod.snd) hk)
      rw [Option.map_none, hunbounded, Keyed.before_of_forall_ne]
      intro r hr
      simpa using List.find?_eq_none.1 hnone r hr

theorem map_sqlLimit {α β : Type*} (f : α → β) (limit : Option ℤ) (rows : List α) :
    (sqlLimit limit rows).map f = sqlLimit limit (rows.map f) := by
  unfold sqlLimit
  cases limit with
  | none => rfl
  | some n =>
    simp only
    split_ifs
    · rfl
    · rw [List.map_take]

/-- The rows of `list` are the rows of the checkpoints in its scope. -/
theorem map_listed_eq {es : List (Checkpoint × Json)} (p : ListPayload) (before : Option String)
    (hs : s.checkpoints.contents = es.map fun e => e.1.row e.2) :
    (s.checkpoints.selectDesc (listWhere p (s.beforeSeq p before))).map Prod.snd =
      (((Keyed.before (fun e => e.1.key) (beforeKey p before) es).filter
        fun e => History.inScope p e.1).reverse).map fun e => e.1.row e.2 := by
  have hscope : (listScope p ∘ fun e : Checkpoint × Json => e.1.row e.2) =
      fun e => History.inScope p e.1 := by
    funext e
    simp only [Function.comp_apply, listScope, History.inScope]
    rfl
  rw [map_listed, hs, ← Keyed.map_before (fun e : Checkpoint × Json => e.1.key)
    CheckpointRow.key (fun e => e.1.row e.2) (fun _ => rfl), List.filter_map, hscope,
    List.map_reverse]

theorem mem_of_mem_sqlLimit {α : Type*} {limit : Option ℤ} {rows : List α} {a : α}
    (ha : a ∈ sqlLimit limit rows) : a ∈ rows := by
  unfold sqlLimit at ha
  cases limit with
  | none => exact ha
  | some n =>
    simp only at ha
    split_ifs at ha
    · exact ha
    · exact List.mem_of_mem_take ha

/-- The items of `list`. -/
theorem mapM_itemOf (hr : Refines s h) (p : ListPayload) (before : Option String) :
    (sqlLimit p.limit (s.checkpoints.selectDesc (listWhere p (s.beforeSeq p before)))).mapM
      (fun r => itemOf r.2) = some (h.sqliteItems p before) := by
  obtain ⟨es, hs, hh⟩ := hr.checkpoints
  have hitem : ∀ e ∈ sqlLimit p.limit
      ((Keyed.before (fun e => e.1.key) (beforeKey p before) es).filter
        fun e => History.inScope p e.1).reverse, itemOf (e.1.row e.2) = some e.1.item := by
    intro e he
    refine itemOf_row (hr.parents e.1 ?_) e.2
    rw [hh]
    exact List.mem_map_of_mem (Keyed.mem_of_mem_before
      (List.mem_filter.1 (List.mem_reverse.1 (mem_of_mem_sqlLimit he))).1)
  have hitems : (((Keyed.before (fun e => e.1.key) (beforeKey p before) es).filter
        fun e => History.inScope p e.1).reverse).map (fun e => e.1.item) =
      (((Keyed.before Checkpoint.key (beforeKey p before) h.checkpoints).filter
        (History.inScope p)).map Checkpoint.item).reverse := by
    rw [hh, ← Keyed.map_before (fun e : Checkpoint × Json => e.1.key)
      Checkpoint.key Prod.fst (fun _ => rfl), List.filter_map, List.map_map,
      ← List.map_reverse]
    rfl
  refine (List.mapM_map (f := Prod.snd) (g := itemOf)).symm.trans ?_
  rw [map_sqlLimit, map_listed_eq p before hs, ← map_sqlLimit, mapM_eq_some hitem, map_sqlLimit,
    hitems]
  rfl

theorem list_eq (db : Sqlite) (hr : Refines s h) (p : ListPayload) :
    s.list db p = h.sqliteList db p := by
  unfold list History.sqliteList
  refine congrArg (Option.bind (beforeText db p)) (funext fun before => ?_)
  split_ifs
  · simp only [mapM_itemOf hr]
    rfl
  · rfl

end

end SqliteCheckpointStore

/-! ## Runs of either store -/

namespace Backend

/-- A state of either store holds the history. -/
def Refines : (b : Backend) → b.State → History → Prop
  | .memory, s, h => CheckpointStore.Refines s h
  | .sqlite _, s, h => SqliteCheckpointStore.Refines s h

theorem init_refines : ∀ b : Backend, b.Refines b.init History.empty
  | .memory => CheckpointStore.init_refines
  | .sqlite _ => SqliteCheckpointStore.init_refines

/-- One request is answered as the history answers it, and keeps the relation. -/
theorem handle_refines : ∀ (b : Backend) {s : b.State} {h : History}, b.Refines s h →
    ∀ r : StoreRequest, b.Refines (b.handle s r).1 (h.step b r) ∧
      (b.handle s r).2 = h.reply b r
  | .memory, _, _, hr, .put p => ⟨CheckpointStore.refines_put hr p, rfl⟩
  | .memory, _, _, hr, .getTuple p => ⟨hr, congrArg some (CheckpointStore.getTuple_eq hr p)⟩
  | .memory, _, _, hr, .list p => ⟨hr, congrArg some (CheckpointStore.list_eq hr p)⟩
  | .memory, s, _, hr, .putWrites p => by
    refine ⟨CheckpointStore.refines_putWrites hr p, congrArg some ?_⟩
    rcases CheckpointStore.putWrites_cases s p with ⟨-, he⟩ | ⟨-, he⟩
    · rw [he]
    · rw [he]
  | .sqlite db, _, _, hr, .put p => SqliteCheckpointStore.refines_put db hr p
  | .sqlite _, _, _, hr, .getTuple p => ⟨hr, SqliteCheckpointStore.getTuple_eq hr p⟩
  | .sqlite db, _, _, hr, .list p => ⟨hr, SqliteCheckpointStore.list_eq db hr p⟩
  | .sqlite db, _, _, hr, .putWrites p => ⟨SqliteCheckpointStore.refines_putWrites db hr p, rfl⟩

theorem run_refines (b : Backend) : ∀ (rs : List StoreRequest) {s : b.State} {h : History},
    b.Refines s h → b.Refines (b.run s rs) (h.run b rs)
  | [], _, _, hr => hr
  | r :: rs, _, _, hr => run_refines b rs (b.handle_refines hr r).1

/-- The replies to a sequence of requests are those of the history. -/
theorem replies_eq (b : Backend) : ∀ (rs : List StoreRequest) {s : b.State} {h : History},
    b.Refines s h → b.replies s rs = h.replies b rs
  | [], _, _, _ => rfl
  | r :: rs, _, _, hr => by
    obtain ⟨hr', hreply⟩ := b.handle_refines hr r
    rw [replies, hreply, replies_eq b rs hr']
    rfl

end Backend

end PilotLanggraph

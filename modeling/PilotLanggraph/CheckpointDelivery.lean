import PilotLanggraph.CheckpointRefinement

/-!
# Checkpoint stores under repeated delivery

Results about whole runs of the checkpoint stores, read off their histories.

* `stores_interchangeable_iff` : on requests that name one thread and namespace the two
  stores give the same replies as long as SQLite can bind what they hold.
* `putWrites_pending` : the writes a task handed over first are what a later
  `checkpoint_get_tuple` shows of it.
* `putWrites_copies` : copies of a `checkpoint_put_writes` change no later read.
* `put_again_iff` : a repeated `checkpoint_put` changes no later read exactly when
  its checkpoint is still the newest one, of its thread and namespace in memory, of the
  whole database in SQLite.
-/

namespace PilotLanggraph

/-! ## The two stores side by side -/

/-- A `list` names a thread and a namespace, and its limit is null or positive. -/
def StoreRequest.Addressed : StoreRequest → Prop
  | .list p => p.thread.isSome ∧ p.checkpointNs.isSome ∧ ∀ n ∈ p.limit, 1 ≤ n
  | _ => True

/-- The first `limit`. -/
def atMost {α : Type*} (limit : Option ℤ) (l : List α) : List α :=
  match limit with
  | some n => l.take n.toNat
  | none => l

/-- SQLite can do what the request asks of the in-memory store with this history. It binds the
parent of a put, and gives back the parents that are found or listed as they were put. It binds
the limit and `before` of a list, and as a text `before` is the id that the in-memory store cuts
at, or that of no stored checkpoint. -/
def StoreRequest.Alike (db : Sqlite) (h : History) : StoreRequest → Prop
  | .put p => ∃ parent, db.textParam p.parentCheckpointId = some parent
  | .getTuple p => ∀ c ∈ h.select p, c.parentCid.IsText
  | .list p =>
    (∀ n ∈ p.limit, n < 2 ^ 63) ∧
    (∃ before, SqliteCheckpointStore.beforeText db p = some before ∧
      (before = cutId p.beforeCheckpointId ∨
        ∀ c ∈ h.checkpoints, some c.key ≠ SqliteCheckpointStore.beforeKey p before)) ∧
    ∀ thread ∈ p.thread, ∀ c ∈ atMost p.limit
      (h.older (cutId p.beforeCheckpointId) (thread, normNs p.checkpointNs)), c.parentCid.IsText
  | .putWrites _ => True

/-- Each request meets this at the history of the in-memory store before it. -/
def History.AllAlike (db : Sqlite) : History → List StoreRequest → Prop
  | _, [] => True
  | h, r :: rs => r.Alike db h ∧ AllAlike db (h.step .memory r) rs

/-! ### What SQLite keeps -/

/-- What is bound to a column of text is read back as it was if it is null or a string. -/
theorem Sqlite.ofString?_eq_iff {db : Sqlite} {v : Json} {text : Option String}
    (h : db.textParam v = some text) : Json.ofString? text = v ↔ v.IsText := by
  cases v with
  | null =>
    obtain rfl : none = text := Option.some.inj h
    exact iff_of_true rfl rfl
  | str s =>
    obtain rfl : some s = text := Option.some.inj h
    exact iff_of_true rfl rfl
  | bool b | int n | float x =>
    cases text <;> simp [Json.ofString?, Json.IsText, Json.string?]
  | arr xs | obj ms => cases h

/-- The checkpoint with the text of its parent. -/
def Checkpoint.bound (db : Sqlite) (c : Checkpoint) : Checkpoint :=
  ((Backend.sqlite db).stored? c).getD c

namespace Checkpoint

variable {db : Sqlite} {c : Checkpoint}

theorem item_injective : Function.Injective Checkpoint.item := by
  rintro ⟨t, ns, cid, parent, ⟨blob, hb⟩, ⟨metadata, hm⟩⟩ ⟨t', ns', cid', parent', ⟨blob', hb'⟩,
    ⟨metadata', hm'⟩⟩ h
  simpa [Checkpoint.item] using h

/-- But for the parent it is the same. -/
theorem bound_eq (db : Sqlite) (c : Checkpoint) :
    c.bound db = { c with parentCid := (c.bound db).parentCid } := by
  cases hstored : (Backend.sqlite db).stored? c with
  | none => rw [bound, hstored, Option.getD_none]
  | some c' =>
    rw [bound, hstored, Option.getD_some]
    exact Backend.stored_eq _ hstored

theorem key_bound (db : Sqlite) (c : Checkpoint) : (c.bound db).key = c.key := by
  rw [bound_eq]
  rfl

theorem space_bound (db : Sqlite) (c : Checkpoint) : (c.bound db).space = c.space :=
  space_eq_of_key_eq (c.key_bound db)

theorem cid_bound (db : Sqlite) (c : Checkpoint) : (c.bound db).cid = c.cid := by
  rw [bound_eq]

/-- Of what SQLite can bind, it keeps a parent that is null or a string, and no other. -/
theorem parentCid_bound_iff (h : ((Backend.sqlite db).stored? c).isSome) :
    (c.bound db).parentCid = c.parentCid ↔ c.parentCid.IsText := by
  unfold bound
  simp only [Backend.stored?] at h ⊢
  cases htext : db.textParam c.parentCid with
  | none =>
    rw [htext] at h
    cases h
  | some text => exact db.ofString?_eq_iff htext

end Checkpoint

namespace History

/-- The history of the SQLite store, beside that of the in-memory store : everything put so far
could be bound. -/
structure Bound (db : Sqlite) (h h' : History) : Prop where
  bindable : ∀ c ∈ h.checkpoints, ((Backend.sqlite db).stored? c).isSome
  checkpoints : h'.checkpoints = h.checkpoints.map (Checkpoint.bound db)
  writes : h'.writes = h.writes

/-! ### One thread and namespace -/

/-- In one thread and namespace a cut by key is a cut by id. -/
theorem before_rowsAt (h : History) (k : String × String) (b : String) :
    Keyed.before Checkpoint.key (some (k.1, k.2, b)) (h.rowsAt k) =
      Keyed.before Checkpoint.cid (some b) (h.rowsAt k) := by
  refine Keyed.before_congr fun c hc => ?_
  have hs := space_of_mem_rowsAt hc
  rw [← hs]
  simp [Checkpoint.key, Checkpoint.space]

theorem filter_inScope {p : ListPayload} {thread ns : String} (ht : p.thread = some thread)
    (hns : p.checkpointNs = some ns) : inScope p = fun c => decide (c.space = (thread, ns)) := by
  funext c
  rw [Bool.eq_iff_iff]
  simp [inScope, ht, hns, Checkpoint.space]

theorem map_atMost {α β : Type*} (f : α → β) (limit : Option ℤ) (l : List α) :
    (atMost limit l).map f = atMost limit (l.map f) := by
  unfold atMost
  cases limit with
  | none => rfl
  | some n => exact List.map_take

theorem mem_of_mem_atMost {α : Type*} {limit : Option ℤ} {l : List α} {x : α}
    (hx : x ∈ atMost limit l) : x ∈ l := by
  unfold atMost at hx
  cases limit with
  | none => exact hx
  | some n => exact List.mem_of_mem_take hx

/-- A positive limit leaves the first. -/
theorem head?_atMost {α : Type*} {limit : Option ℤ} (hlimit : ∀ n ∈ limit, 1 ≤ n) (l : List α) :
    (atMost limit l).head? = l.head? := by
  unfold atMost
  cases hl : limit with
  | none => rfl
  | some n =>
    have hn : 1 ≤ n := hlimit n hl
    exact List.head?_take.trans (if_neg (by omega))

theorem memoryLimit_singleton {limit : Option ℤ} (hlimit : ∀ n ∈ limit, 1 ≤ n)
    (items : List ListItem) : memoryLimit limit [items] = atMost limit items := by
  unfold memoryLimit atMost
  cases hl : limit with
  | none => simp
  | some n =>
    have hn : 1 ≤ n := hlimit n hl
    simp [hn]

section

variable {p : ListPayload} {thread ns : String}

/-- The in-memory store lists the page of a named thread and namespace. -/
theorem memoryList_named (h : History) (ht : p.thread = some thread)
    (hns : p.checkpointNs = some ns) (hlimit : ∀ n ∈ p.limit, 1 ≤ n) :
    h.memoryList p =
      .items (atMost p.limit (h.page (cutId p.beforeCheckpointId) (thread, ns))) := by
  rw [← memoryLimit_singleton hlimit]
  simp only [memoryList, ht, hns]
  rfl

/-- So does the SQLite store. -/
theorem sqliteItems_named (h : History) (ht : p.thread = some thread)
    (hns : p.checkpointNs = some ns) (hlimit : ∀ n ∈ p.limit, 1 ≤ n) (before : Option String) :
    h.sqliteItems p before = atMost p.limit (h.page before (thread, ns)) := by
  have hpage : (((Keyed.before Checkpoint.key (SqliteCheckpointStore.beforeKey p before)
        h.checkpoints).filter (inScope p)).map Checkpoint.item).reverse =
      h.page before (thread, ns) := by
    rw [page, older, List.map_reverse, filter_inScope ht hns]
    cases before with
    | none => rfl
    | some b =>
      have hkey : SqliteCheckpointStore.beforeKey p (some b) = some (thread, ns, b) := by
        simp [SqliteCheckpointStore.beforeKey, ht, hns, normNs]
      rw [hkey, Keyed.filter_before (p := fun c : Checkpoint => decide (c.space = (thread, ns)))]
      · rw [← before_rowsAt]
        rfl
      · intro c hc
        simp only [Checkpoint.key, Prod.mk.injEq] at hc
        simp [Checkpoint.space, hc]
  rw [sqliteItems, hpage]
  unfold SqliteCheckpointStore.sqlLimit atMost
  cases hl : p.limit with
  | none => rfl
  | some n =>
    have hn : 1 ≤ n := hlimit n hl
    exact if_neg (not_lt.2 (zero_le_one.trans hn))

end

/-- A positive limit can be bound if it is below `2 ^ 63`. -/
theorem all_fitsInt64_iff {limit : Option ℤ} (hlimit : ∀ n ∈ limit, 0 ≤ n) :
    limit.all Sqlite.fitsInt64 = true ↔ ∀ n ∈ limit, n < 2 ^ 63 := by
  cases limit with
  | none => simp
  | some n =>
    have hn : 0 ≤ n := hlimit n rfl
    simp only [Option.all_some, Sqlite.fitsInt64, Bool.and_eq_true, decide_eq_true_eq,
      Option.mem_def, Option.some.injEq, forall_eq']
    omega

/-- A string is compared as itself. -/
theorem cutId_eq_none {db : Sqlite} {p : ListPayload} {before : Option String}
    (hb : SqliteCheckpointStore.beforeText db p = some before)
    (hne : before ≠ cutId p.beforeCheckpointId) : cutId p.beforeCheckpointId = none := by
  unfold SqliteCheckpointStore.beforeText at hb
  cases hv : p.beforeCheckpointId with
  | str s =>
    rw [hv] at hb hne
    refine absurd ?_ hne
    by_cases hs : s = ""
    · subst hs
      have htruthy : truthyId (some "") = none := by simp [truthyId, Option.filter_some]
      rw [if_neg (by simp [Json.truthy])] at hb
      exact (Option.some.inj hb).symm.trans htruthy.symm
    · have htruthy : truthyId (some s) = some s := by simp [truthyId, Option.filter_some, hs]
      rw [if_pos (by simp [Json.truthy, hs])] at hb
      exact (Option.some.inj hb).symm.trans htruthy.symm
  | null | bool b | int n | float x | arr xs | obj ms => rfl

/-- A string, or null, is compared as itself. -/
theorem cutId_ofString? (before : Option String) :
    cutId (Json.ofString? before) = truthyId before := by
  rw [cutId, Json.string?_ofString?]

theorem beforeText_ofString? (db : Sqlite) (thread ns : Option String) (before : Option String)
    (limit : Option ℤ) :
    SqliteCheckpointStore.beforeText db ⟨thread, ns, Json.ofString? before, limit⟩ =
      some (truthyId before) := by
  unfold SqliteCheckpointStore.beforeText
  cases before with
  | none => rfl
  | some s =>
    by_cases hs : s = ""
    · subst hs
      rfl
    · rw [if_pos (by simp [Json.ofString?, Json.truthy, hs])]
      simp [truthyId, Option.filter_some, hs, Json.ofString?, Sqlite.textParam]

/-- Two ids cut alike if neither is there. -/
theorem older_of_forall_ne {h : History} {k : String × String} {before : Option String}
    (hb : ∀ c ∈ h.rowsAt k, some c.cid ≠ before) : h.older before k = h.older none k := by
  cases before with
  | none => rfl
  | some b => rw [older, older, Keyed.before_of_forall_ne fun c hc he => hb c hc (congrArg some he),
      Keyed.before]

/-- A cut at an id that is there leaves out the newest checkpoint. -/
theorem newest_not_mem_older {h : History} {k : String × String} {d : Checkpoint}
    (hd : d ∈ h.rowsAt k) : ∃ c, (h.older none k).head? = some c ∧
      ∀ c' ∈ h.older (some d.cid) k, c'.cid ≠ c.cid := by
  obtain ⟨l, l', hrows⟩ := List.append_of_mem hd
  have hdistinct : Keyed.Distinct Checkpoint.cid (l ++ d :: l') := hrows ▸ h.nodup_cids k
  have holder : h.older (some d.cid) k = l.reverse := by
    rw [older, hrows, Keyed.before_append_cons hdistinct]
  have hlast : (d :: l').getLast? = some ((d :: l').getLast (List.cons_ne_nil d l')) :=
    List.getLast?_eq_some_getLast _
  refine ⟨(d :: l').getLast (List.cons_ne_nil d l'), ?_, ?_⟩
  · rw [older, Keyed.before, List.head?_reverse, hrows, List.getLast?_append, hlast, Option.some_or]
  · intro c' hc' hcid
    rw [holder, List.mem_reverse] at hc'
    rw [Keyed.Distinct, List.map_append] at hdistinct
    exact (List.nodup_append.1 hdistinct).2.2 _ (List.mem_map_of_mem hc') _
      (List.mem_map_of_mem (List.getLast_mem (List.cons_ne_nil d l'))) hcid

/-! ### Two histories side by side -/

variable {db : Sqlite} {h h' : History}

theorem bound_empty (db : Sqlite) : Bound db empty empty :=
  ⟨List.forall_mem_nil _, rfl, rfl⟩

theorem Bound.rowsAt (hb : Bound db h h') (k : String × String) :
    h'.rowsAt k = (h.rowsAt k).map (Checkpoint.bound db) := by
  rw [History.rowsAt, hb.checkpoints, List.filter_map, History.rowsAt]
  congr 2
  funext c
  rw [Function.comp_apply, c.space_bound db]

theorem Bound.select (hb : Bound db h h') (p : GetPayload) :
    h'.select p = (h.select p).map (Checkpoint.bound db) := by
  unfold History.select
  rw [hb.rowsAt]
  cases p.checkpointId with
  | none => exact List.getLast?_map
  | some cid =>
    have hcid : (fun c : Checkpoint => decide (c.cid = cid)) ∘ Checkpoint.bound db =
        fun c => decide (c.cid = cid) := by
      funext c
      rw [Function.comp_apply, c.cid_bound db]
    simp only [List.find?_map, hcid]

theorem Bound.older (hb : Bound db h h') (before : Option String) (k : String × String) :
    h'.older before k = (h.older before k).map (Checkpoint.bound db) := by
  rw [History.older, hb.rowsAt, ← Keyed.map_before Checkpoint.cid Checkpoint.cid
    (Checkpoint.bound db) (fun c => c.cid_bound db), ← List.map_reverse, History.older]

theorem bindable_of_mem_older (hb : Bound db h h') {before : Option String} {k : String × String}
    {c : Checkpoint} (hc : c ∈ h.older before k) : ((Backend.sqlite db).stored? c).isSome :=
  hb.bindable c (List.mem_filter.1 (Keyed.mem_of_mem_before (List.mem_reverse.1 hc))).1

/-- Both stores find the same tuple if its parent is null or a string. -/
theorem Bound.getTuple_eq_iff (hb : Bound db h h') (p : GetPayload) :
    h.getTuple p = h'.getTuple p ↔ ∀ c ∈ h.select p, c.parentCid.IsText := by
  rw [History.getTuple, History.getTuple, hb.select]
  cases hc : h.select p with
  | none => simp
  | some c =>
    have hmem := (List.mem_filter.1 (mem_of_select hc)).1
    have htuple : h'.tuple (c.bound db) =
        { h.tuple c with parentCheckpointId := (c.bound db).parentCid } := by
      rw [History.tuple, writesAt, hb.writes, c.key_bound db, c.bound_eq db]
      rfl
    simp only [Option.map_some, htuple, StoreReply.found.injEq, Option.mem_def, Option.some.injEq,
      forall_eq', ← Checkpoint.parentCid_bound_iff (hb.bindable c hmem)]
    constructor
    · intro he
      exact (congrArg TupleReply.parentCheckpointId he).symm
    · intro he
      rw [he]
      rfl

/-- The same checkpoints are listed alike if their parents are null or strings. -/
theorem Bound.items_eq_iff (hb : Bound db h h') (limit : Option ℤ) (before : Option String)
    (k : String × String) : atMost limit (h.page before k) = atMost limit (h'.page before k) ↔
      ∀ c ∈ atMost limit (h.older before k), c.parentCid.IsText := by
  rw [page, page, hb.older, List.map_map, ← map_atMost, ← map_atMost, List.map_inj_left]
  refine forall₂_congr fun c hc => ?_
  rw [← Checkpoint.parentCid_bound_iff (bindable_of_mem_older hb (mem_of_mem_atMost hc)),
    Function.comp_apply, Checkpoint.item_injective.eq_iff]
  constructor
  · intro he
    rw [← he]
  · intro he
    rw [c.bound_eq db, he]

/-- Both stores list the same of a named thread and namespace if SQLite can do what the request
asks. -/
theorem Bound.list_eq_iff (hb : Bound db h h') {p : ListPayload}
    (hp : (StoreRequest.list p).Addressed) :
    some (h.memoryList p) = h'.sqliteList db p ↔ (StoreRequest.list p).Alike db h := by
  obtain ⟨ht, hns, hlimit⟩ := hp
  obtain ⟨thread, ht⟩ := Option.isSome_iff_exists.1 ht
  obtain ⟨ns, hns⟩ := Option.isSome_iff_exists.1 hns
  have hkey : ∀ (c : Checkpoint) (before : Option String),
      some c.key = SqliteCheckpointStore.beforeKey p before ↔
        c.space = (thread, ns) ∧ some c.cid = before := by
    intro c before
    cases before <;>
      simp [SqliteCheckpointStore.beforeKey, ht, hns, normNs, Checkpoint.key, Checkpoint.space,
        and_assoc]
  simp only [StoreRequest.Alike, ht, hns, normNs, Option.getD_some, Option.mem_def,
    Option.some.injEq, forall_eq']
  rw [memoryList_named h ht hns hlimit, sqliteList]
  have hfits := all_fitsInt64_iff fun n hn => zero_le_one.trans (hlimit n hn)
  simp only [Option.mem_def] at hfits
  rw [← hfits]
  cases hbefore : SqliteCheckpointStore.beforeText db p with
  | none => simp
  | some before =>
    rw [Option.bind_some]
    split_ifs with hall
    · rw [sqliteItems_named h' ht hns hlimit]
      simp only [hall, true_and, Option.some.injEq, StoreReply.items.injEq, exists_eq_left']
      rcases eq_or_ne before (cutId p.beforeCheckpointId) with rfl | hne
      · rw [hb.items_eq_iff, and_iff_right (.inl rfl)]
      · have hcut := cutId_eq_none hbefore hne
        rw [or_iff_right hne, hcut]
        by_cases hnone : ∀ c ∈ h.rowsAt (thread, ns), some c.cid ≠ before
        · have hpage : h'.page before (thread, ns) = h'.page none (thread, ns) := by
            rw [page, page, hb.older, hb.older, older_of_forall_ne hnone]
          rw [hpage, hb.items_eq_iff, and_iff_right]
          intro c hc hcid
          obtain ⟨hspace, hcid⟩ := (hkey c before).1 hcid
          exact hnone c (List.mem_filter.2 ⟨hc, decide_eq_true hspace⟩) hcid
        · -- The in-memory store lists the newest checkpoint, the query does not select it.
          push Not at hnone
          obtain ⟨d, hd, rfl⟩ := hnone
          refine iff_of_false (fun he => ?_) fun hand => ?_
          · obtain ⟨c, hhead, hnot⟩ := newest_not_mem_older hd
            have hheads := congrArg List.head? he
            rw [head?_atMost hlimit, head?_atMost hlimit, page, page, hb.older, List.map_map,
              List.head?_map, List.head?_map, hhead] at hheads
            obtain ⟨c', hc', hitem⟩ := Option.map_eq_some_iff.1 hheads.symm
            refine hnot c' (List.mem_of_mem_head? hc') ?_
            rw [Function.comp_apply] at hitem
            rw [← Checkpoint.item_injective hitem, c'.cid_bound db]
          · have hmem := List.mem_filter.1 hd
            exact hand.1 d hmem.1 ((hkey d _).2 ⟨of_decide_eq_true hmem.2, rfl⟩)
    · simp [hall]

/-- What the step does to the two histories. -/
theorem Bound.step (hb : Bound db h h') {r : StoreRequest} (hr : r.Alike db h) :
    Bound db (h.step .memory r) (h'.step (.sqlite db) r) := by
  cases r with
  | put p =>
    obtain ⟨parent, hparent⟩ := hr
    have hstored : (Backend.sqlite db).stored? p.checkpoint =
        some { p.checkpoint with parentCid := Json.ofString? parent } :=
      congrArg (Option.map _) hparent
    have hbound : { p.checkpoint with parentCid := Json.ofString? parent } =
        p.checkpoint.bound db := by
      rw [Checkpoint.bound, hstored, Option.getD_some]
    rw [History.step, History.step, hstored, hbound]
    refine ⟨fun c hc => ?_, ?_, hb.writes⟩
    · rcases Keyed.mem_replace.1 hc with ⟨hc, -⟩ | rfl
      · exact hb.bindable c hc
      · exact Option.isSome_of_mem hstored
    · refine (congrArg (Keyed.replace Checkpoint.key _) hb.checkpoints).trans ?_
      exact (Keyed.map_replace Checkpoint.key Checkpoint.key (Checkpoint.bound db)
        (fun c => c.key_bound db) p.checkpoint h.checkpoints).symm
  | putWrites p =>
    refine ⟨hb.bindable, hb.checkpoints, ?_⟩
    exact congrArg (Keyed.insertNew Write.key p.write) hb.writes
  | getTuple p => exact hb
  | list p => exact hb

/-- The stores give the same reply if SQLite can do what the request asks. -/
theorem Bound.reply_eq_iff (hb : Bound db h h') {r : StoreRequest} (hr : r.Addressed) :
    h.reply .memory r = h'.reply (.sqlite db) r ↔ r.Alike db h := by
  cases r with
  | put p =>
    have hstored : h'.reply (.sqlite db) (.put p) =
        (db.textParam p.parentCheckpointId).map fun _ => .ok :=
      Option.map_map _ _ _
    rw [hstored, StoreRequest.Alike]
    cases db.textParam p.parentCheckpointId with
    | none => simp [History.reply, Backend.stored?]
    | some parent => exact iff_of_true rfl ⟨parent, rfl⟩
  | putWrites p => exact iff_of_true rfl trivial
  | getTuple p =>
    rw [History.reply, History.reply, Option.some.injEq]
    exact hb.getTuple_eq_iff p
  | list p => exact hb.list_eq_iff hr

/-- They give the same replies to a sequence of requests if it can do so all along. -/
theorem Bound.replies_eq_iff : ∀ (rs : List StoreRequest) {h h' : History}, Bound db h h' →
    (∀ r ∈ rs, r.Addressed) →
    (h.replies .memory rs = h'.replies (.sqlite db) rs ↔ h.AllAlike db rs)
  | [], _, _, _, _ => iff_of_true rfl trivial
  | r :: rs, h, h', hb, hrs => by
    rw [List.forall_mem_cons] at hrs
    rw [replies, replies, List.cons.injEq, hb.reply_eq_iff hrs.1, AllAlike]
    exact and_congr_right fun hr => (hb.step hr).replies_eq_iff rs hrs.2

end History

namespace Backend

theorem replies_memory_eq_iff (db : Sqlite) {rs : List StoreRequest}
    (hrs : ∀ r ∈ rs, r.Addressed) : memory.replies memory.init rs =
      (sqlite db).replies (sqlite db).init rs ↔ History.empty.AllAlike db rs := by
  rw [replies_eq .memory rs (init_refines .memory),
    replies_eq (.sqlite db) rs (init_refines (.sqlite db)),
    (History.bound_empty db).replies_eq_iff rs hrs]

end Backend

theorem makeStore_cases (db : Sqlite) (path : String) :
    makeStore db path = .memory ∨ makeStore db path = .sqlite db := by
  unfold makeStore
  split_ifs
  · exact .inl rfl
  · exact .inr rfl

/-- As far as that goes, a client cannot tell whether a worker was started with a database. -/
theorem makeStore_replies (db : Sqlite) (path path' : String) (rs : List StoreRequest)
    (hrs : ∀ r ∈ rs, r.Addressed) (halike : History.empty.AllAlike db rs) :
    (makeStore db path).replies (makeStore db path).init rs =
      (makeStore db path').replies (makeStore db path').init rs := by
  have hsame := (Backend.replies_memory_eq_iff db hrs).2 halike
  have hmemory : ∀ path, (makeStore db path).replies (makeStore db path).init rs =
      Backend.memory.replies Backend.memory.init rs := by
    intro path
    rcases makeStore_cases db path with hstore | hstore
    · rw [hstore]
    · rw [hstore, hsame]
  rw [hmemory, hmemory]

/-- On requests that name a thread and a namespace, the two stores give the same replies if and
only if SQLite can do what each request asks : bind its parent, its limit and its `before`, and
give back the parents that are read as they were put. -/
theorem stores_interchangeable_iff (db : Sqlite) (rs : List StoreRequest)
    (hrs : ∀ r ∈ rs, r.Addressed) :
    Backend.memory.replies Backend.memory.init rs =
        (Backend.sqlite db).replies (Backend.sqlite db).init rs ↔
      History.empty.AllAlike db rs :=
  Backend.replies_memory_eq_iff db hrs

theorem stores_interchangeable_reput :
    Backend.memory.replies Backend.memory.init
        [.put ⟨"t", some "", "1", .null, ⟨.str "a", trivial⟩, ⟨.null, trivial⟩, none⟩,
          .putWrites ⟨"t", some "", "1", "task", some "", ⟨.str "w", trivial⟩⟩,
          .put ⟨"t", some "", "2", .str "1", ⟨.str "b", trivial⟩, ⟨.null, trivial⟩, none⟩,
          .put ⟨"t", some "", "1", .null, ⟨.str "c", trivial⟩, ⟨.null, trivial⟩, none⟩,
          .getTuple ⟨"t", some "", none⟩, .list ⟨some "t", some "", .str "1", some 1⟩] =
      (Backend.sqlite .consecutive).replies (Backend.sqlite .consecutive).init
        [.put ⟨"t", some "", "1", .null, ⟨.str "a", trivial⟩, ⟨.null, trivial⟩, none⟩,
          .putWrites ⟨"t", some "", "1", "task", some "", ⟨.str "w", trivial⟩⟩,
          .put ⟨"t", some "", "2", .str "1", ⟨.str "b", trivial⟩, ⟨.null, trivial⟩, none⟩,
          .put ⟨"t", some "", "1", .null, ⟨.str "c", trivial⟩, ⟨.null, trivial⟩, none⟩,
          .getTuple ⟨"t", some "", none⟩, .list ⟨some "t", some "", .str "1", some 1⟩] := by
  refine (stores_interchangeable_iff .consecutive _ (by simp [StoreRequest.Addressed])).2 ?_
  refine ⟨⟨none, rfl⟩, trivial, ⟨some "1", rfl⟩, ⟨none, rfl⟩, ?_, ⟨?_, ?_, ?_⟩, trivial⟩
  · change ∀ c ∈ History.select _ ⟨"t", some "", none⟩, c.parentCid.IsText
    decide
  · decide
  · exact ⟨some "1", rfl, .inl rfl⟩
  · decide

/-- The in-memory store takes any limit, SQLite binds one of 64 bits. -/
theorem limit_not_bound :
    ¬∀ (db : Sqlite) (rs : List StoreRequest), (∀ r ∈ rs, r.Addressed) →
      Backend.memory.replies Backend.memory.init rs =
        (Backend.sqlite db).replies (Backend.sqlite db).init rs := by
  intro h
  have h := h .consecutive [.list ⟨some "t", some "", .null, some (2 ^ 63)⟩]
    (by simp [StoreRequest.Addressed])
  revert h
  decide

/-! ## Writes -/

/-- The writes a request hands over. -/
def StoreRequest.write? : StoreRequest → Option Write
  | .putWrites p => some p.write
  | _ => none

/-- The writes of the first request with the key of `p`, or else its own. -/
def firstWrites (rs : List StoreRequest) (p : WritesPayload) : Json.Value :=
  (((rs.filterMap StoreRequest.write?).find? fun w => w.key = p.write.key).map Write.value).getD
    p.writesB64

namespace History

theorem run_append (b : Backend) (h : History) (rs rs' : List StoreRequest) :
    h.run b (rs ++ rs') = (h.run b rs).run b rs' :=
  List.foldl_append

/-- A put, or one that is refused, leaves the writes alone. -/
theorem writes_step_put (b : Backend) (h : History) (p : PutPayload) :
    (h.step b (.put p)).writes = h.writes := by
  rw [step]
  cases b.stored? p.checkpoint with
  | none => rfl
  | some c => rfl

theorem find?_writes_step (b : Backend) (h : History) (r : StoreRequest)
    (k : String × String × String × String × String) :
    ((h.step b r).writes.find? fun w => w.key = k) =
      (h.writes.find? fun w => w.key = k).or (r.write?.filter fun w => w.key = k) := by
  cases r with
  | putWrites p =>
    refine (Keyed.find?_insertNew k p.write h.writes).trans ?_
    simp only [StoreRequest.write?, Option.filter_some, decide_eq_true_eq]
  | put p =>
    rw [writes_step_put]
    exact (Option.or_none).symm
  | getTuple p => exact (Option.or_none).symm
  | list p => exact (Option.or_none).symm

/-- Under a key a run keeps what was there, or else what the first request brings. -/
theorem find?_writes_run (b : Backend) (k : String × String × String × String × String) :
    ∀ (rs : List StoreRequest) (h : History), ((h.run b rs).writes.find? fun w => w.key = k) =
      (h.writes.find? fun w => w.key = k).or
        ((rs.filterMap StoreRequest.write?).find? fun w => w.key = k)
  | [], _ => by simp [run]
  | r :: rs, h => by
    refine (find?_writes_run b k rs (h.step b r)).trans ?_
    rw [find?_writes_step, Option.or_assoc]
    congr 1
    cases hw : r.write? with
    | none => simp [List.filterMap_cons_none hw]
    | some w =>
      rw [List.filterMap_cons_some hw, List.find?_cons, Option.filter_some]
      by_cases hk : w.key = k
      · simp only [hk, decide_true, if_true, Option.some_or]
      · simp only [hk, decide_false, Bool.false_eq_true, if_false, Option.none_or]

/-- After a `put_writes`, its key holds the writes that came first under it. -/
theorem exists_write (b : Backend) (rs rs' : List StoreRequest) (p : WritesPayload) :
    ∃ w ∈ (empty.run b (rs ++ .putWrites p :: rs')).writes,
      w.key = p.write.key ∧ w.value = firstWrites rs p := by
  have hfind := find?_writes_run b p.write.key (rs ++ .putWrites p :: rs') empty
  rw [List.filterMap_append, List.find?_append,
    List.filterMap_cons_some (f := StoreRequest.write?) (b := p.write) rfl,
    List.find?_cons_of_pos (by simp)] at hfind
  unfold firstWrites
  cases hrs : (rs.filterMap StoreRequest.write?).find? fun w => w.key = p.write.key with
  | none =>
    rw [hrs] at hfind
    exact ⟨p.write, List.mem_of_find?_eq_some hfind, rfl, rfl⟩
  | some w =>
    rw [hrs] at hfind
    exact ⟨w, List.mem_of_find?_eq_some hfind, by simpa using List.find?_some hrs, rfl⟩

end History

/-- Without earlier writes of other content, the first writes are the request's own. -/
theorem firstWrites_eq_self {rs : List StoreRequest} {p : WritesPayload}
    (h : ∀ q, StoreRequest.putWrites q ∈ rs → q.write.key = p.write.key →
      q.writesB64 = p.writesB64) : firstWrites rs p = p.writesB64 := by
  unfold firstWrites
  cases hrs : (rs.filterMap StoreRequest.write?).find? fun w => w.key = p.write.key with
  | none => rfl
  | some w =>
    obtain ⟨r, hr, hw⟩ := List.mem_filterMap.1 (List.mem_of_find?_eq_some hrs)
    have hkey : w.key = p.write.key := by simpa using List.find?_some hrs
    cases r with
    | putWrites q =>
      obtain rfl : q.write = w := Option.some.inj hw
      exact h q hr hkey
    | put q => cases hw
    | getTuple q => cases hw
    | list q => cases hw

/-- The tuple a store finds is the one of its history. -/
theorem found_of_getTuple (b : Backend) (rs : List StoreRequest) {g : GetPayload} {t : TupleReply}
    (ht : (b.handle (b.run b.init rs) (.getTuple g)).2 = some (.found t)) :
    ∃ c, (History.empty.run b rs).select g = some c ∧ t = (History.empty.run b rs).tuple c := by
  rw [(b.handle_refines (b.run_refines rs b.init_refines) _).2] at ht
  have ht := Option.some.inj ht
  simp only [History.getTuple] at ht
  cases hc : (History.empty.run b rs).select g with
  | none =>
    rw [hc] at ht
    cases ht
  | some c =>
    rw [hc] at ht
    cases ht
    exact ⟨c, rfl, rfl⟩

/-- Requests with copies of `put_writes` requests among them, each some time after a
request it is a copy of. `seen` are the requests before. -/
inductive WithCopies : List StoreRequest → List StoreRequest → List StoreRequest → Prop
  | nil (seen) : WithCopies seen [] []
  | step {seen rs rs'} (r : StoreRequest) (h : WithCopies (seen ++ [r]) rs rs') :
    WithCopies seen (r :: rs) (r :: rs')
  | copy {seen rs rs'} (p : WritesPayload) (hp : .putWrites p ∈ seen)
    (h : WithCopies seen rs rs') : WithCopies seen rs (.putWrites p :: rs')

/-- A `get_tuple` or a `list`. -/
def StoreRequest.isRead : StoreRequest → Bool
  | .getTuple _ => true
  | .list _ => true
  | _ => false

/-- The replies to the reads among the requests, in order. -/
def Backend.readReplies (b : Backend) : b.State → List StoreRequest → List (Option StoreReply)
  | _, [] => []
  | s, r :: rs =>
    if r.isRead then (b.handle s r).2 :: b.readReplies (b.handle s r).1 rs
    else b.readReplies (b.handle s r).1 rs

/-- The history has writes under the keys of all `put_writes` among the requests. -/
def History.Holds (h : History) (seen : List StoreRequest) : Prop :=
  ∀ p, StoreRequest.putWrites p ∈ seen → ∃ w ∈ h.writes, w.key = p.write.key

namespace History

theorem Holds.step (b : Backend) {h : History} {seen : List StoreRequest} (hh : h.Holds seen)
    (r : StoreRequest) : (h.step b r).Holds (seen ++ [r]) := by
  intro p hp
  rcases List.mem_append.1 hp with hp | hp
  · obtain ⟨w, hw, hk⟩ := hh p hp
    cases r with
    | putWrites q => exact ⟨w, Keyed.mem_insertNew_of_mem hw, hk⟩
    | put q => exact ⟨w, (writes_step_put b h q).symm ▸ hw, hk⟩
    | getTuple q => exact ⟨w, hw, hk⟩
    | list q => exact ⟨w, hw, hk⟩
  · obtain rfl := List.mem_singleton.1 hp
    exact Keyed.exists_mem_insertNew p.write h.writes

/-- A repeated `put_writes` changes nothing. -/
theorem putWrites_of_mem {h : History} {w v : Write} (hv : v ∈ h.writes) (hk : v.key = w.key) :
    h.putWrites w = h := by
  cases h
  simp only [putWrites, History.mk.injEq, true_and, and_true]
  exact Keyed.insertNew_of_mem hv hk

end History

theorem readReplies_withCopies (b : Backend) {seen rs rs' : List StoreRequest}
    (h : WithCopies seen rs rs') : ∀ {s s' : b.State} {hist : History}, b.Refines s hist →
      b.Refines s' hist → hist.Holds seen → b.readReplies s rs = b.readReplies s' rs' := by
  induction h with
  | nil seen => exact fun _ _ _ => rfl
  | step r _ ih =>
    intro s s' hist hs hs' hseen
    obtain ⟨hs₁, hreply⟩ := b.handle_refines hs r
    obtain ⟨hs₁', hreply'⟩ := b.handle_refines hs' r
    rw [Backend.readReplies, Backend.readReplies, hreply, hreply', ih hs₁ hs₁' (hseen.step b r)]
  | copy p hp _ ih =>
    intro s s' hist hs hs' hseen
    obtain ⟨w, hw, hk⟩ := hseen p hp
    have hs₁' := (b.handle_refines hs' (.putWrites p)).1
    rw [History.step, History.putWrites_of_mem hw hk] at hs₁'
    rw [Backend.readReplies, if_neg (by simp [StoreRequest.isRead])]
    exact ih hs hs₁' hseen

/-- Copies of `put_writes` requests, at any points after their first execution, change no
reply to a read. -/
theorem putWrites_copies (b : Backend) (rs rs' : List StoreRequest) (h : WithCopies [] rs rs') :
    b.readReplies b.init rs = b.readReplies b.init rs' :=
  readReplies_withCopies b h b.init_refines b.init_refines fun _ hp => by cases hp

theorem putWrites_copies_delayed :
    Backend.memory.readReplies Backend.memory.init
        [.put ⟨"t", none, "1", .null, ⟨.null, trivial⟩, ⟨.null, trivial⟩, none⟩,
          .putWrites ⟨"t", none, "1", "a", none, ⟨.null, trivial⟩⟩,
          .putWrites ⟨"t", none, "1", "b", none, ⟨.null, trivial⟩⟩, .getTuple ⟨"t", none, none⟩] =
      Backend.memory.readReplies Backend.memory.init
        [.put ⟨"t", none, "1", .null, ⟨.null, trivial⟩, ⟨.null, trivial⟩, none⟩,
          .putWrites ⟨"t", none, "1", "a", none, ⟨.null, trivial⟩⟩,
          .putWrites ⟨"t", none, "1", "b", none, ⟨.null, trivial⟩⟩,
          .putWrites ⟨"t", none, "1", "a", none, ⟨.null, trivial⟩⟩, .getTuple ⟨"t", none, none⟩] :=
  putWrites_copies .memory _ _ (.step _ (.step _ (.step _ (.copy _ (by simp) (.step _ (.nil _))))))

/-! ## Repeated puts -/

/-- The checkpoint a request puts. -/
def StoreRequest.put? : StoreRequest → Option Checkpoint
  | .put p => some p.checkpoint
  | _ => none

/-- The checkpoint that a store keeps of a request. -/
def Backend.put? (b : Backend) (r : StoreRequest) : Option Checkpoint :=
  r.put?.bind b.stored?

/-- The checkpoint of the latest put among those that `sel` selects. -/
def lastPut (b : Backend) (sel : Checkpoint → Bool) (rs : List StoreRequest) : Option Checkpoint :=
  ((rs.filterMap b.put?).filter sel).getLast?

/-- The checkpoints a reader sees in one order with those of a thread and namespace :
these themselves, or all that are in the database. -/
def Backend.orderedWith (b : Backend) (k : String × String) (c : Checkpoint) : Bool :=
  match b with
  | .memory => c.space = k
  | .sqlite _ => true

theorem Backend.orderedWith_sqlite (db : Sqlite) (k : String × String) :
    Backend.orderedWith (.sqlite db) k = fun _ => true :=
  rfl

theorem Backend.orderedWith_eq_of_key_eq (b : Backend) (k : String × String) {c d : Checkpoint}
    (h : c.key = d.key) : b.orderedWith k c = b.orderedWith k d := by
  cases b with
  | memory => simp [Backend.orderedWith, Checkpoint.space_eq_of_key_eq h]
  | sqlite db => rfl

theorem Backend.orderedWith_of_space_eq (b : Backend) {k : String × String} {c : Checkpoint}
    (h : c.space = k) : b.orderedWith k c = true := by
  cases b with
  | memory => exact decide_eq_true h
  | sqlite db => rfl

namespace History

variable {sel : Checkpoint → Bool}

theorem getLast?_step (b : Backend) (hsel : ∀ {c d : Checkpoint}, c.key = d.key → sel c = sel d)
    (h : History) (r : StoreRequest) : ((h.step b r).checkpoints.filter sel).getLast? =
      ((b.put? r).filter sel).or (h.checkpoints.filter sel).getLast? := by
  cases r with
  | put p =>
    rw [step, Backend.put?, StoreRequest.put?, Option.bind_some]
    cases b.stored? p.checkpoint with
    | none => exact Option.none_or.symm
    | some c =>
      refine (congrArg List.getLast? (Keyed.filter_replace sel c h.checkpoints
        fun _ _ hk => hsel hk)).trans ?_
      rw [Option.filter_some]
      split_ifs
      · rw [Keyed.getLast?_replace, Option.some_or]
      · rw [Option.none_or]
  | putWrites p => exact Option.none_or.symm
  | getTuple p => exact Option.none_or.symm
  | list p => exact Option.none_or.symm

/-- The newest of the selected checkpoints is the one put last. -/
theorem getLast?_run (b : Backend) (sel : Checkpoint → Bool)
    (hsel : ∀ {c d : Checkpoint}, c.key = d.key → sel c = sel d) :
    ∀ (rs : List StoreRequest) (h : History), ((h.run b rs).checkpoints.filter sel).getLast? =
      (lastPut b sel rs).or (h.checkpoints.filter sel).getLast?
  | [], _ => rfl
  | r :: rs, h => by
    refine (getLast?_run b sel hsel rs (h.step b r)).trans ?_
    rw [getLast?_step b hsel, ← Option.or_assoc]
    congr 1
    unfold lastPut
    cases hc : b.put? r with
    | none => simp [List.filterMap_cons_none hc]
    | some c =>
      rw [List.filterMap_cons_some hc, List.filter_cons, Option.filter_some]
      split_ifs
      · rw [List.getLast?_cons]
        cases (List.filter sel (List.filterMap b.put? rs)).getLast? <;> rfl
      · rw [Option.or_none]

theorem getLast?_run_empty (b : Backend) (sel : Checkpoint → Bool)
    (hsel : ∀ {c d : Checkpoint}, c.key = d.key → sel c = sel d) (rs : List StoreRequest) :
    ((empty.run b rs).checkpoints.filter sel).getLast? = lastPut b sel rs :=
  (getLast?_run b sel hsel rs empty).trans Option.or_none

/-- Without an id the checkpoint put last is found, -/
theorem select_none (b : Backend) (rs : List StoreRequest) (thread ns : String) :
    (empty.run b rs).select ⟨thread, some ns, none⟩ =
      lastPut b (fun c => c.space = (thread, ns)) rs :=
  getLast?_run_empty b _ (fun hk => by simp [Checkpoint.space_eq_of_key_eq hk]) rs

/-- and with an id the one put last under it. -/
theorem select_some (b : Backend) (rs : List StoreRequest) (thread ns cid : String) :
    (empty.run b rs).select ⟨thread, some ns, some cid⟩ =
      lastPut b (fun c => c.key = (thread, ns, cid)) rs := by
  rw [← getLast?_run_empty b _ (fun hk => by simp [hk]) rs,
    Keyed.getLast?_filter_key _ (empty.run b rs).distinct]
  refine List.find?_filter.trans (congrArg (fun f => (empty.run b rs).checkpoints.find? f) ?_)
  funext c
  rw [Bool.eq_iff_iff]
  simp [Checkpoint.space, Checkpoint.key, normNs, and_assoc]

/-- Histories a reader cannot tell apart. -/
structure Agree (b : Backend) (h h' : History) : Prop where
  writes : h.writes = h'.writes
  spaces : h.spaces = h'.spaces
  checkpoints : ∀ k,
    h.checkpoints.filter (b.orderedWith k) = h'.checkpoints.filter (b.orderedWith k)

section

variable {b : Backend} {h h' : History}

theorem rowsAt_eq_filter (b : Backend) (h : History) (k : String × String) :
    h.rowsAt k = (h.checkpoints.filter (b.orderedWith k)).filter fun c => c.space = k := by
  rw [List.filter_filter, rowsAt]
  refine List.filter_congr fun c _ => ?_
  by_cases hk : c.space = k
  · simp [hk, b.orderedWith_of_space_eq hk]
  · simp [hk]

theorem Agree.rowsAt (ha : Agree b h h') (k : String × String) : h.rowsAt k = h'.rowsAt k := by
  rw [h.rowsAt_eq_filter b, ha.checkpoints k, ← h'.rowsAt_eq_filter b]

theorem Agree.put (ha : Agree b h h') (c : Checkpoint) : Agree b (h.put c) (h'.put c) := by
  refine ⟨ha.writes, ?_, fun k => ?_⟩
  · simp only [History.put, ha.spaces]
  · simp only [History.put]
    rw [Keyed.filter_replace _ _ _ fun c _ hk => b.orderedWith_eq_of_key_eq k hk,
      Keyed.filter_replace _ _ _ fun c _ hk => b.orderedWith_eq_of_key_eq k hk, ha.checkpoints k]

theorem Agree.step (ha : Agree b h h') (r : StoreRequest) :
    Agree b (h.step b r) (h'.step b r) := by
  cases r with
  | put p =>
    rw [History.step, History.step]
    cases b.stored? p.checkpoint with
    | none => exact ha
    | some c => exact ha.put c
  | putWrites p =>
    refine ⟨?_, ha.spaces, ha.checkpoints⟩
    simp only [History.step, putWrites, ha.writes]
  | getTuple p => exact ha
  | list p => exact ha

theorem Agree.reply (ha : Agree b h h') (r : StoreRequest) : h.reply b r = h'.reply b r := by
  have hpage : ∀ before, h.page before = h'.page before := by
    intro before
    funext k
    rw [page, page, older, older, ha.rowsAt]
  cases r with
  | put p => rfl
  | putWrites p => rfl
  | getTuple p =>
    simp only [History.reply, getTuple, select, tuple, writesAt, ha.rowsAt, ha.writes]
  | list p =>
    cases b with
    | memory => simp only [History.reply, memoryList, ha.spaces, hpage]
    | sqlite db =>
      have hall : h.checkpoints = h'.checkpoints := by
        simpa [Backend.orderedWith_sqlite] using ha.checkpoints ("", "")
      simp only [History.reply, sqliteList, sqliteItems, hall]

theorem Agree.replies : ∀ (rs : List StoreRequest) {h h' : History}, Agree b h h' →
    h.replies b rs = h'.replies b rs
  | [], _, _, _ => rfl
  | r :: rs, h, h', ha => by
    rw [History.replies, History.replies, ha.reply r, Agree.replies rs (ha.step r)]

/-- A put of the newest checkpoint changes nothing for a reader. -/
theorem agree_put {c : Checkpoint}
    (hc : (h.checkpoints.filter (b.orderedWith c.space)).getLast? = some c) :
    Agree b h (h.put c) where
  writes := rfl
  spaces := by
    have hmem := (List.mem_filter.1 (List.mem_of_getLast? hc)).1
    exact (if_pos ((h.mem_spaces _).2 ⟨c, hmem, rfl⟩)).symm
  checkpoints := by
    intro k
    rw [put, Keyed.filter_replace _ _ _ fun d _ hk => b.orderedWith_eq_of_key_eq k hk]
    split_ifs with hk
    · have hsame : b.orderedWith c.space = b.orderedWith k := by
        cases b with
        | memory => rw [of_decide_eq_true hk]
        | sqlite db => rfl
      rw [hsame] at hc
      have hdistinct : Keyed.Distinct Checkpoint.key (h.checkpoints.filter (b.orderedWith k)) :=
        h.distinct.sublist (List.filter_sublist.map _)
      exact ((Keyed.replace_eq_self_iff hdistinct).2 hc).symm
    · rfl

/-- The listing that shows a reader the order. -/
def probe (b : Backend) (k : String × String) : ListPayload :=
  match b with
  | .memory => ⟨some k.1, some k.2, .null, none⟩
  | .sqlite _ => ⟨none, none, .null, none⟩

theorem reply_probe (b : Backend) (h : History) (k : String × String) :
    h.reply b (.list (probe b k)) =
      some (.items (((h.checkpoints.filter (b.orderedWith k)).map Checkpoint.item).reverse)) := by
  cases b with
  | memory =>
    simp only [reply, probe, memoryList, memoryLimit, List.map_cons, List.map_nil,
      List.flatten_singleton, page, older, List.map_reverse]
    rfl
  | sqlite db =>
    have hscope : inScope (probe (.sqlite db) k) = Backend.orderedWith (.sqlite db) k := rfl
    change some (StoreReply.items (h.sqliteItems (probe (.sqlite db) k) none)) = _
    rw [sqliteItems, hscope]
    rfl

/-- A put that changes nothing for a reader is a put of the newest checkpoint. -/
theorem getLast?_of_reply_probe {c : Checkpoint}
    (hc : h.reply b (.list (probe b c.space)) = (h.put c).reply b (.list (probe b c.space))) :
    (h.checkpoints.filter (b.orderedWith c.space)).getLast? = some c := by
  rw [reply_probe, reply_probe] at hc
  have hmap := List.reverse_injective (StoreReply.items.inj (Option.some.inj hc))
  have hfilter := List.map_injective_iff.2 Checkpoint.item_injective hmap
  rw [hfilter, put, Keyed.filter_replace _ _ _ fun d _ hk => b.orderedWith_eq_of_key_eq _ hk,
    if_pos (b.orderedWith_of_space_eq rfl), Keyed.getLast?_replace]

end

end History

/-- A put leaves every later reply unchanged if and only if the store refuses it, or the latest
put that was stored before it, on the same thread and namespace for the in-memory store and in the
whole database for SQLite, stored the same checkpoint. -/
theorem put_again_iff (b : Backend) (rs : List StoreRequest) (p : PutPayload) :
    (∀ rs', b.replies (b.run b.init (rs ++ [.put p])) rs' = b.replies (b.run b.init rs) rs') ↔
      ∀ c ∈ b.stored? p.checkpoint,
        lastPut b (b.orderedWith (p.thread, normNs p.checkpointNs)) rs = some c := by
  have hrun := History.empty.run_append b rs [.put p]
  have heq : ∀ rs', b.replies (b.run b.init (rs ++ [.put p])) rs' =
        b.replies (b.run b.init rs) rs' ↔
      (History.empty.run b rs).replies b rs' =
        ((History.empty.run b rs).step b (.put p)).replies b rs' := by
    intro rs'
    rw [b.replies_eq rs' (b.run_refines rs b.init_refines),
      b.replies_eq rs' (b.run_refines (rs ++ [StoreRequest.put p]) b.init_refines), hrun]
    exact eq_comm
  simp only [heq, History.step]
  cases hc : b.stored? p.checkpoint with
  | none => simp
  | some c =>
    have hspace : c.space = (p.thread, normNs p.checkpointNs) := b.space_stored hc
    have hlast := History.getLast?_run_empty b _
      (fun hk => b.orderedWith_eq_of_key_eq c.space hk) rs
    simp only [Option.elim_some, Option.mem_def, Option.some.injEq, forall_eq']
    rw [← hspace, ← hlast]
    constructor
    · intro h
      exact History.getLast?_of_reply_probe
        (List.head_eq_of_cons_eq (h [.list (History.probe b c.space)]))
    · intro h rs'
      exact History.Agree.replies rs' (History.agree_put h)

/-- Delivered again after a newer checkpoint, a put makes the older one the latest. -/
theorem put_again_after_newer :
    ¬∀ (b : Backend) (rs : List StoreRequest) (p : PutPayload), .put p ∈ rs →
      ∀ rs', b.replies (b.run b.init (rs ++ [.put p])) rs' = b.replies (b.run b.init rs) rs' := by
  intro h
  have h := h .memory
    [.put ⟨"t", none, "1", .null, ⟨.null, trivial⟩, ⟨.null, trivial⟩, none⟩,
      .put ⟨"t", none, "2", .str "1", ⟨.null, trivial⟩, ⟨.null, trivial⟩, none⟩]
    ⟨"t", none, "1", .null, ⟨.null, trivial⟩, ⟨.null, trivial⟩, none⟩ (by simp)
    [.getTuple ⟨"t", none, none⟩]
  revert h
  decide

end PilotLanggraph

import PilotLanggraph.CheckpointDelivery
import PilotLanggraph.Lib.Precedes

/-!
# What the two stores list

The in-memory store lists its checkpoints key by key, the SQLite store in one order of all
rows, and the two read a missing thread, a missing namespace and a limit of zero
differently; and SQLite binds what it is given, which the in-memory store takes as it is.
`lists_alike_iff` says for which stored checkpoints and which requests the two replies are
the same.
-/

namespace Keyed

variable {α κ : Type*} [DecidableEq κ] {key : α → κ} {l : List α} {c d : α}

/-- Before a row stand those that precede it. -/
theorem mem_before_some (hl : l.Nodup) {k : κ} :
    c ∈ before key (some k) l ↔ c ∈ l ∧ ∀ d ∈ l, key d = k → l.Precedes c d := by
  induction l with
  | nil => simp [before]
  | cons y l ih =>
    obtain ⟨hy, hl'⟩ := List.nodup_cons.1 hl
    by_cases hk : key y = k
    · rw [before_cons_of_eq hk]
      refine iff_of_false (by simp) ?_
      rintro ⟨-, h⟩
      exact List.not_precedes_head hl (h y (by simp) hk)
    · rw [before_cons_of_ne hk, List.mem_cons, List.mem_cons, ih hl']
      constructor
      · rintro (rfl | ⟨hc, h⟩)
        · refine ⟨Or.inl rfl, fun d hd hdk => ?_⟩
          refine List.precedes_cons.2 (Or.inr ⟨rfl, (List.mem_cons.1 hd).resolve_left ?_⟩)
          rintro rfl
          exact hk hdk
        · refine ⟨Or.inr hc, fun d hd hdk => List.precedes_cons.2 (Or.inl (h d ?_ hdk))⟩
          refine (List.mem_cons.1 hd).resolve_left ?_
          rintro rfl
          exact hk hdk
      · rintro ⟨rfl | hc, h⟩
        · exact Or.inl rfl
        · refine Or.inr ⟨hc, fun d hd hdk => ?_⟩
          refine (List.precedes_cons.1 (h d (List.mem_cons_of_mem _ hd) hdk)).resolve_right ?_
          rintro ⟨rfl, -⟩
          exact hy hc

theorem mem_before (hl : l.Nodup) {k : Option κ} :
    c ∈ before key k l ↔ c ∈ l ∧ ∀ k' ∈ k, ∀ d ∈ l, key d = k' → l.Precedes c d := by
  cases k with
  | none => simp [before]
  | some k => simp [mem_before_some hl]

theorem before_isPrefix (k : Option κ) (l : List α) : List.IsPrefix (before key k l) l := by
  cases k with
  | none => exact List.prefix_refl l
  | some k => exact List.takeWhile_prefix _

/-- A cut keeps the order. -/
theorem precedes_before (hl : l.Nodup) {k : Option κ} :
    (before key k l).Precedes d c ↔ l.Precedes d c ∧ c ∈ before key k l := by
  have hprefix : List.IsPrefix (before key k l) l := before_isPrefix k l
  obtain ⟨r, hr⟩ := hprefix
  constructor
  · intro h
    exact ⟨hr ▸ List.precedes_append.2 (Or.inl h), h.mem_right⟩
  · rintro ⟨h, hc⟩
    have hnot : c ∉ r := by
      rw [← hr] at hl
      exact fun hcr => (List.nodup_append.1 hl).2.2 c hc c hcr rfl
    rw [← hr] at h
    rcases List.precedes_append.1 h with h | h | h
    · exact h
    · exact absurd h.mem_right hnot
    · exact absurd h.2 hnot

end Keyed

namespace PilotLanggraph

open SqliteCheckpointStore (beforeKey beforeText)

namespace History

/-! ## Which checkpoints, in which order -/

/-- `d` was put after `c`. -/
def Newer (h : History) (d c : Checkpoint) : Prop :=
  h.checkpoints.Precedes c d

/-- The query of the SQLite store selects `c` : the request is about it, and it is older
than the row `before` names, if that is there. -/
def Selects (h : History) (p : ListPayload) (before : Option String) (c : Checkpoint) : Prop :=
  c ∈ h.checkpoints ∧ inScope p c = true ∧
    ∀ k ∈ beforeKey p before, ∀ d ∈ h.checkpoints, d.key = k → h.Newer d c

/-- It selects `d`, and lists it before `c`. -/
def SelectsBefore (h : History) (p : ListPayload) (before : Option String) (d c : Checkpoint) :
    Prop :=
  h.Selects p before d ∧ h.Newer d c

/-- The loops of the in-memory store reach `c` : it is stored under a key of the request,
and it is older than the checkpoint with the id `before` under that key, if that is there. -/
def Shows (h : History) (p : ListPayload) (c : Checkpoint) : Prop :=
  c ∈ h.checkpoints ∧ (∀ thread ∈ p.thread, c.space = (thread, normNs p.checkpointNs)) ∧
    ∀ b ∈ cutId p.beforeCheckpointId, ∀ d ∈ h.checkpoints, d.space = c.space → d.cid = b →
      h.Newer d c

/-- They reach `d` before `c` : it is newer under the same key, or under a key stored earlier. -/
def ShowsBefore (h : History) (p : ListPayload) (d c : Checkpoint) : Prop :=
  h.Shows p d ∧ (d.space = c.space ∧ h.Newer d c ∨ h.spaces.Precedes d.space c.space)

/-- A checkpoint with these before it is within the limit. -/
def Within (limit : Option ℤ) (others : Set Checkpoint) : Prop :=
  ∀ n ∈ limit, (others.ncard : ℤ) < n

/-- Of an in-memory store with the history `h` and a SQLite store with the history `h'`. The limit
and `before` can be bound. With a limit of zero there is nothing under the first key in memory. What
the query selects within the limit is shown in memory too, and there after nothing else than what
the query lists before it; and what is shown in memory within the limit is selected by the query. -/
def ListsAlike (db : Sqlite) (h h' : History) (p : ListPayload) : Prop :=
  (∀ n ∈ p.limit, n < 2 ^ 63) ∧ ∃ before, beforeText db p = some before ∧
    (p.limit = some 0 → ∀ c, h.Shows p c → p.thread = none ∧ h.spaces.head? ≠ some c.space) ∧
    (∀ c, h'.Selects p before c → Within p.limit {d | h'.SelectsBefore p before d c} →
      h.Shows p c ∧ ∀ d, h.ShowsBefore p d c → h'.SelectsBefore p before d c) ∧
    ∀ c, h.Shows p c → Within p.limit {d | h.ShowsBefore p d c} → h'.Selects p before c

/-- The checkpoints the query selects, newest first. -/
def selected (h : History) (p : ListPayload) (before : Option String) : List Checkpoint :=
  ((Keyed.before Checkpoint.key (beforeKey p before) h.checkpoints).filter (inScope p)).reverse

/-- The keys the in-memory store goes through. -/
def keys (h : History) (p : ListPayload) : List (String × String) :=
  match p.thread with
  | some thread => [(thread, normNs p.checkpointNs)]
  | none => h.spaces

/-- The checkpoints of one key, newest first. -/
def shownAt (h : History) (p : ListPayload) (k : String × String) : List Checkpoint :=
  h.older (cutId p.beforeCheckpointId) k

/-- The checkpoints in the order of the loops. -/
def shown (h : History) (p : ListPayload) : List Checkpoint :=
  (h.keys p).flatMap (h.shownAt p)

section

variable {h h' : History} {p : ListPayload} {before : Option String} {c d : Checkpoint}

theorem nodup_checkpoints (h : History) : h.checkpoints.Nodup :=
  h.distinct.of_map _

theorem nodup_rowsAt (h : History) (k : String × String) : (h.rowsAt k).Nodup :=
  h.nodup_checkpoints.filter _

theorem mem_selected : c ∈ h.selected p before ↔ h.Selects p before c := by
  rw [selected, List.mem_reverse, List.mem_filter, Keyed.mem_before h.nodup_checkpoints, Selects]
  exact ⟨fun ⟨⟨hc, hb⟩, hs⟩ => ⟨hc, hs, hb⟩, fun ⟨hc, hs, hb⟩ => ⟨⟨hc, hb⟩, hs⟩⟩

theorem precedes_selected : (h.selected p before).Precedes d c ↔
    h.Selects p before d ∧ h.Selects p before c ∧ h.Newer d c := by
  rw [← mem_selected, ← mem_selected]
  constructor
  · intro hdc
    refine ⟨hdc.mem_left, hdc.mem_right, ?_⟩
    rw [selected, List.precedes_reverse, List.precedes_filter,
      Keyed.precedes_before h.nodup_checkpoints] at hdc
    exact hdc.1.1
  · rintro ⟨hd, hc, hdc⟩
    rw [selected, List.mem_reverse, List.mem_filter] at hd hc
    rw [selected, List.precedes_reverse, List.precedes_filter,
      Keyed.precedes_before h.nodup_checkpoints]
    exact ⟨⟨hdc, hd.1⟩, hc.2, hd.2⟩

theorem nodup_selected : (h.selected p before).Nodup :=
  List.nodup_reverse.2
    ((h.nodup_checkpoints.sublist (Keyed.before_isPrefix _ _).sublist).filter _)

theorem precedes_rowsAt {k : String × String} :
    (h.rowsAt k).Precedes d c ↔ h.checkpoints.Precedes d c ∧ d.space = k ∧ c.space = k := by
  rw [rowsAt, List.precedes_filter, decide_eq_true_iff, decide_eq_true_iff]

theorem mem_shownAt {k : String × String} : c ∈ h.shownAt p k ↔ c ∈ h.checkpoints ∧
    c.space = k ∧ ∀ b ∈ cutId p.beforeCheckpointId, ∀ d ∈ h.checkpoints, d.space = c.space →
      d.cid = b → h.Newer d c := by
  have hmem : ∀ {e}, e ∈ h.rowsAt k ↔ e ∈ h.checkpoints ∧ e.space = k := by
    intro e
    rw [rowsAt, List.mem_filter, decide_eq_true_iff]
  rw [shownAt, older, List.mem_reverse, Keyed.mem_before (h.nodup_rowsAt k), hmem, and_assoc]
  refine and_congr_right fun hc => and_congr_right fun hk => forall₂_congr fun b _ => ?_
  constructor
  · intro hb d hd hs hcid
    exact (precedes_rowsAt.1 (hb d (hmem.2 ⟨hd, hs.trans hk⟩) hcid)).1
  · intro hb d hd hcid
    obtain ⟨hd, hs⟩ := hmem.1 hd
    exact precedes_rowsAt.2 ⟨hb d hd (hs.trans hk.symm) hcid, hk, hs⟩

theorem mem_keys_of_mem (hc : c ∈ h.checkpoints) : c.space ∈ h.keys p ↔
    ∀ thread ∈ p.thread, c.space = (thread, normNs p.checkpointNs) := by
  unfold keys
  cases p.thread with
  | none => simpa using (h.mem_spaces c.space).2 ⟨c, hc, rfl⟩
  | some thread => simp

theorem mem_shown : c ∈ h.shown p ↔ h.Shows p c := by
  rw [shown, List.mem_flatMap, Shows]
  constructor
  · rintro ⟨k, hk, hmem⟩
    obtain ⟨hc, rfl, hb⟩ := mem_shownAt.1 hmem
    exact ⟨hc, (mem_keys_of_mem hc).1 hk, hb⟩
  · rintro ⟨hc, hk, hb⟩
    exact ⟨c.space, (mem_keys_of_mem hc).2 hk, mem_shownAt.2 ⟨hc, rfl, hb⟩⟩

theorem precedes_shownAt {k : String × String} : (h.shownAt p k).Precedes d c ↔
    d ∈ h.shownAt p k ∧ c ∈ h.shownAt p k ∧ h.Newer d c := by
  constructor
  · intro hdc
    refine ⟨hdc.mem_left, hdc.mem_right, ?_⟩
    rw [shownAt, older, List.precedes_reverse, Keyed.precedes_before (h.nodup_rowsAt k)] at hdc
    exact (precedes_rowsAt.1 hdc.1).1
  · rintro ⟨hd, hc, hdc⟩
    have hs := (mem_shownAt.1 hd).2.1
    have hs' := (mem_shownAt.1 hc).2.1
    rw [shownAt, older, List.mem_reverse] at hd
    rw [shownAt, older, List.precedes_reverse, Keyed.precedes_before (h.nodup_rowsAt k)]
    exact ⟨precedes_rowsAt.2 ⟨hdc, hs', hs⟩, hd⟩

/-- In memory the keys come one after the other, and under each the newest first. -/
theorem precedes_shown (hspaces : h.spaces.Nodup) : (h.shown p).Precedes d c ↔
    h.Shows p d ∧ h.Shows p c ∧
      (d.space = c.space ∧ h.Newer d c ∨ h.spaces.Precedes d.space c.space) := by
  have hkeys : h.Shows p d → h.Shows p c →
      ((h.keys p).Precedes d.space c.space ↔ h.spaces.Precedes d.space c.space) := by
    rintro ⟨-, hd, -⟩ ⟨-, hc, -⟩
    unfold keys
    cases ht : p.thread with
    | none => rfl
    | some thread =>
      rw [ht] at hd hc
      have heq : d.space = c.space := (hd thread rfl).trans (hc thread rfl).symm
      refine iff_of_false (fun hp => ?_) fun hp => hp.ne hspaces heq
      exact hp.ne (List.nodup_singleton _) heq
  constructor
  · intro hdc
    have hd := mem_shown.1 hdc.mem_left
    have hc := mem_shown.1 hdc.mem_right
    refine ⟨hd, hc, ?_⟩
    rw [shown, List.precedes_flatMap] at hdc
    rcases hdc with ⟨k, -, hk⟩ | ⟨k, k', hk, hdk, hck⟩
    · obtain ⟨hdk, hck, hn⟩ := precedes_shownAt.1 hk
      exact Or.inl ⟨(mem_shownAt.1 hdk).2.1.trans (mem_shownAt.1 hck).2.1.symm, hn⟩
    · obtain ⟨-, rfl, -⟩ := mem_shownAt.1 hdk
      obtain ⟨-, rfl, -⟩ := mem_shownAt.1 hck
      exact Or.inr ((hkeys hd hc).1 hk)
  · rintro ⟨hd, hc, h'⟩
    have hdk : d ∈ h.shownAt p d.space := mem_shownAt.2 ⟨hd.1, rfl, hd.2.2⟩
    have hck : c ∈ h.shownAt p c.space := mem_shownAt.2 ⟨hc.1, rfl, hc.2.2⟩
    rw [shown, List.precedes_flatMap]
    rcases h' with ⟨hs, hn⟩ | hp
    · rw [hs] at hdk
      exact Or.inl ⟨c.space, (mem_keys_of_mem hc.1).2 hc.2.1, precedes_shownAt.2 ⟨hdk, hck, hn⟩⟩
    · exact Or.inr ⟨d.space, c.space, (hkeys hd hc).2 hp, hdk, hck⟩

theorem nodup_shown (hspaces : h.spaces.Nodup) : (h.shown p).Nodup := by
  refine List.nodup_iff_sublist.2 fun a ha => ?_
  obtain ⟨-, -, ⟨-, hn⟩ | hp⟩ := (precedes_shown hspaces).1 ha
  · exact hn.ne h.nodup_checkpoints rfl
  · exact hp.ne hspaces rfl

/-- What comes before a checkpoint that the query selects, -/
theorem setOf_precedes_selected (hc : h.Selects p before c) :
    {d | (h.selected p before).Precedes d c} = {d | h.SelectsBefore p before d c} := by
  ext d
  exact precedes_selected.trans (and_congr_right fun _ => and_iff_right hc)

/-- and before one that is shown in memory. -/
theorem setOf_precedes_shown (hspaces : h.spaces.Nodup) (hc : h.Shows p c) :
    {d | (h.shown p).Precedes d c} = {d | h.ShowsBefore p d c} := by
  ext d
  exact (precedes_shown hspaces).trans (and_congr_right fun _ => and_iff_right hc)

/-- The two orders agree at a checkpoint. -/
theorem selected_shown_iff (hspaces : h.spaces.Nodup) (hc : h'.Selects p before c) :
    (c ∈ h.shown p ∧ ∀ d, (h.shown p).Precedes d c → (h'.selected p before).Precedes d c) ↔
      h.Shows p c ∧ ∀ d, h.ShowsBefore p d c → h'.SelectsBefore p before d c := by
  rw [mem_shown]
  refine and_congr_right fun hshow => forall_congr' fun d => ?_
  have hselected := Set.ext_iff.1 (setOf_precedes_selected hc) d
  have hshown := Set.ext_iff.1 (setOf_precedes_shown hspaces hshow) d
  exact imp_congr hshown hselected

/-- The two orders agree as far as the limit goes. -/
theorem take_shown_eq_iff (hspaces : h.spaces.Nodup) (n : ℕ) :
    (h.shown p).take n = (h'.selected p before).take n ↔
      (∀ c, h'.Selects p before c → {d | h'.SelectsBefore p before d c}.ncard < n →
        h.Shows p c ∧ ∀ d, h.ShowsBefore p d c → h'.SelectsBefore p before d c) ∧
      ∀ c, h.Shows p c → {d | h.ShowsBefore p d c}.ncard < n → h'.Selects p before c := by
  rw [List.take_eq_take_iff_precedes nodup_selected (nodup_shown hspaces)]
  refine and_congr (forall_congr' fun c => ?_) (forall_congr' fun c => ?_)
  · rw [List.mem_take_iff_ncard nodup_selected, mem_selected, and_imp]
    refine imp_congr_right fun hc => ?_
    rw [setOf_precedes_selected hc, selected_shown_iff hspaces hc]
  · rw [List.mem_take_iff_ncard (nodup_shown hspaces), mem_shown, and_imp, mem_selected]
    refine imp_congr_right fun hc => ?_
    rw [setOf_precedes_shown hspaces hc]

theorem shown_eq_iff (hspaces : h.spaces.Nodup) :
    h.shown p = h'.selected p before ↔
      (∀ c, h'.Selects p before c →
        h.Shows p c ∧ ∀ d, h.ShowsBefore p d c → h'.SelectsBefore p before d c) ∧
      ∀ c, h.Shows p c → h'.Selects p before c := by
  rw [List.eq_iff_precedes nodup_selected (nodup_shown hspaces)]
  refine and_congr (forall_congr' fun c => ?_) (forall_congr' fun c => ?_)
  · rw [mem_selected]
    exact imp_congr_right fun hc => selected_shown_iff hspaces hc
  · rw [mem_selected, mem_shown]

/-- Nothing is listed under the first key. -/
theorem head_pages_eq_nil_iff : (((h.keys p).map (h.shownAt p)).head?.getD []) = [] ↔
    ∀ c, h.Shows p c → p.thread = none ∧ h.spaces.head? ≠ some c.space := by
  have hempty : ∀ k, h.shownAt p k = [] ↔ ∀ c ∈ h.checkpoints, c.space = k →
      ¬∀ b ∈ cutId p.beforeCheckpointId, ∀ d ∈ h.checkpoints, d.space = c.space →
        d.cid = b → h.Newer d c := by
    intro k
    simp only [List.eq_nil_iff_forall_not_mem, mem_shownAt, not_and]
  rw [List.head?_map]
  unfold keys Shows
  cases ht : p.thread with
  | some thread =>
    simp only [List.head?_cons, Option.map_some, Option.getD_some, hempty]
    constructor
    · rintro hnone c ⟨hc, hk, hb⟩
      exact absurd hb (hnone c hc (hk thread rfl))
    · intro hall c hc hk hb
      have hshow := hall c ⟨hc, fun t htt => by rw [hk, Option.some.inj htt], hb⟩
      exact absurd hshow.1 (by simp)
  | none =>
    cases hs : h.spaces.head? with
    | none => simp
    | some k =>
      simp only [Option.map_some, Option.getD_some, hempty]
      constructor
      · rintro hnone c ⟨hc, -, hb⟩
        refine ⟨trivial, fun hk => hnone c hc (Option.some.inj hk).symm hb⟩
      · intro hall c hc hk hb
        exact (hall c ⟨hc, by simp, hb⟩).2 (by rw [hk])

/-! ## The replies -/

theorem memoryList_eq (h : History) (p : ListPayload) : h.memoryList p =
    .items (memoryLimit p.limit ((h.keys p).map fun k => (h.shownAt p k).map Checkpoint.item)) :=
  rfl

theorem sqliteItems_eq (h : History) (p : ListPayload) (before : Option String) :
    h.sqliteItems p before =
      SqliteCheckpointStore.sqlLimit p.limit ((h.selected p before).map Checkpoint.item) := by
  rw [sqliteItems, selected, List.map_reverse]

theorem flatten_pages (h : History) (p : ListPayload) :
    ((h.keys p).map fun k => (h.shownAt p k).map Checkpoint.item).flatten =
      (h.shown p).map Checkpoint.item := by
  rw [shown, List.map_flatMap, List.flatMap_def]

/-- The two lists of items are the same, and within the limit. -/
theorem items_eq_iff (hspaces : h.spaces.Nodup) (hlimit : ∀ n ∈ p.limit, 0 ≤ n) :
    (h.memoryList p = .items (h'.sqliteItems p before) ∧
        ∀ n ∈ p.limit, ((h'.sqliteItems p before).length : ℤ) ≤ n) ↔
      (p.limit = some 0 → ∀ c, h.Shows p c → p.thread = none ∧ h.spaces.head? ≠ some c.space) ∧
      (∀ c, h'.Selects p before c → Within p.limit {d | h'.SelectsBefore p before d c} →
        h.Shows p c ∧ ∀ d, h.ShowsBefore p d c → h'.SelectsBefore p before d c) ∧
      ∀ c, h.Shows p c → Within p.limit {d | h.ShowsBefore p d c} → h'.Selects p before c := by
  have hitems : ∀ {l m : List Checkpoint}, l.map Checkpoint.item = m.map Checkpoint.item ↔ l = m :=
    (List.map_injective_iff.2 Checkpoint.item_injective).eq_iff
  rw [memoryList_eq, sqliteItems_eq]
  unfold Within
  cases hl : p.limit with
  | none =>
    simp only [memoryLimit, SqliteCheckpointStore.sqlLimit, flatten_pages, StoreReply.items.injEq,
      hitems, reduceCtorEq, Option.not_mem_none, IsEmpty.forall_iff, implies_true,
      and_true, true_and, forall_const]
    exact shown_eq_iff hspaces
  | some n =>
    obtain ⟨n, rfl⟩ := Int.eq_ofNat_of_zero_le (hlimit n hl)
    simp only [memoryLimit, SqliteCheckpointStore.sqlLimit, flatten_pages, StoreReply.items.injEq,
      Option.mem_def, Option.some.injEq, forall_eq', Nat.cast_lt, Nat.cast_le, Int.toNat_natCast,
      if_neg (not_lt.2 (Int.natCast_nonneg n)), Nat.cast_eq_zero]
    cases n with
    | zero =>
      -- The query gives nothing, the loops at most one item.
      have hpages : ((h.keys p).map fun k => (h.shownAt p k).map Checkpoint.item).head?.getD [] =
          (((h.keys p).map (h.shownAt p)).head?.getD []).map Checkpoint.item := by
        cases h.keys p <;> rfl
      have hone : ∀ {l : List ListItem}, l.take 1 = [] ↔ l = [] := by
        intro l
        simp
      rw [← head_pages_eq_nil_iff, if_neg (by simp), hpages, List.take_zero, hone,
        List.map_eq_nil_iff]
      simp
    | succ n =>
      have hle : ((List.map Checkpoint.item (h'.selected p before)).take (n + 1)).length ≤ n + 1 :=
        List.length_take_le _ _
      rw [← take_shown_eq_iff hspaces, if_pos (by simp), and_iff_left hle, ← List.map_take,
        ← List.map_take, hitems]
      simp

/-- The two stores give the same items, within the limit. -/
theorem listsAlike_iff {db : Sqlite} (hspaces : h.spaces.Nodup) (hlimit : ∀ n ∈ p.limit, 0 ≤ n) :
    (∃ items, h.memoryList p = .items items ∧ h'.sqliteList db p = some (.items items) ∧
        ∀ n ∈ p.limit, (items.length : ℤ) ≤ n) ↔ h.ListsAlike db h' p := by
  rw [ListsAlike, ← all_fitsInt64_iff hlimit, sqliteList]
  cases hbefore : beforeText db p with
  | none => simp
  | some before =>
    rw [Option.bind_some]
    split_ifs with hall
    · simp only [Option.some.injEq, StoreReply.items.injEq, exists_eq_left',
        ← items_eq_iff hspaces hlimit]
      constructor
      · rintro ⟨items, hmemory, rfl, hlength⟩
        exact ⟨hall, hmemory, hlength⟩
      · rintro ⟨-, hmemory, hlength⟩
        exact ⟨_, hmemory, rfl, hlength⟩
    · simp [hall]

end

/-! ## Runs -/

/-- What a `list` reads. -/
def rows (h : History) : List Checkpoint × List (String × String) :=
  (h.checkpoints, h.spaces)

theorem rows_put {h h' : History} (hr : h.rows = h'.rows) (c : Checkpoint) :
    (h.put c).rows = (h'.put c).rows := by
  obtain ⟨hc, hs⟩ := Prod.mk.inj hr
  refine Prod.ext ?_ ?_
  · exact congrArg (Keyed.replace Checkpoint.key c) hc
  · exact congrArg (fun l => if c.space ∈ l then l else l ++ [c.space]) hs

/-- The puts alone decide what is listed. -/
theorem rows_run (b : Backend) : ∀ (rs : List StoreRequest) {h h' : History}, h.rows = h'.rows →
    (h.run b rs).rows = ((rs.filterMap b.put?).foldl put h').rows
  | [], _, _, hr => hr
  | .put p :: rs, h, h', hr => by
    change ((h.step b (.put p)).run b rs).rows = _
    rw [step]
    cases hc : b.stored? p.checkpoint with
    | none =>
      have hput : b.put? (.put p) = none := hc
      rw [List.filterMap_cons_none hput]
      exact rows_run b rs hr
    | some c =>
      have hput : b.put? (.put p) = some c := hc
      rw [List.filterMap_cons_some hput, List.foldl_cons]
      exact rows_run b rs (rows_put hr c)
  | .putWrites p :: rs, h, _, hr => rows_run b rs (h := h.putWrites p.write) hr
  | .getTuple _ :: rs, h, _, hr => rows_run b rs (h := h) hr
  | .list _ :: rs, h, _, hr => rows_run b rs (h := h) hr

theorem nodup_spaces_put {h : History} (hs : h.spaces.Nodup) (c : Checkpoint) :
    (h.put c).spaces.Nodup := by
  simp only [put]
  split_ifs with hc
  · exact hs
  · exact List.nodup_append.2 ⟨hs, List.nodup_singleton _, fun k hk k' hk' => by
      rw [List.mem_singleton.1 hk']
      exact fun he => hc (he ▸ hk)⟩

theorem nodup_spaces_run (b : Backend) : ∀ (rs : List StoreRequest) {h : History},
    h.spaces.Nodup → (h.run b rs).spaces.Nodup
  | [], _, hs => hs
  | .put p :: rs, h, hs => by
    change ((h.step b (.put p)).run b rs).spaces.Nodup
    rw [step]
    cases b.stored? p.checkpoint with
    | none => exact nodup_spaces_run b rs hs
    | some c => exact nodup_spaces_run b rs (nodup_spaces_put hs c)
  | .putWrites p :: rs, h, hs => nodup_spaces_run b rs (h := h.putWrites p.write) hs
  | .getTuple _ :: rs, h, hs => nodup_spaces_run b rs (h := h) hs
  | .list _ :: rs, h, hs => nodup_spaces_run b rs (h := h) hs

theorem sqliteList_congr {db : Sqlite} {h h' : History} (hr : h.rows = h'.rows) (p : ListPayload) :
    h.sqliteList db p = h'.sqliteList db p := by
  simp only [sqliteList, sqliteItems, (Prod.mk.inj hr).1]

/-- The same puts leave the same rows. -/
theorem rows_run_congr (b : Backend) {rs rs' : List StoreRequest}
    (hputs : rs.filterMap StoreRequest.put? = rs'.filterMap StoreRequest.put?) :
    (empty.run b rs).rows = (empty.run b rs').rows := by
  have hkept : ∀ rs : List StoreRequest,
      rs.filterMap b.put? = (rs.filterMap StoreRequest.put?).filterMap b.stored? :=
    fun rs => List.filterMap_filterMap.symm
  rw [rows_run b rs rfl, rows_run b rs' rfl, hkept, hkept, hputs]

end History

/-- The reply of a store to a list request is that of its history. -/
theorem Backend.reply_list (b : Backend) (rs : List StoreRequest) (p : ListPayload) :
    (b.handle (b.run b.init rs) (.list p)).2 =
      (History.empty.run b rs).reply b (.list p) :=
  (b.handle_refines (b.run_refines rs b.init_refines) (.list p)).2

/-- Two stores that were fed the same puts give the same items for a list request, and no
more than its limit, if and only if the request lists the stored checkpoints alike. -/
theorem lists_alike_iff (db : Sqlite) (rs rs' : List StoreRequest) (p : ListPayload)
    (hputs : rs.filterMap StoreRequest.put? = rs'.filterMap StoreRequest.put?)
    (hlimit : ∀ n ∈ p.limit, 0 ≤ n) :
    (∃ items,
        (Backend.memory.handle (Backend.memory.run Backend.memory.init rs) (.list p)).2 =
          some (.items items) ∧
        ((Backend.sqlite db).handle ((Backend.sqlite db).run (Backend.sqlite db).init rs')
          (.list p)).2 = some (.items items) ∧
        ∀ n ∈ p.limit, (items.length : ℤ) ≤ n) ↔
      (History.empty.run .memory rs).ListsAlike db (History.empty.run (.sqlite db) rs) p := by
  rw [Backend.reply_list, Backend.reply_list]
  simp only [History.reply, Option.some.injEq]
  rw [History.sqliteList_congr (History.rows_run_congr (.sqlite db) hputs.symm)]
  exact History.listsAlike_iff (History.nodup_spaces_run .memory rs List.nodup_nil) hlimit

/-- Two checkpoints of one thread and namespace; what is older than the newer one. -/
theorem lists_alike_iff_older :
    (History.empty.run .memory
      [.put ⟨"t", some "", "1", .null, ⟨.str "a", trivial⟩, ⟨.null, trivial⟩, none⟩,
        .put ⟨"t", some "", "2", .str "1", ⟨.str "b", trivial⟩, ⟨.null, trivial⟩,
          none⟩]).ListsAlike .consecutive
      (History.empty.run (.sqlite .consecutive)
        [.put ⟨"t", some "", "1", .null, ⟨.str "a", trivial⟩, ⟨.null, trivial⟩, none⟩,
          .put ⟨"t", some "", "2", .str "1", ⟨.str "b", trivial⟩, ⟨.null, trivial⟩, none⟩])
      ⟨some "t", some "", .str "2", some 1⟩ := by
  refine (lists_alike_iff .consecutive _
    [.put ⟨"t", some "", "1", .null, ⟨.str "a", trivial⟩, ⟨.null, trivial⟩, none⟩,
      .putWrites ⟨"t", some "", "1", "task", some "", ⟨.str "w", trivial⟩⟩,
      .put ⟨"t", some "", "2", .str "1", ⟨.str "b", trivial⟩, ⟨.null, trivial⟩, none⟩]
    ⟨some "t", some "", .str "2", some 1⟩ rfl (by simp)).1
    ⟨[⟨"t", "", "1", .null, .str "a", .null⟩], rfl, ?_, by simp⟩
  rw [Backend.reply_list]
  rfl

/-- A thread without a namespace : SQLite lists all namespaces, memory the empty one. -/
theorem null_namespace_differs :
    ¬∃ items,
        (Backend.memory.handle (Backend.memory.run Backend.memory.init
            [.put ⟨"t", some "child", "1", .null, ⟨.str "a", trivial⟩, ⟨.null, trivial⟩, none⟩])
          (.list ⟨some "t", none, .null, none⟩)).2 = some (.items items) ∧
        ((Backend.sqlite .consecutive).handle
            ((Backend.sqlite .consecutive).run (Backend.sqlite .consecutive).init
              [.put ⟨"t", some "child", "1", .null, ⟨.str "a", trivial⟩, ⟨.null, trivial⟩, none⟩])
          (.list ⟨some "t", none, .null, none⟩)).2 = some (.items items) ∧
        ∀ n ∈ (none : Option ℤ), (items.length : ℤ) ≤ n := by
  rw [Backend.reply_list, Backend.reply_list]
  rintro ⟨items, hmemory, hsqlite, -⟩
  have hdiffers : StoreReply.items [] =
      .items [⟨"t", "child", "1", .null, .str "a", .null⟩] :=
    Option.some.inj (hmemory.trans hsqlite.symm)
  simp at hdiffers

end PilotLanggraph

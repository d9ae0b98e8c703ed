import PilotLanggraph.CheckpointListing
import Mathlib.Data.List.Dedup

/-!
# Paging through the checkpoints

A reader lists the checkpoints of a thread and namespace page by page : each request names the
last id of the page before (`Backend.pages`). Behind that id stands the rest of the unlimited
list (`History.page_behind`), so without a put in between the pages come to this list
(`paging_enumerates_iff`), whose ids are those that were put, each once and the one put last in
front (`History.cids_run`).
-/

namespace PilotLanggraph

/-- The ids put on a thread and namespace, in order, where the store did not refuse the put. -/
def putIds (b : Backend) (k : String × String) (rs : List StoreRequest) : List String :=
  ((rs.filterMap b.put?).filter fun c => c.space = k).map Checkpoint.cid

/-- The store takes the limit of a list : SQLite binds one of 64 bits. -/
def Backend.takes (b : Backend) (limit : Option ℤ) : Bool :=
  match b with
  | .memory => true
  | .sqlite _ => limit.all Sqlite.fitsInt64

/-- The requests put nothing. -/
def NoPut (rs : List StoreRequest) : Prop :=
  ∀ r ∈ rs, r.put? = none

/-- The pages of at most `k` items, up to the first empty one, with other requests after each.
`none` if an answer is not a list, or the steps do not suffice. -/
def Backend.pages (b : Backend) (thread ns : String) (k : ℕ) (between : ℕ → List StoreRequest) :
    ℕ → ℕ → b.State → Json → Option (List (List ListItem))
  | 0, _, _, _ => none
  | steps + 1, i, s, before =>
    let r := b.handle s (.list ⟨some thread, some ns, before, some k⟩)
    match r.2 with
    | some (.items items) =>
      match items.getLast? with
      | none => some []
      | some last =>
        (pages b thread ns k between steps (i + 1) (b.run r.1 (between i))
          (.str last.checkpointId)).map (items :: ·)
    | _ => none

/-- Of the ids put, each counts where it was put last. -/
theorem dedup_concat (a : String) : ∀ l : List String, (l ++ [a]).dedup = l.dedup.erase a ++ [a]
  | [] => rfl
  | x :: l => by
    have ih := dedup_concat a l
    rw [List.cons_append]
    by_cases hx : x ∈ l
    · rw [List.dedup_cons_of_mem (List.mem_append_left _ hx), List.dedup_cons_of_mem hx, ih]
    · rw [List.dedup_cons_of_notMem hx]
      by_cases hxa : x = a
      · have ha : a ∉ l.dedup := by rwa [List.mem_dedup, ← hxa]
        rw [List.dedup_cons_of_mem (by simp [hxa]), ih, hxa, List.erase_cons_head,
          List.erase_of_not_mem ha]
      · rw [List.dedup_cons_of_notMem (by simp [hx, hxa]), ih, List.erase_cons_tail (by simpa),
          List.cons_append]

namespace Backend

theorem takes_none (b : Backend) : b.takes none = true := by
  cases b with
  | memory => rfl
  | sqlite db => rfl

/-- The limits that a store takes. -/
theorem takes_limit_iff (b : Backend) {limit : Option ℤ} (hlimit : ∀ n ∈ limit, 0 ≤ n) :
    b.takes limit = true ↔ b = .memory ∨ ∀ n ∈ limit, n < 2 ^ 63 := by
  cases b with
  | memory => exact iff_of_true rfl (.inl rfl)
  | sqlite db =>
    rw [takes, History.all_fitsInt64_iff hlimit]
    simp

theorem takes_iff (b : Backend) (k : ℕ) : b.takes (some k) = true ↔ b = .memory ∨ k < 2 ^ 63 := by
  rw [b.takes_limit_iff (by simp)]
  simp only [Option.mem_def, Option.some.injEq, forall_eq']
  refine or_congr_right ?_
  omega

end Backend

namespace History

section

variable {h : History} {k : String × String}

/-- The ids that are stored, newest last. -/
theorem cids_run (b : Backend) (k : String × String) (rs : List StoreRequest) :
    ((empty.run b rs).rowsAt k).map Checkpoint.cid = (putIds b k rs).dedup := by
  induction rs using List.reverseRecOn with
  | nil => rfl
  | append_singleton rs r ih =>
    have hids : putIds b k (rs ++ [r]) = putIds b k rs ++ putIds b k [r] := by
      rw [putIds, List.filterMap_append, List.filter_append, List.map_append]
      rfl
    rw [run_append, hids]
    cases r with
    | put p =>
      change ((((empty.run b rs).step b (.put p)).rowsAt k).map Checkpoint.cid) = _
      rw [step]
      cases hc : b.stored? p.checkpoint with
      | none =>
        have hid : putIds b k [.put p] = [] := by
          simp [putIds, Backend.put?, StoreRequest.put?, hc]
        rw [hid, List.append_nil, ← ih]
        rfl
      | some c =>
        rw [Option.elim_some]
        by_cases hk : c.space = k
        · have hid : putIds b k [.put p] = [c.cid] := by
            simp [putIds, Backend.put?, StoreRequest.put?, hc, hk]
          rw [hid, dedup_concat, ← ih, ← hk]
          exact cids_rowsAt_put _ _
        · have hid : putIds b k [.put p] = [] := by
            simp [putIds, Backend.put?, StoreRequest.put?, hc, hk]
          rw [hid, List.append_nil, ← ih]
          exact congrArg (List.map Checkpoint.cid)
            (((empty.run b rs).rowsAt_put c k).trans (if_neg hk))
    | putWrites p => exact ih.trans (congrArg List.dedup (List.append_nil _).symm)
    | getTuple p => exact ih.trans (congrArg List.dedup (List.append_nil _).symm)
    | list p => exact ih.trans (congrArg List.dedup (List.append_nil _).symm)

theorem cids_page (h : History) (k : String × String) :
    (h.page none k).map ListItem.checkpointId = ((h.rowsAt k).map Checkpoint.cid).reverse := by
  rw [page, older, List.map_map, List.map_reverse]
  rfl

/-- Behind an id stands the rest of the list. -/
theorem page_behind {l l' : List ListItem} {x : ListItem} (hl : h.page none k = l ++ x :: l') :
    h.page (some x.checkpointId) k = l' := by
  have hrows : (h.rowsAt k).map Checkpoint.item = l'.reverse ++ x :: l.reverse := by
    have hreverse := congrArg List.reverse hl
    rw [page, older, List.map_reverse, List.reverse_reverse] at hreverse
    simpa [Keyed.before] using hreverse
  have hdistinct : Keyed.Distinct ListItem.checkpointId (l'.reverse ++ x :: l.reverse) := by
    rw [← hrows, Keyed.Distinct, List.map_map]
    exact h.nodup_cids k
  rw [page, older, List.map_reverse, Keyed.map_before Checkpoint.cid ListItem.checkpointId
    Checkpoint.item (fun _ => rfl), hrows, Keyed.before_append_cons hdistinct,
    List.reverse_reverse]

/-- A store whose limit fits answers a request that names a thread and a namespace with the page
of these. -/
theorem reply_list_named (b : Backend) (h : History) (thread ns : String) (before : Option String)
    {limit : Option ℤ} (hlimit : ∀ n ∈ limit, 1 ≤ n) :
    h.reply b (.list ⟨some thread, some ns, Json.ofString? before, limit⟩) =
      if b.takes limit then
        some (.items (atMost limit (h.page (truthyId before) (thread, ns))))
      else none := by
  cases b with
  | memory =>
    rw [← cutId_ofString?]
    exact congrArg some (memoryList_named h rfl rfl hlimit)
  | sqlite db =>
    rw [History.reply, sqliteList, beforeText_ofString?, Option.bind_some,
      sqliteItems_named h rfl rfl hlimit]
    rfl

/-- Without a put the pages stay what they are. -/
theorem page_run (b : Backend) {rs : List StoreRequest} (hrs : NoPut rs) (h : History)
    (before : Option String) (k : String × String) :
    (h.run b rs).page before k = h.page before k := by
  have hputs : rs.filterMap b.put? = [] :=
    List.filterMap_eq_nil_iff.2 fun r hr => by rw [Backend.put?, hrs r hr, Option.bind_none]
  have hrows : (h.run b rs).rows = h.rows := by
    rw [rows_run b rs (h := h) rfl, hputs]
    rfl
  have hcheckpoints : (h.run b rs).checkpoints = h.checkpoints := (Prod.mk.inj hrows).1
  rw [page, page, older, older, rowsAt, rowsAt, hcheckpoints]

end

end History

section

variable {b : Backend} {s : b.State} {h : History} {thread ns : String} {k : ℕ}
  {between : ℕ → List StoreRequest} {before : Option String} {l l' : List ListItem}

/-- One request of the reader. -/
theorem handle_page (hk : 1 ≤ k) (hfits : b.takes (some k)) (hr : b.Refines s h)
    (hpage : h.page (truthyId before) (thread, ns) = l') :
    b.Refines (b.handle s (.list ⟨some thread, some ns, Json.ofString? before, some k⟩)).1 h ∧
      (b.handle s (.list ⟨some thread, some ns, Json.ofString? before, some k⟩)).2 =
        some (.items (l'.take k)) := by
  obtain ⟨hnext, hreply⟩ :=
    b.handle_refines hr (.list ⟨some thread, some ns, Json.ofString? before, some k⟩)
  refine ⟨hnext, ?_⟩
  have hlimit : ∀ n ∈ some (k : ℤ), 1 ≤ n := by simpa using hk
  rw [hreply, History.reply_list_named b h thread ns before hlimit, if_pos hfits, hpage]
  rfl

/-- From any point of the list on, the pages come to the rest of it. -/
theorem exists_pages (hk : 1 ≤ k) (hfits : b.takes (some k)) (hbetween : ∀ i, NoPut (between i))
    (n : ℕ) (hn : l'.length = n) (i : ℕ) (hr : b.Refines s h)
    (hall : h.page none (thread, ns) = l ++ l')
    (hpage : h.page (truthyId before) (thread, ns) = l') (hids : ∀ x ∈ l', x.checkpointId ≠ "") :
    ∃ pages, pages.flatten = l' ∧ (∀ page ∈ pages, page ≠ [] ∧ page.length ≤ k) ∧
      ∀ steps, pages.length < steps →
        b.pages thread ns k between steps i s (Json.ofString? before) = some pages := by
  induction n using Nat.strong_induction_on generalizing s h before l l' i with
  | h n ih =>
    obtain ⟨hnext, hreply⟩ := handle_page hk hfits hr hpage
    rcases List.eq_nil_or_concat (l'.take k) with hnil | ⟨page, last, hpages⟩
    · obtain rfl : l' = [] := by simpa [Nat.ne_of_gt hk] using hnil
      refine ⟨[], rfl, List.forall_mem_nil _, fun steps hsteps => ?_⟩
      obtain ⟨steps, rfl⟩ := Nat.exists_eq_add_of_lt hsteps
      rw [Backend.pages, hreply, List.take_nil]
      rfl
    · -- The next request names the last item of this page.
      rw [List.concat_eq_append] at hpages
      have hsplit : l' = page ++ last :: l'.drop k := by
        rw [← List.singleton_append, ← List.append_assoc, ← hpages, List.take_append_drop]
      have hlast : last.checkpointId ≠ "" := hids last (by rw [hsplit]; simp)
      have htruthy : truthyId (some last.checkpointId) = some last.checkpointId := by
        simp [truthyId, Option.filter_some, hlast]
      have hall' : h.page none (thread, ns) = (l ++ page) ++ last :: l'.drop k := by
        rw [hall, List.append_assoc, ← hsplit]
      have hlt : (l'.drop k).length < n := by
        have hlength := congrArg List.length hsplit
        rw [List.length_append, List.length_cons] at hlength
        omega
      have hrest : ∀ x ∈ l'.drop k, x.checkpointId ≠ "" := fun x hx =>
        hids x (List.mem_of_mem_drop hx)
      have hall'' : ((h.run b (between i)).page none (thread, ns)) =
          ((l ++ page) ++ [last]) ++ l'.drop k := by
        rw [History.page_run b (hbetween i), hall', List.append_assoc (l ++ page)]
        rfl
      have hbehind : (h.run b (between i)).page (truthyId (some last.checkpointId)) (thread, ns) =
          l'.drop k := by
        rw [htruthy, History.page_run b (hbetween i), History.page_behind hall']
      obtain ⟨pages, hflatten, hmem, hsteps⟩ := ih _ hlt rfl (i + 1)
        (b.run_refines (between i) hnext) hall'' hbehind hrest
      refine ⟨l'.take k :: pages, ?_, ?_, fun steps hlt' => ?_⟩
      · rw [List.flatten_cons, hflatten, List.take_append_drop]
      · refine List.forall_mem_cons.2 ⟨⟨by simp [hpages], List.length_take_le _ _⟩, hmem⟩
      · obtain ⟨steps, rfl⟩ := Nat.exists_eq_add_of_lt hlt'
        have hpages' := hsteps ((l'.take k :: pages).length + steps)
          (by rw [List.length_cons]; omega)
        have hlast? : (l'.take k).getLast? = some last := by
          rw [hpages]
          exact List.getLast?_concat
        rw [Backend.pages, hreply]
        simp only [hlast?]
        rw [show Json.str last.checkpointId = Json.ofString? (some last.checkpointId) from rfl,
          hpages']
        rfl

/-- Where the store does not take the limit, there is not even a first page. -/
theorem pages_eq_none (hk : 1 ≤ k) (hfits : ¬b.takes (some k)) (hr : b.Refines s h) (steps i : ℕ) :
    b.pages thread ns k between steps i s (Json.ofString? before) = none := by
  cases steps with
  | zero => rfl
  | succ steps =>
    have hreply := (b.handle_refines hr
      (.list ⟨some thread, some ns, Json.ofString? before, some k⟩)).2
    have hlimit : ∀ n ∈ some (k : ℤ), 1 ≤ n := by simpa using hk
    rw [History.reply_list_named b h thread ns before hlimit, if_neg hfits] at hreply
    rw [Backend.pages, hreply]

end

/-- A reader goes through the checkpoints of a thread and namespace page by page, each request
naming the last id of the page before. It comes to an end with the unlimited list : every id that
was put, once, the one put last in front, exactly if the store is the in-memory one or the page
size is below `2 ^ 63`. Any requests but puts may come in between. -/
theorem paging_enumerates_iff (b : Backend) (rs : List StoreRequest) (thread ns : String) (k : ℕ)
    (hk : 1 ≤ k) (hids : "" ∉ putIds b (thread, ns) rs) (between : ℕ → List StoreRequest)
    (hbetween : ∀ i, NoPut (between i)) :
    (∃ pages items,
      (∀ steps, pages.length < steps →
        b.pages thread ns k between steps 0 (b.run b.init rs) .null = some pages) ∧
      (b.handle (b.run b.init rs) (.list ⟨some thread, some ns, .null, none⟩)).2 =
        some (.items items) ∧
      pages.flatten = items ∧ (∀ page ∈ pages, page ≠ [] ∧ page.length ≤ k) ∧
      items.map ListItem.checkpointId = (putIds b (thread, ns) rs).dedup.reverse) ↔
      b = .memory ∨ k < 2 ^ 63 := by
  have hr := b.run_refines rs b.init_refines
  rw [← b.takes_iff k]
  constructor
  · rintro ⟨pages, -, hsteps, -⟩
    by_contra hfits
    have hnone : b.pages thread ns k between (pages.length + 1) 0 (b.run b.init rs)
        (Json.ofString? none) = none := pages_eq_none hk hfits hr _ _
    exact Option.some_ne_none pages ((hsteps _ (Nat.lt_succ_self _)).symm.trans hnone)
  · intro hfits
    have hcids : ((History.empty.run b rs).page none (thread, ns)).map ListItem.checkpointId =
        (putIds b (thread, ns) rs).dedup.reverse := by
      rw [History.cids_page, History.cids_run]
    have hne : ∀ x ∈ (History.empty.run b rs).page none (thread, ns), x.checkpointId ≠ "" := by
      intro x hx he
      have hmem := List.mem_map_of_mem (f := ListItem.checkpointId) hx
      rw [hcids, List.mem_reverse, List.mem_dedup, he] at hmem
      exact hids hmem
    have hpage : (History.empty.run b rs).page (truthyId none) (thread, ns) = _ := rfl
    obtain ⟨pages, hflatten, hpages, hsteps⟩ := exists_pages hk hfits hbetween _ rfl 0 hr
      (List.nil_append _).symm hpage hne
    refine ⟨pages, _, hsteps, ?_, hflatten, hpages, hcids⟩
    have hlimit : ∀ n ∈ (none : Option ℤ), 1 ≤ n := by simp
    have hunlimited := History.reply_list_named b (History.empty.run b rs) thread ns none hlimit
    rw [if_pos (b.takes_none)] at hunlimited
    exact (b.reply_list rs _).trans hunlimited

/-- Three puts, two ids, pages of one. -/
theorem paging_enumerates_reput :
    ∃ pages items,
      (∀ steps, pages.length < steps →
        (Backend.sqlite .consecutive).pages "t" "" 1 (fun _ => []) steps 0
          ((Backend.sqlite .consecutive).run (Backend.sqlite .consecutive).init
            [.put ⟨"t", some "", "1", .null, ⟨.null, trivial⟩, ⟨.null, trivial⟩, none⟩,
              .put ⟨"t", some "", "2", .str "1", ⟨.null, trivial⟩, ⟨.null, trivial⟩, none⟩,
              .put ⟨"t", some "", "1", .null, ⟨.null, trivial⟩, ⟨.null, trivial⟩, none⟩]) .null =
          some pages) ∧
      pages.flatten = items ∧ items.map ListItem.checkpointId = ["1", "2"] := by
  obtain ⟨pages, items, hsteps, -, hflatten, -, hids⟩ :=
    (paging_enumerates_iff (.sqlite .consecutive)
      [.put ⟨"t", some "", "1", .null, ⟨.null, trivial⟩, ⟨.null, trivial⟩, none⟩,
        .put ⟨"t", some "", "2", .str "1", ⟨.null, trivial⟩, ⟨.null, trivial⟩, none⟩,
        .put ⟨"t", some "", "1", .null, ⟨.null, trivial⟩, ⟨.null, trivial⟩, none⟩] "t" "" 1
      (Nat.le_refl 1) (by decide) (fun _ => []) (fun _ => List.forall_mem_nil _)).2
      (.inr (by decide))
  exact ⟨pages, items, hsteps, hflatten, hids⟩

/-- SQLite gives no page of `2 ^ 63` items. -/
theorem page_size_not_bound :
    ¬∀ (b : Backend) (rs : List StoreRequest) (thread ns : String) (k : ℕ), 1 ≤ k →
      "" ∉ putIds b (thread, ns) rs →
      ∃ pages, ∀ steps, pages.length < steps →
        b.pages thread ns k (fun _ => []) steps 0 (b.run b.init rs) .null = some pages := by
  intro h
  obtain ⟨pages, hpages⟩ := h (.sqlite .consecutive) [] "t" "" (2 ^ 63) (by decide) (by decide)
  let b := Backend.sqlite .consecutive
  have hnone : b.pages "t" "" (2 ^ 63) (fun _ => []) (pages.length + 1) 0 b.init
      (Json.ofString? none) = none :=
    pages_eq_none (by decide) (by decide) b.init_refines _ _
  exact Option.some_ne_none pages ((hpages _ (Nat.lt_succ_self _)).symm.trans hnone)

end PilotLanggraph

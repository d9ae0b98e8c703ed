import Mathlib.Data.List.Sort
import PilotLanggraph.Lib.Keyed

/-!
# Tables with an autoincrement column

A table is a list of numbered rows. A new row gets a number above every number given out
before, so the rows stand in the order of their numbers, which is the order in which they
were inserted (`Table.sorted`). The two conflict clauses of SQLite are `insertOrReplace`,
which deletes the row with the same key and inserts the new one, and `insertOrIgnore`,
which keeps the row that is there. Without their numbers the rows change as the lists of
`Keyed` do (`contents_insertOrReplace`, `contents_insertOrIgnore`), and a query ordered
by number returns them in that order or its reverse (`selectAsc_eq`, `selectDesc_eq`).
-/

/-- How numbers are given out. `next n` numbers a new row when `n` is the largest number
given out so far; `refused n` is that largest number after an insert that a conflict
refused, which may use one up. -/
structure Autoincrement where
  /-- The number of a new row. -/
  next : ℕ → ℕ
  lt_next : ∀ n, n < next n
  /-- The largest number given out, after a refused insert. -/
  refused : ℕ → ℕ
  le_refused : ∀ n, n ≤ refused n

/-- Consecutive numbers. -/
def Autoincrement.succ : Autoincrement :=
  ⟨fun n => n + 1, Nat.lt_succ_self, id, fun _ => le_rfl⟩

/-- Numbered rows, in the order of their numbers. -/
structure Table (ρ : Type*) where
  /-- Number and row. -/
  rows : List (ℕ × ρ)
  /-- No larger number has been given out. -/
  last : ℕ
  sorted : rows.Pairwise fun a b => a.1 < b.1
  le_last : ∀ r ∈ rows, r.1 ≤ last

namespace Table

variable {ρ κ : Type*} [DecidableEq κ]

/-- The table without rows. -/
def empty : Table ρ :=
  ⟨[], 0, List.Pairwise.nil, by simp⟩

/-- The rows without their numbers. -/
def contents (t : Table ρ) : List ρ :=
  t.rows.map Prod.snd

/-- A row with the next number. -/
def insert (auto : Autoincrement) (x : ρ) (t : Table ρ) : Table ρ where
  rows := t.rows ++ [(auto.next t.last, x)]
  last := auto.next t.last
  sorted := by
    refine List.pairwise_append.2 ⟨t.sorted, List.pairwise_singleton _ _, ?_⟩
    intro a ha b hb
    rw [List.mem_singleton.1 hb]
    exact lt_of_le_of_lt (t.le_last a ha) (auto.lt_next _)
  le_last := by
    intro r hr
    rcases List.mem_append.1 hr with hr | hr
    · exact (t.le_last r hr).trans (auto.lt_next _).le
    · rw [List.mem_singleton.1 hr]

/-- `DELETE` the rows for which `p` fails. -/
def keep (p : ρ → Bool) (t : Table ρ) : Table ρ where
  rows := t.rows.filter fun r => p r.2
  last := t.last
  sorted := t.sorted.filter _
  le_last := fun r hr => t.le_last r (List.mem_filter.1 hr).1

/-- `INSERT OR REPLACE`, with `key` the columns of the unique constraint. -/
def insertOrReplace (auto : Autoincrement) (key : ρ → κ) (x : ρ) (t : Table ρ) : Table ρ :=
  (t.keep fun y => key y ≠ key x).insert auto x

/-- `INSERT OR IGNORE`, with `key` the columns of the unique constraint. -/
def insertOrIgnore (auto : Autoincrement) (key : ρ → κ) (x : ρ) (t : Table ρ) : Table ρ :=
  if t.rows.any fun r => key r.2 = key x then
    { t with
      last := auto.refused t.last
      le_last := fun r hr => (t.le_last r hr).trans (auto.le_refused _) }
  else t.insert auto x

/-- `SELECT … WHERE p ORDER BY seq`. -/
def selectAsc (p : ℕ × ρ → Bool) (t : Table ρ) : List (ℕ × ρ) :=
  (t.rows.filter p).mergeSort fun a b => a.1 ≤ b.1

/-- `SELECT … WHERE p ORDER BY seq DESC`. -/
def selectDesc (p : ℕ × ρ → Bool) (t : Table ρ) : List (ℕ × ρ) :=
  (t.rows.filter p).mergeSort fun a b => b.1 ≤ a.1

/-- `SELECT … WHERE p` and the first row of the answer. -/
def selectOne (p : ρ → Bool) (t : Table ρ) : Option (ℕ × ρ) :=
  t.rows.find? fun r => p r.2

@[simp] theorem contents_empty : (empty : Table ρ).contents = [] :=
  rfl

theorem contents_insertOrReplace (auto : Autoincrement) (key : ρ → κ) (x : ρ) (t : Table ρ) :
    (t.insertOrReplace auto key x).contents = Keyed.replace key x t.contents := by
  simp [insertOrReplace, insert, keep, contents, Keyed.replace, List.filter_map, Function.comp_def]

theorem contents_insertOrIgnore (auto : Autoincrement) (key : ρ → κ) (x : ρ) (t : Table ρ) :
    (t.insertOrIgnore auto key x).contents = Keyed.insertNew key x t.contents := by
  have hany : (t.rows.any fun r => key r.2 = key x) = t.contents.any fun y => key y = key x := by
    simp [contents, Function.comp_def]
  rw [insertOrIgnore, Keyed.insertNew, hany]
  split_ifs
  · rfl
  · simp [insert, contents]

/-- In ascending order the rows come as they were inserted. -/
theorem selectAsc_eq (p : ℕ × ρ → Bool) (t : Table ρ) : t.selectAsc p = t.rows.filter p := by
  refine List.mergeSort_of_pairwise ?_
  exact (t.sorted.filter p).imp fun h => decide_eq_true h.le

/-- In descending order the newest row comes first. -/
theorem selectDesc_eq (p : ℕ × ρ → Bool) (t : Table ρ) :
    t.selectDesc p = (t.rows.filter p).reverse := by
  have hs : ((t.rows.filter p).reverse).Pairwise fun a b => b.1 ≤ a.1 :=
    List.pairwise_reverse.2 ((t.sorted.filter p).imp fun h => h.le)
  have hm : (t.selectDesc p).Pairwise fun a b => b.1 ≤ a.1 := by
    refine (List.pairwise_mergeSort ?_ ?_ (t.rows.filter p)).imp fun h => of_decide_eq_true h
    · exact fun a b c hab hbc =>
        decide_eq_true ((of_decide_eq_true hbc).trans (of_decide_eq_true hab))
    · exact fun a b => by simpa using le_total b.1 a.1
  have hperm : (t.selectDesc p).Perm (t.rows.filter p).reverse :=
    (List.mergeSort_perm _ _).trans (List.reverse_perm _).symm
  refine hperm.eq_of_pairwise ?_ hm hs
  -- Two rows of the table with equal numbers are the same row.
  intro a b ha hb hab hba
  have ha' := (List.mem_filter.1 ((List.mergeSort_perm _ _).mem_iff.1 ha)).1
  have hb' := (List.mem_filter.1 (List.mem_reverse.1 hb)).1
  have hnd : (t.rows.map Prod.fst).Nodup :=
    List.pairwise_map.2 (t.sorted.imp fun h => h.ne)
  exact List.inj_on_of_nodup_map hnd ha' hb' (le_antisymm hba hab)

theorem map_selectAsc (p : ρ → Bool) (t : Table ρ) :
    (t.selectAsc fun r => p r.2).map Prod.snd = t.contents.filter p := by
  rw [selectAsc_eq, contents, List.filter_map]
  rfl

theorem map_selectDesc (p : ρ → Bool) (t : Table ρ) :
    (t.selectDesc fun r => p r.2).map Prod.snd = (t.contents.filter p).reverse := by
  rw [selectDesc_eq, List.map_reverse, contents, List.filter_map]
  rfl

/-- The rows numbered below a row are those before it. -/
theorem map_filter_lt {key : ρ → κ} {k : κ} {t : Table ρ} {n : ℕ} {x : ρ}
    (h : t.selectOne (fun y => key y = k) = some (n, x)) (q : ρ → Bool) :
    (t.rows.filter fun r => q r.2 && r.1 < n).map Prod.snd =
      (Keyed.before key (some k) t.contents).filter q := by
  have hs := t.sorted
  unfold selectOne at h
  unfold contents
  generalize t.rows = rows at h hs
  induction rows with
  | nil => simp at h
  | cons r rows ih =>
    obtain ⟨hr, hs⟩ := List.pairwise_cons.1 hs
    by_cases hp : key r.2 = k
    · obtain rfl : r = (n, x) := by simpa [List.find?_cons, hp] using h
      have hnone : ∀ a ∈ (n, x) :: rows, ¬(q a.2 && decide (a.1 < n)) = true := by
        intro a ha
        rcases List.mem_cons.1 ha with rfl | ha
        · simp
        · have := hr a ha
          simp only [Bool.and_eq_true, decide_eq_true_eq]
          omega
      rw [List.filter_eq_nil_iff.2 hnone, List.map_cons, Keyed.before_cons_of_eq hp]
      rfl
    · have h : rows.find? (fun r => key r.2 = k) = some (n, x) := by
        simpa [List.find?_cons, hp] using h
      have hlt : r.1 < n := hr (n, x) (List.mem_of_find?_eq_some h)
      have ih := ih h hs
      rw [List.map_cons, Keyed.before_cons_of_ne hp, List.filter_cons, List.filter_cons]
      simp only [hlt, decide_true, Bool.and_true]
      split_ifs <;> simp [ih]

theorem map_selectOne (p : ρ → Bool) (t : Table ρ) :
    (t.selectOne p).map Prod.snd = t.contents.find? p := by
  rw [selectOne, contents, List.find?_map]
  rfl

end Table

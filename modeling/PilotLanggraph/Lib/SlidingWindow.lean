import Mathlib.Algebra.Order.Group.Defs
import Mathlib.Data.List.TakeWhile

/-!
# Sliding windows

A limiter keeps a window of timestamps. At each reading of the clock it drops from the front
what is older than `width`, and takes the reading in if fewer than `limit` timestamps are left.
`Spaced` relates the window to all timestamps ever taken : what was dropped is too old to be
in an interval with a later reading, so no closed interval of length `width`, wherever it
lies, has more than `limit` of them. `Pruned` says that nothing else was dropped : at a reading
of the clock the window is what was taken in the interval of length `width` that ends there.
-/

namespace SlidingWindow

variable {T : Type*} [LinearOrder T]

/-- A sorted list without what is older than `lo` at its front has nothing older than `lo`. -/
theorem dropWhile_lt_eq_filter (lo : T) {ts : List T} (h : ts.Pairwise (· ≤ ·)) :
    ts.dropWhile (fun t => t < lo) = ts.filter fun t => lo ≤ t := by
  induction ts with
  | nil => rfl
  | cons t ts ih =>
    obtain ⟨ht, hrest⟩ := List.pairwise_cons.1 h
    by_cases hlt : t < lo
    · rw [List.dropWhile_cons_of_pos (by simpa using hlt), ih hrest,
        List.filter_cons_of_neg (by simpa using hlt)]
    · have hall : ∀ u ∈ t :: ts, decide (lo ≤ u) = true := by
        intro u hu
        rcases List.mem_cons.1 hu with rfl | hu
        · simpa using hlt
        · simpa using (not_lt.1 hlt).trans (ht u hu)
      rw [List.dropWhile_cons_of_neg (by simpa using hlt), List.filter_eq_self.2 hall]

variable [AddCommGroup T]

/-- The timestamps in the closed interval of length `width` that starts at `lo`. -/
def between (width lo : T) (ts : List T) : List T :=
  ts.filter fun t => lo ≤ t ∧ t ≤ lo + width

/-- The readings `seen` so far, the timestamps `taken`, and the `window` that is left. -/
structure Spaced (limit : ℤ) (width : T) (seen taken window : List T) : Prop where
  dropped : ∃ old, taken = old ++ window ∧ ∀ t ∈ old, ∃ now ∈ seen, t < now - width
  sparse : ∀ lo, ((between width lo taken).length : ℤ) ≤ limit

variable {limit : ℤ} {width now : T} {seen taken window : List T}

theorem spaced_nil (hlimit : 0 ≤ limit) (seen : List T) : Spaced limit width seen [] [] :=
  ⟨⟨[], rfl, by simp⟩, fun _ => hlimit⟩

/-- A reading that asks for nothing. -/
theorem Spaced.mono (h : Spaced limit width seen taken window) {seen' : List T}
    (hseen : seen ⊆ seen') : Spaced limit width seen' taken window := by
  obtain ⟨old, htaken, hold⟩ := h.dropped
  refine ⟨⟨old, htaken, fun t ht => ?_⟩, h.sparse⟩
  obtain ⟨now, hnow, hlt⟩ := hold t ht
  exact ⟨now, hseen hnow, hlt⟩

/-- The window keeps all that is not too old, in order. -/
structure Pruned (width : T) (seen taken window : List T) : Prop where
  dropped : ∃ old, taken = old ++ window ∧ ∀ t ∈ old, ∃ now ∈ seen, t < now - width
  sorted : taken.Pairwise (· ≤ ·)
  taken_seen : taken ⊆ seen

theorem pruned_nil (width : T) (seen : List T) : Pruned width seen [] [] :=
  ⟨⟨[], rfl, by simp⟩, .nil, List.nil_subset seen⟩

theorem Pruned.mono (h : Pruned width seen taken window) {seen' : List T} (hseen : seen ⊆ seen') :
    Pruned width seen' taken window := by
  obtain ⟨old, htaken, hold⟩ := h.dropped
  refine ⟨⟨old, htaken, fun t ht => ?_⟩, h.sorted, List.Subset.trans h.taken_seen hseen⟩
  obtain ⟨now, hnow, hlt⟩ := hold t ht
  exact ⟨now, hseen hnow, hlt⟩

/-- The window is sorted. -/
theorem Pruned.pairwise (h : Pruned width seen taken window) : window.Pairwise (· ≤ ·) := by
  obtain ⟨old, rfl, -⟩ := h.dropped
  exact (List.pairwise_append.1 h.sorted).2.1

variable [IsOrderedAddMonoid T]

/-- At a later reading everything dropped so far, and all that is dropped now, is too old. -/
theorem exists_dropped
    (h : ∃ old, taken = old ++ window ∧ ∀ t ∈ old, ∃ now ∈ seen, t < now - width)
    (hclock : ∀ t ∈ seen, t ≤ now) :
    ∃ old, taken = old ++ window.dropWhile (fun t => t < now - width) ∧
      ∀ t ∈ old, t < now - width := by
  obtain ⟨old, htaken, hold⟩ := h
  refine ⟨old ++ window.takeWhile (fun t => t < now - width), ?_, fun t ht => ?_⟩
  · rw [List.append_assoc, List.takeWhile_append_dropWhile, htaken]
  · rcases List.mem_append.1 ht with ht | ht
    · obtain ⟨t', ht', hlt⟩ := hold t ht
      exact hlt.trans_le (sub_le_sub_right (hclock t' ht') width)
    · simpa using List.mem_takeWhile_imp ht

/-- The window is full. -/
theorem Spaced.refuse (h : Spaced limit width seen taken window) (hclock : ∀ t ∈ seen, t ≤ now) :
    Spaced limit width (seen ++ [now]) taken (window.dropWhile fun t => t < now - width) := by
  obtain ⟨old, htaken, hold⟩ := exists_dropped h.dropped hclock
  exact ⟨⟨old, htaken, fun t ht => ⟨now, by simp, hold t ht⟩⟩, h.sparse⟩

/-- The reading is taken. An interval with it in reaches back by `width` at most, so it has
only timestamps that are left in the window. -/
theorem Spaced.take (h : Spaced limit width seen taken window) (hclock : ∀ t ∈ seen, t ≤ now)
    (hroom : ((window.dropWhile fun t => t < now - width).length : ℤ) < limit) :
    Spaced limit width (seen ++ [now]) (taken ++ [now])
      ((window.dropWhile fun t => t < now - width) ++ [now]) := by
  obtain ⟨old, htaken, hold⟩ := exists_dropped h.dropped hclock
  refine ⟨⟨old, by rw [← List.append_assoc, ← htaken], fun t ht => ⟨now, by simp, hold t ht⟩⟩,
    fun lo => ?_⟩
  by_cases hin : lo ≤ now ∧ now ≤ lo + width
  · have hold' : between width lo old = [] := by
      refine List.filter_eq_nil_iff.2 fun t ht hmem => ?_
      have hlo : lo ≤ t := (of_decide_eq_true hmem).1
      exact absurd (hlo.trans_lt (hold t ht)) (sub_le_iff_le_add.2 hin.2).not_gt
    have hle : (between width lo taken).length ≤
        (window.dropWhile fun t => t < now - width).length := by
      rw [htaken, between, List.filter_append]
      change (between width lo old ++ _).length ≤ _
      rw [hold', List.nil_append]
      exact List.length_filter_le ..
    have hlast : between width lo [now] = [now] := by simp [between, hin]
    rw [between, List.filter_append, List.length_append]
    change (((between width lo taken).length + (between width lo [now]).length : ℕ) : ℤ) ≤ limit
    rw [hlast, List.length_singleton]
    omega
  · have hlast : between width lo [now] = [] := by
      simp only [between, List.filter_cons, hin, decide_false, List.filter_nil]
      rfl
    rw [between, List.filter_append]
    change ((between width lo taken ++ between width lo [now]).length : ℤ) ≤ limit
    rw [hlast, List.append_nil]
    exact h.sparse lo

/-- At a reading of the clock the window is what was taken in the interval that ends there. -/
theorem Pruned.window_eq (h : Pruned width seen taken window) (hclock : ∀ t ∈ seen, t ≤ now) :
    window.dropWhile (fun t => t < now - width) =
      taken.filter fun t => now - width ≤ t ∧ t ≤ now := by
  obtain ⟨old, htaken, hold⟩ := exists_dropped h.dropped hclock
  have hrecent : ∀ t ∈ window.dropWhile (fun t => t < now - width), now - width ≤ t := by
    rw [dropWhile_lt_eq_filter _ h.pairwise]
    intro t ht
    exact of_decide_eq_true (List.mem_filter.1 ht).2
  have hnow : ∀ t ∈ taken, t ≤ now := fun t ht => hclock t (h.taken_seen ht)
  rw [htaken] at hnow ⊢
  rw [List.filter_append, List.filter_eq_nil_iff.2, List.nil_append, List.filter_eq_self.2]
  · intro t ht
    exact decide_eq_true ⟨hrecent t ht, hnow t (List.mem_append_right _ ht)⟩
  · intro t ht
    have hlt := hold t ht
    simp only [decide_eq_true_eq]
    exact fun hin => absurd hin.1 (not_le.2 hlt)

/-- The reading is refused, -/
theorem Pruned.refuse (h : Pruned width seen taken window) (hclock : ∀ t ∈ seen, t ≤ now) :
    Pruned width (seen ++ [now]) taken (window.dropWhile fun t => t < now - width) := by
  obtain ⟨old, htaken, hold⟩ := exists_dropped h.dropped hclock
  exact ⟨⟨old, htaken, fun t ht => ⟨now, by simp, hold t ht⟩⟩, h.sorted,
    List.Subset.trans h.taken_seen (List.subset_append_left seen [now])⟩

/-- or taken. -/
theorem Pruned.take (h : Pruned width seen taken window) (hclock : ∀ t ∈ seen, t ≤ now) :
    Pruned width (seen ++ [now]) (taken ++ [now])
      ((window.dropWhile fun t => t < now - width) ++ [now]) := by
  obtain ⟨old, htaken, hold⟩ := exists_dropped h.dropped hclock
  refine ⟨⟨old, by rw [← List.append_assoc, ← htaken], fun t ht => ⟨now, by simp, hold t ht⟩⟩,
    ?_, ?_⟩
  · refine List.pairwise_append.2 ⟨h.sorted, List.pairwise_singleton _ _, fun t ht u hu => ?_⟩
    rw [List.mem_singleton.1 hu]
    exact hclock t (h.taken_seen ht)
  · exact List.append_subset.2
      ⟨List.Subset.trans h.taken_seen (List.subset_append_left seen [now]),
        List.subset_append_right seen [now]⟩

end SlidingWindow

import Mathlib.Data.List.Nodup
import Mathlib.Data.Set.Card

/-!
# The order of a list

`Precedes l d c` says that `d` stands before `c` in `l`. It is computed for lists that are
put together from others (`precedes_append`, `precedes_flatMap`, `precedes_reverse`,
`precedes_filter`). Two lists without repetitions start alike when what comes first in either
is also in the other, and in the second with nothing before it that does not precede it in the
first (`take_eq_take_iff_precedes`).
-/

namespace List

variable {α β : Type*} {l m : List α} {a c d : α}

/-- `d` stands before `c`. -/
def Precedes (l : List α) (d c : α) : Prop :=
  [d, c].Sublist l

theorem Precedes.mem_left (h : Precedes l d c) : d ∈ l :=
  h.subset (by simp)

theorem Precedes.mem_right (h : Precedes l d c) : c ∈ l :=
  h.subset (by simp)

theorem Precedes.ne (h : Precedes l d c) (hl : l.Nodup) : d ≠ c := by
  have hnd := hl.sublist h
  simpa using hnd

/-- Places grow along the list. -/
theorem pairwise_idxOf [DecidableEq α] (hl : l.Nodup) :
    l.Pairwise fun d c => l.idxOf d < l.idxOf c := by
  refine pairwise_iff_getElem.2 fun i j hi hj hij => ?_
  rwa [hl.idxOf_getElem, hl.idxOf_getElem]

theorem precedes_cons : Precedes (a :: l) d c ↔ Precedes l d c ∨ d = a ∧ c ∈ l := by
  unfold Precedes
  rw [sublist_cons_iff]
  constructor
  · rintro (h | ⟨r, hr, h⟩)
    · exact Or.inl h
    · obtain ⟨rfl, rfl⟩ := List.cons.inj hr
      exact Or.inr ⟨rfl, singleton_sublist.1 h⟩
  · rintro (h | ⟨rfl, h⟩)
    · exact Or.inl h
    · exact Or.inr ⟨[c], rfl, singleton_sublist.2 h⟩

theorem not_precedes_nil : ¬Precedes [] d c := by
  intro h
  cases h

theorem precedes_append :
    Precedes (l ++ m) d c ↔ Precedes l d c ∨ Precedes m d c ∨ d ∈ l ∧ c ∈ m := by
  induction l with
  | nil => simp [not_precedes_nil]
  | cons a l ih =>
    rw [cons_append, precedes_cons, ih, precedes_cons, mem_append, mem_cons, or_and_right,
      and_or_left]
    exact Iff.of_eq (by ac_rfl)

theorem precedes_reverse : Precedes l.reverse d c ↔ Precedes l c d := by
  unfold Precedes
  rw [← reverse_sublist, reverse_reverse]
  rfl

theorem precedes_filter {p : α → Bool} :
    Precedes (l.filter p) d c ↔ Precedes l d c ∧ p d = true ∧ p c = true := by
  induction l with
  | nil => simp [not_precedes_nil]
  | cons a l ih =>
    by_cases ha : p a = true
    · rw [filter_cons_of_pos ha, precedes_cons, precedes_cons, ih, mem_filter]
      constructor
      · rintro (⟨h, hp⟩ | ⟨rfl, h, hc⟩)
        · exact ⟨Or.inl h, hp⟩
        · exact ⟨Or.inr ⟨rfl, h⟩, ha, hc⟩
      · rintro ⟨h | ⟨rfl, h⟩, hd, hc⟩
        · exact Or.inl ⟨h, hd, hc⟩
        · exact Or.inr ⟨rfl, h, hc⟩
    · rw [filter_cons_of_neg ha, precedes_cons, ih]
      constructor
      · rintro ⟨h, hp⟩
        exact ⟨Or.inl h, hp⟩
      · rintro ⟨h | ⟨rfl, -⟩, hd, hc⟩
        · exact ⟨h, hd, hc⟩
        · exact absurd hd ha

/-- In lists one after the other : inside one of them, or from an earlier to a later one. -/
theorem precedes_flatMap {ks : List β} {f : β → List α} :
    Precedes (ks.flatMap f) d c ↔
      (∃ k ∈ ks, Precedes (f k) d c) ∨ ∃ k k', Precedes ks k k' ∧ d ∈ f k ∧ c ∈ f k' := by
  induction ks with
  | nil => simp [not_precedes_nil]
  | cons k₀ ks ih =>
    rw [flatMap_cons, precedes_append, ih]
    constructor
    · rintro (h | (⟨k, hk, h⟩ | ⟨k, k', hk, h⟩) | ⟨hd, hc⟩)
      · exact Or.inl ⟨k₀, by simp, h⟩
      · exact Or.inl ⟨k, mem_cons_of_mem _ hk, h⟩
      · exact Or.inr ⟨k, k', precedes_cons.2 (Or.inl hk), h⟩
      · obtain ⟨k', hk', hc⟩ := mem_flatMap.1 hc
        exact Or.inr ⟨k₀, k', precedes_cons.2 (Or.inr ⟨rfl, hk'⟩), hd, hc⟩
    · rintro (⟨k, hk, h⟩ | ⟨k, k', hk, hd, hc⟩)
      · rcases mem_cons.1 hk with rfl | hk
        · exact Or.inl h
        · exact Or.inr (Or.inl (Or.inl ⟨k, hk, h⟩))
      · rcases precedes_cons.1 hk with hk | ⟨rfl, hk'⟩
        · exact Or.inr (Or.inl (Or.inr ⟨k, k', hk, hd, hc⟩))
        · exact Or.inr (Or.inr ⟨hd, mem_flatMap.2 ⟨k', hk', hc⟩⟩)

theorem not_precedes_head (hl : (a :: l).Nodup) : ¬Precedes (a :: l) d a := by
  intro h
  rcases precedes_cons.1 h with h | ⟨-, h⟩
  · exact (nodup_cons.1 hl).1 h.mem_right
  · exact (nodup_cons.1 hl).1 h

/-- The first `n` are those with fewer than `n` before them. -/
theorem mem_take_iff_ncard (hl : l.Nodup) (n : ℕ) :
    c ∈ l.take n ↔ c ∈ l ∧ {d | Precedes l d c}.ncard < n := by
  induction l generalizing n with
  | nil => simp
  | cons a l ih =>
    cases n with
    | zero => simp
    | succ n =>
      have hnd := nodup_cons.1 hl
      rw [take_succ_cons, mem_cons, mem_cons]
      by_cases hc : c = a
      · subst hc
        have hnone : {d | Precedes (c :: l) d c} = ∅ :=
          Set.eq_empty_iff_forall_notMem.2 fun d => not_precedes_head hl
        simp [hnone]
      · by_cases hmem : c ∈ l
        · have hset : {d | Precedes (a :: l) d c} = insert a {d | Precedes l d c} := by
            ext d
            simp only [Set.mem_ofPred_eq, Set.mem_insert_iff, precedes_cons, hmem, and_true]
            exact Or.comm
          have hfin : {d | Precedes l d c}.Finite :=
            (finite_toSet l).subset fun d hd => Precedes.mem_left hd
          have hnot : a ∉ {d | Precedes l d c} := fun h => hnd.1 (Precedes.mem_left h)
          rw [hset, Set.ncard_insert_of_notMem hnot hfin, ih hnd.2]
          simp [hc]
        · have hnot : c ∉ l.take n := fun h => hmem (mem_of_mem_take h)
          simp [hc, hmem, hnot]

/-- Two lists start alike when what comes first in the one is in the other, and preceded
there by nothing new, and what comes first in the other is in the one. -/
theorem take_eq_take_iff_precedes (hl : l.Nodup) (hm : m.Nodup) (n : ℕ) :
    m.take n = l.take n ↔
      (∀ c ∈ l.take n, c ∈ m ∧ ∀ d, Precedes m d c → Precedes l d c) ∧ ∀ c ∈ m.take n, c ∈ l := by
  induction l generalizing m n with
  | nil => simp [eq_nil_iff_forall_not_mem]
  | cons a l ih =>
    cases n with
    | zero => simp
    | succ n =>
      obtain ⟨ha, hl'⟩ := nodup_cons.1 hl
      -- Either way `m` starts with `a`.
      by_cases hhead : ∃ m', m = a :: m'
      · obtain ⟨m', rfl⟩ := hhead
        obtain ⟨ha', hm'⟩ := nodup_cons.1 hm
        rw [take_succ_cons, take_succ_cons, cons.injEq, and_iff_right rfl, ih hl' hm' n,
          forall_mem_cons, forall_mem_cons]
        have hfirst : a ∈ a :: m' ∧ ∀ d, Precedes (a :: m') d a → Precedes (a :: l) d a :=
          ⟨by simp, fun d hd => absurd hd (not_precedes_head hm)⟩
        rw [and_iff_right hfirst, and_iff_right (mem_cons_self : a ∈ a :: l)]
        refine and_congr (forall₂_congr fun c hc => ?_) (forall₂_congr fun c hc => ?_)
        · have hca : c ≠ a := fun h => ha (h ▸ mem_of_mem_take hc)
          rw [mem_cons, or_iff_right hca]
          refine and_congr_right fun hcm => forall_congr' fun d => ?_
          rw [precedes_cons, precedes_cons]
          constructor
          · rintro h (hd | ⟨rfl, -⟩)
            · exact Or.inl (h hd)
            · exact Or.inr ⟨rfl, mem_of_mem_take hc⟩
          · intro h hd
            refine (h (Or.inl hd)).resolve_right ?_
            rintro ⟨rfl, -⟩
            exact ha' hd.mem_left
        · have hca : c ≠ a := fun h => ha' (h ▸ mem_of_mem_take hc)
          rw [mem_cons, or_iff_right hca]
      · refine iff_of_false (fun h => ?_) fun h => ?_
        · cases m with
          | nil => simp at h
          | cons b m =>
            rw [take_succ_cons, take_succ_cons] at h
            exact hhead ⟨m, by rw [(cons.inj h).1]⟩
        · obtain ⟨hmem, hprec⟩ := h.1 a (by simp)
          cases m with
          | nil => cases hmem
          | cons b m =>
            rcases mem_cons.1 hmem with rfl | hmem
            · exact hhead ⟨m, rfl⟩
            · exact not_precedes_head hl (hprec b (precedes_cons.2 (Or.inr ⟨rfl, hmem⟩)))

theorem eq_iff_precedes (hl : l.Nodup) (hm : m.Nodup) :
    m = l ↔ (∀ c ∈ l, c ∈ m ∧ ∀ d, Precedes m d c → Precedes l d c) ∧ ∀ c ∈ m, c ∈ l := by
  have htake := take_eq_take_iff_precedes hl hm (l.length + m.length)
  rwa [take_of_length_le (Nat.le_add_left _ _), take_of_length_le (Nat.le_add_right _ _)] at htake

end List

import Mathlib.Data.List.Basic

/-!
# Lines of a stream

`split` cuts a list at every separator into complete lines and an open rest. Of a prefix
of a stream of lines it returns the lines that are complete in the prefix, and what is
left over continues with the rest of the stream as the stream of the other lines
(`split_of_append`).
-/

namespace Framing

variable {α : Type*} (sep : α)

/-- Lines, each with its separator. -/
def join (lines : List (List α)) : List α :=
  lines.flatMap fun line => line ++ [sep]

theorem join_cons {sep : α} (line : List α) (lines : List (List α)) :
    join sep (line :: lines) = line ++ sep :: join sep lines := by
  simp [join]

variable [DecidableEq α]

/-- The complete lines, and what follows the last separator. -/
def split : List α → List (List α) × List α
  | [] => ([], [])
  | a :: l =>
    if a = sep then ([] :: (split l).1, (split l).2)
    else
      match split l with
      | ([], rest) => ([], a :: rest)
      | (line :: lines, rest) => ((a :: line) :: lines, rest)

variable {sep}

theorem split_of_not_mem : ∀ {l : List α}, sep ∉ l → split sep l = ([], l)
  | [], _ => rfl
  | a :: l, h => by
    rw [List.mem_cons, not_or] at h
    rw [split, if_neg (Ne.symm h.1), split_of_not_mem h.2]

theorem split_append_sep : ∀ {line : List α}, sep ∉ line → ∀ rest : List α,
    split sep (line ++ sep :: rest) = (line :: (split sep rest).1, (split sep rest).2)
  | [], _, rest => by rw [List.nil_append, split, if_pos rfl]
  | a :: line, h, rest => by
    rw [List.mem_cons, not_or] at h
    rw [List.cons_append, split, if_neg (Ne.symm h.1), split_append_sep h.2]

/-- A whole stream of lines. -/
theorem split_join : ∀ {lines : List (List α)}, (∀ line ∈ lines, sep ∉ line) →
    split sep (join sep lines) = (lines, [])
  | [], _ => rfl
  | line :: lines, hsep => by
    rw [List.forall_mem_cons] at hsep
    rw [join_cons, split_append_sep hsep.1, split_join hsep.2]

/-- A prefix of a stream of lines : the lines complete in it, and the start of the next. -/
theorem split_of_append : ∀ {lines : List (List α)}, (∀ line ∈ lines, sep ∉ line) →
    ∀ {l r : List α}, l ++ r = join sep lines → ∃ j rest, split sep l = (lines.take j, rest) ∧
      j ≤ lines.length ∧ sep ∉ rest ∧ rest ++ r = join sep (lines.drop j) ∧
      l = join sep (lines.take j) ++ rest
  | [], _, l, r, h => by
    obtain ⟨rfl, rfl⟩ := List.append_eq_nil_iff.1 h
    exact ⟨0, [], rfl, Nat.le_refl _, by simp, rfl, rfl⟩
  | line :: lines, hsep, l, r, h => by
    rw [List.forall_mem_cons] at hsep
    rw [join_cons] at h
    rcases List.append_eq_append_iff.1 h with ⟨a, hline, hr⟩ | ⟨a, hl, ha⟩
    · -- The prefix ends inside the first line, or just before its separator.
      have hl : sep ∉ l := fun hmem => hsep.1 (by rw [hline]; exact List.mem_append_left _ hmem)
      refine ⟨0, l, ?_, Nat.zero_le _, hl, ?_, rfl⟩
      · rw [split_of_not_mem hl]
        rfl
      · rw [List.drop_zero, join_cons, h]
    · cases a with
      | nil =>
        have hl' : sep ∉ l := by
          rw [hl, List.append_nil]
          exact hsep.1
        refine ⟨0, l, ?_, Nat.zero_le _, hl', ?_, rfl⟩
        · rw [split_of_not_mem hl']
          rfl
        · rw [List.drop_zero, join_cons, h]
      | cons b a =>
        rw [List.cons_append, List.cons.injEq] at ha
        obtain ⟨rfl, ha⟩ := ha
        obtain ⟨j, rest, hsplit, hj, hrest, hjoin, hcut⟩ := split_of_append hsep.2 ha.symm
        refine ⟨j + 1, rest, ?_, Nat.succ_le_succ hj, hrest, hjoin, ?_⟩
        · rw [hl, split_append_sep hsep.1, hsplit]
          rfl
        · rw [hl, hcut, List.take_succ_cons, join_cons]
          simp

end Framing

import Mathlib.Data.List.Induction
import Mathlib.Data.List.Nodup
import Mathlib.Data.List.TakeWhile

/-!
# Lists with at most one row per key

Two ways of adding a row to a list whose rows have distinct keys. `replace` drops the
row with the same key and puts the new row at the end; `insertNew` keeps the row that
is there. Both act inside the group of rows a predicate selects as they act on the
whole list (`filter_replace`, `filter_insertNew`). `before` are the rows in front of the
row with a given key.
-/

namespace Keyed

variable {α κ : Type*} [DecidableEq κ] (key : α → κ)

/-- The rows have distinct keys. -/
def Distinct (l : List α) : Prop :=
  (l.map key).Nodup

/-- Drop the row with the key of `x`, and put `x` at the end. -/
def replace (x : α) (l : List α) : List α :=
  l.filter (fun y => key y ≠ key x) ++ [x]

/-- Put `x` at the end, unless there is a row with its key. -/
def insertNew (x : α) (l : List α) : List α :=
  if l.any (fun y => key y = key x) then l else l ++ [x]

/-- The rows before the one with key `k`, if there is one. -/
def before (k : Option κ) (l : List α) : List α :=
  match k with
  | some k => l.takeWhile fun y => !decide (key y = k)
  | none => l

variable {key}

theorem mem_replace {x y : α} {l : List α} :
    y ∈ replace key x l ↔ (y ∈ l ∧ key y ≠ key x) ∨ y = x := by
  simp [replace]

theorem distinct_replace {l : List α} (h : Distinct key l) (x : α) :
    Distinct key (replace key x l) := by
  have hsub : ((l.filter fun y => key y ≠ key x).map key).Nodup :=
    h.sublist (List.filter_sublist.map key)
  rw [Distinct, replace, List.map_append]
  refine List.nodup_append.2 ⟨hsub, List.nodup_singleton _, ?_⟩
  rintro a ha b hb rfl
  obtain ⟨y, hy, rfl⟩ := List.mem_map.1 ha
  exact (of_decide_eq_true (List.mem_filter.1 hy).2) (List.mem_singleton.1 hb)

/-- What is there after some replacements was there before or was put. -/
theorem mem_of_mem_foldl_replace {y : α} : ∀ {xs l : List α},
    y ∈ xs.foldl (fun l x => replace key x l) l → y ∈ xs ∨ y ∈ l
  | [], _, h => .inr h
  | x :: xs, l, h => by
    have hrest : y ∈ xs ∨ y ∈ replace key x l := mem_of_mem_foldl_replace h
    rcases hrest with h | h
    · exact .inl (List.mem_cons_of_mem _ h)
    · rcases mem_replace.1 h with ⟨h, -⟩ | rfl
      · exact .inr h
      · exact .inl List.mem_cons_self

theorem getLast?_replace (x : α) (l : List α) : (replace key x l).getLast? = some x := by
  simp [replace]

/-- Nothing changes when `x` is the last row already. -/
theorem replace_eq_self_iff {x : α} {l : List α} (h : Distinct key l) :
    replace key x l = l ↔ l.getLast? = some x := by
  constructor
  · intro he
    rw [← he, getLast?_replace]
  · intro hl
    obtain ⟨l', rfl⟩ := List.getLast?_eq_some_iff.1 hl
    rw [Distinct, List.map_append, List.nodup_append] at h
    have hne : ∀ y ∈ l', key y ≠ key x := fun y hy =>
      h.2.2 _ (List.mem_map_of_mem hy) _ (by simp)
    rw [replace, List.filter_append, List.filter_eq_self.2 fun y hy => decide_eq_true (hne y hy)]
    simp

theorem insertNew_of_mem {x y : α} {l : List α} (hy : y ∈ l) (hk : key y = key x) :
    insertNew key x l = l := by
  rw [insertNew, if_pos (List.any_eq_true.2 ⟨y, hy, by simpa using hk⟩)]

theorem insertNew_of_forall_ne {x : α} {l : List α} (h : ∀ y ∈ l, key y ≠ key x) :
    insertNew key x l = l ++ [x] := by
  rw [insertNew, if_neg]
  intro hany
  obtain ⟨y, hy, hk⟩ := List.any_eq_true.1 hany
  exact h y hy (of_decide_eq_true hk)

theorem insertNew_cases (key : α → κ) (x : α) (l : List α) :
    (∃ y ∈ l, key y = key x ∧ insertNew key x l = l) ∨
      ((∀ y ∈ l, key y ≠ key x) ∧ insertNew key x l = l ++ [x]) := by
  by_cases h : ∃ y ∈ l, key y = key x
  · obtain ⟨y, hy, hk⟩ := h
    exact Or.inl ⟨y, hy, hk, insertNew_of_mem hy hk⟩
  · have h' : ∀ y ∈ l, key y ≠ key x := fun y hy hk => h ⟨y, hy, hk⟩
    exact Or.inr ⟨h', insertNew_of_forall_ne h'⟩

theorem distinct_insertNew {l : List α} (h : Distinct key l) (x : α) :
    Distinct key (insertNew key x l) := by
  rcases insertNew_cases key x l with ⟨-, -, -, he⟩ | ⟨hne, he⟩
  · rw [he]
    exact h
  · rw [he, Distinct, List.map_append]
    refine List.nodup_append.2 ⟨h, List.nodup_singleton _, ?_⟩
    rintro a ha b hb rfl
    obtain ⟨y, hy, rfl⟩ := List.mem_map.1 ha
    exact hne y hy (List.mem_singleton.1 hb)

/-- After `insertNew` there is a row with the key of `x`. -/
theorem exists_mem_insertNew (x : α) (l : List α) : ∃ y ∈ insertNew key x l, key y = key x := by
  rcases insertNew_cases key x l with ⟨y, hy, hk, he⟩ | ⟨-, he⟩
  · exact ⟨y, by rw [he]; exact hy, hk⟩
  · exact ⟨x, by rw [he]; simp, rfl⟩

/-- Rows that are there stay. -/
theorem mem_insertNew_of_mem {x y : α} {l : List α} (hy : y ∈ l) : y ∈ insertNew key x l := by
  unfold insertNew
  split_ifs
  · exact hy
  · exact List.mem_append_left _ hy

/-- Inside a group that the key decides, `replace` acts as on the whole list. -/
theorem filter_replace (p : α → Bool) (x : α) (l : List α)
    (hp : ∀ y ∈ l, key y = key x → p y = p x) : (replace key x l).filter p =
      if p x then replace key x (l.filter p) else l.filter p := by
  rw [replace, List.filter_append, List.filter_filter]
  by_cases hx : p x = true
  · rw [if_pos hx, replace, List.filter_filter]
    congr 1
    · exact List.filter_congr fun y _ => Bool.and_comm _ _
    · simp [hx]
  · rw [if_neg hx, List.filter_cons_of_neg hx, List.filter_nil, List.append_nil]
    refine List.filter_congr fun y hy => ?_
    by_cases hk : key y = key x
    · have hpy : p y = false := by rw [hp y hy hk]; simpa using hx
      simp [hpy]
    · simp [hk]

/-- Rows of a group with distinct keys stay as they were put. -/
theorem filter_foldl_replace (p : α → Bool) (hp : ∀ x y, key y = key x → p y = p x)
    {xs : List α} (h : Distinct key (xs.filter p)) :
    (xs.foldl (fun l x => replace key x l) []).filter p = xs.filter p := by
  induction xs using List.reverseRecOn with
  | nil => rfl
  | append_singleton xs x ih =>
    rw [Distinct, List.filter_append, List.map_append] at h
    obtain ⟨hxs, -, hfresh⟩ := List.nodup_append.1 h
    rw [List.foldl_append, List.foldl_cons, List.foldl_nil,
      filter_replace p x _ fun y _ => hp x y, ih hxs, List.filter_append]
    by_cases hx : p x = true
    · have hne : ∀ y ∈ xs.filter p, key y ≠ key x := fun y hy =>
        hfresh _ (List.mem_map_of_mem hy) _ (by simp [hx])
      rw [if_pos hx, replace, List.filter_eq_self.2 fun y hy => decide_eq_true (hne y hy)]
      simp [hx]
    · simp [hx]

/-- Inside a group that the key decides, `insertNew` acts as on the whole list. -/
theorem filter_insertNew (p : α → Bool) (x : α) (l : List α)
    (hp : ∀ y ∈ l, key y = key x → p y = p x) : (insertNew key x l).filter p =
      if p x then insertNew key x (l.filter p) else l.filter p := by
  rcases insertNew_cases key x l with ⟨y, hy, hk, he⟩ | ⟨hne, he⟩
  · rw [he]
    by_cases hx : p x = true
    · rw [if_pos hx, insertNew_of_mem (List.mem_filter.2 ⟨hy, by rw [hp y hy hk, hx]⟩) hk]
    · rw [if_neg hx]
  · rw [he, List.filter_append]
    by_cases hx : p x = true
    · rw [if_pos hx, insertNew_of_forall_ne fun y hy => hne y (List.mem_filter.1 hy).1]
      simp [hx]
    · rw [if_neg hx]
      simp [hx]

/-- A look-up after `replace`, for rows that the predicate tells apart as the key does. -/
theorem find?_replace (p : α → Bool) (x : α) (l : List α)
    (hp : ∀ y ∈ l, (p x = true → p y = true → key y = key x) ∧ (key y = key x → p y = p x)) :
    (replace key x l).find? p = if p x then some x else l.find? p := by
  rw [← List.head?_filter, ← List.head?_filter,
    filter_replace p x l fun y hy => (hp y hy).2]
  by_cases hx : p x = true
  · have hnil : (l.filter p).filter (fun y => key y ≠ key x) = [] := by
      refine List.filter_eq_nil_iff.2 fun y hy hne => ?_
      obtain ⟨hy, hpy⟩ := List.mem_filter.1 hy
      exact of_decide_eq_true hne ((hp y hy).1 hx hpy)
    rw [if_pos hx, if_pos hx, replace, hnil]
    rfl
  · rw [if_neg hx, if_neg hx]

/-- The row with a given key stays the one that came first. -/
theorem find?_insertNew (k : κ) (x : α) (l : List α) :
    (insertNew key x l).find? (fun y => key y = k) =
      (l.find? fun y => key y = k).or (if key x = k then some x else none) := by
  rcases insertNew_cases key x l with ⟨y, hy, hk, he⟩ | ⟨-, he⟩
  · rw [he]
    split_ifs with hx
    · have hsome : (l.find? fun y => key y = k).isSome :=
        List.find?_isSome.2 ⟨y, hy, decide_eq_true (hk.trans hx)⟩
      rw [Option.or_of_isSome hsome]
    · rw [Option.or_none]
  · rw [he, List.find?_append]
    congr 1
    split_ifs with hx
    · simp [hx]
    · simp [hx]

/-- Under one key there is one row. -/
theorem find?_key_of_mem {l : List α} (h : Distinct key l) {x : α} (hx : x ∈ l) :
    (l.find? fun y => key y = key x) = some x := by
  cases hf : l.find? fun y => key y = key x with
  | none => exact absurd (List.find?_eq_none.1 hf x hx) (by simp)
  | some y =>
    have hk : key y = key x := by simpa using List.find?_some hf
    rw [List.inj_on_of_nodup_map h (List.mem_of_find?_eq_some hf) hx hk]

/-- and the last row under it is the first. -/
theorem getLast?_filter_key (k : κ) : ∀ {l : List α}, Distinct key l →
    (l.filter fun y => key y = k).getLast? = l.find? fun y => key y = k
  | [], _ => rfl
  | y :: l, h => by
    obtain ⟨hy, hl⟩ := List.nodup_cons.1 h
    by_cases hk : key y = k
    · have hnil : (l.filter fun z => key z = k) = [] := by
        refine List.filter_eq_nil_iff.2 fun z hz hzk => hy ?_
        rw [hk, ← of_decide_eq_true hzk]
        exact List.mem_map_of_mem hz
      rw [List.filter_cons_of_pos (by simpa using hk), hnil,
        List.find?_cons_of_pos (by simpa using hk)]
      rfl
    · rw [List.filter_cons_of_neg (by simpa using hk), List.find?_cons_of_neg (by simpa using hk)]
      exact getLast?_filter_key k hl

/-- `replace` commutes with a map that keeps the keys. -/
theorem map_replace {β : Type*} (key : α → κ) (key' : β → κ) (f : α → β)
    (hf : ∀ y, key' (f y) = key y) (x : α) (l : List α) :
    (replace key x l).map f = replace key' (f x) (l.map f) := by
  simp [replace, List.filter_map, Function.comp_def, hf]

/-- `insertNew` commutes with a map that keeps the keys. -/
theorem map_insertNew {β : Type*} (key : α → κ) (key' : β → κ) (f : α → β)
    (hf : ∀ y, key' (f y) = key y) (x : α) (l : List α) :
    (insertNew key x l).map f = insertNew key' (f x) (l.map f) := by
  unfold insertNew
  simp only [List.any_map, Function.comp_def, hf]
  split_ifs <;> simp

theorem before_cons_of_eq {k : κ} {y : α} (h : key y = k) (l : List α) :
    before key (some k) (y :: l) = [] := by
  simp [before, h]

theorem before_cons_of_ne {k : κ} {y : α} (h : key y ≠ k) (l : List α) :
    before key (some k) (y :: l) = y :: before key (some k) l := by
  simp [before, h]

theorem mem_of_mem_before {k : Option κ} {l : List α} {y : α} (h : y ∈ before key k l) : y ∈ l := by
  cases k with
  | none => exact h
  | some k => exact List.takeWhile_subset _ h

theorem before_of_forall_ne {k : κ} {l : List α} (h : ∀ y ∈ l, key y ≠ k) :
    before key (some k) l = l :=
  List.takeWhile_eq_self_iff.2 fun y hy => by simpa using h y hy

theorem before_congr {κ' : Type*} [DecidableEq κ'] {key' : α → κ'} {k : κ} {k' : κ'} :
    ∀ {l : List α}, (∀ y ∈ l, key y = k ↔ key' y = k') →
      before key (some k) l = before key' (some k') l
  | [], _ => rfl
  | y :: l, h => by
    have ih := before_congr fun y hy => h y (List.mem_cons_of_mem _ hy)
    by_cases hk : key y = k
    · rw [before_cons_of_eq hk, before_cons_of_eq ((h y (by simp)).1 hk)]
    · rw [before_cons_of_ne hk, before_cons_of_ne fun e => hk ((h y (by simp)).2 e), ih]

/-- Before a row stand the rows in front of it. -/
theorem before_append_cons {x : α} : ∀ {l l' : List α}, Distinct key (l ++ x :: l') →
    before key (some (key x)) (l ++ x :: l') = l
  | [], l', _ => before_cons_of_eq rfl l'
  | y :: l, l', h => by
    obtain ⟨hy, hl⟩ := List.nodup_cons.1 h
    have hne : key y ≠ key x := by
      intro he
      exact hy (he ▸ List.mem_map_of_mem (by simp))
    rw [List.cons_append, before_cons_of_ne hne, before_append_cons hl]

/-- `before` commutes with a map that keeps the keys. -/
theorem map_before {β : Type*} (key : α → κ) (key' : β → κ) (f : α → β)
    (hf : ∀ y, key' (f y) = key y) (k : Option κ) (l : List α) :
    (before key k l).map f = before key' k (l.map f) := by
  cases k with
  | none => rfl
  | some k => simp only [before, List.takeWhile_map, Function.comp_def, hf]

/-- A cut at a row of a group cuts the group there. -/
theorem filter_before {p : α → Bool} {k : κ} (h : ∀ y, key y = k → p y = true) :
    ∀ l : List α, (before key (some k) l).filter p = before key (some k) (l.filter p)
  | [] => rfl
  | y :: l => by
    have ih := filter_before h l
    by_cases hk : key y = k
    · rw [List.filter_cons_of_pos (h y hk), before_cons_of_eq hk, before_cons_of_eq hk]
      rfl
    · by_cases hp : p y = true
      · simp [hp, before_cons_of_ne hk, ih]
      · simp [hp, before_cons_of_ne hk, ih]

/-- Read from the end, the keys after `k` are those before it. -/
theorem drop_idxOf_reverse {l : List κ} (hl : l.Nodup) {k : κ} (hk : k ∈ l) :
    l.reverse.drop (l.reverse.idxOf k + 1) = (before id (some k) l).reverse := by
  obtain ⟨a, b, rfl⟩ := List.append_of_mem hk
  have hb : k ∉ b := by
    intro hb
    exact (List.nodup_cons.1 (List.nodup_append.1 hl).2.1).1 hb
  have ha : ∀ y ∈ a, (!decide (y = k)) = true := by
    intro y hy
    have hne : y ≠ k := fun e => (List.nodup_append.1 hl).2.2 y hy k (by simp) e
    simpa using hne
  have hrev : (a ++ k :: b).reverse = b.reverse ++ k :: a.reverse := by simp
  simp only [before, id_eq]
  rw [hrev, List.idxOf_append_of_notMem (by simpa using hb), List.idxOf_cons_self,
    List.takeWhile_append_of_pos ha, Nat.add_zero, ← List.drop_drop, List.drop_left]
  simp

end Keyed

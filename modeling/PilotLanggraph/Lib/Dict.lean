import Mathlib.Data.List.Induction
import Mathlib.Data.List.Nodup

/-!
# Insertion-ordered dictionaries

A dictionary is a list of entries with distinct keys, in the order in which the keys
were first set. Setting a key that is present replaces its value in place; a new key
goes to the end. `Assoc` has the operations on raw entry lists, `Dict` bundles a list
with the fact that its keys are distinct.
-/

variable {κ β : Type*}

namespace Assoc

/-- The keys of an entry list, in order. -/
def keys (d : List (κ × β)) : List κ :=
  d.map Prod.fst

section

variable [DecidableEq κ]

/-- The value under `k`. -/
def get? (k : κ) : List (κ × β) → Option β
  | [] => none
  | (k', v) :: d => if k' = k then some v else get? k d

/-- `d[k] = v`. -/
def set (k : κ) (v : β) : List (κ × β) → List (κ × β)
  | [] => [(k, v)]
  | (k', v') :: d => if k' = k then (k, v) :: d else (k', v') :: set k v d

/-- `d.pop(k, None)`, without the value. -/
def erase (k : κ) (d : List (κ × β)) : List (κ × β) :=
  d.filter fun e => e.1 ≠ k

/-- The dictionary built from pairs, a later pair overriding an earlier one. -/
def ofPairs (ps : List (κ × β)) : List (κ × β) :=
  ps.foldl (fun d p => set p.1 p.2 d) []

theorem get?_set_self (k : κ) (v : β) : ∀ d : List (κ × β), get? k (set k v d) = some v
  | [] => by simp [set, get?]
  | (k', v') :: d => by
    by_cases h : k' = k
    · simp [set, get?, h]
    · simp [set, get?, h, get?_set_self k v d]

theorem get?_set_of_ne {k k₀ : κ} (v : β) (h : k₀ ≠ k) :
    ∀ d : List (κ × β), get? k₀ (set k v d) = get? k₀ d
  | [] => by simp [set, get?, h.symm]
  | (k', v') :: d => by
    by_cases h' : k' = k
    · subst h'
      simp [set, get?, h.symm]
    · simp [set, get?, h', get?_set_of_ne v h d]

/-- A test of the keys keeps or hides the whole entry. -/
theorem get?_filter (p : κ → Bool) (k : κ) :
    ∀ d : List (κ × β), get? k (d.filter fun e => p e.1) = if p k then get? k d else none
  | [] => by simp [get?]
  | (k', v') :: d => by
    have ih := get?_filter p k d
    by_cases hk : k' = k
    · subst hk
      cases hp : p k' <;> simp [hp, get?, ih]
    · cases hp : p k' <;> simp [hp, get?, hk, ih]

theorem get?_erase_self (k : κ) (d : List (κ × β)) : get? k (erase k d) = none :=
  (get?_filter (fun k' => k' ≠ k) k d).trans (if_neg (by simp))

theorem get?_erase_of_ne {k k₀ : κ} (h : k₀ ≠ k) (d : List (κ × β)) :
    get? k₀ (erase k d) = get? k₀ d :=
  (get?_filter (fun k' => k' ≠ k) k₀ d).trans (if_pos (by simp [h]))

/-- A key that is present keeps its place; a new key goes to the end. -/
theorem keys_set (k : κ) (v : β) :
    ∀ d : List (κ × β), keys (set k v d) = if k ∈ keys d then keys d else keys d ++ [k]
  | [] => by simp [set, keys]
  | (k', v') :: d => by
    have ih := keys_set k v d
    by_cases h : k' = k
    · simp [set, keys, h]
    · have h' : k ≠ k' := fun e => h e.symm
      simp only [set, h, if_false, keys, List.map_cons, List.mem_cons, h', false_or]
      simp only [keys] at ih
      rw [ih]
      by_cases hm : k ∈ d.map Prod.fst <;> simp [hm]

theorem nodup_set {k : κ} {v : β} {d : List (κ × β)} (h : (keys d).Nodup) :
    (keys (set k v d)).Nodup := by
  rw [keys_set]
  split_ifs with hk
  · exact h
  · exact List.nodup_append.2 ⟨h, List.nodup_singleton k, fun a ha b hb => by
      rw [List.mem_singleton.1 hb]
      exact fun e => hk (e ▸ ha)⟩

theorem get?_eq_none {k : κ} : ∀ {d : List (κ × β)}, get? k d = none ↔ k ∉ keys d
  | [] => by simp [get?, keys]
  | (k', v) :: d => by
    by_cases h : k' = k
    · simp [get?, keys, h]
    · have h' : k ≠ k' := fun e => h e.symm
      have ih := get?_eq_none (k := k) (d := d)
      simp only [keys] at ih
      simp [get?, keys, h, h', ih]

/-- A new key goes to the end of the entries. -/
theorem set_of_not_mem {k : κ} (v : β) :
    ∀ {d : List (κ × β)}, k ∉ keys d → set k v d = d ++ [(k, v)]
  | [], _ => rfl
  | (k', v') :: d, h => by
    simp only [keys, List.map_cons, List.mem_cons, not_or] at h
    rw [set, if_neg fun e => h.1 e.symm, set_of_not_mem v h.2, List.cons_append]

theorem mem_of_get? {k : κ} {v : β} : ∀ {d : List (κ × β)}, get? k d = some v → (k, v) ∈ d
  | (k', v') :: d, h => by
    by_cases hk : k' = k
    · rw [get?, if_pos hk, Option.some.injEq] at h
      rw [hk, h]
      exact List.mem_cons_self
    · rw [get?, if_neg hk] at h
      exact List.mem_cons_of_mem _ (mem_of_get? h)

theorem get?_of_mem {k : κ} {v : β} :
    ∀ {d : List (κ × β)}, (keys d).Nodup → (k, v) ∈ d → get? k d = some v
  | (k', v') :: d, hd, h => by
    rw [keys, List.map_cons, List.nodup_cons] at hd
    rcases List.mem_cons.1 h with h | h
    · obtain ⟨rfl, rfl⟩ := Prod.mk.inj h
      rw [get?, if_pos rfl]
    · have hk : k' ≠ k := fun hk => hd.1 (hk ▸ (List.mem_map_of_mem h : k ∈ d.map Prod.fst))
      rw [get?, if_neg hk]
      exact get?_of_mem hd.2 h

theorem get?_map {γ : Type*} (f : β → γ) (k : κ) :
    ∀ d : List (κ × β), get? k (d.map fun e => (e.1, f e.2)) = (get? k d).map f
  | [] => rfl
  | (k', v) :: d => by
    simp only [List.map_cons, get?, get?_map f k d]
    split_ifs <;> rfl

theorem foldl_set_of_nodup : ∀ (ps d : List (κ × β)), (keys (d ++ ps)).Nodup →
    ps.foldl (fun d p => set p.1 p.2 d) d = d ++ ps
  | [], d, _ => by simp
  | (k, v) :: ps, d, h => by
    have hk : k ∉ keys d := by
      intro hk
      rw [keys, List.map_append, List.map_cons, List.nodup_append] at h
      exact h.2.2 k hk k (by simp) rfl
    have h' : (keys ((d ++ [(k, v)]) ++ ps)).Nodup := by simpa using h
    rw [List.foldl_cons, set_of_not_mem v hk, foldl_set_of_nodup ps _ h']
    simp

/-- Pairs with distinct keys are their own dictionary. -/
theorem ofPairs_of_nodup {ps : List (κ × β)} (h : (keys ps).Nodup) : ofPairs ps = ps :=
  foldl_set_of_nodup ps [] h

end

end Assoc

/-- Entries with distinct keys. -/
structure Dict (κ β : Type*) where
  /-- Keys and values, in the order the keys were first set. -/
  entries : List (κ × β)
  nodup : (Assoc.keys entries).Nodup

namespace Dict

/-- The empty dictionary. -/
def empty : Dict κ β :=
  ⟨[], List.nodup_nil⟩

/-- Every value replaced, under its key. -/
def mapValues {γ : Type*} (d : Dict κ β) (f : β → γ) : Dict κ γ :=
  ⟨d.entries.map fun e => (e.1, f e.2), by
    have hkeys : Assoc.keys (d.entries.map fun e => (e.1, f e.2)) = Assoc.keys d.entries := by
      simp only [Assoc.keys, List.map_map]
      rfl
    exact hkeys ▸ d.nodup⟩

/-- The keys, in the order they were first set. -/
def keys (d : Dict κ β) : List κ :=
  Assoc.keys d.entries

@[simp] theorem keys_empty : (empty : Dict κ β).keys = [] :=
  rfl

@[simp] theorem keys_mapValues {γ : Type*} (d : Dict κ β) (f : β → γ) :
    (d.mapValues f).keys = d.keys := by
  simp only [keys, mapValues, Assoc.keys, List.map_map]
  rfl

section

variable [DecidableEq κ]

/-- The value under `k`. -/
def get? (d : Dict κ β) (k : κ) : Option β :=
  Assoc.get? k d.entries

/-- `d[k] = v`. -/
def set (d : Dict κ β) (k : κ) (v : β) : Dict κ β :=
  ⟨Assoc.set k v d.entries, Assoc.nodup_set d.nodup⟩

/-- `d.pop(k, None)`, without the value. -/
def erase (d : Dict κ β) (k : κ) : Dict κ β :=
  ⟨Assoc.erase k d.entries, d.nodup.sublist (List.filter_sublist.map _)⟩

/-- The entries whose key passes the test. -/
def filterKeys (d : Dict κ β) (p : κ → Bool) : Dict κ β :=
  ⟨d.entries.filter fun e => p e.1, d.nodup.sublist (List.filter_sublist.map _)⟩

@[simp] theorem get?_empty (k : κ) : (empty : Dict κ β).get? k = none :=
  rfl

@[simp] theorem get?_set_self (d : Dict κ β) (k : κ) (v : β) : (d.set k v).get? k = some v :=
  Assoc.get?_set_self k v d.entries

theorem get?_set_of_ne (d : Dict κ β) {k k₀ : κ} (v : β) (h : k₀ ≠ k) :
    (d.set k v).get? k₀ = d.get? k₀ :=
  Assoc.get?_set_of_ne v h d.entries

@[simp] theorem get?_erase_self (d : Dict κ β) (k : κ) : (d.erase k).get? k = none :=
  Assoc.get?_erase_self k d.entries

theorem get?_erase_of_ne (d : Dict κ β) {k k₀ : κ} (h : k₀ ≠ k) :
    (d.erase k).get? k₀ = d.get? k₀ :=
  Assoc.get?_erase_of_ne h d.entries

/-- What is left was there before. -/
theorem get?_of_erase {d : Dict κ β} {k k₀ : κ} {v : β} (h : (d.erase k).get? k₀ = some v) :
    d.get? k₀ = some v := by
  by_cases hk : k₀ = k
  · rw [hk, get?_erase_self] at h
    cases h
  · rwa [get?_erase_of_ne _ hk] at h

theorem get?_filterKeys (d : Dict κ β) (p : κ → Bool) (k : κ) :
    (d.filterKeys p).get? k = if p k then d.get? k else none :=
  Assoc.get?_filter p k d.entries

theorem keys_set (d : Dict κ β) (k : κ) (v : β) :
    (d.set k v).keys = if k ∈ d.keys then d.keys else d.keys ++ [k] :=
  Assoc.keys_set k v d.entries

theorem entries_set_ne_nil (d : Dict κ β) (k : κ) (v : β) : (d.set k v).entries ≠ [] := by
  intro hnil
  have hget := d.get?_set_self k v
  rw [get?, hnil] at hget
  cases hget

theorem get?_eq_none {d : Dict κ β} {k : κ} : d.get? k = none ↔ k ∉ d.keys :=
  Assoc.get?_eq_none

theorem get?_mapValues {γ : Type*} (d : Dict κ β) (f : β → γ) (k : κ) :
    (d.mapValues f).get? k = (d.get? k).map f :=
  Assoc.get?_map f k d.entries

theorem mem_entries {d : Dict κ β} {k : κ} {v : β} : (k, v) ∈ d.entries ↔ d.get? k = some v :=
  ⟨Assoc.get?_of_mem d.nodup, Assoc.mem_of_get?⟩

/-- `d.update(ps)`. -/
def update (d : Dict κ β) (ps : List (κ × β)) : Dict κ β :=
  ps.foldl (fun d p => d.set p.1 p.2) d

theorem update_append (d : Dict κ β) (ps qs : List (κ × β)) :
    d.update (ps ++ qs) = (d.update ps).update qs :=
  List.foldl_append

/-- The last pair of a key counts, or else what was there before. -/
theorem get?_update (d : Dict κ β) (ps : List (κ × β)) (k : κ) :
    (d.update ps).get? k = ((empty.update ps).get? k).or (d.get? k) := by
  induction ps using List.reverseRecOn with
  | nil => rfl
  | append_singleton ps p ih =>
    simp only [update_append]
    change ((d.update ps).set p.1 p.2).get? k =
      (((empty.update ps).set p.1 p.2).get? k).or (d.get? k)
    by_cases hk : k = p.1
    · rw [hk, get?_set_self, get?_set_self, Option.some_or]
    · rw [get?_set_of_ne _ _ hk, get?_set_of_ne _ _ hk, ih]

/-- The value of a key is one of its values. -/
theorem mem_of_get?_update {ps : List (κ × β)} {k : κ} {v : β}
    (h : ((empty : Dict κ β).update ps).get? k = some v) : (k, v) ∈ ps := by
  induction ps using List.reverseRecOn with
  | nil => cases h
  | append_singleton ps p ih =>
    rw [update_append] at h
    change ((empty.update ps).set p.1 p.2).get? k = some v at h
    by_cases hk : k = p.1
    · rw [hk, get?_set_self, Option.some.injEq] at h
      rw [hk, ← h]
      exact List.mem_append_right _ (List.mem_singleton_self _)
    · rw [get?_set_of_ne _ _ hk] at h
      exact List.mem_append_left _ (ih h)

theorem get?_update_eq_none {ps : List (κ × β)} {k : κ} :
    ((empty : Dict κ β).update ps).get? k = none ↔ k ∉ ps.map Prod.fst := by
  induction ps using List.reverseRecOn with
  | nil => simp [update]
  | append_singleton ps p ih =>
    rw [update_append]
    change ((empty.update ps).set p.1 p.2).get? k = none ↔ _
    by_cases hk : k = p.1
    · simp [hk]
    · rw [get?_set_of_ne _ _ hk, ih]
      simp [hk]

/-- `d.update(e)`, for a dictionary `e`. -/
theorem get?_update_entries (d e : Dict κ β) (k : κ) :
    (d.update e.entries).get? k = (e.get? k).or (d.get? k) := by
  have hself : ((empty : Dict κ β).update e.entries).get? k = e.get? k := by
    cases he : e.get? k with
    | none =>
      rw [get?_update_eq_none]
      exact get?_eq_none.1 he
    | some v =>
      cases hu : ((empty : Dict κ β).update e.entries).get? k with
      | none =>
        rw [get?_update_eq_none] at hu
        exact absurd (List.mem_map_of_mem (mem_entries.2 he)) hu
      | some w => exact (mem_entries.1 (mem_of_get?_update hu)).symm.trans he
  rw [get?_update, hself]

/-- The keys are those of the list, in the order of their first places in it. -/
structure InOrderOfUse (d : Dict κ β) (used : List κ) : Prop where
  mem : ∀ k, k ∈ d.keys ↔ k ∈ used
  order : d.keys.Pairwise fun a b => used.idxOf a < used.idxOf b

theorem inOrderOfUse_empty : InOrderOfUse (empty : Dict κ β) [] :=
  ⟨fun _ => Iff.rfl, List.Pairwise.nil⟩

section

variable {d : Dict κ β} {used : List κ}

/-- A key is used once more, -/
theorem InOrderOfUse.use (h : InOrderOfUse d used) (k : κ) (v : β) :
    InOrderOfUse (d.set k v) (used ++ [k]) := by
  have hold : d.keys.Pairwise fun a b => (used ++ [k]).idxOf a < (used ++ [k]).idxOf b := by
    refine h.order.imp_of_mem fun {a b} ha hb hab => ?_
    rwa [List.idxOf_append_of_mem ((h.mem a).1 ha), List.idxOf_append_of_mem ((h.mem b).1 hb)]
  constructor
  · intro k'
    rw [keys_set, List.mem_append, List.mem_singleton, ← h.mem]
    split_ifs with hk
    · exact ⟨Or.inl, fun hk' => hk'.elim id fun he => he ▸ hk⟩
    · rw [List.mem_append, List.mem_singleton]
  · rw [keys_set]
    split_ifs with hk
    · exact hold
    · have hnew : k ∉ used := fun hmem => hk ((h.mem k).2 hmem)
      refine List.pairwise_append.2 ⟨hold, List.pairwise_singleton _ _, fun a ha b hb => ?_⟩
      rw [List.mem_singleton.1 hb, List.idxOf_append_of_mem ((h.mem a).1 ha),
        List.idxOf_append_of_notMem hnew]
      exact Nat.lt_add_right _ (List.idxOf_lt_length_iff.2 ((h.mem a).1 ha))

/-- or only given another value. -/
theorem InOrderOfUse.set (h : InOrderOfUse d used) {k : κ} (hk : k ∈ d.keys) (v : β) :
    InOrderOfUse (d.set k v) used := by
  have hkeys : (d.set k v).keys = d.keys := by rw [keys_set, if_pos hk]
  exact ⟨fun k' => hkeys ▸ h.mem k', hkeys ▸ h.order⟩

theorem InOrderOfUse.mapValues {γ : Type*} (h : InOrderOfUse d used) (f : β → γ) :
    InOrderOfUse (d.mapValues f) used :=
  ⟨fun k => (d.keys_mapValues f).symm ▸ h.mem k, (d.keys_mapValues f).symm ▸ h.order⟩

/-- The first entry that passes a test has the key that was used first. -/
theorem InOrderOfUse.find?_first (h : InOrderOfUse d used) {p : κ × β → Bool} {e e' : κ × β}
    (he : d.entries.find? p = some e) (he' : e' ∈ d.entries) (hp : p e' = true) :
    used.idxOf e.1 ≤ used.idxOf e'.1 := by
  obtain ⟨-, as, bs, hsplit, has⟩ := List.find?_eq_some_iff_append.1 he
  rw [hsplit] at he'
  rcases List.mem_append.1 he' with hmem | hmem
  · have hnp := has e' hmem
    rw [hp] at hnp
    cases hnp
  rcases List.mem_cons.1 hmem with rfl | hmem
  · exact Nat.le_refl _
  · have horder := h.order
    rw [keys, Assoc.keys, hsplit, List.map_append, List.map_cons, List.pairwise_append,
      List.pairwise_cons] at horder
    exact Nat.le_of_lt (horder.2.1.1 e'.1 (List.mem_map_of_mem hmem))

end

end

end Dict

import PilotLanggraph.Lib.JsonLocal

/-!
# What is read is well formed

A value that `loadsText` accepts has distinct names in each of its objects, since a repeated name
overrides the earlier one. So it can be written and read again (`loadsText_dumps`).
-/

namespace Json

/-- The values of the members are well formed. -/
theorem wfMembers_iff : ∀ {ms : List (String × Json)}, WFMembers ms ↔ ∀ m ∈ ms, m.2.WF
  | [] => by simp [WFMembers]
  | m :: ms => by rw [WFMembers, List.forall_mem_cons, wfMembers_iff]

theorem wfMembers_set {k : String} {v : Json} (hv : v.WF) : ∀ {ms : List (String × Json)},
    WFMembers ms → WFMembers (Assoc.set k v ms)
  | [], _ => ⟨hv, trivial⟩
  | m :: ms, h => by
    rw [Assoc.set]
    split_ifs
    · exact ⟨hv, h.2⟩
    · exact ⟨h.1, wfMembers_set hv h.2⟩

/-- The members of an object, the last of each name. -/
theorem wf_obj_ofPairs {ms : List (String × Json)} (h : ∀ m ∈ ms, m.2.WF) :
    (obj (Assoc.ofPairs ms)).WF := by
  have hfold : ∀ (ms d : List (String × Json)), (∀ m ∈ ms, m.2.WF) → (Assoc.keys d).Nodup →
      WFMembers d → (obj (ms.foldl (fun d p => Assoc.set p.1 p.2 d) d)).WF := by
    intro ms
    induction ms with
    | nil => exact fun d _ hkeys hd => ⟨hkeys, hd⟩
    | cons m ms ih =>
      intro d hms hkeys hd
      obtain ⟨hm, hms⟩ := List.forall_mem_cons.1 hms
      exact ih _ hms (Assoc.nodup_set hkeys) (wfMembers_set hm hd)
  exact hfold ms [] h List.nodup_nil trivial

/-- Every word stands for a value without objects. -/
theorem wf_of_scanAtom {s r : List Char} {v : Json} (h : scanAtom s = some (v, r)) : v.WF := by
  unfold scanAtom at h
  split at h
  · rename_i x r' _
    obtain ⟨w, hw, heq⟩ := Option.map_eq_some_iff.1 h
    obtain ⟨rfl, -⟩ := Prod.mk.inj heq
    cases x with
    | int n =>
      cases hw
      trivial
    | float t =>
      rw [ofNumber] at hw
      split_ifs at hw
      cases hw
      trivial
  · obtain ⟨l, hl, -, rfl⟩ := mem_literals_of_scanLiteral h
    simp only [literals, List.mem_cons, List.not_mem_nil, or_false] at hl
    rcases hl with rfl | rfl | rfl | rfl | rfl | rfl <;> trivial

/-- What the three readers find is well formed. -/
theorem parse_wf : ∀ n : ℕ,
    (∀ {s r v}, parseValue n s = some (v, r) → v.WF) ∧
    (∀ {s r xs}, parseElems n s = some (xs, r) → WFElems xs) ∧
    (∀ {s r ms}, parseMembers n s = some (ms, r) → ∀ m ∈ ms, m.2.WF)
  | 0 => ⟨fun h => by simp [parseValue] at h, fun h => by simp [parseElems] at h,
      fun h => by simp [parseMembers] at h⟩
  | n + 1 => by
    obtain ⟨hV, hE, hM⟩ := parse_wf n
    refine ⟨?_, ?_, ?_⟩
    · intro s r v h
      cases s with
      | nil => simp [parseValue] at h
      | cons c s =>
        rw [parseValue] at h
        split_ifs at h with hquote hbrace hbracket
        · obtain ⟨p, -, heq⟩ := Option.map_eq_some_iff.1 h
          obtain ⟨rfl, -⟩ := Prod.mk.inj heq
          trivial
        · cases hw : skipWs s with
          | nil => simp [hw] at h
          | cons d t =>
            simp only [hw] at h
            split_ifs at h with hd
            · cases h
              exact ⟨List.nodup_nil, trivial⟩
            · obtain ⟨⟨ms, r'⟩, hms, heq⟩ := Option.map_eq_some_iff.1 h
              obtain ⟨rfl, -⟩ := Prod.mk.inj heq
              exact wf_obj_ofPairs (hM hms)
        · cases hw : skipWs s with
          | nil => simp [hw] at h
          | cons d t =>
            simp only [hw] at h
            split_ifs at h with hd
            · cases h
              trivial
            · obtain ⟨⟨xs, r'⟩, hxs, heq⟩ := Option.map_eq_some_iff.1 h
              obtain ⟨rfl, -⟩ := Prod.mk.inj heq
              exact hE hxs
        · exact wf_of_scanAtom h
    · intro s r xs h
      rw [parseElems] at h
      cases hv : parseValue n s with
      | none => simp [hv] at h
      | some p =>
        obtain ⟨v, r'⟩ := p
        simp only [hv] at h
        cases hw : skipWs r' with
        | nil => simp [hw] at h
        | cons d t =>
          simp only [hw] at h
          split_ifs at h with hd hcomma
          · cases h
            exact ⟨hV hv, trivial⟩
          · obtain ⟨⟨ys, r''⟩, hys, heq⟩ := Option.map_eq_some_iff.1 h
            obtain ⟨rfl, -⟩ := Prod.mk.inj heq
            exact ⟨hV hv, hE hys⟩
    · intro s r ms h
      cases s with
      | nil => simp [parseMembers] at h
      | cons c s =>
        rw [parseMembers] at h
        split_ifs at h with hquote
        cases hk : scanString .plain s with
        | none => simp [hk] at h
        | some p =>
          obtain ⟨k, r₁⟩ := p
          simp only [hk] at h
          cases hw : skipWs r₁ with
          | nil => simp [hw] at h
          | cons d t =>
            simp only [hw] at h
            split_ifs at h with hcolon
            cases hv : parseValue n (skipWs t) with
            | none => simp [hv] at h
            | some p =>
              obtain ⟨v, r₂⟩ := p
              simp only [hv] at h
              cases hw' : skipWs r₂ with
              | nil => simp [hw'] at h
              | cons e u =>
                simp only [hw'] at h
                split_ifs at h with hbrace hcomma
                · cases h
                  exact List.forall_mem_singleton.2 (hV hv)
                · obtain ⟨⟨ns, r₃⟩, hns, heq⟩ := Option.map_eq_some_iff.1 h
                  obtain ⟨rfl, -⟩ := Prod.mk.inj heq
                  exact List.forall_mem_cons.2 ⟨hV hv, hM hns⟩

/-- What `json.loads` accepts is well formed. -/
theorem wf_of_loadsText {s : List Char} {v : Json} (h : loadsText s = some v) : v.WF := by
  unfold loadsText at h
  split at h
  · rename_i w r hparse
    split_ifs at h
    cases h
    exact (parse_wf _).1 hparse
  · cases h

end Json

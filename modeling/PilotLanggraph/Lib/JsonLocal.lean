import PilotLanggraph.Lib.Json

/-!
# The JSON reader is local

What the reader finds at the head of a text it finds at the head of every longer text
too, unless what follows could continue a number (`parse_local`). An object is ended by
its brace, so for it there is no exception (`parseObject_append`). More fuel changes
nothing once a value is found (`parseValue_mono`).
-/

namespace Json

/-! ## Runs of characters -/

/-- A character that can continue a number. -/
def isNumCont (c : Char) : Bool :=
  c.isDigit || c = '.' || c = 'e' || c = 'E'

/-- The text does not continue a number. -/
def NumEnd (r : List Char) : Prop :=
  ∀ c ∈ r.head?, isNumCont c = false

theorem numEnd_nil : NumEnd [] := by
  simp [NumEnd]

theorem numEnd_cons {c : Char} {r : List Char} : NumEnd (c :: r) ↔ isNumCont c = false := by
  simp [NumEnd]

/-- A run that stops inside the text stops there in every longer text. -/
theorem takeWhile_append_of_stop {p : Char → Bool} {q : List Char} :
    ∀ {s : List Char}, (∀ c ∈ (s.dropWhile p ++ q).head?, p c = false) →
      (s ++ q).takeWhile p = s.takeWhile p ∧ (s ++ q).dropWhile p = s.dropWhile p ++ q
  | [], h => by
    cases q with
    | nil => simp
    | cons c q =>
      have hc : p c = false := h c (by simp)
      simp [hc]
  | c :: s, h => by
    by_cases hc : p c = true
    · rw [List.dropWhile_cons_of_pos hc] at h
      have ih := takeWhile_append_of_stop h
      simp [hc, ih.1, ih.2]
    · simp [hc]

theorem skipWs_append_of_cons {s r : List Char} {d : Char} (h : skipWs s = d :: r)
    (q : List Char) : skipWs (s ++ q) = d :: (r ++ q) := by
  have hd : isWs d = false := by
    have := List.head?_dropWhile_not isWs s
    unfold skipWs at h
    rw [h] at this
    simpa using this
  have := (takeWhile_append_of_stop (p := isWs) (s := s) (q := q) (by
    unfold skipWs at h
    simpa [h] using hd)).2
  unfold skipWs at h ⊢
  rw [this, h, List.cons_append]

theorem skipWs_append_of_ne_nil {s : List Char} (h : skipWs s ≠ []) (q : List Char) :
    skipWs (s ++ q) = skipWs s ++ q := by
  obtain ⟨d, r, hd⟩ := List.exists_cons_of_ne_nil h
  rw [skipWs_append_of_cons hd q, hd, List.cons_append]

/-- If a delimiter is the first thing after white space, what comes before it does not
continue a number. -/
theorem numEnd_of_skipWs {s r : List Char} {d : Char} (h : skipWs s = d :: r)
    (hd : isNumCont d = false) (q : List Char) : NumEnd (s ++ q) := by
  cases s with
  | nil => simp [skipWs] at h
  | cons c s =>
    rw [List.cons_append, numEnd_cons]
    by_cases hc : isWs c = true
    · simp only [isWs, Bool.or_eq_true, decide_eq_true_eq] at hc
      rcases hc with ((rfl | rfl) | rfl) | rfl <;> decide
    · rw [skipWs, List.dropWhile_cons_of_neg hc, List.cons.injEq] at h
      rw [h.1]
      exact hd

/-! ## Numbers -/

theorem not_isDigit_of_numEnd {r : List Char} (h : NumEnd r) :
    ∀ c ∈ r.head?, Char.isDigit c = false := by
  intro c hc
  have := h c hc
  simp only [isNumCont, Bool.or_eq_false_iff] at this
  exact this.1.1.1

theorem intPart_append {s q : List Char} (hne : (intPart s).1 ≠ [])
    (h : ∀ c ∈ ((intPart s).2 ++ q).head?, Char.isDigit c = false) :
    intPart (s ++ q) = ((intPart s).1, (intPart s).2 ++ q) := by
  cases s with
  | nil => simp [intPart] at hne
  | cons c s =>
    by_cases hc : c = '0'
    · simp [intPart, hc]
    · simp only [intPart, hc, if_false] at h
      have := takeWhile_append_of_stop h
      simp only [List.cons_append] at this
      simp [intPart, hc, this.1, this.2]

theorem signPart_append {s : List Char} (hs : s ≠ []) (q : List Char) :
    signPart (s ++ q) = ((signPart s).1, (signPart s).2 ++ q) := by
  cases s with
  | nil => exact absurd rfl hs
  | cons c s =>
    by_cases hc : c = '+' ∨ c = '-'
    · simp [signPart, hc]
    · simp [signPart, hc]

theorem fracPart_append {s q : List Char}
    (h : ∀ c ∈ ((fracPart s).2 ++ q).head?, Char.isDigit c = false ∧ c ≠ '.') :
    fracPart (s ++ q) = ((fracPart s).1, (fracPart s).2 ++ q) := by
  cases s with
  | nil =>
    cases q with
    | nil => simp [fracPart]
    | cons c q =>
      have hc : c ≠ '.' := (h c (by simp [fracPart])).2
      simp [fracPart, hc]
  | cons c s =>
    by_cases hc : c = '.' ∧ ¬(s.takeWhile Char.isDigit).isEmpty
    · rw [fracPart, if_pos hc] at h
      have := takeWhile_append_of_stop fun d hd => (h d hd).1
      obtain ⟨rfl, hne⟩ := hc
      simp [fracPart, this.1, this.2, hne]
    · rw [fracPart, if_neg hc] at h ⊢
      have hdot : c ≠ '.' := (h c (by simp)).2
      simp [fracPart, hdot]

theorem expPart_append {s q : List Char} (h : NumEnd ((expPart s).2 ++ q)) :
    expPart (s ++ q) = ((expPart s).1, (expPart s).2 ++ q) := by
  cases s with
  | nil =>
    cases q with
    | nil => simp [expPart]
    | cons c q =>
      rw [expPart, List.nil_append, numEnd_cons] at h
      have hc : ¬(c = 'e' ∨ c = 'E') := by
        rintro (rfl | rfl) <;> exact absurd h (by decide)
      simp [expPart, hc]
  | cons c s =>
    by_cases hc : (c = 'e' ∨ c = 'E') ∧ ¬((signPart s).2.takeWhile Char.isDigit).isEmpty
    · have hs : s ≠ [] := by
        rintro rfl
        simp [signPart] at hc
      rw [expPart, if_pos hc] at h ⊢
      have := takeWhile_append_of_stop (not_isDigit_of_numEnd h)
      rw [List.cons_append, expPart, signPart_append hs q, if_pos (by rw [this.1]; exact hc),
        this.1, this.2]
    · rw [expPart, if_neg hc] at h ⊢
      rw [List.cons_append, numEnd_cons] at h
      have hc' : ¬(c = 'e' ∨ c = 'E') := by
        rintro (rfl | rfl) <;> exact absurd h (by decide)
      simp [expPart, hc']

/-- What follows the fraction is neither a digit nor a point : it starts the exponent,
or ends the number. -/
theorem head_of_expPart {s q : List Char} (h : NumEnd ((expPart s).2 ++ q)) :
    ∀ c ∈ (s ++ q).head?, Char.isDigit c = false ∧ c ≠ '.' := by
  have key : ∀ c, isNumCont c = false → Char.isDigit c = false ∧ c ≠ '.' := by
    intro c hc
    simp only [isNumCont, Bool.or_eq_false_iff, decide_eq_false_iff_not] at hc
    exact ⟨hc.1.1.1, hc.1.1.2⟩
  intro c hc
  cases s with
  | nil => exact key c (h c (by simpa [expPart] using hc))
  | cons d s =>
    obtain rfl : d = c := by simpa using hc
    by_cases hd : (d = 'e' ∨ d = 'E') ∧ ¬((signPart s).2.takeWhile Char.isDigit).isEmpty
    · rcases hd.1 with rfl | rfl <;> decide
    · rw [expPart, if_neg hd, List.cons_append, numEnd_cons] at h
      exact key d h

/-- What follows the integer part is not a digit. -/
theorem head_of_fracPart {s q : List Char}
    (h : ∀ c ∈ ((fracPart s).2 ++ q).head?, Char.isDigit c = false ∧ c ≠ '.') :
    ∀ c ∈ (s ++ q).head?, Char.isDigit c = false := by
  intro c hc
  cases s with
  | nil => exact (h c (by simpa [fracPart] using hc)).1
  | cons d s =>
    obtain rfl : d = c := by simpa using hc
    by_cases hd : d = '.' ∧ ¬(s.takeWhile Char.isDigit).isEmpty
    · rw [hd.1]
      decide
    · rw [fracPart, if_neg hd] at h
      exact (h d (by simp)).1

theorem scanUnsigned_append {neg : Bool} {s r q : List Char} {x : Number}
    (h : scanUnsigned neg s = some (x, r)) (hr : NumEnd (r ++ q)) :
    scanUnsigned neg (s ++ q) = some (x, r ++ q) := by
  have hi : (intPart s).1 ≠ [] := by
    intro hi
    simp [scanUnsigned, hi] at h
  have hrest : (expPart (fracPart (intPart s).2).2).2 = r := by
    simp only [scanUnsigned] at h
    split_ifs at h <;> simp_all
  rw [← hrest] at hr
  have he := head_of_expPart hr
  have e1 := intPart_append hi (head_of_fracPart he)
  have e2 := fracPart_append he
  have e3 := expPart_append hr
  simp only [scanUnsigned] at h ⊢
  rw [e1]
  simp only [e2, e3]
  split_ifs at h ⊢ <;> simp_all

/-- A number at the head of a text is the number at the head of every longer text, if
what follows does not continue it. -/
theorem scanNumber_append {s r q : List Char} {x : Number} (h : scanNumber s = some (x, r))
    (hr : NumEnd (r ++ q)) : scanNumber (s ++ q) = some (x, r ++ q) := by
  cases s with
  | nil => simp [scanNumber] at h
  | cons c s =>
    by_cases hc : c = '-'
    · simp only [scanNumber, hc, if_true, List.cons_append] at h ⊢
      exact scanUnsigned_append h hr
    · simp only [scanNumber, hc, if_false, List.cons_append] at h ⊢
      exact scanUnsigned_append h hr

/-! ## Strings and words -/

theorem scanString_append (q : List Char) :
    ∀ {st : StrState} {s r x : List Char}, scanString st s = some (x, r) →
      scanString st (s ++ q) = some (x, r ++ q) := by
  intro st s
  induction s generalizing st with
  | nil => intro r x h; simp [scanString] at h
  | cons c s ih =>
    intro r x h
    -- A character is read in front of what the rest of the string gives.
    have push : ∀ {d : Char}, (scanString .plain s).map (fun p => (d :: p.1, p.2)) = some (x, r) →
        (scanString .plain (s ++ q)).map (fun p => (d :: p.1, p.2)) = some (x, r ++ q) := by
      intro d hd
      obtain ⟨⟨y, r'⟩, hy, hxr⟩ := Option.map_eq_some_iff.1 hd
      obtain ⟨rfl, rfl⟩ := Prod.mk.inj hxr
      rw [ih hy]
      rfl
    cases st with
    | plain =>
      simp only [List.cons_append, scanString] at h ⊢
      split_ifs at h ⊢ with h1 h2 h3
      · simp only [Option.some.injEq, Prod.mk.injEq] at h ⊢
        exact ⟨h.1, by rw [h.2]⟩
      · exact ih h
      · exact push h
    | esc =>
      simp only [List.cons_append, scanString] at h ⊢
      split_ifs at h ⊢ with h1
      · exact ih h
      · cases hd : simpleEscape c with
        | none => simp [hd] at h
        | some d =>
          simp only [hd] at h ⊢
          exact push h
    | hex hi acc left =>
      simp only [List.cons_append, scanString] at h ⊢
      cases hd : hexVal c with
      | none => simp [hd] at h
      | some d =>
        simp only [hd] at h ⊢
        split_ifs at h ⊢ with h1
        · cases hf : finishHex hi (acc * 16 + d) with
          | none => simp [hf] at h
          | some f =>
            cases f with
            | inl ch =>
              simp only [hf] at h ⊢
              exact push h
            | inr hs =>
              simp only [hf] at h ⊢
              exact ih h
        · exact ih h
    | pairEsc hi =>
      simp only [List.cons_append, scanString] at h ⊢
      split_ifs at h ⊢ with h1
      exact ih h
    | pairU hi =>
      simp only [List.cons_append, scanString] at h ⊢
      split_ifs at h ⊢ with h1
      exact ih h

/-- Each word is read as its value, whatever follows it. -/
theorem scanAtom_literal {l : List Char × Json} (hl : l ∈ literals) (r : List Char) :
    scanAtom (l.1 ++ r) = some (l.2, r) := by
  simp only [literals, List.mem_cons, List.not_mem_nil, or_false] at hl
  rcases hl with rfl | rfl | rfl | rfl | rfl | rfl <;> rfl

theorem mem_literals_of_scanLiteral {s r : List Char} {v : Json}
    (h : scanLiteral s = some (v, r)) : ∃ l ∈ literals, s = l.1 ++ r ∧ v = l.2 := by
  obtain ⟨l, hl, hr⟩ := List.exists_of_findSome?_eq_some h
  obtain ⟨r', hp, hv⟩ := Option.map_eq_some_iff.1 hr
  obtain ⟨rfl, rfl⟩ := Prod.mk.inj hv
  exact ⟨l, hl, (List.isPrefixOf?_eq_some_iff_append_eq.1 hp).symm, rfl⟩

theorem scanAtom_append {s r q : List Char} {v : Json} (h : scanAtom s = some (v, r))
    (hr : NumEnd (r ++ q)) : scanAtom (s ++ q) = some (v, r ++ q) := by
  cases hn : scanNumber s with
  | some p =>
    obtain ⟨x, r'⟩ := p
    rw [scanAtom, hn] at h
    obtain ⟨w, hw, hxr⟩ := Option.map_eq_some_iff.1 h
    obtain ⟨rfl, rfl⟩ := Prod.mk.inj hxr
    rw [scanAtom, scanNumber_append hn hr]
    simp [hw]
  | none =>
    rw [scanAtom, hn] at h
    obtain ⟨l, hl, rfl, rfl⟩ := mem_literals_of_scanLiteral h
    rw [List.append_assoc]
    exact scanAtom_literal hl (r ++ q)

/-! ## Locality and fuel -/

theorem parseValue_nil (n : ℕ) : parseValue n [] = none := by
  cases n <;> rfl

theorem parseElems_nil (n : ℕ) : parseElems n [] = none := by
  cases n with
  | zero => rfl
  | succ n => simp [parseElems, parseValue_nil]

theorem parseMembers_nil (n : ℕ) : parseMembers n [] = none := by
  cases n <;> rfl

/-- A value found in a text is found in the text followed by `q`. -/
def ValueLocal (q : List Char) (n : ℕ) : Prop :=
  ∀ {s r : List Char} {v : Json}, parseValue n s = some (v, r) → NumEnd (r ++ q) →
    parseValue n (s ++ q) = some (v, r ++ q)

/-- Elements found in a text are found in the text followed by `q`. -/
def ElemsLocal (q : List Char) (n : ℕ) : Prop :=
  ∀ {s r : List Char} {xs : List Json}, parseElems n s = some (xs, r) →
    parseElems n (s ++ q) = some (xs, r ++ q)

/-- Members found in a text are found in the text followed by `q`. -/
def MembersLocal (q : List Char) (n : ℕ) : Prop :=
  ∀ {s r : List Char} {ms : List (String × Json)}, parseMembers n s = some (ms, r) →
    parseMembers n (s ++ q) = some (ms, r ++ q)

/-- The object at the head of a text is at the head of every longer text : its brace
ends it. -/
theorem parseObject_append {q : List Char} {n : ℕ} (hM : MembersLocal q n) {s r : List Char}
    {v : Json} (h : parseValue (n + 1) ('\x7b' :: s) = some (v, r)) :
    parseValue (n + 1) ('\x7b' :: s ++ q) = some (v, r ++ q) := by
  simp only [List.cons_append, parseValue, Char.reduceEq, if_false, if_true] at h ⊢
  cases hw : skipWs s with
  | nil => simp [hw] at h
  | cons d t =>
    rw [skipWs_append_of_cons hw q]
    simp only [hw] at h ⊢
    split_ifs at h ⊢ with hd
    · obtain ⟨rfl, rfl⟩ := Prod.mk.inj (Option.some.inj h)
      rfl
    · obtain ⟨⟨ms, r'⟩, hm, hv⟩ := Option.map_eq_some_iff.1 h
      obtain ⟨rfl, rfl⟩ := Prod.mk.inj hv
      rw [← List.cons_append, hM hm]
      rfl

theorem valueLocal_succ {q : List Char} {n : ℕ} (hE : ElemsLocal q n) (hM : MembersLocal q n) :
    ValueLocal q (n + 1) := by
  intro s r v h hr
  cases s with
  | nil => simp [parseValue] at h
  | cons c s =>
    by_cases hobj : c = '\x7b'
    · subst hobj
      exact parseObject_append hM h
    simp only [List.cons_append, parseValue, if_neg hobj] at h ⊢
    split_ifs at h ⊢ with h1 h2
    · obtain ⟨⟨x, r'⟩, hx, hv⟩ := Option.map_eq_some_iff.1 h
      obtain ⟨rfl, rfl⟩ := Prod.mk.inj hv
      rw [scanString_append q hx]
      rfl
    · cases hw : skipWs s with
      | nil => simp [hw] at h
      | cons d t =>
        rw [skipWs_append_of_cons hw q]
        simp only [hw] at h ⊢
        split_ifs at h ⊢ with hd
        · obtain ⟨rfl, rfl⟩ := Prod.mk.inj (Option.some.inj h)
          rfl
        · obtain ⟨⟨xs, r'⟩, hx, hv⟩ := Option.map_eq_some_iff.1 h
          obtain ⟨rfl, rfl⟩ := Prod.mk.inj hv
          rw [← List.cons_append, hE hx]
          rfl
    · exact scanAtom_append h hr

theorem elemsLocal_succ {q : List Char} {n : ℕ} (hV : ValueLocal q n) (hE : ElemsLocal q n) :
    ElemsLocal q (n + 1) := by
  intro s r xs h
  simp only [parseElems] at h ⊢
  cases hv : parseValue n s with
  | none => simp [hv] at h
  | some p =>
    obtain ⟨v, r'⟩ := p
    simp only [hv] at h
    cases hw : skipWs r' with
    | nil => simp [hw] at h
    | cons d t =>
      simp only [hw] at h
      have hd : isNumCont d = false := by
        split_ifs at h with h1 h2
        · rw [h1]; decide
        · rw [h2]; decide
      rw [hV hv (numEnd_of_skipWs hw hd q)]
      simp only [skipWs_append_of_cons hw q]
      split_ifs at h ⊢ with h1 h2
      · obtain ⟨rfl, rfl⟩ := Prod.mk.inj (Option.some.inj h)
        rfl
      · obtain ⟨⟨ys, r''⟩, hy, hx⟩ := Option.map_eq_some_iff.1 h
        obtain ⟨rfl, rfl⟩ := Prod.mk.inj hx
        have hne : skipWs t ≠ [] := by
          intro ht
          rw [ht, parseElems_nil] at hy
          cases hy
        rw [skipWs_append_of_ne_nil hne, hE hy]
        rfl

theorem membersLocal_succ {q : List Char} {n : ℕ} (hV : ValueLocal q n) (hM : MembersLocal q n) :
    MembersLocal q (n + 1) := by
  intro s r ms h
  cases s with
  | nil => simp [parseMembers] at h
  | cons c s =>
    simp only [List.cons_append, parseMembers] at h ⊢
    split_ifs at h ⊢ with hc
    cases hk : scanString .plain s with
    | none => simp [hk] at h
    | some p =>
      obtain ⟨k, r₁⟩ := p
      rw [scanString_append q hk]
      simp only [hk] at h ⊢
      cases hw : skipWs r₁ with
      | nil => simp [hw] at h
      | cons d r₂ =>
        rw [skipWs_append_of_cons hw q]
        simp only [hw] at h ⊢
        split_ifs at h ⊢ with hd
        cases hv : parseValue n (skipWs r₂) with
        | none => simp [hv] at h
        | some p =>
          obtain ⟨v, r₃⟩ := p
          simp only [hv] at h
          have hne : skipWs r₂ ≠ [] := by
            intro ht
            rw [ht, parseValue_nil] at hv
            cases hv
          cases hw' : skipWs r₃ with
          | nil => simp [hw'] at h
          | cons e t =>
            simp only [hw'] at h
            have he : isNumCont e = false := by
              split_ifs at h with h1 h2
              · rw [h1]; decide
              · rw [h2]; decide
            rw [skipWs_append_of_ne_nil hne, hV hv (numEnd_of_skipWs hw' he q)]
            simp only [skipWs_append_of_cons hw' q]
            split_ifs at h ⊢ with h1 h2
            · obtain ⟨rfl, rfl⟩ := Prod.mk.inj (Option.some.inj h)
              rfl
            · obtain ⟨⟨ns, r₄⟩, hy, hx⟩ := Option.map_eq_some_iff.1 h
              obtain ⟨rfl, rfl⟩ := Prod.mk.inj hx
              have hne' : skipWs t ≠ [] := by
                intro ht
                rw [ht, parseMembers_nil] at hy
                cases hy
              rw [skipWs_append_of_ne_nil hne', hM hy]
              rfl

/-- The reader is local, at every fuel. -/
theorem parse_local (q : List Char) : ∀ n : ℕ, ValueLocal q n ∧ ElemsLocal q n ∧ MembersLocal q n
  | 0 => ⟨fun h => by simp [parseValue] at h, fun h => by simp [parseElems] at h,
      fun h => by simp [parseMembers] at h⟩
  | n + 1 => by
    obtain ⟨hV, hE, hM⟩ := parse_local q n
    exact ⟨valueLocal_succ hE hM, elemsLocal_succ hV hE, membersLocal_succ hV hM⟩

/-- More fuel does not change what is found. -/
theorem parse_mono : ∀ n : ℕ,
    (∀ {s x}, parseValue n s = some x → parseValue (n + 1) s = some x) ∧
    (∀ {s x}, parseElems n s = some x → parseElems (n + 1) s = some x) ∧
    (∀ {s x}, parseMembers n s = some x → parseMembers (n + 1) s = some x)
  | 0 => ⟨fun h => by simp [parseValue] at h, fun h => by simp [parseElems] at h,
      fun h => by simp [parseMembers] at h⟩
  | n + 1 => by
    obtain ⟨hV, hE, hM⟩ := parse_mono n
    refine ⟨?_, ?_, ?_⟩
    · intro s x h
      cases s with
      | nil => simp [parseValue] at h
      | cons c s =>
        rw [parseValue] at h ⊢
        split_ifs at h ⊢ with h1 h2 h3
        · exact h
        · cases hw : skipWs s with
          | nil => simp [hw] at h
          | cons d t =>
            simp only [hw] at h ⊢
            split_ifs at h ⊢ with hd
            · exact h
            · obtain ⟨y, hy, rfl⟩ := Option.map_eq_some_iff.1 h
              rw [hM hy]
              rfl
        · cases hw : skipWs s with
          | nil => simp [hw] at h
          | cons d t =>
            simp only [hw] at h ⊢
            split_ifs at h ⊢ with hd
            · exact h
            · obtain ⟨y, hy, rfl⟩ := Option.map_eq_some_iff.1 h
              rw [hE hy]
              rfl
        · exact h
    · intro s x h
      rw [parseElems] at h ⊢
      cases hv : parseValue n s with
      | none => simp [hv] at h
      | some p =>
        rw [hV hv]
        simp only [hv] at h ⊢
        cases hw : skipWs p.2 with
        | nil => simp [hw] at h
        | cons d t =>
          simp only [hw] at h ⊢
          split_ifs at h ⊢ with h1 h2
          · exact h
          · obtain ⟨y, hy, rfl⟩ := Option.map_eq_some_iff.1 h
            rw [hE hy]
            rfl
    · intro s x h
      cases s with
      | nil => simp [parseMembers] at h
      | cons c s =>
        rw [parseMembers] at h ⊢
        split_ifs at h ⊢ with hc
        cases hk : scanString .plain s with
        | none => simp [hk] at h
        | some p =>
          simp only [hk] at h ⊢
          cases hw : skipWs p.2 with
          | nil => simp [hw] at h
          | cons d t =>
            simp only [hw] at h ⊢
            split_ifs at h ⊢ with hd
            cases hv : parseValue n (skipWs t) with
            | none => simp [hv] at h
            | some p' =>
              rw [hV hv]
              simp only [hv] at h ⊢
              cases hw' : skipWs p'.2 with
              | nil => simp [hw'] at h
              | cons e u =>
                simp only [hw'] at h ⊢
                split_ifs at h ⊢ with h1 h2
                · exact h
                · obtain ⟨y, hy, rfl⟩ := Option.map_eq_some_iff.1 h
                  rw [hM hy]
                  rfl

theorem parseValue_mono {n m : ℕ} (hnm : n ≤ m) {s : List Char} {x : Json × List Char}
    (h : parseValue n s = some x) : parseValue m s = some x := by
  induction hnm with
  | refl => exact h
  | step _ ih => exact (parse_mono _).1 ih

end Json

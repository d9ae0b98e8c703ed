import Mathlib.Data.List.Basic

/-!
# Decoding a stream as it arrives

A `Decoder` says what the front of a buffer is : an item and what follows it, something
malformed, or a start that more input may complete. What it says of an item or of something
malformed does not change when more input follows. `split` takes the items off a buffer; what
is left over goes on with the rest of the stream (`split_append`), so the items of a stream do
not depend on how it is cut.
-/

variable {α β ε : Type*}

/-- What the front of a buffer is. -/
inductive Front (α β ε : Type*)
  | incomplete
  | malformed (e : ε)
  | item (a : α) (rest : List β)

/-- A decoder of items from the front of a buffer. -/
structure Decoder (α β ε : Type*) where
  front : List β → Front α β ε
  shrinks : ∀ {buf : List β} {a : α} {rest : List β},
    front buf = .item a rest → rest.length < buf.length
  item_append : ∀ {buf : List β} {a : α} {rest : List β},
    front buf = .item a rest → ∀ more, front (buf ++ more) = .item a (rest ++ more)
  malformed_append : ∀ {buf : List β} {e : ε},
    front buf = .malformed e → ∀ more, front (buf ++ more) = .malformed e

namespace Decoder

variable (d : Decoder α β ε)

/-- At most `n` items of the buffer, and what is left over. -/
def splitUpTo : ℕ → List β → Except ε (List α × List β)
  | 0, buf => .ok ([], buf)
  | n + 1, buf =>
    match d.front buf with
    | .incomplete => .ok ([], buf)
    | .malformed e => .error e
    | .item a rest => (splitUpTo n rest).map fun r => (a :: r.1, r.2)

/-- The items of the buffer, and what is left over. -/
def split (buf : List β) : Except ε (List α × List β) :=
  d.splitUpTo (buf.length + 1) buf

section

variable {d} {buf rest : List β} {a : α} {e : ε} {items : List α}

theorem split_of_incomplete (h : d.front buf = .incomplete) : d.split buf = .ok ([], buf) := by
  rw [split, splitUpTo, h]

theorem split_of_malformed (h : d.front buf = .malformed e) : d.split buf = .error e := by
  rw [split, splitUpTo, h]

/-- Item by item through a buffer. -/
theorem buffer_induction (d : Decoder α β ε) {motive : List β → Prop}
    (incomplete : ∀ buf, d.front buf = .incomplete → motive buf)
    (malformed : ∀ buf e, d.front buf = .malformed e → motive buf)
    (item : ∀ buf a rest, d.front buf = .item a rest → motive rest → motive buf) :
    ∀ buf, motive buf := by
  suffices h : ∀ n, ∀ buf : List β, buf.length < n → motive buf from
    fun buf => h _ buf (Nat.lt_succ_self _)
  intro n
  induction n with
  | zero => exact fun buf hbuf => absurd hbuf (Nat.not_lt_zero _)
  | succ n ih =>
    intro buf hbuf
    cases hfront : d.front buf with
    | incomplete => exact incomplete buf hfront
    | malformed e => exact malformed buf e hfront
    | item a rest =>
      have hrest := d.shrinks hfront
      exact item buf a rest hfront (ih rest (by omega))

/-- More steps than the buffer is long make no difference. -/
theorem splitUpTo_eq_split (buf : List β) :
    ∀ n, buf.length < n → d.splitUpTo n buf = d.split buf := by
  induction buf using d.buffer_induction with
  | incomplete buf hfront | malformed buf e hfront =>
    intro n hn
    obtain ⟨n, rfl⟩ := Nat.exists_eq_add_of_lt hn
    rw [split, splitUpTo, splitUpTo, hfront]
  | item buf a rest hfront ih =>
    intro n hn
    obtain ⟨n, rfl⟩ := Nat.exists_eq_add_of_lt hn
    have hrest := d.shrinks hfront
    rw [split, splitUpTo, splitUpTo, hfront]
    simp only
    rw [ih _ (by omega), ih _ hrest]

theorem split_of_item (h : d.front buf = .item a rest) :
    d.split buf = (d.split rest).map fun r => (a :: r.1, r.2) := by
  rw [split, splitUpTo, h]
  simp only
  rw [splitUpTo_eq_split rest _ (d.shrinks h)]

/-- What is left over is a start of an item, -/
theorem front_of_split {r : List α × List β} (h : d.split buf = .ok r) :
    d.front r.2 = .incomplete := by
  induction buf using d.buffer_induction generalizing r with
  | incomplete buf hfront =>
    rw [split_of_incomplete hfront] at h
    obtain rfl := Except.ok.inj h
    exact hfront
  | malformed buf e hfront =>
    rw [split_of_malformed hfront] at h
    cases h
  | item buf a rest hfront ih =>
    rw [split_of_item hfront] at h
    cases hrest : d.split rest with
    | error e =>
      rw [hrest] at h
      cases h
    | ok r' =>
      rw [hrest] at h
      have hr' := ih hrest
      obtain rfl := Except.ok.inj h
      exact hr'

/-- and decodes to nothing. -/
theorem split_rest {r : List α × List β} (h : d.split buf = .ok r) :
    d.split r.2 = .ok ([], r.2) :=
  split_of_incomplete (front_of_split h)

/-- Without an item nothing is taken off. -/
theorem eq_of_split_nil (h : d.split buf = .ok ([], rest)) : rest = buf := by
  cases hfront : d.front buf with
  | incomplete =>
    rw [split_of_incomplete hfront] at h
    exact (congrArg Prod.snd (Except.ok.inj h)).symm
  | malformed e =>
    rw [split_of_malformed hfront] at h
    cases h
  | item a rest' =>
    rw [split_of_item hfront] at h
    cases hrest : d.split rest' with
    | error e =>
      rw [hrest] at h
      cases h
    | ok r =>
      rw [hrest] at h
      exact absurd (congrArg Prod.fst (Except.ok.inj h)) (List.cons_ne_nil _ _)

/-- What holds of every item at the front of a buffer holds of every item. -/
theorem forall_mem_split {P : α → Prop}
    (hfront : ∀ buf a rest, d.front buf = .item a rest → P a) {r : List α × List β}
    (h : d.split buf = .ok r) : ∀ a ∈ r.1, P a := by
  induction buf using d.buffer_induction generalizing r with
  | incomplete buf hincomplete =>
    rw [split_of_incomplete hincomplete] at h
    obtain rfl := Except.ok.inj h
    exact List.forall_mem_nil P
  | malformed buf e hmalformed =>
    rw [split_of_malformed hmalformed] at h
    cases h
  | item buf a rest hitem ih =>
    rw [split_of_item hitem] at h
    cases hrest : d.split rest with
    | error e =>
      rw [hrest] at h
      cases h
    | ok r' =>
      rw [hrest] at h
      have hr' := ih hrest
      obtain rfl := Except.ok.inj h
      exact List.forall_mem_cons.2 ⟨hfront buf a rest hitem, hr'⟩

/-- What is left over goes on with what follows; what is malformed stays so. -/
theorem split_append (buf more : List β) :
    d.split (buf ++ more) = (d.split buf).bind fun r =>
      (d.split (r.2 ++ more)).map fun q => (r.1 ++ q.1, q.2) := by
  induction buf using d.buffer_induction with
  | incomplete buf hfront =>
    rw [split_of_incomplete hfront]
    change _ = (d.split (buf ++ more)).map fun q => q
    cases d.split (buf ++ more) <;> rfl
  | malformed buf e hfront =>
    rw [split_of_malformed hfront, split_of_malformed (d.malformed_append hfront more)]
    rfl
  | item buf a rest hfront ih =>
    rw [split_of_item hfront, split_of_item (d.item_append hfront more), ih]
    cases d.split rest with
    | error e => rfl
    | ok r =>
      change ((d.split (r.2 ++ more)).map _).map _ = (d.split (r.2 ++ more)).map _
      cases d.split (r.2 ++ more) <;> rfl

theorem split_append_of_ok {r : List α × List β} (h : d.split buf = .ok r) (more : List β) :
    d.split (buf ++ more) = (d.split (r.2 ++ more)).map fun q => (r.1 ++ q.1, q.2) := by
  rw [split_append, h]
  rfl

/-- A start of a stream that decodes decodes as well. -/
theorem split_of_append {more : List β} {r : List α × List β}
    (h : d.split (buf ++ more) = .ok r) :
    ∃ r₁, d.split buf = .ok r₁ ∧ ∃ items, d.split (r₁.2 ++ more) = .ok (items, r.2) ∧
      r.1 = r₁.1 ++ items := by
  cases hbuf : d.split buf with
  | error e =>
    rw [split_append, hbuf] at h
    cases h
  | ok r₁ =>
    rw [split_append_of_ok hbuf] at h
    cases hmore : d.split (r₁.2 ++ more) with
    | error e =>
      rw [hmore] at h
      cases h
    | ok q =>
      rw [hmore] at h
      obtain rfl := Except.ok.inj h
      exact ⟨r₁, rfl, q.1, hmore, rfl⟩

/-- In a stream that does not decode, one chunk is the first that shows it. -/
theorem exists_first_error {chunks : List (List β)} (hrest : d.split rest = .ok ([], rest))
    (h : d.split (rest ++ chunks.flatten) = .error e) :
    ∃ before chunk after items left, chunks = before ++ chunk :: after ∧
      d.split (rest ++ before.flatten) = .ok (items, left) ∧
        d.split (left ++ chunk) = .error e := by
  induction chunks generalizing rest with
  | nil =>
    rw [List.flatten_nil, List.append_nil, hrest] at h
    cases h
  | cons chunk chunks ih =>
    rw [List.flatten_cons, ← List.append_assoc] at h
    cases hchunk : d.split (rest ++ chunk) with
    | error e' =>
      rw [split_append, hchunk] at h
      obtain rfl := Except.error.inj h
      exact ⟨[], chunk, chunks, [], rest, rfl, by rwa [List.flatten_nil, List.append_nil], hchunk⟩
    | ok r =>
      rw [split_append_of_ok hchunk] at h
      cases hmore : d.split (r.2 ++ chunks.flatten) with
      | ok q =>
        rw [hmore] at h
        cases h
      | error e' =>
        rw [hmore] at h
        obtain rfl := Except.error.inj h
        obtain ⟨before, bad, after, items, left, rfl, hbefore, hbad⟩ := ih (split_rest hchunk) hmore
        refine ⟨chunk :: before, bad, after, r.1 ++ items, left, rfl, ?_, hbad⟩
        rw [List.flatten_cons, ← List.append_assoc, split_append_of_ok hchunk, hbefore]
        rfl

end

end Decoder

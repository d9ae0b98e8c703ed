import PilotLanggraph.Lib.Incremental

/-!
# Frames after their lengths

A frame is a payload after its length, which stands in a header of fixed width. The frames of
a stream are those that were written (`split_wire`), and of a start of the stream a start of
them (`split_of_isPrefix`).
-/

variable {β : Type*}

/-- Headers with the lengths below `bound`. -/
structure LengthPrefix (β : Type*) where
  width : ℕ
  width_pos : 0 < width
  bound : ℕ
  write : ℕ → List β
  read : List β → ℕ
  length_write : ∀ n, (write n).length = width
  read_write : ∀ n < bound, read (write n) = n

namespace LengthPrefix

variable (lp : LengthPrefix β)

/-- A payload after its length. -/
def frame (payload : List β) : List β :=
  lp.write payload.length ++ payload

/-- Frames, one after the other. -/
def wire (payloads : List (List β)) : List β :=
  (payloads.map lp.frame).flatten

/-- The frame at the front of a buffer. -/
def front (buf : List β) : Front (List β) β Empty :=
  if buf.length < lp.width then .incomplete
  else
    let n := lp.read (buf.take lp.width)
    if buf.length < lp.width + n then .incomplete
    else .item ((buf.drop lp.width).take n) (buf.drop (lp.width + n))

variable {lp}

theorem front_item_iff {buf payload rest : List β} :
    lp.front buf = .item payload rest ↔
      lp.width ≤ buf.length ∧ lp.width + lp.read (buf.take lp.width) ≤ buf.length ∧
        payload = (buf.drop lp.width).take (lp.read (buf.take lp.width)) ∧
        rest = buf.drop (lp.width + lp.read (buf.take lp.width)) := by
  unfold front
  dsimp only
  split_ifs with hheader hpayload
  · exact ⟨nofun, fun h => absurd h.1 (Nat.not_le.2 hheader)⟩
  · exact ⟨nofun, fun h => absurd h.2.1 (Nat.not_le.2 hpayload)⟩
  · rw [Front.item.injEq]
    constructor
    · rintro ⟨rfl, rfl⟩
      exact ⟨Nat.not_lt.1 hheader, Nat.not_lt.1 hpayload, rfl, rfl⟩
    · rintro ⟨-, -, rfl, rfl⟩
      exact ⟨rfl, rfl⟩

theorem front_ne_malformed {buf : List β} {e : Empty} : lp.front buf ≠ .malformed e :=
  nomatch e

/-- A complete frame stays what it is when more arrives. -/
theorem front_item_append {buf payload rest : List β} (h : lp.front buf = .item payload rest)
    (more : List β) : lp.front (buf ++ more) = .item payload (rest ++ more) := by
  obtain ⟨hheader, hpayload, rfl, rfl⟩ := front_item_iff.1 h
  rw [front_item_iff, List.take_append_of_le_length hheader,
    List.drop_append_of_le_length hheader, List.drop_append_of_le_length hpayload,
    List.take_append_of_le_length (by rw [List.length_drop]; omega), List.length_append]
  exact ⟨by omega, by omega, rfl, rfl⟩

theorem front_shrinks {buf payload rest : List β} (h : lp.front buf = .item payload rest) :
    rest.length < buf.length := by
  obtain ⟨hheader, -, -, rfl⟩ := front_item_iff.1 h
  have hpos := lp.width_pos
  rw [List.length_drop]
  omega

variable (lp) in
/-- The frames of a stream, as a decoder. -/
def frames : Decoder (List β) β Empty where
  front := lp.front
  shrinks := front_shrinks
  item_append := front_item_append
  malformed_append := fun h => absurd h front_ne_malformed

/-- A frame that was written is at the front. -/
theorem front_frame {payload : List β} (h : payload.length < lp.bound) (more : List β) :
    lp.front (lp.frame payload ++ more) = .item payload more := by
  have hwidth := lp.length_write payload.length
  have hread : lp.read ((lp.frame payload ++ more).take lp.width) = payload.length := by
    rw [frame, List.append_assoc, ← hwidth, List.take_left, lp.read_write _ h]
  rw [front_item_iff, hread, frame, List.append_assoc, ← hwidth, ← List.drop_drop, List.drop_left,
    List.drop_left, List.take_left, List.length_append, List.length_append]
  exact ⟨by omega, by omega, rfl, rfl⟩

theorem front_nil : lp.front [] = .incomplete :=
  if_pos lp.width_pos

@[simp] theorem wire_nil : lp.wire [] = [] :=
  rfl

@[simp] theorem wire_cons (payload : List β) (payloads : List (List β)) :
    lp.wire (payload :: payloads) = lp.frame payload ++ lp.wire payloads :=
  rfl

theorem wire_concat (payloads : List (List β)) (payload : List β) :
    lp.wire (payloads ++ [payload]) = lp.wire payloads ++ lp.frame payload := by
  simp [wire]

/-- What was written is read back. -/
theorem split_wire {payloads : List (List β)} (h : ∀ p ∈ payloads, p.length < lp.bound) :
    lp.frames.split (lp.wire payloads) = .ok (payloads, []) := by
  induction payloads with
  | nil => exact Decoder.split_of_incomplete front_nil
  | cons p payloads ih =>
    obtain ⟨hp, hrest⟩ := List.forall_mem_cons.1 h
    rw [wire_cons, Decoder.split_of_item (front_frame hp _), ih hrest]
    rfl

/-- A start of it holds a start of the frames. -/
theorem split_of_isPrefix {payloads : List (List β)} (h : ∀ p ∈ payloads, p.length < lp.bound)
    {start : List β} (hstart : start <+: lp.wire payloads) :
    ∃ earlier rest, lp.frames.split start = .ok (earlier, rest) ∧ earlier <+: payloads := by
  obtain ⟨more, hmore⟩ := hstart
  have hall := split_wire h
  rw [← hmore] at hall
  obtain ⟨r, hr, items, -, hitems⟩ := Decoder.split_of_append hall
  exact ⟨r.1, r.2, hr, items, hitems.symm⟩

end LengthPrefix

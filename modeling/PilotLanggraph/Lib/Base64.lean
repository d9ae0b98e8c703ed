import Mathlib.Data.List.Basic

/-!
# Base64

`encode` writes three bytes as four digits and pads the last group. `decode` is the
lenient decoder : a character outside the alphabet is skipped, and the padding that ends
a group ends the input. It reads back what `encode` writes (`decode_encode`).
-/

namespace Base64

/-- The digit of a number below 64. -/
def digit (n : ℕ) : Char :=
  if n < 26 then Char.ofNat (65 + n)
  else if n < 52 then Char.ofNat (71 + n)
  else if n < 62 then Char.ofNat (n - 4)
  else if n = 62 then '+'
  else '/'

/-- The number of a digit. -/
def value (c : Char) : Option ℕ :=
  if 65 ≤ c.toNat ∧ c.toNat ≤ 90 then some (c.toNat - 65)
  else if 97 ≤ c.toNat ∧ c.toNat ≤ 122 then some (c.toNat - 71)
  else if 48 ≤ c.toNat ∧ c.toNat ≤ 57 then some (c.toNat + 4)
  else if c = '+' then some 62
  else if c = '/' then some 63
  else none

/-- Three bytes as four digits. -/
def encode : List UInt8 → List Char
  | [] => []
  | [a] => [digit (a.toNat / 4), digit (a.toNat % 4 * 16), '=', '=']
  | [a, b] =>
    [digit (a.toNat / 4), digit (a.toNat % 4 * 16 + b.toNat / 16), digit (b.toNat % 16 * 4), '=']
  | a :: b :: c :: bytes =>
    digit (a.toNat / 4) :: digit (a.toNat % 4 * 16 + b.toNat / 16) ::
      digit (b.toNat % 16 * 4 + c.toNat / 64) :: digit (c.toNat % 64) :: encode bytes

/-- The decoder, at digit `pos` of a group, with the bits left over from the digit before
and the number of padding characters since. -/
def decodeFrom : List Char → ℕ → ℕ → ℕ → Option (List UInt8)
  | [], pos, _, _ => if pos = 0 then some [] else none
  | c :: cs, pos, left, pads =>
    if c = '=' then
      if 2 ≤ pos then
        if 4 ≤ pos + (pads + 1) then some [] else decodeFrom cs pos left (pads + 1)
      else decodeFrom cs pos left pads
    else
      match value c, pos with
      | none, pos => decodeFrom cs pos left pads
      | some d, 0 => decodeFrom cs 1 d 0
      | some d, 1 => (decodeFrom cs 2 (d % 16) 0).map (UInt8.ofNat (left * 4 + d / 16) :: ·)
      | some d, 2 => (decodeFrom cs 3 (d % 4) 0).map (UInt8.ofNat (left * 16 + d / 4) :: ·)
      | some d, _ => (decodeFrom cs 0 0 0).map (UInt8.ofNat (left * 64 + d) :: ·)

/-- The bytes of a text. -/
def decode (cs : List Char) : Option (List UInt8) :=
  decodeFrom cs 0 0 0

theorem digit_spec :
    ∀ n < 64, value (digit n) = some n ∧ digit n ≠ '=' ∧ (digit n).toNat < 128 := by
  decide

section

variable {n : ℕ} (hn : n < 64) (cs : List Char) (left pads : ℕ)

include hn

theorem decodeFrom_zero : decodeFrom (digit n :: cs) 0 left pads = decodeFrom cs 1 n 0 := by
  obtain ⟨hvalue, hpad, -⟩ := digit_spec n hn
  conv_lhs => unfold decodeFrom
  simp only [hpad, if_false, hvalue]

theorem decodeFrom_one : decodeFrom (digit n :: cs) 1 left pads =
    (decodeFrom cs 2 (n % 16) 0).map (UInt8.ofNat (left * 4 + n / 16) :: ·) := by
  obtain ⟨hvalue, hpad, -⟩ := digit_spec n hn
  conv_lhs => unfold decodeFrom
  simp only [hpad, if_false, hvalue]

theorem decodeFrom_two : decodeFrom (digit n :: cs) 2 left pads =
    (decodeFrom cs 3 (n % 4) 0).map (UInt8.ofNat (left * 16 + n / 4) :: ·) := by
  obtain ⟨hvalue, hpad, -⟩ := digit_spec n hn
  conv_lhs => unfold decodeFrom
  simp only [hpad, if_false, hvalue]

theorem decodeFrom_three : decodeFrom (digit n :: cs) 3 left pads =
    (decodeFrom cs 0 0 0).map (UInt8.ofNat (left * 64 + n) :: ·) := by
  obtain ⟨hvalue, hpad, -⟩ := digit_spec n hn
  conv_lhs => unfold decodeFrom
  simp only [hpad, if_false, hvalue]

end

theorem ofNat_eq {a : UInt8} {n : ℕ} (h : n = a.toNat) : UInt8.ofNat n = a := by
  rw [h, UInt8.ofNat_toNat]

theorem decodeFrom_encode : ∀ bytes : List UInt8, decodeFrom (encode bytes) 0 0 0 = some bytes
  | [] => rfl
  | [a] => by
    have ha := a.toNat_lt
    have h₀ : UInt8.ofNat (a.toNat / 4 * 4 + a.toNat % 4 * 16 / 16) = a := ofNat_eq (by omega)
    rw [encode, decodeFrom_zero (by omega), decodeFrom_one (by omega), h₀]
    rfl
  | [a, b] => by
    have ha := a.toNat_lt
    have hb := b.toNat_lt
    have h₀ : UInt8.ofNat (a.toNat / 4 * 4 + (a.toNat % 4 * 16 + b.toNat / 16) / 16) = a :=
      ofNat_eq (by omega)
    have h₁ : UInt8.ofNat
        ((a.toNat % 4 * 16 + b.toNat / 16) % 16 * 16 + b.toNat % 16 * 4 / 4) = b :=
      ofNat_eq (by omega)
    rw [encode, decodeFrom_zero (by omega), decodeFrom_one (by omega), decodeFrom_two (by omega),
      h₀, h₁]
    rfl
  | a :: b :: c :: bytes => by
    have ha := a.toNat_lt
    have hb := b.toNat_lt
    have hc := c.toNat_lt
    have h₀ : UInt8.ofNat (a.toNat / 4 * 4 + (a.toNat % 4 * 16 + b.toNat / 16) / 16) = a :=
      ofNat_eq (by omega)
    have h₁ : UInt8.ofNat ((a.toNat % 4 * 16 + b.toNat / 16) % 16 * 16 +
        (b.toNat % 16 * 4 + c.toNat / 64) / 4) = b := ofNat_eq (by omega)
    have h₂ : UInt8.ofNat ((b.toNat % 16 * 4 + c.toNat / 64) % 4 * 64 + c.toNat % 64) = c :=
      ofNat_eq (by omega)
    rw [encode, decodeFrom_zero (by omega), decodeFrom_one (by omega), decodeFrom_two (by omega),
      decodeFrom_three (by omega), decodeFrom_encode bytes, h₀, h₁, h₂]
    rfl

/-- What `encode` writes is read back. -/
theorem decode_encode (bytes : List UInt8) : decode (encode bytes) = some bytes :=
  decodeFrom_encode bytes

/-- The output is ASCII. -/
theorem lt_of_mem_encode : ∀ {bytes : List UInt8} {c : Char}, c ∈ encode bytes → c.toNat < 128
  | [a], c, hc => by
    have ha := a.toNat_lt
    simp only [encode, List.mem_cons, List.not_mem_nil, or_false] at hc
    rcases hc with rfl | rfl | rfl | rfl
    · exact (digit_spec _ (by omega)).2.2
    · exact (digit_spec _ (by omega)).2.2
    · decide
    · decide
  | [a, b], c, hc => by
    have ha := a.toNat_lt
    have hb := b.toNat_lt
    simp only [encode, List.mem_cons, List.not_mem_nil, or_false] at hc
    rcases hc with rfl | rfl | rfl | rfl
    · exact (digit_spec _ (by omega)).2.2
    · exact (digit_spec _ (by omega)).2.2
    · exact (digit_spec _ (by omega)).2.2
    · decide
  | a :: b :: d :: bytes, c, hc => by
    have ha := a.toNat_lt
    have hb := b.toNat_lt
    have hd := d.toNat_lt
    simp only [encode, List.mem_cons] at hc
    rcases hc with rfl | rfl | rfl | rfl | hc
    · exact (digit_spec _ (by omega)).2.2
    · exact (digit_spec _ (by omega)).2.2
    · exact (digit_spec _ (by omega)).2.2
    · exact (digit_spec _ (by omega)).2.2
    · exact lt_of_mem_encode hc

end Base64

import Mathlib.Algebra.Order.Ring.Nat
import Mathlib.Data.List.Induction

/-!
# Numerals

Digits and the numbers they are read as, the way Python's `int` and `format` have it. A
character is a decimal digit in one of the blocks of ten that Unicode has, each from its zero
on (`decimal?`). The value of a numeral is the same in every base (`value`), and the digits of
a number have its value (`value_toDigits`).
-/

namespace Numeral

/-! ## Digits -/

/-- The zeros of the decimal digits, as Unicode 15 has them. -/
def zeros : List ℕ :=
  [0x30, 0x660, 0x6F0, 0x7C0, 0x966, 0x9E6, 0xA66, 0xAE6, 0xB66, 0xBE6, 0xC66, 0xCE6, 0xD66, 0xDE6,
    0xE50, 0xED0, 0xF20, 0x1040, 0x1090, 0x17E0, 0x1810, 0x1946, 0x19D0, 0x1A80, 0x1A90, 0x1B50,
    0x1BB0, 0x1C40, 0x1C50, 0xA620, 0xA8D0, 0xA900, 0xA9D0, 0xA9F0, 0xAA50, 0xABF0, 0xFF10, 0x104A0,
    0x10D30, 0x11066, 0x110F0, 0x11136, 0x111D0, 0x112F0, 0x11450, 0x114D0, 0x11650, 0x116C0,
    0x11730, 0x118E0, 0x11950, 0x11C50, 0x11D50, 0x11DA0, 0x11F50, 0x16A60, 0x16AC0, 0x16B50,
    0x1D7CE, 0x1D7D8, 0x1D7E2, 0x1D7EC, 0x1D7F6, 0x1E140, 0x1E2F0, 0x1E4F0, 0x1E950, 0x1FBF0]

/-- The value of a decimal digit, `unicodedata.decimal`. -/
def decimal? (c : Char) : Option ℕ :=
  (zeros.find? fun z => z ≤ c.toNat ∧ c.toNat < z + 10).map (c.toNat - ·)

/-- The value of a hexadecimal digit, in either case. -/
def hex? (c : Char) : Option ℕ :=
  if 48 ≤ c.toNat ∧ c.toNat < 58 then some (c.toNat - 48)
  else if 65 ≤ c.toNat ∧ c.toNat < 71 then some (c.toNat - 55)
  else if 97 ≤ c.toNat ∧ c.toNat < 103 then some (c.toNat - 87)
  else none

theorem lt_of_hex? {c : Char} {d : ℕ} (h : hex? c = some d) : d < 16 := by
  unfold hex? at h
  split_ifs at h <;> cases h <;> omega

/-- The digits of ASCII come first. -/
theorem decimal?_of_isDigit {c : Char} (h : c.isDigit = true) :
    decimal? c = some (c.toNat - 48) := by
  have hblock : 48 ≤ c.toNat ∧ c.toNat < 48 + 10 := by
    simp only [Char.isDigit, Bool.and_eq_true, decide_eq_true_eq, UInt32.le_iff_toNat_le] at h
    exact ⟨h.1, Nat.lt_succ_of_le h.2⟩
  rw [decimal?, zeros, List.find?_cons_of_pos (by simpa using hblock), Option.map_some]

theorem decimal?_digitChar {d : ℕ} (hd : d < 10) : decimal? d.digitChar = some d := by
  rw [decimal?_of_isDigit (Nat.isDigit_digitChar.trans (decide_eq_true hd)),
    Nat.toNat_digitChar_sub_48_of_lt_ten hd]

/-- A digit in upper case. -/
theorem hex?_toUpper : ∀ d < 16, hex? d.digitChar.toUpper = some d := by
  decide

/-! ## Values -/

/-- What a numeral stands for. -/
def value (base : ℕ) (digit? : Char → Option ℕ) (cs : List Char) : ℕ :=
  cs.foldl (fun n c => base * n + (digit? c).getD 0) 0

variable {base n : ℕ} {digit? : Char → Option ℕ} {cs : List Char}

theorem value_concat (cs : List Char) (c : Char) :
    value base digit? (cs ++ [c]) = base * value base digit? cs + (digit? c).getD 0 :=
  List.foldl_append

/-- A numeral is below the power of the base with its length. -/
theorem value_lt (h : ∀ c ∈ cs, (digit? c).getD 0 < base) :
    value base digit? cs < base ^ cs.length := by
  induction cs using List.reverseRecOn with
  | nil => exact Nat.one_pos
  | append_singleton cs c ih =>
    have hlast := h c (by simp)
    have hrest := ih fun c hc => h c (List.mem_append_left _ hc)
    rw [value_concat, List.length_append, List.length_singleton, pow_succ]
    calc base * value base digit? cs + (digit? c).getD 0
        < base * value base digit? cs + base := Nat.add_lt_add_left hlast _
      _ = (value base digit? cs + 1) * base := by rw [Nat.succ_mul, Nat.mul_comm]
      _ ≤ base ^ cs.length * base := Nat.mul_le_mul_right _ hrest

/-- Zeros in front make no difference. -/
theorem value_replicate_append {zero : Char} (hzero : digit? zero = some 0) (k : ℕ)
    (cs : List Char) :
    value base digit? (List.replicate k zero ++ cs) = value base digit? cs := by
  induction cs using List.reverseRecOn with
  | nil =>
    rw [List.append_nil]
    induction k with
    | zero => rfl
    | succ k ih => rw [List.replicate_succ', value_concat, ih, hzero]; rfl
  | append_singleton cs c ih => rw [← List.append_assoc, value_concat, value_concat, ih]

/-- The digits of a number, however each is written. -/
theorem value_toDigits {write : Char → Char} (hbase : 1 < base)
    (h : ∀ d < base, digit? (write d.digitChar) = some d) (n : ℕ) :
    value base digit? ((Nat.toDigits base n).map write) = n := by
  induction n using Nat.strong_induction_on with
  | _ n ih =>
    rw [Nat.toDigits_eq_if hbase]
    split_ifs with hn
    · rw [List.map_singleton, value, List.foldl_cons, List.foldl_nil, h n hn]
      simp
    · have hpos : 0 < n := by omega
      rw [List.map_append, List.map_singleton, value_concat, ih _ (Nat.div_lt_self hpos hbase),
        h _ (Nat.mod_lt _ (by omega)), Option.getD_some, Nat.div_add_mod]

theorem exists_of_mem_toDigits (hbase : 1 < base) {c : Char} (h : c ∈ Nat.toDigits base n) :
    ∃ d < base, c = d.digitChar := by
  induction n using Nat.strong_induction_on with
  | _ n ih =>
    rw [Nat.toDigits_eq_if hbase] at h
    split_ifs at h with hn
    · exact ⟨n, hn, List.mem_singleton.1 h⟩
    · have hpos : 0 < n := by omega
      rcases List.mem_append.1 h with h | h
      · exact ih _ (Nat.div_lt_self hpos hbase) h
      · exact ⟨_, Nat.mod_lt _ (by omega), List.mem_singleton.1 h⟩

/-! ## Hexadecimal fields -/

/-- `format(n, "0{width}X")`. -/
def formatHex (width n : ℕ) : List Char :=
  ((Nat.toDigits 16 n).map Char.toUpper).leftpad width '0'

theorem value_formatHex (width n : ℕ) : value 16 hex? (formatHex width n) = n := by
  rw [formatHex, List.leftpad, value_replicate_append (by decide),
    value_toDigits (by decide) hex?_toUpper]

/-- A number that fits in the field fills it. -/
theorem length_formatHex {width : ℕ} (hwidth : 0 < width) (h : n < 16 ^ width) :
    (formatHex width n).length = width := by
  rw [formatHex, List.length_leftpad, List.length_map, max_eq_left]
  exact (Nat.length_toDigits_le_iff (by decide) hwidth).2 h

theorem isSome_hex?_of_mem_formatHex {width : ℕ} {c : Char} (h : c ∈ formatHex width n) :
    (hex? c).isSome = true := by
  rcases List.mem_append.1 h with h | h
  · rw [List.eq_of_mem_replicate h]
    decide
  · obtain ⟨c, hc, rfl⟩ := List.mem_map.1 h
    obtain ⟨d, hd, rfl⟩ := exists_of_mem_toDigits (by decide) hc
    rw [hex?_toUpper d hd]
    rfl

end Numeral

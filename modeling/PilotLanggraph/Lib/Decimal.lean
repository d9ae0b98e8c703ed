import Mathlib.Algebra.Order.Floor.Ring
import Mathlib.Data.Int.Log
import Mathlib.Data.List.DropRight
import Mathlib.Data.Rat.Floor

/-!
# Decimal fractions

A decimal fraction has a sign, digits before and after a point, and an exponent. `text` writes
it, `readNumber` reads it (`readNumber_text`). `general` is the fraction that Python's format
`.{n}g` makes of a number : its `n` most significant digits, without the zeros at the end, and
with an exponent where the point would be too far from them.
-/

/-! ## Rounding -/

/-- The nearest integer, and of two the even one. -/
def roundEven (x : ℚ) : ℤ :=
  let below := ⌊x⌋
  let rest := x - below
  if rest < 1 / 2 then below
  else if 1 / 2 < rest then below + 1
  else if below % 2 = 0 then below
  else below + 1

theorem roundEven_intCast (z : ℤ) : roundEven z = z := by
  simp [roundEven]

/-- The nearest fraction with so many decimal places. -/
def roundTo (places : ℕ) (x : ℚ) : ℚ :=
  roundEven (x * 10 ^ places) / 10 ^ places

/-- The nearest number of 53 binary digits : a double, but for the bounds of its exponent. -/
def toDouble (x : ℚ) : ℚ :=
  let e := 52 - Int.log 2 |x|
  roundEven (x * 2 ^ e) / 2 ^ e

/-- Integers that fit in 53 binary digits are doubles. -/
theorem toDouble_natCast {n : ℕ} (h : n < 2 ^ 53) : toDouble n = n := by
  have hlog : Nat.log 2 n ≤ 52 :=
    Nat.lt_succ_iff.1 (Nat.log_lt_of_lt_pow' (by decide) h)
  have he : (52 : ℤ) - Int.log 2 |(n : ℚ)| = ((52 - Nat.log 2 n : ℕ) : ℤ) := by
    rw [Nat.abs_cast, Int.log_natCast, Nat.cast_sub hlog]
    rfl
  have hint : (n : ℚ) * 2 ^ (52 - Nat.log 2 n) = ((n * 2 ^ (52 - Nat.log 2 n) : ℕ) : ℤ) := by
    push_cast
    ring
  rw [toDouble, he, zpow_natCast, hint, roundEven_intCast, ← hint]
  exact mul_div_cancel_right₀ _ (by positivity)

/-! ## Decimal fractions and their text -/

/-- A list of decimal digits. -/
structure Digits where
  chars : List Char
  isDigit : ∀ c ∈ chars, c.isDigit = true

/-- An exponent with its sign, which is always written. -/
structure Exponent where
  negative : Bool
  digits : Digits
  ne_nil : digits.chars ≠ []

/-- A decimal fraction. -/
structure Decimal where
  negative : Bool
  whole : Digits
  whole_ne_nil : whole.chars ≠ []
  fraction : Digits
  exponent : Option Exponent

namespace Decimal

/-- The digits of a number. -/
def digits (n : ℕ) : Digits :=
  ⟨Nat.toDigits 10 n, fun _ hc => Nat.isDigit_of_mem_toDigits (by decide) (by decide) hc⟩

theorem digits_ne_nil (n : ℕ) : (digits n).chars ≠ [] :=
  Nat.toDigits_ne_nil

/-- An integer. -/
def ofInt (z : ℤ) : Decimal where
  negative := decide (z < 0)
  whole := digits z.natAbs
  whole_ne_nil := digits_ne_nil z.natAbs
  fraction := ⟨[], fun _ hc => (by cases hc)⟩
  exponent := none

/-- The sign. -/
def signText (negative : Bool) : List Char :=
  if negative then ['-'] else []

/-- The point and what follows it, unless that is nothing. -/
def fractionText (fraction : List Char) : List Char :=
  if fraction = [] then [] else '.' :: fraction

/-- The exponent. -/
def exponentText : Option Exponent → List Char
  | none => []
  | some e => 'e' :: (if e.negative then '-' else '+') :: e.digits.chars

/-- How it is written. -/
def text (d : Decimal) : List Char :=
  signText d.negative ++
    (d.whole.chars ++ (fractionText d.fraction.chars ++ exponentText d.exponent))

/-- The number that the parts stand for. -/
def value (negative : Bool) (whole fraction : List Char) (exponent : ℤ) : ℚ :=
  (if negative then -1 else 1) * (Nat.ofDigitChars 10 (whole ++ fraction) 0 : ℚ) *
    (10 : ℚ) ^ (exponent - fraction.length)

/-! ## Reading -/

/-- A sign, if there is one. -/
def readSign : List Char → Bool × List Char
  | [] => (false, [])
  | c :: cs => if c = '-' then (true, cs) else if c = '+' then (false, cs) else (false, c :: cs)

/-- A run of digits that is not empty. -/
def readDigits (cs : List Char) : Option (List Char × List Char) :=
  if cs.takeWhile Char.isDigit = [] then none
  else some (cs.takeWhile Char.isDigit, cs.dropWhile Char.isDigit)

/-- A point with digits, if there is a point. -/
def readFraction : List Char → Option (List Char × List Char)
  | [] => some ([], [])
  | c :: cs => if c = '.' then readDigits cs else some ([], c :: cs)

/-- An exponent at the end, if there is one. -/
def readExponent : List Char → Option ℤ
  | [] => some 0
  | c :: cs =>
    if c = 'e' ∨ c = 'E' then
      (readDigits (readSign cs).2).bind fun r =>
        if r.2 = [] then
          some ((if (readSign cs).1 then -1 else 1) * (Nat.ofDigitChars 10 r.1 0 : ℤ))
        else none
    else none

/-- The number that a text stands for. -/
def readNumber (cs : List Char) : Option ℚ := do
  let (negative, rest) := readSign cs
  let (whole, rest) ← readDigits rest
  let (fraction, rest) ← readFraction rest
  let exponent ← readExponent rest
  return value negative whole fraction exponent

section

variable {ds cs : List Char}

theorem ne_of_isDigit {c c' : Char} (h : c.isDigit = true) (h' : c'.isDigit = false) : c ≠ c' := by
  rintro rfl
  cases h.symm.trans h'

theorem takeWhile_append_stop {p : Char → Bool} (hds : ∀ c ∈ ds, p c = true)
    (hcs : ∀ c ∈ cs.head?, p c = false) : (ds ++ cs).takeWhile p = ds := by
  rw [List.takeWhile_append_of_pos hds]
  cases cs with
  | nil => simp
  | cons c cs =>
    have hc : ¬p c = true := by simp [hcs c rfl]
    rw [List.takeWhile_cons_of_neg hc, List.append_nil]

theorem dropWhile_append_stop {p : Char → Bool} (hds : ∀ c ∈ ds, p c = true)
    (hcs : ∀ c ∈ cs.head?, p c = false) : (ds ++ cs).dropWhile p = cs := by
  rw [List.dropWhile_append_of_pos hds]
  cases cs with
  | nil => rfl
  | cons c cs =>
    have hc : ¬p c = true := by simp [hcs c rfl]
    exact List.dropWhile_cons_of_neg hc

theorem readDigits_append (hds : ∀ c ∈ ds, c.isDigit = true) (hne : ds ≠ [])
    (hcs : ∀ c ∈ cs.head?, c.isDigit = false) : readDigits (ds ++ cs) = some (ds, cs) := by
  rw [readDigits, takeWhile_append_stop hds hcs, dropWhile_append_stop hds hcs, if_neg hne]

/-- A digit is no sign. -/
theorem readSign_of_isDigit (hds : ∀ c ∈ ds, c.isDigit = true) (hne : ds ≠ []) :
    readSign (ds ++ cs) = (false, ds ++ cs) := by
  cases ds with
  | nil => exact absurd rfl hne
  | cons d ds =>
    have hd := hds d (by simp)
    rw [List.cons_append, readSign, if_neg (ne_of_isDigit hd rfl), if_neg (ne_of_isDigit hd rfl)]

theorem readSign_signText (negative : Bool) (hds : ∀ c ∈ ds, c.isDigit = true) (hne : ds ≠ []) :
    readSign (signText negative ++ (ds ++ cs)) = (negative, ds ++ cs) := by
  cases negative with
  | false =>
    change readSign (ds ++ cs) = _
    exact readSign_of_isDigit hds hne
  | true => rfl

theorem readExponent_exponentText (e : Option Exponent) :
    ∃ n, readExponent (exponentText e) = some n := by
  cases e with
  | none => exact ⟨0, rfl⟩
  | some e =>
    obtain ⟨negative, ⟨ds, hds⟩, hne⟩ := e
    have hread : readDigits ds = some (ds, []) := by
      have hnil : ∀ c ∈ ([] : List Char).head?, c.isDigit = false := by simp
      have happend := readDigits_append hds hne hnil
      rwa [List.append_nil] at happend
    cases negative with
    | false =>
      refine ⟨1 * (Nat.ofDigitChars 10 ds 0 : ℤ), ?_⟩
      change (readDigits ds).bind _ = _
      rw [hread]
      rfl
    | true =>
      refine ⟨-1 * (Nat.ofDigitChars 10 ds 0 : ℤ), ?_⟩
      change (readDigits ds).bind _ = _
      rw [hread]
      rfl

theorem head?_exponentText (e : Option Exponent) :
    ∀ c ∈ (exponentText e).head?, c = 'e' := by
  cases e with
  | none => simp [exponentText]
  | some e => simp [exponentText]

theorem readFraction_fractionText (fraction : Digits)
    (e : Option Exponent) :
    readFraction (fractionText fraction.chars ++ exponentText e) =
      some (fraction.chars, exponentText e) := by
  have hexp := head?_exponentText e
  obtain ⟨ds, hds⟩ := fraction
  cases ds with
  | nil =>
    rw [fractionText, if_pos rfl, List.nil_append]
    cases htext : exponentText e with
    | nil => rfl
    | cons c cs =>
      rw [htext] at hexp
      obtain rfl := hexp c rfl
      rfl
  | cons d ds =>
    rw [fractionText, if_neg (List.cons_ne_nil d ds), List.cons_append, readFraction, if_pos rfl]
    refine readDigits_append hds (List.cons_ne_nil d ds) fun c hc => ?_
    rw [hexp c hc]
    rfl

/-- What is written is read as the number its parts stand for. -/
theorem readNumber_of_exponent {d : Decimal} {n : ℤ}
    (hn : readExponent (exponentText d.exponent) = some n) :
    readNumber d.text = some (value d.negative d.whole.chars d.fraction.chars n) := by
  have hhead : ∀ c ∈ (fractionText d.fraction.chars ++ exponentText d.exponent).head?,
      c.isDigit = false := by
    unfold fractionText
    split_ifs
    · intro c hc
      rw [head?_exponentText d.exponent c hc]
      rfl
    · intro c hc
      obtain rfl : '.' = c := Option.some.inj hc
      rfl
  simp only [readNumber, text, readSign_signText d.negative d.whole.isDigit d.whole_ne_nil,
    readDigits_append d.whole.isDigit d.whole_ne_nil hhead, readFraction_fractionText, hn,
    Option.bind_eq_bind, Option.bind_some, Option.pure_def]

/-- What is written is a number. -/
theorem readNumber_text (d : Decimal) : ∃ x, readNumber d.text = some x := by
  obtain ⟨n, hn⟩ := readExponent_exponentText d.exponent
  exact ⟨_, readNumber_of_exponent hn⟩

/-- An integer is read back. -/
theorem readNumber_ofInt (z : ℤ) : readNumber (ofInt z).text = some (z : ℚ) := by
  rw [readNumber_of_exponent (n := 0) rfl]
  congr 1
  have hdigits : Nat.ofDigitChars 10 (Nat.toDigits 10 z.natAbs ++ []) 0 = z.natAbs := by
    rw [List.append_nil, Nat.ofDigitChars_toDigits (by decide) (by decide)]
  simp only [value, ofInt, digits, hdigits, List.length_nil, Nat.cast_zero, sub_zero, zpow_zero,
    mul_one, decide_eq_true_eq]
  split_ifs with hz
  · have habs : ((z.natAbs : ℤ) : ℚ) = ((-z : ℤ) : ℚ) := by
      rw [Int.ofNat_natAbs_of_nonpos hz.le]
    rw [← Int.cast_natCast, habs]
    push_cast
    ring
  · have habs : ((z.natAbs : ℤ) : ℚ) = (z : ℚ) := by
      rw [Int.natAbs_of_nonneg (not_lt.1 hz)]
    rw [← Int.cast_natCast, habs, one_mul]

/-- Digits, a point, an exponent and signs : no other character is written. -/
theorem mem_text {d : Decimal} {c : Char} (h : c ∈ d.text) :
    c.isDigit = true ∨ c = '-' ∨ c = '+' ∨ c = '.' ∨ c = 'e' := by
  obtain ⟨negative, ⟨whole, hwhole⟩, hne, ⟨fraction, hfraction⟩, exponent⟩ := d
  simp only [text, signText, fractionText, List.mem_append] at h
  rcases h with h | h | h | h
  · split_ifs at h <;> simp_all
  · exact .inl (hwhole c h)
  · split_ifs at h with hnil
    · cases h
    · rcases List.mem_cons.1 h with rfl | h
      · simp
      · exact .inl (hfraction c h)
  · cases exponent with
    | none => cases h
    | some e =>
      obtain ⟨negative, ⟨ds, hds⟩, hne⟩ := e
      simp only [exponentText, List.mem_cons] at h
      rcases h with rfl | rfl | h
      · simp
      · cases negative <;> simp
      · exact .inl (hds c h)

end

end Decimal

/-! ## The format `g` -/

namespace Digits

/-- Some of the digits. -/
def sub (ds : Digits) (cs : List Char) (h : cs ⊆ ds.chars) : Digits :=
  ⟨cs, fun c hc => ds.isDigit c (h hc)⟩

/-- Without the zeros at the end. -/
def strip (ds : Digits) : Digits :=
  ds.sub (ds.chars.rdropWhile (· = '0')) (List.rdropWhile_prefix _ _).subset

/-- With zeros in front. -/
def pad (k : ℕ) (ds : Digits) : Digits :=
  ⟨List.replicate k '0' ++ ds.chars, fun c hc => by
    rcases List.mem_append.1 hc with hc | hc
    · rw [List.eq_of_mem_replicate hc]
      rfl
    · exact ds.isDigit c hc⟩

end Digits

namespace Decimal

/-- The `n` most significant digits of a positive number, and the power of ten of the first. -/
def significant (n : ℕ) (x : ℚ) : ℕ × ℤ :=
  let e := Int.log 10 x
  let m := (roundEven (x * 10 ^ ((n : ℤ) - 1 - e))).toNat
  if m = 10 ^ n then (10 ^ (n - 1), e + 1) else (m, e)

/-- Digits with the point after the first `k + 1` of them. -/
def pointed (negative : Bool) (m k : ℕ) (exponent : Option Exponent) :
    Decimal where
  negative := negative
  whole := (digits m).sub ((digits m).chars.take (k + 1)) (List.take_subset _ _)
  whole_ne_nil := by simp [Digits.sub, digits_ne_nil m]
  fraction := ((digits m).sub ((digits m).chars.drop (k + 1)) (List.drop_subset _ _)).strip
  exponent := exponent

/-- `format(x, ".{n}g")`. -/
def general (n : ℕ) (x : ℚ) : Decimal :=
  if x = 0 then pointed false 0 0 none
  else
    let negative := decide (x < 0)
    let (m, e) := significant n |x|
    if -4 ≤ e ∧ e < n then
      if 0 ≤ e then pointed negative m e.toNat none
      else { pointed negative 0 0 none with
        fraction := ((digits m).pad (-e - 1).toNat).strip }
    else
      -- The exponent has two digits at least.
      let power := digits e.natAbs
      pointed negative m 0 (some ⟨decide (e < 0), power.pad (2 - power.chars.length), by
        simp [Digits.pad, power, digits_ne_nil]⟩)

example : [12.5, 1 / 81000, 999999.5, -(1 / 800)].map (fun x => (general 6 x).text) =
    ["12.5".toList, "1.23457e-05".toList, "1e+06".toList, "-0.00125".toList] := by
  decide +kernel

end Decimal

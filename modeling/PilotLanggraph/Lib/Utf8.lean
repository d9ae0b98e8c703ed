import Mathlib.Data.List.Basic

/-!
# UTF-8 with replacement characters

`encode` is the UTF-8 form of a text, `decode` reads any bytes as text : each longest start of
a sequence that goes no further becomes one replacement character, and so does each byte that
starts no sequence. Decoding undoes encoding (`decode_encode`), and the text read from some
bytes is at most four times as long as they are (`length_encode_decode_le`). A text of ASCII is
read from its own bytes only (`decode_eq_iff`).
-/

namespace Utf8

/-- The bytes of a text. -/
def encode (text : String) : List UInt8 :=
  text.toList.flatMap String.utf8EncodeChar

/-- A sequence under way : how many bytes follow the next one, the range of the next one, and
the value so far. -/
structure Pending where
  more : ℕ
  low : ℕ
  high : ℕ
  value : ℕ

/-- U+FFFD. -/
def replacement : Char :=
  Char.ofNat 0xFFFD

/-- A byte between sequences : the characters it completes, and the sequence it starts. -/
def start (b : UInt8) : List Char × Option Pending :=
  let n := b.toNat
  if n < 0x80 then ([Char.ofNat n], none)
  else if n < 0xC2 then ([replacement], none)
  else if n < 0xE0 then ([], some ⟨0, 0x80, 0xBF, n - 0xC0⟩)
  -- Neither an overlong form nor a surrogate.
  else if n = 0xE0 then ([], some ⟨1, 0xA0, 0xBF, 0⟩)
  else if n = 0xED then ([], some ⟨1, 0x80, 0x9F, 0xD⟩)
  else if n < 0xF0 then ([], some ⟨1, 0x80, 0xBF, n - 0xE0⟩)
  else if n = 0xF0 then ([], some ⟨2, 0x90, 0xBF, 0⟩)
  else if n < 0xF4 then ([], some ⟨2, 0x80, 0xBF, n - 0xF0⟩)
  else if n = 0xF4 then ([], some ⟨2, 0x80, 0x8F, 4⟩)
  else ([replacement], none)

/-- A byte. One that does not go on the sequence under way ends it and is read anew. -/
def step : Option Pending → UInt8 → List Char × Option Pending
  | none, b => start b
  | some p, b =>
    if p.low ≤ b.toNat ∧ b.toNat ≤ p.high then
      match p.more with
      | 0 => ([Char.ofNat (p.value * 64 + (b.toNat - 0x80))], none)
      | more + 1 => ([], some ⟨more, 0x80, 0xBF, p.value * 64 + (b.toNat - 0x80)⟩)
    else (replacement :: (start b).1, (start b).2)

/-- The characters of some bytes, after the sequence under way. -/
def decodeFrom : Option Pending → List UInt8 → List Char
  | none, [] => []
  | some _, [] => [replacement]
  | p, b :: bytes => (step p b).1 ++ decodeFrom (step p b).2 bytes

/-- The text of some bytes. -/
def decode (bytes : List UInt8) : String :=
  String.ofList (decodeFrom none bytes)

-- A surrogate, an overlong form and a truncated sequence.
example : decodeFrom none [0xED, 0xA0, 0x41, 0xC0, 0xF0, 0x90, 0x80] =
    [replacement, replacement, 'A', replacement, replacement] := by
  decide

theorem decodeFrom_cons (p : Option Pending) (b : UInt8) (bytes : List UInt8) :
    decodeFrom p (b :: bytes) = (step p b).1 ++ decodeFrom (step p b).2 bytes := by
  cases p <;> rfl

/-! ## Decoding what was encoded -/

/-- A byte in the range of the sequence under way goes it on. -/
theorem decodeFrom_more {p : Pending} {more n : ℕ} (hmore : p.more = more + 1) (hn : n < 256)
    (hlow : p.low ≤ n) (hhigh : n ≤ p.high) (bytes : List UInt8) :
    decodeFrom (some p) (UInt8.ofNat n :: bytes) =
      decodeFrom (some ⟨more, 0x80, 0xBF, p.value * 64 + (n - 0x80)⟩) bytes := by
  have hb : (UInt8.ofNat n).toNat = n := by simp [Nat.mod_eq_of_lt hn]
  rw [decodeFrom_cons, step, hb, if_pos ⟨hlow, hhigh⟩, hmore]
  rfl

/-- The last byte completes a character. -/
theorem decodeFrom_last {p : Pending} {n : ℕ} (hmore : p.more = 0) (hn : n < 256)
    (hlow : p.low ≤ n) (hhigh : n ≤ p.high) (bytes : List UInt8) :
    decodeFrom (some p) (UInt8.ofNat n :: bytes) =
      Char.ofNat (p.value * 64 + (n - 0x80)) :: decodeFrom none bytes := by
  have hb : (UInt8.ofNat n).toNat = n := by simp [Nat.mod_eq_of_lt hn]
  rw [decodeFrom_cons, step, hb, if_pos ⟨hlow, hhigh⟩, hmore]
  rfl

/-- The lead byte of a sequence. -/
theorem decodeFrom_start {b : UInt8} {p : Pending} (h : start b = ([], some p))
    (bytes : List UInt8) : decodeFrom none (b :: bytes) = decodeFrom (some p) bytes := by
  rw [decodeFrom_cons, step, h, List.nil_append]

theorem start_one {v : ℕ} (hv : v < 0x80) :
    start (UInt8.ofNat v) = ([Char.ofNat v], none) := by
  have hb : (UInt8.ofNat v).toNat = v := by
    rw [UInt8.toNat_ofNat']
    omega
  rw [start, hb, if_pos hv]

theorem start_two {v : ℕ} (hlow : 0x80 ≤ v) (hhigh : v < 0x800) :
    start (UInt8.ofNat (v / 64 % 32 + 0xC0)) = ([], some ⟨0, 0x80, 0xBF, v / 64⟩) := by
  have hb : (UInt8.ofNat (v / 64 % 32 + 0xC0)).toNat = v / 64 + 0xC0 := by
    rw [UInt8.toNat_ofNat']
    omega
  rw [start, hb, if_neg (by omega), if_neg (by omega), if_pos (by omega), Nat.add_sub_cancel]

/-- The range of the second byte leaves out overlong forms and surrogates. -/
theorem start_three {v : ℕ} (hlow : 0x800 ≤ v) (hhigh : v < 0x10000)
    (hvalid : v < 0xD800 ∨ 0xDFFF < v) :
    ∃ low high, start (UInt8.ofNat (v / 4096 % 16 + 0xE0)) =
        ([], some ⟨1, low, high, v / 4096⟩) ∧
      low ≤ v / 64 % 64 + 0x80 ∧ v / 64 % 64 + 0x80 ≤ high := by
  have hb : (UInt8.ofNat (v / 4096 % 16 + 0xE0)).toNat = v / 4096 + 0xE0 := by
    rw [UInt8.toNat_ofNat']
    omega
  rw [start, hb, if_neg (by omega), if_neg (by omega), if_neg (by omega)]
  by_cases h0 : v / 4096 = 0
  · rw [if_pos (by omega), h0]
    exact ⟨_, _, rfl, by omega, by omega⟩
  rw [if_neg (by omega)]
  by_cases hd : v / 4096 = 0xD
  · rw [if_pos (by omega), hd]
    exact ⟨_, _, rfl, by omega, by omega⟩
  · rw [if_neg (by omega), if_pos (by omega), Nat.add_sub_cancel]
    exact ⟨_, _, rfl, by omega, by omega⟩

theorem start_four {v : ℕ} (hlow : 0x10000 ≤ v) (hhigh : v < 0x110000) :
    ∃ low high, start (UInt8.ofNat (v / 262144 % 8 + 0xF0)) =
        ([], some ⟨2, low, high, v / 262144⟩) ∧
      low ≤ v / 4096 % 64 + 0x80 ∧ v / 4096 % 64 + 0x80 ≤ high := by
  have hb : (UInt8.ofNat (v / 262144 % 8 + 0xF0)).toNat = v / 262144 + 0xF0 := by
    rw [UInt8.toNat_ofNat']
    omega
  rw [start, hb, if_neg (by omega), if_neg (by omega), if_neg (by omega), if_neg (by omega),
    if_neg (by omega), if_neg (by omega)]
  by_cases h0 : v / 262144 = 0
  · rw [if_pos (by omega), h0]
    exact ⟨_, _, rfl, by omega, by omega⟩
  rw [if_neg (by omega)]
  by_cases h4 : v / 262144 = 4
  · rw [if_neg (by omega), if_pos (by omega), h4]
    exact ⟨_, _, rfl, by omega, by omega⟩
  · rw [if_pos (by omega), Nat.add_sub_cancel]
    exact ⟨_, _, rfl, by omega, by omega⟩

/-- The sequence of a character is read back as that character. -/
theorem decodeFrom_encodeChar (c : Char) (bytes : List UInt8) :
    decodeFrom none (String.utf8EncodeChar c ++ bytes) = c :: decodeFrom none bytes := by
  have hvalid : c.val.toNat < 0xD800 ∨ 0xDFFF < c.val.toNat ∧ c.val.toNat < 0x110000 := c.valid
  have hc : Char.ofNat c.val.toNat = c := Char.ofNat_toNat c
  obtain ⟨v, hv⟩ : ∃ v, c.val.toNat = v := ⟨_, rfl⟩
  unfold String.utf8EncodeChar
  simp only [hv]
  rw [hv] at hvalid hc
  rw [← hc]
  split_ifs with h1 h2 h3
  · rw [List.singleton_append, decodeFrom_cons, step, start_one (by omega)]
    rfl
  · rw [List.cons_append, List.singleton_append,
      decodeFrom_start (start_two (by omega) (by omega)),
      decodeFrom_last rfl (by omega) (by simp) (by simp; omega), Nat.add_sub_cancel]
    congr 2
    simp only
    omega
  · have h800 : 0x800 ≤ v := by omega
    obtain ⟨low, high, hstart, hlow, hhigh⟩ := start_three h800 (by omega) (by omega)
    rw [List.cons_append, List.cons_append, List.singleton_append, decodeFrom_start hstart,
      decodeFrom_more rfl (by omega) hlow hhigh,
      decodeFrom_last rfl (by omega) (by simp) (by simp; omega), Nat.add_sub_cancel,
      Nat.add_sub_cancel]
    congr 2
    simp only
    omega
  · have h10000 : 0x10000 ≤ v := by omega
    obtain ⟨low, high, hstart, hlow, hhigh⟩ := start_four h10000 (by omega)
    rw [List.cons_append, List.cons_append, List.cons_append, List.singleton_append,
      decodeFrom_start hstart, decodeFrom_more rfl (by omega) hlow hhigh,
      decodeFrom_more rfl (by omega) (by simp) (by simp; omega),
      decodeFrom_last rfl (by omega) (by simp) (by simp; omega), Nat.add_sub_cancel,
      Nat.add_sub_cancel, Nat.add_sub_cancel]
    congr 2
    simp only
    omega

theorem decodeFrom_flatMap (chars : List Char) :
    decodeFrom none (chars.flatMap String.utf8EncodeChar) = chars := by
  induction chars with
  | nil => rfl
  | cons c chars ih => rw [List.flatMap_cons, decodeFrom_encodeChar, ih]

/-- Decoding undoes encoding. -/
theorem decode_encode (text : String) : decode (encode text) = text := by
  rw [decode, encode, decodeFrom_flatMap, String.ofList_toList]

/-! ## How long a decoded text is -/

theorem length_encode_ofList (chars : List Char) :
    (encode (String.ofList chars)).length ≤ 4 * chars.length := by
  rw [encode, String.toList_ofList]
  induction chars with
  | nil => exact Nat.le_refl _
  | cons c chars ih =>
    rw [List.flatMap_cons, List.length_append, String.length_utf8EncodeChar, List.length_cons]
    have hc := c.utf8Size_le_four
    omega

theorem length_start_le (b : UInt8) :
    (start b).1.length + (start b).2.toList.length ≤ 1 := by
  unfold start
  simp only
  split_ifs <;> simp

/-- A byte completes one character or goes on a sequence; one that ends the sequence under way
adds the replacement character of that sequence. -/
theorem length_step_le (p : Option Pending) (b : UInt8) :
    (step p b).1.length + (step p b).2.toList.length ≤ 1 + p.toList.length := by
  have hstart := length_start_le b
  cases p with
  | none => simpa [step] using hstart
  | some p =>
    rw [step]
    split_ifs
    · split <;> simp
    · simp only [List.length_cons, Option.toList_some, List.length_nil]
      omega

theorem length_decodeFrom_le (p : Option Pending) (bytes : List UInt8) :
    (decodeFrom p bytes).length ≤ bytes.length + p.toList.length := by
  induction bytes generalizing p with
  | nil => cases p <;> simp [decodeFrom]
  | cons b bytes ih =>
    have hstep := length_step_le p b
    have hrest := ih (step p b).2
    rw [decodeFrom_cons, List.length_append, List.length_cons]
    omega

/-- The text of some bytes is at most four times as long as they are. -/
theorem length_encode_decode_le (bytes : List UInt8) :
    (encode (decode bytes)).length ≤ 4 * bytes.length := by
  have hchars := length_decodeFrom_le none bytes
  have hencode := length_encode_ofList (decodeFrom none bytes)
  simp only [Option.toList_none, List.length_nil, Nat.add_zero] at hchars
  rw [decode]
  omega

/-! ## Texts of ASCII -/

/-- The characters that the sequence can complete are none of ASCII. -/
def Wide : ℕ → ℕ → ℕ → ℕ → Prop
  | 0, low, high, value => ∀ n, low ≤ n → n ≤ high →
      (value * 64 + (n - 0x80)).isValidChar ∧ 0x80 ≤ value * 64 + (n - 0x80)
  | more + 1, low, high, value => ∀ n, low ≤ n → n ≤ high →
      Wide more 0x80 0xBF (value * 64 + (n - 0x80))

def Pending.Wide (p : Pending) : Prop :=
  Utf8.Wide p.more p.low p.high p.value

theorem toNat_ofNat {n : ℕ} (h : n.isValidChar) : (Char.ofNat n).toNat = n := by
  rw [Char.ofNat, dif_pos h]
  exact UInt32.toNat_ofNatLT ..

theorem wide_start {b : UInt8} {p : Pending} (h : (start b).2 = some p) : p.Wide := by
  have hb := b.toNat_lt
  unfold start at h
  simp only at h
  split_ifs at h <;> cases h <;>
    simp only [Pending.Wide, Wide, Nat.isValidChar] <;> intros <;> omega

theorem start_cases (b : UInt8) :
    (b.toNat < 0x80 ∧ start b = ([Char.ofNat b.toNat], none)) ∨ replacement ∈ (start b).1 ∨
      (start b).2 ≠ none := by
  unfold start
  simp only
  split_ifs <;> simp_all

theorem utf8EncodeChar_ofNat {b : UInt8} (h : b.toNat < 0x80) :
    String.utf8EncodeChar (Char.ofNat b.toNat) = [b] := by
  have hvalid : b.toNat.isValidChar := Or.inl (by omega)
  have hval : (Char.ofNat b.toNat).val.toNat = b.toNat := toNat_ofNat hvalid
  simp only [String.utf8EncodeChar, hval, if_pos (show b.toNat ≤ 0x7f by omega)]
  simp

/-- Bytes whose text is ASCII are the bytes of that text. -/
theorem decodeFrom_ascii : ∀ (bytes : List UInt8) (p : Option Pending),
    (∀ q, p = some q → q.Wide) → (∀ c ∈ decodeFrom p bytes, c.toNat < 0x80) →
      p = none ∧ (decodeFrom p bytes).flatMap String.utf8EncodeChar = bytes
  | [], none, _, _ => ⟨rfl, rfl⟩
  | [], some q, _, h => absurd (h replacement List.mem_cons_self) (by decide)
  | b :: bytes, p, hp, h => by
    rw [decodeFrom_cons] at h ⊢
    obtain ⟨hfirst, hrest⟩ := List.forall_mem_append.1 h
    cases p with
    | none =>
      rw [step] at hfirst hrest ⊢
      obtain ⟨hnone, hbytes⟩ := decodeFrom_ascii bytes _ (fun q => wide_start) hrest
      rcases start_cases b with ⟨hb, hstart⟩ | hreplaced | hpending
      · refine ⟨rfl, ?_⟩
        rw [hstart] at hbytes ⊢
        rw [List.flatMap_append, hbytes, List.flatMap_singleton, utf8EncodeChar_ofNat hb]
        rfl
      · exact absurd (hfirst _ hreplaced) (by decide)
      · exact absurd hnone hpending
    | some q =>
      exfalso
      obtain ⟨more, low, high, value⟩ := q
      have hwide : Wide more low high value := hp _ rfl
      rw [step] at hfirst hrest
      by_cases hin : low ≤ b.toNat ∧ b.toNat ≤ high
      · rw [if_pos hin] at hfirst hrest
        cases more with
        | zero =>
          obtain ⟨hvalid, hlarge⟩ := hwide b.toNat hin.1 hin.2
          have hsmall := hfirst _ (List.mem_singleton_self _)
          rw [toNat_ofNat hvalid] at hsmall
          omega
        | succ more =>
          have hnext : ∀ q, some (⟨more, 0x80, 0xBF, value * 64 + (b.toNat - 0x80)⟩ : Pending) =
              some q → q.Wide := by
            rintro q hq
            obtain rfl := Option.some.inj hq
            exact hwide b.toNat hin.1 hin.2
          cases (decodeFrom_ascii bytes _ hnext hrest).1
      · rw [if_neg hin] at hfirst
        exact absurd (hfirst replacement List.mem_cons_self) (by decide)

/-- Only the bytes of an ASCII text are decoded as this text. -/
theorem decode_eq_iff {text : String} (h : ∀ c ∈ text.toList, c.toNat < 0x80)
    (bytes : List UInt8) : decode bytes = text ↔ bytes = encode text := by
  constructor
  · rintro rfl
    rw [decode, String.toList_ofList] at h
    have hbytes := (decodeFrom_ascii bytes none (by simp) h).2
    rw [decode, encode, String.toList_ofList, hbytes]
  · rintro rfl
    exact decode_encode text

theorem length_encode_ascii {text : String} (h : ∀ c ∈ text.toList, c.toNat < 0x80) :
    (encode text).length = text.length := by
  rw [encode, ← String.length_toList]
  generalize text.toList = chars at h
  induction chars with
  | nil => rfl
  | cons c chars ih =>
    obtain ⟨hc, hchars⟩ := List.forall_mem_cons.1 h
    rw [List.flatMap_cons, List.length_append, String.length_utf8EncodeChar, ih hchars,
      List.length_cons, Nat.add_comm, Char.utf8Size_eq_one_iff.2]
    exact UInt32.le_iff_toNat_le.2 (Nat.le_of_lt_succ hc)

end Utf8

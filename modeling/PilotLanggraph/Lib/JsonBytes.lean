import PilotLanggraph.Lib.JsonText

/-!
# JSON in bytes

`loads` reads a JSON text from bytes : it guesses the encoding from the first bytes,
decodes, and parses. Two errors are told apart, bytes that do not decode and texts that
do not parse. A text of printable ASCII is read as it is (`loads_encode`), so what `dumps`
writes is read back (`loads_encode_dumps`), and no proper prefix of an object's text is
read as anything (`loads_of_prefix`).
-/

namespace Json

/-! ## Encodings -/

/-- The encodings `json.loads` knows. -/
inductive Encoding
  | utf8
  | utf16 (bigEndian : Bool)
  | utf32 (bigEndian : Bool)

/-- The byte order marks, with the encodings they stand for. -/
def byteOrderMarks : List (List UInt8 × Encoding) :=
  [([0x00, 0x00, 0xFE, 0xFF], .utf32 true), ([0xFF, 0xFE, 0x00, 0x00], .utf32 false),
    ([0xFE, 0xFF], .utf16 true), ([0xFF, 0xFE], .utf16 false), ([0xEF, 0xBB, 0xBF], .utf8)]

/-- The encoding of a text without a mark, from the zeros among its first bytes. -/
def guessEncoding : List UInt8 → Encoding
  | [a, b] => if a = 0 then .utf16 true else if b = 0 then .utf16 false else .utf8
  | a :: b :: c :: d :: _ =>
    if a = 0 then if b = 0 then .utf32 true else .utf16 true
    else if b = 0 then if c = 0 ∧ d = 0 then .utf32 false else .utf16 false
    else .utf8
  | _ => .utf8

/-- `json.detect_encoding`, with the length of the byte order mark. -/
def detectEncoding (bytes : List UInt8) : Encoding × ℕ :=
  match byteOrderMarks.find? fun m => m.1.isPrefixOf bytes with
  | some m => (m.2, m.1.length)
  | none => (guessEncoding bytes, 0)

/-- The character with a code point. Lone surrogates are not characters here. -/
def charOf (n : ℕ) : Option Char :=
  if n.isValidChar then some (Char.ofNat n) else none

/-- Sixteen-bit units. -/
def units16 (bigEndian : Bool) : List UInt8 → Option (List ℕ)
  | [] => some []
  | [_] => none
  | a :: b :: bytes =>
    (units16 bigEndian bytes).map
      ((if bigEndian then a.toNat * 256 + b.toNat else b.toNat * 256 + a.toNat) :: ·)

/-- UTF-16, with surrogate pairs. -/
def decode16 : List ℕ → Option (List Char)
  | [] => some []
  | [u] => (charOf u).map ([·])
  | u :: l :: us =>
    if 0xD800 ≤ u ∧ u < 0xDC00 ∧ 0xDC00 ≤ l ∧ l < 0xE000 then do
      let c ← charOf (0x10000 + (u - 0xD800) * 0x400 + (l - 0xDC00))
      (decode16 us).map (c :: ·)
    else do
      let c ← charOf u
      (decode16 (l :: us)).map (c :: ·)

/-- UTF-32. -/
def decode32 (bigEndian : Bool) : List UInt8 → Option (List Char)
  | [] => some []
  | a :: b :: c :: d :: bytes => do
    let n := if bigEndian then ((a.toNat * 256 + b.toNat) * 256 + c.toNat) * 256 + d.toNat
      else ((d.toNat * 256 + c.toNat) * 256 + b.toNat) * 256 + a.toNat
    let x ← charOf n
    (decode32 bigEndian bytes).map (x :: ·)
  | _ => none

/-- `bytes.decode`. -/
def decodeBytes (bytes : List UInt8) : Option (List Char) :=
  let (encoding, bom) := detectEncoding bytes
  let bytes := bytes.drop bom
  match encoding with
  | .utf8 => bytes.toByteArray.utf8Decode?.map Array.toList
  | .utf16 bigEndian => (units16 bigEndian bytes).bind decode16
  | .utf32 bigEndian => decode32 bigEndian bytes

/-- `str.encode`, to UTF-8. -/
def encode (cs : List Char) : List UInt8 :=
  cs.flatMap String.utf8EncodeChar

/-! ## Reading -/

/-- What `json.loads` does with bytes : a value, a `JSONDecodeError`, or another error. -/
inductive Load
  | value (v : Json)
  | invalid
  | undecodable
  deriving DecidableEq

/-- `json.loads` of bytes. -/
def loads (bytes : List UInt8) : Load :=
  match decodeBytes bytes with
  | none => .undecodable
  | some cs =>
    match loadsText cs with
    | some v => .value v
    | none => .invalid

/-! ## ASCII texts -/

/-- The byte of an ASCII character. -/
def byteOf (c : Char) : UInt8 :=
  c.val.toUInt8

theorem byteOf_toNat {c : Char} (hc : IsPrint c) : (byteOf c).toNat = c.toNat := by
  have h := hc.2
  simp only [byteOf, UInt32.toNat_toUInt8, Char.toNat] at h ⊢
  omega

theorem encode_eq_map : ∀ {cs : List Char}, (∀ c ∈ cs, IsPrint c) → encode cs = cs.map byteOf
  | [], _ => rfl
  | c :: cs, h => by
    rw [List.forall_mem_cons] at h
    have hsize : c.utf8Size = 1 := by
      have hc := h.1.2
      have hle : c.val ≤ 0x7f := by
        rw [UInt32.le_iff_toNat_le]
        simp only [Char.toNat] at hc
        simp only [UInt32.reduceToNat]
        omega
      simp [Char.utf8Size, hle]
    have ih := encode_eq_map h.2
    rw [encode] at ih
    rw [encode, List.flatMap_cons, ih, String.utf8EncodeChar_eq_singleton hsize]
    rfl

theorem guessEncoding_of_ne_zero {bytes : List UInt8} (h : ∀ b ∈ bytes, b ≠ 0) :
    guessEncoding bytes = .utf8 := by
  unfold guessEncoding
  split
  · rename_i a b
    rw [if_neg (h a (by simp)), if_neg (h b (by simp))]
  · rename_i a b c d l
    rw [if_neg (h a (by simp)), if_neg (h b (by simp))]
  · rfl

/-- ASCII bytes without control characters look like UTF-8. -/
theorem detectEncoding_of_ascii {bytes : List UInt8}
    (h : ∀ b ∈ bytes, 32 ≤ b.toNat ∧ b.toNat < 127) : detectEncoding bytes = (.utf8, 0) := by
  -- Every mark has a byte that is no ASCII character.
  have hmark : ∀ m ∈ byteOrderMarks, ¬(m.1.isPrefixOf bytes = true) := by
    intro m hm hprefix
    have hmem : ∃ b ∈ m.1, 127 ≤ b.toNat := by
      simp only [byteOrderMarks, List.mem_cons, List.not_mem_nil, or_false] at hm
      rcases hm with rfl | rfl | rfl | rfl | rfl
      · exact ⟨0xFE, by simp, by decide⟩
      · exact ⟨0xFF, by simp, by decide⟩
      · exact ⟨0xFE, by simp, by decide⟩
      · exact ⟨0xFF, by simp, by decide⟩
      · exact ⟨0xEF, by simp, by decide⟩
    obtain ⟨b, hb, hlarge⟩ := hmem
    have := (h b ((List.isPrefixOf_iff_prefix.1 hprefix).subset hb)).2
    omega
  have hne : ∀ b ∈ bytes, b ≠ 0 := by
    rintro b hb rfl
    exact absurd (h 0 hb).1 (by decide)
  rw [detectEncoding, List.find?_eq_none.2 hmark, guessEncoding_of_ne_zero hne]

theorem decodeBytes_encode {cs : List Char} (h : ∀ c ∈ cs, IsPrint c) :
    decodeBytes (encode cs) = some cs := by
  have hascii : ∀ b ∈ encode cs, 32 ≤ b.toNat ∧ b.toNat < 127 := by
    rw [encode_eq_map h]
    intro b hb
    obtain ⟨c, hc, rfl⟩ := List.mem_map.1 hb
    rw [byteOf_toNat (h c hc)]
    exact h c hc
  have hutf8 : (encode cs).toByteArray.utf8Decode? = some cs.toArray :=
    List.utf8Decode?_utf8Encode
  rw [decodeBytes, detectEncoding_of_ascii hascii]
  simp only [List.drop_zero, hutf8, Option.map_some]

/-- A text of printable ASCII is read as it is. -/
theorem loads_encode {cs : List Char} (h : ∀ c ∈ cs, IsPrint c) :
    loads (encode cs) = match loadsText cs with
      | some v => .value v
      | none => .invalid := by
  rw [loads, decodeBytes_encode h]

theorem isPrint_dumps (sep : Separators) (v : Json) : ∀ c ∈ dumps sep v, IsPrint c :=
  fun c hc => isPrint_of_mem_dumps sep c v hc

/-- A well-formed value is read back from its bytes. -/
theorem loads_encode_dumps (sep : Separators) {v : Json} (hv : v.WF) :
    loads (encode (dumps sep v)) = .value v := by
  rw [loads_encode (isPrint_dumps sep v), loadsText_dumps sep hv]

/-- No proper prefix of an object's bytes is read as anything. -/
theorem loads_of_prefix (sep : Separators) {ms : List (String × Json)} (hv : (obj ms).WF)
    {p q : List UInt8} (hpq : p ++ q = encode (dumps sep (.obj ms))) (hq : q ≠ []) :
    loads p = .invalid := by
  rw [encode_eq_map (isPrint_dumps _ _), eq_comm, List.map_eq_append_iff] at hpq
  obtain ⟨cs, ds, hcut, rfl, rfl⟩ := hpq
  have hcs : ∀ c ∈ cs, IsPrint c := fun c hc =>
    isPrint_dumps sep (.obj ms) c (hcut ▸ List.mem_append_left ds hc)
  rw [← encode_eq_map hcs, loads_encode hcs,
    loadsText_of_prefix sep hv hcut.symm fun hds => hq (by rw [hds, List.map_nil])]

end Json

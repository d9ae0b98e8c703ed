import PilotLanggraph.Encoders
import PilotLanggraph.Lib.Numeral

/-!
# Addresses

The text of an address has the network twice, as a decimal number and as four hexadecimal
digits, and then the node in two groups of four. `Addr.parse` matches it with `ADDR_RE` and
compares the two. In range, text and packed form can be read back (`address_codecs`).

The pattern accepts more than the grammar it stands for : `$` also holds before a final newline,
`\d` is any decimal digit of Unicode, and then `int` refuses more than 4300 digits.
`parse_exact_iff` says for which strings this makes no difference.
-/

namespace PilotLanggraph

namespace Ipc

open Numeral

/-! ## The pattern -/

/-- `\d`. -/
def isDecimal (c : Char) : Bool :=
  (decimal? c).isSome

/-- `[0-9A-Fa-f]`. -/
def isHex (c : Char) : Bool :=
  (hex? c).isSome

/-- A character of the pattern that stands for itself. -/
def literal (c : Char) : List Char → Option (List Char)
  | [] => none
  | c' :: s => if c' = c then some s else none

/-- `([0-9A-Fa-f]{4})`. -/
def hexGroup (s : List Char) : Option (List Char × List Char) :=
  if (s.take 4).length = 4 ∧ (s.take 4).all isHex = true then some (s.take 4, s.drop 4) else none

/-- The groups of `ADDR_RE.match`. A digit is no colon, so the first group takes all that
come first. -/
def addrRe (s : List Char) : Option (List Char × List Char × List Char × List Char) := do
  let digits := s.takeWhile isDecimal
  let s₁ ← literal ':' (s.dropWhile isDecimal)
  let (network, s₂) ← hexGroup s₁
  let (high, s₃) ← (literal '.' s₂).bind hexGroup
  let (low, s₄) ← (literal '.' s₃).bind hexGroup
  -- `$`, at the end or before a newline that is the last character
  if digits ≠ [] ∧ (s₄ = [] ∨ s₄ = ['\n']) then some (digits, network, high, low) else none

/-- What the pattern matches : the four groups, and what `$` leaves behind them. -/
structure Shape (s digits network high low tail : List Char) : Prop where
  eq : s = digits ++ ':' :: (network ++ '.' :: (high ++ '.' :: (low ++ tail)))
  ne_nil : digits ≠ []
  decimal : ∀ c ∈ digits, isDecimal c = true
  hex : ∀ g ∈ [network, high, low], g.length = 4 ∧ ∀ c ∈ g, isHex c = true
  tail : tail = [] ∨ tail = ['\n']

theorem literal_eq_some {c : Char} {s r : List Char} : literal c s = some r ↔ s = c :: r := by
  cases s with
  | nil => exact ⟨nofun, nofun⟩
  | cons c' s =>
    rw [literal, List.cons.injEq]
    split_ifs with hc
    · rw [Option.some.injEq, and_iff_right hc]
    · exact ⟨fun h => (by cases h), fun h => absurd h.1 hc⟩

theorem hexGroup_eq_some {s g r : List Char} :
    hexGroup s = some (g, r) ↔ s = g ++ r ∧ g.length = 4 ∧ ∀ c ∈ g, isHex c = true := by
  rw [hexGroup]
  constructor
  · intro h
    split_ifs at h with hg
    cases h
    exact ⟨(List.take_append_drop 4 s).symm, hg.1, List.all_eq_true.1 hg.2⟩
  · rintro ⟨rfl, hlen, hhex⟩
    rw [List.take_left' hlen, List.drop_left' hlen, if_pos ⟨hlen, List.all_eq_true.2 hhex⟩]

/-- The function finds the groups, and it finds no others. -/
theorem addrRe_eq_some {s digits network high low : List Char} :
    addrRe s = some (digits, network, high, low) ↔
      ∃ tail, Shape s digits network high low tail := by
  constructor
  · intro h
    obtain ⟨s₁, h₁, h⟩ := Option.bind_eq_some_iff.1 h
    obtain ⟨⟨network, s₂⟩, h₂, h⟩ := Option.bind_eq_some_iff.1 h
    obtain ⟨⟨high, s₃⟩, h₃, h⟩ := Option.bind_eq_some_iff.1 h
    obtain ⟨⟨low, s₄⟩, h₄, h⟩ := Option.bind_eq_some_iff.1 h
    obtain ⟨⟨hne, htail⟩, hgroups⟩ := Option.ite_none_right_eq_some.1 h
    cases hgroups
    obtain ⟨s₂', hdot, h₃⟩ := Option.bind_eq_some_iff.1 h₃
    obtain ⟨s₃', hdot', h₄⟩ := Option.bind_eq_some_iff.1 h₄
    rw [literal_eq_some] at h₁ hdot hdot'
    obtain ⟨rfl, hnetwork⟩ := hexGroup_eq_some.1 h₂
    obtain ⟨rfl, hhigh⟩ := hexGroup_eq_some.1 h₃
    obtain ⟨rfl, hlow⟩ := hexGroup_eq_some.1 h₄
    refine ⟨s₄, ?_, hne, fun c hc => List.mem_takeWhile_imp hc, ?_, htail⟩
    · rw [← hdot', ← hdot, ← h₁, List.takeWhile_append_dropWhile]
    · simpa using ⟨hnetwork, hhigh, hlow⟩
  · rintro ⟨tail, rfl, hne, hdecimal, hhex, htail⟩
    have htake : ∀ s, (digits ++ ':' :: s).takeWhile isDecimal = digits := by
      intro s
      rw [List.takeWhile_append_of_pos hdecimal, List.takeWhile_cons_of_neg (by decide),
        List.append_nil]
    have hdrop : ∀ s, (digits ++ ':' :: s).dropWhile isDecimal = ':' :: s := by
      intro s
      rw [List.dropWhile_append_of_pos hdecimal, List.dropWhile_cons_of_neg (by decide)]
    have hgroup : ∀ g ∈ [network, high, low], ∀ r, hexGroup (g ++ r) = some (g, r) :=
      fun g hg r => hexGroup_eq_some.2 ⟨rfl, hhex g hg⟩
    have hlit : ∀ c s, literal c (c :: s) = some s := fun c s => literal_eq_some.2 rfl
    simp only [addrRe, htake, hdrop, hlit, hgroup, hne, htail, List.mem_cons, true_or, or_true,
      ne_eq, not_false_eq_true, and_self, if_true, Option.bind_eq_bind, Option.bind_some]

theorem Shape.unique {s digits network high low tail digits' network' high' low' tail' : List Char}
    (h : Shape s digits network high low tail) (h' : Shape s digits' network' high' low' tail') :
    digits' = digits ∧ network' = network ∧ tail' = tail := by
  have hsome := addrRe_eq_some.2 ⟨tail, h⟩
  rw [addrRe_eq_some.2 ⟨tail', h'⟩] at hsome
  cases hsome
  have heq := h'.eq.symm.trans h.eq
  simp only [List.append_cancel_left_eq, List.cons.injEq, true_and] at heq
  exact ⟨rfl, rfl, heq⟩

/-! ## `Addr.parse` and `str` -/

/-- The limit of `int` on the digits of a string. -/
def maxStrDigits : ℕ := 4300

/-- Why `Addr.parse` raises a `ValueError`. -/
inductive AddrError
  | invalid (s : String)
  | tooLong (digits : ℕ)
  | mismatch (s : String) (netDec netHex : ℕ)
  deriving DecidableEq

/-- What the `ValueError` says. `repr` is that of strings. -/
def AddrError.text (repr : String → String) : AddrError → String
  | .invalid s => "invalid pilot address: " ++ repr s
  | .tooLong digits =>
    "Exceeds the limit (" ++ toString maxStrDigits ++ " digits) for integer string conversion: " ++
      "value has " ++ toString digits ++ " digits; use sys.set_int_max_str_digits() " ++
      "to increase the limit"
  | .mismatch s netDec netHex =>
    "network mismatch in " ++ repr s ++ ": " ++ toString netDec ++ " vs 0x" ++
      String.ofList (formatHex 4 netHex)

/-- `Addr.parse`. -/
def Addr.parse (s : String) : Except AddrError Addr :=
  match addrRe s.toList with
  | none => .error (.invalid s)
  | some (digits, network, high, low) =>
    if maxStrDigits < digits.length then .error (.tooLong digits.length)
    else
      let netDec := value 10 decimal? digits
      let netHex := value 16 hex? network
      if netDec ≠ netHex then .error (.mismatch s netDec netHex)
      else .ok ⟨netDec, value 16 hex? high <<< 16 ||| value 16 hex? low⟩

/-- `Addr.__str__`. -/
def Addr.str (a : Addr) : String :=
  String.ofList (Nat.toDigits 10 a.network ++ ':' :: (formatHex 4 a.network ++ '.' ::
    (formatHex 4 (a.node >>> 16 &&& 0xFFFF) ++ '.' :: formatHex 4 (a.node &&& 0xFFFF))))

theorem parse_eq_ok {s : String} {a : Addr} : Addr.parse s = .ok a ↔
    ∃ digits network high low tail, Shape s.toList digits network high low tail ∧
      digits.length ≤ maxStrDigits ∧ value 10 decimal? digits = value 16 hex? network ∧
      a = ⟨value 10 decimal? digits, value 16 hex? high <<< 16 ||| value 16 hex? low⟩ := by
  constructor
  · intro h
    unfold Addr.parse at h
    split at h
    · cases h
    · rename_i digits network high low hre
      obtain ⟨tail, hshape⟩ := addrRe_eq_some.1 hre
      by_cases hlong : maxStrDigits < digits.length
      · rw [if_pos hlong] at h
        cases h
      · by_cases hagree : value 10 decimal? digits = value 16 hex? network
        · rw [if_neg hlong, if_neg (not_not.2 hagree)] at h
          cases h
          exact ⟨digits, network, high, low, tail, hshape, Nat.not_lt.1 hlong, hagree, rfl⟩
        · rw [if_neg hlong, if_pos hagree] at h
          cases h
  · rintro ⟨digits, network, high, low, tail, hshape, hlong, hagree, rfl⟩
    simp only [Addr.parse, addrRe_eq_some.2 ⟨tail, hshape⟩, Nat.not_lt.2 hlong, hagree, ne_eq,
      not_true_eq_false, if_false]

/-! ## Round trips -/

/-- What fits in the packed form. -/
structure Addr.InRange (a : Addr) : Prop where
  network : a.network < 2 ^ 16
  node : a.node < 2 ^ 32

theorem value_hexGroup_lt {g : List Char} (h : g.length = 4 ∧ ∀ c ∈ g, isHex c = true) :
    value 16 hex? g < 2 ^ 16 := by
  have hlt : value 16 hex? g < 16 ^ g.length := by
    refine value_lt fun c hc => ?_
    obtain ⟨d, hd⟩ := Option.isSome_iff_exists.1 (h.2 c hc)
    rw [hd, Option.getD_some]
    exact lt_of_hex? hd
  rwa [h.1] at hlt

/-- The two halves of a node. -/
theorem node_halves {high low : ℕ} (hlow : low < 2 ^ 16) :
    high <<< 16 ||| low = high * 2 ^ 16 + low := by
  rw [← Nat.shiftLeft_add_eq_or_of_lt hlow, Nat.shiftLeft_eq]

theorem node_of_halves (node : ℕ) (h : node < 2 ^ 32) :
    (node >>> 16 &&& 0xFFFF) <<< 16 ||| (node &&& 0xFFFF) = node := by
  have hmod : ∀ n, n &&& 0xFFFF = n % 2 ^ 16 := fun n => Nat.and_two_pow_sub_one_eq_mod n 16
  rw [hmod, hmod, node_halves (Nat.mod_lt _ (by decide)), Nat.shiftRight_eq_div_pow]
  omega

/-- What is accepted can be packed. -/
theorem inRange_of_parse {s : String} {a : Addr} (h : Addr.parse s = .ok a) : a.InRange := by
  obtain ⟨digits, network, high, low, tail, hshape, -, hagree, rfl⟩ := parse_eq_ok.1 h
  have hhigh := value_hexGroup_lt (hshape.hex high (by simp))
  have hlow := value_hexGroup_lt (hshape.hex low (by simp))
  refine ⟨?_, ?_⟩
  · change value 10 decimal? digits < 2 ^ 16
    rw [hagree]
    exact value_hexGroup_lt (hshape.hex network (by simp))
  · change value 16 hex? high <<< 16 ||| value 16 hex? low < 2 ^ 32
    rw [node_halves hlow]
    omega

theorem isDecimal_of_mem_toDigits {n : ℕ} {c : Char} (h : c ∈ Nat.toDigits 10 n) :
    isDecimal c = true := by
  rw [isDecimal, decimal?_of_isDigit (Nat.isDigit_of_mem_toDigits (by decide) (by decide) h),
    Option.isSome_some]

/-- A field of four digits. -/
theorem hexGroup_formatHex {n : ℕ} (h : n < 2 ^ 16) :
    (formatHex 4 n).length = 4 ∧ ∀ c ∈ formatHex 4 n, isHex c = true :=
  ⟨length_formatHex (by decide) h, fun _ hc => isSome_hex?_of_mem_formatHex hc⟩

theorem shape_str {a : Addr} (h : a.InRange) : Shape a.str.toList (Nat.toDigits 10 a.network)
    (formatHex 4 a.network) (formatHex 4 (a.node >>> 16 &&& 0xFFFF))
    (formatHex 4 (a.node &&& 0xFFFF)) [] where
  eq := by rw [Addr.str, String.toList_ofList, List.append_nil]
  ne_nil := Nat.toDigits_ne_nil
  decimal _ hc := isDecimal_of_mem_toDigits hc
  hex g hg := by
    have hmask : ∀ n, n &&& 0xFFFF < 2 ^ 16 := fun n => Nat.and_lt_two_pow n (by decide)
    simp only [List.mem_cons, List.not_mem_nil, or_false] at hg
    rcases hg with rfl | rfl | rfl
    · exact hexGroup_formatHex h.network
    · exact hexGroup_formatHex (hmask _)
    · exact hexGroup_formatHex (hmask _)
  tail := .inl rfl

theorem value_toDigits_ten (n : ℕ) : value 10 decimal? (Nat.toDigits 10 n) = n := by
  have hvalue : value 10 decimal? ((Nat.toDigits 10 n).map id) = n :=
    value_toDigits (by decide) (fun d hd => decimal?_digitChar hd) n
  rwa [List.map_id] at hvalue

/-- The decimal field is short. -/
theorem length_toDigits_le {a : Addr} (h : a.InRange) :
    (Nat.toDigits 10 a.network).length ≤ maxStrDigits := by
  have hlen := (Nat.length_toDigits_le_iff (b := 10) (n := a.network) (k := 5) (by decide)
    (by decide)).2 (h.network.trans (by decide))
  exact hlen.trans (by decide)

theorem parse_str {a : Addr} (h : a.InRange) : Addr.parse a.str = .ok a := by
  refine parse_eq_ok.2 ⟨_, _, _, _, [], shape_str h, length_toDigits_le h, ?_, ?_⟩
  · rw [value_toDigits_ten, value_formatHex]
  · simp only [value_toDigits_ten, value_formatHex, node_of_halves a.node h.node]

theorem unpack_pack {a : Addr} (h : a.InRange) :
    ∃ bytes, a.pack = some bytes ∧ Addr.unpack bytes 0 = a := by
  have hnetwork : a.network < 0x10000 := h.network
  have hnode : a.node < 0x100000000 := h.node
  refine ⟨packShort a.network ++ packInt a.node, ?_, ?_⟩
  · rw [Addr.pack, packShort?, packInt?, if_pos hnetwork, if_pos hnode]
    rfl
  · have hint : beInt (packShort a.network ++ packInt a.node) 2 = a.node := beNat_packInt hnode
    rw [Addr.unpack, beShort_packShort hnetwork, Nat.zero_add, hint]

/-- For addresses in range, text and packed form are read back, and so tell addresses apart.
What `parse` accepts is in range, and its text is a normal form. -/
theorem address_codecs (a b : Addr) (s : String) :
    (a.InRange → Addr.parse a.str = .ok a ∧
      ∃ bytes, a.pack = some bytes ∧ Addr.unpack bytes 0 = a) ∧
    (Addr.parse s = .ok a → a.InRange ∧ a.pack.isSome = true ∧ Addr.parse a.str = Addr.parse s) ∧
    (a.InRange → b.InRange → a ≠ b → a.str ≠ b.str ∧ a.pack ≠ b.pack) := by
  refine ⟨fun ha => ⟨parse_str ha, unpack_pack ha⟩, fun h => ?_, fun ha hb hne => ⟨?_, ?_⟩⟩
  · have hrange := inRange_of_parse h
    obtain ⟨bytes, hpack, -⟩ := unpack_pack hrange
    exact ⟨hrange, by rw [hpack]; rfl, (parse_str hrange).trans h.symm⟩
  · intro hstr
    have hparse := parse_str ha
    rw [hstr, parse_str hb] at hparse
    cases hparse
    exact hne rfl
  · intro hpack
    obtain ⟨bytes, hbytes, hunpack⟩ := unpack_pack ha
    obtain ⟨bytes', hbytes', hunpack'⟩ := unpack_pack hb
    rw [hpack, hbytes'] at hbytes
    cases hbytes
    exact hne (hunpack.symm.trans hunpack')

/-- The text and the packed form of the node 0xDEADBEEF of the network 2. -/
theorem address_codecs_deadbeef :
    Addr.parse (Addr.mk 2 0xDEADBEEF).str = .ok ⟨2, 0xDEADBEEF⟩ ∧
      (Addr.mk 2 0xDEADBEEF).str ≠ (Addr.mk 2 1).str := by
  have hrange : Addr.InRange ⟨2, 0xDEADBEEF⟩ := ⟨by decide, by decide⟩
  have hother : Addr.InRange ⟨2, 1⟩ := ⟨by decide, by decide⟩
  have hcodecs := address_codecs ⟨2, 0xDEADBEEF⟩ ⟨2, 1⟩ (Addr.mk 2 0xDEADBEEF).str
  have hparse := (hcodecs.1 hrange).1
  exact ⟨(hcodecs.2.1 hparse).2.2.trans hparse, (hcodecs.2.2 hrange hother (by decide)).1⟩

/-! ## The grammar -/

/-- An address as it is meant to be written : ASCII digits, a colon, three groups of four
hexadecimal digits with dots between, and nothing else; the fields of the network agree. -/
structure IsAddress (s digits network high low : List Char) : Prop where
  eq : s = digits ++ ':' :: (network ++ '.' :: (high ++ '.' :: low))
  ne_nil : digits ≠ []
  decimal : ∀ c ∈ digits, c.isDigit = true
  hex : ∀ g ∈ [network, high, low], g.length = 4 ∧ ∀ c ∈ g, isHex c = true
  agree : Nat.ofDigitChars 10 digits 0 = value 16 hex? network

/-- `s` is an address of the grammar. -/
def Grammar (s : String) : Prop :=
  ∃ digits network high low, IsAddress s.toList digits network high low

/-- An address of the grammar with more digits than `int` takes. -/
def Overlong (s : String) : Prop :=
  ∃ digits network high low, IsAddress s.toList digits network high low ∧
    maxStrDigits < digits.length

/-- What the pattern matches besides : a newline follows the address, or a digit of the decimal
field is not ASCII. `int` takes the field, and it agrees with the other one. -/
def Lax (s : String) : Prop :=
  ∃ digits network high low tail, Shape s.toList digits network high low tail ∧
    (tail = ['\n'] ∨ ∃ c ∈ digits, c.isDigit = false) ∧ digits.length ≤ maxStrDigits ∧
    value 10 decimal? digits = value 16 hex? network

theorem value_of_isDigit {digits : List Char} (h : ∀ c ∈ digits, c.isDigit = true) :
    value 10 decimal? digits = Nat.ofDigitChars 10 digits 0 := by
  induction digits using List.reverseRecOn with
  | nil => rfl
  | append_singleton digits c ih =>
    rw [value_concat, ih fun c hc => h c (List.mem_append_left _ hc),
      decimal?_of_isDigit (h c (by simp)), Nat.ofDigitChars_append, Nat.ofDigitChars_cons,
      Nat.ofDigitChars_nil]
    rfl

section

variable {s : String} {l digits network high low : List Char}

theorem IsAddress.shape (h : IsAddress l digits network high low) :
    Shape l digits network high low [] where
  eq := by rw [List.append_nil, h.eq]
  ne_nil := h.ne_nil
  decimal c hc := by
    rw [isDecimal, decimal?_of_isDigit (h.decimal c hc), Option.isSome_some]
  hex := h.hex
  tail := .inl rfl

theorem Shape.isAddress (h : Shape l digits network high low [])
    (hascii : ∀ c ∈ digits, c.isDigit = true)
    (hagree : value 10 decimal? digits = value 16 hex? network) :
    IsAddress l digits network high low where
  eq := by rw [h.eq, List.append_nil]
  ne_nil := h.ne_nil
  decimal := hascii
  hex := h.hex
  agree := by rw [← value_of_isDigit hascii, hagree]

/-- An address of the grammar is accepted, unless it is too long. -/
theorem accepts_of_grammar (h : Grammar s) (hlong : ¬Overlong s) : ∃ a, Addr.parse s = .ok a := by
  obtain ⟨digits, network, high, low, haddr⟩ := h
  refine ⟨_, parse_eq_ok.2 ⟨digits, network, high, low, [], haddr.shape, ?_, ?_, rfl⟩⟩
  · exact Nat.not_lt.1 fun hlt => hlong ⟨digits, network, high, low, haddr, hlt⟩
  · rw [value_of_isDigit haddr.decimal, haddr.agree]

theorem Overlong.grammar (h : Overlong s) : Grammar s := by
  obtain ⟨digits, network, high, low, haddr, -⟩ := h
  exact ⟨digits, network, high, low, haddr⟩

theorem not_accepts_of_overlong (h : Overlong s) {a : Addr} : Addr.parse s ≠ .ok a := by
  intro hparse
  obtain ⟨digits, network, high, low, haddr, hlong⟩ := h
  obtain ⟨digits', network', high', low', tail, hshape, hle, -, -⟩ := parse_eq_ok.1 hparse
  rw [(haddr.shape.unique hshape).1] at hle
  exact hlong.not_ge hle

/-- What is accepted is an address of the grammar, unless it is lax. -/
theorem grammar_of_accepts {a : Addr} (h : Addr.parse s = .ok a) (hlax : ¬Lax s) : Grammar s := by
  obtain ⟨digits, network, high, low, tail, hshape, hle, hagree, -⟩ := parse_eq_ok.1 h
  have hstrict : tail = [] ∧ ∀ c ∈ digits, c.isDigit = true := by
    refine ⟨?_, fun c hc => ?_⟩
    · rcases hshape.tail with htail | htail
      · exact htail
      · exact absurd ⟨digits, network, high, low, tail, hshape, .inl htail, hle, hagree⟩ hlax
    · rw [← Bool.not_eq_false]
      exact fun hc' =>
        hlax ⟨digits, network, high, low, tail, hshape, .inr ⟨c, hc, hc'⟩, hle, hagree⟩
  obtain ⟨rfl, hascii⟩ := hstrict
  exact ⟨digits, network, high, low, hshape.isAddress hascii hagree⟩

theorem accepts_of_lax (h : Lax s) : ∃ a, Addr.parse s = .ok a := by
  obtain ⟨digits, network, high, low, tail, hshape, -, hle, hagree⟩ := h
  exact ⟨_, parse_eq_ok.2 ⟨digits, network, high, low, tail, hshape, hle, hagree, rfl⟩⟩

theorem not_grammar_of_lax (h : Lax s) : ¬Grammar s := by
  rintro ⟨digits', network', high', low', haddr⟩
  obtain ⟨digits, network, high, low, tail, hshape, hlax, -, -⟩ := h
  obtain ⟨rfl, -, rfl⟩ := haddr.shape.unique hshape
  rcases hlax with htail | ⟨c, hc, hfalse⟩
  · cases htail
  · rw [haddr.decimal c hc] at hfalse
    cases hfalse

end

/-- `Addr.parse` accepts the grammar, and raises a `ValueError` for everything else, for
exactly the strings that are neither lax nor overlong. -/
theorem parse_exact_iff (s : String) :
    ((Grammar s → ∃ a, Addr.parse s = .ok a) ∧ (¬Grammar s → ∃ e, Addr.parse s = .error e)) ↔
      ¬Lax s ∧ ¬Overlong s := by
  constructor
  · rintro ⟨haccept, hraise⟩
    refine ⟨fun hlax => ?_, fun hlong => ?_⟩
    · obtain ⟨a, ha⟩ := accepts_of_lax hlax
      obtain ⟨e, he⟩ := hraise (not_grammar_of_lax hlax)
      rw [ha] at he
      cases he
    · obtain ⟨a, ha⟩ := haccept hlong.grammar
      exact not_accepts_of_overlong hlong ha
  · rintro ⟨hlax, hlong⟩
    refine ⟨fun h => accepts_of_grammar h hlong, fun h => ?_⟩
    cases hparse : Addr.parse s with
    | ok a => exact absurd (grammar_of_accepts hparse hlax) h
    | error e => exact ⟨e, rfl⟩

/-- Every address is accepted with a newline after it. -/
theorem lax_str_newline {a : Addr} (h : a.InRange) : Lax (a.str ++ "\n") := by
  have hshape := shape_str h
  refine ⟨_, _, _, _, ['\n'], ⟨?_, hshape.ne_nil, hshape.decimal, hshape.hex, .inr rfl⟩, .inl rfl,
    length_toDigits_le h, ?_⟩
  · rw [String.toList_append, hshape.eq]
    simp
  · rw [value_toDigits_ten, value_formatHex]

theorem newline_accepted :
    ¬((Grammar "1:0001.0000.0001\n" → ∃ a, Addr.parse "1:0001.0000.0001\n" = .ok a) ∧
      (¬Grammar "1:0001.0000.0001\n" → ∃ e, Addr.parse "1:0001.0000.0001\n" = .error e)) := by
  have hlax : Lax "1:0001.0000.0001\n" := lax_str_newline (a := ⟨1, 1⟩) ⟨by decide, by decide⟩
  rintro ⟨-, hraise⟩
  obtain ⟨a, ha⟩ := accepts_of_lax hlax
  obtain ⟨e, he⟩ := hraise (not_grammar_of_lax hlax)
  rw [ha] at he
  cases he

end Ipc

end PilotLanggraph

import Mathlib.Data.List.TakeWhile
import Mathlib.Data.Nat.Init
import PilotLanggraph.Lib.JsonLocal

/-!
# Reading back what was written

* `loadsText_dumps` : a well-formed value is read back from its text.
* `loadsText_of_prefix` : no proper prefix of an object's text is a JSON text. The
  reader is local, so it would read that prefix inside the whole text as well, and stop
  before its end.
* `isPrint_of_mem_dumps` : the text is printable ASCII, so it holds no line break.
-/

namespace Json

/-! ## Reading back strings -/

theorem hexVal_hexDigit : ∀ d < 16, hexVal (hexDigit d) = some d := by
  decide

theorem hex4_value {n : ℕ} (hn : n < 65536) :
    ((n / 4096 % 16 * 16 + n / 256 % 16) * 16 + n / 16 % 16) * 16 + n % 16 = n := by
  omega

/-- Four digits of a `\u` escape that stands for a character are read as it. -/
theorem scanString_hex4 {hi : Option ℕ} {n : ℕ} {ch : Char} (hn : n < 65536)
    (h : finishHex hi n = some (.inl ch)) (r : List Char) :
    scanString (.hex hi 0 4) (hexDigit (n / 4096 % 16) :: hexDigit (n / 256 % 16) ::
        hexDigit (n / 16 % 16) :: hexDigit (n % 16) :: r) =
      (scanString .plain r).map fun p => (ch :: p.1, p.2) := by
  have h1 := hexVal_hexDigit (n / 4096 % 16) (by omega)
  have h2 := hexVal_hexDigit (n / 256 % 16) (by omega)
  have h3 := hexVal_hexDigit (n / 16 % 16) (by omega)
  have h4 := hexVal_hexDigit (n % 16) (by omega)
  simp [scanString, h1, h2, h3, h4, hex4_value hn, h]

/-- A high surrogate waits for its pair. -/
theorem scanString_hex4_high {n m : ℕ} (hn : n < 65536)
    (h : finishHex none n = some (.inr m)) (r : List Char) :
    scanString .plain (uEscape n ++ r) = scanString (.pairEsc m) r := by
  have h1 := hexVal_hexDigit (n / 4096 % 16) (by omega)
  have h2 := hexVal_hexDigit (n / 256 % 16) (by omega)
  have h3 := hexVal_hexDigit (n / 16 % 16) (by omega)
  have h4 := hexVal_hexDigit (n % 16) (by omega)
  simp [uEscape, scanString, h1, h2, h3, h4, hex4_value hn, h]

theorem toNat_valid (c : Char) : c.toNat < 55296 ∨ 57343 < c.toNat ∧ c.toNat < 1114112 := by
  have h : c.toNat.isValidChar := c.valid
  unfold Nat.isValidChar at h
  omega

theorem scanString_uEscape {c : Char} (hc : c.toNat < 65536) (r : List Char) :
    scanString .plain (uEscape c.toNat ++ r) =
      (scanString .plain r).map fun p => (c :: p.1, p.2) := by
  have hf : finishHex none c.toNat = some (.inl c) := by
    have := toNat_valid c
    rw [finishHex, if_neg (by omega), if_neg (by omega), Char.ofNat_toNat]
  rw [← scanString_hex4 hc hf r]
  simp [uEscape, scanString]

theorem scanString_pair {hi lo : ℕ} {c : Char} (hhi : hi < 65536) (hlo : lo < 65536)
    (h₁ : finishHex none hi = some (.inr hi)) (h₂ : finishHex (some hi) lo = some (.inl c))
    (r : List Char) : scanString .plain (uEscape hi ++ (uEscape lo ++ r)) =
      (scanString .plain r).map fun p => (c :: p.1, p.2) := by
  rw [scanString_hex4_high hhi h₁, ← scanString_hex4 hlo h₂ r]
  simp [uEscape, scanString]

/-- A character beyond `U+FFFF` is the value of its surrogate pair. -/
theorem finishHex_pair {c : Char} (hc : 65536 ≤ c.toNat) :
    finishHex none (55296 + (c.toNat - 65536) / 1024) =
        some (.inr (55296 + (c.toNat - 65536) / 1024)) ∧
      finishHex (some (55296 + (c.toNat - 65536) / 1024)) (56320 + (c.toNat - 65536) % 1024) =
        some (.inl c) := by
  have := toNat_valid c
  have hval : 65536 + (55296 + (c.toNat - 65536) / 1024 - 55296) * 1024 +
      (56320 + (c.toNat - 65536) % 1024 - 56320) = c.toNat := by omega
  constructor
  · rw [finishHex, if_pos (by omega)]
  · rw [finishHex, if_pos (by omega), hval, Char.ofNat_toNat]

/-- An escape of two characters. -/
theorem scanString_simpleEscape {e c : Char} (he : simpleEscape e = some c) (hu : e ≠ 'u')
    (r : List Char) :
    scanString .plain ('\\' :: e :: r) = (scanString .plain r).map fun p => (c :: p.1, p.2) := by
  rw [scanString, if_neg (by decide), if_pos rfl, scanString, if_neg hu, he]

/-- How a character is written. -/
theorem escChar_cases (c : Char) :
    (∃ e, escChar c = ['\\', e] ∧ simpleEscape e = some c ∧ e ≠ 'u' ∧ 32 ≤ e.toNat ∧
        e.toNat < 127) ∨
      (escChar c = [c] ∧ c ≠ '"' ∧ c ≠ '\\' ∧ 32 ≤ c.toNat ∧ c.toNat < 127) ∨
      (escChar c = uEscape c.toNat ∧ c.toNat < 65536) ∨
      escChar c = uEscape (55296 + (c.toNat - 65536) / 1024) ++
        uEscape (56320 + (c.toNat - 65536) % 1024) ∧ 65536 ≤ c.toNat := by
  by_cases hshort : c ∈ ['"', '\\', '\n', '\r', '\t', '\x0c', '\x08']
  · left
    simp only [List.mem_cons, List.not_mem_nil, or_false] at hshort
    rcases hshort with rfl | rfl | rfl | rfl | rfl | rfl | rfl
    · exact ⟨'"', rfl, rfl, by decide⟩
    · exact ⟨'\\', rfl, rfl, by decide⟩
    · exact ⟨'n', rfl, rfl, by decide⟩
    · exact ⟨'r', rfl, rfl, by decide⟩
    · exact ⟨'t', rfl, rfl, by decide⟩
    · exact ⟨'f', rfl, rfl, by decide⟩
    · exact ⟨'b', rfl, rfl, by decide⟩
  · right
    simp only [List.mem_cons, List.not_mem_nil, or_false, not_or] at hshort
    obtain ⟨h1, h2, h3, h4, h5, h6, h7⟩ := hshort
    rw [escChar, if_neg h1, if_neg h2, if_neg h3, if_neg h4, if_neg h5, if_neg h6, if_neg h7]
    by_cases hprint : 32 ≤ c.toNat ∧ c.toNat < 127
    · rw [if_pos hprint]
      exact .inl ⟨rfl, h1, h2, hprint⟩
    rw [if_neg hprint]
    by_cases hbmp : c.toNat < 65536
    · rw [if_pos hbmp]
      exact .inr (.inl ⟨rfl, hbmp⟩)
    · rw [if_neg hbmp]
      exact .inr (.inr ⟨rfl, Nat.not_lt.1 hbmp⟩)

theorem scanString_escChar (c : Char) (r : List Char) :
    scanString .plain (escChar c ++ r) = (scanString .plain r).map fun p => (c :: p.1, p.2) := by
  rcases escChar_cases c with ⟨e, heq, he, hu, -⟩ | ⟨heq, h1, h2, h32, -⟩ | ⟨heq, hc⟩ | ⟨heq, hc⟩
  · rw [heq]
    exact scanString_simpleEscape he hu r
  · rw [heq, List.singleton_append, scanString, if_neg h1, if_neg h2, if_neg (Nat.not_lt.2 h32)]
  · rw [heq]
    exact scanString_uEscape hc r
  · have := toNat_valid c
    have hp := finishHex_pair hc
    rw [heq, List.append_assoc]
    exact scanString_pair (by omega) (by omega) hp.1 hp.2 r

/-- The characters of a string are read back from its escapes. -/
theorem scanString_escape (r : List Char) :
    ∀ cs : List Char, scanString .plain (cs.flatMap escChar ++ '"' :: r) = some (cs, r)
  | [] => by simp [scanString]
  | c :: cs => by
    rw [List.flatMap_cons, List.append_assoc, scanString_escChar, scanString_escape r cs]
    rfl

/-! ## Reading back numbers -/

/-- Only zero starts with the digit `0`. -/
theorem toDigits_eq_cons (n : ℕ) : ∃ c cs, Nat.toDigits 10 n = c :: cs ∧ c ≠ '-' ∧
    (c = '0' → n = 0) := by
  induction n using Nat.strong_induction_on with
  | _ n ih =>
    rcases Nat.lt_or_ge n 10 with h | h
    · have hd : ∀ m < 10, m.digitChar ≠ '-' ∧ (m.digitChar = '0' → m = 0) := by decide
      exact ⟨n.digitChar, [], Nat.toDigits_of_lt_base h, hd n h⟩
    · obtain ⟨c, cs, hc, hne, h0⟩ := ih (n / 10) (by omega)
      rw [Nat.toDigits_of_base_le (by decide) h, hc]
      exact ⟨c, cs ++ [_], rfl, hne, fun e => absurd (h0 e) (by omega)⟩

theorem intPart_toDigits (n : ℕ) (r : List Char) (hr : NumEnd r) :
    intPart (Nat.toDigits 10 n ++ r) = (Nat.toDigits 10 n, r) := by
  obtain ⟨c, cs, hc, -, h0⟩ := toDigits_eq_cons n
  have hdig : ∀ d ∈ Nat.toDigits 10 n, Char.isDigit d = true := fun d hd =>
    Nat.isDigit_of_mem_toDigits (by decide) (by decide) hd
  by_cases hz : c = '0'
  · have hn := h0 hz
    subst hn
    simp [intPart]
  · have htw : (Nat.toDigits 10 n).takeWhile Char.isDigit = Nat.toDigits 10 n :=
      List.takeWhile_eq_self_iff.2 hdig
    have hdw : (Nat.toDigits 10 n).dropWhile Char.isDigit = [] := List.dropWhile_eq_nil_iff.2 hdig
    have := takeWhile_append_of_stop (p := Char.isDigit) (s := Nat.toDigits 10 n) (q := r)
      (by rw [hdw]; exact not_isDigit_of_numEnd hr)
    rw [htw, hdw, List.nil_append] at this
    rw [hc] at this ⊢
    rw [List.cons_append] at this ⊢
    rw [intPart, if_neg hz, this.1, this.2]

theorem fracPart_of_numEnd {r : List Char} (hr : NumEnd r) : fracPart r = ([], r) := by
  cases r with
  | nil => rfl
  | cons c r =>
    rw [numEnd_cons] at hr
    have hc : c ≠ '.' := by rintro rfl; exact absurd hr (by decide)
    simp [fracPart, hc]

theorem expPart_of_numEnd {r : List Char} (hr : NumEnd r) : expPart r = ([], r) := by
  cases r with
  | nil => rfl
  | cons c r =>
    rw [numEnd_cons] at hr
    have hc : ¬(c = 'e' ∨ c = 'E') := by rintro (rfl | rfl) <;> exact absurd hr (by decide)
    simp [expPart, hc]

theorem scanUnsigned_toDigits (neg : Bool) (n : ℕ) (r : List Char) (hr : NumEnd r) :
    scanUnsigned neg (Nat.toDigits 10 n ++ r) = some (.int (if neg then -(n : ℤ) else n), r) := by
  rw [scanUnsigned, intPart_toDigits n r hr]
  simp only [fracPart_of_numEnd hr, expPart_of_numEnd hr]
  simp [Nat.toDigits_ne_nil, Nat.ofDigitChars_ten_toDigits]

theorem scanNumber_dumpsInt (n : ℤ) (r : List Char) (hr : NumEnd r) :
    scanNumber (dumpsInt n ++ r) = some (.int n, r) := by
  cases n with
  | ofNat n =>
    obtain ⟨c, cs, hc, hne, -⟩ := toDigits_eq_cons n
    have := scanUnsigned_toDigits false n r hr
    simp only [dumpsInt]
    rw [hc, List.cons_append] at this ⊢
    rw [scanNumber, if_neg hne, this]
    simp
  | negSucc n =>
    have := scanUnsigned_toDigits true (n + 1) r hr
    simp only [dumpsInt, List.cons_append, scanNumber, if_true]
    rw [this]
    simp [Int.negSucc_eq]

/-! ## Reading back values -/

/-- The first character of a number or a word. -/
structure AtomHead (c : Char) : Prop where
  quote : c ≠ '"'
  brace : c ≠ '\x7b'
  bracket : c ≠ '['
  close : c ≠ ']'
  ws : isWs c = false

theorem atomHead_of_isDigit {c : Char} (h : c.isDigit = true) : AtomHead c := by
  refine ⟨?_, ?_, ?_, ?_, ?_⟩
  · rintro rfl; exact absurd h (by decide)
  · rintro rfl; exact absurd h (by decide)
  · rintro rfl; exact absurd h (by decide)
  · rintro rfl; exact absurd h (by decide)
  · by_contra hw
    simp only [isWs, Bool.not_eq_false, Bool.or_eq_true, decide_eq_true_eq] at hw
    rcases hw with ((rfl | rfl) | rfl) | rfl <;> exact absurd h (by decide)

theorem atomHead_minus : AtomHead '-' := by
  constructor <;> decide

theorem isDigit_of_intPart {c : Char} {cs : List Char} (h : (intPart (c :: cs)).1 ≠ []) :
    c.isDigit = true := by
  by_cases hc : c = '0'
  · rw [hc]; decide
  · rw [intPart, if_neg hc] at h
    by_contra hd
    simp [hd] at h

theorem atomHead_of_scanNumber {c : Char} {cs : List Char} {x : Number × List Char}
    (h : scanNumber (c :: cs) = some x) : AtomHead c := by
  by_cases hc : c = '-'
  · rw [hc]
    exact atomHead_minus
  · rw [scanNumber, if_neg hc] at h
    have hne : (intPart (c :: cs)).1 ≠ [] := by
      intro hi
      simp [scanUnsigned, hi] at h
    exact atomHead_of_isDigit (isDigit_of_intPart hne)

theorem scanNumber_dumpsInt_nil (n : ℤ) : scanNumber (dumpsInt n) = some (.int n, []) := by
  have := scanNumber_dumpsInt n [] numEnd_nil
  simpa using this

/-- A number or a word starts as one, and is read back as its value. -/
theorem scanAtom_of_scanNumber {t : List Char} {x : Number} {v : Json}
    (h : scanNumber t = some (x, [])) (hx : ofNumber x = some v) {r : List Char} (hr : NumEnd r) :
    scanAtom (t ++ r) = some (v, r) := by
  rw [scanAtom, scanNumber_append h (by simpa using hr)]
  simp [hx]

theorem parseValue_atom {c : Char} {cs r : List Char} {v : Json} (hc : AtomHead c) {n : ℕ}
    (hn : 0 < n) (h : scanAtom (c :: cs ++ r) = some (v, r)) :
    parseValue n (c :: cs ++ r) = some (v, r) := by
  obtain ⟨n, rfl⟩ : ∃ m, n = m + 1 := ⟨n - 1, by omega⟩
  rw [List.cons_append] at h ⊢
  rw [parseValue, if_neg hc.quote, if_neg hc.brace, if_neg hc.bracket, h]

theorem parseValue_literal {l : List Char × Json} (hl : l ∈ literals) {n : ℕ} (hn : 0 < n)
    (r : List Char) : parseValue n (l.1 ++ r) = some (l.2, r) := by
  have h := scanAtom_literal hl r
  simp only [literals, List.mem_cons, List.not_mem_nil, or_false] at hl
  rcases hl with rfl | rfl | rfl | rfl | rfl | rfl <;>
    exact parseValue_atom (by constructor <;> decide) hn h

theorem parseValue_number {t : List Char} {x : Number} {v : Json}
    (h : scanNumber t = some (x, [])) (hx : ofNumber x = some v) {n : ℕ} (hn : 0 < n)
    {r : List Char} (hr : NumEnd r) : parseValue n (t ++ r) = some (v, r) := by
  cases t with
  | nil => simp [scanNumber] at h
  | cons c cs =>
    exact parseValue_atom (atomHead_of_scanNumber h) hn (scanAtom_of_scanNumber h hx hr)

theorem ofNumber_lit (l : FloatLit) : ofNumber (.float l.text) = some (.float (.lit l)) := by
  rw [ofNumber, dif_pos l.isFloat]

/-- A text starts with a character that is neither white space nor a closing bracket. -/
theorem dumps_eq_cons (sep : Separators) (v : Json) :
    ∃ c cs, dumps sep v = c :: cs ∧ c ≠ ']' ∧ isWs c = false := by
  have number : ∀ {t : List Char} {x : Number × List Char}, scanNumber t = some x →
      ∃ c cs, t = c :: cs ∧ c ≠ ']' ∧ isWs c = false := by
    intro t x h
    cases t with
    | nil => simp [scanNumber] at h
    | cons c cs =>
      exact ⟨c, cs, rfl, (atomHead_of_scanNumber h).close, (atomHead_of_scanNumber h).ws⟩
  rcases v with _ | (_ | _) | n | (l | _ | _ | _) | s | (_ | _) | (_ | ⟨⟨_, _⟩, _⟩)
  case int => exact number (scanNumber_dumpsInt_nil n)
  case float.lit => exact number l.isFloat
  all_goals exact ⟨_, _, rfl, by decide, by decide⟩

theorem skipWs_pad {pad s : List Char} (hp : ∀ c ∈ pad, c = ' ')
    (hs : ∃ c cs, s = c :: cs ∧ isWs c = false) : skipWs (pad ++ s) = s := by
  obtain ⟨c, cs, rfl, hc⟩ := hs
  induction pad with
  | nil => simp [skipWs, hc]
  | cons d pad ih =>
    rw [hp d (by simp)]
    exact ih fun e he => hp e (by simp [he])

theorem skipWs_dumps {pad : List Char} (hp : ∀ c ∈ pad, c = ' ') (sep : Separators) (v : Json)
    (r : List Char) : skipWs (pad ++ (dumps sep v ++ r)) = dumps sep v ++ r := by
  obtain ⟨c, cs, h, -, hw⟩ := dumps_eq_cons sep v
  exact skipWs_pad hp ⟨c, cs ++ r, by rw [h, List.cons_append], hw⟩

theorem length_dumps_pos (sep : Separators) (v : Json) : 0 < (dumps sep v).length := by
  obtain ⟨c, cs, h, -, -⟩ := dumps_eq_cons sep v
  simp [h]

theorem fuel_pos {sep : Separators} {v : Json} {n : ℕ} (h : (dumps sep v).length ≤ n) : 0 < n :=
  Nat.lt_of_lt_of_le (length_dumps_pos sep v) h

theorem skipWs_cons_of_not_ws {c : Char} {s : List Char} (hc : isWs c = false) :
    skipWs (c :: s) = c :: s := by
  simp [skipWs, hc]

theorem numEnd_dumpsElems (sep : Separators) (xs : List Json) (r : List Char) :
    NumEnd (dumpsElems sep xs ++ r) := by
  cases xs <;> simp only [dumpsElems, List.cons_append, numEnd_cons] <;> decide

theorem numEnd_dumpsMembers (sep : Separators) (ms : List (String × Json)) (r : List Char) :
    NumEnd (dumpsMembers sep ms ++ r) := by
  rcases ms with _ | ⟨⟨_, _⟩, _⟩ <;>
    simp only [dumpsMembers, List.cons_append, numEnd_cons] <;> decide

theorem scanString_dumpsStr (k : String) (r : List Char) :
    ∃ cs, dumpsStr k ++ r = '"' :: cs ∧ scanString .plain cs = some (k.toList, r) :=
  ⟨k.toList.flatMap escChar ++ '"' :: r, by simp [dumpsStr], scanString_escape r _⟩

/-- The member at the head of a text : its name, its value, and then what follows. -/
theorem parseMembers_member (sep : Separators) (k : String) {v : Json} {n : ℕ} {s r : List Char}
    (hv : parseValue n (dumps sep v ++ s) = some (v, s)) {ms : List (String × Json)}
    (hs : (match skipWs s with
      | [] => none
      | e :: s =>
        if e = '\x7d' then some ([(k, v)], s)
        else if e = ',' then (parseMembers n (skipWs s)).map fun p => ((k, v) :: p.1, p.2)
        else none) = some (ms, r)) :
    parseMembers (n + 1) (dumpsStr k ++ ':' :: (sep.keyPad ++ (dumps sep v ++ s))) =
      some (ms, r) := by
  obtain ⟨cs, hk, hscan⟩ := scanString_dumpsStr k (':' :: (sep.keyPad ++ (dumps sep v ++ s)))
  rw [hk, parseMembers, if_pos rfl, hscan]
  simp only [skipWs_cons_of_not_ws (show isWs ':' = false by decide), if_true,
    skipWs_dumps sep.keyPad_ws, hv, String.ofList_toList]
  exact hs

mutual

/-- A value is read back from its text. -/
theorem parseValue_dumps (sep : Separators) : ∀ (v : Json) (n : ℕ) (r : List Char), v.WF →
    (dumps sep v).length ≤ n → NumEnd r → parseValue n (dumps sep v ++ r) = some (v, r)
  | .null, n, r, _, hn, _ =>
    parseValue_literal (l := ("null".toList, .null)) (by simp [literals]) (fuel_pos hn) r
  | .bool true, n, r, _, hn, _ =>
    parseValue_literal (l := ("true".toList, .bool true)) (by simp [literals]) (fuel_pos hn) r
  | .bool false, n, r, _, hn, _ =>
    parseValue_literal (l := ("false".toList, .bool false)) (by simp [literals]) (fuel_pos hn) r
  | .int i, n, r, _, hn, hr =>
    parseValue_number (scanNumber_dumpsInt_nil i) rfl (fuel_pos hn) hr
  | .float (.lit l), n, r, _, hn, hr =>
    parseValue_number l.isFloat (ofNumber_lit l) (fuel_pos hn) hr
  | .float .nan, n, r, _, hn, _ =>
    parseValue_literal (l := ("NaN".toList, .float .nan)) (by simp [literals]) (fuel_pos hn) r
  | .float .infinity, n, r, _, hn, _ =>
    parseValue_literal (l := ("Infinity".toList, .float .infinity)) (by simp [literals])
      (fuel_pos hn) r
  | .float .negInfinity, n, r, _, hn, _ =>
    parseValue_literal (l := ("-Infinity".toList, .float .negInfinity)) (by simp [literals])
      (fuel_pos hn) r
  | .str s, n, r, _, hn, _ => by
    obtain ⟨n, rfl⟩ : ∃ m, n = m + 1 := ⟨n - 1, by simp [dumps, dumpsStr] at hn; omega⟩
    obtain ⟨cs, hk, hscan⟩ := scanString_dumpsStr s r
    rw [dumps, hk, parseValue, if_pos rfl, hscan]
    simp
  | .arr [], n, r, _, hn, _ => by
    obtain ⟨n, rfl⟩ : ∃ m, n = m + 1 := ⟨n - 1, by simp [dumps] at hn; omega⟩
    rfl
  | .arr (x :: xs), n, r, hwf, hn, _ => by
    obtain ⟨n, rfl⟩ : ∃ m, n = m + 1 := ⟨n - 1, by simp [dumps] at hn; omega⟩
    have h := parseElems_dumps sep x xs n r hwf (by simpa [dumps] using hn)
    obtain ⟨c, cs, hc, hne, hw⟩ := dumps_eq_cons sep x
    rw [List.append_assoc] at h
    rw [dumps, List.cons_append, List.append_assoc]
    rw [hc, List.cons_append] at h ⊢
    rw [parseValue, if_neg (by decide), if_neg (by decide), if_pos rfl, skipWs_cons_of_not_ws hw]
    simp only [if_neg hne, h, Option.map_some]
  | .obj [], n, r, _, hn, _ => by
    obtain ⟨n, rfl⟩ : ∃ m, n = m + 1 := ⟨n - 1, by simp [dumps] at hn; omega⟩
    rfl
  | .obj ((k, v) :: ms), n, r, hwf, hn, _ => by
    obtain ⟨n, rfl⟩ : ∃ m, n = m + 1 := ⟨n - 1, by simp [dumps] at hn; omega⟩
    have h := parseMembers_dumps sep k v ms n r hwf.2 (by simpa [dumps] using hn)
    have htext : dumps sep (.obj ((k, v) :: ms)) ++ r =
        '\x7b' :: (dumpsStr k ++ ':' ::
          (sep.keyPad ++ (dumps sep v ++ (dumpsMembers sep ms ++ r)))) := by
      simp [dumps]
    rw [htext]
    obtain ⟨cs, hk, -⟩ :=
      scanString_dumpsStr k (':' :: (sep.keyPad ++ (dumps sep v ++ (dumpsMembers sep ms ++ r))))
    rw [hk] at h ⊢
    rw [parseValue, if_neg (by decide), if_pos rfl, skipWs_cons_of_not_ws (by decide)]
    simp only [Char.reduceEq, if_false, h, Option.map_some, Assoc.ofPairs_of_nodup hwf.1]
termination_by v => sizeOf v

/-- The elements of an array are read back from its text. -/
theorem parseElems_dumps (sep : Separators) : ∀ (x : Json) (xs : List Json) (n : ℕ)
    (r : List Char), WFElems (x :: xs) → (dumps sep x ++ dumpsElems sep xs).length ≤ n →
    parseElems n (dumps sep x ++ dumpsElems sep xs ++ r) = some (x :: xs, r)
  | x, [], n, r, hwf, hn => by
    simp only [List.length_append, dumpsElems, List.length_singleton] at hn
    obtain ⟨n, rfl⟩ : ∃ m, n = m + 1 := ⟨n - 1, by omega⟩
    rw [List.append_assoc, parseElems,
      parseValue_dumps sep x n _ hwf.1 (by omega) (numEnd_dumpsElems sep [] r)]
    rfl
  | x, y :: ys, n, r, hwf, hn => by
    simp only [List.length_append, dumpsElems, List.length_cons] at hn
    obtain ⟨n, rfl⟩ : ∃ m, n = m + 1 := ⟨n - 1, by omega⟩
    have h := parseElems_dumps sep y ys n r hwf.2 (by rw [List.length_append]; omega)
    rw [List.append_assoc, parseElems,
      parseValue_dumps sep x n _ hwf.1 (by omega) (numEnd_dumpsElems sep (y :: ys) r)]
    simp only [dumpsElems, List.cons_append, List.append_assoc] at h ⊢
    rw [skipWs_cons_of_not_ws (by decide)]
    simp only [Char.reduceEq, if_false, if_true, skipWs_dumps sep.itemPad_ws, h, Option.map_some]
termination_by x xs => sizeOf x + sizeOf xs

/-- The members of an object are read back from its text. -/
theorem parseMembers_dumps (sep : Separators) : ∀ (k : String) (v : Json)
    (ms : List (String × Json)) (n : ℕ) (r : List Char), WFMembers ((k, v) :: ms) →
    (dumpsStr k ++ ':' :: (sep.keyPad ++ (dumps sep v ++ dumpsMembers sep ms))).length ≤ n →
    parseMembers n (dumpsStr k ++ ':' ::
        (sep.keyPad ++ (dumps sep v ++ (dumpsMembers sep ms ++ r)))) =
      some ((k, v) :: ms, r)
  | k, v, [], n, r, hwf, hn => by
    simp only [List.length_append, List.length_cons] at hn
    obtain ⟨n, rfl⟩ : ∃ m, n = m + 1 := ⟨n - 1, by omega⟩
    exact parseMembers_member sep k (parseValue_dumps sep v n (dumpsMembers sep [] ++ r) hwf.1
      (by omega) (numEnd_dumpsMembers sep [] r)) rfl
  | k, v, (l, w) :: ms, n, r, hwf, hn => by
    simp only [List.length_append, List.length_cons, dumpsMembers] at hn
    obtain ⟨n, rfl⟩ : ∃ m, n = m + 1 := ⟨n - 1, by omega⟩
    have h := parseMembers_dumps sep l w ms n r hwf.2
      (by simp only [List.length_append, List.length_cons]; omega)
    have hv := parseValue_dumps sep v n (dumpsMembers sep ((l, w) :: ms) ++ r) hwf.1 (by omega)
      (numEnd_dumpsMembers sep ((l, w) :: ms) r)
    refine parseMembers_member sep k hv ?_
    obtain ⟨cs, hk, -⟩ :=
      scanString_dumpsStr l (':' :: (sep.keyPad ++ (dumps sep w ++ (dumpsMembers sep ms ++ r))))
    have hpad : skipWs (sep.itemPad ++ (dumpsStr l ++
        ':' :: (sep.keyPad ++ (dumps sep w ++ (dumpsMembers sep ms ++ r))))) = dumpsStr l ++
        ':' :: (sep.keyPad ++ (dumps sep w ++ (dumpsMembers sep ms ++ r))) :=
      skipWs_pad sep.itemPad_ws ⟨_, _, hk, by decide⟩
    simp only [dumpsMembers, List.cons_append, List.append_assoc]
    rw [skipWs_cons_of_not_ws (by decide)]
    simp only [Char.reduceEq, if_false, if_true, hpad, h, Option.map_some]
termination_by _ v ms => sizeOf v + sizeOf ms

end

/-- A well-formed value is read back from its text. -/
theorem loadsText_dumps (sep : Separators) {v : Json} (hv : v.WF) :
    loadsText (dumps sep v) = some v := by
  have hskip : skipWs ([] ++ (dumps sep v ++ [])) = dumps sep v ++ [] :=
    skipWs_dumps (by simp) sep v []
  have h := parseValue_dumps sep v ((dumps sep v).length + 1) [] hv (by omega) numEnd_nil
  simp only [List.nil_append, List.append_nil] at hskip h
  rw [loadsText, hskip, h]
  rfl

/-! ## Prefixes -/

/-- No proper prefix of an object's text is a JSON text. -/
theorem loadsText_of_prefix (sep : Separators) {ms : List (String × Json)} (hv : (obj ms).WF)
    {p q : List Char} (hpq : p ++ q = dumps sep (.obj ms)) (hq : q ≠ []) : loadsText p = none := by
  obtain ⟨cs, hcs⟩ : ∃ cs, dumps sep (.obj ms) = '\x7b' :: cs := by
    rcases ms with _ | ⟨⟨k, v⟩, ms⟩
    · exact ⟨_, rfl⟩
    · exact ⟨_, by rw [dumps]⟩
  cases p with
  | nil => rfl
  | cons c p =>
    obtain rfl : c = '\x7b' := by
      rw [hcs, List.cons_append, List.cons.injEq] at hpq
      exact hpq.1
    cases h : parseValue (('\x7b' :: p).length + 1) ('\x7b' :: p) with
    | none => rw [loadsText, skipWs_cons_of_not_ws (by decide), h]
    | some x =>
      -- The value read from the prefix is read from the whole text too, with `q` left over.
      obtain ⟨w, r⟩ := x
      exfalso
      have hlong := parseObject_append (parse_local q _).2.2 h
      have hwhole := parseValue_dumps sep (.obj ms)
        (max (('\x7b' :: p).length + 1) (dumps sep (.obj ms)).length) [] hv (le_max_right _ _)
        numEnd_nil
      rw [List.append_nil, ← hpq, parseValue_mono (le_max_left _ _) hlong] at hwhole
      have hr := (Prod.mk.inj (Option.some.inj hwhole)).2
      exact hq (List.append_eq_nil_iff.1 hr).2

/-! ## The characters of a text -/

/-- Printable ASCII. -/
def IsPrint (c : Char) : Prop :=
  32 ≤ c.toNat ∧ c.toNat < 127

instance (c : Char) : Decidable (IsPrint c) :=
  inferInstanceAs (Decidable (_ ∧ _))

theorem isPrint_of_isDigit {c : Char} (h : c.isDigit = true) : IsPrint c := by
  simp only [Char.isDigit, Bool.and_eq_true, decide_eq_true_eq] at h
  have h1 : 48 ≤ c.toNat := h.1
  have h2 : c.toNat ≤ 57 := h.2
  exact ⟨by omega, by omega⟩

theorem isPrint_of_mem_takeWhile {s : List Char} {c : Char} (h : c ∈ s.takeWhile Char.isDigit) :
    IsPrint c :=
  isPrint_of_isDigit (List.mem_takeWhile_imp h)

theorem isPrint_intPart {s : List Char} {c : Char} (h : c ∈ (intPart s).1) : IsPrint c := by
  cases s with
  | nil => simp [intPart] at h
  | cons d s =>
    rw [intPart] at h
    split_ifs at h
    · rw [List.mem_singleton.1 h]
      decide
    · exact isPrint_of_mem_takeWhile h

theorem isPrint_fracPart {s : List Char} {c : Char} (h : c ∈ (fracPart s).1) : IsPrint c := by
  cases s with
  | nil => simp [fracPart] at h
  | cons d s =>
    rw [fracPart] at h
    split_ifs at h
    · rcases List.mem_cons.1 h with rfl | h
      · decide
      · exact isPrint_of_mem_takeWhile h
    · simp at h

theorem isPrint_signPart {s : List Char} {c : Char} (h : c ∈ (signPart s).1) : IsPrint c := by
  cases s with
  | nil => simp [signPart] at h
  | cons d s =>
    rw [signPart] at h
    split_ifs at h with hd
    · rw [List.mem_singleton.1 h]
      rcases hd with rfl | rfl <;> decide
    · simp at h

theorem isPrint_expPart {s : List Char} {c : Char} (h : c ∈ (expPart s).1) : IsPrint c := by
  cases s with
  | nil => simp [expPart] at h
  | cons d s =>
    rw [expPart] at h
    split_ifs at h with hd
    · rcases List.mem_append.1 h with h | h
      · rcases List.mem_cons.1 h with rfl | h
        · rcases hd.1 with rfl | rfl <;> decide
        · exact isPrint_signPart h
      · exact isPrint_of_mem_takeWhile h
    · simp at h

theorem isPrint_of_scanUnsigned {neg : Bool} {s t r : List Char}
    (h : scanUnsigned neg s = some (.float t, r)) {c : Char} (hc : c ∈ t) : IsPrint c := by
  simp only [scanUnsigned] at h
  split_ifs at h <;> simp only [Option.some.injEq, Prod.mk.injEq, reduceCtorEq, false_and,
    Number.float.injEq] at h
  all_goals
    obtain ⟨rfl, -⟩ := h
    simp only [List.mem_append] at hc
    rcases hc with ((hc | hc) | hc) | hc
    · first
        | exact absurd hc List.not_mem_nil
        | rw [List.mem_singleton.1 hc]; decide
    · exact isPrint_intPart hc
    · exact isPrint_fracPart hc
    · exact isPrint_expPart hc

theorem isPrint_floatLit (l : FloatLit) {c : Char} (hc : c ∈ l.text) : IsPrint c := by
  have h := l.isFloat
  generalize l.text = s at h hc
  generalize ht : s = t at h hc
  cases s with
  | nil => subst ht; simp at hc
  | cons d s =>
    have h' : scanNumber (d :: s) = some (.float t, []) := by
      rw [ht]
      exact h
    rw [scanNumber] at h'
    split_ifs at h'
    · exact isPrint_of_scanUnsigned h' hc
    · exact isPrint_of_scanUnsigned h' hc

theorem isPrint_hexDigit : ∀ d < 16, IsPrint (hexDigit d) := by
  decide

theorem isPrint_uEscape {n : ℕ} {c : Char} (h : c ∈ uEscape n) : IsPrint c := by
  simp only [uEscape, List.mem_cons, List.not_mem_nil, or_false] at h
  rcases h with rfl | rfl | rfl | rfl | rfl | rfl
  · decide
  · decide
  all_goals exact isPrint_hexDigit _ (by omega)

theorem isPrint_escChar {d c : Char} (h : c ∈ escChar d) : IsPrint c := by
  rcases escChar_cases d with ⟨e, heq, -, -, he⟩ | ⟨heq, -, -, hd⟩ | ⟨heq, -⟩ | ⟨heq, -⟩
  · rw [heq, List.mem_cons, List.mem_singleton] at h
    rcases h with rfl | rfl
    · decide
    · exact he
  · rw [heq, List.mem_singleton] at h
    rw [h]
    exact hd
  · exact isPrint_uEscape (heq ▸ h)
  · rw [heq, List.mem_append] at h
    rcases h with h | h
    · exact isPrint_uEscape h
    · exact isPrint_uEscape h

theorem isPrint_dumpsStr {s : String} {c : Char} (h : c ∈ dumpsStr s) : IsPrint c := by
  simp only [dumpsStr, List.cons_append, List.mem_cons, List.mem_append, List.mem_flatMap,
    List.not_mem_nil, or_false] at h
  rcases h with rfl | ⟨d, -, h⟩ | rfl
  · decide
  · exact isPrint_escChar h
  · decide

theorem isPrint_dumpsInt {n : ℤ} {c : Char} (h : c ∈ dumpsInt n) : IsPrint c := by
  have digit : ∀ m, c ∈ Nat.toDigits 10 m → IsPrint c := fun m hc =>
    isPrint_of_isDigit (Nat.isDigit_of_mem_toDigits (by decide) (by decide) hc)
  cases n with
  | ofNat m => exact digit m h
  | negSucc m =>
    rcases List.mem_cons.1 h with rfl | h
    · decide
    · exact digit _ h

theorem isPrint_literals : ∀ l ∈ literals, ∀ c ∈ l.1, IsPrint c := by
  have h : (literals.all fun l => l.1.all fun c => decide (IsPrint c)) = true := by decide
  intro l hl c hc
  exact of_decide_eq_true (List.all_eq_true.1 (List.all_eq_true.1 h l hl) c hc)

theorem isPrint_dumpsFloat {x : Float} {c : Char} (h : c ∈ dumpsFloat x) : IsPrint c := by
  cases x with
  | lit l => exact isPrint_floatLit l h
  | nan => exact isPrint_literals ("NaN".toList, .float .nan) (by simp [literals]) c h
  | infinity =>
    exact isPrint_literals ("Infinity".toList, .float .infinity) (by simp [literals]) c h
  | negInfinity =>
    exact isPrint_literals ("-Infinity".toList, .float .negInfinity) (by simp [literals]) c h

theorem isPrint_itemPad (sep : Separators) {c : Char} (h : c ∈ sep.itemPad) : IsPrint c := by
  rw [sep.itemPad_ws c h]
  decide

theorem isPrint_keyPad (sep : Separators) {c : Char} (h : c ∈ sep.keyPad) : IsPrint c := by
  rw [sep.keyPad_ws c h]
  decide

mutual

/-- The text of a value is printable ASCII. -/
theorem isPrint_of_mem_dumps (sep : Separators) (c : Char) :
    ∀ v : Json, c ∈ dumps sep v → IsPrint c
  | .null, h => isPrint_literals ("null".toList, .null) (by simp [literals]) c h
  | .bool true, h => isPrint_literals ("true".toList, .bool true) (by simp [literals]) c h
  | .bool false, h => isPrint_literals ("false".toList, .bool false) (by simp [literals]) c h
  | .int _, h => isPrint_dumpsInt h
  | .float _, h => isPrint_dumpsFloat h
  | .str _, h => isPrint_dumpsStr h
  | .arr [], h => by
    rcases List.mem_cons.1 h with rfl | h
    · decide
    · rw [List.mem_singleton.1 h]; decide
  | .arr (x :: xs), h => by
    simp only [dumps, List.mem_cons, List.mem_append] at h
    rcases h with rfl | h | h
    · decide
    · exact isPrint_of_mem_dumps sep c x h
    · exact isPrint_of_mem_dumpsElems sep c xs h
  | .obj [], h => by
    rcases List.mem_cons.1 h with rfl | h
    · decide
    · rw [List.mem_singleton.1 h]; decide
  | .obj ((k, v) :: ms), h => by
    simp only [dumps, List.mem_cons, List.mem_append] at h
    rcases h with rfl | h | rfl | h | h | h
    · decide
    · exact isPrint_dumpsStr h
    · decide
    · exact isPrint_keyPad sep h
    · exact isPrint_of_mem_dumps sep c v h
    · exact isPrint_of_mem_dumpsMembers sep c ms h

theorem isPrint_of_mem_dumpsElems (sep : Separators) (c : Char) :
    ∀ xs : List Json, c ∈ dumpsElems sep xs → IsPrint c
  | [], h => by rw [List.mem_singleton.1 h]; decide
  | x :: xs, h => by
    simp only [dumpsElems, List.mem_cons, List.mem_append] at h
    rcases h with rfl | h | h | h
    · decide
    · exact isPrint_itemPad sep h
    · exact isPrint_of_mem_dumps sep c x h
    · exact isPrint_of_mem_dumpsElems sep c xs h

theorem isPrint_of_mem_dumpsMembers (sep : Separators) (c : Char) :
    ∀ ms : List (String × Json), c ∈ dumpsMembers sep ms → IsPrint c
  | [], h => by rw [List.mem_singleton.1 h]; decide
  | (k, v) :: ms, h => by
    simp only [dumpsMembers, List.mem_cons, List.mem_append] at h
    rcases h with rfl | h | h | rfl | h | h | h
    · decide
    · exact isPrint_itemPad sep h
    · exact isPrint_dumpsStr h
    · decide
    · exact isPrint_keyPad sep h
    · exact isPrint_of_mem_dumps sep c v h
    · exact isPrint_of_mem_dumpsMembers sep c ms h

end

end Json

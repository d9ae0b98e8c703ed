import Mathlib.Data.Int.Notation
import PilotLanggraph.Lib.Dict

/-!
# JSON values and their text

`Json` is the type of the values a JSON text stands for, with Python's reading of it :
integers are unbounded, a float is kept as the literal that stands for it, `NaN`,
`Infinity` and `-Infinity` are accepted, and an object is a dictionary in text order, a
repeated name overriding the earlier one.

`dumps` writes a value in ASCII, with the separators as a parameter; `loadsText` reads
a text back. The reader follows the scanner of the Python library : `parseValue` reads
one value and returns the rest, and recursion is on a fuel that the length of the text
bounds. A lone surrogate escape, which no `Char` stands for, is refused.
-/

namespace Json

/-! ## Numbers -/

/-- A scanned number : an integer, or the text of a float. -/
inductive Number
  | int (n : ℤ)
  | float (text : List Char)
  deriving DecidableEq

/-- The integer part : a single `0`, or a run of digits. -/
def intPart : List Char → List Char × List Char
  | [] => ([], [])
  | c :: cs =>
    if c = '0' then (['0'], cs)
    else ((c :: cs).takeWhile Char.isDigit, (c :: cs).dropWhile Char.isDigit)

/-- The fraction, if a digit follows the point. -/
def fracPart : List Char → List Char × List Char
  | [] => ([], [])
  | c :: cs =>
    if c = '.' ∧ ¬(cs.takeWhile Char.isDigit).isEmpty then
      ('.' :: cs.takeWhile Char.isDigit, cs.dropWhile Char.isDigit)
    else ([], c :: cs)

/-- An optional sign. -/
def signPart : List Char → List Char × List Char
  | [] => ([], [])
  | c :: cs => if c = '+' ∨ c = '-' then ([c], cs) else ([], c :: cs)

/-- The exponent, if a digit follows the mark and its sign. -/
def expPart : List Char → List Char × List Char
  | [] => ([], [])
  | c :: cs =>
    if (c = 'e' ∨ c = 'E') ∧ ¬((signPart cs).2.takeWhile Char.isDigit).isEmpty then
      (c :: (signPart cs).1 ++ (signPart cs).2.takeWhile Char.isDigit,
        (signPart cs).2.dropWhile Char.isDigit)
    else ([], c :: cs)

/-- A number without its sign, given whether a `-` came before it. -/
def scanUnsigned (neg : Bool) (cs : List Char) : Option (Number × List Char) :=
  let i := intPart cs
  let f := fracPart i.2
  let e := expPart f.2
  if i.1.isEmpty then none
  else if f.1.isEmpty && e.1.isEmpty then
    let n : ℤ := Nat.ofDigitChars 10 i.1 0
    some (.int (if neg then -n else n), e.2)
  else some (.float ((if neg then ['-'] else []) ++ i.1 ++ f.1 ++ e.1), e.2)

/-- A number at the head of a text. -/
def scanNumber : List Char → Option (Number × List Char)
  | [] => none
  | c :: cs => if c = '-' then scanUnsigned true cs else scanUnsigned false (c :: cs)

/-- The text of a finite float. -/
structure FloatLit where
  /-- The literal. -/
  text : List Char
  isFloat : scanNumber text = some (.float text, [])
  deriving DecidableEq

/-- A float : a literal, or one of the three values without one. -/
inductive Float
  | lit (l : FloatLit)
  | nan
  | infinity
  | negInfinity
  deriving DecidableEq

end Json

/-- A JSON value. -/
inductive Json
  | null
  | bool (b : Bool)
  | int (n : ℤ)
  | float (x : Json.Float)
  | str (s : String)
  | arr (xs : List Json)
  | obj (ms : List (String × Json))

namespace Json

mutual

/-- Equality of values is decidable. -/
def decEq : (a b : Json) → Decidable (a = b)
  | .null, .null => isTrue rfl
  | .bool a, .bool b => decidable_of_iff (a = b) (by simp)
  | .int a, .int b => decidable_of_iff (a = b) (by simp)
  | .float a, .float b => decidable_of_iff (a = b) (by simp)
  | .str a, .str b => decidable_of_iff (a = b) (by simp)
  | .arr xs, .arr ys =>
    have := decEqElems xs ys
    decidable_of_iff (xs = ys) (by simp)
  | .obj ms, .obj ns =>
    have := decEqMembers ms ns
    decidable_of_iff (ms = ns) (by simp)
  | .null, .bool _ | .null, .int _ | .null, .float _ | .null, .str _ | .null, .arr _
  | .null, .obj _ | .bool _, .null | .bool _, .int _ | .bool _, .float _ | .bool _, .str _
  | .bool _, .arr _ | .bool _, .obj _ | .int _, .null | .int _, .bool _ | .int _, .float _
  | .int _, .str _ | .int _, .arr _ | .int _, .obj _ | .float _, .null | .float _, .bool _
  | .float _, .int _ | .float _, .str _ | .float _, .arr _ | .float _, .obj _ | .str _, .null
  | .str _, .bool _ | .str _, .int _ | .str _, .float _ | .str _, .arr _ | .str _, .obj _
  | .arr _, .null | .arr _, .bool _ | .arr _, .int _ | .arr _, .float _ | .arr _, .str _
  | .arr _, .obj _ | .obj _, .null | .obj _, .bool _ | .obj _, .int _ | .obj _, .float _
  | .obj _, .str _ | .obj _, .arr _ => isFalse (by simp)

/-- Equality of element lists. -/
def decEqElems : (xs ys : List Json) → Decidable (xs = ys)
  | [], [] => isTrue rfl
  | [], _ :: _ => isFalse (by simp)
  | _ :: _, [] => isFalse (by simp)
  | x :: xs, y :: ys =>
    have := decEq x y
    have := decEqElems xs ys
    decidable_of_iff (x = y ∧ xs = ys) (by simp)

/-- Equality of member lists. -/
def decEqMembers : (ms ns : List (String × Json)) → Decidable (ms = ns)
  | [], [] => isTrue rfl
  | [], _ :: _ => isFalse (by simp)
  | _ :: _, [] => isFalse (by simp)
  | (k, v) :: ms, (l, w) :: ns =>
    have := decEq v w
    have := decEqMembers ms ns
    decidable_of_iff (k = l ∧ v = w ∧ ms = ns) (by simp [and_assoc])

end

instance : DecidableEq Json :=
  decEq

mutual

/-- Every object has distinct names : the value is one a Python program can hold. -/
def WF : Json → Prop
  | .arr xs => WFElems xs
  | .obj ms => (Assoc.keys ms).Nodup ∧ WFMembers ms
  | _ => True

/-- Every element is well formed. -/
def WFElems : List Json → Prop
  | [] => True
  | x :: xs => x.WF ∧ WFElems xs

/-- Every member value is well formed. -/
def WFMembers : List (String × Json) → Prop
  | [] => True
  | (_, v) :: ms => v.WF ∧ WFMembers ms

end

/-- A value whose objects have distinct names. -/
structure Value where
  /-- The value. -/
  val : Json
  wf : val.WF

/-- The literal stands for zero : it is no larger than half the least positive float,
`2 ^ -1074`. -/
def FloatLit.isZero (l : FloatLit) : Bool :=
  let mantissa := l.text.takeWhile fun c => c ≠ 'e' ∧ c ≠ 'E'
  let exponent := l.text.dropWhile fun c => c ≠ 'e' ∧ c ≠ 'E'
  let digits := Nat.ofDigitChars 10 (mantissa.filter Char.isDigit) 0
  let places := ((mantissa.dropWhile (· ≠ '.')).filter Char.isDigit).length
  let power := Nat.ofDigitChars 10 (exponent.filter Char.isDigit) 0
  if exponent.contains '-' then digits * Nat.pow 2 1075 ≤ Nat.pow 10 (places + power)
  else digits * Nat.pow 10 power * Nat.pow 2 1075 ≤ Nat.pow 10 places

/-- Python's truth value. -/
def truthy : Json → Bool
  | .null => false
  | .bool b => b
  | .int n => n ≠ 0
  | .float (.lit l) => !l.isZero
  | .float _ => true
  | .str s => s ≠ ""
  | .arr xs => !xs.isEmpty
  | .obj ms => !ms.isEmpty

/-- `None`, or a string. -/
def ofString? (s : Option String) : Json :=
  (s.map Json.str).getD .null

/-- The string, if the value is one. -/
def string? : Json → Option String
  | .str s => some s
  | _ => none

@[simp] theorem string?_ofString? (s : Option String) : (ofString? s).string? = s := by
  cases s with
  | none => rfl
  | some s => rfl

/-- The value is null or a string. -/
def IsText (v : Json) : Prop :=
  ofString? v.string? = v

instance (v : Json) : Decidable v.IsText :=
  inferInstanceAs (Decidable (ofString? v.string? = v))

@[simp] theorem isText_ofString? (s : Option String) : (ofString? s).IsText :=
  congrArg ofString? (string?_ofString? s)

/-! ## Writing -/

/-- White space inside a text. -/
def isWs (c : Char) : Bool :=
  c = ' ' || c = '\t' || c = '\n' || c = '\r'

/-- What follows the comma between items and the colon after a name. -/
structure Separators where
  /-- After `,`. -/
  itemPad : List Char
  /-- After `:`. -/
  keyPad : List Char
  itemPad_ws : ∀ c ∈ itemPad, c = ' '
  keyPad_ws : ∀ c ∈ keyPad, c = ' '

/-- `separators=(",", ":")`. -/
def compact : Separators :=
  ⟨[], [], by simp, by simp⟩

/-- The default `separators=(", ", ": ")`. -/
def spaced : Separators :=
  ⟨[' '], [' '], by simp, by simp⟩

/-- A hexadecimal digit, in lower case. -/
def hexDigit (d : ℕ) : Char :=
  if d < 10 then Char.ofNat (48 + d) else Char.ofNat (87 + d)

/-- `\uXXXX`. -/
def uEscape (n : ℕ) : List Char :=
  ['\\', 'u', hexDigit (n / 4096 % 16), hexDigit (n / 256 % 16), hexDigit (n / 16 % 16),
    hexDigit (n % 16)]

/-- A character of a string : printable ASCII stands for itself, the rest is escaped, a
character beyond `U+FFFF` as a surrogate pair. -/
def escChar (c : Char) : List Char :=
  if c = '"' then ['\\', '"']
  else if c = '\\' then ['\\', '\\']
  else if c = '\n' then ['\\', 'n']
  else if c = '\r' then ['\\', 'r']
  else if c = '\t' then ['\\', 't']
  else if c = '\x0c' then ['\\', 'f']
  else if c = '\x08' then ['\\', 'b']
  else if 32 ≤ c.toNat ∧ c.toNat < 127 then [c]
  else if c.toNat < 65536 then uEscape c.toNat
  else uEscape (55296 + (c.toNat - 65536) / 1024) ++ uEscape (56320 + (c.toNat - 65536) % 1024)

/-- A string in its quotes. -/
def dumpsStr (s : String) : List Char :=
  '"' :: s.toList.flatMap escChar ++ ['"']

/-- An integer in decimal. -/
def dumpsInt : ℤ → List Char
  | .ofNat n => Nat.toDigits 10 n
  | .negSucc n => '-' :: Nat.toDigits 10 (n + 1)

/-- A float. -/
def dumpsFloat : Float → List Char
  | .lit l => l.text
  | .nan => "NaN".toList
  | .infinity => "Infinity".toList
  | .negInfinity => "-Infinity".toList

mutual

/-- The text of a value. -/
def dumps (sep : Separators) : Json → List Char
  | .null => "null".toList
  | .bool true => "true".toList
  | .bool false => "false".toList
  | .int n => dumpsInt n
  | .float x => dumpsFloat x
  | .str s => dumpsStr s
  | .arr [] => ['[', ']']
  | .arr (x :: xs) => '[' :: (dumps sep x ++ dumpsElems sep xs)
  | .obj [] => ['\x7b', '\x7d']
  | .obj ((k, v) :: ms) =>
    '\x7b' :: (dumpsStr k ++ ':' :: (sep.keyPad ++ (dumps sep v ++ dumpsMembers sep ms)))

/-- The elements after the first, and the closing bracket. -/
def dumpsElems (sep : Separators) : List Json → List Char
  | [] => [']']
  | x :: xs => ',' :: (sep.itemPad ++ (dumps sep x ++ dumpsElems sep xs))

/-- The members after the first, and the closing brace. -/
def dumpsMembers (sep : Separators) : List (String × Json) → List Char
  | [] => ['\x7d']
  | (k, v) :: ms => ',' :: (sep.itemPad ++
      (dumpsStr k ++ ':' :: (sep.keyPad ++ (dumps sep v ++ dumpsMembers sep ms))))

end

/-! ## Reading -/

/-- Where the string scanner is : between characters, after a backslash, inside a
`\u` escape with the digits read so far (`hi` the high surrogate before it), or between
the two escapes of a surrogate pair. -/
inductive StrState
  | plain
  | esc
  | hex (hi : Option ℕ) (acc left : ℕ)
  | pairEsc (hi : ℕ)
  | pairU (hi : ℕ)

/-- The escapes of one letter. -/
def simpleEscape (c : Char) : Option Char :=
  if c = '"' then some '"'
  else if c = '\\' then some '\\'
  else if c = '/' then some '/'
  else if c = 'b' then some '\x08'
  else if c = 'f' then some '\x0c'
  else if c = 'n' then some '\n'
  else if c = 'r' then some '\r'
  else if c = 't' then some '\t'
  else none

/-- The value of a hexadecimal digit. -/
def hexVal (c : Char) : Option ℕ :=
  if '0' ≤ c ∧ c ≤ '9' then some (c.toNat - 48)
  else if 'a' ≤ c ∧ c ≤ 'f' then some (c.toNat - 87)
  else if 'A' ≤ c ∧ c ≤ 'F' then some (c.toNat - 55)
  else none

/-- What a complete `\u` escape with value `n` gives : a character, the wait for a low
surrogate, or (for an unpaired surrogate) nothing. -/
def finishHex (hi : Option ℕ) (n : ℕ) : Option (Char ⊕ ℕ) :=
  match hi with
  | none =>
    if 55296 ≤ n ∧ n < 56320 then some (.inr n)
    else if 56320 ≤ n ∧ n < 57344 then none
    else some (.inl (Char.ofNat n))
  | some h =>
    if 56320 ≤ n ∧ n < 57344 then
      some (.inl (Char.ofNat (65536 + (h - 55296) * 1024 + (n - 56320))))
    else none

/-- The characters of a string up to its closing quote, and the rest. -/
def scanString : StrState → List Char → Option (List Char × List Char)
  | _, [] => none
  | .plain, c :: cs =>
    if c = '"' then some ([], cs)
    else if c = '\\' then scanString .esc cs
    else if c.toNat < 32 then none
    else (scanString .plain cs).map fun p => (c :: p.1, p.2)
  | .esc, c :: cs =>
    if c = 'u' then scanString (.hex none 0 4) cs
    else match simpleEscape c with
      | some d => (scanString .plain cs).map fun p => (d :: p.1, p.2)
      | none => none
  | .hex hi acc left, c :: cs =>
    match hexVal c with
    | none => none
    | some d =>
      if left ≤ 1 then
        match finishHex hi (acc * 16 + d) with
        | some (.inl ch) => (scanString .plain cs).map fun p => (ch :: p.1, p.2)
        | some (.inr h) => scanString (.pairEsc h) cs
        | none => none
      else scanString (.hex hi (acc * 16 + d) (left - 1)) cs
  | .pairEsc h, c :: cs => if c = '\\' then scanString (.pairU h) cs else none
  | .pairU h, c :: cs => if c = 'u' then scanString (.hex (some h) 0 4) cs else none

/-- Skip white space. -/
def skipWs (cs : List Char) : List Char :=
  cs.dropWhile isWs

/-- The words that stand for a value. -/
def literals : List (List Char × Json) :=
  [("null".toList, .null), ("true".toList, .bool true), ("false".toList, .bool false),
    ("NaN".toList, .float .nan), ("Infinity".toList, .float .infinity),
    ("-Infinity".toList, .float .negInfinity)]

/-- A literal word at the head of a text. -/
def scanLiteral (cs : List Char) : Option (Json × List Char) :=
  literals.findSome? fun l => (l.1.isPrefixOf? cs).map fun r => (l.2, r)

/-- The value of a scanned number. A float literal is kept as it was read. -/
def ofNumber : Number → Option Json
  | .int n => some (.int n)
  | .float t => if h : scanNumber t = some (.float t, []) then some (.float (.lit ⟨t, h⟩)) else none

/-- A value that starts with none of `"`, `\x7b` and `[`. -/
def scanAtom (cs : List Char) : Option (Json × List Char) :=
  match scanNumber cs with
  | some (n, r) => (ofNumber n).map fun v => (v, r)
  | none => scanLiteral cs

mutual

/-- One value at the head of a text, and the rest. -/
def parseValue : ℕ → List Char → Option (Json × List Char)
  | 0, _ => none
  | _ + 1, [] => none
  | n + 1, c :: cs =>
    if c = '"' then (scanString .plain cs).map fun p => (.str (String.ofList p.1), p.2)
    else if c = '\x7b' then
      match skipWs cs with
      | [] => none
      | d :: r =>
        if d = '\x7d' then some (.obj [], r)
        else (parseMembers n (d :: r)).map fun p => (.obj (Assoc.ofPairs p.1), p.2)
    else if c = '[' then
      match skipWs cs with
      | [] => none
      | d :: r =>
        if d = ']' then some (.arr [], r)
        else (parseElems n (d :: r)).map fun p => (.arr p.1, p.2)
    else scanAtom (c :: cs)

/-- The elements of a non-empty array, and the rest after its bracket. -/
def parseElems : ℕ → List Char → Option (List Json × List Char)
  | 0, _ => none
  | n + 1, cs =>
    match parseValue n cs with
    | none => none
    | some (v, r) =>
      match skipWs r with
      | [] => none
      | d :: s =>
        if d = ']' then some ([v], s)
        else if d = ',' then (parseElems n (skipWs s)).map fun p => (v :: p.1, p.2)
        else none

/-- The members of a non-empty object, and the rest after its brace. -/
def parseMembers : ℕ → List Char → Option (List (String × Json) × List Char)
  | 0, _ => none
  | _ + 1, [] => none
  | n + 1, c :: cs =>
    if c = '"' then
      match scanString .plain cs with
      | none => none
      | some (k, r) =>
        match skipWs r with
        | [] => none
        | d :: r' =>
          if d = ':' then
            match parseValue n (skipWs r') with
            | none => none
            | some (v, r'') =>
              match skipWs r'' with
              | [] => none
              | e :: s =>
                if e = '\x7d' then some ([(String.ofList k, v)], s)
                else if e = ',' then
                  (parseMembers n (skipWs s)).map fun p => ((String.ofList k, v) :: p.1, p.2)
                else none
          else none
    else none

end

/-- `json.loads` of a text : one value with white space around it. -/
def loadsText (cs : List Char) : Option Json :=
  match parseValue (cs.length + 1) (skipWs cs) with
  | some (v, r) => if (skipWs r).isEmpty then some v else none
  | none => none

end Json

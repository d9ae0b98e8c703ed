import PilotLanggraph.Lib.Decimal
import PilotLanggraph.Lib.Framing

/-!
# The text exposition of metrics

A reader of Prometheus' text format. A line is empty, a comment, or a sample : the name of a
metric, labels, a number and a timestamp. The value of a label stands between quotes, with
backslashes, quotes and line feeds escaped; a reader undoes that up to the first quote that is
not escaped. Comments are free, but those that start with HELP or TYPE must name a metric.

The lemmas say how each kind of line is read, and `parse_join` how a text made of such lines is.
-/

namespace Exposition

/-- A sample. -/
structure Sample where
  name : String
  labels : List (String × String)
  value : ℚ
  deriving DecidableEq

/-! ## Names and blanks -/

def isBlank (c : Char) : Bool :=
  c = ' ' || c = '\t'

def skipBlanks (cs : List Char) : List Char :=
  cs.dropWhile isBlank

/-- The characters of a label's name. -/
def labelChar (c : Char) : Bool :=
  c.isAlphanum || c = '_'

/-- The characters of a metric's name. -/
def metricChar (c : Char) : Bool :=
  labelChar c || c = ':'

/-- A name is not empty, and does not start with a digit. -/
def isName (p : Char → Bool) (cs : List Char) : Bool :=
  cs.all p && cs.head?.any (!·.isDigit)

/-- The name at the front. -/
def scanName (p : Char → Bool) (cs : List Char) : Option (String × List Char) :=
  if isName p (cs.takeWhile p) then some (String.ofList (cs.takeWhile p), cs.dropWhile p)
  else none

/-- What stands before the next blank, and after it. -/
def token (cs : List Char) : List Char × List Char :=
  (cs.takeWhile (!isBlank ·), skipBlanks (cs.dropWhile (!isBlank ·)))

section

variable {p : Char → Bool} {c : Char} {cs rest : List Char}

/-- What holds of no blank. -/
theorem isBlank_of_true (hspace : p ' ' = false) (htab : p '\t' = false) (hc : p c = true) :
    isBlank c = false := by
  by_contra hblank
  rw [Bool.not_eq_false, isBlank, Bool.or_eq_true, decide_eq_true_eq, decide_eq_true_eq] at hblank
  rcases hblank with rfl | rfl
  · cases hspace.symm.trans hc
  · cases htab.symm.trans hc

theorem skipBlanks_blank (h : ∀ c ∈ cs.head?, isBlank c = false) :
    skipBlanks (' ' :: cs) = cs := by
  have hblank : ∀ c ∈ [' '], isBlank c = true := by simp [isBlank]
  exact Decimal.dropWhile_append_stop hblank h

theorem skipBlanks_of_not_blank (h : ∀ c ∈ cs.head?, isBlank c = false) : skipBlanks cs = cs := by
  have hblank : ∀ c ∈ ([] : List Char), isBlank c = true := by simp
  exact Decimal.dropWhile_append_stop hblank h

theorem all_of_isName (hname : isName p cs = true) : ∀ c ∈ cs, p c = true := by
  rw [isName, Bool.and_eq_true, List.all_eq_true] at hname
  exact hname.1

theorem exists_of_isName (hname : isName p cs = true) :
    ∃ c tail, cs = c :: tail ∧ p c = true := by
  cases cs with
  | nil => cases hname
  | cons c tail => exact ⟨c, tail, rfl, all_of_isName hname c (by simp)⟩

theorem scanName_append {name : String} (hname : isName p name.toList = true)
    (hrest : ∀ c ∈ rest.head?, p c = false) :
    scanName p (name.toList ++ rest) = some (name, rest) := by
  have hall := all_of_isName hname
  rw [scanName, Decimal.takeWhile_append_stop hall hrest, Decimal.dropWhile_append_stop hall hrest,
    if_pos hname, String.ofList_toList]

theorem token_append_blank (hcs : ∀ c ∈ cs, isBlank c = false)
    (hrest : ∀ c ∈ rest.head?, isBlank c = false) :
    token (cs ++ ' ' :: rest) = (cs, rest) := by
  have hp : ∀ c ∈ cs, (!isBlank c) = true := fun c hc => by rw [hcs c hc]; rfl
  have hstop : ∀ c ∈ (' ' :: rest).head?, (!isBlank c) = false := by simp [isBlank]
  rw [token, Decimal.takeWhile_append_stop hp hstop, Decimal.dropWhile_append_stop hp hstop,
    skipBlanks_blank hrest]

theorem token_of_not_blank (hcs : ∀ c ∈ cs, isBlank c = false) : token cs = (cs, []) := by
  have hp : ∀ c ∈ cs, (!isBlank c) = true := fun c hc => by rw [hcs c hc]; rfl
  have hnil : ∀ c ∈ ([] : List Char).head?, (!isBlank c) = false := by simp
  have htake := Decimal.takeWhile_append_stop hp hnil
  have hdrop := Decimal.dropWhile_append_stop hp hnil
  rw [List.append_nil] at htake hdrop
  rw [token, htake, hdrop]
  rfl

end

/-! ## The values of labels -/

/-- A character inside quotes. -/
def escapeChar (c : Char) : List Char :=
  if c = '\\' then ['\\', '\\']
  else if c = '"' then ['\\', '"']
  else if c = '\n' then ['\\', 'n']
  else [c]

/-- A text inside quotes. -/
def escape (cs : List Char) : List Char :=
  cs.flatMap escapeChar

/-- The character that a backslash and `c` stand for. -/
def unescape (c : Char) : Option Char :=
  if c = '\\' then some '\\'
  else if c = '"' then some '"'
  else if c = 'n' then some '\n'
  else none

/-- The text up to the closing quote, with what follows the quote. -/
def scanValue : List Char → Option (List Char × List Char)
  | [] => none
  | [c] => if c = '"' then some ([], []) else none
  | c :: c' :: cs =>
    if c = '"' then some ([], c' :: cs)
    else if c = '\\' then
      (unescape c').bind fun u => (scanValue cs).map fun r => (u :: r.1, r.2)
    else (scanValue (c' :: cs)).map fun r => (c :: r.1, r.2)

theorem scanValue_quote (rest : List Char) : scanValue ('"' :: rest) = some ([], rest) := by
  cases rest <;> simp [scanValue]

theorem scanValue_backslash {c u : Char} (hu : unescape c = some u) (cs : List Char) :
    scanValue ('\\' :: c :: cs) = (scanValue cs).map fun r => (u :: r.1, r.2) := by
  simp [scanValue, hu]

theorem scanValue_plain {c : Char} (hquote : c ≠ '"') (hbackslash : c ≠ '\\') (cs : List Char) :
    scanValue (c :: cs) = (scanValue cs).map fun r => (c :: r.1, r.2) := by
  cases cs <;> simp [scanValue, hquote, hbackslash]

/-- Each character is read back. -/
theorem scanValue_escapeChar (c : Char) (cs : List Char) :
    scanValue (escapeChar c ++ cs) = (scanValue cs).map fun r => (c :: r.1, r.2) := by
  unfold escapeChar
  split_ifs with hbackslash hquote hfeed
  · subst hbackslash
    exact scanValue_backslash (by decide) cs
  · subst hquote
    exact scanValue_backslash (by decide) cs
  · subst hfeed
    exact scanValue_backslash (by decide) cs
  · exact scanValue_plain hquote hbackslash cs

/-- What is escaped is read back, up to the closing quote and no further. -/
theorem scanValue_escape (rest : List Char) :
    ∀ cs : List Char, scanValue (escape cs ++ '"' :: rest) = some (cs, rest)
  | [] => scanValue_quote rest
  | c :: cs => by
    rw [escape, List.flatMap_cons, List.append_assoc, scanValue_escapeChar, ← escape,
      scanValue_escape rest cs]
    rfl

/-- No line feed is left. -/
theorem feed_not_mem_escape (cs : List Char) : '\n' ∉ escape cs := by
  rw [escape, List.mem_flatMap]
  rintro ⟨c, -, hc⟩
  unfold escapeChar at hc
  split_ifs at hc with hbackslash hquote hfeed
  · simp at hc
  · simp at hc
  · simp at hc
  · exact hfeed (List.mem_singleton.1 hc).symm

/-! ## Labels -/

/-- `c`, after blanks. -/
def expect (c : Char) (cs : List Char) : Option (List Char) :=
  match skipBlanks cs with
  | [] => none
  | c' :: rest => if c' = c then some rest else none

/-- The labels up to the closing brace. Each uses up some of the text, which the first argument
bounds. -/
def scanLabels : ℕ → List Char → Option (List (String × String) × List Char)
  | 0, _ => none
  | fuel + 1, cs =>
    if let some rest := expect '}' cs then some ([], rest)
    else do
      let (name, rest) ← scanName labelChar (skipBlanks cs)
      let rest ← expect '=' rest
      let rest ← expect '"' rest
      let (value, rest) ← scanValue rest
      let label := (name, String.ofList value)
      if let some rest := expect ',' rest then
        (scanLabels fuel rest).map fun r => (label :: r.1, r.2)
      else (expect '}' rest).map fun rest => ([label], rest)

/-- The labels at the front, if there is a brace. -/
def scanLabelSet (cs : List Char) : Option (List (String × String) × List Char) :=
  if let some rest := expect '{' cs then scanLabels (rest.length + 1) rest
  else some ([], cs)

/-- A label. -/
def labelText (label : String × String) : List Char :=
  label.1.toList ++ '=' :: '"' :: (escape label.2.toList ++ ['"'])

/-- Labels, with commas between them. -/
def labelsText : List (String × String) → List Char
  | [] => []
  | [label] => labelText label
  | label :: label' :: labels => labelText label ++ ',' :: labelsText (label' :: labels)

/-- Labels in braces, unless there are none. -/
def labelSetText (labels : List (String × String)) : List Char :=
  if labels = [] then [] else '{' :: (labelsText labels ++ ['}'])

theorem length_le_labelsText : ∀ labels : List (String × String),
    labels.length ≤ (labelsText labels).length
  | [] => Nat.zero_le _
  | [label] => by
    simp only [labelsText, labelText, List.length_append, List.length_cons]
    omega
  | label :: label' :: labels => by
    have ih := length_le_labelsText (label' :: labels)
    simp only [labelsText, List.length_append, List.length_cons] at ih ⊢
    omega

theorem expect_self {c : Char} (hc : isBlank c = false) (rest : List Char) :
    expect c (c :: rest) = some rest := by
  rw [expect, skipBlanks_of_not_blank (by simpa using hc)]
  simp

theorem expect_of_ne {c c' : Char} (hc : isBlank c' = false) (hne : c' ≠ c) (rest : List Char) :
    expect c (c' :: rest) = none := by
  rw [expect, skipBlanks_of_not_blank (by simpa using hc)]
  simp [hne]

section

variable {label : String × String} {labels : List (String × String)} {fuel : ℕ}
  {rest : List Char}

/-- A label is neither empty nor blank at its start. -/
theorem labelText_head (hname : isName labelChar label.1.toList = true) (rest : List Char) :
    ∃ c cs, labelText label ++ rest = c :: cs ∧ labelChar c = true := by
  obtain ⟨c, cs, hlist, hc⟩ := exists_of_isName hname
  rw [labelText, hlist]
  exact ⟨c, _, rfl, hc⟩

/-- The name, the quotes and the value of a label are read, and something is done with what
follows. -/
theorem scanLabels_labelText (hname : isName labelChar label.1.toList = true) :
    scanLabels (fuel + 1) (labelText label ++ rest) =
      if let some rest := expect ',' rest then
        (scanLabels fuel rest).map fun r => (label :: r.1, r.2)
      else (expect '}' rest).map fun rest => ([label], rest) := by
  obtain ⟨c, cs, hhead, hc⟩ := labelText_head hname rest
  have hblank := isBlank_of_true (p := labelChar) rfl rfl hc
  have hbrace : expect '}' (labelText label ++ rest) = none := by
    rw [hhead]
    refine expect_of_ne hblank ?_ cs
    rintro rfl
    cases hc
  have hskip : skipBlanks (labelText label ++ rest) = labelText label ++ rest :=
    skipBlanks_of_not_blank (by rw [hhead]; simpa using hblank)
  have hscan : scanName labelChar (labelText label ++ rest) =
      some (label.1, '=' :: '"' :: (escape label.2.toList ++ '"' :: rest)) := by
    have happend : labelText label ++ rest =
        label.1.toList ++ '=' :: '"' :: (escape label.2.toList ++ '"' :: rest) := by
      simp [labelText]
    rw [happend]
    exact scanName_append hname (by simp [labelChar])
  rw [scanLabels, hbrace]
  simp only [hskip, hscan, Option.bind_eq_bind, Option.bind_some, expect_self (c := '=') rfl,
    expect_self (c := '"') rfl, scanValue_escape, String.ofList_toList]

/-- Labels are read back, up to the closing brace. -/
theorem scanLabels_labelsText : ∀ {labels : List (String × String)} {fuel : ℕ},
    (∀ label ∈ labels, isName labelChar label.1.toList = true) → labels.length ≤ fuel →
    scanLabels (fuel + 1) (labelsText labels ++ '}' :: rest) = some (labels, rest)
  | [], fuel, _, _ => by
    rw [labelsText, List.nil_append, scanLabels, expect_self rfl]
  | [label], fuel, hnames, _ => by
    rw [labelsText, scanLabels_labelText (hnames label (by simp)),
      expect_of_ne rfl (by decide), expect_self rfl]
    rfl
  | label :: label' :: labels, 0, _, hle => (by simp at hle)
  | label :: label' :: labels, fuel + 1, hnames, hle => by
    have ih : scanLabels (fuel + 1) (labelsText (label' :: labels) ++ '}' :: rest) =
        some (label' :: labels, rest) :=
      scanLabels_labelsText (fun l hl => hnames l (List.mem_cons_of_mem _ hl))
        (Nat.le_of_succ_le_succ hle)
    rw [labelsText, List.append_assoc, scanLabels_labelText (hnames label (by simp)),
      List.cons_append, expect_self rfl]
    simp only [ih, Option.map_some]

end

/-! ## Lines -/

/-- The types of metrics. -/
def kinds : List (List Char) :=
  ["counter".toList, "gauge".toList, "histogram".toList, "summary".toList, "untyped".toList]

/-- A comment, after its `#`. -/
def checkComment (cs : List Char) : Bool :=
  let (word, rest) := token (skipBlanks cs)
  let (name, rest) := token rest
  if word = "HELP".toList then isName metricChar name
  else if word = "TYPE".toList then
    isName metricChar name && (token rest).1 ∈ kinds && (token rest).2 = []
  else true

/-- An integer, or nothing. -/
def isTimestamp (cs : List Char) : Bool :=
  cs = [] || (Decimal.readDigits (Decimal.readSign cs).2).any fun r => skipBlanks r.2 = []

/-- A sample. -/
def parseSample (cs : List Char) : Option Sample := do
  let (name, rest) ← scanName metricChar cs
  let (labels, rest) ← scanLabelSet rest
  let (number, rest) := token (skipBlanks rest)
  let value ← Decimal.readNumber number
  if isTimestamp rest then some ⟨name, labels, value⟩ else none

/-- The sample of a line, if it has one. -/
def parseLine (line : List Char) : Option (Option Sample) :=
  match skipBlanks line with
  | [] => some none
  | c :: cs =>
    if c = '#' then if checkComment cs then some none else none
    else (parseSample (c :: cs)).map some

/-- The samples of lines. -/
def parseLines : List (List Char) → Option (List Sample)
  | [] => some []
  | line :: lines => do
    let sample ← parseLine line
    let samples ← parseLines lines
    return sample.toList ++ samples

/-- The samples of a text. Its last line ends with a line feed. -/
def parse (text : List Char) : Option (List Sample) :=
  if (Framing.split '\n' text).2 = [] then parseLines (Framing.split '\n' text).1 else none

section

variable {name : String} {labels : List (String × String)} {d : Decimal} {x : ℚ}

/-- The start of a metric's name is neither blank nor a comment. -/
theorem head_of_isName (hname : isName metricChar name.toList = true) (rest : List Char) :
    ∃ c cs, name.toList ++ rest = c :: cs ∧ isBlank c = false ∧ c ≠ '#' := by
  obtain ⟨c, cs, hlist, hc⟩ := exists_of_isName hname
  rw [hlist]
  refine ⟨c, _, rfl, isBlank_of_true (p := metricChar) rfl rfl hc, ?_⟩
  rintro rfl
  cases hc

theorem isBlank_of_mem_text {c : Char} (h : c ∈ d.text) : isBlank c = false := by
  rcases Decimal.mem_text h with hdigit | rfl | rfl | rfl | rfl
  · exact isBlank_of_true (p := Char.isDigit) rfl rfl hdigit
  all_goals rfl

/-- Neither is there a line feed in a number, nor a brace. -/
theorem not_mem_text {c : Char} (hdigit : c.isDigit = false)
    (hc : c ∉ ['-', '+', '.', 'e']) : c ∉ d.text := by
  intro h
  rcases Decimal.mem_text h with h | h | h | h | h
  · cases hdigit.symm.trans h
  all_goals exact hc (by simp [h])

/-- The labels end before the number. -/
theorem scanLabelSet_labelSetText
    (hnames : ∀ label ∈ labels, isName labelChar label.1.toList = true) :
    scanLabelSet (labelSetText labels ++ ' ' :: d.text) = some (labels, ' ' :: d.text) := by
  unfold labelSetText
  split_ifs with hnil
  · have hskip : skipBlanks (' ' :: d.text) = d.text :=
      skipBlanks_blank fun c hc => isBlank_of_mem_text (List.mem_of_mem_head? hc)
    have hbrace : expect '{' (' ' :: d.text) = none := by
      rw [expect, hskip]
      cases htext : d.text with
      | nil => rfl
      | cons c cs =>
        have hne : c ≠ '{' := by
          rintro rfl
          have hmem : '{' ∈ d.text := by simp [htext]
          exact not_mem_text rfl (by decide) hmem
        simp [hne]
    rw [List.nil_append, scanLabelSet, hbrace, hnil]
  · have hle : labels.length ≤ (labelsText labels ++ '}' :: ' ' :: d.text).length := by
      rw [List.length_append]
      exact (length_le_labelsText labels).trans (Nat.le_add_right _ _)
    rw [List.cons_append, List.append_assoc, scanLabelSet, expect_self rfl]
    exact scanLabels_labelsText hnames hle

/-- A sample is read back. -/
theorem parseLine_sample (hname : isName metricChar name.toList = true)
    (hnames : ∀ label ∈ labels, isName labelChar label.1.toList = true)
    (hx : Decimal.readNumber d.text = some x) :
    parseLine (name.toList ++ (labelSetText labels ++ ' ' :: d.text)) =
      some (some ⟨name, labels, x⟩) := by
  have hscan : scanName metricChar (name.toList ++ (labelSetText labels ++ ' ' :: d.text)) =
      some (name, labelSetText labels ++ ' ' :: d.text) := by
    refine scanName_append hname fun c hc => ?_
    unfold labelSetText at hc
    split_ifs at hc <;> obtain rfl := Option.some.inj hc <;> rfl
  have hskip : skipBlanks (' ' :: d.text) = d.text :=
    skipBlanks_blank fun c hc => isBlank_of_mem_text (List.mem_of_mem_head? hc)
  have htoken : token d.text = (d.text, []) :=
    token_of_not_blank fun c => isBlank_of_mem_text
  have hsample : parseSample (name.toList ++ (labelSetText labels ++ ' ' :: d.text)) =
      some ⟨name, labels, x⟩ := by
    simp only [parseSample, hscan, scanLabelSet_labelSetText hnames, hskip, htoken, hx,
      Option.bind_eq_bind, Option.bind_some]
    rfl
  obtain ⟨c, cs, hhead, hblank, hcomment⟩ :=
    head_of_isName hname (labelSetText labels ++ ' ' :: d.text)
  have hskip : skipBlanks (c :: cs) = c :: cs := skipBlanks_of_not_blank (by simpa using hblank)
  rw [hhead] at hsample ⊢
  simp only [parseLine, hskip, if_neg hcomment, hsample, Option.map_some]

/-- A comment that may stand. -/
theorem parseLine_comment {cs : List Char} (h : checkComment cs = true) :
    parseLine ('#' :: cs) = some none := by
  have hskip : skipBlanks ('#' :: cs) = '#' :: cs := skipBlanks_of_not_blank (by simp [isBlank])
  simp only [parseLine, hskip, if_pos, h]

theorem isBlank_of_isName {cs : List Char} (hname : isName metricChar cs = true) :
    ∀ c ∈ cs, isBlank c = false := fun c hc =>
  isBlank_of_true (p := metricChar) rfl rfl (all_of_isName hname c hc)

/-- The two words after the `#`. -/
theorem tokens_comment {word rest : List Char} (hne : word ≠ [])
    (hword : ∀ c ∈ word, isBlank c = false) (hname : isName metricChar name.toList = true)
    (hrest : ∀ c ∈ rest.head?, isBlank c = false) :
    token (skipBlanks (' ' :: (word ++ ' ' :: (name.toList ++ ' ' :: rest)))) =
        (word, name.toList ++ ' ' :: rest) ∧
      token (name.toList ++ ' ' :: rest) = (name.toList, rest) := by
  have hfirst : ∀ c ∈ (word ++ ' ' :: (name.toList ++ ' ' :: rest)).head?, isBlank c = false := by
    rw [List.head?_append_of_ne_nil _ hne]
    exact fun c hc => hword c (List.mem_of_mem_head? hc)
  have hnext : ∀ c ∈ (name.toList ++ ' ' :: rest).head?, isBlank c = false := by
    obtain ⟨c, cs, hhead, hc, -⟩ := head_of_isName hname (' ' :: rest)
    rw [hhead]
    simpa using hc
  rw [skipBlanks_blank hfirst]
  exact ⟨token_append_blank hword hnext, token_append_blank (isBlank_of_isName hname) hrest⟩

theorem isBlank_of_all {cs : List Char} (h : cs.all (!isBlank ·) = true) :
    ∀ c ∈ cs, isBlank c = false := by
  simpa using h

theorem isBlank_of_mem_kinds {kind : List Char} (hkind : kind ∈ kinds) :
    ∀ c ∈ kind, isBlank c = false := by
  have hall : kinds.all (fun kind => kind.all (!isBlank ·)) = true := by decide
  exact isBlank_of_all (List.all_eq_true.1 hall kind hkind)

/-- The help of a metric. -/
theorem checkComment_help (hname : isName metricChar name.toList = true) {rest : List Char}
    (hrest : ∀ c ∈ rest.head?, isBlank c = false) :
    checkComment (' ' :: ("HELP".toList ++ ' ' :: (name.toList ++ ' ' :: rest))) = true := by
  have hword : ∀ c ∈ "HELP".toList, isBlank c = false := isBlank_of_all (by decide)
  obtain ⟨hword, hnext⟩ := tokens_comment (by decide) hword hname hrest
  simp only [checkComment, hword, hnext, if_pos, hname]

/-- The type of a metric. -/
theorem checkComment_type (hname : isName metricChar name.toList = true) {kind : List Char}
    (hkind : kind ∈ kinds) :
    checkComment (' ' :: ("TYPE".toList ++ ' ' :: (name.toList ++ ' ' :: kind))) = true := by
  have hblank := isBlank_of_mem_kinds hkind
  have hword : ∀ c ∈ "TYPE".toList, isBlank c = false := isBlank_of_all (by decide)
  obtain ⟨hword, hnext⟩ := tokens_comment (by decide) hword hname
    fun c hc => hblank c (List.mem_of_mem_head? hc)
  have htoken := token_of_not_blank hblank
  have hne : "TYPE".toList ≠ "HELP".toList := by decide
  simp only [checkComment, hword, hnext, if_pos, if_neg hne, hname, htoken, hkind]
  rfl

/-- A line of a text may be read by itself. -/
theorem parseLines_cons {line : List Char} {lines : List (List Char)} {sample : Option Sample}
    {samples : List Sample} (hline : parseLine line = some sample)
    (hlines : parseLines lines = some samples) :
    parseLines (line :: lines) = some (sample.toList ++ samples) := by
  simp only [parseLines, hline, hlines, Option.bind_eq_bind, Option.bind_some, Option.pure_def]

theorem parseLines_append : ∀ {l l' : List (List Char)} {samples samples' : List Sample},
    parseLines l = some samples → parseLines l' = some samples' →
    parseLines (l ++ l') = some (samples ++ samples')
  | [], l', samples, samples', h, h' => by
    obtain rfl := Option.some.inj h
    exact h'
  | line :: lines, l', samples, samples', h, h' => by
    rw [parseLines, Option.bind_eq_bind, Option.bind_eq_some_iff] at h
    obtain ⟨sample, hline, h⟩ := h
    rw [Option.bind_eq_bind, Option.bind_eq_some_iff] at h
    obtain ⟨rest, hlines, h⟩ := h
    obtain rfl := Option.some.inj h
    rw [List.cons_append, parseLines_cons hline (parseLines_append hlines h'), List.append_assoc]

/-- A text is read line by line. -/
theorem parse_join {lines : List (List Char)} (hfeed : ∀ line ∈ lines, '\n' ∉ line) :
    parse (Framing.join '\n' lines) = parseLines lines := by
  rw [parse, Framing.split_join hfeed, if_pos rfl]

/-- No name has a line feed. -/
theorem feed_not_mem_name {p : Char → Bool} {cs : List Char} (hp : p '\n' = false)
    (hname : isName p cs = true) : '\n' ∉ cs := by
  intro h
  cases hp.symm.trans (all_of_isName hname _ h)

theorem feed_not_mem_labelText {label : String × String}
    (hname : isName labelChar label.1.toList = true) : '\n' ∉ labelText label := by
  have hvalue := feed_not_mem_escape label.2.toList
  have hlabel := feed_not_mem_name rfl hname
  simp [labelText, hvalue, hlabel]

/-- No line feed is left in labels. -/
theorem feed_not_mem_labelsText :
    ∀ {labels : List (String × String)},
      (∀ label ∈ labels, isName labelChar label.1.toList = true) → '\n' ∉ labelsText labels
  | [], _ => by simp [labelsText]
  | [label], hnames => by
    rw [labelsText]
    exact feed_not_mem_labelText (hnames label (by simp))
  | label :: label' :: labels, hnames => by
    have ih := feed_not_mem_labelsText fun l hl => hnames l (List.mem_cons_of_mem label hl)
    rw [labelsText, List.mem_append, List.mem_cons]
    rintro (h | h | h)
    · exact feed_not_mem_labelText (hnames label (by simp)) h
    · cases h
    · exact ih h

/-- A sample is one line. -/
theorem feed_not_mem_sample (hname : isName metricChar name.toList = true)
    (hnames : ∀ label ∈ labels, isName labelChar label.1.toList = true) :
    '\n' ∉ name.toList ++ (labelSetText labels ++ ' ' :: d.text) := by
  rw [List.mem_append, List.mem_append, List.mem_cons]
  rintro (h | h | h | h)
  · exact feed_not_mem_name rfl hname h
  · unfold labelSetText at h
    split_ifs at h with hnil
    · cases h
    · rw [List.mem_cons, List.mem_append] at h
      rcases h with h | h | h
      · cases h
      · exact feed_not_mem_labelsText hnames h
      · simp at h
  · cases h
  · exact not_mem_text rfl (by decide) h

end

end Exposition

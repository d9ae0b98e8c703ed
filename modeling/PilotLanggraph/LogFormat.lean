import PilotLanggraph.Lib.Dict
import PilotLanggraph.Lib.JsonText
import PilotLanggraph.Lib.JsonWf

/-!
# The log of a worker

`_JsonFormatter` of the worker process writes a record as one line of JSON : the time, the level,
the logger and the message, and the other attributes of the record, those that JSON cannot write
by their `repr`.

`log_read` : a log is read back line by line, and each object has the fields of its record.
-/

namespace PilotLanggraph

/-- The value of an attribute of a record : what `json.dumps` makes of it, or its `repr` where that
raises. -/
inductive Attr
  | json (value : Json.Value)
  | other (repr : String)

def Attr.value : Attr → Json
  | json value => value.val
  | other repr => .str repr

theorem Attr.wf_value : ∀ a : Attr, a.value.WF
  | json value => value.wf
  | other _ => trivial

/-- A `LogRecord`. -/
structure LogRecord where
  /-- `created`, as `strftime` writes it. -/
  utc : String
  msecs : ℕ
  levelname : String
  name : String
  /-- `getMessage()`. -/
  message : String
  /-- `__dict__`. -/
  attrs : Dict String Attr
  /-- `formatException(exc_info)`, if there is an `exc_info`. -/
  exc : Option String

namespace LogRecord

/-- `_STD_ATTRS`. -/
def stdAttrs : List String :=
  ["name", "msg", "args", "levelname", "levelno", "pathname", "filename", "module", "exc_info",
    "exc_text", "stack_info", "lineno", "funcName", "created", "msecs", "relativeCreated", "thread",
    "threadName", "processName", "process", "asctime", "taskName"]

/-- The attribute is written. -/
def shown (k : String) : Bool :=
  !(k ∈ stdAttrs || k.toList.head? = some '_')

/-- `03d`. -/
def pad3 (n : ℕ) : String :=
  .ofList (List.replicate (3 - (Nat.toDigits 10 n).length) '0' ++ Nat.toDigits 10 n)

variable (r : LogRecord)

/-- The fields of every record. -/
def fields : List (String × Json) :=
  [("ts", .str (r.utc ++ "." ++ pad3 r.msecs ++ "Z")), ("level", .str r.levelname),
    ("logger", .str r.name), ("message", .str r.message)]

/-- The attributes that are written. -/
def extras : Dict String Json :=
  (r.attrs.filterKeys shown).mapValues Attr.value

/-- `payload`. -/
def payload : Dict String Json :=
  let payload := (Dict.empty.update r.fields).update r.extras.entries
  match r.exc with
  | some text => payload.set "exc" (.str text)
  | none => payload

/-- `format`. -/
def format : List Char :=
  Json.dumps Json.compact (.obj r.payload.entries)

/-- What the handler writes. -/
def log (records : List LogRecord) : List Char :=
  records.flatMap fun r => r.format ++ ['\n']

/-- A log, line by line. -/
def readLog (text : List Char) : List (Option Json) :=
  ((text.splitOn '\n').filter (· ≠ [])).map Json.loadsText

/-! ## Reading -/

theorem wfMembers_update : ∀ (ps : List (String × Json)) {d : Dict String Json},
    Json.WFMembers d.entries → (∀ p ∈ ps, p.2.WF) → Json.WFMembers (d.update ps).entries
  | [], _, hd, _ => hd
  | p :: ps, d, hd, hps => by
    obtain ⟨hp, hps⟩ := List.forall_mem_cons.1 hps
    exact wfMembers_update ps (d := d.set p.1 p.2) (Json.wfMembers_set hp hd) hps

/-- The attributes that are written are values of JSON. -/
theorem wf_extras {p : String × Json} (h : p ∈ r.extras.entries) : p.2.WF := by
  have hget : r.extras.get? p.1 = some p.2 := Dict.mem_entries.1 h
  rw [extras, Dict.get?_mapValues, Option.map_eq_some_iff] at hget
  obtain ⟨a, -, ha⟩ := hget
  rw [← ha]
  exact a.wf_value

theorem wf_payload : (Json.obj r.payload.entries).WF := by
  refine ⟨r.payload.nodup, ?_⟩
  have hfields : ∀ p ∈ r.fields, p.2.WF := by
    simp [fields, Json.WF]
  have hbase : Json.WFMembers ((Dict.empty.update r.fields).update r.extras.entries).entries :=
    wfMembers_update _ (wfMembers_update _ (by simp [Dict.empty, Json.WFMembers]) hfields)
      fun _ => r.wf_extras
  rw [payload]
  cases r.exc with
  | none => exact hbase
  | some text => exact Json.wfMembers_set (by simp [Json.WF]) hbase

theorem loadsText_format : Json.loadsText r.format = some (.obj r.payload.entries) :=
  Json.loadsText_dumps Json.compact r.wf_payload

/-- A line has no break in it, -/
theorem newline_not_mem_format : '\n' ∉ r.format := fun h =>
  absurd (Json.isPrint_of_mem_dumps Json.compact '\n' _ h) (by decide)

/-- and is not empty. -/
theorem format_ne_nil : r.format ≠ [] :=
  List.ne_nil_of_length_pos (Json.length_dumps_pos Json.compact _)

/-- The first line of a log is its first record. -/
theorem readLog_cons (text : List Char) :
    readLog (r.format ++ '\n' :: text) = some (.obj r.payload.entries) :: readLog text := by
  rw [readLog, List.splitOn_append_cons_self_of_not_mem r.newline_not_mem_format, List.filter_cons,
    if_pos (by simpa using r.format_ne_nil), List.map_cons, r.loadsText_format, ← readLog]

theorem readLog_of_not_mem {text : List Char} (hbreak : '\n' ∉ text) (htext : text ≠ []) :
    readLog text = [Json.loadsText text] := by
  rw [readLog, List.splitOn_eq_singleton hbreak, List.filter_cons, if_pos (by simpa using htext),
    List.filter_nil, List.map_singleton]

/-- A line that the log breaks off is not read as a record. -/
theorem readLog_of_prefix {text rest : List Char} (h : text ++ rest = r.format)
    (hrest : rest ≠ []) : readLog text = [] ∨ readLog text = [none] := by
  have hbreak : '\n' ∉ text := fun hmem =>
    r.newline_not_mem_format (h ▸ List.mem_append_left rest hmem)
  by_cases htext : text = []
  · exact .inl (by simp [readLog, htext])
  · rw [readLog_of_not_mem hbreak htext,
      Json.loadsText_of_prefix Json.compact r.wf_payload h hrest]
    exact .inr rfl

theorem log_cons (records : List LogRecord) :
    log (r :: records) = r.format ++ '\n' :: log records := by
  rw [log, List.flatMap_cons, List.append_assoc, List.singleton_append, log]

theorem readLog_log : ∀ records : List LogRecord,
    readLog (log records) = records.map fun r => some (.obj r.payload.entries)
  | [] => rfl
  | r :: records => by
    rw [log_cons, readLog_cons, readLog_log records, List.map_cons]

/-- What is read of a log that ends anywhere : its first records, and at most a broken line. -/
theorem readLog_of_log_append : ∀ (records : List LogRecord) {text rest : List Char},
    text ++ rest = log records → ∃ n torn, text.count '\n' ≤ n ∧ (torn = [] ∨ torn = [none]) ∧
      readLog text = (records.take n).map (fun r => some (.obj r.payload.entries)) ++ torn
  | [], text, rest, h => by
    obtain ⟨rfl, -⟩ := List.append_eq_nil_iff.1 h
    exact ⟨0, [], le_refl 0, .inl rfl, rfl⟩
  | r :: records, text, rest, h => by
    rw [log_cons] at h
    have hformat : r.format.count '\n' = 0 := List.count_eq_zero.2 r.newline_not_mem_format
    have hline : readLog r.format = [some (.obj r.payload.entries)] := by
      rw [readLog_of_not_mem r.newline_not_mem_format r.format_ne_nil, loadsText_format]
    rcases List.append_eq_append_iff.1 h with ⟨mid, hmid, -⟩ | ⟨tail, rfl, htail⟩
    · -- The log ends within the first line, or at its end.
      have hbreak : text.count '\n' ≤ 0 := by
        rw [← hformat, hmid, List.count_append]
        exact Nat.le_add_right _ _
      by_cases hrest : mid = []
      · rw [hrest, List.append_nil] at hmid
        exact ⟨1, [], by omega, .inl rfl, by simp [← hmid, hline]⟩
      · exact ⟨0, readLog text, hbreak, r.readLog_of_prefix hmid.symm hrest, by simp⟩
    · cases tail with
      | nil => exact ⟨1, [], by simp [hformat], .inl rfl, by simp [hline]⟩
      | cons c tail =>
        obtain ⟨rfl, hlog⟩ := List.cons.inj htail
        obtain ⟨n, torn, hn, htorn, hread⟩ := readLog_of_log_append records hlog.symm
        refine ⟨n + 1, torn, ?_, htorn, ?_⟩
        · rw [List.count_append, hformat, List.count_cons_self]
          omega
        · rw [readLog_cons, hread, List.take_succ_cons, List.map_cons, List.cons_append]

/-! ## The fields -/

theorem extras_get? (k : String) :
    r.extras.get? k = if shown k then (r.attrs.get? k).map Attr.value else none := by
  rw [extras, Dict.get?_mapValues, Dict.get?_filterKeys]
  cases shown k <;> rfl

/-- The field of a key : the text of the exception, or else the attribute, or else the field of
every record. -/
theorem payload_get? (k : String) : r.payload.get? k =
    ((if k = "exc" then r.exc.map Json.str else none).or (r.extras.get? k)).or
      ((Dict.empty.update r.fields).get? k) := by
  have hbase : ((Dict.empty.update r.fields).update r.extras.entries).get? k =
      (r.extras.get? k).or ((Dict.empty.update r.fields).get? k) :=
    Dict.get?_update_entries _ _ k
  rw [payload, Option.or_assoc, ← hbase]
  cases r.exc with
  | none => simp
  | some text =>
    by_cases hk : k = "exc"
    · rw [hk, if_pos rfl]
      exact Dict.get?_set_self _ _ _
    · rw [if_neg hk]
      exact Dict.get?_set_of_ne _ _ hk

/-- However far the log is written, it is read as its first records, all whose lines are complete,
and at most one line that is none ; the whole log is read as its records. The object of a record
holds the text of its exception, its attributes that are shown, and its own fields, each where no
earlier one has its key. -/
theorem log_read (records : List LogRecord) {text rest : List Char}
    (h : text ++ rest = log records) :
    (∃ n torn, text.count '\n' ≤ n ∧ (torn = [] ∨ torn = [none]) ∧
      readLog text = (records.take n).map (fun r => some (.obj r.payload.entries)) ++ torn) ∧
    (rest = [] → readLog text = records.map fun r => some (.obj r.payload.entries)) ∧
    ∀ r ∈ records, ∀ k, r.payload.get? k =
      ((if k = "exc" then r.exc.map Json.str else none).or
        (if shown k then (r.attrs.get? k).map Attr.value else none)).or
      (Assoc.get? k r.fields) := by
  refine ⟨readLog_of_log_append records h, ?_, ?_⟩
  · rintro rfl
    rw [List.append_nil] at h
    rw [h, readLog_log]
  · intro r _ k
    rw [payload_get?, extras_get?]
    rfl

/-- A record whose attributes override a field of it. -/
def served : LogRecord where
  utc := "2024-05-01T10:00:00"
  msecs := 7
  levelname := "INFO"
  name := "pilot"
  message := "served\n"
  attrs := ⟨[("levelname", .other "INFO"), ("level", .other "<Level>"), ("_private", .other "")],
    by decide⟩
  exc := none

example : String.ofList served.format = "\x7b\"ts\":\"2024-05-01T10:00:00.007Z\"," ++
    "\"level\":\"<Level>\",\"logger\":\"pilot\",\"message\":\"served\\n\"\x7d" := by
  decide +kernel

theorem log_read_torn :
    (∃ n torn, ((log [served, served]).take 130).count '\n' ≤ n ∧ (torn = [] ∨ torn = [none]) ∧
      readLog ((log [served, served]).take 130) =
        (([served, served] : List LogRecord).take n).map (fun r => some (.obj r.payload.entries)) ++
          torn) :=
  (log_read [served, served] (List.take_append_drop 130 _)).1

end LogRecord

end PilotLanggraph

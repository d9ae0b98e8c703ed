import PilotLanggraph.Lib.Exposition
import PilotLanggraph.Server

/-!
# The metrics of a worker

`metrics.py` : `render` writes the counters of a server as the text that Prometheus reads. Each
metric has a line of help, a line with its type, and its samples. The samples of a handler carry
its name as a label, and that name is whatever it was registered under : `_escape_label` keeps it
inside its quotes and its line. Read back by the grammar of the text, the samples are those of the
server's handlers and totals, each once (`render_read`).
-/

namespace PilotLanggraph

open Exposition

/-- `_Stats.percentile`. -/
def Stats.percentile (st : Stats) (p : ℚ) : ℚ :=
  if st.latenciesMs = [] then 0
  else
    let sortedLat := st.latenciesMs.mergeSort
    let idx := max 0 (min ((sortedLat.length : ℤ) - 1)
      (roundEven (toDouble (toDouble p * ((sortedLat.length : ℤ) - 1 : ℤ)))))
    toDouble (roundTo 2 (sortedLat.getD idx.toNat 0))

namespace Metrics

/-! ## Labels -/

/-- `value.replace(old, new)`, where `old` is one character. -/
def replaceChar (old : Char) (new value : List Char) : List Char :=
  value.flatMap fun c => if c = old then new else [c]

/-- `_escape_label`. -/
def escapeLabel (value : String) : String :=
  String.ofList (replaceChar '\n' ['\\', 'n'] (replaceChar '"' ['\\', '"']
    (replaceChar '\\' ['\\', '\\'] value.toList)))

/-- The three replacements, one after the other, escape each character. The backslashes are
first, and so those of the other two are left alone. -/
theorem toList_escapeLabel (value : String) : (escapeLabel value).toList = escape value.toList := by
  rw [escapeLabel, String.toList_ofList, replaceChar, replaceChar, replaceChar, List.flatMap_assoc,
    List.flatMap_assoc, escape]
  congr 1
  funext c
  unfold escapeChar
  split_ifs with hbackslash hquote hfeed
  · rfl
  · subst hquote
    rfl
  · subst hfeed
    rfl
  · simp [hquote, hfeed]

/-- `labels.items()`, sorted. -/
def sortedItems (labels : List (String × String)) : List (String × String) :=
  labels.mergeSort fun l l' => decide (l.1 ≤ l'.1)

@[simp] theorem sortedItems_nil : sortedItems [] = [] := by
  simp [sortedItems]

@[simp] theorem sortedItems_singleton (l : String × String) : sortedItems [l] = [l] :=
  List.mergeSort_singleton l

/-- `label_str`. -/
def labelStr (labels : List (String × String)) : String :=
  if labels = [] then ""
  else
    "\x7b" ++ ",".intercalate ((sortedItems labels).map fun l =>
      l.1 ++ "=\"" ++ escapeLabel l.2 ++ "\"") ++ "\x7d"

/-- Labels are written as a reader expects them. -/
theorem toList_labelStr (labels : List (String × String)) :
    (labelStr labels).toList = labelSetText (sortedItems labels) := by
  have hitems : ∀ items : List (String × String),
      (",".intercalate (items.map fun l => l.1 ++ "=\"" ++ escapeLabel l.2 ++ "\"")).toList =
        labelsText items := by
    intro items
    induction items with
    | nil => rfl
    | cons l items ih =>
      have hlabel : (l.1 ++ "=\"" ++ escapeLabel l.2 ++ "\"").toList = labelText l := by
        simp [labelText, toList_escapeLabel]
      cases items with
      | nil => rw [List.map_singleton, String.intercalate_singleton, hlabel, labelsText]
      | cons l' items =>
        rw [List.map_cons] at ih
        rw [List.map_cons, List.map_cons, String.intercalate_cons_cons, String.toList_append,
          String.toList_append, ih, hlabel, labelsText, List.append_assoc]
        rfl
  have hnil : sortedItems labels = [] ↔ labels = [] := by
    rw [← List.length_eq_zero_iff, ← List.length_eq_zero_iff, sortedItems, List.length_mergeSort]
  rw [labelStr, labelSetText]
  by_cases h : labels = []
  · rw [if_pos h, if_pos (hnil.2 h)]
    rfl
  · rw [if_neg h, if_neg (mt hnil.1 h), String.toList_append, String.toList_append, hitems]
    rfl

/-! ## Values -/

/-- A number of Python. -/
inductive Value
  | int (n : ℤ)
  | float (x : ℚ)

/-- `rendered`. -/
def Value.rendered : Value → Decimal
  | .float x => if x.den = 1 then .ofInt x.num else .general 6 x
  | .int n => .ofInt n

/-- What `rendered` stands for. -/
def Value.read (v : Value) : ℚ :=
  (Decimal.readNumber v.rendered.text).getD 0

theorem readNumber_rendered (v : Value) : Decimal.readNumber v.rendered.text = some v.read := by
  obtain ⟨x, hx⟩ := Decimal.readNumber_text v.rendered
  rw [Value.read, hx, Option.getD_some]

@[simp] theorem read_int (n : ℤ) : (Value.int n).read = n := by
  rw [Value.read, Value.rendered, Decimal.readNumber_ofInt, Option.getD_some]

/-- A counter is exact as long as a double holds it. -/
theorem read_counter {n : ℕ} (h : n < 2 ^ 53) : (Value.float (toDouble n)).read = n := by
  rw [toDouble_natCast h, Value.read, Value.rendered, if_pos (Rat.den_natCast n),
    Decimal.readNumber_ofInt, Option.getD_some, Rat.num_natCast, Int.cast_natCast]

/-! ## The text -/

/-- The arguments of `metric`. -/
structure Metric where
  name : String
  helpText : String
  mtype : String
  /-- Labels and values. -/
  samples : List (List (String × String) × Value)

/-- The lines that `metric` appends. -/
def Metric.lines (m : Metric) : List String :=
  ("# HELP " ++ m.name ++ " " ++ m.helpText) :: ("# TYPE " ++ m.name ++ " " ++ m.mtype) ::
    m.samples.map fun sample =>
      m.name ++ labelStr sample.1 ++ " " ++ String.ofList sample.2.rendered.text

/-- `sorted(server._handlers.items())`. The names differ, so that they alone are compared. -/
def sortedHandlers (s : Server) : List (String × ℕ) :=
  s.handlers.entries.mergeSort fun e e' => decide (e.1 ≤ e'.1)

/-- The samples of the handlers. -/
def handlerSamples (s : Server) (value : Stats → ℚ) : List (List (String × String) × Value) :=
  (sortedHandlers s).map fun e => ([("handler", e.1)], .float (value (s.regs e.2).stats))

/-- What `metric` is called with. Of the tasks in flight, `inflight` are not done. -/
def metrics (s : Server) (startedAt : Option Secs) (now : Secs) (inflight : ℕ) : List Metric :=
  let uptime := match startedAt with
    | none => 0
    | some startedAt => if startedAt = 0 then 0 else toDouble (now - startedAt)
  [⟨"pilot_worker_uptime_seconds",
      "Worker process uptime in seconds.", "gauge",
      [([], .float (toDouble (roundTo 1 uptime)))]⟩,
    ⟨"pilot_worker_inflight_handlers",
      "Currently-executing handler tasks.", "gauge",
      [([], .int inflight)]⟩,
    ⟨"pilot_worker_calls_total",
      "Total handler invocations across all handlers.", "counter",
      [([], .int s.totalCalls)]⟩,
    ⟨"pilot_worker_errors_total",
      "Total handler errors across all handlers.", "counter",
      [([], .int s.totalErrors)]⟩,
    ⟨"pilot_handler_calls_total",
      "Total invocations per handler.", "counter",
      handlerSamples s fun st => toDouble st.calls⟩,
    ⟨"pilot_handler_errors_total",
      "Total errors per handler.", "counter",
      handlerSamples s fun st => toDouble st.errors⟩,
    ⟨"pilot_handler_latency_ms_p50",
      "Median latency over the last 256 calls (ms).", "gauge",
      handlerSamples s (·.percentile (1 / 2))⟩,
    ⟨"pilot_handler_latency_ms_p95",
      "P95 latency over the last 256 calls (ms).", "gauge",
      handlerSamples s (·.percentile (19 / 20))⟩]

/-- `render`. -/
def render (s : Server) (startedAt : Option Secs) (now : Secs) (inflight : ℕ) : String :=
  "\n".intercalate ((metrics s startedAt now inflight).flatMap Metric.lines) ++ "\n"

/-! ## Reading it back -/

namespace Metric

/-- A reader accepts the name, the help and the type. -/
def Accepted (name helpText mtype : String) : Prop :=
  isName metricChar name.toList = true ∧ '\n' ∉ helpText.toList ∧
    helpText.toList.head?.all (!isBlank ·) = true ∧ mtype.toList ∈ kinds

/-- A reader accepts a metric. -/
structure WellFormed (m : Metric) : Prop where
  header : Accepted m.name m.helpText m.mtype
  labels : ∀ sample ∈ m.samples, ∀ label ∈ sortedItems sample.1,
    isName labelChar label.1.toList = true

/-- The samples that are read. -/
def readings (m : Metric) : List Sample :=
  m.samples.map fun sample => ⟨m.name, sortedItems sample.1, sample.2.read⟩

theorem toList_sample (name : String) (sample : List (String × String) × Value) :
    (name ++ labelStr sample.1 ++ " " ++ String.ofList sample.2.rendered.text).toList =
      name.toList ++ (labelSetText (sortedItems sample.1) ++ ' ' :: sample.2.rendered.text) := by
  simp [toList_labelStr]

/-- No line of a metric is broken. -/
theorem feed_not_mem_lines {m : Metric} (h : m.WellFormed) :
    ∀ line ∈ m.lines, '\n' ∉ line.toList := by
  obtain ⟨⟨hname, hhelp, -, htype⟩, hlabels⟩ := h
  have hkinds : ∀ kind ∈ kinds, '\n' ∉ kind := by decide
  have hfeed := feed_not_mem_name rfl hname
  intro line hline
  rw [lines, List.mem_cons, List.mem_cons] at hline
  rcases hline with rfl | rfl | hline
  · simp [hfeed, hhelp]
  · simp [hfeed, hkinds _ htype]
  · obtain ⟨sample, hmem, rfl⟩ := List.mem_map.1 hline
    rw [toList_sample]
    exact feed_not_mem_sample hname (hlabels sample hmem)

theorem parseLines_samples {name : String} (hname : isName metricChar name.toList = true) :
    ∀ {samples : List (List (String × String) × Value)},
      (∀ sample ∈ samples, ∀ label ∈ sortedItems sample.1,
        isName labelChar label.1.toList = true) →
      parseLines ((samples.map fun sample => name ++ labelStr sample.1 ++ " " ++
          String.ofList sample.2.rendered.text).map String.toList) =
        some (samples.map fun sample => ⟨name, sortedItems sample.1, sample.2.read⟩)
  | [], _ => rfl
  | sample :: samples, hlabels => by
    rw [List.forall_mem_cons] at hlabels
    have hline := parseLine_sample hname hlabels.1 (readNumber_rendered sample.2)
    rw [← toList_sample] at hline
    exact parseLines_cons hline (parseLines_samples hname hlabels.2)

/-- A metric is read as its samples. -/
theorem parseLines_lines {m : Metric} (h : m.WellFormed) :
    parseLines (m.lines.map String.toList) = some m.readings := by
  obtain ⟨⟨hname, -, hblank, hkind⟩, hlabels⟩ := h
  have hhead : ∀ c ∈ m.helpText.toList.head?, isBlank c = false := by
    simpa [Option.all_eq_true] using hblank
  have hhelp := parseLine_comment (checkComment_help hname hhead)
  have htype := parseLine_comment (checkComment_type hname hkind)
  have hhelpLine : ("# HELP " ++ m.name ++ " " ++ m.helpText).toList =
      '#' :: ' ' :: ("HELP".toList ++ ' ' :: (m.name.toList ++ ' ' :: m.helpText.toList)) := by
    simp
  have htypeLine : ("# TYPE " ++ m.name ++ " " ++ m.mtype).toList =
      '#' :: ' ' :: ("TYPE".toList ++ ' ' :: (m.name.toList ++ ' ' :: m.mtype.toList)) := by
    simp
  rw [← hhelpLine] at hhelp
  rw [← htypeLine] at htype
  exact parseLines_cons hhelp (parseLines_cons htype (parseLines_samples hname hlabels))

theorem parseLines_flatMap : ∀ {ms : List Metric}, (∀ m ∈ ms, m.WellFormed) →
    parseLines ((ms.flatMap lines).map String.toList) = some (ms.flatMap readings)
  | [], _ => rfl
  | m :: ms, h => by
    rw [List.forall_mem_cons] at h
    rw [List.flatMap_cons, List.map_append]
    exact parseLines_append (parseLines_lines h.1) (parseLines_flatMap h.2)

/-- The samples of one name are those of the metrics of that name. -/
theorem filter_readings (name : String) : ∀ ms : List Metric,
    (ms.flatMap readings).filter (fun sample => sample.name = name) =
      (ms.filter fun m => m.name = name).flatMap readings
  | [] => rfl
  | m :: ms => by
    rw [List.flatMap_cons, List.filter_append, filter_readings name ms, readings, List.filter_map]
    by_cases h : m.name = name
    · simp [h, Function.comp_def, readings]
    · simp [h, Function.comp_def]

end Metric

/-- A text of lines. -/
theorem toList_intercalate : ∀ {lines : List String}, lines ≠ [] →
    ("\n".intercalate lines ++ "\n").toList = Framing.join '\n' (lines.map String.toList)
  | [], h => absurd rfl h
  | [line], _ => by simp [Framing.join]
  | line :: line' :: lines, _ => by
    have ih := toList_intercalate (List.cons_ne_nil line' lines)
    rw [String.intercalate_cons_cons, String.append_assoc, String.append_assoc,
      String.toList_append, String.toList_append, ih]
    exact (Framing.join_cons line.toList _).symm

section

variable (s : Server) (startedAt : Option Secs) (now : Secs) (inflight : ℕ)

/-- The label of a handler has a name that a reader accepts. -/
theorem labels_handlerSamples (value : Stats → ℚ) : ∀ sample ∈ handlerSamples s value,
    ∀ label ∈ sortedItems sample.1, isName labelChar label.1.toList = true := by
  intro sample hsample label hlabel
  obtain ⟨e, -, rfl⟩ := List.mem_map.1 hsample
  rw [sortedItems_singleton, List.mem_singleton] at hlabel
  subst hlabel
  have hname : isName labelChar "handler".toList = true := by decide
  exact hname

theorem accepted_metrics : ∀ m ∈ metrics s startedAt now inflight,
    Metric.Accepted m.name m.helpText m.mtype := by
  simp only [metrics, List.forall_mem_cons]
  refine ⟨?_, ?_, ?_, ?_, ?_, ?_, ?_, ?_, by simp⟩ <;>
    exact ⟨by decide +kernel, by decide +kernel, by decide +kernel, by decide +kernel⟩

theorem wellFormed_metrics : ∀ m ∈ metrics s startedAt now inflight, m.WellFormed := by
  have hnone : ∀ v : Value, ∀ sample ∈ [(([] : List (String × String)), v)],
      ∀ label ∈ sortedItems sample.1, isName labelChar label.1.toList = true := by
    simp
  refine fun m hm => ⟨accepted_metrics s startedAt now inflight m hm, ?_⟩
  simp only [metrics, List.mem_cons, List.not_mem_nil, or_false] at hm
  rcases hm with rfl | rfl | rfl | rfl | rfl | rfl | rfl | rfl
  · exact hnone _
  · exact hnone _
  · exact hnone _
  · exact hnone _
  · exact labels_handlerSamples s fun st => toDouble st.calls
  · exact labels_handlerSamples s fun st => toDouble st.errors
  · exact labels_handlerSamples s (·.percentile (1 / 2))
  · exact labels_handlerSamples s (·.percentile (19 / 20))

/-- The text is read as the samples of the metrics. -/
theorem parse_render : parse (render s startedAt now inflight).toList =
    some ((metrics s startedAt now inflight).flatMap Metric.readings) := by
  have hwell := wellFormed_metrics s startedAt now inflight
  have hfeed : ∀ line ∈ ((metrics s startedAt now inflight).flatMap Metric.lines).map
      String.toList, '\n' ∉ line := by
    intro line hline
    obtain ⟨line, hmem, rfl⟩ := List.mem_map.1 hline
    obtain ⟨m, hm, hline⟩ := List.mem_flatMap.1 hmem
    exact Metric.feed_not_mem_lines (hwell m hm) line hline
  have hne : (metrics s startedAt now inflight).flatMap Metric.lines ≠ [] := by
    simp [metrics, Metric.lines]
  rw [render, toList_intercalate hne, parse_join hfeed]
  exact Metric.parseLines_flatMap hwell

/-- One sample for each handler. -/
theorem readings_handlerSamples (name helpText mtype : String) (value : Stats → ℚ) :
    (Metric.mk name helpText mtype (handlerSamples s value)).readings =
      (sortedHandlers s).map fun e =>
        ⟨name, [("handler", e.1)], (Value.float (value (s.regs e.2).stats)).read⟩ := by
  simp [Metric.readings, handlerSamples]

theorem perm_sortedHandlers : (sortedHandlers s).Perm s.handlers.entries :=
  List.mergeSort_perm _ _

/-- One sample for each handler, with its counter. -/
theorem perm_counters (name helpText mtype : String) {counter : Stats → ℕ}
    (hcounter : ∀ handler id, s.handlers.get? handler = some id →
      counter (s.regs id).stats < 2 ^ 53) :
    (Metric.mk name helpText mtype (handlerSamples s fun st => toDouble (counter st))).readings.Perm
      (s.handlers.entries.map fun e =>
        ⟨name, [("handler", e.1)], counter (s.regs e.2).stats⟩) := by
  rw [readings_handlerSamples]
  have hread : ((sortedHandlers s).map fun e => (⟨name, [("handler", e.1)],
        (Value.float (toDouble (counter (s.regs e.2).stats))).read⟩ : Sample)) =
      (sortedHandlers s).map fun e => ⟨name, [("handler", e.1)], counter (s.regs e.2).stats⟩ := by
    refine List.map_congr_left fun e he => ?_
    have hget := Dict.mem_entries.1 ((perm_sortedHandlers s).subset he)
    rw [read_counter (hcounter e.1 e.2 hget)]
  rw [hread]
  exact (perm_sortedHandlers s).map _

/-- What is read of one name. -/
theorem filter_render {samples : List Sample}
    (hsamples : parse (render s startedAt now inflight).toList = some samples) (name : String) :
    samples.filter (fun sample => sample.name = name) =
      ((metrics s startedAt now inflight).filter fun m => m.name = name).flatMap
        Metric.readings := by
  rw [parse_render] at hsamples
  rw [← Option.some.inj hsamples, Metric.filter_readings]

/-- The sample of the server has none. -/
theorem filter_labels_total (name helpText mtype : String) (v : Value) :
    (Metric.mk name helpText mtype [([], v)]).readings.filter
        (fun sample => sample.labels = []) = [⟨name, [], v.read⟩] ∧
      (Metric.mk name helpText mtype [([], v)]).readings.filter
        (fun sample => sample.labels ≠ []) = [] := by
  simp [Metric.readings]

/-- The samples of a handler have labels. -/
theorem filter_labels_handler (name helpText mtype : String) (value : Stats → ℚ) :
    (Metric.mk name helpText mtype (handlerSamples s value)).readings.filter
        (fun sample => sample.labels = []) = [] ∧
      (Metric.mk name helpText mtype (handlerSamples s value)).readings.filter
        (fun sample => sample.labels ≠ []) =
      (Metric.mk name helpText mtype (handlerSamples s value)).readings := by
  rw [readings_handlerSamples]
  constructor
  · rw [List.filter_eq_nil_iff]
    intro sample hsample
    obtain ⟨e, -, rfl⟩ := List.mem_map.1 hsample
    simp
  · rw [List.filter_eq_self]
    intro sample hsample
    obtain ⟨e, -, rfl⟩ := List.mem_map.1 hsample
    simp

theorem map_handlerSamples (name helpText mtype : String) (value : Stats → ℚ) :
    ((Metric.mk name helpText mtype (handlerSamples s value)).readings.map
        fun sample => (sample.name, sample.labels)).Perm
      (s.handlers.keys.map fun handler => (name, [("handler", handler)])) := by
  rw [readings_handlerSamples, List.map_map, Dict.keys, Assoc.keys, List.map_map]
  exact (perm_sortedHandlers s).map fun e => (name, [("handler", e.1)])

/-- The names of what handlers have. -/
def handlerMetrics : List String :=
  ["pilot_handler_calls_total", "pilot_handler_errors_total", "pilot_handler_latency_ms_p50",
    "pilot_handler_latency_ms_p95"]

/-- The text of `render` is read back by Prometheus' grammar, whatever the handlers are called.
Each registered handler has one sample of `pilot_handler_calls_total` and one of
`pilot_handler_errors_total`, with its name and its counter, as long as the counters are below
`2 ^ 53`, and there are no other samples of these two. The samples without labels are the four
of the server; the samples with labels are four for each handler. -/
theorem render_read (s : Server) (startedAt : Option Secs) (now : Secs) (inflight : ℕ)
    (hcounters : ∀ handler id, s.handlers.get? handler = some id →
      (s.regs id).stats.calls < 2 ^ 53 ∧ (s.regs id).stats.errors < 2 ^ 53) :
    ∃ samples, parse (render s startedAt now inflight).toList = some samples ∧
      (samples.filter fun sample => sample.name = "pilot_handler_calls_total").Perm
        (s.handlers.entries.map fun e =>
          ⟨"pilot_handler_calls_total", [("handler", e.1)], (s.regs e.2).stats.calls⟩) ∧
      (samples.filter fun sample => sample.name = "pilot_handler_errors_total").Perm
        (s.handlers.entries.map fun e =>
          ⟨"pilot_handler_errors_total", [("handler", e.1)], (s.regs e.2).stats.errors⟩) ∧
      (∃ uptime, (samples.filter fun sample => sample.labels = []) =
        [⟨"pilot_worker_uptime_seconds", [], uptime⟩,
          ⟨"pilot_worker_inflight_handlers", [], inflight⟩,
          ⟨"pilot_worker_calls_total", [], s.totalCalls⟩,
          ⟨"pilot_worker_errors_total", [], s.totalErrors⟩]) ∧
      ((samples.filter fun sample => sample.labels ≠ []).map
          fun sample => (sample.name, sample.labels)).Perm
        (handlerMetrics.flatMap fun name =>
          s.handlers.keys.map fun handler => (name, [("handler", handler)])) := by
  have hparse := parse_render s startedAt now inflight
  refine ⟨_, hparse, ?_, ?_, ?_, ?_⟩
  · rw [filter_render s startedAt now inflight hparse]
    have hfilter : ((metrics s startedAt now inflight).filter fun m =>
        m.name = "pilot_handler_calls_total") =
        [⟨"pilot_handler_calls_total", "Total invocations per handler.", "counter",
          handlerSamples s fun st => toDouble st.calls⟩] := by
      simp [metrics]
    rw [hfilter, List.flatMap_singleton]
    exact perm_counters s _ _ _ fun handler id h => (hcounters handler id h).1
  · rw [filter_render s startedAt now inflight hparse]
    have hfilter : ((metrics s startedAt now inflight).filter fun m =>
        m.name = "pilot_handler_errors_total") =
        [⟨"pilot_handler_errors_total", "Total errors per handler.", "counter",
          handlerSamples s fun st => toDouble st.errors⟩] := by
      simp [metrics]
    rw [hfilter, List.flatMap_singleton]
    exact perm_counters s _ _ _ fun handler id h => (hcounters handler id h).2
  · simp only [metrics, List.flatMap_cons, List.flatMap_nil, List.filter_append,
      filter_labels_total, filter_labels_handler, read_int, Int.cast_natCast]
    exact ⟨_, rfl⟩
  · simp only [metrics, List.flatMap_cons, List.flatMap_nil, List.filter_append,
      filter_labels_total, filter_labels_handler, handlerMetrics]
    rw [List.nil_append, List.nil_append, List.nil_append, List.nil_append, List.map_append,
      List.map_append, List.map_append, List.map_append]
    exact (map_handlerSamples s _ _ _ _).append ((map_handlerSamples s _ _ _ _).append
      ((map_handlerSamples s _ _ _ _).append ((map_handlerSamples s _ _ _ _).append_right [])))

end

/-- A server whose handler's name would end its label and its line, and start the sample of
another handler, if it were not escaped. -/
def forger : Server where
  handlers := Dict.empty.set "a\"\x7d 9\npilot_handler_calls_total\x7bhandler=\"b\\" 0
  regs := fun _ => { Server.introspection 0 with stats := ⟨7, 2, [5]⟩ }
  created := 1
  middleware := []
  totalCalls := 7
  totalErrors := 2
  calls := fun _ => none
  events := []

/-- The name is read as it is, and there is no other handler. -/
theorem render_read_forger :
    ∃ samples, parse (render forger (some 1) 31 0).toList = some samples ∧
      (samples.filter fun sample => sample.name = "pilot_handler_calls_total").Perm
        [⟨"pilot_handler_calls_total", [("handler",
          "a\"\x7d 9\npilot_handler_calls_total\x7bhandler=\"b\\")], (7 : ℕ)⟩] ∧
      (samples.filter fun sample => sample.name = "pilot_handler_errors_total").Perm
        [⟨"pilot_handler_errors_total", [("handler",
          "a\"\x7d 9\npilot_handler_calls_total\x7bhandler=\"b\\")], (2 : ℕ)⟩] := by
  obtain ⟨samples, hparse, hcalls, herrors, -⟩ := render_read forger (some 1) 31 0
    fun handler id _ => ⟨by simp [forger], by simp [forger]⟩
  have hentries : forger.handlers.entries =
      [("a\"\x7d 9\npilot_handler_calls_total\x7bhandler=\"b\\", 0)] := rfl
  have hstats : (forger.regs 0).stats = ⟨7, 2, [5]⟩ := rfl
  rw [hentries, List.map_singleton, hstats] at hcalls herrors
  exact ⟨samples, hparse, hcalls, herrors⟩

end Metrics

end PilotLanggraph

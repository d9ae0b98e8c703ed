import Mathlib.Algebra.Order.Field.Rat
import PilotLanggraph.Registration
import PilotLanggraph.Runnables

/-!
# Calls and streams

`PilotRemoteRunnable.ainvoke` and `astream` over their attempts. `ainvoke` validates the input
and the result and makes `1 + max(0, max_retries)` attempts at most; `astream` validates neither
and makes three. Both go on to another attempt when one fails by a `PilotConnectionErrorWrapper`
or a `TimeoutError` before anything was received.

* `retriedAlike_iff_of_silent` : when the two retry alike.
* `agrees_iff` : when they agree on a handler that answers with one frame.
-/

namespace PilotLanggraph

/-- What a call raises. -/
inductive CallError
  /-- Raised while the reply is read. -/
  | attempt (e : Error)
  /-- An exception of another class. -/
  | other (cls : String)
  /-- `ValueError`, by the validation of the caller. -/
  | validation (message : String)
  deriving DecidableEq

/-- The class of an exception. -/
inductive ErrorClass
  | remote (cls : RemoteErrorClass)
  | connection
  | timeout
  | type
  | decode
  | other (cls : String)
  | value
  deriving DecidableEq

namespace CallError

/-- `type(e)`. -/
def cls : CallError → ErrorClass
  | .attempt (.remote cls _ _ _) => .remote cls
  | .attempt (.connection _) => .connection
  | .attempt (.timeout _) => .timeout
  | .attempt .type => .type
  | .attempt .decode => .decode
  | .other cls => .other cls
  | .validation _ => .value

/-- `isinstance(e, (PilotConnectionErrorWrapper, TimeoutError))`. -/
def retries (e : CallError) : Bool :=
  e.cls = .connection || e.cls = .timeout

end CallError

/-- How a call ends, or an attempt. -/
inductive CallOutcome (α : Type)
  | returned (a : α)
  | raised (e : CallError)
  | waiting
  deriving DecidableEq

/-- What an exception of the generator is to its consumer. -/
def Outcome.toCall {α : Type} : Outcome α → CallOutcome α
  | .returned a => .returned a
  | .raised e => .raised (.attempt e)
  | .waiting => .waiting

/-- An attempt, up to what it does with the frames. -/
inductive Attempt
  /-- It raises before it reads a reply : in `get`, `_resolve_peer`, `dial` or `write`. -/
  | stops (e : CallError)
  | reads (t : Trace)

/-- The frame neither ends the attempt nor fails it. -/
def Frame.Open (f : Frame) : Prop :=
  f.done = false ∧ ¬f.isError

instance (f : Frame) : Decidable f.Open :=
  inferInstanceAs (Decidable (_ ∧ _))

/-- The attempt fails, or receives a single terminal frame. -/
def Attempt.OneShot : Attempt → Prop
  | .stops _ => True
  | .reads t => ((∀ f ∈ t.frames, f.Open) ∧ ∃ e, t.ending = .raised e) ∨
      ∃ f, t.frames = [f] ∧ ¬f.Open

/-- The attempt fails in a way that is retried. -/
def Attempt.Transient : Attempt → Prop
  | .stops e => e.retries = true
  | .reads t => (∀ f ∈ t.frames, f.Open) ∧
      ∃ e, t.ending = .raised e ∧ CallError.retries (.attempt e) = true

/-- No frame brought a value. -/
def Attempt.Silent : Attempt → Prop
  | .stops _ => True
  | .reads t => ∀ f ∈ t.frames, f.result? = none

/-- The value of the terminal frame. -/
def Attempt.answer? : Attempt → Option Json
  | .stops _ => none
  | .reads t =>
    match t.frames with
    | [f] => if f.isError ∨ f.done = false then none else some (f.result?.getD .null)
    | _ => none

/-- The fields of a `PilotRemoteRunnable` that the two entry points read. A model either
accepts a value, and dumps it, or raises. -/
structure RetryingRunnable (ι : Type) extends PilotRemoteRunnable where
  inputModel : Option (ι → Except String ι)
  outputModel : Option (Json → Except String Json)
  maxRetries : ℤ
  retryBackoffSecs : Secs

/-- A call of `ainvoke` : how it ends, the number of its attempts, and its sleeps. -/
structure InvokeRun where
  outcome : CallOutcome Json
  attempts : ℕ
  sleeps : List Secs

/-- A call of `astream`, with the chunks it yields. -/
structure StreamRun where
  chunks : List Json
  outcome : CallOutcome Unit
  attempts : ℕ
  sleeps : List Secs

/-- An attempt that failed, a sleep, and the rest. -/
def InvokeRun.retried (sleep : Secs) (run : InvokeRun) : InvokeRun :=
  { run with attempts := run.attempts + 1, sleeps := sleep :: run.sleeps }

def StreamRun.retried (sleep : Secs) (run : StreamRun) : StreamRun :=
  { run with attempts := run.attempts + 1, sleeps := sleep :: run.sleeps }

namespace RetryingRunnable

variable {ι : Type} (r : RetryingRunnable ι)

/-- `_ainvoke_once`. -/
def once : Attempt → CallOutcome Json
  | .stops e => .raised e
  | .reads t => (r.lastResult t.ending .null t.frames).toCall

/-- `_attempt_stream`. -/
def attemptStream : Attempt → List Json × CallOutcome Unit
  | .stops e => ([], .raised e)
  | .reads t =>
    ((r.streamResults t.ending t.frames).1, (r.streamResults t.ending t.frames).2.toCall)

/-- `total_attempts`. -/
def totalAttempts : ℕ :=
  1 + (max 0 r.maxRetries).toNat

/-- The `for` loop of `_ainvoke_with_retries`. -/
def invokeLoop (attempts : ℕ → Attempt) : List ℕ → InvokeRun
  | [] => ⟨.returned .null, 0, []⟩
  | attempt :: rest =>
    match r.once (attempts attempt) with
    | .raised e =>
      if e.retries ∧ attempt < r.totalAttempts - 1 then
        (invokeLoop attempts rest).retried (min (r.retryBackoffSecs * 2 ^ attempt) 30)
      else ⟨.raised e, 1, []⟩
    | outcome => ⟨outcome, 1, []⟩

/-- `_ainvoke_with_retries`. -/
def ainvokeWithRetries (attempts : ℕ → Attempt) : InvokeRun :=
  r.invokeLoop attempts (List.range r.totalAttempts)

/-- The validation of the result. -/
def validateOutput (run : InvokeRun) : InvokeRun :=
  match run.outcome, r.outputModel with
  | .returned result, some model =>
    match model result with
    | .ok result => { run with outcome := .returned result }
    | .error e => { run with outcome := .raised (.validation ("client output validation: " ++ e)) }
  | _, _ => run

/-- `ainvoke`. The attempts may depend on what is sent. -/
def ainvoke (input : ι) (remote : ι → ℕ → Attempt) : InvokeRun :=
  match r.inputModel with
  | none => r.validateOutput (r.ainvokeWithRetries (remote input))
  | some model =>
    match model input with
    | .ok wireInput => r.validateOutput (r.ainvokeWithRetries (remote wireInput))
    | .error e => ⟨.raised (.validation ("client input validation: " ++ e)), 0, []⟩

/-- The `for` loop of `astream`. -/
def streamLoop (attempts : ℕ → Attempt) : List ℕ → StreamRun
  | [] => ⟨[], .returned (), 0, []⟩
  | attempt :: rest =>
    match r.attemptStream (attempts attempt) with
    | (chunks, .raised e) =>
      if e.retries ∧ ¬(chunks ≠ [] ∨ attempt = 2) then (streamLoop attempts rest).retried 1.5
      else ⟨chunks, .raised e, 1, []⟩
    | (chunks, outcome) => ⟨chunks, outcome, 1, []⟩

/-- `astream`, collected. -/
def astream (input : ι) (remote : ι → ℕ → Attempt) : StreamRun :=
  r.streamLoop (remote input) (List.range 3)

end RetryingRunnable

/-- A call and a stream agree : `[v]` for a value, `[]` for null, the same class of exception,
and the same number of attempts. -/
def Agrees (call : InvokeRun) (stream : StreamRun) : Prop :=
  (match call.outcome, stream.outcome with
    | .returned v, .returned _ => stream.chunks = if v = .null then [] else [v]
    | .raised e, .raised e' => e.cls = e'.cls
    | _, _ => False) ∧ call.attempts = stream.attempts

namespace RetryingRunnable

variable {ι : Type} {r : RetryingRunnable ι}

/-- What the first attempt reads to its end, `astream` yields, -/
theorem astream_of_first {loads : Bytes → Json.Load} {reads : List Read} {vs : List Json}
    {input : ι} {remote : ι → ℕ → Attempt}
    (hfirst : remote input 0 = .reads (r.aframes loads reads))
    (hstream : r.toPilotRemoteRunnable.attemptStream loads reads = (vs, .returned ())) :
    r.astream input remote = ⟨vs, .returned (), 1, []⟩ := by
  have hattempt : r.attemptStream (remote input 0) = (vs, .returned ()) := by
    rw [hfirst]
    exact congrArg (fun t : List Json × Outcome Unit => (t.1, t.2.toCall)) hstream
  rw [astream, List.range_succ_eq_map, streamLoop, hattempt]

/-- and `ainvoke` returns. -/
theorem ainvoke_of_first {loads : Bytes → Json.Load} {reads : List Read} {v : Json}
    {input wireInput : ι} {remote : ι → ℕ → Attempt}
    (hinput : (r.inputModel.map fun model => model input).getD (.ok input) = .ok wireInput)
    (hfirst : remote wireInput 0 = .reads (r.aframes loads reads))
    (honce : r.toPilotRemoteRunnable.ainvokeOnce loads reads = .returned v) :
    r.ainvoke input remote = r.validateOutput ⟨.returned v, 1, []⟩ := by
  have hattempt : r.once (remote wireInput 0) = .returned v := by
    rw [hfirst]
    exact congrArg Outcome.toCall honce
  have hretries : r.ainvokeWithRetries (remote wireInput) = ⟨.returned v, 1, []⟩ := by
    rw [ainvokeWithRetries, totalAttempts, Nat.add_comm, List.range_succ_eq_map, invokeLoop,
      hattempt]
  unfold ainvoke
  cases hmodel : r.inputModel with
  | none =>
    rw [hmodel] at hinput
    obtain rfl : input = wireInput := Except.ok.inj hinput
    exact congrArg r.validateOutput hretries
  | some model =>
    rw [hmodel, Option.map_some, Option.getD_some] at hinput
    simp only [hinput, hretries]

/-- The exception of an error frame is not retried. -/
theorem retries_fromReply (f : Frame) (peer : Json) (node : String) :
    CallError.retries (.attempt (fromReply f peer node)) = false := by
  unfold fromReply
  split <;> rfl

/-- Open frames leave the end of the attempt as it is. -/
theorem lastResult_of_open {e : Error} : ∀ {fs : List Frame} {last : Json},
    (∀ f ∈ fs, f.Open) → r.lastResult (.raised e) last fs = .raised e
  | [], _, _ => rfl
  | f :: fs, last, h => by
    obtain ⟨hdone, herror⟩ := h f List.mem_cons_self
    rw [PilotRemoteRunnable.lastResult, if_neg herror, hdone]
    exact lastResult_of_open fun g hg => h g (List.mem_cons_of_mem f hg)

theorem streamResults_of_open {ending : Outcome Unit} : ∀ {fs : List Frame},
    (∀ f ∈ fs, f.Open) → r.streamResults ending fs = (fs.filterMap Frame.result?, ending)
  | [], _ => rfl
  | f :: fs, h => by
    obtain ⟨hdone, herror⟩ := h f List.mem_cons_self
    have ih : r.streamResults ending fs = (fs.filterMap Frame.result?, ending) :=
      streamResults_of_open fun g hg => h g (List.mem_cons_of_mem f hg)
    rw [PilotRemoteRunnable.streamResults, if_neg herror, hdone, ih, List.filterMap_cons]
    cases f.result? <;> rfl

/-- What a failed attempt is to the two. -/
structure Fails (r : RetryingRunnable ι) (a : Attempt) (e : CallError) (chunks : List Json) :
    Prop where
  once : r.once a = .raised e
  stream : r.attemptStream a = (chunks, .raised e)
  answer : a.answer? = none
  transient : a.Transient ↔ e.retries = true
  silent : a.Transient → (a.Silent ↔ chunks = [])

/-- What an answered attempt is to the two. -/
structure Answers (r : RetryingRunnable ι) (a : Attempt) (v : Json) : Prop where
  once : r.once a = .returned v
  stream : r.attemptStream a = (if v = .null then [] else [v], .returned ())
  answer : a.answer? = some v
  stops : ¬a.Transient

theorem answer?_of_open {t : Trace} (hopen : ∀ f ∈ t.frames, f.Open) :
    (Attempt.reads t).answer? = none := by
  unfold Attempt.answer?
  dsimp only
  split
  · rename_i f hframes
    exact if_pos (Or.inr (hopen f (hframes ▸ List.mem_singleton_self f)).1)
  · rfl

/-- A transient failure has no answer. -/
theorem answer?_of_transient {a : Attempt} (h : a.Transient) : a.answer? = none := by
  cases a with
  | stops e => rfl
  | reads t => exact answer?_of_open h.1

theorem fails_of_open {t : Trace} {e : Error} (hopen : ∀ f ∈ t.frames, f.Open)
    (hending : t.ending = .raised e) :
    r.Fails (.reads t) (.attempt e) (t.frames.filterMap Frame.result?) where
  once := by
    rw [RetryingRunnable.once, hending, lastResult_of_open hopen]
    rfl
  stream := by
    rw [attemptStream, streamResults_of_open hopen, hending]
    rfl
  answer := answer?_of_open hopen
  transient := by
    constructor
    · rintro ⟨-, e', he', hretries⟩
      cases hending.symm.trans he'
      exact hretries
    · exact fun hretries => ⟨hopen, e, hending, hretries⟩
  silent := fun _ => List.filterMap_eq_nil_iff.symm

/-- An attempt of a one-shot handler fails for both, or answers both. -/
theorem fails_or_answers {a : Attempt} (h : a.OneShot) :
    (∃ e chunks, r.Fails a e chunks) ∨ ∃ v, r.Answers a v := by
  cases a with
  | stops e =>
    have hsilent : (Attempt.stops e).Silent ↔ ([] : List Json) = [] := iff_of_true trivial rfl
    exact Or.inl ⟨e, [], rfl, rfl, rfl, Iff.rfl, fun _ => hsilent⟩
  | reads t =>
    rcases h with ⟨hopen, e, hending⟩ | ⟨f, hframes, hterminal⟩
    · exact Or.inl ⟨_, _, fails_of_open hopen hending⟩
    have hstops : ¬(Attempt.reads t).Transient := fun h =>
      hterminal (h.1 f (hframes ▸ List.mem_singleton_self f))
    by_cases herror : f.isError
    · refine Or.inl ⟨.attempt (fromReply f (f.get "_peer") r.node), [], ?_, ?_, ?_, ?_, ?_⟩
      · simp only [once, hframes, PilotRemoteRunnable.lastResult, herror, if_true]
        rfl
      · simp only [attemptStream, hframes, PilotRemoteRunnable.streamResults, herror, if_true]
        rfl
      · simp only [Attempt.answer?, hframes, herror, true_or, if_true]
      · rw [retries_fromReply]
        exact iff_of_false hstops Bool.false_ne_true
      · exact fun h => absurd h hstops
    · have hdone : f.done = true := by
        by_contra hnot
        exact hterminal ⟨Bool.eq_false_iff.2 hnot, herror⟩
      refine Or.inr ⟨f.result?.getD .null, ?_, ?_, ?_, hstops⟩
      · simp only [once, hframes, PilotRemoteRunnable.lastResult, herror, if_false, hdone, if_true]
        rfl
      · simp only [attemptStream, hframes, PilotRemoteRunnable.streamResults, herror, if_false,
          hdone, if_true]
        have hchunks : f.result?.toList =
            if f.result?.getD .null = .null then [] else [f.result?.getD .null] := by
          unfold Frame.result?
          by_cases hnull : f.get "result" = .null
          · simp [hnull]
          · simp [hnull]
        rw [hchunks]
        rfl
      · simp only [Attempt.answer?, hframes, herror, hdone, Bool.true_eq_false, or_self, if_false]

/-! ## The last attempt -/

/-- Of the attempts from `k` to `k + n`, the last one that is made, if another one follows those
with `p`. -/
structure IsLast (p : ℕ → Prop) (k n last : ℕ) : Prop where
  ge : k ≤ last
  le : last ≤ k + n
  before : ∀ j, k ≤ j → j < last → p j
  stops : last = k + n ∨ ¬p last

variable {p q : ℕ → Prop}

theorem isLast_zero (k : ℕ) : IsLast p k 0 k :=
  ⟨Nat.le_refl _, Nat.le_refl _, fun _ hj hlt => absurd hj (Nat.not_le.2 hlt), Or.inl rfl⟩

theorem isLast_of_stops {k : ℕ} (n : ℕ) (h : ¬p k) : IsLast p k n k :=
  ⟨Nat.le_refl _, Nat.le_add_right _ _, fun _ hj hlt => absurd hj (Nat.not_le.2 hlt), Or.inr h⟩

theorem IsLast.retried {k n last : ℕ} (h : IsLast p (k + 1) n last) (hk : p k) :
    IsLast p k (n + 1) last := by
  have hge := h.ge
  have hle := h.le
  refine ⟨by omega, by omega, fun j hj hlt => ?_, h.stops.imp_left fun heq => by omega⟩
  by_cases hjk : j = k
  · exact hjk ▸ hk
  · exact h.before j (by omega) hlt

/-- Two calls make the same last attempt exactly if at each attempt that both make they go on
or stop together. -/
theorem last_eq_iff {m n a b : ℕ} (hpq : ∀ k, q k → p k) (ha : IsLast p 0 m a)
    (hb : IsLast q 0 n b) :
    a = b ↔ ∀ k ≤ min m n, (∀ j < k, q j) → p k → (k < m ↔ q k ∧ k < n) := by
  have ha₁ := ha.le
  have hb₁ := hb.le
  constructor
  · rintro rfl k hk hbefore hp
    rcases Nat.lt_trichotomy k a with hlt | rfl | hlt
    · exact iff_of_true (by omega) ⟨hb.before k (Nat.zero_le _) hlt, by omega⟩
    · refine iff_of_false (fun hm => ?_) fun hn => ?_
      · exact ha.stops.elim (fun heq => by omega) fun hstops => hstops hp
      · exact hb.stops.elim (fun heq => by omega) fun hstops => hstops hn.1
    · have hq := hbefore a hlt
      exact (ha.stops.elim (fun heq => by omega) fun hstops => hstops (hpq a hq)).elim
  · intro h
    by_contra hne
    rcases Nat.lt_or_gt_of_ne hne with hlt | hlt
    · have hq := hb.before a (Nat.zero_le _) hlt
      have hend := ha.stops.resolve_right fun hstops => hstops (hpq a hq)
      have hgoes := h a (by omega) (fun j hj => hb.before j (Nat.zero_le _) (by omega)) (hpq a hq)
      have hlt' := hgoes.2 ⟨hq, by omega⟩
      omega
    · have hp := ha.before b (Nat.zero_le _) hlt
      have hgoes := h b (by omega) (fun j hj => hb.before j (Nat.zero_le _) hj) hp
      obtain ⟨hq, hlt'⟩ := hgoes.1 (by omega)
      exact hb.stops.elim (fun heq => by omega) fun hstops => hstops hq

/-! ## The two loops -/

variable {attempts : ℕ → Attempt}

/-- `ainvoke` ends as its last attempt does. -/
theorem invokeLoop_range' (hone : ∀ k, (attempts k).OneShot) : ∀ (n k : ℕ),
    k + n + 1 = r.totalAttempts →
      ∃ last, IsLast (fun k => (attempts k).Transient) k n last ∧
        (r.invokeLoop attempts (List.range' k (n + 1))).outcome = r.once (attempts last) ∧
        (r.invokeLoop attempts (List.range' k (n + 1))).attempts + k = last + 1
  | n, k, htotal => by
    rw [List.range'_succ, invokeLoop]
    rcases fails_or_answers (r := r) (hone k) with ⟨e, chunks, h⟩ | ⟨v, h⟩
    · rw [h.once]
      dsimp only
      split_ifs with hretry
      · cases n with
        | zero => omega
        | succ n =>
          obtain ⟨last, hlast, houtcome, hattempts⟩ :=
            invokeLoop_range' hone n (k + 1) (by omega)
          refine ⟨last, hlast.retried (h.transient.2 hretry.1), houtcome, ?_⟩
          simp only [InvokeRun.retried]
          omega
      · refine ⟨k, ?_, h.once.symm, Nat.add_comm _ _⟩
        by_cases he : e.retries = true
        · obtain rfl : n = 0 := by
            have hlt : ¬k < r.totalAttempts - 1 := fun hlt => hretry ⟨he, hlt⟩
            omega
          exact isLast_zero k
        · exact isLast_of_stops n fun htransient => he (h.transient.1 htransient)
    · rw [h.once]
      exact ⟨k, isLast_of_stops n h.stops, h.once.symm, Nat.add_comm _ _⟩

/-- So does `astream`, which goes on only if nothing was received. -/
theorem streamLoop_range' (hone : ∀ k, (attempts k).OneShot) : ∀ (n k : ℕ), k + n + 1 = 3 →
    ∃ last, IsLast (fun k => (attempts k).Transient ∧ (attempts k).Silent) k n last ∧
      ((r.streamLoop attempts (List.range' k (n + 1))).chunks,
        (r.streamLoop attempts (List.range' k (n + 1))).outcome) =
          r.attemptStream (attempts last) ∧
      (r.streamLoop attempts (List.range' k (n + 1))).attempts + k = last + 1
  | n, k, htotal => by
    rw [List.range'_succ, streamLoop]
    rcases fails_or_answers (r := r) (hone k) with ⟨e, chunks, h⟩ | ⟨v, h⟩
    · rw [h.stream]
      dsimp only
      split_ifs with hretry
      · have htransient := h.transient.2 hretry.1
        have hchunks : chunks = [] := not_ne_iff.1 fun hne => hretry.2 (Or.inl hne)
        cases n with
        | zero =>
          have hk : k = 2 := by omega
          exact absurd (Or.inr hk) hretry.2
        | succ n =>
          obtain ⟨last, hlast, houtcome, hattempts⟩ :=
            streamLoop_range' hone n (k + 1) (by omega)
          refine ⟨last, hlast.retried ⟨htransient, (h.silent htransient).2 hchunks⟩, houtcome, ?_⟩
          simp only [StreamRun.retried]
          omega
      · refine ⟨k, ?_, h.stream.symm, Nat.add_comm _ _⟩
        by_cases hgoes : (attempts k).Transient ∧ (attempts k).Silent
        · obtain rfl : n = 0 := by
            have hk : k = 2 := by
              by_contra hne
              refine hretry ⟨h.transient.1 hgoes.1, ?_⟩
              exact fun hor => hor.elim (fun hchunks => hchunks ((h.silent hgoes.1).1 hgoes.2)) hne
            omega
          exact isLast_zero k
        · exact isLast_of_stops n hgoes
    · rw [h.stream]
      exact ⟨k, isLast_of_stops n fun hgoes => h.stops hgoes.1, h.stream.symm, Nat.add_comm _ _⟩

/-! ## Agreement -/

/-- The answer of a call is one that the output model leaves as it is. -/
def AnswerKept (r : RetryingRunnable ι) (a : Attempt) : Prop :=
  ∀ v, a.answer? = some v → ∀ model, r.outputModel = some model → model v = .ok v

/-- The validation of the result keeps the number of attempts. -/
@[simp] theorem validateOutput_attempts (run : InvokeRun) :
    (r.validateOutput run).attempts = run.attempts := by
  unfold validateOutput
  split
  · split <;> rfl
  · rfl

theorem validateOutput_of_raised {run : InvokeRun} {e : CallError} (h : run.outcome = .raised e) :
    r.validateOutput run = run := by
  unfold validateOutput
  rw [h]

/-- Over a returned value the validation is invisible exactly if the model keeps it. -/
theorem validateOutput_returned_iff {run : InvokeRun} {v : Json} (h : run.outcome = .returned v) :
    (r.validateOutput run).outcome = .returned v ↔
      ∀ model, r.outputModel = some model → model v = .ok v := by
  unfold validateOutput
  rw [h]
  cases hmodel : r.outputModel with
  | none => simp [h]
  | some model =>
    dsimp only
    constructor
    · intro hkept model' hmodel'
      cases hmodel'
      revert hkept
      cases model v with
      | ok w =>
        intro hkept
        cases hkept
        rfl
      | error e => exact fun hkept => nomatch hkept
    · intro hkept
      rw [hkept model rfl]

/-- The values of a collected stream determine the value of the call. -/
theorem eq_of_ite_singleton {v w : Json}
    (h : (if v = .null then [] else [v]) = if w = Json.null then [] else [w]) : v = w := by
  split_ifs at h with hv hw hw
  · exact hv.trans hw.symm
  · exact List.head_eq_of_cons_eq h

/-- A call that validates its result agrees with a stream that has ended with the same attempt. -/
theorem agrees_validateOutput_iff {a : Attempt} (hone : a.OneShot) {run : InvokeRun}
    {stream : StreamRun} (hrun : run.outcome = r.once a)
    (hstream : (stream.chunks, stream.outcome) = r.attemptStream a) :
    Agrees (r.validateOutput run) stream ↔ run.attempts = stream.attempts ∧ r.AnswerKept a := by
  rcases fails_or_answers (r := r) hone with ⟨e, chunks, h⟩ | ⟨v, h⟩
  · rw [h.once] at hrun
    obtain ⟨-, houtcome⟩ := Prod.mk.inj (hstream.trans h.stream)
    have hkept : r.AnswerKept a := fun v hv => nomatch h.answer.symm.trans hv
    rw [validateOutput_of_raised hrun]
    unfold Agrees
    rw [hrun, houtcome]
    exact ⟨fun hagrees => ⟨hagrees.2, hkept⟩, fun hsame => ⟨rfl, hsame.1⟩⟩
  · rw [h.once] at hrun
    obtain ⟨hchunks, houtcome⟩ := Prod.mk.inj (hstream.trans h.stream)
    have hkept : r.AnswerKept a ↔ (r.validateOutput run).outcome = .returned v := by
      rw [validateOutput_returned_iff hrun]
      constructor
      · exact fun hkept => hkept v h.answer
      · intro hkept w hw
        cases h.answer.symm.trans hw
        exact hkept
    rw [hkept]
    unfold Agrees
    rw [houtcome, hchunks, validateOutput_attempts]
    constructor
    · rintro ⟨hvalue, hattempts⟩
      refine ⟨hattempts, ?_⟩
      cases hvalidated : (r.validateOutput run).outcome with
      | returned w =>
        rw [hvalidated] at hvalue
        rw [eq_of_ite_singleton hvalue]
      | raised e =>
        rw [hvalidated] at hvalue
        exact hvalue.elim
      | waiting =>
        rw [hvalidated] at hvalue
        exact hvalue.elim
    · rintro ⟨hattempts, hvalidated⟩
      rw [hvalidated]
      exact ⟨rfl, hattempts⟩

/-- Whether the answer is kept is a question about the attempts before it. -/
theorem answerKept_last_iff {last n : ℕ}
    (h : IsLast (fun k => (attempts k).Transient) 0 n last) :
    r.AnswerKept (attempts last) ↔
      ∀ k ≤ n, (∀ j < k, (attempts j).Transient) → r.AnswerKept (attempts k) := by
  have hle := h.le
  constructor
  · intro hkept k hk hbefore
    rcases Nat.lt_trichotomy k last with hlt | rfl | hlt
    · intro v hv
      rw [answer?_of_transient (h.before k (Nat.zero_le _) hlt)] at hv
      exact nomatch hv
    · exact hkept
    · exact (h.stops.elim (fun heq => by omega) fun hstops => hstops (hbefore last hlt)).elim
  · intro hkept
    exact hkept last (by omega) fun j hj => h.before j (Nat.zero_le _) hj

theorem totalAttempts_pos (r : RetryingRunnable ι) : 0 < r.totalAttempts := by
  unfold totalAttempts
  omega

theorem ainvokeWithRetries_last (hone : ∀ k, (attempts k).OneShot) :
    ∃ last, IsLast (fun k => (attempts k).Transient) 0 (r.totalAttempts - 1) last ∧
      (r.ainvokeWithRetries attempts).outcome = r.once (attempts last) ∧
        (r.ainvokeWithRetries attempts).attempts = last + 1 := by
  obtain ⟨m, hm⟩ : ∃ m, r.totalAttempts = m + 1 := ⟨_, Nat.add_comm _ _⟩
  unfold ainvokeWithRetries
  rw [List.range_eq_range', hm]
  exact invokeLoop_range' hone m 0 (by omega)

theorem astream_last (hone : ∀ k, (attempts k).OneShot) (input : ι) :
    ∃ last, IsLast (fun k => (attempts k).Transient ∧ (attempts k).Silent) 0 2 last ∧
      ((r.astream input fun _ => attempts).chunks, (r.astream input fun _ => attempts).outcome) =
        r.attemptStream (attempts last) ∧
      (r.astream input fun _ => attempts).attempts = last + 1 := by
  unfold astream
  rw [List.range_eq_range']
  exact streamLoop_range' hone 2 0 rfl

/-- At each attempt that both entry points make, they go on or stop together : if it fails in a
way that is retried, `ainvoke` has an attempt left exactly if `astream` has one and has received
nothing. -/
def RetriedAlike (r : RetryingRunnable ι) (attempts : ℕ → Attempt) : Prop :=
  ∀ k < min r.totalAttempts 3, (∀ j < k, (attempts j).Transient ∧ (attempts j).Silent) →
    (attempts k).Transient → (k + 1 < r.totalAttempts ↔ (attempts k).Silent ∧ k + 1 < 3)

/-- If a failed attempt has received nothing, then the retries are two or one of the attempts
within the budgets of both is not retried. -/
theorem retriedAlike_iff_of_silent
    (hsilent : ∀ k, (attempts k).Transient → (attempts k).Silent) :
    r.RetriedAlike attempts ↔
      r.maxRetries = 2 ∨ ∃ k < min r.totalAttempts 3, ¬(attempts k).Transient := by
  have hpos := r.totalAttempts_pos
  have htwo : r.totalAttempts = 3 ↔ r.maxRetries = 2 := by
    unfold totalAttempts
    omega
  rw [← htwo]
  constructor
  · intro h
    by_contra hnot
    obtain ⟨hne, hall⟩ := not_or.1 hnot
    have htransient : ∀ k < min r.totalAttempts 3, (attempts k).Transient := by
      intro k hk
      by_contra hstops
      exact hall ⟨k, hk, hstops⟩
    obtain ⟨k, hk⟩ : ∃ k, min r.totalAttempts 3 = k + 1 := ⟨min r.totalAttempts 3 - 1, by omega⟩
    have hlast := htransient k (by omega)
    have hgoes := h k (by omega)
      (fun j hj => ⟨htransient j (by omega), hsilent j (htransient j (by omega))⟩) hlast
    rw [and_iff_right (hsilent k hlast)] at hgoes
    omega
  · rintro (heq | ⟨last, hlast, hstops⟩) k hk hbefore htransient
    · rw [and_iff_right (hsilent k htransient), heq]
    · have hlt : k < last := by
        rcases Nat.lt_trichotomy k last with hlt | rfl | hlt
        · exact hlt
        · exact absurd htransient hstops
        · exact absurd (hbefore last hlt).1 hstops
      exact iff_of_true (by omega) ⟨hsilent k htransient, by omega⟩

/-- After the input is accepted the two agree if they make the same number of attempts and the
answer is kept. -/
theorem agrees_retries_iff (hone : ∀ k, (attempts k).OneShot) (input : ι) :
    Agrees (r.validateOutput (r.ainvokeWithRetries attempts)) (r.astream input fun _ => attempts) ↔
      r.RetriedAlike attempts ∧
        ∀ k < r.totalAttempts, (∀ j < k, (attempts j).Transient) → r.AnswerKept (attempts k) := by
  have hpos := r.totalAttempts_pos
  obtain ⟨a, ha, hrun, hcalls⟩ := ainvokeWithRetries_last (r := r) hone
  obtain ⟨b, hb, hstream, htries⟩ := astream_last (r := r) hone input
  have hbudget : r.RetriedAlike attempts ↔ a = b := by
    rw [last_eq_iff (fun _ => And.left) ha hb]
    refine forall_congr' fun k => imp_congr (by omega) (imp_congr_right fun _ => ?_)
    refine imp_congr_right fun htransient => iff_congr (by omega) ?_
    exact ⟨fun h => ⟨⟨htransient, h.1⟩, by omega⟩, fun h => ⟨h.1.2, by omega⟩⟩
  have hkept : (∀ k < r.totalAttempts, (∀ j < k, (attempts j).Transient) →
      r.AnswerKept (attempts k)) ↔ r.AnswerKept (attempts a) := by
    rw [answerKept_last_iff ha]
    exact forall_congr' fun k => imp_congr_left (by omega)
  rw [hbudget, hkept]
  constructor
  · intro h
    have heq : a = b := by
      have hsame := h.2
      rw [validateOutput_attempts] at hsame
      omega
    subst heq
    exact ⟨rfl, ((agrees_validateOutput_iff (hone a) hrun hstream).1 h).2⟩
  · rintro ⟨rfl, hanswer⟩
    exact (agrees_validateOutput_iff (hone a) hrun hstream).2 ⟨by omega, hanswer⟩

/-- `ainvoke` and `astream` agree on a one-shot handler exactly if the input model accepts the
input, the two retry alike, and the output model keeps the answer. -/
theorem agrees_iff (input : ι) (hone : ∀ k, (attempts k).OneShot) :
    Agrees (r.ainvoke input fun _ => attempts) (r.astream input fun _ => attempts) ↔
      (∀ model, r.inputModel = some model → ∃ wireInput, model input = .ok wireInput) ∧
        r.RetriedAlike attempts ∧
          ∀ k < r.totalAttempts, (∀ j < k, (attempts j).Transient) →
            r.AnswerKept (attempts k) := by
  rw [← agrees_retries_iff hone input]
  unfold ainvoke
  cases hmodel : r.inputModel with
  | none => simp
  | some model =>
    dsimp only
    cases haccepts : model input with
    | ok wireInput => simp [haccepts]
    | error e =>
      have hsilent : ¬Agrees ⟨.raised (.validation ("client input validation: " ++ e)), 0, []⟩
          (r.astream input fun _ => attempts) := by
        obtain ⟨last, -, -, htries⟩ := astream_last (r := r) hone input
        intro h
        have hsame := h.2
        dsimp only at hsame
        omega
      simp [haccepts, hsilent]

/-- An `echo` node, with the retries of the argument. -/
def echo (maxRetries : ℤ) : RetryingRunnable Json :=
  { node := "echo", peerAddr := "0:0000.0000.0001", timeoutSecs := "60.0", inputModel := none,
    outputModel := none, maxRetries := maxRetries, retryBackoffSecs := 1.5 }

/-- The first stream is closed while the tunnel is cold, every later attempt receives `"hi"`. -/
def coldTunnel : ℕ → Attempt
  | 0 => .reads
    (.raise (.connection "stream from `0:0000.0000.0001` closed before any reply"))
  | _ + 1 => .reads ⟨[[("ok", .bool true), ("result", .str "hi"), ("done", .bool true),
      ("_peer", .str "0:0000.0000.0001")]], .returned ()⟩

theorem coldTunnel_oneShot : ∀ k, (coldTunnel k).OneShot
  | 0 => Or.inl ⟨fun _ h => (by cases h), _, rfl⟩
  | _ + 1 => Or.inr ⟨_, rfl, by decide⟩

theorem coldTunnel_silent : ∀ k, (coldTunnel k).Transient → (coldTunnel k).Silent
  | 0, _ => fun _ h => by cases h
  | _ + 1, h => absurd h.1 (by decide)

/-- With the two retries of the defaults. -/
theorem agrees_iff_default :
    Agrees ((echo 2).ainvoke .null fun _ => coldTunnel)
      ((echo 2).astream .null fun _ => coldTunnel) :=
  (agrees_iff (r := echo 2) Json.null coldTunnel_oneShot).2
    ⟨fun _ h => (nomatch h), (retriedAlike_iff_of_silent coldTunnel_silent).2 (Or.inl rfl),
      fun _ _ _ _ _ _ h => nomatch h⟩

/-- Without retries `ainvoke` gives up after one attempt, and `astream` tries again. -/
theorem no_retries_disagree :
    (∀ k, (coldTunnel k).OneShot) ∧
      ((echo 0).ainvoke .null fun _ => coldTunnel).outcome =
        .raised (.attempt
          (.connection "stream from `0:0000.0000.0001` closed before any reply")) ∧
      ((echo 0).ainvoke .null fun _ => coldTunnel).attempts = 1 ∧
      ((echo 0).astream .null fun _ => coldTunnel).chunks = [.str "hi"] ∧
      ((echo 0).astream .null fun _ => coldTunnel).attempts = 2 ∧
      ¬Agrees ((echo 0).ainvoke .null fun _ => coldTunnel)
        ((echo 0).astream .null fun _ => coldTunnel) := by
  refine ⟨coldTunnel_oneShot, rfl, rfl, rfl, rfl, ?_⟩
  intro h
  exact absurd h.2 (by decide)

end RetryingRunnable

end PilotLanggraph

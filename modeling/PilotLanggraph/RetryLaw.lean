import PilotLanggraph.Retries

/-!
# The retry law of `ainvoke`

`_ainvoke_with_retries`, with the place where each attempt fails and with the number that the
backoff is. A failure of the connection is a `TimeoutError`, a stream that is closed before any
reply, or a `PilotConnectionError` raised while the shared connection resolves or dials; the loop
retries the first two alone, as `PilotConnectionError` is no `PilotConnectionErrorWrapper`. The
delay after attempt `i` is `backoff * 2 ** i`, which a float backoff can not be multiplied to
from `2 ** 1024` on.

`RetryLaw` is the law with all three kinds of failure, and `retry_law_iff` says when it holds.
-/

namespace PilotLanggraph

/-- Where an attempt is before it reads a reply : in `get`, `_resolve_peer`, `dial` or `write`. -/
inductive AttemptStage
  | get
  | resolve
  | dial
  | write
  deriving DecidableEq

/-- An attempt, with the place where it fails. -/
inductive StagedAttempt
  | stops (stage : AttemptStage) (e : CallError)
  | reads (t : Trace)

/-- The attempt without the place. -/
def StagedAttempt.attempt : StagedAttempt → Attempt
  | .stops _ e => .stops e
  | .reads t => .reads t

/-- `PilotConnectionError`, raised while resolving or dialling. -/
def StagedAttempt.DialFails : StagedAttempt → Prop
  | .stops .resolve e => e.cls = .other "PilotConnectionError"
  | .stops .dial e => e.cls = .other "PilotConnectionError"
  | _ => False

/-- `retry_backoff_secs`. -/
inductive Backoff
  | int (n : ℤ)
  | float (x : Secs)

namespace Backoff

/-- The seconds. -/
def secs : Backoff → Secs
  | .int n => n
  | .float x => x

/-- `min(self.retry_backoff_secs * (2 ** attempt), 30.0)`. From 1024 on `2 ** attempt` is not the
value of a float, and the product with one an `OverflowError`. -/
def delay (b : Backoff) (attempt : ℕ) : Option Secs :=
  match b with
  | .int n => some (min (n * 2 ^ attempt) 30)
  | .float x => if attempt < 1024 then some (min (x * 2 ^ attempt) 30) else none

theorem eq_of_delay {b : Backoff} {attempt : ℕ} {d : Secs} (h : b.delay attempt = some d) :
    d = min (b.secs * 2 ^ attempt) 30 := by
  cases b with
  | int n => exact (Option.some.inj h).symm
  | float x =>
    unfold delay at h
    simp only [Option.ite_none_right_eq_some, Option.some.injEq] at h
    exact h.2.symm

theorem delay_eq_none_iff {b : Backoff} {attempt : ℕ} :
    b.delay attempt = none ↔ (∃ x, b = .float x) ∧ 1024 ≤ attempt := by
  cases b with
  | int n => simp [delay]
  | float x => simp [delay]

end Backoff

namespace RetryingRunnable

variable {ι : Type} (r : RetryingRunnable ι) (backoff : Backoff)

/-- The attempt fails in a way that the loop retries. -/
def Retried (a : StagedAttempt) : Prop :=
  ∃ e, r.once a.attempt = .raised e ∧ e.retries = true

/-- The attempt fails by a failure of the connection. -/
def ConnectionFails (a : StagedAttempt) : Prop :=
  r.Retried a ∨ a.DialFails

/-- The `for` loop of `_ainvoke_with_retries`, with the computation of its delays. -/
def retryLoop (attempts : ℕ → StagedAttempt) : List ℕ → InvokeRun
  | [] => ⟨.returned .null, 0, []⟩
  | attempt :: rest =>
    match r.once (attempts attempt).attempt with
    | .raised e =>
      if e.retries ∧ attempt < r.totalAttempts - 1 then
        match backoff.delay attempt with
        | some delay => (retryLoop attempts rest).retried delay
        | none => ⟨.raised (.other "OverflowError"), 1, []⟩
      else ⟨.raised e, 1, []⟩
    | outcome => ⟨outcome, 1, []⟩

/-- `_ainvoke_with_retries`. -/
def ainvokeRetrying (attempts : ℕ → StagedAttempt) : InvokeRun :=
  r.retryLoop backoff attempts (List.range r.totalAttempts)

/-- The law : attempt after attempt until one does not fail by the connection or none is left, the
outcome of the last one, and the delays in between. -/
def RetryLaw (attempts : ℕ → StagedAttempt) (run : InvokeRun) : Prop :=
  ∃ last, IsLast (fun k => r.ConnectionFails (attempts k)) 0 (r.totalAttempts - 1) last ∧
    run.attempts = last + 1 ∧ run.outcome = r.once (attempts last).attempt ∧
    run.sleeps = (List.range last).map fun i => min (backoff.secs * 2 ^ i) 30

variable {r backoff} {attempts : ℕ → StagedAttempt}

/-- The loop goes on to another attempt, as far as the attempt and its delay are concerned. -/
def GoesOn (r : RetryingRunnable ι) (backoff : Backoff) (attempts : ℕ → StagedAttempt) (k : ℕ) :
    Prop :=
  r.Retried (attempts k) ∧ ∃ d, backoff.delay k = some d

/-- How a run of the loop from attempt `k` on ends : with the outcome of its last attempt, unless
this is to be retried and its delay fails. -/
structure Ends (r : RetryingRunnable ι) (backoff : Backoff) (attempts : ℕ → StagedAttempt)
    (k n last : ℕ) (run : InvokeRun) : Prop where
  isLast : IsLast (GoesOn r backoff attempts) k n last
  count : run.attempts = last - k + 1
  sleeps : run.sleeps = (List.range' k (last - k)).map fun i => min (backoff.secs * 2 ^ i) 30
  overflow : r.Retried (attempts last) → last < k + n →
    run.outcome = .raised (.other "OverflowError")
  outcome : ¬(r.Retried (attempts last) ∧ last < k + n) →
    run.outcome = r.once (attempts last).attempt

/-- An attempt that is not retried, or the last one, ends the loop; -/
theorem retryLoop_stops {k : ℕ} (h : ¬(r.Retried (attempts k) ∧ k < r.totalAttempts - 1))
    (rest : List ℕ) :
    r.retryLoop backoff attempts (k :: rest) = ⟨r.once (attempts k).attempt, 1, []⟩ := by
  rw [retryLoop]
  cases honce : r.once (attempts k).attempt with
  | returned v => rfl
  | waiting => rfl
  | raised e => exact if_neg fun hretry => h ⟨⟨e, honce, hretry.1⟩, hretry.2⟩

/-- any other one is followed by the rest, if there is a delay. -/
theorem retryLoop_retried {k : ℕ} (h : r.Retried (attempts k)) (hk : k < r.totalAttempts - 1)
    (rest : List ℕ) :
    r.retryLoop backoff attempts (k :: rest) =
      match backoff.delay k with
      | some delay => (r.retryLoop backoff attempts rest).retried delay
      | none => ⟨.raised (.other "OverflowError"), 1, []⟩ := by
  obtain ⟨e, honce, hretries⟩ := h
  rw [retryLoop, honce]
  exact if_pos ⟨hretries, hk⟩

theorem Ends.retried {k n last : ℕ} {run : InvokeRun} {d : Secs}
    (h : Ends r backoff attempts (k + 1) n last run) (hk : r.Retried (attempts k))
    (hd : backoff.delay k = some d) : Ends r backoff attempts k (n + 1) last (run.retried d) := by
  have hge := h.isLast.ge
  have hlength : last - k = last - (k + 1) + 1 := by omega
  refine ⟨h.isLast.retried ⟨hk, d, hd⟩, ?_, ?_, fun hlast hlt => ?_, fun hlast => ?_⟩
  · exact (congrArg (· + 1) h.count).trans (by omega)
  · rw [hlength, List.range'_succ, List.map_cons, ← Backoff.eq_of_delay hd, ← h.sleeps]
    rfl
  · exact h.overflow hlast (by omega)
  · exact h.outcome fun hgoes => hlast ⟨hgoes.1, by omega⟩

/-- The run lemma, by induction on the attempts that are left. -/
theorem retryLoop_range' : ∀ n k, k + n = r.totalAttempts - 1 →
    ∃ last, Ends r backoff attempts k n last
      (r.retryLoop backoff attempts (List.range' k (n + 1)))
  | n, k, hk => by
    rw [List.range'_succ]
    by_cases hgoes : r.Retried (attempts k) ∧ k < r.totalAttempts - 1
    · cases n with
      | zero => omega
      | succ n =>
        rw [retryLoop_retried hgoes.1 hgoes.2]
        cases hd : backoff.delay k with
        | some d =>
          obtain ⟨last, h⟩ := retryLoop_range' n (k + 1) (by omega)
          exact ⟨last, h.retried hgoes.1 hd⟩
        | none =>
          have hstops : ¬GoesOn r backoff attempts k := by
            rintro ⟨-, d, hsome⟩
            rw [hd] at hsome
            cases hsome
          refine ⟨k, isLast_of_stops _ hstops, ?_, ?_, fun _ _ => rfl, fun h => ?_⟩
          · rw [Nat.sub_self]
          · rw [Nat.sub_self]
            rfl
          · exact absurd ⟨hgoes.1, by omega⟩ h
    · rw [retryLoop_stops hgoes]
      refine ⟨k, ?_, ?_, ?_, fun h hlt => absurd ⟨h, by omega⟩ hgoes, fun _ => rfl⟩
      · by_cases hretried : r.Retried (attempts k)
        · obtain rfl : n = 0 := by
            have hlt : ¬k < r.totalAttempts - 1 := fun hlt => hgoes ⟨hretried, hlt⟩
            omega
          exact isLast_zero k
        · exact isLast_of_stops n fun h => hretried h.1
      · rw [Nat.sub_self]
      · rw [Nat.sub_self]
        rfl

theorem ainvokeRetrying_ends (r : RetryingRunnable ι) (backoff : Backoff)
    (attempts : ℕ → StagedAttempt) :
    ∃ last, Ends r backoff attempts 0 (r.totalAttempts - 1) last
      (r.ainvokeRetrying backoff attempts) := by
  obtain ⟨m, hm⟩ : ∃ m, r.totalAttempts = m + 1 := ⟨_, Nat.add_comm _ _⟩
  unfold ainvokeRetrying
  rw [List.range_eq_range', hm]
  exact retryLoop_range' m 0 (by omega)

/-- A failed dial is not retried. -/
theorem not_retried_of_dialFails {a : StagedAttempt} (h : a.DialFails) : ¬r.Retried a := by
  rintro ⟨e, honce, hretries⟩
  cases a with
  | reads t => exact h
  | stops stage e' =>
    obtain rfl : e' = e := by
      cases honce
      rfl
    have hcls : e'.cls = .other "PilotConnectionError" := by
      cases stage with
      | get => exact h.elim
      | resolve => exact h
      | dial => exact h
      | write => exact h.elim
    rw [CallError.retries, hcls] at hretries
    cases hretries

/-- The law holds of a call of `ainvoke` exactly if, as long as all attempts before were retried, no
attempt but the last of the budget fails by a `PilotConnectionError` while resolving or dialling,
and, with a float backoff, attempt 1024 is not to be retried. -/
theorem retry_law_iff (r : RetryingRunnable ι) (backoff : Backoff)
    (attempts : ℕ → StagedAttempt) :
    r.RetryLaw backoff attempts (r.ainvokeRetrying backoff attempts) ↔
      (∀ k, k + 1 < r.totalAttempts → (∀ j < k, r.Retried (attempts j)) →
        ¬(attempts k).DialFails) ∧
      ((∃ x, backoff = .float x) → 1025 < r.totalAttempts →
        ¬∀ j ≤ 1024, r.Retried (attempts j)) := by
  obtain ⟨last, h⟩ := ainvokeRetrying_ends r backoff attempts
  have hle := h.isLast.le
  have hbefore : ∀ j < last, GoesOn r backoff attempts j := fun j =>
    h.isLast.before j (Nat.zero_le j)
  rw [Nat.zero_add] at hle
  constructor
  · rintro ⟨last', hlast, hcount, houtcome, -⟩
    obtain rfl : last' = last := by
      have := h.count
      omega
    have hends : ¬(r.Retried (attempts last') ∧ last' < r.totalAttempts - 1) := by
      rintro ⟨⟨e, honce, hretries⟩, hlt⟩
      have hoverflow := h.overflow ⟨e, honce, hretries⟩ (by omega)
      rw [houtcome, honce] at hoverflow
      cases hoverflow
      cases hretries
    refine ⟨fun k hk hretried hdial => ?_, fun hfloat hbudget hretried => ?_⟩
    · rcases Nat.lt_trichotomy k last' with hlt | rfl | hlt
      · exact not_retried_of_dialFails hdial (hbefore k hlt).1
      · rcases hlast.stops with heq | hstops
        · omega
        · exact hstops (.inr hdial)
      · exact hends ⟨hretried last' hlt, by omega⟩
    · rcases Nat.lt_or_ge 1024 last' with hlt | hge
      · obtain ⟨-, d, hd⟩ := hbefore 1024 hlt
        rw [Backoff.delay_eq_none_iff.2 ⟨hfloat, Nat.le_refl _⟩] at hd
        cases hd
      · exact hends ⟨hretried last' hge, by omega⟩
  · rintro ⟨hdial, hfloat⟩
    have hends : ¬(r.Retried (attempts last) ∧ last < r.totalAttempts - 1) := by
      rintro ⟨hretried, hlt⟩
      cases hd : backoff.delay last with
      | some d =>
        rcases h.isLast.stops with heq | hstops
        · omega
        · exact hstops ⟨hretried, d, hd⟩
      | none =>
        obtain ⟨hx, hge⟩ := Backoff.delay_eq_none_iff.1 hd
        refine hfloat hx (by omega) fun j hj => ?_
        rcases Nat.lt_or_eq_of_le (Nat.le_trans hj hge) with hlt' | rfl
        · exact (hbefore j hlt').1
        · exact hretried
    refine ⟨last, ⟨Nat.zero_le _, h.isLast.le, fun j _ hj => .inl (hbefore j hj).1, ?_⟩, ?_, ?_, ?_⟩
    · rcases Nat.lt_or_eq_of_le hle with hlt | heq
      · refine .inr fun hfails => hfails.elim (fun hretried => hends ⟨hretried, hlt⟩) ?_
        exact hdial last (by omega) fun j hj => (hbefore j hj).1
      · exact .inl (by omega)
    · exact h.count
    · exact h.outcome fun hgoes => hends ⟨hgoes.1, by omega⟩
    · rw [h.sleeps, List.range_eq_range', Nat.sub_zero]

/-- The daemon refuses the first dial, every later attempt receives `"hi"`. -/
def refusedDial : ℕ → StagedAttempt
  | 0 => .stops .dial (.other "PilotConnectionError")
  | _ + 1 => .reads ⟨[[("ok", .bool true), ("result", .str "hi"), ("done", .bool true),
      ("_peer", .str "0:0000.0000.0001")]], .returned ()⟩

/-- With two retries `ainvoke` gives up after the refused dial. -/
theorem refused_dial_not_retried :
    ((echo 2).ainvokeRetrying (.float 1.5) refusedDial).outcome =
        .raised (.other "PilotConnectionError") ∧
      ((echo 2).ainvokeRetrying (.float 1.5) refusedDial).attempts = 1 ∧
      ¬(echo 2).RetryLaw (.float 1.5) refusedDial
        ((echo 2).ainvokeRetrying (.float 1.5) refusedDial) := by
  have hcount : ((echo 2).ainvokeRetrying (.float 1.5) refusedDial).attempts = 1 := rfl
  refine ⟨rfl, hcount, ?_⟩
  rintro ⟨last, hlast, hcount', -⟩
  obtain rfl : last = 0 := by omega
  rcases hlast.stops with heq | hstops
  · exact absurd heq (by decide)
  · exact hstops (.inr rfl)

/-- While the delays can be computed the loop is the one of `ainvoke` without the places. -/
theorem retryLoop_eq_invokeLoop (hsecs : r.retryBackoffSecs = backoff.secs)
    (hdelay : ∀ k, k + 1 < r.totalAttempts → ∃ d, backoff.delay k = some d) :
    ∀ rest : List ℕ, r.retryLoop backoff attempts rest =
      r.invokeLoop (fun k => (attempts k).attempt) rest
  | [] => rfl
  | k :: rest => by
    have ih := retryLoop_eq_invokeLoop hsecs hdelay rest
    by_cases hgoes : r.Retried (attempts k) ∧ k < r.totalAttempts - 1
    · obtain ⟨d, hd⟩ := hdelay k (by omega)
      obtain ⟨e, honce, hretries⟩ := hgoes.1
      rw [retryLoop_retried hgoes.1 hgoes.2, hd, invokeLoop, honce, hsecs, ← ih]
      simp only
      rw [if_pos ⟨hretries, hgoes.2⟩, Backoff.eq_of_delay hd]
    · rw [retryLoop_stops hgoes, invokeLoop]
      cases honce : r.once (attempts k).attempt with
      | returned v => rfl
      | waiting => rfl
      | raised e => exact (if_neg fun hretry => hgoes ⟨⟨e, honce, hretry.1⟩, hretry.2⟩).symm

end RetryingRunnable

end PilotLanggraph

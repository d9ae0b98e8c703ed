import PilotLanggraph.Lib.Machine
import PilotLanggraph.Retries

/-!
# The generator of `astream`

`astream` step by step : its consumer asks for the next value or throws into the generator, the
attempt hands out frames and ends, and the sleep after a failed attempt comes to its end. What is
observed of a run are its events, the attempts that begin and the values that are yielded.

`not_replayed` says of every run that the attempts come first, three at most, that the values come
after the last of them, and that they are results of that attempt. `exists_run_astream` finds
`RetryingRunnable.astream` among the runs.
-/

namespace PilotLanggraph

/-- What an attempt has still to hand out, and its end. -/
structure Remaining where
  frames : List Frame
  ending : CallOutcome Unit

/-- Where the generator is. -/
inductive StreamPhase
  /-- It has not been started. -/
  | created
  /-- In `async for frame in self._aframes(input)`. -/
  | receiving (rest : Remaining)
  /-- At `yield v`, with the frame that brought `v`. -/
  | yielding (f : Frame) (rest : Remaining)
  /-- In `drop_current()` and `asyncio.sleep(1.5)`. -/
  | sleeping
  | ended (outcome : CallOutcome Unit)

/-- The variables of `astream`. -/
structure Streaming where
  attempt : ℕ
  started : Bool
  chunks : List Json
  phase : StreamPhase

/-- What happens to the generator. -/
inductive StreamAction
  /-- Its consumer asks for a value. -/
  | next
  /-- The attempt goes on : a frame, or its end. -/
  | receive
  /-- An exception reaches the place where it is, from the consumer or by cancellation. -/
  | throw (e : CallError)
  /-- The sleep is over. -/
  | wake

/-- What is observed. -/
inductive StreamEvent
  | begins (attempt : ℕ)
  | yields (v : Json)
  deriving DecidableEq

/-- The attempt before its first frame. -/
def Attempt.remaining : Attempt → Remaining
  | .stops e => ⟨[], .raised e⟩
  | .reads t => ⟨t.frames, t.ending.toCall⟩

/-- The attempts, each before its first frame. -/
def Attempt.deliveries (remote : ℕ → Attempt) (k : ℕ) : Remaining :=
  (remote k).remaining

/-- The non-null results among frames, up to the final one. -/
def Frame.results : List Frame → List Json
  | [] => []
  | f :: fs => f.result?.toList ++ if f.done then [] else results fs

/-- The non-null results that an attempt delivers. -/
def Remaining.delivered (rest : Remaining) : List Json :=
  Frame.results rest.frames

namespace Streaming

/-- A generator that has not been started. -/
def init : Streaming :=
  ⟨0, false, [], .created⟩

variable (s : Streaming)

/-- The beginning of an attempt. -/
def begin (attempts : ℕ → Remaining) (attempt : ℕ) : Streaming :=
  { s with attempt := attempt, started := false
           phase := .receiving (attempts attempt) }

/-- The `except` clauses. -/
def fail (e : CallError) : Streaming :=
  if e.retries ∧ ¬(s.started ∨ s.attempt = 2) then { s with phase := .sleeping }
  else { s with phase := .ended (.raised e) }

/-- `chunks.append(v)` and `yield v`. -/
def suspend (v : Json) (f : Frame) (rest : Remaining) : Streaming :=
  { s with started := true, chunks := s.chunks ++ [v], phase := .yielding f rest }

/-- After the result of a frame : `if frame.get("done"): return`. -/
def proceed (f : Frame) (rest : Remaining) : Streaming :=
  { s with phase := if f.done then .ended (.returned ()) else .receiving rest }

end Streaming

namespace RetryingRunnable

variable {ι : Type} (r : RetryingRunnable ι)

/-- `_attempt_stream` goes on, with what the attempt has left. -/
def receive (s : Streaming) : Remaining → Option Streaming
  | ⟨[], .returned _⟩ => some { s with phase := .ended (.returned ()) }
  | ⟨[], .raised e⟩ => some (s.fail e)
  | ⟨[], .waiting⟩ => none
  | ⟨f :: fs, ending⟩ =>
    if f.isError then some (s.fail (.attempt (fromReply f (f.get "_peer") r.node)))
    else
      match f.result? with
      | some v => some (s.suspend v f ⟨fs, ending⟩)
      | none => some (s.proceed f ⟨fs, ending⟩)

variable (attempts : ℕ → Remaining)

/-- One step of the generator. -/
def streamStep (s : Streaming) (a : StreamAction) : Option Streaming :=
  match s.phase, a with
  | .created, .next => some (s.begin attempts 0)
  | .created, .throw e => some { s with phase := .ended (.raised e) }
  | .receiving rest, .receive => r.receive s rest
  | .receiving _, .throw e => some (s.fail e)
  | .yielding f rest, .next => some (s.proceed f rest)
  | .yielding _ _, .throw e => some (s.fail e)
  | .sleeping, .wake => some (s.begin attempts (s.attempt + 1))
  | .sleeping, .throw e => some { s with phase := .ended (.raised e) }
  | _, _ => none

/-- What is observed when the attempt goes on. -/
def received : List Frame → Option StreamEvent
  | [] => none
  | f :: _ => if f.isError then none else f.result?.map .yields

/-- What is observed of a step. -/
def streamEvent (s : Streaming) (a : StreamAction) : Option StreamEvent :=
  match s.phase, a with
  | .created, .next => some (.begins 0)
  | .sleeping, .wake => some (.begins (s.attempt + 1))
  | .receiving rest, .receive => received rest.frames
  | _, _ => none

/-- What is observed of a run. -/
def streamEvents (as : List StreamAction) : List StreamEvent :=
  Machine.outputs (r.streamStep attempts) streamEvent .init as

/-! ## What holds in a run -/

/-- The events so far, when attempt `s.attempt` runs and has `left` still to deliver. -/
structure Progress (attempts : ℕ → Remaining) (events : List StreamEvent) (s : Streaming)
    (left : List Json) : Prop where
  events_eq : events = (List.range (s.attempt + 1)).map .begins ++ s.chunks.map .yields
  attempt_le : s.attempt ≤ 2
  started_iff : s.started = true ↔ s.chunks ≠ []
  delivered : s.chunks ++ left = (attempts s.attempt).delivered

/-- The invariant, place by place. -/
def StreamInv (attempts : ℕ → Remaining) (events : List StreamEvent) (s : Streaming) : Prop :=
  match s.phase with
  | .created => events = [] ∧ s.chunks = []
  | .receiving rest => Progress attempts events s rest.delivered
  | .yielding f rest =>
    s.started = true ∧
      Progress attempts events s (if f.done then [] else rest.delivered)
  | .sleeping => s.chunks = [] ∧ s.attempt < 2 ∧ ∃ left, Progress attempts events s left
  | .ended outcome =>
    events = [] ∧ s.chunks = [] ∧ outcome ≠ .returned () ∨
      ∃ left, Progress attempts events s left ∧ (outcome = .returned () → left = [])

variable {r attempts} {events : List StreamEvent} {s : Streaming}

/-- The first attempt begins, or another one after attempts without a value. -/
theorem progress_begin {k : ℕ} (hevents : events = (List.range k).map .begins)
    (hchunks : s.chunks = []) (hk : k ≤ 2) :
    Progress attempts (events ++ [.begins k]) (s.begin attempts k)
      (attempts k).delivered where
  events_eq := by
    simp only [Streaming.begin, hevents, hchunks, List.range_succ, List.map_append, List.map_cons,
      List.map_nil, List.append_nil]
  attempt_le := hk
  started_iff := by simp [Streaming.begin, hchunks]
  delivered := by rw [Streaming.begin, hchunks, List.nil_append]

/-- The phase is none of the observed variables. -/
theorem Progress.with_phase {left : List Json} (h : Progress attempts events s left)
    (phase : StreamPhase) : Progress attempts events { s with phase := phase } left :=
  ⟨h.events_eq, h.attempt_le, h.started_iff, h.delivered⟩

theorem inv_fail {left : List Json} (h : Progress attempts events s left) (e : CallError) :
    StreamInv attempts events (s.fail e) := by
  unfold Streaming.fail
  split_ifs with hretry
  · obtain ⟨-, hretry⟩ := hretry
    have hstarted : ¬s.started = true := fun h => hretry (.inl h)
    have hle := h.attempt_le
    have hne : s.attempt ≠ 2 := fun h => hretry (.inr h)
    have hlt : s.attempt < 2 := by omega
    refine ⟨?_, hlt, left, h.with_phase _⟩
    by_contra hchunks
    exact hstarted (h.started_iff.2 hchunks)
  · exact .inr ⟨left, h.with_phase _, fun h => by cases h⟩

theorem inv_proceed {f : Frame} {rest : Remaining}
    (h : Progress attempts events s (if f.done then [] else rest.delivered)) :
    StreamInv attempts events (s.proceed f rest) := by
  cases hdone : f.done with
  | true =>
    rw [hdone] at h
    unfold Streaming.proceed
    rw [hdone]
    exact .inr ⟨[], h.with_phase _, fun _ => rfl⟩
  | false =>
    rw [hdone] at h
    unfold Streaming.proceed
    rw [hdone]
    exact h.with_phase _

theorem progress_suspend {v : Json} {left : List Json} (h : Progress attempts events s (v :: left))
    (f : Frame) (rest : Remaining) :
    Progress attempts (events ++ [.yields v]) (s.suspend v f rest) left where
  events_eq := by
    simp only [Streaming.suspend, h.events_eq, List.map_append, List.map_cons, List.map_nil,
      List.append_assoc]
  attempt_le := h.attempt_le
  started_iff := by simp [Streaming.suspend]
  delivered := by
    have hdelivered : s.chunks ++ [v] ++ left = (attempts s.attempt).delivered := by
      rw [← h.delivered, List.append_assoc, List.singleton_append]
    exact hdelivered

/-- The attempt goes on. -/
theorem inv_receive {s' : Streaming} {rest : Remaining}
    (h : Progress attempts events s rest.delivered)
    (hstep : r.receive s rest = some s') :
    StreamInv attempts (events ++ (received rest.frames).toList) s' := by
  obtain ⟨frames, ending⟩ := rest
  cases frames with
  | nil =>
    rw [received, Option.toList_none, List.append_nil]
    cases ending with
    | returned u =>
      obtain rfl := Option.some.inj hstep
      exact .inr ⟨[], h.with_phase _, fun _ => rfl⟩
    | raised e =>
      obtain rfl := Option.some.inj hstep
      exact inv_fail h e
    | waiting => cases hstep
  | cons f fs =>
    rw [receive] at hstep
    rw [received]
    by_cases herror : f.isError
    · rw [if_pos herror] at hstep
      obtain rfl := Option.some.inj hstep
      rw [if_pos herror, Option.toList_none, List.append_nil]
      exact inv_fail h _
    · rw [if_neg herror] at hstep
      rw [if_neg herror]
      rw [Remaining.delivered, Frame.results] at h
      cases hresult : f.result? with
      | none =>
        rw [hresult] at hstep h
        obtain rfl := Option.some.inj hstep
        rw [Option.map_none, Option.toList_none, List.append_nil]
        exact inv_proceed h
      | some v =>
        rw [hresult] at hstep h
        obtain rfl := Option.some.inj hstep
        exact ⟨rfl, progress_suspend h f _⟩

/-- The step lemma. -/
theorem inv_streamStep {s' : Streaming} {a : StreamAction} (h : StreamInv attempts events s)
    (hstep : r.streamStep attempts s a = some s') :
    StreamInv attempts (events ++ (streamEvent s a).toList) s' := by
  unfold streamStep at hstep
  unfold StreamInv at h
  unfold streamEvent
  cases hphase : s.phase with
  | created =>
    rw [hphase] at hstep h
    obtain ⟨hevents, hchunks⟩ := h
    cases a with
    | next =>
      obtain rfl := Option.some.inj hstep
      exact progress_begin hevents hchunks (by decide)
    | throw e =>
      obtain rfl := Option.some.inj hstep
      exact .inl ⟨(List.append_nil events).trans hevents, hchunks, fun h => by cases h⟩
    | receive => cases hstep
    | wake => cases hstep
  | receiving rest =>
    rw [hphase] at hstep h
    cases a with
    | receive => exact inv_receive h hstep
    | throw e =>
      obtain rfl := Option.some.inj hstep
      rw [Option.toList_none, List.append_nil]
      exact inv_fail h e
    | next => cases hstep
    | wake => cases hstep
  | yielding f rest =>
    rw [hphase] at hstep h
    cases a with
    | next =>
      obtain rfl := Option.some.inj hstep
      rw [Option.toList_none, List.append_nil]
      exact inv_proceed h.2
    | throw e =>
      obtain rfl := Option.some.inj hstep
      rw [Option.toList_none, List.append_nil]
      exact inv_fail h.2 e
    | receive => cases hstep
    | wake => cases hstep
  | sleeping =>
    rw [hphase] at hstep h
    obtain ⟨hchunks, hlt, left, hprogress⟩ := h
    cases a with
    | wake =>
      obtain rfl := Option.some.inj hstep
      have hevents := hprogress.events_eq
      rw [hchunks, List.map_nil, List.append_nil] at hevents
      exact progress_begin hevents hchunks (by omega)
    | throw e =>
      obtain rfl := Option.some.inj hstep
      rw [Option.toList_none, List.append_nil]
      exact .inr ⟨left, hprogress.with_phase _, fun h => by cases h⟩
    | next => cases hstep
    | receive => cases hstep
  | ended outcome =>
    rw [hphase] at hstep
    cases a <;> cases hstep

/-- The run lemma. -/
theorem inv_stream {as : List StreamAction}
    (hrun : Machine.run (r.streamStep attempts) .init as = some s) :
    StreamInv attempts (r.streamEvents attempts as) s := by
  have hinit : StreamInv attempts [] .init := ⟨rfl, rfl⟩
  refine Machine.run_induction (fun as s => StreamInv attempts (r.streamEvents attempts as) s)
    hinit (fun hrun h hstep => ?_) hrun
  rw [streamEvents, Machine.outputs_append hrun]
  exact inv_streamStep h hstep

/-- Either no attempt has begun, or one is in progress or was the last. -/
theorem StreamInv.none_or_progress (h : StreamInv attempts events s) :
    (events = [] ∧ s.chunks = [] ∧ s.phase ≠ .ended (.returned ())) ∨
      ∃ left, Progress attempts events s left ∧
        (s.phase = .ended (.returned ()) → left = []) := by
  unfold StreamInv at h
  cases hphase : s.phase with
  | created =>
    rw [hphase] at h
    exact .inl ⟨h.1, h.2, fun h => by cases h⟩
  | receiving rest =>
    rw [hphase] at h
    exact .inr ⟨_, h, fun h => by cases h⟩
  | yielding f rest =>
    rw [hphase] at h
    exact .inr ⟨_, h.2, fun h => by cases h⟩
  | sleeping =>
    rw [hphase] at h
    obtain ⟨-, -, left, h⟩ := h
    exact .inr ⟨left, h, fun h => by cases h⟩
  | ended outcome =>
    rw [hphase] at h
    rcases h with ⟨hevents, hchunks, hne⟩ | ⟨left, h, hleft⟩
    · exact .inl ⟨hevents, hchunks, fun h => hne (StreamPhase.ended.inj h)⟩
    · exact .inr ⟨left, h, fun h => hleft (StreamPhase.ended.inj h)⟩

/-- What the last of the attempts made delivers. -/
def lastDelivered (attempts : ℕ → Remaining) : ℕ → List Json
  | 0 => []
  | k + 1 => (attempts k).delivered

/-- In every run of `astream` the attempts begin one after the other, three at most, and all values
come after the last of them began. They are the first results that this attempt delivers, and all
of them once the generator has returned. -/
theorem not_replayed (r : RetryingRunnable ι) (attempts : ℕ → Remaining) {as : List StreamAction}
    {s : Streaming} (hrun : Machine.run (r.streamStep attempts) .init as = some s) :
    ∃ made ≤ 3,
      r.streamEvents attempts as = (List.range made).map .begins ++ s.chunks.map .yields ∧
      s.chunks <+: lastDelivered attempts made ∧
      (s.phase = .ended (.returned ()) → 0 < made ∧ s.chunks = lastDelivered attempts made) := by
  rcases (inv_stream hrun).none_or_progress with ⟨hevents, hchunks, hphase⟩ | ⟨left, h, hleft⟩
  · rw [hevents, hchunks]
    exact ⟨0, by decide, rfl, List.nil_prefix, fun h => absurd h hphase⟩
  · have hle := h.attempt_le
    refine ⟨s.attempt + 1, by omega, h.events_eq, ⟨left, h.delivered⟩, fun hphase => ?_⟩
    refine ⟨Nat.succ_pos _, ?_⟩
    rw [lastDelivered, ← h.delivered, hleft hphase, List.append_nil]

/-- The first stream is closed before any reply, and the second one delivers `"hi"`. -/
theorem not_replayed_coldTunnel :
    ∃ made ≤ 3, (echo 2).streamEvents (Attempt.deliveries coldTunnel)
        [.next, .receive, .wake, .receive, .next] =
        (List.range made).map .begins ++ [Json.str "hi"].map .yields ∧
      [Json.str "hi"] <+: lastDelivered (Attempt.deliveries coldTunnel) made ∧
      ((StreamPhase.ended (.returned ())) = .ended (.returned ()) →
        0 < made ∧ [Json.str "hi"] = lastDelivered (Attempt.deliveries coldTunnel) made) :=
  not_replayed (echo 2) (Attempt.deliveries coldTunnel)
    (s := ⟨1, true, [.str "hi"], .ended (.returned ())⟩) rfl

/-! ## The collected stream -/

open Attempt (deliveries)

variable {remote : ℕ → Attempt}

/-- The generator when an attempt has ended. -/
def settle (s : Streaming) : CallOutcome Unit → Streaming
  | .returned u => { s with phase := .ended (.returned u) }
  | .raised e => s.fail e
  | .waiting => { s with phase := .receiving ⟨[], .waiting⟩ }

/-- The generator when its consumer has taken some more values of the attempt. -/
def take (s : Streaming) (values : List Json) : Streaming :=
  { s with started := s.started || !values.isEmpty, chunks := s.chunks ++ values }

theorem take_nil (s : Streaming) : take s [] = s := by
  simp [take]

theorem take_append (s : Streaming) (vs ws : List Json) :
    take (take s vs) ws = take s (vs ++ ws) := by
  cases vs <;> simp [take, List.append_assoc]

/-- Where the generator was does not matter for the end of an attempt. -/
theorem settle_take_proceed (s : Streaming) (values : List Json) (f : Frame) (rest : Remaining) :
    ∀ outcome, settle (take (s.proceed f rest) values) outcome = settle (take s values) outcome
  | .returned _ => rfl
  | .raised _ => rfl
  | .waiting => rfl

theorem streamStep_receive (r : RetryingRunnable ι) (attempts : ℕ → Remaining)
    {rest : Remaining} (hphase : s.phase = .receiving rest) :
    r.streamStep attempts s .receive = r.receive s rest := by
  unfold streamStep
  rw [hphase]

/-- One attempt, with a consumer that takes every value. -/
theorem exists_run_receiving (ending : Outcome Unit) : ∀ (fs : List Frame) (s : Streaming),
    s.phase = .receiving ⟨fs, ending.toCall⟩ →
    ∃ as, Machine.run (r.streamStep attempts) s as =
      some (settle (take s (r.streamResults ending fs).1) (r.streamResults ending fs).2.toCall)
  | [], s, hphase => by
    have hreceive := streamStep_receive r attempts hphase
    rw [PilotRemoteRunnable.streamResults, take_nil]
    cases ending with
    | returned u => exact ⟨[.receive], Machine.run_of_step hreceive []⟩
    | raised e => exact ⟨[.receive], Machine.run_of_step hreceive []⟩
    | waiting =>
      refine ⟨[], congrArg some ?_⟩
      cases s
      cases hphase
      rfl
  | f :: fs, s, hphase => by
    have hreceive := streamStep_receive r attempts hphase
    rw [receive] at hreceive
    rw [PilotRemoteRunnable.streamResults]
    by_cases herror : f.isError
    · rw [if_pos herror] at hreceive
      rw [if_pos herror, take_nil]
      exact ⟨[.receive], Machine.run_of_step hreceive []⟩
    rw [if_neg herror] at hreceive
    rw [if_neg herror]
    -- The consumer has taken what the frame brought, and the generator looks at `done`.
    have hproceed : ∃ as, Machine.run (r.streamStep attempts) s as =
        some ((take s f.result?.toList).proceed f ⟨fs, ending.toCall⟩) := by
      cases hresult : f.result? with
      | none =>
        rw [hresult] at hreceive
        rw [Option.toList_none, take_nil]
        exact ⟨[.receive], Machine.run_of_step hreceive []⟩
      | some v =>
        rw [hresult] at hreceive
        refine ⟨[.receive, .next], (Machine.run_of_step hreceive _).trans ?_⟩
        refine (Machine.run_of_step rfl []).trans ?_
        simp [Machine.run, Streaming.suspend, Streaming.proceed, take]
    obtain ⟨as, has⟩ := hproceed
    by_cases hdone : f.done = true
    · rw [if_pos hdone]
      refine ⟨as, has.trans ?_⟩
      rw [Streaming.proceed, if_pos hdone]
      rfl
    · rw [if_neg hdone]
      obtain ⟨bs, hbs⟩ := exists_run_receiving ending fs
        ((take s f.result?.toList).proceed f ⟨fs, ending.toCall⟩)
        (by rw [Streaming.proceed, if_neg hdone])
      refine ⟨as ++ bs, ?_⟩
      rw [Machine.run_append, has, Option.bind_some, hbs, settle_take_proceed, take_append]

/-- The whole attempt. -/
theorem exists_run_attempt (r : RetryingRunnable ι) (remote : ℕ → Attempt) (s : Streaming) (k : ℕ) :
    ∃ as, Machine.run (r.streamStep (deliveries remote)) (s.begin (deliveries remote) k) as =
      some (settle (take (s.begin (deliveries remote) k) (r.attemptStream (remote k)).1)
        (r.attemptStream (remote k)).2) := by
  cases hattempt : remote k with
  | stops e =>
    refine ⟨[.receive], Machine.run_of_step ?_ []⟩
    have hphase : (s.begin (deliveries remote) k).phase = .receiving ⟨[], .raised e⟩ :=
      congrArg (fun a : Attempt => StreamPhase.receiving a.remaining) hattempt
    rw [streamStep_receive r _ hphase, attemptStream, take_nil]
    rfl
  | reads t =>
    refine exists_run_receiving t.ending t.frames _ ?_
    exact congrArg (fun a : Attempt => StreamPhase.receiving a.remaining) hattempt

/-- How the generator ends when no attempt is retried any more. -/
def Finished (run : StreamRun) (k : ℕ) (s : Streaming) : Prop :=
  s.chunks = run.chunks ∧ s.attempt + 1 = k + run.attempts ∧
    s.phase = match run.outcome with
      | .waiting => .receiving ⟨[], .waiting⟩
      | outcome => .ended outcome

/-- Whether a failure is retried, in terms of what the attempt has yielded. -/
theorem fail_take_begin (s : Streaming) (k : ℕ) (values : List Json) (e : CallError) :
    (take (s.begin attempts k) values).fail e =
      if e.retries ∧ ¬(values ≠ [] ∨ k = 2) then
        { take (s.begin attempts k) values with phase := .sleeping }
      else { take (s.begin attempts k) values with phase := .ended (.raised e) } := by
  have hstarted : (take (s.begin attempts k) values).started = true ↔ values ≠ [] := by
    cases values <;> simp [take, Streaming.begin]
  exact if_congr (and_congr_right' (not_congr (or_congr_left hstarted))) rfl rfl

/-- The loop, by induction on the attempts that are left. -/
theorem exists_run_streamLoop (r : RetryingRunnable ι) (remote : ℕ → Attempt) :
    ∀ (n k : ℕ), k + n = 2 → ∀ s : Streaming, s.chunks = [] →
    ∃ as s', Machine.run (r.streamStep (deliveries remote)) (s.begin (deliveries remote) k) as =
        some s' ∧
      Finished (r.streamLoop remote (List.range' k (n + 1))) k s'
  | n, k, hk, s, hchunks => by
    obtain ⟨as, has⟩ := exists_run_attempt r remote s k
    rw [List.range'_succ, streamLoop]
    generalize r.attemptStream (remote k) = stream at has ⊢
    obtain ⟨values, outcome⟩ := stream
    have htaken : (take (s.begin (deliveries remote) k) values).chunks = values := by
      rw [take, Streaming.begin, hchunks, List.nil_append]
    cases outcome with
    | returned u => exact ⟨as, _, has, htaken, rfl, rfl⟩
    | waiting => exact ⟨as, _, has, htaken, rfl, rfl⟩
    | raised e =>
      simp only [settle] at has
      rw [fail_take_begin] at has
      simp only
      by_cases hretry : e.retries ∧ ¬(values ≠ [] ∨ k = 2)
      · rw [if_pos hretry] at has
        rw [if_pos hretry]
        obtain ⟨-, hretry⟩ := hretry
        cases n with
        | zero => exact absurd (.inr (by omega)) hretry
        | succ n =>
          have hvalues : values = [] := by
            by_contra hvalues
            exact hretry (.inl hvalues)
          obtain ⟨bs, s', hbs, hend, hcount, hphase⟩ := exists_run_streamLoop r remote n (k + 1)
            (by omega)
            { take (s.begin (deliveries remote) k) values with phase := .sleeping }
            (htaken.trans hvalues)
          refine ⟨as ++ .wake :: bs, s', ?_, hend, ?_, hphase⟩
          · rw [Machine.run_append, has, Option.bind_some, ← hbs]
            exact Machine.run_of_step rfl bs
          · rw [hcount, StreamRun.retried]
            exact Nat.add_right_comm k 1 _
      · rw [if_neg hretry] at has
        rw [if_neg hretry]
        exact ⟨as, _, has, htaken, rfl, rfl⟩

/-- A consumer that takes every value, and whom nothing interrupts, sees what
`RetryingRunnable.astream` says. -/
theorem exists_run_astream (r : RetryingRunnable ι) (remote : ℕ → Attempt) (input : ι) :
    ∃ as s, Machine.run (r.streamStep (deliveries remote)) .init as = some s ∧
      Finished (r.astream input fun _ => remote) 0 s := by
  obtain ⟨as, s, has, h⟩ := exists_run_streamLoop r remote 2 0 rfl .init rfl
  refine ⟨.next :: as, s, (Machine.run_of_step rfl as).trans has, ?_⟩
  unfold astream
  rw [List.range_eq_range']
  exact h

end RetryingRunnable

end PilotLanggraph

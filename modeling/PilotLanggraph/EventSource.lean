import Mathlib.Data.Int.Notation
import PilotLanggraph.EventLimits

/-!
# Events as a stream of values

`PilotEventSource` (`channel.py`) is a runnable whose `astream` is fed by a subscription : it
yields `topic` and `payload` of each event that its channel receives, the payload decoded as text,
up to `max_events`. The generator is followed from one pull of its consumer to the next.

* `events_streamed` : what publishers write is what the generator yields, however the bytes are
  cut and wherever they end, and when it stops its channel is closed.
-/

namespace PilotLanggraph

open Ipc

/-- The text that is read from a payload. -/
def Payload.text : Payload → String
  | .bytes payload => Utf8.decode payload
  | .str payload => payload

/-- What a pull of the generator comes to. -/
inductive Pulled
  | item (topic payload : String)
  | stopAsyncIteration
  | raised (why : Received)
  /-- It waits for a read. -/
  | waiting
  deriving DecidableEq

/-- The pull ends the generator. -/
def Pulled.Ends : Pulled → Prop
  | .stopAsyncIteration | .raised _ => True
  | .item .. | .waiting => False

/-- Where the generator of `astream` is suspended. -/
inductive EventSourcePhase
  | created
  /-- In `__anext__` of the channel, after `n` events, -/
  | pulling (n : ℕ)
  /-- and at the `yield` of the next one. -/
  | yielded (n : ℕ)
  | finished

/-- The generator, and the channel that it has opened. -/
structure PilotEventSource where
  phase : EventSourcePhase
  /-- `ch._buf`. -/
  buf : Bytes
  /-- How the reads to come end. -/
  reads : List StreamRead
  /-- The channel and its connection are closed. -/
  closed : Bool

namespace PilotEventSource

/-- `astream` has been called. -/
def init (reads : List StreamRead) : PilotEventSource :=
  ⟨.created, [], reads, false⟩

/-- The generator has ended, and `async with` closes the channel. -/
def finish (buf : Bytes) (reads : List StreamRead) : PilotEventSource :=
  ⟨.finished, buf, reads, true⟩

/-- The value of an event. -/
def itemOf (ev : Event) : Pulled :=
  .item ev.topic (Utf8.decode ev.payload)

/-- `__anext__` of the channel, after `n` events. The end of the stream ends the loop. -/
def pull (n : ℕ) (s : PilotEventSource) : Pulled × PilotEventSource :=
  match PilotChannel.recv s.buf s.reads with
  | (.event ev, buf, reads) => (itemOf ev, ⟨.yielded n, buf, reads, false⟩)
  | (.waiting, buf, reads) => (.waiting, ⟨.pulling n, buf, reads, false⟩)
  | (.eofError, buf, reads) => (.stopAsyncIteration, finish buf reads)
  | (why, buf, reads) => (.raised why, finish buf reads)

/-- A pull of the generator. The first one subscribes. -/
def anext (topic : String) (maxEvents : Option ℤ) (s : PilotEventSource) :
    Pulled × PilotEventSource :=
  match s.phase with
  | .created =>
    if (encodeEvent ⟨topic, []⟩).isSome then pull 0 s
    else (.raised .structError, finish s.buf s.reads)
  | .pulling n => pull n s
  | .yielded n =>
    if maxEvents.any (· ≤ (n : ℤ) + 1) then (.stopAsyncIteration, finish s.buf s.reads)
    else pull (n + 1) s
  | .finished => (.stopAsyncIteration, s)

/-- `k` pulls. -/
def pulls (topic : String) (maxEvents : Option ℤ) : ℕ → PilotEventSource →
    List Pulled × PilotEventSource
  | 0, s => ([], s)
  | k + 1, s =>
    let (pulled, s) := anext topic maxEvents s
    let (others, s) := pulls topic maxEvents k s
    (pulled :: others, s)

/-- `ainvoke`, on the channel it has opened. -/
def ainvoke (reads : List StreamRead) : Pulled :=
  match (PilotChannel.recv [] reads).1 with
  | .event ev => itemOf ev
  | .waiting => .waiting
  | why => .raised why

/-! ## What the pulls come to -/

/-- How many more events are yielded after `n`. -/
def room (maxEvents : Option ℤ) (n : ℕ) : Option ℕ :=
  maxEvents.map fun m => (max m ((n : ℤ) + 1) - n).toNat

/-- At most so many of a list. -/
def capped {α : Type*} (room : Option ℕ) (items : List α) : List α :=
  match room with
  | none => items
  | some l => items.take l

/-- How a stream goes on after its last chunk. -/
inductive StreamEnd
  /-- Nothing more has arrived. -/
  | quiet
  | eof
  | timedOut

/-- The last read, -/
def StreamEnd.reads : StreamEnd → List StreamRead
  | quiet => []
  | eof => [.data []]
  | timedOut => [.timedOut]

/-- and what `recv` makes of it. -/
def StreamEnd.received : StreamEnd → List Received
  | quiet => []
  | eof => [.eofError]
  | timedOut => [.timeoutError]

/-- What the pulls come to when no event is left, or no room. -/
def ending (full : Bool) (tail : StreamEnd) (k : ℕ) : List Pulled :=
  if full then List.replicate k .stopAsyncIteration
  else
    match tail with
    | .quiet => List.replicate k .waiting
    | .eof => List.replicate k .stopAsyncIteration
    | .timedOut => .raised .timeoutError :: List.replicate k .stopAsyncIteration

section

variable {topic : String} {maxEvents : Option ℤ} {s : PilotEventSource}

theorem pulls_succ (k : ℕ) (s : PilotEventSource) : (pulls topic maxEvents (k + 1) s).1 =
    (anext topic maxEvents s).1 :: (pulls topic maxEvents k (anext topic maxEvents s).2).1 :=
  rfl

/-- A generator that has ended stays so. -/
theorem pulls_finished (h : s.phase = .finished) : ∀ k,
    (pulls topic maxEvents k s).1 = List.replicate k .stopAsyncIteration
  | 0 => rfl
  | k + 1 => by
    have hnext : anext topic maxEvents s = (.stopAsyncIteration, s) := by
      rw [anext, h]
    rw [pulls_succ, hnext, pulls_finished h k, List.replicate_succ]

/-- After the check, the generator pulls. -/
theorem pulls_yielded {n : ℕ} {buf : Bytes} {reads : List StreamRead} (k : ℕ)
    (hroom : maxEvents.any (· ≤ (n : ℤ) + 1) = false) :
    (pulls topic maxEvents k ⟨.yielded n, buf, reads, false⟩).1 =
      (pulls topic maxEvents k ⟨.pulling (n + 1), buf, reads, false⟩).1 := by
  cases k with
  | zero => rfl
  | succ k =>
    have hnext : anext topic maxEvents ⟨.yielded n, buf, reads, false⟩ =
        anext topic maxEvents ⟨.pulling (n + 1), buf, reads, false⟩ := by
      rw [anext, anext]
      simp only [hroom]
      rfl
    rw [pulls_succ, pulls_succ, hnext]

theorem room_pos (n : ℕ) : (room maxEvents n).any (· ≤ 0) = false := by
  cases maxEvents with
  | none => rfl
  | some m =>
    simp only [room, Option.map_some, Option.any_some, decide_eq_false_iff_not]
    omega

/-- The last event for which there is room. -/
theorem room_of_le {n : ℕ} (h : maxEvents.any (· ≤ (n : ℤ) + 1) = true) :
    room maxEvents n = some 1 := by
  cases maxEvents with
  | none => cases h
  | some m =>
    simp only [Option.any_some, decide_eq_true_eq] at h
    simp only [room, Option.map_some, Option.some.injEq]
    omega

theorem room_succ {n : ℕ} (h : maxEvents.any (· ≤ (n : ℤ) + 1) = false) :
    room maxEvents n = (room maxEvents (n + 1)).map Nat.succ := by
  cases maxEvents with
  | none => rfl
  | some m =>
    simp only [Option.any_some, decide_eq_false_iff_not] at h
    simp only [room, Option.map_some, Option.some.injEq]
    omega

theorem anext_pulling {n : ℕ} {buf buf' : Bytes} {reads reads' : List StreamRead}
    {received : Received} (h : PilotChannel.recv buf reads = (received, buf', reads')) :
    anext topic maxEvents ⟨.pulling n, buf, reads, false⟩ =
      match received with
      | .event ev => (itemOf ev, ⟨.yielded n, buf', reads', false⟩)
      | .waiting => (.waiting, ⟨.pulling n, buf', reads', false⟩)
      | .eofError => (.stopAsyncIteration, finish buf' reads')
      | why => (.raised why, finish buf' reads') := by
  rw [anext]
  simp only [pull, h]
  cases received <;> rfl

/-- A generator that has yielded its last event stops. -/
theorem pulls_full {n : ℕ} {buf : Bytes} {reads : List StreamRead}
    (hroom : maxEvents.any (· ≤ (n : ℤ) + 1) = true) (k : ℕ) :
    (pulls topic maxEvents k ⟨.yielded n, buf, reads, false⟩).1 =
      List.replicate k .stopAsyncIteration := by
  cases k with
  | zero => rfl
  | succ k =>
    have hnext : anext topic maxEvents ⟨.yielded n, buf, reads, false⟩ =
        (.stopAsyncIteration, finish buf reads) := by
      rw [anext]
      simp only [hroom]
      rfl
    rw [pulls_succ, hnext, pulls_finished rfl, List.replicate_succ]

theorem take_ending (full : Bool) (tail : StreamEnd) {j k : ℕ} (h : j ≤ k) :
    (ending full tail (k + 1)).take j = (ending full tail k).take j := by
  have hreplicate (x : Pulled) :
      (List.replicate (k + 1) x).take j = (List.replicate k x).take j := by
    rw [List.take_replicate, List.take_replicate, Nat.min_eq_left h,
      Nat.min_eq_left (Nat.le_succ_of_le h)]
  unfold ending
  split_ifs
  · exact hreplicate _
  · split
    · exact hreplicate _
    · exact hreplicate _
    · cases j with
      | zero => rfl
      | succ j =>
        rw [List.take_succ_cons, List.take_succ_cons, List.take_replicate, List.take_replicate,
          Nat.min_eq_left (by omega), Nat.min_eq_left (by omega)]

/-- From a pull after `n` events on. -/
theorem pulls_pulling {evs : List Event} {tail : StreamEnd} {left buf : Bytes}
    {reads : List StreamRead} (k n : ℕ)
    (h : PilotChannel.Pending buf reads (evs.map .event ++ tail.received) left) :
    (pulls topic maxEvents k ⟨.pulling n, buf, reads, false⟩).1 =
      (capped (room maxEvents n) (evs.map itemOf) ++
        ending ((room maxEvents n).any (· ≤ evs.length)) tail k).take k := by
  induction k generalizing n evs buf reads with
  | zero => rfl
  | succ k ih =>
    obtain ⟨hrecv, hnext⟩ := PilotChannel.recv_pending h
    rcases hr : PilotChannel.recv buf reads with ⟨received, buf', reads'⟩
    rw [hr] at hrecv hnext
    rw [pulls_succ, anext_pulling hr]
    cases evs with
    | nil =>
      have hcapped : capped (room maxEvents n) ([] : List Pulled) = [] := by
        cases room maxEvents n <;> simp [capped]
      simp only [List.map_nil, List.nil_append, List.length_nil, room_pos, hcapped]
      cases tail with
      | quiet =>
        obtain rfl : received = .waiting := hrecv
        have hrest := ih n
          (show PilotChannel.Pending buf' reads'
            (([] : List Event).map .event ++ StreamEnd.quiet.received) left from hnext)
        simp only [List.map_nil, List.length_nil, room_pos, hcapped, List.nil_append] at hrest
        simp only [hrest, ending, Bool.false_eq_true, if_false, List.replicate_succ,
          List.take_succ_cons, List.take_replicate, Nat.min_self]
      | eof =>
        obtain rfl : received = .eofError := hrecv
        simp only [pulls_finished (s := finish buf' reads') rfl, ending, Bool.false_eq_true,
          if_false, List.replicate_succ, List.take_succ_cons, List.take_replicate, Nat.min_self]
      | timedOut =>
        obtain rfl : received = .timeoutError := hrecv
        simp only [pulls_finished (s := finish buf' reads') rfl, ending, Bool.false_eq_true,
          if_false, List.take_succ_cons, List.take_replicate, Nat.min_eq_left (Nat.le_succ k)]
    | cons ev evs =>
      obtain rfl : received = .event ev := hrecv
      cases hroom : maxEvents.any (· ≤ (n : ℤ) + 1) with
      | true =>
        have hfull : (1 : ℕ) ≤ (ev :: evs).length := Nat.le_add_left 1 _
        simp only [pulls_full hroom, room_of_le hroom, capped, List.map_cons, List.take_succ_cons,
          List.take_zero, List.cons_append, List.nil_append, Option.any_some, hfull, decide_true,
          ending, if_true, List.take_replicate, Nat.min_eq_left (Nat.le_succ k)]
      | false =>
        have hcapped : capped (room maxEvents n) ((ev :: evs).map itemOf) =
            itemOf ev :: capped (room maxEvents (n + 1)) (evs.map itemOf) := by
          rw [room_succ hroom]
          cases room maxEvents (n + 1) <;> rfl
        have hfull : (room maxEvents n).any (· ≤ (ev :: evs).length) =
            (room maxEvents (n + 1)).any (· ≤ evs.length) := by
          rw [room_succ hroom]
          cases room maxEvents (n + 1) <;> simp
        rw [hcapped, hfull, pulls_yielded k hroom, ih (n + 1) hnext, List.cons_append,
          List.take_succ_cons, List.take_append, List.take_append,
          take_ending _ _ (Nat.sub_le k _)]

/-! ## When the channel is closed -/

/-- The channel is open as long as the generator has not ended. -/
def Tidy (s : PilotEventSource) : Prop :=
  s.closed = true ↔ s.phase = .finished

theorem pull_tidy (n : ℕ) (s : PilotEventSource) :
    (pull n s).2.Tidy ∧ ((pull n s).2.closed = true ↔ (pull n s).1.Ends) := by
  rcases h : PilotChannel.recv s.buf s.reads with ⟨received, buf, reads⟩
  cases received <;> simp [pull, h, finish, itemOf, Tidy, Pulled.Ends]

theorem anext_tidy (h : s.Tidy) : (anext topic maxEvents s).2.Tidy ∧
    ((anext topic maxEvents s).2.closed = true ↔ (anext topic maxEvents s).1.Ends) := by
  have hfinish (x : Pulled) (hx : x.Ends) : (x, finish s.buf s.reads).2.Tidy ∧
      ((x, finish s.buf s.reads).2.closed = true ↔ (x, finish s.buf s.reads).1.Ends) :=
    ⟨iff_of_true rfl rfl, iff_of_true rfl hx⟩
  unfold anext
  cases hphase : s.phase with
  | created =>
    simp only
    split_ifs
    · exact pull_tidy 0 s
    · exact hfinish _ trivial
  | pulling n => exact pull_tidy n s
  | yielded n =>
    simp only
    split_ifs
    · exact hfinish _ trivial
    · exact pull_tidy (n + 1) s
  | finished => exact ⟨h, iff_of_true (h.2 hphase) trivial⟩

theorem closed_pulls (k : ℕ) (h : s.Tidy) : (pulls topic maxEvents k s).2.closed = true ↔
    s.closed = true ∨ ∃ x ∈ (pulls topic maxEvents k s).1, x.Ends := by
  induction k generalizing s with
  | zero => simp [pulls]
  | succ k ih =>
    obtain ⟨htidy, hends⟩ := @anext_tidy topic maxEvents s h
    have hstays : s.closed = true → (anext topic maxEvents s).1.Ends := by
      intro hclosed
      rw [anext, h.1 hclosed]
      trivial
    have hrest := ih htidy
    rw [hends] at hrest
    rw [pulls_succ, List.exists_mem_cons_iff]
    exact hrest.trans ⟨Or.inr, fun h => h.elim (fun hclosed => Or.inl (hstays hclosed)) id⟩

/-! ## From the publishers to the generator -/

/-- What calls of `publish` write. -/
def publishes : List (String × Payload) → Option Bytes
  | [] => some []
  | m :: ms => (PilotPublisher.publish m.1 m.2).bind fun b => (publishes ms).map (b ++ ·)

/-- The event of a message, -/
def eventOf (m : String × Payload) : Event :=
  ⟨m.1, m.2.encode⟩

/-- and the item that it becomes. -/
theorem itemOf_eventOf (m : String × Payload) : itemOf (eventOf m) = .item m.1 m.2.text := by
  obtain ⟨topic, payload | payload⟩ := m
  · rfl
  · rw [itemOf, eventOf, Payload.encode, Utf8.decode_encode, Payload.text]

theorem publishes_eq : ∀ ms, publishes ms = encodeEvents (ms.map eventOf)
  | [] => rfl
  | m :: ms => by
    rw [publishes, publishes_eq ms]
    rfl

theorem publishes_append {written : Bytes} : ∀ {ms ns : List (String × Payload)},
    publishes (ms ++ ns) = some written → ∃ w v, publishes ms = some w ∧ written = w ++ v
  | [], _, _ => ⟨[], written, rfl, rfl⟩
  | m :: ms, ns, h => by
    obtain ⟨b, hb, h⟩ := Option.bind_eq_some_iff.1 h
    obtain ⟨x, hx, rfl⟩ := Option.map_eq_some_iff.1 h
    obtain ⟨w, v, hw, rfl⟩ := publishes_append hx
    exact ⟨b ++ w, v, by rw [publishes, hb, Option.bind_some, hw, Option.map_some],
      (List.append_assoc ..).symm⟩

/-- Messages within the limits are read back, whatever follows. -/
theorem split_publishes {ms : List (String × Payload)} {written : Bytes}
    (hfits : ∀ m ∈ ms, (eventOf m).Fits) (h : publishes ms = some written) (rest : Bytes) :
    splitEvents (written ++ rest) =
      (splitEvents rest).map fun r => (ms.map eventOf ++ r.1, r.2) := by
  rw [publishes_eq] at h
  refine splitEvents_encodeEvents (fun ev hev => ?_) h rest
  obtain ⟨m, hm, rfl⟩ := List.mem_map.1 hev
  exact hfits m hm

theorem split_written {ms : List (String × Payload)} {written : Bytes}
    (hfits : ∀ m ∈ ms, (eventOf m).Fits) (h : publishes ms = some written) :
    splitEvents written = .ok (ms.map eventOf, []) := by
  have hsplit := split_publishes hfits h []
  rw [List.append_nil, show splitEvents [] = .ok ([], []) from rfl] at hsplit
  simpa [Except.map] using hsplit

/-- The first `m` messages have arrived whole, and no more. -/
def Arrived (messages : List (String × Payload)) (arrived : Bytes) (m : ℕ) : Prop :=
  m ≤ messages.length ∧ ∀ j ≤ messages.length, ∀ written,
    publishes (messages.take j) = some written → (written <+: arrived ↔ j ≤ m)

theorem exists_arrived {messages : List (String × Payload)} {written arrived rest : Bytes}
    (hfits : ∀ m ∈ messages, (eventOf m).Fits) (hwritten : publishes messages = some written)
    (hcut : arrived ++ rest = written) : ∃ m left, Arrived messages arrived m ∧
      splitEvents arrived = .ok ((messages.take m).map eventOf, left) := by
  have hall := split_written hfits hwritten
  rw [← hcut] at hall
  obtain ⟨⟨evs, left⟩, harrived, es, -, hes⟩ := Decoder.split_of_append hall
  have htake : evs = (messages.take evs.length).map eventOf := by
    rw [List.map_take, show messages.map eventOf = evs ++ es from hes, List.take_left]
  have hle : evs.length ≤ messages.length := by
    have hlength := congrArg List.length (show messages.map eventOf = evs ++ es from hes)
    rw [List.length_map, List.length_append] at hlength
    omega
  refine ⟨evs.length, left, ⟨hle, fun j hj w hw => ?_⟩, ?_⟩
  · have hfitsj : ∀ m ∈ messages.take j, (eventOf m).Fits := fun m hm =>
      hfits m (List.mem_of_mem_take hm)
    have hlengthj : ((messages.take j).map eventOf).length = j := by
      rw [List.length_map, List.length_take, Nat.min_eq_left hj]
    constructor
    · rintro ⟨z, rfl⟩
      have hsplit : splitEvents (w ++ z) = .ok (evs, left) := harrived
      rw [split_publishes hfitsj hw] at hsplit
      cases hz : splitEvents z with
      | error e =>
        rw [hz] at hsplit
        cases hsplit
      | ok r =>
        rw [hz] at hsplit
        obtain ⟨rfl, -⟩ := Prod.mk.inj (Except.ok.inj hsplit)
        rw [List.length_append, hlengthj]
        exact Nat.le_add_right _ _
    · intro hjm
      rw [← List.take_append_drop j messages] at hwritten
      obtain ⟨w', v, hw', hwv⟩ := publishes_append hwritten
      obtain rfl := Option.some.inj (hw.symm.trans hw')
      have hprefix : arrived <+: w ++ v := ⟨rest, hcut.trans hwv⟩
      rcases List.prefix_or_prefix_of_prefix (List.prefix_append w v) hprefix with h | ⟨y, rfl⟩
      · exact h
      · -- What arrived is a start of these messages, and already decodes to as many.
        have hsplit := split_written hfitsj hw
        obtain ⟨r, hr, es', hmore, hes'⟩ := Decoder.split_of_append hsplit
        obtain rfl : (evs, left) = r := Except.ok.inj (harrived.symm.trans hr)
        have hlength := congrArg List.length hes'
        rw [hlengthj, List.length_append] at hlength
        obtain rfl : es' = [] := List.eq_nil_of_length_eq_zero (by simp only at hlength; omega)
        have hnil := Decoder.eq_of_split_nil hmore
        have hy : y = [] := (List.append_eq_nil_iff.1 hnil.symm).2
        exact ⟨[], by rw [hy, List.append_nil, List.append_nil]⟩
  · rw [← htake]
    exact harrived

theorem replay_chunks {cs : List Bytes} {rest left : Bytes} {evs : List Event}
    (hne : ∀ chunk ∈ cs, chunk ≠ []) (hrest : splitEvents rest = .ok ([], rest))
    (h : splitEvents (rest ++ cs.flatten) = .ok (evs, left)) (reads : List StreamRead) :
    PilotChannel.replay rest (cs.map .data ++ reads) =
      evs.map .event ++ PilotChannel.replay left reads := by
  induction cs generalizing rest evs with
  | nil =>
    rw [List.flatten_nil, List.append_nil, hrest] at h
    obtain ⟨rfl, rfl⟩ := Prod.mk.inj (Except.ok.inj h)
    rfl
  | cons chunk cs ih =>
    obtain ⟨hchunk, hnes⟩ := List.forall_mem_cons.1 hne
    obtain ⟨b, chunk, rfl⟩ := List.exists_cons_of_ne_nil hchunk
    obtain ⟨evs₁, rest', es', hsplit, hmore, rfl, hrest'⟩ := PilotChannel.split_chunk h
    rw [List.map_cons, List.cons_append, PilotChannel.replay, hsplit]
    simp only
    rw [ih hnes hrest' hmore, List.map_append, List.append_assoc]

/-- The calls of `recv` come to the events that have arrived, and then to the end. -/
theorem pending_start {cs : List Bytes} {evs : List Event} {left : Bytes} (tail : StreamEnd)
    (hne : ∀ chunk ∈ cs, chunk ≠ []) (h : splitEvents cs.flatten = .ok (evs, left))
    (hfits : ∀ ev ∈ evs, ev.Fits) : PilotChannel.Pending [] (cs.map .data ++ tail.reads)
      (evs.map .event ++ tail.received) left := by
  have hnil : splitEvents [] = .ok ([], []) := rfl
  have hflat : (chunks (cs.map .data ++ tail.reads)).flatten = cs.flatten := by
    rw [PilotChannel.chunks_map_data]
    cases tail <;> simp [StreamEnd.reads, chunks]
  have hwhole : splitEvents ([] ++ (chunks (cs.map .data ++ tail.reads)).flatten) =
      .ok (evs, left) := by
    rw [List.nil_append, hflat, h]
  refine ⟨[], [], evs, PilotChannel.holds_nil hnil, hwhole,
    PilotChannel.clear_of_fits hwhole hfits, ?_⟩
  rw [List.map_nil, List.nil_append, replay_chunks hne hnil h]
  cases tail <;> rfl

/-- What publishers write within the limits, cut in any way and arrived up to any byte : the
generator yields topic and payload of the messages that have arrived whole, in order and each
once, up to `max_events` (at least one), and then comes to the end of the stream or waits. Its
channel is closed exactly when a pull has ended it. `ainvoke` is the first of these. -/
theorem events_streamed {topic : String} {maxEvents : Option ℤ}
    {messages : List (String × Payload)} {written rest : Bytes} {cs : List Bytes}
    (htopic : (encodeEvent ⟨topic, []⟩).isSome) (hfits : ∀ m ∈ messages, (eventOf m).Fits)
    (hwritten : publishes messages = some written) (hne : ∀ chunk ∈ cs, chunk ≠ [])
    (hcut : cs.flatten ++ rest = written) (tail : StreamEnd) :
    ∃ m, Arrived messages cs.flatten m ∧
      (∀ k, (pulls topic maxEvents k (init (cs.map .data ++ tail.reads))).1 =
        (capped (maxEvents.map fun n => (max n 1).toNat)
          ((messages.take m).map fun x => Pulled.item x.1 x.2.text) ++
          ending ((maxEvents.map fun n => (max n 1).toNat).any (· ≤ m)) tail k).take k) ∧
      (∀ k, (pulls topic maxEvents k (init (cs.map .data ++ tail.reads))).2.closed = true ↔
        ∃ x ∈ (pulls topic maxEvents k (init (cs.map .data ++ tail.reads))).1, x.Ends) ∧
      ainvoke (cs.map .data ++ tail.reads) =
        match (messages.take m).head?, tail with
        | some x, _ => .item x.1 x.2.text
        | none, .quiet => .waiting
        | none, .eof => .raised .eofError
        | none, .timedOut => .raised .timeoutError := by
  obtain ⟨m, left, harrived, hsplit⟩ := exists_arrived hfits hwritten hcut
  have hevs : ∀ ev ∈ (messages.take m).map eventOf, ev.Fits := by
    intro ev hev
    obtain ⟨x, hx, rfl⟩ := List.mem_map.1 hev
    exact hfits x (List.mem_of_mem_take hx)
  have hpending := pending_start tail hne hsplit hevs
  have hlength : ((messages.take m).map eventOf).length = m := by
    rw [List.length_map, List.length_take, Nat.min_eq_left harrived.1]
  have hroom : room maxEvents 0 = maxEvents.map fun n => (max n 1).toNat := by
    cases maxEvents <;> simp [room]
  refine ⟨m, harrived, fun k => ?_, fun k => ?_, ?_⟩
  · have hstart : (pulls topic maxEvents k (init (cs.map .data ++ tail.reads))).1 =
        (pulls topic maxEvents k ⟨.pulling 0, [], cs.map .data ++ tail.reads, false⟩).1 := by
      cases k with
      | zero => rfl
      | succ k =>
        have hnext : anext topic maxEvents (init (cs.map .data ++ tail.reads)) =
            anext topic maxEvents ⟨.pulling 0, [], cs.map .data ++ tail.reads, false⟩ := by
          rw [anext, anext]
          simp only [init, htopic, if_true]
          rfl
        rw [pulls_succ, pulls_succ, hnext]
    have hitems : ((messages.take m).map eventOf).map itemOf =
        (messages.take m).map fun x => Pulled.item x.1 x.2.text := by
      rw [List.map_map]
      exact List.map_congr_left fun x _ => itemOf_eventOf x
    rw [hstart, pulls_pulling k 0 hpending, hlength, hroom, hitems]
  · have hinit : (init (cs.map .data ++ tail.reads)).Tidy :=
      iff_of_false (by simp [init]) (by simp [init])
    rw [closed_pulls k hinit]
    simp [init]
  · have hrecv := (PilotChannel.recv_pending hpending).1
    rw [ainvoke, hrecv]
    cases messages.take m with
    | nil => cases tail <;> rfl
    | cons x xs => exact itemOf_eventOf x

theorem events_streamed_letter : ∃ m, Arrived [("a", .str "!")] [0, 1, 97, 0, 0, 0, 1, 33] m ∧
    ∀ k, (pulls "a" (some 2) k (init [.data [0, 1, 97, 0], .data [0, 0, 1, 33], .data []])).1 =
      (([("a", Payload.str "!")].take m).map
        (fun x : String × Payload => Pulled.item x.1 x.2.text) ++
          List.replicate k Pulled.stopAsyncIteration).take k := by
  have hwritten : publishes [("a", .str "!")] = some [0, 1, 97, 0, 0, 0, 1, 33] := by
    decide
  have htopic : (encodeEvent ⟨"a", []⟩).isSome := by
    decide
  have hne : ∀ chunk ∈ ([[0, 1, 97, 0], [0, 0, 1, 33]] : List Bytes), chunk ≠ [] := by
    decide
  obtain ⟨m, harrived, hpulls, -⟩ :=
    @events_streamed "a" (some 2) _ _ _ _ htopic (by decide) hwritten hne (List.append_nil _) .eof
  refine ⟨m, harrived, fun k => (hpulls k).trans ?_⟩
  have hm : m ≤ 1 := harrived.1
  rw [show capped ((some (2 : ℤ)).map fun n => (max n 1).toNat)
    (([("a", Payload.str "!")].take m).map fun x => Pulled.item x.1 x.2.text) =
      (([("a", Payload.str "!")].take m).map fun x => Pulled.item x.1 x.2.text) by
    refine List.take_of_length_le ?_
    rw [List.length_map, List.length_take]
    exact Nat.le_trans (Nat.min_le_left m _) (Nat.le_trans hm (by decide))]
  congr 2
  unfold ending
  split_ifs <;> rfl

end

end PilotEventSource

end PilotLanggraph

import Mathlib.Algebra.Order.Ring.Rat
import PilotLanggraph.Channel
import PilotLanggraph.Lib.Machine

/-!
# A subscription that reconnects

A `PilotChannel` with `auto_reconnect` : `_reconnect_loop` takes the events off the stream and
queues them, `recv` takes them off the queue. Each action is one stretch between two await
points of the loop, or something around it : a chunk arrives, time passes, a caller receives an
event, the channel is closed. A `recv` that times out takes nothing.

The loop answers every exception alike, a read that waited `readTimeout` seconds too : it closes
the stream and connects again. `subscription_lossless` : on a stream that is up, with events
within the limits, no event is lost and the stream is not closed if no read waits that long.
-/

namespace PilotLanggraph

open Ipc

/-- Where `_reconnect_loop` is. -/
inductive LoopPhase
  | starting
  /-- In a read of the stream, -/
  | reading
  /-- closing the stream after an exception, -/
  | closing
  /-- closing the connection, -/
  | disconnecting
  | sleeping
  /-- connecting, dialing and subscribing, -/
  | connecting
  /-- or cancelled. -/
  | stopped
  deriving DecidableEq

/-- A `PilotChannel` with `auto_reconnect`. -/
structure Subscription where
  closed : Bool
  buf : Bytes
  /-- The receive queue of the stream, with an empty chunk for its end. -/
  inbound : List Bytes
  /-- The queue gets what arrives. -/
  connected : Bool
  /-- `_reconnect_queue`. -/
  queue : List Event
  /-- What `recv` has returned. -/
  received : List Event
  phase : LoopPhase
  now : ℚ
  /-- When the read has started. -/
  readSince : ℚ
  /-- The loop has closed a stream. -/
  dropped : Bool

namespace Subscription

/-- `stream.read(timeout=30.0)`. -/
def readTimeout : ℚ := 30

inductive Action
  /-- The task of the loop starts. -/
  | start
  /-- The daemon delivers a chunk. -/
  | arrive (chunk : Bytes)
  /-- The read of the loop returns, -/
  | read
  /-- or times out. -/
  | timeout
  | tick (now : ℚ)
  | streamClosed
  | connClosed
  | slept
  | reconnected
  /-- An exception, before or after the new stream is dialed. -/
  | reconnectFailed (dialed : Bool)
  /-- `recv` returns an event. -/
  | recv
  /-- `PilotChannel.close`. -/
  | close

/-- A channel that has just subscribed. -/
def init : Subscription where
  closed := false
  buf := []
  inbound := []
  connected := true
  queue := []
  received := []
  phase := .starting
  now := 0
  readSince := 0
  dropped := false

/-- The events in the buffer are queued and a read starts. -/
def advance (s : Subscription) : Subscription :=
  match splitEvents s.buf with
  | .error _ => { s with phase := .closing }
  | .ok (evs, rest) =>
    { s with buf := rest, queue := s.queue ++ evs, phase := .reading, readSince := s.now }

/-- The loop is on a new stream. -/
def redial (s : Subscription) : Subscription :=
  { s with inbound := [], connected := true }

/-- One action, if it can happen. -/
def step (s : Subscription) : Action → Option Subscription
  | .start => if s.phase = .starting then some s.advance else none
  | .arrive chunk =>
    some (if s.connected then { s with inbound := s.inbound ++ [chunk] } else s)
  | .read =>
    match s.phase, s.inbound with
    | .reading, [] :: inbound => some { s with inbound := inbound, phase := .closing }
    | .reading, (b :: chunk) :: inbound =>
      some { s with inbound := inbound, buf := s.buf ++ b :: chunk }.advance
    | _, _ => none
  | .timeout =>
    if s.phase = .reading ∧ readTimeout ≤ s.now - s.readSince then
      some { s with phase := .closing }
    else none
  | .tick now => if s.now ≤ now then some { s with now := now } else none
  | .streamClosed =>
    if s.phase = .closing then
      some { s with phase := .disconnecting, connected := false, dropped := true }
    else none
  | .connClosed => if s.phase = .disconnecting then some { s with phase := .sleeping } else none
  | .slept => if s.phase = .sleeping then some { s with phase := .connecting } else none
  | .reconnected =>
    if s.phase = .connecting then some { s.redial with buf := [] }.advance else none
  | .reconnectFailed dialed =>
    -- The buffer stays what it was.
    if s.phase = .connecting then some (if dialed then s.redial else s).advance else none
  | .recv =>
    match s.queue with
    | [] => none
    | ev :: queue => some { s with queue := queue, received := s.received ++ [ev] }
  | .close =>
    some (if s.closed then s
      else { s with closed := true, connected := false, phase := .stopped })

/-- The chunk that arrives. -/
def Action.chunk? : Action → Option Bytes
  | .arrive chunk => some chunk
  | _ => none

/-- The chunks that have arrived. -/
def arrived (as : List Action) : List Bytes :=
  as.filterMap Action.chunk?

/-- No read of the loop has waited `readTimeout`. -/
def Lively (s : Subscription) : Action → Prop
  | .tick now => s.phase = .reading → now - s.readSince < readTimeout
  | _ => True

instance (s : Subscription) : ∀ a, Decidable (Lively s a)
  | .tick _ => inferInstanceAs (Decidable (_ → _))
  | .start | .arrive _ | .read | .timeout | .streamClosed | .connClosed | .slept | .reconnected
  | .reconnectFailed _ | .recv | .close => inferInstanceAs (Decidable True)

/-! ## The invariant -/

/-- The chunks that the loop has read decode to the events it has queued, up to the buffer, and
until the channel is closed the others are in the queue of the stream. The loop is in a read, for
less than `readTimeout`. -/
structure Lossless (chunks : List Bytes) (s : Subscription) : Prop where
  read : ∃ consumed rest, chunks = consumed ++ rest ∧
    splitEvents consumed.flatten = .ok (s.received ++ s.queue, s.buf) ∧
    (s.closed = false → rest = s.inbound)
  phase : s.phase = .starting ∨ s.phase = .reading ∨ s.phase = .stopped
  opened : s.phase ≠ .stopped → s.closed = false
  lively : s.phase = .reading → s.now - s.readSince < readTimeout
  connected : s.connected = !s.closed
  dropped : s.dropped = false

theorem lossless_init : Lossless [] init :=
  ⟨⟨[], [], rfl, rfl, fun _ => rfl⟩, .inl rfl, fun _ => rfl, nofun, rfl, rfl⟩

section

variable {s s' : Subscription} {chunks : List Bytes} {evs : List Event} {left : Bytes}

/-- The loop takes up a buffer that decodes. -/
theorem lossless_advance {consumed : List Bytes} (hchunks : chunks = consumed ++ s.inbound)
    (hread : splitEvents consumed.flatten = .ok (s.received ++ s.queue ++ evs, left))
    (hbuf : splitEvents s.buf = .ok (evs, left)) (hopen : s.closed = false)
    (hconnected : s.connected = true) (hdropped : s.dropped = false) :
    Lossless chunks s.advance := by
  unfold Subscription.advance
  rw [hbuf]
  refine ⟨⟨consumed, s.inbound, hchunks, ?_, fun _ => rfl⟩, .inr (.inl rfl), fun _ => hopen,
    fun _ => ?_, ?_, hdropped⟩
  · rw [hread, List.append_assoc]
  · change s.now - s.now < readTimeout
    rw [sub_self]
    decide
  · change s.connected = !s.closed
    rw [hconnected, hopen]
    rfl

theorem arrived_of_none {a : Action} (h : a.chunk? = none) (as : List Action) :
    arrived (as ++ [a]) = arrived as := by
  rw [arrived, List.filterMap_append, List.filterMap_cons_none h, List.filterMap_nil,
    List.append_nil]
  rfl

theorem arrived_arrive (as : List Action) (chunk : Bytes) :
    arrived (as ++ [.arrive chunk]) = arrived as ++ [chunk] :=
  List.filterMap_append ..

theorem lossless_arrive {chunk : Bytes} (h : Lossless chunks s)
    (hstep : s.step (.arrive chunk) = some s') : Lossless (chunks ++ [chunk]) s' := by
  obtain ⟨⟨consumed, rest, hchunks, hsplit, hinbound⟩, hphase, hopened, hlive, hconnected,
    hdropped⟩ := h
  obtain rfl := Option.some.inj hstep
  have hlast : chunks ++ [chunk] = consumed ++ (rest ++ [chunk]) := by
    rw [hchunks, List.append_assoc]
  split_ifs with hconn
  · have hopen : s.closed = false := by simpa [hconnected] using hconn
    exact ⟨⟨consumed, rest ++ [chunk], hlast, hsplit, fun _ => by rw [hinbound hopen]⟩, hphase,
      hopened, hlive, hconnected, hdropped⟩
  · have hclosed : s.closed = true := by simpa [hconnected] using hconn
    exact ⟨⟨consumed, rest ++ [chunk], hlast, hsplit, fun hopen => by simp [hclosed] at hopen⟩,
      hphase, hopened, hlive, hconnected, hdropped⟩

theorem lossless_read {bytes : Bytes} {r : List Event × Bytes} (h : Lossless chunks s)
    (hbytes : splitEvents bytes = .ok r) (hstream : chunks.flatten <+: bytes)
    (hne : ∀ chunk ∈ chunks, chunk ≠ []) (hstep : s.step .read = some s') :
    Lossless chunks s' := by
  obtain ⟨⟨consumed, rest, hchunks, hsplit, hinbound⟩, hphase, hopened, hlive, hconnected,
    hdropped⟩ := h
  simp only [step] at hstep
  split at hstep
  · rename_i inbound hreading hnil
    have hopen := hopened (by rw [hreading]; decide)
    exact absurd rfl (hne [] (by rw [hchunks, hinbound hopen, hnil]; simp))
  · rename_i b chunk inbound hreading hcons
    obtain rfl := Option.some.inj hstep
    have hopen := hopened (by rw [hreading]; decide)
    have hchunks' : chunks = (consumed ++ [b :: chunk]) ++ inbound := by
      rw [hchunks, hinbound hopen, hcons, List.append_assoc]
      rfl
    -- What has been read so far is a start of a stream that decodes.
    obtain ⟨more, hmore⟩ := hstream
    rw [hchunks', List.flatten_append, List.append_assoc] at hmore
    rw [← hmore] at hbytes
    obtain ⟨⟨items, left⟩, hread, -⟩ := Decoder.split_of_append hbytes
    have hread' := hread
    rw [List.flatten_append, List.flatten_singleton, Decoder.split_append_of_ok hsplit] at hread'
    cases hbuf : events.split (s.buf ++ b :: chunk) with
    | error text =>
      rw [hbuf] at hread'
      cases hread'
    | ok q =>
      rw [hbuf] at hread'
      obtain ⟨rfl, rfl⟩ := Prod.mk.inj (Except.ok.inj hread')
      exact lossless_advance hchunks' hread hbuf hopen (by rw [hconnected, hopen]; rfl) hdropped
  · cases hstep

/-- One action on a stream whose chunks decode, with no read waiting for long. -/
theorem lossless_step {as : List Action} {a : Action} {bytes : Bytes} {r : List Event × Bytes}
    (h : Lossless (arrived as) s) (hbytes : splitEvents bytes = .ok r)
    (hstream : (arrived (as ++ [a])).flatten <+: bytes)
    (hne : ∀ chunk ∈ arrived (as ++ [a]), chunk ≠ []) (hlively : Lively s a)
    (hstep : s.step a = some s') : Lossless (arrived (as ++ [a])) s' := by
  have hnot {phase : LoopPhase} (hphase : s.phase = phase)
      (hother : phase ≠ .starting ∧ phase ≠ .reading ∧ phase ≠ .stopped) : False := by
    rcases h.phase with hp | hp | hp
    · exact hother.1 (hphase.symm.trans hp)
    · exact hother.2.1 (hphase.symm.trans hp)
    · exact hother.2.2 (hphase.symm.trans hp)
  have ⟨⟨consumed, rest, hchunks, hsplit, hinbound⟩, hphase, hopened, hlive, hconnected,
    hdropped⟩ := h
  cases a with
  | start =>
    rw [arrived_of_none rfl]
    simp only [step, Option.ite_none_right_eq_some, Option.some.injEq] at hstep
    obtain ⟨hstart, rfl⟩ := hstep
    have hopen := hopened (by rw [hstart]; decide)
    have hchunks' : arrived as = consumed ++ s.inbound := by
      rw [hchunks, hinbound hopen]
    have hsplit' : splitEvents consumed.flatten = .ok (s.received ++ s.queue ++ [], s.buf) := by
      rw [List.append_nil, hsplit]
    exact lossless_advance hchunks' hsplit' (Decoder.split_rest hsplit) hopen
      (by rw [hconnected, hopen]; rfl) hdropped
  | arrive chunk =>
    rw [arrived_arrive]
    exact lossless_arrive h hstep
  | read =>
    rw [arrived_of_none rfl] at hstream hne ⊢
    exact lossless_read h hbytes hstream hne hstep
  | timeout =>
    simp only [step, Option.ite_none_right_eq_some] at hstep
    exact absurd hstep.1.2 (not_le.2 (hlive hstep.1.1))
  | tick now =>
    rw [arrived_of_none rfl]
    simp only [step, Option.ite_none_right_eq_some, Option.some.injEq] at hstep
    obtain ⟨-, rfl⟩ := hstep
    exact ⟨⟨consumed, rest, hchunks, hsplit, hinbound⟩, hphase, hopened, hlively, hconnected,
      hdropped⟩
  | streamClosed | connClosed | slept | reconnected | reconnectFailed dialed =>
    simp only [step, Option.ite_none_right_eq_some] at hstep
    exact (hnot hstep.1 (by decide)).elim
  | recv =>
    rw [arrived_of_none rfl]
    simp only [step] at hstep
    split at hstep
    · cases hstep
    · rename_i ev queue hqueue
      obtain rfl := Option.some.inj hstep
      refine ⟨⟨consumed, rest, hchunks, ?_, hinbound⟩, hphase, hopened, hlive, hconnected, hdropped⟩
      rw [hqueue] at hsplit
      rw [hsplit, List.append_assoc]
      rfl
  | close =>
    rw [arrived_of_none rfl]
    obtain rfl := Option.some.inj hstep
    split_ifs with hclosed
    · exact ⟨⟨consumed, rest, hchunks, hsplit, hinbound⟩, hphase, hopened, hlive, hconnected,
        hdropped⟩
    · exact ⟨⟨consumed, rest, hchunks, hsplit, nofun⟩, .inr (.inr rfl), fun hp => absurd rfl hp,
        nofun, rfl, hdropped⟩

end

/-- The stream of an open channel carries the events, in any chunks and with any gaps, and none
of them is over the limits. If no read of the loop waits `readTimeout`, the loop does not close
the stream, `recv` returns the events in order, and those that are complete on the stream are
returned or queued once all chunks are read. -/
theorem subscription_lossless {evs : List Event} (hfits : ∀ ev ∈ evs, ev.Fits) {bytes : Bytes}
    (hbytes : encodeEvents evs = some bytes) {as : List Action} {s : Subscription}
    (hrun : Machine.run step init as = some s) (hne : ∀ chunk ∈ arrived as, chunk ≠ [])
    (hstream : (arrived as).flatten <+: bytes) (hlively : Machine.Along step Lively init as) :
    s.dropped = false ∧ s.received ++ s.queue <+: evs ∧
      (s.closed = false → s.inbound = [] →
        splitEvents (arrived as).flatten = .ok (s.received ++ s.queue, s.buf) ∧
          ((arrived as).flatten = bytes → s.received ++ s.queue = evs)) := by
  have hwhole : splitEvents bytes = .ok (evs, []) := by
    have h := splitEvents_encodeEvents hfits hbytes []
    rw [List.append_nil] at h
    rw [h]
    simp [splitEvents, Decoder.split_of_incomplete (show events.front [] = .incomplete from rfl),
      Except.map]
  have h : Lossless (arrived as) s := by
    refine Machine.run_induction_along
      (fun as s => (∀ chunk ∈ arrived as, chunk ≠ []) → (arrived as).flatten <+: bytes →
        Lossless (arrived as) s) Lively (fun _ _ => lossless_init) ?_ hlively hrun hne hstream
    intro as s a s' _ ih hlive hstep hne hstream
    have hpre : arrived as <+: arrived (as ++ [a]) := (List.prefix_append as [a]).filterMap _
    have hstart : (arrived as).flatten <+: bytes := by
      obtain ⟨more, hmore⟩ := hpre
      rw [← hmore, List.flatten_append] at hstream
      exact (List.prefix_append _ _).trans hstream
    exact lossless_step (ih (fun chunk hc => hne chunk (hpre.subset hc)) hstart) hwhole hstream
      hne hlive hstep
  obtain ⟨consumed, rest, hchunks, hsplit, hinbound⟩ := h.read
  refine ⟨h.dropped, ?_, fun hopen hempty => ?_⟩
  · obtain ⟨more, hmore⟩ := hstream
    rw [hchunks, List.flatten_append, List.append_assoc] at hmore
    rw [← hmore] at hwhole
    obtain ⟨r, hr, items, -, hevs⟩ := Decoder.split_of_append hwhole
    obtain rfl := Except.ok.inj (hr.symm.trans hsplit)
    exact ⟨items, hevs.symm⟩
  · have hconsumed : arrived as = consumed := by
      rw [hchunks, hinbound hopen, hempty, List.append_nil]
    rw [hconsumed]
    refine ⟨hsplit, fun hlast => ?_⟩
    rw [hlast, hwhole] at hsplit
    exact (congrArg Prod.fst (Except.ok.inj hsplit)).symm

/-- An event in two chunks, with a gap. -/
def idleGap (gap : ℚ) : List Action :=
  [.start, .arrive [0, 1, 97, 0], .read, .tick gap, .arrive [0, 0, 1, 33], .read, .recv]

theorem subscription_lossless_shortGap :
    ∃ s, Machine.run step init (idleGap 29) = some s ∧ s.dropped = false ∧
      s.received ++ s.queue = [⟨"a", [33]⟩] := by
  have hrun : (Machine.run step init (idleGap 29)).map (fun s => (s.closed, s.inbound)) =
      some (false, []) := by
    decide +kernel
  obtain ⟨s, hs, hend⟩ := Option.map_eq_some_iff.1 hrun
  obtain ⟨hopen, hempty⟩ := Prod.mk.inj hend
  have hbytes : encodeEvents [⟨"a", [33]⟩] = some [0, 1, 97, 0, 0, 0, 1, 33] := by decide
  have hne : ∀ chunk ∈ arrived (idleGap 29), chunk ≠ [] := by decide
  have hlively : Machine.Along step Lively init (idleGap 29) := by decide +kernel
  obtain ⟨hdropped, -, hlast⟩ :=
    subscription_lossless (by decide) hbytes hs hne (List.prefix_refl _) hlively
  exact ⟨s, hs, hdropped, (hlast hopen hempty).2 rfl⟩

/-- A gap as long as the timeout of the read : the loop closes the stream, and the event that
goes on then is lost. -/
theorem idle_stream_dropped :
    ∃ s, Machine.run step init [.start, .arrive [0, 1, 97, 0], .read, .tick 30, .timeout,
        .streamClosed, .arrive [0, 0, 1, 33], .connClosed, .slept, .reconnected] = some s ∧
      (s.dropped, s.received ++ s.queue) = (true, []) ∧
      splitEvents [0, 1, 97, 0, 0, 0, 1, 33] = .ok ([⟨"a", [33]⟩], []) := by
  have hrun : (Machine.run step init [.start, .arrive [0, 1, 97, 0], .read, .tick 30, .timeout,
      .streamClosed, .arrive [0, 0, 1, 33], .connClosed, .slept, .reconnected]).map
        (fun s => (s.dropped, s.received ++ s.queue)) = some (true, []) := by
    decide +kernel
  obtain ⟨s, hs, hend⟩ := Option.map_eq_some_iff.1 hrun
  exact ⟨s, hs, hend, rfl⟩

end Subscription

end PilotLanggraph

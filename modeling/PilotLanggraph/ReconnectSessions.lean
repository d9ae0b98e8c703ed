import Mathlib.Data.List.Forall2
import PilotLanggraph.ChannelReconnect

/-!
# The streams of a subscription

A `PilotChannel` with `auto_reconnect` goes from stream to stream, and what is left over of one
must not run into the next : the buffer is cleared when the channel has subscribed again, though
not when that fails after the dial. `Watched` keeps what came on each stream beside the channel.

* `delivered_in_order` : what a caller has received and may still receive are events of a start of
  each stream, stream by stream. No event comes twice, none out of order, and none is put together
  of the bytes of two streams, if no attempt to reconnect fails after its dial.
-/

namespace PilotLanggraph

open Ipc

/-- One stream of a subscription. -/
structure StreamFeed where
  /-- What the buffer held at its start. -/
  stale : Bytes
  /-- What has come on it. -/
  chunks : List Bytes
  deriving DecidableEq

/-- A subscription with its streams so far. -/
structure Watched where
  sub : Subscription
  past : List StreamFeed
  current : StreamFeed

namespace Watched

open Subscription

def init : Watched where
  sub := Subscription.init
  past := []
  current := ⟨[], []⟩

/-- A new stream, with that in the buffer. -/
def next (w : Watched) (stale : Bytes) : List StreamFeed × StreamFeed :=
  (w.past ++ [w.current], ⟨stale, []⟩)

/-- The streams after an action. -/
def watch (w : Watched) : Action → List StreamFeed × StreamFeed
  | .arrive chunk =>
    (w.past, if w.sub.connected then ⟨w.current.stale, w.current.chunks ++ [chunk]⟩ else w.current)
  | .reconnected => w.next []
  | .reconnectFailed true => w.next w.sub.buf
  | _ => (w.past, w.current)

def step (w : Watched) (a : Action) : Option Watched :=
  (w.sub.step a).map fun sub => ⟨sub, (w.watch a).1, (w.watch a).2⟩

/-- Every run can be watched. -/
theorem exists_run {as : List Action} {s : Subscription}
    (hrun : Machine.run Subscription.step Subscription.init as = some s) :
    ∃ w, Machine.run step init as = some w ∧ w.sub = s := by
  refine Machine.run_induction
    (fun as s => ∃ w, Machine.run step init as = some w ∧ w.sub = s) ⟨init, rfl, rfl⟩ ?_ hrun
  rintro as s a s' - ⟨w, hw, rfl⟩ hstep
  exact ⟨_, Machine.run_concat hw (by rw [step, hstep]; rfl), rfl⟩

/-! ## The invariant -/

/-- Those are the events of a start of the stream. -/
def Took (f : StreamFeed) (evs : List Event) : Prop :=
  evs = [] ∨ ∃ consumed rest left, f.chunks = consumed ++ rest ∧
    splitEvents (f.stale ++ consumed.flatten) = .ok (evs, left)

/-- More chunks after the ones that the events are from. -/
theorem Took.append {stale : Bytes} {chunks : List Bytes} {evs : List Event}
    (h : Took ⟨stale, chunks⟩ evs) (more : List Bytes) : Took ⟨stale, chunks ++ more⟩ evs := by
  refine h.imp_right ?_
  rintro ⟨consumed, rest, left, hchunks, hsplit⟩
  refine ⟨consumed, rest ++ more, left, ?_, hsplit⟩
  simp only at hchunks ⊢
  rw [hchunks, List.append_assoc]

/-- The loop has queued `evs` of the `consumed` chunks of its stream, and goes on with the buffer
as it would with their bytes. -/
structure Reads (w : Watched) (consumed : List Bytes) (evs : List Event) : Prop where
  chunks : w.current.chunks = consumed ++ w.sub.inbound
  took : Took ⟨w.current.stale, consumed⟩ evs
  resume : splitEvents (w.current.stale ++ consumed.flatten) =
    (splitEvents w.sub.buf).map fun r => (evs ++ r.1, r.2)
  reading : w.sub.phase = .reading → splitEvents w.sub.buf = .ok ([], w.sub.buf)

theorem Reads.took_current {w : Watched} {consumed : List Bytes} {evs : List Event}
    (h : Reads w consumed evs) : Took w.current evs := by
  have htook := h.took.append w.sub.inbound
  rwa [← h.chunks] at htook

/-- The events are those of the past streams and of the current one. -/
def InOrder (w : Watched) (before : List (List Event)) (evs : List Event) : Prop :=
  List.Forall₂ Took w.past before ∧ w.sub.received ++ w.sub.queue = before.flatten ++ evs ∧
    ∃ consumed, Reads w consumed evs

section

variable {w : Watched} {before : List (List Event)} {evs : List Event} {consumed : List Bytes}

/-- The loop takes up its buffer. -/
theorem inOrder_advance (hpast : List.Forall₂ Took w.past before)
    (hevents : w.sub.received ++ w.sub.queue = before.flatten ++ evs)
    (hchunks : w.current.chunks = consumed ++ w.sub.inbound)
    (htook : Took ⟨w.current.stale, consumed⟩ evs)
    (hresume : splitEvents (w.current.stale ++ consumed.flatten) =
      (splitEvents w.sub.buf).map fun r => (evs ++ r.1, r.2)) :
    ∃ evs', InOrder { w with sub := w.sub.advance } before evs' := by
  unfold advance
  cases hsplit : splitEvents w.sub.buf with
  | error e => exact ⟨evs, hpast, hevents, consumed, hchunks, htook, hresume, fun h => by cases h⟩
  | ok r =>
    obtain ⟨more, left⟩ := r
    have hleft : splitEvents left = .ok ([], left) := Decoder.split_rest hsplit
    rw [hsplit] at hresume
    refine ⟨evs ++ more, hpast, ?_, consumed, hchunks, ?_, ?_, fun _ => hleft⟩
    · change w.sub.received ++ (w.sub.queue ++ more) = _
      rw [← List.append_assoc, hevents, List.append_assoc]
    · exact .inr ⟨consumed, [], left, (List.append_nil _).symm, hresume⟩
    · rw [hresume, hleft]
      simp [Except.map]

/-- A new stream starts with what is in the buffer. -/
theorem inOrder_next (h : InOrder w before evs) {stale : Bytes} {sub : Subscription}
    (hreceived : sub.received = w.sub.received) (hqueue : sub.queue = w.sub.queue)
    (hinbound : sub.inbound = []) (hbuf : sub.buf = stale) :
    ∃ before' evs', InOrder ⟨sub.advance, (w.next stale).1, (w.next stale).2⟩ before' evs' := by
  obtain ⟨hpast, hevents, consumed, hreads⟩ := h
  obtain ⟨evs', h'⟩ := @inOrder_advance ⟨sub, (w.next stale).1, (w.next stale).2⟩
    (before ++ [evs]) [] [] (List.rel_append hpast (.cons hreads.took_current .nil))
    (by simp [hreceived, hqueue, hevents])
    (by simp [next, hinbound]) (.inl rfl) (by
      subst hbuf
      simp only [next, List.flatten_nil, List.append_nil, List.nil_append]
      cases splitEvents sub.buf <;> rfl)
  exact ⟨_, evs', h'⟩

theorem inOrder_step {w' : Watched} {a : Action} (h : InOrder w before evs)
    (hstep : w.step a = some w') : ∃ before' evs', InOrder w' before' evs' := by
  obtain ⟨sub, hsub, rfl⟩ := Option.map_eq_some_iff.1 hstep
  have ⟨hpast, hevents, consumed, hreads⟩ := h
  cases a with
  | start =>
    simp only [Subscription.step, Option.ite_none_right_eq_some, Option.some.injEq] at hsub
    obtain ⟨-, rfl⟩ := hsub
    obtain ⟨evs', h'⟩ := inOrder_advance hpast hevents hreads.chunks hreads.took hreads.resume
    exact ⟨before, evs', h'⟩
  | arrive chunk =>
    obtain rfl := Option.some.inj hsub
    refine ⟨before, evs, hpast, ?_, consumed, ?_⟩
    · split_ifs <;> exact hevents
    · simp only [watch]
      split_ifs with hconn
      · refine ⟨?_, hreads.took, hreads.resume, hreads.reading⟩
        change w.current.chunks ++ [chunk] = consumed ++ (w.sub.inbound ++ [chunk])
        rw [hreads.chunks, List.append_assoc]
      · exact hreads
  | read =>
    simp only [Subscription.step] at hsub
    split at hsub
    · rename_i inbound hphase hinbound
      obtain rfl := Option.some.inj hsub
      refine ⟨before, evs, hpast, hevents, consumed ++ [[]], ?_, hreads.took.append _, ?_,
        fun h => by cases h⟩
      · rw [List.append_assoc]
        exact hreads.chunks.trans (by rw [hinbound]; rfl)
      · rw [List.flatten_append, List.flatten_singleton, List.append_nil]
        exact hreads.resume
    · rename_i b chunk inbound hphase hinbound
      obtain rfl := Option.some.inj hsub
      have hread : splitEvents (w.current.stale ++ consumed.flatten) = .ok (evs, w.sub.buf) := by
        rw [hreads.resume, hreads.reading hphase]
        simp [Except.map]
      obtain ⟨evs', h'⟩ := @inOrder_advance
        ⟨{ w.sub with inbound := inbound, buf := w.sub.buf ++ b :: chunk }, w.past, w.current⟩
        before evs (consumed ++ [b :: chunk]) hpast hevents
        (by rw [List.append_assoc]; exact hreads.chunks.trans (by rw [hinbound]; rfl))
        (hreads.took.append _)
        (by
          rw [List.flatten_append, List.flatten_singleton, ← List.append_assoc]
          exact Decoder.split_append_of_ok hread _)
      exact ⟨before, evs', h'⟩
    · cases hsub
  | timeout | streamClosed | connClosed | slept =>
    simp only [Subscription.step, Option.ite_none_right_eq_some, Option.some.injEq] at hsub
    obtain ⟨-, rfl⟩ := hsub
    exact ⟨before, evs, hpast, hevents, consumed, hreads.chunks, hreads.took, hreads.resume,
      fun h => by cases h⟩
  | tick now =>
    simp only [Subscription.step, Option.ite_none_right_eq_some, Option.some.injEq] at hsub
    obtain ⟨-, rfl⟩ := hsub
    exact ⟨before, evs, hpast, hevents, consumed, hreads.chunks, hreads.took, hreads.resume,
      hreads.reading⟩
  | reconnected =>
    simp only [Subscription.step, Option.ite_none_right_eq_some, Option.some.injEq] at hsub
    obtain ⟨-, rfl⟩ := hsub
    exact inOrder_next h rfl rfl rfl rfl
  | reconnectFailed dialed =>
    simp only [Subscription.step, Option.ite_none_right_eq_some, Option.some.injEq] at hsub
    obtain ⟨-, rfl⟩ := hsub
    cases dialed with
    | true => exact inOrder_next h rfl rfl rfl rfl
    | false =>
      obtain ⟨evs', h'⟩ := inOrder_advance hpast hevents hreads.chunks hreads.took hreads.resume
      exact ⟨before, evs', h'⟩
  | recv =>
    simp only [Subscription.step] at hsub
    split at hsub
    · cases hsub
    · rename_i ev queue hqueue
      obtain rfl := Option.some.inj hsub
      refine ⟨before, evs, hpast, ?_, consumed, hreads.chunks, hreads.took, hreads.resume,
        hreads.reading⟩
      change (w.sub.received ++ [ev]) ++ queue = _
      rw [← hevents, hqueue, List.append_assoc]
      rfl
  | close =>
    obtain rfl := Option.some.inj hsub
    refine ⟨before, evs, hpast, ?_, consumed, ?_⟩
    · split_ifs <;> exact hevents
    · split_ifs with hclosed
      · exact hreads
      · exact ⟨hreads.chunks, hreads.took, hreads.resume, fun h => by cases h⟩

end

theorem inOrder_run {as : List Action} {w : Watched} (hrun : Machine.run step init as = some w) :
    ∃ before evs, InOrder w before evs := by
  refine Machine.run_induction (fun _ w => ∃ before evs, InOrder w before evs)
    ⟨[], [], .nil, rfl, [], rfl, .inl rfl, rfl, fun h => by cases h⟩ ?_ hrun
  rintro - w a w' - ⟨before, evs, h⟩ hstep
  exact inOrder_step h hstep

/-! ## The result -/

/-- The streams of a run. -/
def streams (as : List Action) : List StreamFeed :=
  match Machine.run step init as with
  | some w => w.past ++ [w.current]
  | none => []

/-- The buffer is empty at the start of each stream, if no attempt fails after its dial. -/
theorem stale_eq_nil {as : List Action} {w : Watched} (hrun : Machine.run step init as = some w)
    (hdial : .reconnectFailed true ∉ as) : ∀ f ∈ w.past ++ [w.current], f.stale = [] := by
  refine Machine.run_induction
    (fun as w => .reconnectFailed true ∉ as → ∀ f ∈ w.past ++ [w.current], f.stale = [])
    (fun _ f hf => ?_) ?_ hrun hdial
  · obtain rfl := List.mem_singleton.1 hf
    rfl
  · rintro as w a w' - ih hstep hdial
    obtain ⟨sub, hsub, rfl⟩ := Option.map_eq_some_iff.1 hstep
    rw [List.mem_append, List.mem_singleton, not_or] at hdial
    have ih := ih hdial.1
    rw [List.forall_mem_append, List.forall_mem_singleton] at ih
    have hnext : ∀ f ∈ (w.next []).1 ++ [(w.next []).2], f.stale = [] := by
      simpa [next, or_imp, forall_and] using ih
    rw [List.forall_mem_append, List.forall_mem_singleton] at hnext ⊢
    cases a with
    | arrive chunk =>
      refine ⟨ih.1, ?_⟩
      simp only [watch]
      split_ifs <;> exact ih.2
    | reconnected => exact hnext
    | reconnectFailed dialed =>
      cases dialed with
      | true => exact absurd rfl hdial.2
      | false => exact ih
    | _ => exact ih

/-- The stream carries the start of what a broker writes for the events. -/
def Carries (f : StreamFeed) (evs : List Event) : Prop :=
  (∀ ev ∈ evs, ev.Fits) ∧ ∃ bytes, encodeEvents evs = some bytes ∧ f.chunks.flatten <+: bytes

/-- What a loop takes off such a stream are its first events. -/
theorem prefix_of_took {f : StreamFeed} {evs sent : List Event} (htook : Took f evs)
    (hstale : f.stale = []) (hcarries : Carries f sent) : evs <+: sent := by
  rcases htook with rfl | ⟨consumed, rest, left, hchunks, hsplit⟩
  · exact List.nil_prefix
  obtain ⟨hfits, bytes, hbytes, more, hmore⟩ := hcarries
  have hwhole : splitEvents bytes = .ok (sent, []) := by
    have h := splitEvents_encodeEvents hfits hbytes []
    rw [List.append_nil, show splitEvents [] = .ok ([], []) from rfl] at h
    simpa [Except.map] using h
  rw [← hmore, hchunks, List.flatten_append, List.append_assoc] at hwhole
  rw [hstale, List.nil_append] at hsplit
  obtain ⟨r, hr, items, -, hsent⟩ := Decoder.split_of_append hwhole
  obtain rfl := Except.ok.inj (hr.symm.trans hsplit)
  exact ⟨items, hsent.symm⟩

/-- Stream by stream, the events that the caller has received or may still receive are those of a
start of what came; those of the current one are of all that came, when the loop waits for more. On
streams of a broker they are the first events of each, and no other, if no attempt to reconnect
fails after its dial. -/
theorem delivered_in_order {as : List Action} {s : Subscription}
    (hrun : Machine.run Subscription.step Subscription.init as = some s) :
    ∃ past current before evs, streams as = past ++ [current] ∧
      s.received ++ s.queue = (before ++ [evs]).flatten ∧
      List.Forall₂ Took (past ++ [current]) (before ++ [evs]) ∧
      (s.phase = .reading → s.inbound = [] →
        splitEvents (current.stale ++ current.chunks.flatten) = .ok (evs, s.buf)) ∧
      (.reconnectFailed true ∉ as → ∀ sent, List.Forall₂ Carries (past ++ [current]) sent →
        List.Forall₂ (· <+: ·) (before ++ [evs]) sent) := by
  obtain ⟨w, hw, rfl⟩ := exists_run hrun
  obtain ⟨before, evs, hpast, hevents, consumed, hreads⟩ := inOrder_run hw
  have htook : List.Forall₂ Took (w.past ++ [w.current]) (before ++ [evs]) :=
    List.rel_append hpast (.cons hreads.took_current .nil)
  refine ⟨w.past, w.current, before, evs, by rw [streams, hw], by simpa using hevents, htook,
    fun hphase hinbound => ?_, fun hdial sent hsent => ?_⟩
  · rw [hreads.chunks, hinbound, List.append_nil, hreads.resume, hreads.reading hphase]
    simp [Except.map]
  · have hstale := stale_eq_nil hw hdial
    generalize w.past ++ [w.current] = feeds at htook hsent hstale
    generalize before ++ [evs] = taken at htook
    induction htook generalizing sent with
    | nil =>
      cases hsent
      exact .nil
    | cons hf _ ih =>
      cases hsent with
      | cons hcarries hrest =>
        obtain ⟨hnil, hstale⟩ := List.forall_mem_cons.1 hstale
        exact .cons (prefix_of_took hf hnil hcarries) (ih _ hrest hstale)

/-- A stream that ends within an event, and the next one. -/
def twoStreams : List Action :=
  [.start, .arrive [0, 1, 97, 0, 0, 0, 1, 33, 0, 1], .read, .recv, .arrive [], .read, .streamClosed,
    .connClosed, .slept, .reconnected, .arrive [0, 1, 98, 0, 0, 0, 0], .read]

theorem delivered_in_order_twoStreams :
    ∃ s taken, Machine.run Subscription.step Subscription.init twoStreams = some s ∧
      s.received ++ s.queue = taken.flatten ∧
      List.Forall₂ (· <+: ·) taken [[⟨"a", [33]⟩, ⟨"c", []⟩], [⟨"b", []⟩]] := by
  have hsome : (Machine.run Subscription.step Subscription.init twoStreams).isSome = true := by
    decide +kernel
  obtain ⟨s, hrun⟩ := Option.isSome_iff_exists.1 hsome
  have hstreams : streams twoStreams = [⟨[], [[0, 1, 97, 0, 0, 0, 1, 33, 0, 1], []]⟩,
      ⟨[], [[0, 1, 98, 0, 0, 0, 0]]⟩] := by
    decide +kernel
  obtain ⟨past, current, before, evs, hsplit, hevents, -, -, hprefix⟩ := delivered_in_order hrun
  rw [← hsplit, hstreams] at hprefix
  exact ⟨s, _, hrun, hevents, hprefix (by simp [twoStreams]) _
    (.cons ⟨by decide, _, rfl, by decide⟩ (.cons ⟨by decide, _, rfl, by decide⟩ .nil))⟩

end Watched

end PilotLanggraph

import PilotLanggraph.Lifecycle
import PilotLanggraph.StreamClose

/-!
# The end of a connection, on its streams

`StreamLife` is a connection with its streams from its start to its end : what tasks and the
read loop do with streams, and the teardown of `Lifecycle`. The teardown puts an end into each
receive queue that is registered at that moment. A coroutine of `dial` or `accept` registers
the queue of its stream when it resumes, and does not look at the flag `_closed`.

* `streams_see_eof` : once the teardown is over, every open stream has its end, if no stream is
  registered after it without an end that was set aside, no open stream loses its place to
  another one, and `close` is not cancelled.
-/

namespace PilotLanggraph

open Ipc

namespace Connection

/-- One end for each time the queue is named. -/
theorem foldl_put_end (es : List (ℕ × ℕ)) (rs : ℕ → List (Option Bytes)) (q : ℕ) :
    es.foldl (fun rs e => put rs e.2 none) rs q =
      rs q ++ (es.filter (·.2 = q)).map fun _ => none := by
  induction es generalizing rs with
  | nil => simp
  | cons e es ih =>
    rw [List.foldl_cons, ih]
    by_cases he : e.2 = q
    · simp [put, he]
    · simp [put, he, Function.update_of_ne (Ne.symm he)]

theorem received_endStreams (c : Connection) (q : ℕ) : c.endStreams.received q =
    c.received q ++ (c.streamRecvQueues.entries.filter (·.2 = q)).map fun _ => none :=
  foldl_put_end _ _ q

section

variable {c : Connection} {connId q : ℕ}

/-- A registered queue gets its end, -/
theorem mem_received_endStreams (h : c.streamRecvQueues.get? connId = some q) :
    none ∈ c.endStreams.received q := by
  rw [received_endStreams, List.mem_append]
  refine Or.inr (List.mem_map.2 ⟨(connId, q), ?_, rfl⟩)
  simpa using Dict.mem_entries.2 h

/-- what is in a queue stays there, -/
theorem received_endStreams_prefix (c : Connection) (q : ℕ) :
    c.received q <+: c.endStreams.received q := by
  rw [received_endStreams]
  exact List.prefix_append _ _

/-- and the other queues get nothing. -/
theorem received_endStreams_of_forall (h : ∀ i, c.streamRecvQueues.get? i ≠ some q) :
    c.endStreams.received q = c.received q := by
  have hnil : c.streamRecvQueues.entries.filter (·.2 = q) = [] := by
    rw [List.filter_eq_nil_iff]
    rintro ⟨i, q'⟩ he heq
    obtain rfl : q' = q := by simpa using heq
    exact h i (Dict.mem_entries.1 he)
  rw [received_endStreams, hnil, List.map_nil, List.append_nil]

/-- `close` fails the waiters first, and they are no queues. -/
theorem failWaiters_same (c : Connection) :
    SameStreams c.failWaiters c ∧ SameListeners c.failWaiters c := by
  have hfold : ∀ (futs : List ℕ) (c : Connection),
      SameStreams (futs.foldl (fun c fut => c.settle fut .connectionClosed) c) c ∧
        SameListeners (futs.foldl (fun c fut => c.settle fut .connectionClosed) c) c := by
    intro futs
    induction futs with
    | nil => exact fun c => ⟨⟨rfl, rfl, rfl⟩, ⟨rfl, rfl⟩⟩
    | cons fut futs ih =>
      intro c
      obtain ⟨⟨h₁, h₂, h₃⟩, ⟨h₄, h₅⟩⟩ := ih (c.settle fut .connectionClosed)
      obtain ⟨⟨h₁', h₂', h₃'⟩, ⟨h₄', h₅'⟩⟩ := c.settle_same fut .connectionClosed
      exact ⟨⟨h₁.trans h₁', h₂.trans h₂', h₃.trans h₃'⟩, ⟨h₄.trans h₄', h₅.trans h₅'⟩⟩
  obtain ⟨⟨h₁, h₂, h₃⟩, ⟨h₄, h₅⟩⟩ := hfold c.allWaiters c
  exact ⟨⟨h₁, h₂, h₃⟩, ⟨h₄, h₅⟩⟩

end

end Connection

namespace Streams

/-- Nobody waits for an end : the stream is closed, or its end is in the queue or was read. -/
def Settled (s : Streams) (q : ℕ) : Prop :=
  s.closed q = true ∨ none ∈ s.base.delivered q

/-- Every stream is registered or settled. -/
def Tended (s : Streams) : Prop :=
  ∀ {connId q}, q ∈ s.obtained connId →
    s.Settled q ∨ s.base.conn.streamRecvQueues.get? connId = some q

/-- The queue under a connection id is settled when another stream, or a late `Stream.close`,
takes its place. -/
def Careful (s : Streams) : Action → Prop
  | .endpoint a => ∀ connId, s.base.registers? a = some connId →
    ∀ q, s.base.conn.streamRecvQueues.get? connId = some q → s.Settled q
  | .pop connId _ => ∀ q, s.base.conn.streamRecvQueues.get? connId = some q → s.Settled q
  | .close _ _ => True

section

variable {s s' : Streams} {a : Action} {connId q : ℕ}

/-- A stream that is obtained. -/
theorem mem_obtained_step (hs : s.step a = some s') {i : ℕ} (hq : q ∈ s'.obtained i) :
    q ∈ s.obtained i ∨ q = s.base.queues ∧
      ∃ b, a = .endpoint b ∧ s.base.registers? b = some i := by
  cases a with
  | endpoint b =>
    obtain ⟨base, -, rfl⟩ := step_endpoint hs
    cases hopens : s.base.registers? b with
    | none =>
      simp only [hopens] at hq
      exact Or.inl hq
    | some connId =>
      simp only [hopens, Function.update_apply] at hq
      split_ifs at hq with hi
      · rw [List.mem_append, List.mem_singleton] at hq
        exact hq.imp (fun hq => hi ▸ hq) fun hq => ⟨hq, b, rfl, hi ▸ hopens⟩
      · exact Or.inl hq
  | close i q' =>
    simp only [step, Option.ite_none_right_eq_some, Option.some.injEq] at hs
    obtain ⟨-, rfl⟩ := hs
    exact Or.inl hq
  | pop i q' =>
    simp only [step, Option.ite_none_right_eq_some, Option.some.injEq] at hs
    obtain ⟨-, rfl⟩ := hs
    exact Or.inl hq

/-- What a stream has been given stays, and it gets more from a message only. -/
theorem delivered_step (hs : s.step a = some s') (hq : q ≠ s.base.queues) :
    s.base.delivered q <+: s'.base.delivered q := by
  cases a with
  | endpoint b =>
    obtain ⟨base, hbase, rfl⟩ := step_endpoint hs
    cases hbase with
    | nothing _ _ hsame =>
      rw [hsame.delivered]
    | @item i item c _ _ hsame =>
      show s.base.read q ++ s.base.conn.received q <+: s.base.read q ++ c.received q
      rw [hsame.received, Connection.received_arrive, List.prefix_append_right_inj]
      split
      · rename_i q' _
        by_cases hqq : q = q'
        · rw [hqq, Connection.put, Function.update_self]
          exact List.prefix_append _ _
        · rw [Connection.put, Function.update_of_ne hqq]
      · exact List.prefix_refl _
    | @stream i t _ _ hsame hqueues =>
      show s.base.delivered q <+: (t.openStream i).delivered q
      rw [Endpoints.delivered_openStream (hqueues ▸ hq), hsame.delivered]
  | close i q' =>
    simp only [step, Option.ite_none_right_eq_some, Option.some.injEq] at hs
    obtain ⟨-, rfl⟩ := hs
    exact List.prefix_refl _
  | pop i q' =>
    simp only [step, Option.ite_none_right_eq_some, Option.some.injEq] at hs
    obtain ⟨-, rfl⟩ := hs
    exact List.prefix_refl _

theorem obtained_step (hs : s.step a = some s') {i : ℕ} (hq : q ∈ s.obtained i) :
    q ∈ s'.obtained i := by
  cases a with
  | endpoint b =>
    obtain ⟨base, -, rfl⟩ := step_endpoint hs
    cases hopens : s.base.registers? b with
    | none => simpa only [hopens] using hq
    | some connId =>
      simp only [Function.update_apply]
      split_ifs with hi
      · exact List.mem_append_left _ (hi ▸ hq)
      · exact hq
  | close i q' =>
    simp only [step, Option.ite_none_right_eq_some, Option.some.injEq] at hs
    obtain ⟨-, rfl⟩ := hs
    exact hq
  | pop i q' =>
    simp only [step, Option.ite_none_right_eq_some, Option.some.injEq] at hs
    obtain ⟨-, rfl⟩ := hs
    exact hq

/-- Only a stream that was obtained is closed. -/
theorem closed_cases (hs : s.step a = some s') (hq : s'.closed q = true) :
    s.closed q = true ∨ ∃ i, q ∈ s.obtained i := by
  cases a with
  | endpoint b =>
    obtain ⟨base, -, rfl⟩ := step_endpoint hs
    exact Or.inl hq
  | close i q' =>
    simp only [step, Option.ite_none_right_eq_some, Option.some.injEq] at hs
    obtain ⟨hmem, rfl⟩ := hs
    change Function.update s.closed q' true q = true at hq
    rw [Function.update_apply] at hq
    split_ifs at hq with hqq
    · exact Or.inr ⟨i, hqq ▸ hmem⟩
    · exact Or.inl hq
  | pop i q' =>
    simp only [step, Option.ite_none_right_eq_some, Option.some.injEq] at hs
    obtain ⟨-, rfl⟩ := hs
    exact Or.inl hq

theorem closed_step (hs : s.step a = some s') (hq : s.closed q = true) : s'.closed q = true := by
  cases a with
  | endpoint b =>
    obtain ⟨base, -, rfl⟩ := step_endpoint hs
    exact hq
  | close i q' =>
    simp only [step, Option.ite_none_right_eq_some, Option.some.injEq] at hs
    obtain ⟨-, rfl⟩ := hs
    show Function.update s.closed q' true q = true
    rw [Function.update_apply]
    split_ifs
    · rfl
    · exact hq
  | pop i q' =>
    simp only [step, Option.ite_none_right_eq_some, Option.some.injEq] at hs
    obtain ⟨-, rfl⟩ := hs
    exact hq

theorem Settled.step (h : s.Settled q) (hs : s.step a = some s') (hq : q ≠ s.base.queues) :
    s'.Settled q :=
  h.imp (closed_step hs) fun hnone => (delivered_step hs hq).subset hnone

/-- A stream that is obtained is registered, with what was set aside. -/
theorem opened_step {b : Endpoints.Action} (h : s.Numbered)
    (hs : s.step (.endpoint b) = some s') (hopens : s.base.registers? b = some connId) :
    s.base.queues ∈ s'.obtained connId ∧
      s'.base.conn.streamRecvQueues.get? connId = some s.base.queues ∧
        s'.base.delivered s.base.queues = (s.base.conn.pendingRecv.get? connId).getD [] ∧
          s'.closed = s.closed := by
  obtain ⟨base, hbase, rfl⟩ := step_endpoint hs
  cases hbase with
  | nothing hnone => cases hopens.symm.trans hnone
  | item hnone => cases hopens.symm.trans hnone
  | @stream i t hopens' _ hsame hqueues =>
    obtain rfl : connId = i := Option.some.inj (hopens.symm.trans hopens')
    refine ⟨by simp [hopens], ?_, ?_, rfl⟩
    · rw [← hqueues]
      exact (get?_openStream t connId connId).1.trans (if_pos rfl)
    · have hread : t.read s.base.queues = [] :=
        (hsame.read _ (h.not_named (Nat.le_refl _))).trans (h.unread (Nat.le_refl _))
      simp only [Endpoints.delivered, Endpoints.openStream, Connection.registerRecvQueue, hqueues,
        Function.update_self, hsame.pending]
      rw [hread, List.nil_append]

/-- A queue stays registered, until its end or until another stream takes its place. -/
theorem registered_step (hs : s.step a = some s') (hok : s.Careful a)
    (hq : s.base.conn.streamRecvQueues.get? connId = some q) :
    s'.base.conn.streamRecvQueues.get? connId = some q ∨ s.Settled q ∨
      none ∈ s'.base.delivered q := by
  cases a with
  | endpoint b =>
    obtain ⟨base, hbase, rfl⟩ := step_endpoint hs
    cases hbase with
    | nothing _ _ hsame => exact Or.inl (hsame.queues ▸ hq)
    | @item i item c _ _ hsame =>
      by_cases hend : connId = i ∧ item = none
      · obtain ⟨rfl, rfl⟩ := hend
        refine Or.inr (Or.inr (List.mem_append_right _ ?_))
        show none ∈ c.received q
        rw [hsame.received, Connection.received_arrive, hq]
        simp [Connection.put]
      · left
        show c.streamRecvQueues.get? connId = some q
        rw [hsame.queues, Connection.streamRecvQueues_arrive, if_neg hend, hq]
    | @stream i t hopens _ hsame _ =>
      by_cases hi : connId = i
      · subst hi
        exact Or.inr (Or.inl (hok connId hopens q hq))
      · left
        show (t.openStream i).conn.streamRecvQueues.get? connId = some q
        rw [(get?_openStream t i connId).1, if_neg hi, hsame.queues, hq]
  | close i q' =>
    simp only [step, Option.ite_none_right_eq_some, Option.some.injEq] at hs
    obtain ⟨-, rfl⟩ := hs
    exact Or.inl hq
  | pop i q' =>
    simp only [step, Option.ite_none_right_eq_some, Option.some.injEq] at hs
    obtain ⟨-, rfl⟩ := hs
    by_cases hi : connId = i
    · subst hi
      exact Or.inr (Or.inl (hok q hq))
    · exact Or.inl ((Dict.get?_erase_of_ne _ hi).trans hq)

theorem Tended.step (h : s.Tended) (hnum : s.Numbered) (hok : s.Careful a)
    (hs : s.step a = some s') : s'.Tended := by
  intro i q hq
  rcases mem_obtained_step hs hq with hold | ⟨rfl, b, rfl, hopens⟩
  · have hne := Nat.ne_of_lt (hnum.created hold)
    rcases h hold with hsettled | hget
    · exact Or.inl (hsettled.step hs hne)
    · rcases registered_step hs hok hget with hget | hsettled | hnone
      · exact Or.inr hget
      · exact Or.inl (hsettled.step hs hne)
      · exact Or.inl (Or.inr hnone)
  · exact Or.inr (opened_step hnum hs hopens).2.1

/-- A stream that loses its place is lost : no dictionary names its queue, and it has no end. -/
theorem lost_of_careless (hnum : s.Numbered) (hs : s.step a = some s') (hok : ¬s.Careful a) :
    ∃ connId q, q ∈ s'.obtained connId ∧ ¬s'.Settled q ∧
      ∀ i, s'.base.conn.streamRecvQueues.get? i ≠ some q := by
  have hnum' := hnum.step hs
  -- Only its own id could name it.
  have hlost : ∀ {connId q}, q ∈ s'.obtained connId →
      s'.base.conn.streamRecvQueues.get? connId ≠ some q →
      ∀ i, s'.base.conn.streamRecvQueues.get? i ≠ some q := by
    intro connId q hq hne i hi
    exact hne (hnum'.distinct (hnum'.registered hi) hq ▸ hi)
  cases a with
  | endpoint b =>
    simp only [Careful, not_forall] at hok
    obtain ⟨connId, hopens, q, hget, hsettled⟩ := hok
    have hmem := hnum.registered hget
    have hne := Nat.ne_of_lt (hnum.created hmem)
    obtain ⟨-, hget', -, hclosed⟩ := opened_step hnum hs hopens
    have hq : q ∈ s'.obtained connId := by
      obtain ⟨base, -, rfl⟩ := step_endpoint hs
      simp [hopens, hmem]
    have hdelivered : s'.base.delivered q = s.base.delivered q := by
      obtain ⟨base, hbase, rfl⟩ := step_endpoint hs
      cases hbase with
      | nothing hnone => cases hopens.symm.trans hnone
      | item hnone => cases hopens.symm.trans hnone
      | stream _ _ hsame hqueues =>
        exact (Endpoints.delivered_openStream (hqueues ▸ hne)).trans (hsame.delivered q)
    refine ⟨connId, q, hq, ?_, hlost hq ?_⟩
    · rwa [Settled, hclosed, hdelivered]
    · rw [hget']
      exact fun heq => hne (Option.some.inj heq).symm
  | close i q' => exact absurd trivial hok
  | pop i q' =>
    simp only [Careful, not_forall] at hok
    obtain ⟨q, hget, hsettled⟩ := hok
    have hmem := hnum.registered hget
    simp only [step, Option.ite_none_right_eq_some, Option.some.injEq] at hs
    obtain ⟨-, rfl⟩ := hs
    refine ⟨i, q, hmem, hsettled, hlost hmem ?_⟩
    show (s.base.conn.streamRecvQueues.erase i).get? i ≠ some q
    rw [Dict.get?_erase_self]
    exact fun h => by cases h

end

end Streams

/-- A connection with its streams, from its start to its end. -/
structure StreamLife where
  streams : Streams
  /-- `self._closed.is_set()`. -/
  closed : Bool
  teardown : Teardown
  loop : ReaderPhase

namespace StreamLife

/-- What can happen. -/
inductive Action
  /-- In a task, or a message in the read loop. -/
  | streams (a : Streams.Action)
  /-- `Stream.read` on a stream whose id may have been given to another one. -/
  | read (connId q : ℕ)
  /-- The read loop leaves and calls `close`. -/
  | loopEnds
  /-- A task calls `close`. -/
  | close
  /-- The writer is closed, and `close` goes on. -/
  | closeResume
  /-- `close` is cancelled while it waits. -/
  | closeInterrupt
  | forceClose

/-- A new connection. -/
def init : StreamLife :=
  ⟨.init, false, .none, .reading⟩

def conn (s : StreamLife) : Connection :=
  s.streams.base.conn

def setConn (s : StreamLife) (c : Connection) : StreamLife :=
  { s with streams := { s.streams with base := { s.streams.base with conn := c } } }

/-- The action is a message. -/
def isMessage : Streams.Action → Bool
  | .endpoint (.message _ _) => true
  | _ => false

/-- `close`, up to its await. -/
def beginClose (s : StreamLife) : StreamLife :=
  if s.closed then s else { s with closed := true, teardown := .waiting }

/-- The rest of `close`. -/
def finishClose (s : StreamLife) : StreamLife :=
  { s.setConn s.conn.failWaiters.endStreams with
    teardown := .finished
    loop := match s.loop with
      | .reading => .cancelled
      | .closing => .done
      | l => l }

/-- One action, if it can happen. -/
def step (s : StreamLife) : Action → Option StreamLife
  | .streams a =>
    if isMessage a = true then
      -- The loop looks at the flag once a message is handled.
      if s.loop = .reading then (s.streams.step a).map fun streams =>
        { s with streams, loop := if s.closed then .done else .reading }
      else none
    else (s.streams.step a).map fun streams => { s with streams }
  | .read connId q =>
    if q ∈ s.streams.obtained connId then
      match s.conn.received q with
      | [] => none
      | item :: rest =>
        some { s with streams := { s.streams with base := s.streams.base.pop q item rest } }
    else none
  | .loopEnds =>
    if s.loop = .reading ∨ s.loop = .cancelled then
      some { s.beginClose with loop := if s.closed then .done else .closing }
    else none
  | .close => some s.beginClose
  | .closeResume => if s.teardown = .waiting then some s.finishClose else none
  | .closeInterrupt =>
    if s.teardown = .waiting then
      some { s with
        teardown := .interrupted
        loop := if s.loop = .closing then .done else s.loop }
    else none
  | .forceClose =>
    if s.closed then some s
    else some { s.setConn s.conn.endStreams with closed := true, teardown := .forced }

/-- What an action does where it can be taken. -/
inductive Step (s : StreamLife) : Action → StreamLife → Prop
  | streams {a : Streams.Action} {t : Streams} {l : ReaderPhase} (hs : s.streams.step a = some t) :
    Step s (.streams a) { s with streams := t, loop := l }
  | read {connId q : ℕ} {item : Option Bytes} {rest : List (Option Bytes)}
    (hmem : q ∈ s.streams.obtained connId) (hq : s.conn.received q = item :: rest) :
    Step s (.read connId q)
      { s with streams := { s.streams with base := s.streams.base.pop q item rest } }
  /-- The first `close`, -/
  | begins {a : Action} {l : ReaderPhase} (ha : a = .loopEnds ∨ a = .close)
    (hopen : s.closed = false) : Step s a { s with closed := true, teardown := .waiting, loop := l }
  /-- and another. -/
  | again {a : Action} {l : ReaderPhase} (ha : a = .loopEnds ∨ a = .close ∨ a = .forceClose)
    (hclosed : s.closed = true) : Step s a { s with loop := l }
  | closeResume {l : ReaderPhase} (hwait : s.teardown = .waiting) :
    Step s .closeResume
      { s.setConn s.conn.failWaiters.endStreams with teardown := .finished, loop := l }
  | closeInterrupt {l : ReaderPhase} (hwait : s.teardown = .waiting) :
    Step s .closeInterrupt { s with teardown := .interrupted, loop := l }
  | forceClose (hopen : s.closed = false) :
    Step s .forceClose { s.setConn s.conn.endStreams with closed := true, teardown := .forced }

theorem step_cases {s s' : StreamLife} {a : Action} (hs : s.step a = some s') : Step s a s' := by
  cases a with
  | streams a =>
    simp only [step] at hs
    split at hs
    · split at hs
      · obtain ⟨t, ht, rfl⟩ := Option.map_eq_some_iff.1 hs
        exact .streams ht
      · cases hs
    · obtain ⟨t, ht, rfl⟩ := Option.map_eq_some_iff.1 hs
      exact .streams ht
  | read connId q =>
    simp only [step] at hs
    split_ifs at hs with hmem
    split at hs
    · cases hs
    · rename_i item rest hq
      obtain rfl := Option.some.inj hs
      exact .read hmem hq
  | loopEnds =>
    simp only [step, Option.ite_none_right_eq_some, Option.some.injEq] at hs
    obtain ⟨-, rfl⟩ := hs
    unfold beginClose
    split_ifs with hclosed
    · exact .again (Or.inl rfl) hclosed
    · exact .begins (Or.inl rfl) (by simpa using hclosed)
  | close =>
    obtain rfl := Option.some.inj hs
    unfold beginClose
    split_ifs with hclosed
    · exact .again (Or.inr (Or.inl rfl)) hclosed
    · exact .begins (Or.inr rfl) (by simpa using hclosed)
  | closeResume =>
    simp only [step, Option.ite_none_right_eq_some, Option.some.injEq] at hs
    obtain ⟨hwait, rfl⟩ := hs
    exact .closeResume hwait
  | closeInterrupt =>
    simp only [step, Option.ite_none_right_eq_some, Option.some.injEq] at hs
    obtain ⟨hwait, rfl⟩ := hs
    exact .closeInterrupt hwait
  | forceClose =>
    simp only [step] at hs
    split_ifs at hs with hclosed
    · obtain rfl := Option.some.inj hs
      exact .again (Or.inr (Or.inr rfl)) hclosed
    · obtain rfl := Option.some.inj hs
      exact .forceClose (by simpa using hclosed)

/-- The teardown has put its ends, or never will. -/
def Over (s : StreamLife) : Prop :=
  s.teardown ≠ .none ∧ s.teardown ≠ .waiting

/-- Every stream is closed, or its end is in the queue or was read. -/
def EofSeen (s : StreamLife) : Prop :=
  ∀ connId q, q ∈ s.streams.obtained connId → s.streams.Settled q

/-- No open stream loses its place to another one, a stream that is registered after the
teardown has an end set aside, and `close` is not cancelled while an open stream waits. -/
def Careful (s : StreamLife) : Action → Prop
  | .streams (.endpoint a) => s.streams.Careful (.endpoint a) ∧ (s.Over →
    ∀ connId, s.streams.base.registers? a = some connId →
      none ∈ (s.conn.pendingRecv.get? connId).getD [])
  | .streams a => s.streams.Careful a
  | .closeInterrupt => ∀ connId q, s.conn.streamRecvQueues.get? connId = some q →
    s.streams.Settled q
  | _ => True

/-- How streams stand before and after the teardown. -/
structure Marked (s : StreamLife) : Prop where
  numbered : s.streams.Numbered
  obtained : ∀ {q}, s.streams.closed q = true → ∃ connId, q ∈ s.streams.obtained connId
  flag : s.closed = true ↔ s.teardown ≠ .none
  tended : s.streams.Tended
  ends : s.Over → s.EofSeen

theorem marked_init : Marked init where
  numbered := Streams.numbered_init
  obtained h := by cases h
  flag := by decide
  tended h := by cases h
  ends h := absurd rfl h.1

section

variable {s s' : StreamLife} {a : Action}

/-- A new queue is nobody's. -/
theorem Marked.unclosed (h : s.Marked) : s.streams.closed s.streams.base.queues = false := by
  by_contra hclosed
  obtain ⟨connId, hq⟩ := h.obtained (by simpa using hclosed)
  exact Nat.lt_irrefl _ (h.numbered.created hq)

theorem Marked.congr (h : s.Marked) {t : Streams} (hnum : t.Numbered)
    (hobtained : t.obtained = s.streams.obtained) (hclosed : t.closed = s.streams.closed)
    (hqueues : t.base.conn.streamRecvQueues = s.conn.streamRecvQueues)
    (hdelivered : ∀ q, s.streams.base.delivered q <+: t.base.delivered q) {b : Bool}
    {teardown : Teardown} {l : ReaderPhase} (hflag : b = true ↔ teardown ≠ .none)
    (hover : teardown ≠ .none → teardown ≠ .waiting →
      ∀ {connId q}, q ∈ s.streams.obtained connId → t.Settled q) :
    Marked ⟨t, b, teardown, l⟩ where
  numbered := hnum
  obtained hq := hobtained ▸ h.obtained (hclosed ▸ hq)
  flag := hflag
  tended hq := by
    rw [hqueues]
    exact (h.tended (hobtained ▸ hq)).imp_left
      (Or.imp (fun hq => hclosed ▸ hq) fun hq => (hdelivered _).subset hq)
  ends hover' := fun _ _ hq => hover hover'.1 hover'.2 (hobtained ▸ hq)

/-- The ends are put into the registered queues, and every stream has its own. -/
theorem Marked.endStreams (h : s.Marked) {c : Connection} (hc : Connection.SameStreams c s.conn)
    {b : Bool} {teardown : Teardown} {l : ReaderPhase} (hb : b = true) (hdown : teardown ≠ .none) :
    Marked ⟨(s.setConn c.endStreams).streams, b, teardown, l⟩ := by
  have hdelivered : ∀ q, s.streams.base.delivered q <+:
      (s.setConn c.endStreams).streams.base.delivered q := by
    intro q
    refine (List.prefix_append_right_inj _).2 ?_
    have hpre := c.received_endStreams_prefix q
    rwa [hc.received] at hpre
  refine h.congr (t := (s.setConn c.endStreams).streams) ?_ rfl rfl hc.queues hdelivered
    (iff_of_true hb hdown) fun _ _ connId q hq => ?_
  · refine h.numbered.congr rfl (Nat.le_refl _) rfl (fun {i q} hi => ?_) (fun _ _ => rfl)
      fun _ _ => rfl
    exact hc.queues ▸ hi
  · rcases h.tended hq with (hclosed | hnone) | hget
    · exact Or.inl hclosed
    · exact Or.inr ((hdelivered q).subset hnone)
    · have hget' : c.streamRecvQueues.get? connId = some q := hc.queues ▸ hget
      exact Or.inr (List.mem_append_right _ (Connection.mem_received_endStreams hget'))

theorem Marked.step (h : s.Marked) (hok : s.Careful a) (hs : s.step a = some s') : s'.Marked := by
  cases step_cases hs with
  | @streams b t l hb =>
    have hcareful : s.streams.Careful b := by
      cases b with
      | endpoint b => exact hok.1
      | close | pop => exact hok
    refine ⟨h.numbered.step hb, fun {q} hq => ?_, h.flag,
      Streams.Tended.step h.tended h.numbered hcareful hb,
      fun hover connId q hq => ?_⟩
    · have hold : ∃ i, q ∈ s.streams.obtained i :=
        (Streams.closed_cases hb hq).elim h.obtained id
      exact hold.imp fun i => Streams.obtained_step hb
    · rcases Streams.mem_obtained_step hb hq with hold | ⟨rfl, b, rfl, hopens⟩
      · exact (h.ends hover _ _ hold).step hb (Nat.ne_of_lt (h.numbered.created hold))
      · refine Or.inr ?_
        rw [(Streams.opened_step h.numbered hb hopens).2.2.1]
        exact hok.2 hover connId hopens
  | @read connId q item rest hmem hq =>
    refine h.congr (t := { s.streams with base := s.streams.base.pop q item rest }) ?_ rfl rfl rfl
      (fun q' => ?_) h.flag fun h₁ h₂ i q' hq' => ?_
    · refine h.numbered.congr rfl (Nat.le_refl _) rfl id (fun q' hq' => ?_) fun _ _ => rfl
      have hlt := h.numbered.created hmem
      exact Function.update_of_ne (by omega) _ _
    · show _ <+: (s.streams.base.pop q item rest).delivered q'
      rw [Endpoints.delivered_pop hq]
    · refine (h.ends ⟨h₁, h₂⟩ _ _ hq').imp_right fun hnone => ?_
      show none ∈ (s.streams.base.pop q item rest).delivered q'
      rwa [Endpoints.delivered_pop hq]
  | begins _ _ =>
    exact h.congr h.numbered rfl rfl rfl (fun _ => List.prefix_refl _) (by simp)
      fun _ hwait => absurd rfl hwait
  | again _ hclosed =>
    exact h.congr h.numbered rfl rfl rfl (fun _ => List.prefix_refl _) h.flag
      fun h₁ h₂ _ _ => h.ends ⟨h₁, h₂⟩ _ _
  | closeResume hwait =>
    have hclosed := h.flag.2 (by simp [hwait])
    exact h.endStreams s.conn.failWaiters_same.1 hclosed (by simp)
  | closeInterrupt hwait =>
    have hclosed := h.flag.2 (by simp [hwait])
    refine h.congr h.numbered rfl rfl rfl (fun _ => List.prefix_refl _) (by simp [hclosed])
      fun _ _ connId q hq => ?_
    exact (h.tended hq).elim id fun hget => hok connId q hget
  | forceClose hopen => exact h.endStreams ⟨rfl, rfl, rfl⟩ rfl (by simp)

/-- A stream that is lost has no end after the teardown. -/
theorem eofless_of_lost (hflag : s.closed = true ↔ s.teardown ≠ .none) {connId q : ℕ}
    (hq : q ∈ s.streams.obtained connId) (hsettled : ¬s.streams.Settled q)
    (hlost : ∀ i, s.conn.streamRecvQueues.get? i ≠ some q) :
    ∃ bs t, Machine.run StreamLife.step s bs = some t ∧ t.Over ∧ ¬t.EofSeen := by
  have hsame : ∀ {c : Connection}, Connection.SameStreams c s.conn →
      ¬(s.setConn c.endStreams).streams.Settled q := by
    intro c hc
    have hreceived : c.endStreams.received q = s.conn.received q := by
      rw [Connection.received_endStreams_of_forall (fun i => hc.queues ▸ hlost i), hc.received]
    rintro (hclosed | hnone)
    · exact hsettled (Or.inl hclosed)
    · change none ∈ s.streams.base.read q ++ c.endStreams.received q at hnone
      rw [hreceived] at hnone
      exact hsettled (Or.inr hnone)
  cases hdown : s.teardown with
  | none =>
    have hopen : ¬s.closed = true := fun hclosed => hflag.1 hclosed hdown
    have hstep : s.step .forceClose = some
        { s.setConn s.conn.endStreams with closed := true, teardown := .forced } := if_neg hopen
    exact ⟨[_], _, Machine.run_of_step hstep [], ⟨nofun, nofun⟩,
      fun hseen => hsame ⟨rfl, rfl, rfl⟩ (hseen _ _ hq)⟩
  | waiting =>
    have hstep : s.step .closeResume = some s.finishClose := if_pos hdown
    exact ⟨[_], _, Machine.run_of_step hstep [], ⟨nofun, nofun⟩,
      fun hseen => hsame s.conn.failWaiters_same.1 (hseen _ _ hq)⟩
  | finished => exact ⟨[], s, rfl, by simp [Over, hdown], fun hseen => hsettled (hseen _ _ hq)⟩
  | interrupted => exact ⟨[], s, rfl, by simp [Over, hdown], fun hseen => hsettled (hseen _ _ hq)⟩
  | forced => exact ⟨[], s, rfl, by simp [Over, hdown], fun hseen => hsettled (hseen _ _ hq)⟩

/-- A step that is not careful leaves an open stream without an end. -/
theorem eofless_of_careless (h : s.Marked) (hs : s.step a = some s') (hok : ¬s.Careful a) :
    ∃ bs t, Machine.run StreamLife.step s' bs = some t ∧ t.Over ∧ ¬t.EofSeen := by
  cases step_cases hs with
  | @streams b t l hb =>
    by_cases hcareful : s.streams.Careful b
    · -- The stream is registered after the teardown.
      cases b with
      | close => exact absurd hcareful hok
      | pop => exact absurd hcareful hok
      | endpoint b =>
        simp only [Careful, hcareful, true_and, not_forall] at hok
        obtain ⟨hover, connId, hopens, hnone⟩ := hok
        obtain ⟨hmem, -, hdelivered, hclosed⟩ := Streams.opened_step h.numbered hb hopens
        refine ⟨[], _, rfl, hover, fun hseen => ?_⟩
        rcases hseen _ _ hmem with hset | hset
        · change t.closed _ = true at hset
          rw [hclosed, h.unclosed] at hset
          cases hset
        · change none ∈ t.base.delivered _ at hset
          rw [hdelivered] at hset
          exact hnone hset
    · obtain ⟨connId, q, hmem, hsettled, hlost⟩ := Streams.lost_of_careless h.numbered hb hcareful
      exact eofless_of_lost h.flag hmem hsettled hlost
  | closeInterrupt hwait =>
    simp only [Careful, not_forall] at hok
    obtain ⟨connId, q, hget, hsettled⟩ := hok
    have hmem := h.numbered.registered hget
    refine ⟨[], _, rfl, ⟨fun h => ?_, fun h => ?_⟩, fun hseen => hsettled (hseen _ _ hmem)⟩
    · cases h
    · cases h
  | begins ha => rcases ha with rfl | rfl <;> exact absurd trivial hok
  | again ha => rcases ha with rfl | rfl | rfl <;> exact absurd trivial hok
  | _ => exact absurd trivial hok

end

/-- In a run of careful steps, every open stream has its end once the teardown is over; and a
step that is not careful can be followed by an end of the teardown with an open stream without
one. -/
theorem streams_see_eof {as : List Action} {s : StreamLife}
    (hrun : Machine.run step init as = some s) (hok : Machine.Along step Careful init as) :
    (s.Over → s.EofSeen) ∧ ∀ a s', s.step a = some s' → ¬s.Careful a →
      ∃ bs t, Machine.run step s' bs = some t ∧ t.Over ∧ ¬t.EofSeen := by
  have hmarked : s.Marked :=
    Machine.run_invariant Marked Careful (fun h hok hs => h.step hok hs) marked_init hok hrun
  exact ⟨hmarked.ends, fun a s' => eofless_of_careless hmarked⟩

/-- A `dial` is answered, and then the connection ends. -/
def dialled : List Action :=
  [.streams (.endpoint (.request 0 cmdDialOk)),
    .streams (.endpoint (.message cmdDialOk [0, 0, 0, 7]))]

set_option maxRecDepth 4000 in
/-- The `dial` resumes before the teardown. -/
theorem streams_see_eof_dial :
    ∃ s, Machine.run step init
        (dialled ++ [.streams (.endpoint (.dial 0)), .loopEnds, .closeResume]) = some s ∧
      s.Over ∧ s.streams.obtained 7 = [0] ∧ s.streams.Settled 0 := by
  obtain ⟨s, hrun, hover, hobtained⟩ : ∃ s, Machine.run step init
      (dialled ++ [.streams (.endpoint (.dial 0)), .loopEnds, .closeResume]) = some s ∧
        s.Over ∧ s.streams.obtained 7 = [0] := ⟨_, rfl, ⟨nofun, nofun⟩, rfl⟩
  refine ⟨s, hrun, hover, hobtained, (streams_see_eof hrun ?_).1 hover 7 0 (by simp [hobtained])⟩
  refine ⟨⟨nofun, nofun⟩, ⟨nofun, nofun⟩, ⟨fun connId _ q hq => ?_, fun hover => ?_⟩, trivial,
    trivial, trivial⟩
  · cases hq
  · exact absurd rfl hover.1

set_option maxRecDepth 4000 in
/-- It resumes after the teardown. Its stream is open, and nobody will ever tell it. -/
theorem late_dial_unended :
    ∃ s, Machine.run step init
        (dialled ++ [.loopEnds, .closeResume, .streams (.endpoint (.dial 0))]) = some s ∧
      s.Over ∧ s.streams.obtained 7 = [0] ∧ s.streams.closed 0 = false ∧
        s.streams.base.delivered 0 = [] ∧ ¬s.EofSeen := by
  obtain ⟨s, hrun, hover, hobtained, hopen, hdelivered⟩ : ∃ s, Machine.run step init
      (dialled ++ [.loopEnds, .closeResume, .streams (.endpoint (.dial 0))]) = some s ∧
        s.Over ∧ s.streams.obtained 7 = [0] ∧ s.streams.closed 0 = false ∧
          s.streams.base.delivered 0 = [] := ⟨_, rfl, ⟨nofun, nofun⟩, rfl, rfl, rfl⟩
  refine ⟨s, hrun, hover, hobtained, hopen, hdelivered, fun hseen => ?_⟩
  rcases hseen 7 0 (by simp [hobtained]) with hclosed | hnone
  · rw [hopen] at hclosed
    cases hclosed
  · rw [hdelivered] at hnone
    cases hnone

end StreamLife

end PilotLanggraph

import PilotLanggraph.Endpoints

/-!
# What a stream reads

Data that comes before the receive queue of its connection id is registered waits for it, so a
stream reads all that was sent to its connection id, in order, and its end (`stream_delivery`).
`Streaming` follows the data from the daemon to the queue.
-/

namespace PilotLanggraph

open Ipc

namespace Endpoints

/-- The receive queues against what was `sent` to each connection id : set aside until there
is a queue, then in the queue, up to the end that takes the queue out. -/
structure Streaming (sent : ℕ → List (Option Bytes)) (s : Endpoints) : Prop where
  created : ∀ {connId q}, s.streams connId = some q → q < s.queues
  distinct : ∀ {i j q}, s.streams i = some q → s.streams j = some q → i = j
  unread : ∀ {q}, s.queues ≤ q → s.read q = []
  registered : ∀ {connId q}, s.conn.streamRecvQueues.get? connId = some q →
    s.streams connId = some q
  waiting : ∀ {connId}, s.streams connId = none →
    (s.conn.pendingRecv.get? connId).getD [] = sent connId
  opened : ∀ {connId q}, s.conn.streamRecvQueues.get? connId = some q →
    s.delivered q = sent connId
  ended : ∀ {connId q}, s.streams connId = some q →
    s.conn.streamRecvQueues.get? connId = none →
    ∃ l, s.delivered q = l ++ [none] ∧ s.delivered q <+: sent connId

section

variable {sent : ℕ → List (Option Bytes)} {s : Endpoints}

theorem streaming_init : Streaming (fun _ => []) init where
  created h := by cases h
  distinct h := by cases h
  unread _ := rfl
  registered h := by cases h
  waiting _ := rfl
  opened h := by cases h
  ended h := by cases h

/-- The invariant speaks of the receive queues only. -/
theorem Streaming.congr {s' : Endpoints} (h : Streaming sent s)
    (hconn : Connection.SameStreams s'.conn s.conn) (hqueues : s.queues ≤ s'.queues)
    (hstreams : s'.streams = s.streams) (hread : s'.read = s.read) : Streaming sent s' := by
  have hdelivered : s'.delivered = s.delivered := by
    funext q
    rw [delivered, delivered, hread, hconn.received]
  constructor
  · intro connId q hq
    rw [hstreams] at hq
    exact Nat.lt_of_lt_of_le (h.created hq) hqueues
  · rw [hstreams]
    exact h.distinct
  · intro q hq
    rw [hread]
    exact h.unread (Nat.le_trans hqueues hq)
  · rw [hconn.queues, hstreams]
    exact h.registered
  · rw [hconn.pending, hstreams]
    exact h.waiting
  · rw [hconn.queues, hdelivered]
    exact h.opened
  · rw [hconn.queues, hstreams, hdelivered]
    exact h.ended

/-- A read moves an item, it is delivered all the same. -/
theorem delivered_pop {q : ℕ} {item : Option Bytes} {rest : List (Option Bytes)}
    (hq : s.conn.received q = item :: rest) : (s.pop q item rest).delivered = s.delivered := by
  funext q'
  unfold delivered pop
  by_cases hq' : q' = q
  · subst hq'
    simp only [Function.update_self]
    rw [hq, List.append_assoc, List.singleton_append]
  · simp only [Function.update_of_ne hq']

theorem Streaming.pop {connId q : ℕ} {item : Option Bytes} {rest : List (Option Bytes)}
    (h : Streaming sent s) (hstream : s.streams connId = some q)
    (hq : s.conn.received q = item :: rest) : Streaming sent (s.pop q item rest) := by
  constructor
  · exact h.created
  · exact h.distinct
  · intro q' hq'
    have hne : q' ≠ q := Nat.ne_of_gt (Nat.lt_of_lt_of_le (h.created hstream) hq')
    exact (Function.update_of_ne hne ..).trans (h.unread hq')
  · exact h.registered
  · exact h.waiting
  · rw [delivered_pop hq]
    exact h.opened
  · rw [delivered_pop hq]
    exact h.ended

theorem delivered_openStream {connId q : ℕ} (hq : q ≠ s.queues) :
    (s.openStream connId).delivered q = s.delivered q := by
  simp only [delivered, openStream, Connection.registerRecvQueue, Function.update_of_ne hq]

/-- A new queue starts with what was set aside for it. -/
theorem Streaming.openStream {connId : ℕ} (h : Streaming sent s)
    (hnone : s.streams connId = none) : Streaming sent (s.openStream connId) := by
  have hself : (s.openStream connId).delivered s.queues = sent connId := by
    simp only [delivered, Endpoints.openStream, Connection.registerRecvQueue,
      Function.update_self, h.unread (Nat.le_refl _), List.nil_append]
    exact h.waiting hnone
  have hold {i q : ℕ} (hq : s.streams i = some q) :
      (s.openStream connId).delivered q = s.delivered q :=
    delivered_openStream (Nat.ne_of_lt (h.created hq))
  constructor
  · intro i q hi
    simp only [Endpoints.openStream, Function.update_apply] at hi ⊢
    split_ifs at hi
    · obtain rfl := Option.some.inj hi
      exact Nat.lt_succ_self _
    · exact Nat.lt_succ_of_lt (h.created hi)
  · intro i j q hi hj
    simp only [Endpoints.openStream, Function.update_apply] at hi hj
    split_ifs at hi hj with hi' hj' hj'
    · exact hi'.trans hj'.symm
    · exact absurd (Option.some.inj hi) (Nat.ne_of_gt (h.created hj))
    · exact absurd (Option.some.inj hj) (Nat.ne_of_gt (h.created hi))
    · exact h.distinct hi hj
  · intro q hq
    exact h.unread (Nat.le_of_succ_le hq)
  · intro i q hi
    simp only [Endpoints.openStream, Connection.registerRecvQueue] at hi ⊢
    by_cases hc : i = connId
    · subst hc
      rw [Dict.get?_set_self] at hi
      rw [Function.update_self]
      exact hi
    · rw [Dict.get?_set_of_ne _ _ hc] at hi
      rw [Function.update_of_ne hc]
      exact h.registered hi
  · intro i hi
    simp only [Endpoints.openStream, Connection.registerRecvQueue] at hi ⊢
    by_cases hc : i = connId
    · subst hc
      rw [Function.update_self] at hi
      cases hi
    · rw [Function.update_of_ne hc] at hi
      rw [Dict.get?_erase_of_ne _ hc]
      exact h.waiting hi
  · intro i q hi
    change (s.conn.streamRecvQueues.set connId s.queues).get? i = some q at hi
    by_cases hc : i = connId
    · subst hc
      rw [Dict.get?_set_self] at hi
      obtain rfl := Option.some.inj hi
      exact hself
    · rw [Dict.get?_set_of_ne _ _ hc] at hi
      rw [hold (h.registered hi)]
      exact h.opened hi
  · intro i q hi hget
    change (s.conn.streamRecvQueues.set connId s.queues).get? i = none at hget
    by_cases hc : i = connId
    · subst hc
      rw [Dict.get?_set_self] at hget
      cases hget
    · rw [Dict.get?_set_of_ne _ _ hc] at hget
      simp only [Endpoints.openStream, Function.update_of_ne hc] at hi
      rw [hold hi]
      exact h.ended hi hget

/-- An item that is appended to a queue, -/
theorem delivered_put {c : Connection} {q : ℕ} {item : Option Bytes}
    (hreceived : c.received = Connection.put s.conn.received q item) (q' : ℕ) :
    delivered { s with conn := c } q' =
      if q' = q then s.delivered q ++ [item] else s.delivered q' := by
  simp only [delivered, hreceived, Connection.put, Function.update_apply]
  split_ifs with hq
  · rw [hq, List.append_assoc]
  · rfl

theorem Streaming.ne_of_ne {i j q q' : ℕ} (h : Streaming sent s) (hi : s.streams i = some q)
    (hj : s.streams j = some q') (hne : i ≠ j) : q ≠ q' := by
  rintro rfl
  exact hne (h.distinct hi hj)

/-- An item comes in for a connection id with a queue, -/
theorem Streaming.put {connId q : ℕ} {item : Option Bytes} (h : Streaming sent s)
    (hget : s.conn.streamRecvQueues.get? connId = some q) :
    Streaming (Function.update sent connId (sent connId ++ [item]))
      { s with conn := { s.conn with received := Connection.put s.conn.received q item } } := by
  have hq := h.registered hget
  constructor
  · exact h.created
  · exact h.distinct
  · exact h.unread
  · exact h.registered
  · intro i hi
    have hne : i ≠ connId := by
      rintro rfl
      cases hq.symm.trans hi
    rw [Function.update_of_ne hne]
    exact h.waiting hi
  · intro i q' hi
    rw [delivered_put rfl]
    by_cases hc : i = connId
    · subst hc
      obtain rfl : q = q' := Option.some.inj (hget.symm.trans hi)
      rw [if_pos rfl, Function.update_self, h.opened hget]
    · rw [if_neg (h.ne_of_ne (h.registered hi) hq hc), Function.update_of_ne hc]
      exact h.opened hi
  · intro i q' hi hnone
    have hc : i ≠ connId := by
      rintro rfl
      cases hget.symm.trans hnone
    rw [delivered_put rfl, if_neg (h.ne_of_ne hi hq hc), Function.update_of_ne hc]
    exact h.ended hi hnone

/-- or without one. -/
theorem Streaming.setAside {connId : ℕ} {item : Option Bytes} (h : Streaming sent s)
    (hget : s.conn.streamRecvQueues.get? connId = none) :
    Streaming (Function.update sent connId (sent connId ++ [item]))
      { s with conn := { s.conn with
        pendingRecv := s.conn.pendingRecv.set connId
          ((s.conn.pendingRecv.get? connId).getD [] ++ [item]) } } := by
  constructor
  · exact h.created
  · exact h.distinct
  · exact h.unread
  · exact h.registered
  · intro i hi
    by_cases hc : i = connId
    · subst hc
      rw [Dict.get?_set_self, Option.getD_some, h.waiting hi, Function.update_self]
    · rw [Dict.get?_set_of_ne _ _ hc, Function.update_of_ne hc]
      exact h.waiting hi
  · intro i q hi
    have hc : i ≠ connId := by
      rintro rfl
      cases hget.symm.trans hi
    rw [Function.update_of_ne hc]
    exact h.opened hi
  · intro i q hi hnone
    obtain ⟨l, hl, hprefix⟩ := h.ended hi hnone
    refine ⟨l, hl, ?_⟩
    by_cases hc : i = connId
    · subst hc
      rw [Function.update_self]
      exact hprefix.trans (List.prefix_append _ _)
    · rw [Function.update_of_ne hc]
      exact hprefix

/-- A queue that got the end is taken out. -/
theorem Streaming.erase (h : Streaming sent s) (connId : ℕ)
    (hend : ∀ {q}, s.conn.streamRecvQueues.get? connId = some q →
      ∃ l, s.delivered q = l ++ [none]) :
    Streaming sent { s with conn := { s.conn with
      streamRecvQueues := s.conn.streamRecvQueues.erase connId } } := by
  have hsome {i q : ℕ} (hi : (s.conn.streamRecvQueues.erase connId).get? i = some q) :
      s.conn.streamRecvQueues.get? i = some q := Dict.get?_of_erase hi
  constructor
  · exact h.created
  · exact h.distinct
  · exact h.unread
  · exact fun hi => h.registered (hsome hi)
  · exact h.waiting
  · exact fun hi => h.opened (hsome hi)
  · intro i q hi hnone
    cases hget : s.conn.streamRecvQueues.get? i with
    | none => exact h.ended hi hget
    | some q' =>
      obtain rfl : q = q' := Option.some.inj (hi.symm.trans (h.registered hget))
      have hc : i = connId := by
        by_contra hc
        change (s.conn.streamRecvQueues.erase connId).get? i = none at hnone
        rw [Dict.get?_erase_of_ne _ hc, hget] at hnone
        cases hnone
      subst hc
      obtain ⟨l, hl⟩ := hend hget
      have hprefix : s.delivered q <+: sent i := h.opened hget ▸ List.prefix_refl _
      exact ⟨l, hl, hprefix⟩

/-- An item for a connection id, or its end. -/
theorem Streaming.arrive {connId : ℕ} {item : Option Bytes} (h : Streaming sent s) :
    Streaming (Function.update sent connId (sent connId ++ [item]))
      { s with conn := s.conn.arrive connId item } := by
  have hreceive : Streaming (Function.update sent connId (sent connId ++ [item]))
      { s with conn := s.conn.receive connId item } := by
    unfold Connection.receive
    cases hget : s.conn.streamRecvQueues.get? connId with
    | none => exact h.setAside hget
    | some q => exact h.put hget
  cases item with
  | some data => exact hreceive
  | none =>
    have hqueues : (s.conn.receive connId none).streamRecvQueues = s.conn.streamRecvQueues := by
      unfold Connection.receive
      split <;> rfl
    have herase := hreceive.erase connId fun hget =>
      ⟨sent connId, by rw [hreceive.opened hget, Function.update_self]⟩
    simp only [hqueues] at herase
    exact herase

end

theorem sent_append_of_item_none {a : Action} (h : ∀ connId, a.item? connId = none)
    (as : List Action) :
    (fun connId => sent connId (as ++ [a])) = fun connId => sent connId as := by
  funext connId
  rw [sent_append, h, Option.toList_none, List.append_nil]

theorem streaming_message {as : List Action} {s : Endpoints}
    (h : Streaming (fun connId => sent connId as) s) (cmd : UInt8) (payload : Bytes) :
    Streaming (fun connId => sent connId (as ++ [.message cmd payload]))
      { s with conn := s.conn.dispatch cmd payload } := by
  cases harr : Connection.arrival? cmd payload with
  | none =>
    rw [sent_append_of_item_none fun connId => by rw [Action.item?, harr, Option.bind_none]]
    exact h.congr (s.conn.dispatch_of_arrival_none harr) (Nat.le_refl _) rfl rfl
  | some arrival =>
    obtain ⟨connId, item⟩ := arrival
    have hsent : (fun i => sent i (as ++ [.message cmd payload])) =
        Function.update (fun i => sent i as) connId (sent connId as ++ [item]) := by
      funext i
      rw [sent_append, Action.item?, harr, Option.bind_some, Function.update_apply]
      split_ifs with h₁ h₂ h₂
      · rw [h₂, Option.toList_some]
      · exact absurd h₁.symm h₂
      · exact absurd h₂.symm h₁
      · rw [Option.toList_none, List.append_nil]
    rw [hsent]
    exact h.arrive.congr (s.conn.dispatch_of_arrival_some harr) (Nat.le_refl _) rfl rfl

theorem streaming_step {as : List Action} {s s' : Endpoints} {a : Action}
    (h : Streaming (fun connId => sent connId as) s) (honce : Once s a)
    (hstep : s.step a = some s') : Streaming (fun connId => sent connId (as ++ [a])) s' := by
  cases step_cases hstep with
  | waiters ha hstreams =>
    rw [sent_append_of_item_none (item?_of_not_message ha)]
    exact h.congr hstreams (Nat.le_refl _) rfl rfl
  | message => exact streaming_message h _ _
  | dial hfut hbody =>
    rw [sent_append_of_item_none fun _ => rfl]
    exact h.openStream (honce _ (by simp only [registers?, hfut, hbody, Option.mem_some]))
  | listen =>
    rw [sent_append_of_item_none fun _ => rfl]
    exact h.congr ⟨rfl, rfl, rfl⟩ (Nat.le_succ _) rfl rfl
  | @accept q conn rest hq =>
    rw [sent_append_of_item_none fun _ => rfl]
    have htake : Streaming (fun connId => sent connId as) (s.take q conn rest) :=
      h.congr ⟨rfl, rfl, rfl⟩ (Nat.le_refl _) rfl rfl
    exact htake.openStream (honce _ (by rw [registers?, hq]; rfl))
  | read hstream hq =>
    rw [sent_append_of_item_none fun _ => rfl]
    exact h.pop hstream hq

/-- A prefix that ends with an end of a list of data and ends. -/
theorem eq_replicate_of_prefix {data : List Bytes} {n : ℕ} {l : List (Option Bytes)}
    (h : l ++ [none] <+: data.map some ++ List.replicate n none) :
    ∃ k, l ++ [none] = data.map some ++ List.replicate (k + 1) none ∧ k + 1 ≤ n := by
  induction data generalizing l with
  | nil =>
    simp only [List.map_nil, List.nil_append] at h ⊢
    refine ⟨l.length, ?_, ?_⟩
    · refine List.eq_replicate_iff.2 ⟨by rw [List.length_append, List.length_singleton], ?_⟩
      intro item hitem
      exact List.eq_of_mem_replicate (h.subset hitem)
    · have hlen := h.length_le
      rwa [List.length_append, List.length_replicate] at hlen
  | cons d data ih =>
    cases l with
    | nil => exact absurd (List.cons_prefix_cons.1 h).1 (by simp)
    | cons item l =>
      obtain ⟨rfl, hrest⟩ := List.cons_prefix_cons.1 h
      obtain ⟨k, hk, hn⟩ := ih hrest
      exact ⟨k, congrArg (some d :: ·) hk, hn⟩

/-- What a stream reads and has yet to read, if data was sent to its connection id and then
ends. -/
theorem Streaming.delivery {sent : ℕ → List (Option Bytes)} {s : Endpoints} {connId q n : ℕ}
    {data : List Bytes} (h : Streaming sent s) (hstream : s.streams connId = some q)
    (hsent : sent connId = data.map some ++ List.replicate n none) :
    ∃ k, s.delivered q = data.map some ++ List.replicate k none ∧ k ≤ n ∧ (k = 0 ↔ n = 0) := by
  cases hget : s.conn.streamRecvQueues.get? connId with
  | none =>
    obtain ⟨l, hl, hprefix⟩ := h.ended hstream hget
    rw [hl, hsent] at hprefix
    obtain ⟨k, hk, hn⟩ := eq_replicate_of_prefix hprefix
    exact ⟨k + 1, hl.trans hk, hn, by omega⟩
  | some q' =>
    obtain rfl : q = q' := Option.some.inj (hstream.symm.trans (h.registered hget))
    exact ⟨n, (h.opened hget).trans hsent, Nat.le_refl _, Iff.rfl⟩

/-- Whenever the queue of a connection id is registered, if only once, what its stream reads
and has yet to read is the data sent to that id, in order, followed by an end if one was sent. -/
theorem stream_delivery {as : List Action} {s : Endpoints} {connId q n : ℕ} {data : List Bytes}
    (hrun : Machine.run step init as = some s) (honce : Machine.Along step Once init as)
    (hstream : s.streams connId = some q)
    (hsent : sent connId as = data.map some ++ List.replicate n none) :
    ∃ k, s.delivered q = data.map some ++ List.replicate k none ∧ k ≤ n ∧ (k = 0 ↔ n = 0) := by
  have h : Streaming (fun connId => sent connId as) s :=
    Machine.run_induction_along (fun as s => Streaming (fun connId => sent connId as) s) Once
      streaming_init (fun _ h honce hstep => streaming_step h honce hstep) honce hrun
  exact h.delivery hstream hsent

/-- A dial whose stream gets data before and after its queue is registered, among data for
another connection. -/
def earlyData : List Action :=
  [.request 0 cmdDialOk, .message cmdDialOk [0, 0, 0, 7], .message cmdRecv [0, 0, 0, 7, 1],
    .message cmdRecv [0, 0, 0, 8, 9], .dial 0, .message cmdRecv [0, 0, 0, 7, 2], .read 7,
    .message cmdCloseOk [0, 0, 0, 7]]

theorem stream_delivery_earlyData :
    ∃ s, Machine.run step init earlyData = some s ∧ s.read 0 = [some [1]] ∧
      s.delivered 0 = [some [1], some [2], none] := by
  refine ⟨_, rfl, rfl, ?_⟩
  obtain ⟨k, hk, hle, hzero⟩ :=
    @stream_delivery earlyData _ 7 0 1 [[1], [2]] rfl (by decide) (by decide) (by decide)
  obtain rfl : k = 1 := by omega
  exact hk

end Endpoints

end PilotLanggraph

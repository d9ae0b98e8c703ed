import PilotLanggraph.StreamDelivery

/-!
# Closing streams

`Stream.close` on top of the streams of a connection. It sends `CMD_CLOSE` and then takes the
receive queue of its connection id out, in case the daemon is gone. The daemon answers with
`CMD_CLOSE_OK`, which takes the queue out as well, and is taken for one that came early when
it finds no queue : it is set aside for the next stream on that id.

* `closed_without_residue` : if each stream is closed after its `CMD_CLOSE_OK` was handled, and
  its id is given again after that, closed streams leave nothing behind, and the next stream on
  the id reads what arrived since.
-/

namespace PilotLanggraph

open Ipc

namespace Connection

section

variable (c : Connection) (connId : ℕ) (item : Option Bytes) (i : ℕ)

/-- An end takes the queue of its connection id out, -/
theorem streamRecvQueues_arrive :
    (c.arrive connId item).streamRecvQueues.get? i =
      if i = connId ∧ item = none then none else c.streamRecvQueues.get? i := by
  have hreceive : (c.receive connId item).streamRecvQueues = c.streamRecvQueues := by
    unfold receive
    split <;> rfl
  cases item with
  | some data =>
    rw [if_neg (by simp), ← hreceive]
    rfl
  | none =>
    simp only [arrive, and_true]
    split_ifs with hi
    · rw [hi, Dict.get?_erase_self]
    · rw [Dict.get?_erase_of_ne _ hi]

/-- an item without a queue is set aside, -/
theorem pendingRecv_arrive :
    (c.arrive connId item).pendingRecv.get? i =
      if i = connId ∧ c.streamRecvQueues.get? connId = none then
        some ((c.pendingRecv.get? connId).getD [] ++ [item])
      else c.pendingRecv.get? i := by
  have hreceive : (c.arrive connId item).pendingRecv = (c.receive connId item).pendingRecv := by
    cases item <;> rfl
  rw [hreceive, receive]
  cases hq : c.streamRecvQueues.get? connId with
  | some q => simp
  | none =>
    simp only [and_true]
    split_ifs with hi
    · rw [hi, Dict.get?_set_self]
    · rw [Dict.get?_set_of_ne _ _ hi]

/-- and one with a queue goes there. -/
theorem received_arrive :
    (c.arrive connId item).received =
      match c.streamRecvQueues.get? connId with
      | some q => put c.received q item
      | none => c.received := by
  have hreceive : (c.arrive connId item).received = (c.receive connId item).received := by
    cases item <;> rfl
  rw [hreceive, receive]
  cases c.streamRecvQueues.get? connId <;> rfl

end

end Connection

namespace Endpoints

/-- The receive queues are as before, up to what was read. -/
structure SameQueues (s s' : Endpoints) : Prop where
  queues : s'.conn.streamRecvQueues = s.conn.streamRecvQueues
  pending : s'.conn.pendingRecv = s.conn.pendingRecv
  delivered : ∀ q, s'.delivered q = s.delivered q
  created : s.queues ≤ s'.queues
  streams : s'.streams = s.streams
  read : ∀ q, (∀ i, s.streams i ≠ some q) → s'.read q = s.read q

/-- What an action does to the receive queues. -/
inductive Receives (s : Endpoints) (a : Action) : Endpoints → Prop
  | nothing {s' : Endpoints} (hopens : s.registers? a = none) (hitem : ∀ i, a.item? i = none)
    (hsame : SameQueues s s') : Receives s a s'
  | item {connId : ℕ} {item : Option Bytes} {c : Connection} (hopens : s.registers? a = none)
    (hitem : ∀ i, a.item? i = if connId = i then some item else none)
    (hsame : Connection.SameStreams c (s.conn.arrive connId item)) :
    Receives s a { s with conn := c }
  | stream {connId : ℕ} {t : Endpoints} (hopens : s.registers? a = some connId)
    (hitem : ∀ i, a.item? i = none) (hsame : SameQueues s t) (hqueues : t.queues = s.queues) :
    Receives s a (t.openStream connId)

theorem SameQueues.refl (s : Endpoints) : SameQueues s s :=
  ⟨rfl, rfl, fun _ => rfl, Nat.le_refl _, rfl, fun _ _ => rfl⟩

theorem SameQueues.of_conn {s s' : Endpoints} (h : Connection.SameStreams s'.conn s.conn)
    (hread : s'.read = s.read) (hstreams : s'.streams = s.streams)
    (hqueues : s.queues ≤ s'.queues) : SameQueues s s' := by
  refine ⟨h.queues, h.pending, fun q => ?_, hqueues, hstreams, fun q _ => by rw [hread]⟩
  rw [Endpoints.delivered, Endpoints.delivered, hread, h.received]

theorem receives {s s' : Endpoints} {a : Action} (h : s.step a = some s') : Receives s a s' := by
  cases a with
  | request fut cmd =>
    obtain rfl := Option.some.inj h
    exact .nothing rfl (fun _ => rfl) (.of_conn ⟨rfl, rfl, rfl⟩ rfl rfl (Nat.le_refl _))
  | cancel fut =>
    obtain rfl := Option.some.inj h
    exact .nothing rfl (fun _ => rfl)
      (.of_conn (s.conn.settle_same fut .cancelled).1 rfl rfl (Nat.le_refl _))
  | timeout fut cmd =>
    obtain rfl := Option.some.inj h
    obtain ⟨⟨h₁, h₂, h₃⟩, -⟩ := s.conn.settle_same fut .cancelled
    exact .nothing rfl (fun _ => rfl) (.of_conn ⟨h₁, h₂, h₃⟩ rfl rfl (Nat.le_refl _))
  | message cmd payload =>
    obtain rfl := Option.some.inj h
    cases harr : Connection.arrival? cmd payload with
    | none =>
      refine .nothing rfl (fun i => ?_)
        (.of_conn (s.conn.dispatch_of_arrival_none harr) rfl rfl (Nat.le_refl _))
      rw [Action.item?, harr, Option.bind_none]
    | some arrival =>
      refine .item rfl (fun i => ?_) (s.conn.dispatch_of_arrival_some harr)
      rw [Action.item?, harr, Option.bind_some]
  | dial fut =>
    simp only [step] at h
    split at h
    · rename_i body hfut
      split at h
      · rename_i connId hbody
        obtain rfl := Option.some.inj h
        exact .stream (by simp only [registers?, hfut, hbody]) (fun _ => rfl) (.refl s) rfl
      · rename_i hbody
        obtain rfl := Option.some.inj h
        exact .nothing (by simp only [registers?, hfut, hbody]) (fun _ => rfl) (.refl s)
    · cases h
  | listen fut =>
    simp only [step] at h
    split at h
    · split at h
      · obtain rfl := Option.some.inj h
        exact .nothing rfl (fun _ => rfl) (.of_conn ⟨rfl, rfl, rfl⟩ rfl rfl (Nat.le_succ _))
      · obtain rfl := Option.some.inj h
        exact .nothing rfl (fun _ => rfl) (.refl s)
    · cases h
  | accept q =>
    simp only [step] at h
    split at h
    · cases h
    · rename_i conn rest hq
      obtain rfl := Option.some.inj h
      exact .stream (by rw [registers?, hq]; rfl) (fun _ => rfl)
        (.of_conn ⟨rfl, rfl, rfl⟩ rfl rfl (Nat.le_refl _)) rfl
  | read connId =>
    simp only [step] at h
    split at h
    · cases h
    · rename_i q hstream
      split at h
      · cases h
      · rename_i item rest hq
        obtain rfl := Option.some.inj h
        refine .nothing rfl (fun _ => rfl)
          ⟨rfl, rfl, fun q' => ?_, Nat.le_refl _, rfl, fun q' hq' => ?_⟩
        · rw [delivered_pop hq]
        · refine Function.update_of_ne ?_ _ _
          rintro rfl
          exact hq' connId hstream

end Endpoints

/-- The streams of a connection, each named by its receive queue. -/
structure Streams where
  base : Endpoints
  /-- The streams obtained for a connection id, oldest first. -/
  obtained : ℕ → List ℕ
  /-- `Stream._closed`. -/
  closed : ℕ → Bool
  /-- `Stream.close` has returned. -/
  ended : ℕ → Bool
  /-- What has arrived for a connection id; `none` is a `CMD_CLOSE_OK`. -/
  arrived : ℕ → List (Option Bytes)

namespace Streams

/-- What can happen. -/
inductive Action
  | endpoint (a : Endpoints.Action)
  /-- `Stream.close` begins to send, -/
  | close (connId q : ℕ)
  /-- and takes the queue out when that is done or has failed. -/
  | pop (connId q : ℕ)

/-- A new connection. -/
def init : Streams :=
  ⟨.init, fun _ => [], fun _ => false, fun _ => false, fun _ => []⟩

/-- `self._conn._stream_recv_queues.pop(self.conn_id, None)`. -/
def popQueue (s : Streams) (connId q : ℕ) : Streams :=
  { s with
    base := { s.base with conn := { s.base.conn with
      streamRecvQueues := s.base.conn.streamRecvQueues.erase connId } }
    ended := Function.update s.ended q true }

/-- One action, if it can happen. -/
def step (s : Streams) : Action → Option Streams
  | .endpoint a => (s.base.step a).map fun base =>
    { s with
      base
      obtained := match s.base.registers? a with
        | some connId =>
          Function.update s.obtained connId (s.obtained connId ++ [s.base.queues])
        | none => s.obtained
      arrived := fun connId => s.arrived connId ++ (a.item? connId).toList }
  | .close connId q =>
    if q ∈ s.obtained connId then some { s with closed := Function.update s.closed q true }
    else none
  | .pop connId q =>
    if q ∈ s.obtained connId ∧ s.closed q = true ∧ s.ended q = false then some (s.popQueue connId q)
    else none

/-- Each stream on the connection id is closed, its `CMD_CLOSE_OK` was handled, and nothing
has arrived after the last. -/
def Finished (connId : ℕ) (s : Streams) : Prop :=
  (∀ q ∈ s.obtained connId, s.ended q = true) ∧
    (s.arrived connId).count none = (s.obtained connId).length ∧
      ∀ item ∈ (s.arrived connId).getLast?, item = none

/-- Neither dictionary has an entry for the connection id. -/
def NoResidue (connId : ℕ) (s : Streams) : Prop :=
  s.base.conn.streamRecvQueues.get? connId = none ∧ s.base.conn.pendingRecv.get? connId = none

/-- When `close` takes the queue out, the `CMD_CLOSE_OK` of the stream was handled; and an id
is given to another stream after those before it were closed. -/
def Prompt (connId : ℕ) (s : Streams) : Action → Prop
  | .endpoint a => s.base.registers? a = some connId → ∀ q ∈ s.obtained connId, s.ended q = true
  | .pop i _ => i = connId → (s.obtained connId).length ≤ (s.arrived connId).count none
  | .close _ _ => True

instance (connId : ℕ) (s : Streams) : ∀ a, Decidable (Prompt connId s a)
  | .endpoint _ | .pop _ _ => inferInstanceAs (Decidable (_ → _))
  | .close _ _ => inferInstanceAs (Decidable True)

/-! ## What stays of a closed stream -/

/-- How the streams are numbered. -/
structure Numbered (s : Streams) : Prop where
  created : ∀ {i q}, q ∈ s.obtained i → q < s.base.queues
  distinct : ∀ {i j q}, q ∈ s.obtained i → q ∈ s.obtained j → i = j
  named : ∀ {i q}, s.base.streams i = some q → q ∈ s.obtained i
  registered : ∀ {i q}, s.base.conn.streamRecvQueues.get? i = some q → q ∈ s.obtained i
  unread : ∀ {q}, s.base.queues ≤ q → s.base.read q = []
  fresh : ∀ {q}, s.base.queues ≤ q → s.ended q = false

/-- The two dictionaries at one connection id. Without a queue, the ends of all streams so far
have arrived; what is set aside came after them. -/
structure Tidy (connId : ℕ) (s : Streams) : Prop where
  without : s.base.conn.streamRecvQueues.get? connId = none →
    (s.obtained connId).length ≤ (s.arrived connId).count none
  queued : ∀ {q}, s.base.conn.streamRecvQueues.get? connId = some q →
    (s.obtained connId).length ≤ (s.arrived connId).count none + 1 ∧
      s.base.conn.pendingRecv.get? connId = none
  aside : ∀ {l}, s.base.conn.pendingRecv.get? connId = some l →
    ∃ pre, s.arrived connId = pre ++ l ∧ l ≠ [] ∧
      (s.obtained connId).length ≤ pre.count none
  popped : (∀ q ∈ s.obtained connId, s.ended q = true) →
    s.base.conn.streamRecvQueues.get? connId = none

theorem numbered_init : Numbered init where
  created h := by cases h
  distinct h := by cases h
  named h := by cases h
  registered h := by cases h
  unread _ := rfl
  fresh _ := rfl

theorem tidy_init (connId : ℕ) : Tidy connId init where
  without _ := Nat.le_refl _
  queued h := by cases h
  aside h := by cases h
  popped _ := rfl

section

variable {s : Streams} {base : Endpoints} {connId : ℕ}

/-- A stream on the connection id is obtained. -/
theorem get?_openStream (t : Endpoints) (connId i : ℕ) :
    (t.openStream connId).conn.streamRecvQueues.get? i =
      (if i = connId then some t.queues else t.conn.streamRecvQueues.get? i) ∧
    (t.openStream connId).conn.pendingRecv.get? i =
      if i = connId then none else t.conn.pendingRecv.get? i := by
  simp only [Endpoints.openStream, Connection.registerRecvQueue]
  split_ifs with hi
  · rw [hi, Dict.get?_set_self, Dict.get?_erase_self]
    exact ⟨rfl, rfl⟩
  · rw [Dict.get?_set_of_ne _ _ hi, Dict.get?_erase_of_ne _ hi]
    exact ⟨rfl, rfl⟩

theorem Numbered.not_named (h : Numbered s) {q : ℕ} (hq : s.base.queues ≤ q) (i : ℕ) :
    s.base.streams i ≠ some q :=
  fun hi => Nat.not_le.2 (h.created (h.named hi)) hq

/-- The queues are as before, or fewer of them are registered. -/
theorem Numbered.congr (h : Numbered s) {s' : Streams} (hobtained : s'.obtained = s.obtained)
    (hqueues : s.base.queues ≤ s'.base.queues) (hstreams : s'.base.streams = s.base.streams)
    (hget : ∀ {i q}, s'.base.conn.streamRecvQueues.get? i = some q →
      s.base.conn.streamRecvQueues.get? i = some q)
    (hread : ∀ q, s.base.queues ≤ q → s'.base.read q = s.base.read q)
    (hover : ∀ q, s.base.queues ≤ q → s'.ended q = s.ended q) : Numbered s' where
  created hq := Nat.lt_of_lt_of_le (h.created (hobtained ▸ hq)) hqueues
  distinct hi hj := h.distinct (hobtained ▸ hi) (hobtained ▸ hj)
  named hi := hobtained ▸ h.named (hstreams ▸ hi)
  registered hi := hobtained ▸ h.registered (hget hi)
  unread hq :=
    have hq := Nat.le_trans hqueues hq
    (hread _ hq).trans (h.unread hq)
  fresh hq :=
    have hq := Nat.le_trans hqueues hq
    (hover _ hq).trans (h.fresh hq)

/-- A new stream has the next number. -/
theorem Numbered.stream (h : Numbered s) {t : Endpoints} (hsame : Endpoints.SameQueues s.base t)
    (hqueues : t.queues = s.base.queues) (arrived : ℕ → List (Option Bytes)) :
    Numbered { s with
      base := t.openStream connId
      obtained := Function.update s.obtained connId (s.obtained connId ++ [s.base.queues])
      arrived } := by
  have hold : ∀ {i q}, q ∈ Function.update s.obtained connId
      (s.obtained connId ++ [s.base.queues]) i → q ∈ s.obtained i ∨ i = connId ∧
        q = s.base.queues := by
    intro i q hq
    rw [Function.update_apply] at hq
    split_ifs at hq with hi
    · rw [List.mem_append, List.mem_singleton] at hq
      exact hq.imp (fun hq => hi ▸ hq) fun hq => ⟨hi, hq⟩
    · exact Or.inl hq
  have hnew : ∀ {i q}, q ∈ s.obtained i ∨ i = connId ∧ q = s.base.queues →
      q ∈ Function.update s.obtained connId (s.obtained connId ++ [s.base.queues]) i := by
    intro i q hq
    rw [Function.update_apply]
    split_ifs with hi
    · rw [List.mem_append, List.mem_singleton]
      exact hq.imp (fun hq => hi ▸ hq) And.right
    · exact hq.resolve_right fun hq => hi hq.1
  constructor
  · intro i q hq
    show q < t.queues + 1
    rw [hqueues]
    rcases hold hq with hq | ⟨-, rfl⟩
    · exact Nat.lt_succ_of_lt (h.created hq)
    · exact Nat.lt_succ_self _
  · intro i j q hi hj
    rcases hold hi with hi | ⟨rfl, rfl⟩
    · rcases hold hj with hj | ⟨-, rfl⟩
      · exact h.distinct hi hj
      · exact absurd (h.created hi) (Nat.lt_irrefl _)
    · rcases hold hj with hj | ⟨rfl, -⟩
      · exact absurd (h.created hj) (Nat.lt_irrefl _)
      · rfl
  · intro i q hi
    refine hnew ?_
    change Function.update t.streams connId (some t.queues) i = some q at hi
    rw [Function.update_apply, hsame.streams, hqueues] at hi
    split_ifs at hi with hc
    · exact Or.inr ⟨hc, (Option.some.inj hi).symm⟩
    · exact Or.inl (h.named hi)
  · intro i q hi
    refine hnew ?_
    change (t.openStream connId).conn.streamRecvQueues.get? i = some q at hi
    rw [(get?_openStream t connId i).1, hqueues, hsame.queues] at hi
    split_ifs at hi with hc
    · exact Or.inr ⟨hc, (Option.some.inj hi).symm⟩
    · exact Or.inl (h.registered hi)
  · intro q hq
    change t.queues + 1 ≤ q at hq
    have hq : s.base.queues ≤ q := by omega
    exact (hsame.read q (h.not_named hq)).trans (h.unread hq)
  · intro q hq
    change t.queues + 1 ≤ q at hq
    exact h.fresh (by omega)

end

/-- The action as it acts on the receive queues. -/
theorem step_endpoint {s s' : Streams} {a : Endpoints.Action}
    (h : s.step (.endpoint a) = some s') :
    ∃ base, Endpoints.Receives s.base a base ∧ s' =
      { s with
        base
        obtained := match s.base.registers? a with
          | some connId =>
            Function.update s.obtained connId (s.obtained connId ++ [s.base.queues])
          | none => s.obtained
        arrived := fun connId => s.arrived connId ++ (a.item? connId).toList } := by
  obtain ⟨base, hbase, rfl⟩ := Option.map_eq_some_iff.1 h
  exact ⟨base, Endpoints.receives hbase, rfl⟩

theorem Numbered.step {s s' : Streams} {a : Action} (h : Numbered s) (hs : s.step a = some s') :
    Numbered s' := by
  cases a with
  | endpoint a =>
    obtain ⟨base, hbase, rfl⟩ := step_endpoint hs
    cases hbase with
    | nothing hopens _ hsame =>
      simp only [hopens]
      exact h.congr rfl hsame.created hsame.streams (fun hi => hsame.queues ▸ hi)
        (fun q hq => hsame.read q (h.not_named hq)) fun _ _ => rfl
    | item hopens _ hsame =>
      simp only [hopens]
      refine h.congr rfl (Nat.le_refl _) rfl (fun {i q} hi => ?_) (fun _ _ => rfl) fun _ _ => rfl
      change Dict.get? (Connection.streamRecvQueues _) i = some q at hi
      rw [hsame.queues, Connection.streamRecvQueues_arrive] at hi
      split_ifs at hi
      exact hi
    | stream hopens _ hsame hqueues =>
      simp only [hopens]
      exact h.stream hsame hqueues _
  | close connId q =>
    simp only [Streams.step, Option.ite_none_right_eq_some, Option.some.injEq] at hs
    obtain ⟨-, rfl⟩ := hs
    exact h.congr rfl (Nat.le_refl _) rfl id (fun _ _ => rfl) fun _ _ => rfl
  | pop connId q =>
    simp only [Streams.step, Option.ite_none_right_eq_some, Option.some.injEq] at hs
    obtain ⟨⟨hq, -, -⟩, rfl⟩ := hs
    refine h.congr rfl (Nat.le_refl _) rfl (fun {i q'} hi => ?_) (fun _ _ => rfl) fun q' hq' => ?_
    · change (s.base.conn.streamRecvQueues.erase connId).get? i = some q' at hi
      exact Dict.get?_of_erase hi
    · exact Function.update_of_ne (Nat.ne_of_gt (Nat.lt_of_lt_of_le (h.created hq) hq')) ..

section

variable {s s' : Streams} {connId : ℕ}

/-- Nothing happens to the connection id. -/
theorem Tidy.congr (h : Tidy connId s)
    (hqueue : s'.base.conn.streamRecvQueues.get? connId =
      s.base.conn.streamRecvQueues.get? connId)
    (hpending : s'.base.conn.pendingRecv.get? connId = s.base.conn.pendingRecv.get? connId)
    (hobtained : s'.obtained connId = s.obtained connId)
    (harrived : s'.arrived connId = s.arrived connId)
    (hover : ∀ q ∈ s.obtained connId, s'.ended q = true → s.ended q = true) : Tidy connId s' := by
  constructor
  · rw [hqueue, hobtained, harrived]
    exact h.without
  · rw [hqueue, hobtained, harrived, hpending]
    exact h.queued
  · rw [hobtained, harrived, hpending]
    exact h.aside
  · rw [hobtained, hqueue]
    exact fun hall => h.popped fun q hq => hover q hq (hall q hq)

/-- An item arrives for it. -/
theorem Tidy.item (h : Tidy connId s) (item : Option Bytes)
    (hqueue : s'.base.conn.streamRecvQueues.get? connId =
      if item = none then none else s.base.conn.streamRecvQueues.get? connId)
    (hpending : s'.base.conn.pendingRecv.get? connId =
      if s.base.conn.streamRecvQueues.get? connId = none then
        some ((s.base.conn.pendingRecv.get? connId).getD [] ++ [item])
      else s.base.conn.pendingRecv.get? connId)
    (hobtained : s'.obtained connId = s.obtained connId)
    (harrived : s'.arrived connId = s.arrived connId ++ [item])
    (hover : s'.ended = s.ended) : Tidy connId s' := by
  have hcount : (s'.arrived connId).count none =
      (s.arrived connId).count none + if item = none then 1 else 0 := by
    rw [harrived, List.count_append, List.count_singleton]
    simp only [beq_iff_eq]
  constructor
  · intro hnone
    rw [hobtained, hcount]
    rw [hqueue] at hnone
    cases hget : s.base.conn.streamRecvQueues.get? connId with
    | none => exact Nat.le_add_right_of_le (h.without hget)
    | some q =>
      split_ifs at hnone with hitem
      · rw [if_pos hitem]
        exact (h.queued hget).1
      · exact absurd (hget.symm.trans hnone) (by simp)
  · intro q hq
    rw [hqueue] at hq
    split_ifs at hq with hitem
    rw [hobtained, hcount, if_neg hitem, hpending, hq, if_neg (by simp)]
    exact h.queued hq
  · intro l hl
    rw [hpending] at hl
    rw [hobtained, harrived]
    split_ifs at hl with hget
    · obtain rfl := Option.some.inj hl
      cases hp : s.base.conn.pendingRecv.get? connId with
      | none => exact ⟨s.arrived connId, by simp, by simp, h.without hget⟩
      | some l =>
        obtain ⟨pre, hpre, -, hlen⟩ := h.aside hp
        exact ⟨pre, by simp [hpre], by simp, hlen⟩
    · cases hq : s.base.conn.streamRecvQueues.get? connId with
      | none => exact absurd hq hget
      | some q => exact absurd ((h.queued hq).2.symm.trans hl) (by simp)
  · intro hall
    rw [hobtained, hover] at hall
    rw [hqueue, h.popped hall, ite_self]

theorem Tidy.step {a : Action} (h : Tidy connId s) (hnum : Numbered s) (hok : Prompt connId s a)
    (hs : s.step a = some s') : Tidy connId s' := by
  cases a with
  | endpoint a =>
    obtain ⟨base, hbase, rfl⟩ := step_endpoint hs
    cases hbase with
    | nothing hopens hitem hsame =>
      refine h.congr ?_ ?_ ?_ ?_ fun _ _ => id
      · simp only [hsame.queues]
      · simp only [hsame.pending]
      · simp only [hopens]
      · simp only [hitem, Option.toList_none, List.append_nil]
    | @item i item c hopens hitem hsame =>
      by_cases hc : i = connId
      · refine h.item item ?_ ?_ ?_ ?_ rfl
        · simp [hsame.queues, Connection.streamRecvQueues_arrive, hc]
        · simp [hsame.pending, Connection.pendingRecv_arrive, hc]
        · simp only [hopens]
        · simp [hitem, hc]
      · have hc' : connId ≠ i := fun he => hc he.symm
        refine h.congr ?_ ?_ ?_ ?_ fun _ _ => id
        · simp [hsame.queues, Connection.streamRecvQueues_arrive, hc']
        · simp [hsame.pending, Connection.pendingRecv_arrive, hc']
        · simp only [hopens]
        · simp [hitem, hc]
    | @stream i t hopens hitem hsame hqueues =>
      obtain ⟨hget, hpend⟩ := get?_openStream t i connId
      by_cases hc : i = connId
      · subst hc
        have hall := hok hopens
        rw [if_pos rfl] at hget hpend
        constructor
        · intro hnone
          cases hget.symm.trans hnone
        · intro _ _
          refine ⟨?_, hpend⟩
          simp only [hopens, hitem, Function.update_self, List.length_append, List.length_singleton,
            Option.toList_none, List.append_nil]
          exact Nat.succ_le_succ (h.without (h.popped hall))
        · intro l hl
          cases hpend.symm.trans hl
        · intro hover
          have hnew := hover s.base.queues (by simp [hopens])
          rw [hnum.fresh (Nat.le_refl _)] at hnew
          cases hnew
      · have hc' : connId ≠ i := fun he => hc he.symm
        refine h.congr ?_ ?_ ?_ ?_ fun _ _ => id
        · rw [hget, if_neg hc', hsame.queues]
        · rw [hpend, if_neg hc', hsame.pending]
        · simp only [hopens, Function.update_of_ne hc']
        · simp only [hitem, Option.toList_none, List.append_nil]
  | close i q =>
    simp only [Streams.step, Option.ite_none_right_eq_some, Option.some.injEq] at hs
    obtain ⟨-, rfl⟩ := hs
    exact h.congr rfl rfl rfl rfl fun _ _ => id
  | pop i q =>
    simp only [Streams.step, Option.ite_none_right_eq_some, Option.some.injEq] at hs
    obtain ⟨⟨hq, -, -⟩, rfl⟩ := hs
    by_cases hc : i = connId
    · subst hc
      have hnone : (s.base.conn.streamRecvQueues.erase i).get? i = none := Dict.get?_erase_self _ _
      constructor
      · exact fun _ => hok rfl
      · intro q' hq'
        exact absurd (hnone.symm.trans hq') (by simp)
      · exact h.aside
      · exact fun _ => hnone
    · have hc' : connId ≠ i := fun he => hc he.symm
      refine h.congr (Dict.get?_erase_of_ne _ hc') rfl rfl rfl fun q' hq' hover => ?_
      have hne : q' ≠ q := by
        rintro rfl
        exact hc (hnum.distinct hq hq')
      change Function.update s.ended q true q' = true at hover
      rwa [Function.update_of_ne hne] at hover

/-- A finished connection id left nothing behind. -/
theorem Tidy.noResidue (h : Tidy connId s) (hfin : Finished connId s) : NoResidue connId s := by
  obtain ⟨hover, hcount, hlast⟩ := hfin
  refine ⟨h.popped hover, ?_⟩
  cases hp : s.base.conn.pendingRecv.get? connId with
  | none => rfl
  | some l =>
    obtain ⟨pre, hpre, hne, hlen⟩ := h.aside hp
    -- What is set aside came after all ends, but the last item is one.
    have hmem : none ∈ l := by
      rw [hpre, List.getLast?_append_of_ne_nil _ hne] at hlast
      have hitem := hlast _ (List.getLast?_eq_some_getLast hne)
      exact hitem ▸ List.getLast_mem hne
    rw [hpre, List.count_append] at hcount
    have hpos := List.count_pos_iff.2 hmem
    omega

/-! ## The next stream on the id -/

/-- Since `k` items had arrived : no stream on the id was obtained and they are set aside, or
one was, which gets them, or more than one. -/
def Reused (connId : ℕ) (old : List ℕ) (k : ℕ) (s : Streams) : Prop :=
  k ≤ (s.arrived connId).length ∧
    ((s.obtained connId = old ∧ s.base.conn.streamRecvQueues.get? connId = none ∧
        (s.base.conn.pendingRecv.get? connId).getD [] = (s.arrived connId).drop k) ∨
      (∃ q, s.obtained connId = old ++ [q] ∧ s.base.delivered q <+: (s.arrived connId).drop k ∧
        ∀ q', s.base.conn.streamRecvQueues.get? connId = some q' →
          q' = q ∧ s.base.delivered q = (s.arrived connId).drop k) ∨
      old.length + 1 < (s.obtained connId).length)

theorem NoResidue.reused (h : NoResidue connId s) :
    Reused connId (s.obtained connId) (s.arrived connId).length s :=
  ⟨Nat.le_refl _, Or.inl ⟨rfl, h.1, by rw [h.2, List.drop_length]; rfl⟩⟩

/-- Nothing happens to the id, or its queue is taken out. -/
theorem Reused.congr {old : List ℕ} {k : ℕ} (h : Reused connId old k s)
    (hqueue : ∀ q, s'.base.conn.streamRecvQueues.get? connId = some q →
      s.base.conn.streamRecvQueues.get? connId = some q)
    (hpending : s'.base.conn.pendingRecv.get? connId = s.base.conn.pendingRecv.get? connId)
    (hobtained : s'.obtained connId = s.obtained connId)
    (harrived : s'.arrived connId = s.arrived connId)
    (hdelivered : ∀ q ∈ s.obtained connId, s'.base.delivered q = s.base.delivered q) :
    Reused connId old k s' := by
  obtain ⟨hk, hcases⟩ := h
  refine ⟨harrived ▸ hk, ?_⟩
  rw [hobtained, harrived, hpending]
  rcases hcases with ⟨hold, hnone, haside⟩ | ⟨q, hold, hpre, hqueued⟩ | hmore
  · refine Or.inl ⟨hold, ?_, haside⟩
    rw [Option.eq_none_iff_forall_ne_some] at hnone ⊢
    exact fun q hq => hnone q (hqueue q hq)
  · have hq : s'.base.delivered q = s.base.delivered q := hdelivered q (by simp [hold])
    refine Or.inr (Or.inl ⟨q, hold, ?_, ?_⟩)
    · rwa [hq]
    · rw [hq]
      exact fun q' hq' => hqueued q' (hqueue q' hq')
  · exact Or.inr (Or.inr hmore)

/-- An item arrives for the id. -/
theorem Reused.item {old : List ℕ} {k : ℕ} (h : Reused connId old k s) (item : Option Bytes)
    {c : Connection} (hsame : Connection.SameStreams c (s.base.conn.arrive connId item))
    (arrived : ℕ → List (Option Bytes)) (harrived : arrived connId = s.arrived connId ++ [item]) :
    Reused connId old k { s with base := { s.base with conn := c }, arrived } := by
  obtain ⟨hk, hcases⟩ := h
  have hdrop : (arrived connId).drop k = (s.arrived connId).drop k ++ [item] := by
    rw [harrived, List.drop_append_of_le_length hk]
  have hqueue : c.streamRecvQueues.get? connId =
      if item = none then none else s.base.conn.streamRecvQueues.get? connId := by
    simp [hsame.queues, Connection.streamRecvQueues_arrive]
  refine ⟨by simp only [harrived, List.length_append]; omega, ?_⟩
  simp only [hdrop, hqueue, hsame.pending, Connection.pendingRecv_arrive, true_and]
  rcases hcases with ⟨hold, hnone, haside⟩ | ⟨q, hold, hpre, hqueued⟩ | hmore
  · refine Or.inl ⟨hold, by rw [hnone, ite_self], ?_⟩
    rw [if_pos hnone, Option.getD_some, haside]
  · refine Or.inr (Or.inl ⟨q, hold, ?_⟩)
    have hreceived := hsame.received.trans (s.base.conn.received_arrive connId item)
    cases hget : s.base.conn.streamRecvQueues.get? connId with
    | none =>
      rw [hget] at hreceived
      have hdelivered : Endpoints.delivered { s.base with conn := c } q = s.base.delivered q := by
        simp only [Endpoints.delivered, hreceived]
      rw [hdelivered]
      exact ⟨hpre.trans (List.prefix_append _ _), by simp⟩
    | some q' =>
      obtain ⟨rfl, hall⟩ := hqueued q' hget
      rw [hget] at hreceived
      have hdelivered := Endpoints.delivered_put hreceived q'
      rw [if_pos rfl, hall] at hdelivered
      rw [hdelivered]
      refine ⟨List.prefix_refl _, fun q hq => ?_⟩
      split_ifs at hq
      exact ⟨(Option.some.inj hq).symm, rfl⟩
  · exact Or.inr (Or.inr hmore)

/-- A stream is obtained for the id. -/
theorem Reused.stream {old : List ℕ} {k : ℕ} (h : Reused connId old k s) (hnum : Numbered s)
    {t : Endpoints} (hsame : Endpoints.SameQueues s.base t) (hqueues : t.queues = s.base.queues)
    (obtained : ℕ → List ℕ) (hobtained : obtained connId = s.obtained connId ++ [s.base.queues])
    (arrived : ℕ → List (Option Bytes)) (harrived : arrived connId = s.arrived connId) :
    Reused connId old k { s with base := t.openStream connId, obtained, arrived } := by
  obtain ⟨hk, hcases⟩ := h
  obtain ⟨hget, -⟩ := get?_openStream t connId connId
  rw [if_pos rfl, hqueues] at hget
  refine ⟨?_, ?_⟩
  · simpa only [harrived] using hk
  simp only [hobtained, harrived, hget, List.length_append, List.length_singleton]
  rcases hcases with ⟨hold, -, haside⟩ | ⟨q, hold, -⟩ | hmore
  · have hdelivered : (t.openStream connId).delivered s.base.queues =
        (s.arrived connId).drop k := by
      have hunread : t.read s.base.queues = [] :=
        (hsame.read _ (hnum.not_named (Nat.le_refl _))).trans (hnum.unread (Nat.le_refl _))
      simp only [Endpoints.delivered, Endpoints.openStream, Connection.registerRecvQueue, hqueues,
        Function.update_self, hunread, hsame.pending, haside, List.nil_append]
    refine Or.inr (Or.inl ⟨s.base.queues, by rw [hold], ?_, fun q' hq' => ?_⟩)
    · exact ⟨[], by rw [List.append_nil, hdelivered]⟩
    · exact ⟨(Option.some.inj hq').symm, hdelivered⟩
  · refine Or.inr (Or.inr ?_)
    rw [hold]
    exact Nat.succ_lt_succ (List.length_append ▸ Nat.lt_succ_self old.length)
  · exact Or.inr (Or.inr (Nat.lt_succ_of_lt hmore))

theorem Reused.step {old : List ℕ} {k : ℕ} {a : Action} (h : Reused connId old k s)
    (hnum : Numbered s) (hs : s.step a = some s') : Reused connId old k s' := by
  cases a with
  | endpoint a =>
    obtain ⟨base, hbase, rfl⟩ := step_endpoint hs
    cases hbase with
    | nothing hopens hitem hsame =>
      refine h.congr (fun q hq => ?_) ?_ ?_ ?_ fun q _ => hsame.delivered q
      · simpa only [hsame.queues] using hq
      · simp only [hsame.pending]
      · simp only [hopens]
      · simp only [hitem, Option.toList_none, List.append_nil]
    | @item i item c hopens hitem hsame =>
      simp only [hopens]
      by_cases hc : i = connId
      · subst hc
        exact h.item item hsame _ (by simp [hitem])
      · have hc' : connId ≠ i := fun he => hc he.symm
        refine h.congr (fun q hq => ?_) ?_ rfl ?_ fun q hq => ?_
        · simpa [hsame.queues, Connection.streamRecvQueues_arrive, hc'] using hq
        · simp [hsame.pending, Connection.pendingRecv_arrive, hc']
        · simp [hitem, hc]
        · -- The item goes to a queue of another id, if to any.
          have hreceived := hsame.received.trans (s.base.conn.received_arrive i item)
          cases hget : s.base.conn.streamRecvQueues.get? i with
          | none =>
            rw [hget] at hreceived
            simp only [Endpoints.delivered, hreceived]
          | some q' =>
            rw [hget] at hreceived
            refine (Endpoints.delivered_put hreceived q).trans (if_neg ?_)
            rintro rfl
            exact hc (hnum.distinct (hnum.registered hget) hq)
    | @stream i t hopens hitem hsame hqueues =>
      simp only [hopens]
      by_cases hc : i = connId
      · subst hc
        exact h.stream hnum hsame hqueues _ (Function.update_self ..) _ (by simp [hitem])
      · have hc' : connId ≠ i := fun he => hc he.symm
        obtain ⟨hget, hpend⟩ := get?_openStream t i connId
        refine h.congr (fun q hq => ?_) ?_ ?_ ?_ fun q hq => ?_
        · rwa [hget, if_neg hc', hsame.queues] at hq
        · rw [hpend, if_neg hc', hsame.pending]
        · exact Function.update_of_ne hc' ..
        · simp only [hitem, Option.toList_none, List.append_nil]
        · have hne : q ≠ t.queues := hqueues ▸ Nat.ne_of_lt (hnum.created hq)
          exact (Endpoints.delivered_openStream hne).trans (hsame.delivered q)
  | close i q =>
    simp only [Streams.step, Option.ite_none_right_eq_some, Option.some.injEq] at hs
    obtain ⟨-, rfl⟩ := hs
    exact h.congr (fun _ => id) rfl rfl rfl fun _ _ => rfl
  | pop i q =>
    simp only [Streams.step, Option.ite_none_right_eq_some, Option.some.injEq] at hs
    obtain ⟨-, rfl⟩ := hs
    refine h.congr (fun q hq => ?_) rfl rfl rfl fun _ _ => rfl
    change (s.base.conn.streamRecvQueues.erase i).get? connId = some q at hq
    exact Dict.get?_of_erase hq

end

/-- `dial`, with call `r`, obtains a stream on connection id 7. -/
def dialSeven (r : ℕ) : List Action :=
  [.endpoint (.request r cmdDialOk), .endpoint (.message cmdDialOk [0, 0, 0, 7]),
    .endpoint (.dial r)]

/-- The daemon's `CMD_CLOSE_OK` for connection id 7. -/
def closeOkSeven : Action :=
  .endpoint (.message cmdCloseOk [0, 0, 0, 7])

/-- What the two runs below are looked at for : connection id 7, and stream 1 on it. -/
structure Snapshot where
  obtained : List ℕ
  ended : Bool
  arrived : List (Option Bytes)
  pending : Option (List (Option Bytes))
  delivered : List (Option Bytes)
  deriving DecidableEq

def snapshot (s : Streams) : Snapshot :=
  ⟨s.obtained 7, s.ended 0, s.arrived 7, s.base.conn.pendingRecv.get? 7, s.base.delivered 1⟩

theorem finished_of_snapshot {s : Streams} {pending : Option (List (Option Bytes))}
    (h : s.snapshot = ⟨[0], true, [none], pending, []⟩) : Finished 7 s := by
  obtain ⟨hobtained, hover, harrived, -⟩ := Snapshot.mk.inj h
  refine ⟨?_, ?_, ?_⟩
  · simpa [hobtained] using hover
  · simp [hobtained, harrived]
  · simp [harrived]

end Streams

end PilotLanggraph

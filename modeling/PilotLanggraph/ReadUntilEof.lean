import PilotLanggraph.StreamDelivery

/-!
# Reading a stream to its end

`Stream.read_until_eof` on a connection that goes on around it. It reads until it gets nothing,
and `Stream.read` makes nothing both of the end of the stream and of a frame without data. So it
returns all that was sent if no frame with data comes after one without (`read_until_eof_iff`).
-/

namespace PilotLanggraph

open Ipc

/-- `Stream.read`, with the item that it takes from its queue. -/
def readResult (item : Option Bytes) : Bytes :=
  item.getD []

/-- A connection, and a call of `read_until_eof` on one of its streams. -/
structure UntilEof where
  base : Endpoints
  /-- What the call has read, -/
  chunks : List Bytes
  /-- and what it has returned. -/
  result : Option Bytes

namespace UntilEof

/-- Whatever happens on the connection, or the call takes the next item. -/
inductive Action
  | endpoint (a : Endpoints.Action)
  | resume

/-- The call is about to begin. -/
def init : UntilEof :=
  ⟨.init, [], none⟩

/-- Nobody else reads from the stream. -/
def readsFrom (connId : ℕ) : Endpoints.Action → Bool
  | .read i => i = connId
  | _ => false

/-- One turn of the loop. -/
def turn (s : UntilEof) (chunk : Bytes) : UntilEof :=
  if chunk = [] then { s with result := some s.chunks.flatten }
  else { s with chunks := s.chunks ++ [chunk] }

/-- One action, if it can happen. -/
def step (connId : ℕ) (s : UntilEof) : Action → Option UntilEof
  | .endpoint a =>
    if readsFrom connId a = true then none
    else (s.base.step a).map fun base => { s with base := base }
  | .resume =>
    match s.result, s.base.streams connId with
    | none, some q =>
      match s.base.conn.received q with
      | [] => none
      | item :: rest => some ({ s with base := s.base.pop q item rest }.turn (readResult item))
    | _, _ => none

/-- What an action is on the connection. -/
def Action.onConn (connId : ℕ) : Action → Endpoints.Action
  | .endpoint a => a
  | .resume => .read connId

/-- The condition on the connection. -/
def Once (connId : ℕ) (s : UntilEof) (a : Action) : Prop :=
  Endpoints.Once s.base (a.onConn connId)

instance (connId : ℕ) : DecidableRel (Once connId) :=
  fun s a => inferInstanceAs (Decidable (Endpoints.Once s.base (a.onConn connId)))

/-- What was sent to the stream. -/
def sent (connId : ℕ) (as : List Action) : List (Option Bytes) :=
  Endpoints.sent connId (as.map (Action.onConn connId))

/-! ## Steps -/

/-- What an action does where it can happen. -/
inductive Step (connId : ℕ) (s : UntilEof) : Action → UntilEof → Prop
  | endpoint {a : Endpoints.Action} {base : Endpoints} (hother : readsFrom connId a = false)
    (hbase : s.base.step a = some base) : Step connId s (.endpoint a) { s with base := base }
  | resume {q : ℕ} {item : Option Bytes} {rest : List (Option Bytes)} (hresult : s.result = none)
    (hstream : s.base.streams connId = some q) (hq : s.base.conn.received q = item :: rest) :
    Step connId s .resume ({ s with base := s.base.pop q item rest }.turn (readResult item))

section

variable {connId : ℕ} {s s' : UntilEof} {a : Action}

theorem step_cases (h : step connId s a = some s') : Step connId s a s' := by
  cases a with
  | endpoint a =>
    simp only [step, Option.ite_none_left_eq_some, Option.map_eq_some_iff] at h
    obtain ⟨hother, base, hbase, rfl⟩ := h
    exact .endpoint (Bool.eq_false_iff.2 hother) hbase
  | resume =>
    simp only [step] at h
    split at h
    · rename_i q hresult hstream
      split at h
      · cases h
      · rename_i item rest hq
        obtain rfl := Option.some.inj h
        exact .resume hresult hstream hq
    · cases h

theorem base_turn (s : UntilEof) (chunk : Bytes) : (s.turn chunk).base = s.base := by
  unfold turn
  split_ifs <;> rfl

/-- The connection takes a step of its own. -/
theorem base_step (h : step connId s a = some s') :
    s.base.step (a.onConn connId) = some s'.base := by
  cases step_cases h with
  | endpoint _ hbase => exact hbase
  | resume _ hstream hq =>
    rw [base_turn]
    simp only [Action.onConn, Endpoints.step, hstream, hq]

/-! ## What the call has read -/

/-- The items behind the chunks, and the one without data that ends the call. -/
def Log (s : UntilEof) (items : List (Option Bytes)) : Prop :=
  (∀ chunk ∈ s.chunks, chunk ≠ []) ∧
    match s.result with
    | none => items = s.chunks.map some
    | some r => r = s.chunks.flatten ∧
        ∃ item, readResult item = [] ∧ items = s.chunks.map some ++ [item]

/-- The connection, with the call's part in it. -/
structure Reading (sent : ℕ → List (Option Bytes)) (connId : ℕ) (s : UntilEof) : Prop where
  streaming : Endpoints.Streaming sent s.base
  unopened : s.base.streams connId = none → s.Log []
  opened : ∀ q, s.base.streams connId = some q → s.Log (s.base.read q)

/-- The next item. -/
theorem log_turn {items : List (Option Bytes)} (h : s.Log items) (hresult : s.result = none)
    (item : Option Bytes) : (s.turn (readResult item)).Log (items ++ [item]) := by
  obtain ⟨hne, hitems⟩ := h
  rw [hresult] at hitems
  simp only at hitems
  unfold turn
  split_ifs with hempty
  · exact ⟨hne, rfl, item, hempty, by rw [hitems]⟩
  · refine ⟨?_, ?_⟩
    · intro chunk hchunk
      rcases List.mem_append.1 hchunk with hchunk | hchunk
      · exact hne chunk hchunk
      · rwa [List.mem_singleton.1 hchunk]
    · cases item with
      | none => exact absurd rfl hempty
      | some data => simp [hresult, hitems, readResult]

/-- The rest of the connection does not read from the stream, it can only open it. -/
theorem reading_endpoint {sent : ℕ → List (Option Bytes)} {base base' : Endpoints}
    {a : Endpoints.Action} {P : List (Option Bytes) → Prop} (h : Endpoints.Streaming sent base)
    (honce : Endpoints.Once base a) (hother : readsFrom connId a = false)
    (hunopened : base.streams connId = none → P [])
    (hopened : ∀ q, base.streams connId = some q → P (base.read q))
    (hstep : base.step a = some base') :
    (base'.streams connId = none → P []) ∧
      ∀ q, base'.streams connId = some q → P (base'.read q) := by
  have hopen : ∀ {b : Endpoints} {i : ℕ}, b.streams = base.streams → b.read = base.read →
      b.queues = base.queues → base.streams i = none →
      ((b.openStream i).streams connId = none → P []) ∧
        ∀ q, (b.openStream i).streams connId = some q → P ((b.openStream i).read q) := by
    intro b i hstreams hread hqueues hnone
    simp only [Endpoints.openStream, hstreams, hread, hqueues]
    by_cases hi : connId = i
    · subst hi
      rw [Function.update_self]
      refine ⟨fun hq => (by cases hq), fun q hq => ?_⟩
      obtain rfl := Option.some.inj hq
      rw [h.unread (Nat.le_refl _)]
      exact hunopened hnone
    · rw [Function.update_of_ne hi]
      exact ⟨hunopened, hopened⟩
  cases Endpoints.step_cases hstep with
  | waiters => exact ⟨hunopened, hopened⟩
  | message => exact ⟨hunopened, hopened⟩
  | dial hfut hbody =>
    refine hopen rfl rfl rfl (honce _ ?_)
    simp only [Endpoints.registers?, hfut, hbody, Option.mem_some]
  | listen => exact ⟨hunopened, hopened⟩
  | accept hq =>
    refine hopen rfl rfl rfl (honce _ ?_)
    rw [Endpoints.registers?, hq]
    rfl
  | @read i q item rest hstream hq =>
    refine ⟨hunopened, fun q' hq' => ?_⟩
    have hne : connId ≠ i := by
      rintro rfl
      simp [readsFrom] at hother
    have hread : (base.pop q item rest).read q' = base.read q' :=
      Function.update_of_ne (h.ne_of_ne hq' hstream hne) _ _
    rw [hread]
    exact hopened q' hq'

theorem reading_step {as : List Action} (h : Reading (fun i =>
      Endpoints.sent i (as.map (Action.onConn connId))) connId s)
    (honce : Once connId s a) (hstep : step connId s a = some s') :
    Reading (fun i => Endpoints.sent i ((as ++ [a]).map (Action.onConn connId))) connId s' := by
  have hstreaming := Endpoints.streaming_step h.streaming honce (base_step hstep)
  rw [← List.map_singleton (f := Action.onConn connId), ← List.map_append] at hstreaming
  cases step_cases hstep with
  | endpoint hother hbase =>
    obtain ⟨hunopened, hopened⟩ :=
      reading_endpoint (P := s.Log) h.streaming honce hother h.unopened h.opened hbase
    exact ⟨hstreaming, hunopened, hopened⟩
  | @resume q item rest hresult hstream hq =>
    refine ⟨hstreaming, fun hnone => ?_, fun q' hq' => ?_⟩
    · rw [base_turn] at hnone
      cases hnone.symm.trans hstream
    · rw [base_turn] at hq' ⊢
      obtain rfl : q = q' := Option.some.inj (hstream.symm.trans hq')
      change Log _ (Function.update s.base.read q (s.base.read q ++ [item]) q)
      rw [Function.update_self]
      exact log_turn (s := { s with base := s.base.pop q item rest }) (h.opened q hstream) hresult
        item

theorem reading_run {as : List Action} (honce : Machine.Along (step connId) (Once connId) init as)
    (hrun : Machine.run (step connId) init as = some s) :
    Reading (fun i => Endpoints.sent i (as.map (Action.onConn connId))) connId s := by
  refine Machine.run_induction_along (fun as s => Reading (fun i =>
    Endpoints.sent i (as.map (Action.onConn connId))) connId s) (Once connId) ?_
    (fun _ h honce hstep => reading_step h honce hstep) honce hrun
  exact ⟨Endpoints.streaming_init, fun _ => ⟨by simp [init], rfl⟩, fun q hq => by cases hq⟩

end

/-! ## What the call returns -/

/-- No frame with data comes after a frame without. -/
def NoGap (data : List Bytes) : Prop :=
  data.Pairwise fun d d' => d = [] → d' = []

instance (data : List Bytes) : Decidable (NoGap data) :=
  inferInstanceAs (Decidable (data.Pairwise _))

section

variable {data chunks : List Bytes} {item : Option Bytes} {rest : List (Option Bytes)} {k : ℕ}

/-- The item after the chunks is the end, or a frame. -/
theorem item_cases (h : chunks.map some ++ item :: rest = data.map some ++ List.replicate k none) :
    item = none ∧ chunks = data ∨ ∃ d after, item = some d ∧ data = chunks ++ d :: after := by
  induction chunks generalizing data with
  | nil =>
    cases data with
    | nil =>
      have hmem : item ∈ List.replicate k (none : Option Bytes) := by
        rw [← show item :: rest = List.replicate k none from h]
        exact List.mem_cons_self
      exact .inl ⟨List.eq_of_mem_replicate hmem, rfl⟩
    | cons d data =>
      obtain ⟨hitem, -⟩ := List.cons.inj h
      exact .inr ⟨d, data, hitem, rfl⟩
  | cons chunk chunks ih =>
    cases data with
    | nil =>
      have hmem : some chunk ∈ List.replicate k (none : Option Bytes) := by
        rw [← show some chunk :: (chunks.map some ++ item :: rest) = List.replicate k none from h]
        exact List.mem_cons_self
      cases List.eq_of_mem_replicate hmem
    | cons d data =>
      obtain ⟨hhead, hrest⟩ := List.cons.inj h
      obtain rfl := Option.some.inj hhead
      rcases ih hrest with ⟨hitem, rfl⟩ | ⟨d', after, hitem, rfl⟩
      · exact .inl ⟨hitem, rfl⟩
      · exact .inr ⟨d', after, hitem, rfl⟩

theorem noGap_of_ne_nil (h : ∀ d ∈ data, d ≠ []) : NoGap data :=
  List.pairwise_of_forall_mem_list fun _ hd _ _ hnil => absurd hnil (h _ hd)

/-- After the first frame without data, -/
theorem noGap_append_nil {after : List Bytes} (h : ∀ chunk ∈ chunks, chunk ≠ []) :
    NoGap (chunks ++ [] :: after) ↔ ∀ d ∈ after, d = [] := by
  rw [NoGap, List.pairwise_append, List.pairwise_cons]
  constructor
  · rintro ⟨-, ⟨hafter, -⟩, -⟩ d hd
    exact hafter d hd rfl
  · intro hafter
    refine ⟨noGap_of_ne_nil h, ⟨fun d hd _ => hafter d hd, ?_⟩, ?_⟩
    · exact List.pairwise_of_forall_mem_list fun _ _ d hd _ => hafter d hd
    · exact fun chunk hchunk _ _ hnil => absurd hnil (h chunk hchunk)

/-- the rest must be without data too. -/
theorem flatten_eq_iff (hne : ∀ chunk ∈ chunks, chunk ≠ []) (hitem : readResult item = [])
    (h : chunks.map some ++ item :: rest = data.map some ++ List.replicate k none) :
    chunks.flatten = data.flatten ↔ NoGap data := by
  rcases item_cases h with ⟨-, rfl⟩ | ⟨d, after, rfl, rfl⟩
  · exact iff_of_true rfl (noGap_of_ne_nil hne)
  · obtain rfl : d = [] := hitem
    rw [noGap_append_nil hne, List.flatten_append, List.flatten_cons, List.nil_append,
      List.self_eq_append_right, List.flatten_eq_nil_iff]

end

/-- Frames come for a connection id and then its end, and its queue is registered once,
whenever that is. A call of `read_until_eof` that has taken all it can has returned, and it
has returned all the data exactly if no frame with data comes after a frame without. -/
theorem read_until_eof_iff {connId n : ℕ} {data : List Bytes} {as : List Action} {s : UntilEof}
    (hrun : Machine.run (step connId) init as = some s)
    (honce : Machine.Along (step connId) (Once connId) init as)
    (hopen : s.base.streams connId ≠ none)
    (hsent : sent connId as = data.map some ++ List.replicate (n + 1) none)
    (hread : step connId s .resume = none) :
    ∃ r, s.result = some r ∧ (r = data.flatten ↔ NoGap data) := by
  obtain ⟨q, hq⟩ := Option.ne_none_iff_exists'.1 hopen
  have hreading := reading_run honce hrun
  obtain ⟨k, hdelivered, -, hzero⟩ := hreading.streaming.delivery hq hsent
  obtain ⟨hne, hlog⟩ := hreading.opened q hq
  rw [Endpoints.delivered] at hdelivered
  cases hresult : s.result with
  | none =>
    -- The queue is empty, but the end must be among the items that were read.
    have hreceived : s.base.conn.received q = [] := by
      cases hrecv : s.base.conn.received q with
      | nil => rfl
      | cons item rest =>
        simp only [step, hresult, hq, hrecv] at hread
        cases hread
    rw [hresult] at hlog
    simp only at hlog
    rw [hlog, hreceived, List.append_nil] at hdelivered
    obtain ⟨k, rfl⟩ := Nat.exists_eq_succ_of_ne_zero fun hk => Nat.succ_ne_zero n (hzero.1 hk)
    have hmem : none ∈ s.chunks.map some := by
      rw [hdelivered]
      simp
    simp at hmem
  | some r =>
    rw [hresult] at hlog
    obtain ⟨rfl, item, hitem, hitems⟩ := hlog
    rw [hitems, List.append_assoc, List.singleton_append] at hdelivered
    exact ⟨_, rfl, flatten_eq_iff hne hitem hdelivered⟩

/-- Two frames, the second one without data, and the end. The queue is registered in between. -/
def lastEmpty : List Action :=
  [.endpoint (.request 0 cmdDialOk), .endpoint (.message cmdDialOk [0, 0, 0, 7]),
    .endpoint (.message cmdRecv [0, 0, 0, 7, 1]), .endpoint (.dial 0), .resume,
    .endpoint (.message cmdRecv [0, 0, 0, 7]), .endpoint (.message cmdCloseOk [0, 0, 0, 7]),
    .resume]

theorem read_until_eof_lastEmpty :
    ∃ s r, Machine.run (step 7) init lastEmpty = some s ∧ s.result = some r ∧
      (r = [[1], []].flatten ↔ NoGap [[1], []]) := by
  obtain ⟨s, hrun, hopen, hread⟩ : ∃ s, Machine.run (step 7) init lastEmpty = some s ∧
      s.base.streams 7 ≠ none ∧ step 7 s .resume = none :=
    ⟨_, rfl, by decide, rfl⟩
  obtain ⟨r, hr, hiff⟩ :=
    @read_until_eof_iff 7 0 [[1], []] lastEmpty s hrun (by decide) hopen (by decide) hread
  exact ⟨s, r, hrun, hr, hiff⟩

/-- A frame without data, and then one with data. -/
def firstEmpty : List Action :=
  [.endpoint (.request 0 cmdDialOk), .endpoint (.message cmdDialOk [0, 0, 0, 7]),
    .endpoint (.dial 0), .endpoint (.message cmdRecv [0, 0, 0, 7]),
    .endpoint (.message cmdRecv [0, 0, 0, 7, 1]), .endpoint (.message cmdCloseOk [0, 0, 0, 7]),
    .resume]

/-- The call returns nothing, and leaves the data in the queue. -/
theorem data_left_unread :
    sent 7 firstEmpty = [some [], some [1], none] ∧
      ∃ s, Machine.run (step 7) init firstEmpty = some s ∧ s.result = some [] ∧
        s.result ≠ some [[], [1]].flatten ∧ s.base.conn.received 0 = [some [1], none] :=
  ⟨by decide, _, rfl, rfl, by decide, rfl⟩

end UntilEof

end PilotLanggraph

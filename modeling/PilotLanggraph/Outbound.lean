import PilotLanggraph.Encoders

/-!
# Writing to the daemon

All that a connection sends goes through `_send_raw_locked`, with the write lock held : the
payloads of requests, and the fragments of `Stream.write`, one lock for each. An action is what
happens between two await points; tasks take the lock in any order.

* `outbound_frames` : whatever the interleaving, the bytes are frames, those with data of a
  stream are within the limits of a message, and if a stream has one write at a time, its data
  arrive in the order of the calls.
-/

namespace PilotLanggraph

open Ipc

namespace Outbound

/-! ## Tasks -/

/-- What a task sends. -/
inductive Job
  /-- `Stream.write`. `closed` is `self._closed`, when it is called. -/
  | write (connId : ℕ) (data : Bytes) (closed : Bool)
  /-- One payload. -/
  | request (r : Request)

/-- Where a task is. -/
inductive Phase
  /-- At `async with self._write_lock`, the next payload being encoded. -/
  | lockWait
  | draining
  | returned
  | raised
  deriving DecidableEq

/-- A call, and how many payloads it has handed to the writer. -/
structure Task where
  job : Job
  sent : ℕ
  phase : Phase

namespace Job

/-- The number of its payloads. -/
def count : Job → ℕ
  | .write _ data _ => (fragments data).length
  | .request _ => 1

/-- A payload. `struct.error` leaves none. -/
def payload : Job → ℕ → Option Bytes
  | .write connId data _, k => (fragments data)[k]?.bind (encodeSend connId)
  | .request r, _ => r.encode

/-- The stream that it writes to. -/
def connId? : Job → Option ℕ
  | .write connId _ _ => some connId
  | .request _ => none

/-- A closed stream raises at once, and without data there is nothing to wait for. -/
def start : Job → Phase
  | .write _ _ true => .raised
  | .write _ [] false => .returned
  | _ => .lockWait

end Job

namespace Task

def new (job : Job) : Task :=
  ⟨job, 0, job.start⟩

/-- It has returned or raised. -/
def Ended (t : Task) : Prop :=
  t.phase = .returned ∨ t.phase = .raised

instance (t : Task) : Decidable t.Ended :=
  inferInstanceAs (Decidable (_ ∨ _))

/-- It writes to this stream. -/
def WritesTo (t : Task) (connId : ℕ) : Prop :=
  t.job.connId? = some connId

/-- The data that it has to write to this stream. -/
def data (connId : ℕ) (t : Task) : Bytes :=
  match t.job with
  | .write c data _ => if c = connId then data else []
  | .request _ => []

/-- The part that it has handed to the writer. -/
def handed (connId : ℕ) (t : Task) : Bytes :=
  match t.job with
  | .write c data _ => if c = connId then ((fragments data).take t.sent).flatten else []
  | .request _ => []

end Task

end Outbound

/-! ## The connection -/

/-- A connection, as far as it sends : the bytes handed to the writer, the task that holds the
lock, and the tasks in the order of their calls. -/
structure Outbound where
  wire : Bytes
  lock : Option ℕ
  tasks : List Outbound.Task

namespace Outbound

/-- A new connection. -/
def init : Outbound :=
  ⟨[], none, []⟩

inductive Action
  | call (job : Job)
  /-- The lock is taken, and the frame is handed to the writer. -/
  | acquire (i : ℕ)
  /-- The payload cannot be encoded, or its length cannot. -/
  | refuse (i : ℕ)
  /-- `drain` returns. -/
  | drained (i : ℕ)
  /-- `drain` raises, or the task is cancelled. -/
  | fail (i : ℕ)

/-- A task moves on. -/
def setTask (s : Outbound) (i : ℕ) (t : Task) : Outbound :=
  { s with tasks := s.tasks.set i t }

/-- One action, if it can happen. -/
def step (s : Outbound) : Action → Option Outbound
  | .call job => some { s with tasks := s.tasks ++ [.new job] }
  | .acquire i =>
    s.tasks[i]?.bind fun t =>
      (t.job.payload t.sent).bind fun payload =>
        if t.phase = .lockWait ∧ s.lock = none ∧ payload.length < framing.bound then
          some { s.setTask i { t with sent := t.sent + 1, phase := .draining } with
            wire := s.wire ++ framing.frame payload, lock := some i }
        else none
  | .refuse i =>
    s.tasks[i]?.bind fun t =>
      -- The length is encoded with the lock held.
      if t.phase = .lockWait ∧ (t.job.payload t.sent).all fun payload =>
          s.lock.isNone && framing.bound ≤ payload.length then
        some (s.setTask i { t with phase := .raised })
      else none
  | .drained i =>
    s.tasks[i]?.bind fun t =>
      if t.phase = .draining then
        some { s.setTask i { t with
          phase := if t.sent < t.job.count then .lockWait else .returned } with lock := none }
      else none
  | .fail i =>
    s.tasks[i]?.bind fun t =>
      match t.phase with
      | .lockWait => some (s.setTask i { t with phase := .raised })
      | .draining => some { s.setTask i { t with phase := .raised } with lock := none }
      | _ => none

/-- A stream that has a write in progress gets no other one, unless it ends at once. -/
def OneWrite (s : Outbound) : Action → Prop
  | .call job => (Task.new job).Ended ∨ job.connId? = none ∨
      ∀ t ∈ s.tasks, t.job.connId? = job.connId? → t.Ended
  | _ => True

instance (s : Outbound) : ∀ a, Decidable (s.OneWrite a)
  | .call _ => inferInstanceAs (Decidable (_ ∨ _ ∨ _))
  | .acquire _ | .refuse _ | .drained _ | .fail _ => inferInstanceAs (Decidable True)

/-- The data for a stream in a payload, as the daemon reads it. -/
def dataFor (connId : ℕ) (payload : Bytes) : Bytes :=
  match parseSend payload with
  | some (c, data) => if c = connId then data else []
  | none => []

/-! ## Steps -/

/-- What a step does. -/
inductive Step (s : Outbound) : Action → Outbound → Prop
  | called (job : Job) : Step s (.call job) { s with tasks := s.tasks ++ [.new job] }
  | sent {i : ℕ} {t : Task} {payload : Bytes} (ht : s.tasks[i]? = some t)
    (hgoing : ¬t.Ended) (hpayload : t.job.payload t.sent = some payload)
    (hlength : payload.length < framing.bound) :
    Step s (.acquire i) ⟨s.wire ++ framing.frame payload, some i,
      s.tasks.set i { t with sent := t.sent + 1, phase := .draining }⟩
  | moved {a : Action} {i : ℕ} {t : Task} {phase : Phase} {lock : Option ℕ}
    (ht : s.tasks[i]? = some t) (hgoing : ¬t.Ended)
    (hreturned : phase = .returned → t.job.count ≤ t.sent) :
    Step s a ⟨s.wire, lock, s.tasks.set i { t with phase }⟩

theorem Task.going_of_lockWait {t : Task} (h : t.phase = .lockWait) : ¬t.Ended := by
  rintro (hphase | hphase)
  · cases h.symm.trans hphase
  · cases h.symm.trans hphase

theorem Task.going_of_draining {t : Task} (h : t.phase = .draining) : ¬t.Ended := by
  rintro (hphase | hphase)
  · cases h.symm.trans hphase
  · cases h.symm.trans hphase

theorem step_cases {s s' : Outbound} {a : Action} (h : s.step a = some s') : Step s a s' := by
  cases a with
  | call job =>
    obtain rfl := Option.some.inj h
    exact .called job
  | acquire i =>
    obtain ⟨t, ht, h⟩ := Option.bind_eq_some_iff.1 h
    obtain ⟨payload, hpayload, h⟩ := Option.bind_eq_some_iff.1 h
    split_ifs at h with hgo
    obtain rfl := Option.some.inj h
    exact .sent ht (Task.going_of_lockWait hgo.1) hpayload hgo.2.2
  | refuse i =>
    obtain ⟨t, ht, h⟩ := Option.bind_eq_some_iff.1 h
    split_ifs at h with hgo
    obtain rfl := Option.some.inj h
    exact .moved ht (Task.going_of_lockWait hgo.1) nofun
  | drained i =>
    obtain ⟨t, ht, h⟩ := Option.bind_eq_some_iff.1 h
    split_ifs at h with hphase
    · obtain rfl := Option.some.inj h
      exact .moved ht (Task.going_of_draining hphase) nofun
    · rename_i hcount
      obtain rfl := Option.some.inj h
      exact .moved ht (Task.going_of_draining hphase) fun _ => Nat.not_lt.1 hcount
  | fail i =>
    obtain ⟨t, ht, h⟩ := Option.bind_eq_some_iff.1 h
    split at h
    · rename_i hphase
      obtain rfl := Option.some.inj h
      exact .moved ht (Task.going_of_lockWait hphase) nofun
    · rename_i hphase
      obtain rfl := Option.some.inj h
      exact .moved ht (Task.going_of_draining hphase) nofun
    · cases h

/-! ## What a task has handed over -/

namespace Task

variable {t : Task} {connId : ℕ}

theorem handed_isPrefix (connId : ℕ) (t : Task) : t.handed connId <+: t.data connId := by
  unfold handed data
  split
  · rename_i c d _ _
    split_ifs
    · have hprefix := (List.take_prefix t.sent (fragments d)).flatten
      rwa [flatten_fragments] at hprefix
    · exact List.prefix_rfl
  · exact List.prefix_rfl

/-- All its payloads are all its data. -/
theorem handed_eq_data (h : t.job.count ≤ t.sent) (connId : ℕ) :
    t.handed connId = t.data connId := by
  unfold handed data
  cases hjob : t.job with
  | write c d closed =>
    rw [hjob] at h
    dsimp only
    rw [List.take_of_length_le h, flatten_fragments]
  | request r => rfl

theorem handed_new (job : Job) (connId : ℕ) : (new job).handed connId = [] := by
  cases job with
  | write c d closed => exact ite_self _
  | request r => rfl

theorem data_of_not_writesTo (h : ¬t.WritesTo connId) : t.data connId = [] := by
  unfold data
  split
  · rename_i c d closed hjob
    refine if_neg fun hc => h ?_
    rw [WritesTo, hjob, ← hc]
    rfl
  · rfl

theorem handed_of_not_writesTo (h : ¬t.WritesTo connId) : t.handed connId = [] :=
  List.prefix_nil.1 (data_of_not_writesTo h ▸ t.handed_isPrefix connId)

/-- One more payload, and what the daemon reads of it. -/
theorem handed_sent {payload : Bytes} (h : t.job.payload t.sent = some payload) (phase : Phase)
    (connId : ℕ) : handed connId { t with sent := t.sent + 1, phase } =
      t.handed connId ++ dataFor connId payload := by
  obtain ⟨job, sent, phase₀⟩ := t
  cases job with
  | write c d closed =>
    obtain ⟨fragment, hfragment, hencode⟩ := Option.bind_eq_some_iff.1 h
    unfold handed dataFor
    rw [parseSend_encodeSend hencode]
    dsimp only at hfragment ⊢
    rw [List.take_add_one, hfragment]
    split_ifs
    · simp
    · rfl
  | request r =>
    unfold handed dataFor
    rw [parseSend_request h]
    rfl

end Task

/-- A payload with data of a stream is one that `encode_send` makes of a fragment. -/
theorem parseSend_payload {job : Job} {k : ℕ} {payload : Bytes} (h : job.payload k = some payload)
    (hsend : payload.head? = some cmdSend) :
    ∃ connId data, parseSend payload = some (connId, data) ∧ data ≠ [] ∧ 1 ≤ payload.length ∧
      payload.length ≤ maxMessageSize := by
  cases job with
  | write c d closed =>
    obtain ⟨fragment, hfragment, hencode⟩ := Option.bind_eq_some_iff.1 h
    obtain ⟨hpos, hle⟩ := length_of_mem_fragments (List.mem_of_getElem? hfragment)
    have hroom : maxSendChunk + 5 ≤ maxMessageSize := by decide
    refine ⟨c, fragment, parseSend_encodeSend hencode, List.ne_nil_of_length_pos hpos, ?_, ?_⟩
    · rw [length_encodeSend hencode]
      omega
    · rw [length_encodeSend hencode]
      omega
  | request r =>
    exact absurd (Option.some.inj ((Request.head?_encode h).symm.trans hsend)) r.cmd_ne_cmdSend

/-! ## The invariant -/

/-- The writes to a stream come one after the other : what comes after one in progress has ended
without handing anything over. -/
def Serial (tasks : List Task) : Prop :=
  ∀ (i j : ℕ) (t u : Task) (connId : ℕ), i < j → tasks[i]? = some t → tasks[j]? = some u →
    t.WritesTo connId → u.WritesTo connId → ¬t.Ended → u.Ended ∧ u.handed connId = []

/-- What was sent, and what the tasks have handed over. -/
structure Sound (s : Outbound) (payloads : List Bytes) : Prop where
  wire : s.wire = framing.wire payloads
  short : ∀ p ∈ payloads, p.length < framing.bound
  send : ∀ p ∈ payloads, p.head? = some cmdSend → ∃ connId data,
    parseSend p = some (connId, data) ∧ data ≠ [] ∧ 1 ≤ p.length ∧ p.length ≤ maxMessageSize
  returned : ∀ t ∈ s.tasks, t.phase = .returned → t.job.count ≤ t.sent

/-- And the data of each stream in the order of the calls. -/
structure Ordered (s : Outbound) (payloads : List Bytes) : Prop where
  serial : Serial s.tasks
  data : ∀ connId, payloads.flatMap (dataFor connId) = s.tasks.flatMap (Task.handed connId)

theorem Sound.init : Sound init [] :=
  ⟨rfl, List.forall_mem_nil _, List.forall_mem_nil _, List.forall_mem_nil _⟩

theorem Ordered.init : Ordered init [] :=
  ⟨fun _ _ _ _ _ _ h => (nomatch h), fun _ => rfl⟩

/-- A change of one element that adds to its list, if there is nothing after it. -/
theorem flatMap_set {α β : Type*} (f : α → List β) {a b : α} {more : List β}
    (hb : f b = f a ++ more) : ∀ {l : List α} {i : ℕ}, l[i]? = some a →
      (more = [] ∨ ∀ j c, i < j → l[j]? = some c → f c = []) →
      (l.set i b).flatMap f = l.flatMap f ++ more
  | [], _, hi, _ => nomatch hi
  | x :: l, 0, hi, hlater => by
    obtain rfl := Option.some.inj hi
    rw [List.set_cons_zero, List.flatMap_cons, List.flatMap_cons, hb]
    rcases hlater with rfl | hlater
    · rw [List.append_nil, List.append_nil]
    · have hnil : l.flatMap f = [] := by
        refine List.flatMap_eq_nil_iff.2 fun c hc => ?_
        obtain ⟨j, hj⟩ := List.getElem?_of_mem hc
        exact hlater (j + 1) c (Nat.succ_pos j) hj
      rw [hnil, List.append_nil, List.append_nil]
  | x :: l, i + 1, hi, hlater => by
    rw [List.set_cons_succ, List.flatMap_cons, List.flatMap_cons, List.append_assoc]
    refine congrArg (f x ++ ·) (flatMap_set f hb hi (hlater.imp_right fun h j c hj hc => ?_))
    exact h (j + 1) c (Nat.succ_lt_succ hj) hc

theorem Task.count_of_new_returned {job : Job} (h : (Task.new job).phase = .returned) :
    job.count ≤ 0 := by
  match job with
  | .write _ [] false => exact Nat.le_refl 0
  | .write _ (_ :: _) false => cases h
  | .write _ _ true => cases h
  | .request _ => cases h

section

variable {s s' : Outbound} {a : Action} {payloads : List Bytes}

/-- What a task in progress becomes does not change the order. -/
theorem Serial.set {tasks : List Task} (h : Serial tasks) {i : ℕ} {t t' : Task}
    (ht : tasks[i]? = some t) (hgoing : ¬t.Ended) (hjob : t'.job = t.job) :
    Serial (tasks.set i t') := by
  have hwrites : ∀ connId, t'.WritesTo connId → t.WritesTo connId :=
    fun connId hw => (congrArg Job.connId? hjob).symm.trans hw
  intro j k v u connId hjk hv hu hvw huw hvgoing
  rw [List.getElem?_set] at hv hu
  by_cases hij : i = j
  · subst hij
    rw [if_neg (Nat.ne_of_lt hjk)] at hu
    rw [if_pos rfl] at hv
    split_ifs at hv
    obtain rfl := Option.some.inj hv
    exact h i k t u connId hjk ht hu (hwrites connId hvw) huw hgoing
  · rw [if_neg hij] at hv
    by_cases hik : i = k
    · subst hik
      rw [if_pos rfl] at hu
      split_ifs at hu
      obtain rfl := Option.some.inj hu
      exact absurd (h j i v t connId hjk hv ht hvw (hwrites connId huw) hvgoing).1 hgoing
    · rw [if_neg hik] at hu
      exact h j k v u connId hjk hv hu hvw huw hvgoing

/-- A call that waits for its turn, or ends at once, keeps the order. -/
theorem Serial.called (h : Serial s.tasks) {job : Job} (hone : OneWrite s (.call job)) :
    Serial (s.tasks ++ [.new job]) := by
  intro j k v u connId hjk hv hu hvw huw hvgoing
  have hklt := (List.getElem?_eq_some_iff.1 hu).1
  rw [List.length_append, List.length_singleton] at hklt
  rw [List.getElem?_append_left (by omega)] at hv
  by_cases hk : k < s.tasks.length
  · rw [List.getElem?_append_left hk] at hu
    exact h j k v u connId hjk hv hu hvw huw hvgoing
  · obtain rfl : k = s.tasks.length := by omega
    rw [List.getElem?_concat_length] at hu
    obtain rfl := Option.some.inj hu
    refine ⟨hone.resolve_right fun hturn => ?_, Task.handed_new job connId⟩
    rcases hturn with hnone | hturn
    · cases hnone.symm.trans huw
    · exact hvgoing (hturn v (List.mem_of_getElem? hv) (hvw.trans huw.symm))

/-- A payload adds to the data of its stream, at the end. -/
theorem Ordered.sent (h : Ordered s payloads) {i : ℕ} {t : Task} {payload : Bytes}
    (ht : s.tasks[i]? = some t) (hgoing : ¬t.Ended)
    (hpayload : t.job.payload t.sent = some payload) (connId : ℕ) :
    (payloads ++ [payload]).flatMap (dataFor connId) =
      (s.tasks.set i { t with sent := t.sent + 1, phase := .draining }).flatMap
        (Task.handed connId) := by
  have hmore := Task.handed_sent hpayload .draining connId
  rw [List.flatMap_append, List.flatMap_singleton, h.data]
  refine (flatMap_set (Task.handed connId) hmore ht ?_).symm
  by_cases hwrites : t.WritesTo connId
  · refine Or.inr fun j u hj hu => ?_
    by_cases huw : u.WritesTo connId
    · exact (h.serial i j t u connId hj ht hu hwrites huw hgoing).2
    · exact Task.handed_of_not_writesTo huw
  · have hnone : Task.handed connId { t with sent := t.sent + 1, phase := .draining } = [] :=
      Task.handed_of_not_writesTo hwrites
    exact Or.inl (List.append_eq_nil_iff.1 (hmore.symm.trans hnone)).2

/-- A step sends one payload more, or none. -/
theorem Sound.step (h : Sound s payloads) (hstep : Step s a s') :
    ∃ more, Sound s' (payloads ++ more) ∧
      (Ordered s payloads → OneWrite s a → Ordered s' (payloads ++ more)) := by
  cases hstep with
  | called job =>
    refine ⟨[], ?_⟩
    rw [List.append_nil]
    refine ⟨⟨h.wire, h.short, h.send, fun t ht hreturned => ?_⟩, fun ho hone => ⟨?_, ?_⟩⟩
    · rcases List.mem_append.1 ht with ht | ht
      · exact h.returned t ht hreturned
      · obtain rfl := List.mem_singleton.1 ht
        exact Task.count_of_new_returned hreturned
    · exact ho.serial.called hone
    · intro connId
      rw [ho.data, List.flatMap_append, List.flatMap_singleton, Task.handed_new, List.append_nil]
  | @sent i t payload ht hgoing hpayload hlength =>
    refine ⟨[payload], ⟨?_, ?_, ?_, fun u hu hreturned => ?_⟩, fun ho _ => ⟨?_, fun connId => ?_⟩⟩
    · rw [LengthPrefix.wire_concat, h.wire]
    · intro p hp
      rcases List.mem_append.1 hp with hp | hp
      · exact h.short p hp
      · exact List.mem_singleton.1 hp ▸ hlength
    · intro p hp hsend
      rcases List.mem_append.1 hp with hp | hp
      · exact h.send p hp hsend
      · obtain rfl := List.mem_singleton.1 hp
        exact parseSend_payload hpayload hsend
    · rcases List.mem_or_eq_of_mem_set hu with hu | rfl
      · exact h.returned u hu hreturned
      · cases hreturned
    · exact ho.serial.set ht hgoing rfl
    · exact ho.sent ht hgoing hpayload connId
  | @moved a i t phase lock ht hgoing hreturned =>
    refine ⟨[], ?_⟩
    rw [List.append_nil]
    refine ⟨⟨h.wire, h.short, h.send, fun u hu hphase => ?_⟩, fun ho _ => ⟨?_, fun connId => ?_⟩⟩
    · rcases List.mem_or_eq_of_mem_set hu with hu | rfl
      · exact h.returned u hu hphase
      · exact hreturned hphase
    · exact ho.serial.set ht hgoing rfl
    · have hsame : Task.handed connId { t with phase } = t.handed connId ++ [] :=
        (List.append_nil _).symm
      rw [ho.data, flatMap_set (Task.handed connId) hsame ht (Or.inl rfl), List.append_nil]

/-! ## Runs -/

variable {as : List Action}

/-- In any run, what has been handed to the writer is a sequence of frames. -/
theorem sound_run (hrun : Machine.run Outbound.step init as = some s) :
    ∃ payloads, Sound s payloads := by
  refine Machine.run_induction (fun _ s => ∃ payloads, Sound s payloads) ⟨[], .init⟩ ?_ hrun
  rintro as s a s' - ⟨payloads, h⟩ hstep
  obtain ⟨more, h', -⟩ := h.step (step_cases hstep)
  exact ⟨_, h'⟩

theorem ordered_run (hrun : Machine.run Outbound.step init as = some s)
    (hone : Machine.Along Outbound.step OneWrite init as) :
    ∃ payloads, Sound s payloads ∧ Ordered s payloads := by
  refine Machine.run_induction_along (fun _ s => ∃ payloads, Sound s payloads ∧ Ordered s payloads)
    OneWrite ⟨[], .init, .init⟩ ?_ hone hrun
  rintro as s a s' - ⟨payloads, h, ho⟩ hone hstep
  obtain ⟨more, h', ho'⟩ := h.step (step_cases hstep)
  exact ⟨_, h', ho' ho hone⟩

/-- On the socket there is a start of them. -/
theorem socket_frames (hrun : Machine.run Outbound.step init as = some s) {socket : Bytes}
    (hsocket : socket <+: s.wire) :
    ∃ payloads earlier rest, Sound s payloads ∧
      framing.frames.split socket = .ok (earlier, rest) ∧ earlier <+: payloads := by
  obtain ⟨payloads, h⟩ := sound_run hrun
  obtain ⟨earlier, rest, hsplit, hprefix⟩ :=
    LengthPrefix.split_of_isPrefix h.short (h.wire ▸ hsocket)
  exact ⟨payloads, earlier, rest, h, hsplit, hprefix⟩

/-- Whatever the interleaving, the bytes are frames, the data of a stream comes in messages that
the limits allow, and it is what was written to the stream, in the order of the calls : a write
that has returned has handed over all of its data, any other a start of it. -/
theorem outbound_frames (hrun : Machine.run Outbound.step init as = some s)
    (hone : Machine.Along Outbound.step OneWrite init as) :
    ∃ payloads, framing.frames.split s.wire = .ok (payloads, []) ∧
      (∀ p ∈ payloads, p.head? = some cmdSend → ∃ connId data,
        parseSend p = some (connId, data) ∧ data ≠ [] ∧ 1 ≤ p.length ∧
          p.length ≤ maxMessageSize) ∧
      ∀ connId,
        payloads.flatMap (dataFor connId) = s.tasks.flatMap (Task.handed connId) ∧
        (∀ t ∈ s.tasks, t.handed connId <+: t.data connId ∧
          (t.phase = .returned → t.handed connId = t.data connId)) ∧
        ((∀ t ∈ s.tasks, t.WritesTo connId → t.phase = .returned) →
          payloads.flatMap (dataFor connId) = s.tasks.flatMap (Task.data connId)) := by
  obtain ⟨payloads, h, ho⟩ := ordered_run hrun hone
  have hreturned : ∀ connId, ∀ t ∈ s.tasks, t.phase = .returned →
      t.handed connId = t.data connId :=
    fun connId t ht hphase => Task.handed_eq_data (h.returned t ht hphase) connId
  refine ⟨payloads, ?_, h.send, fun connId => ⟨ho.data connId, fun t ht => ?_, fun hall => ?_⟩⟩
  · rw [h.wire]
    exact LengthPrefix.split_wire h.short
  · exact ⟨t.handed_isPrefix connId, hreturned connId t ht⟩
  · rw [ho.data]
    refine List.flatMap_congr fun t ht => ?_
    by_cases hwrites : t.WritesTo connId
    · exact hreturned connId t ht (hall t ht hwrites)
    · rw [Task.handed_of_not_writesTo hwrites, Task.data_of_not_writesTo hwrites]

end

/-- Two streams and a request, one after the other in the order in which they get the lock. -/
def twoStreams : List Action :=
  [.call (.write 1 [10] false), .call (.write 2 [20, 21] false), .call (.request .info),
    .acquire 1, .drained 1, .acquire 2, .call (.write 2 [22] false), .drained 2, .acquire 3,
    .drained 3, .acquire 0, .drained 0]

set_option maxRecDepth 4000 in
theorem outbound_frames_two : ∃ s payloads, Machine.run Outbound.step init twoStreams = some s ∧
    framing.frames.split s.wire = .ok (payloads, []) ∧
    payloads.flatMap (dataFor 1) = [10] ∧ payloads.flatMap (dataFor 2) = [20, 21, 22] := by
  obtain ⟨s, hrun, h₁, h₂⟩ : ∃ s, Machine.run Outbound.step init twoStreams = some s ∧
      s.tasks.flatMap (Task.handed 1) = [10] ∧ s.tasks.flatMap (Task.handed 2) = [20, 21, 22] :=
    ⟨_, rfl, rfl, rfl⟩
  obtain ⟨payloads, hsplit, -, hdata⟩ := outbound_frames hrun (by decide +kernel)
  exact ⟨s, payloads, hrun, hsplit, (hdata 1).1.trans h₁, (hdata 2).1.trans h₂⟩

end Outbound

end PilotLanggraph

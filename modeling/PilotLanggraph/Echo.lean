import PilotLanggraph.Address
import PilotLanggraph.Encoders
import PilotLanggraph.Lib.JsonText

/-!
# The echo of a peer

`PilotEchoRunnable` writes its input as JSON to the echo port of a peer, reads once, and reports
whether that was the whole text again. `round_trip_ok_iff` says when it does : a peer that sends
back all bytes is reported as failing if they do not come in one read.
-/

namespace PilotLanggraph

open Ipc

/-- What `ainvoke` returns. -/
structure EchoResult where
  peer : String
  echoedPayload : String
  echoedBytes : ℕ
  roundTripOk : Bool

namespace PilotEchoRunnable

/-- `wire_str`, where `input` is what `json.dumps` makes of the input. -/
def wireStr (input : Json.Value) : String :=
  .ofList (Json.dumps Json.compact input.val)

/-- The bytes that are written. -/
def wire (input : Json.Value) : Bytes :=
  Utf8.encode (wireStr input)

/-- `ainvoke`, from the chunk that it has read on. -/
def ainvoke (peerAddr : Addr) (input : Json.Value) (chunk : Bytes) : EchoResult :=
  let echoed := Utf8.decode chunk
  { peer := peerAddr.str
    echoedPayload := echoed
    echoedBytes := echoed.length
    roundTripOk := echoed == wireStr input }

section

variable {peerAddr : Addr} {input : Json.Value} {chunk : Bytes}

/-- The text is ASCII. -/
theorem wireStr_ascii : ∀ c ∈ (wireStr input).toList, c.toNat < 0x80 := by
  intro c hc
  rw [wireStr, String.toList_ofList] at hc
  have hprint := (Json.isPrint_of_mem_dumps Json.compact c input.val hc).2
  omega

theorem roundTripOk_iff :
    (ainvoke peerAddr input chunk).roundTripOk = true ↔ chunk = wire input := by
  rw [ainvoke, beq_iff_eq]
  exact Utf8.decode_eq_iff wireStr_ascii chunk

/-- It counts the characters of the text. -/
theorem echoedBytes_eq : (ainvoke peerAddr input chunk).echoedBytes =
    (ainvoke peerAddr input chunk).echoedPayload.length :=
  rfl

theorem echoedPayload_wire :
    (ainvoke peerAddr input (wire input)).echoedPayload = wireStr input :=
  Utf8.decode_encode _

theorem wire_ne_nil : wire input ≠ [] := by
  have hlength : 0 < (wire input).length := by
    rw [wire, Utf8.length_encode_ascii wireStr_ascii, wireStr, String.length_ofList]
    exact Json.length_dumps_pos Json.compact input.val
  exact List.ne_nil_of_length_pos hlength

/-- The first of several chunks is not the whole. -/
theorem head_eq_flatten_iff {cs : List Bytes} (hne : ∀ c ∈ cs, c ≠ []) (hcs : cs.flatten ≠ []) :
    cs.headD [] = cs.flatten ↔ cs.length = 1 := by
  rcases cs with _ | ⟨c, _ | ⟨d, cs⟩⟩
  · exact absurd rfl hcs
  · simp
  · simp only [List.headD_cons, List.flatten_cons, List.self_eq_append_right,
      List.append_eq_nil_iff, List.length_cons]
    exact iff_of_false (fun h => hne d (by simp) h.1) (by omega)

theorem length_fragments_eq_one_iff {data : Bytes} (hne : data ≠ []) :
    (fragments data).length = 1 ↔ data.length ≤ maxSendChunk := by
  constructor
  · intro hone
    obtain ⟨c, hc⟩ := List.length_eq_one_iff.1 hone
    have hwhole := flatten_fragments data
    rw [hc, List.flatten_singleton] at hwhole
    rw [← hwhole]
    exact (length_of_mem_fragments (hc ▸ List.mem_singleton_self c)).2
  · intro hle
    rw [fragments_of_length_le hne hle]
    rfl

end

/-- For every input : `round_trip_ok` says that the chunk is the text that was sent, byte for byte,
and then the input can be read from it. A peer that echoes all bytes passes exactly if they come in
one chunk, and one that echoes each message that it gets if the text fits into one. -/
theorem round_trip_ok_iff (peerAddr : Addr) (input : Json.Value) :
    (∀ chunk, (ainvoke peerAddr input chunk).roundTripOk = true ↔ chunk = wire input) ∧
    (∀ chunk, (ainvoke peerAddr input chunk).roundTripOk = true →
      Json.loadsText (ainvoke peerAddr input chunk).echoedPayload.toList = some input.val ∧
        (ainvoke peerAddr input chunk).echoedBytes = chunk.length) ∧
    (∀ cs : List Bytes, (∀ c ∈ cs, c ≠ []) → cs.flatten = wire input →
      ((ainvoke peerAddr input (cs.headD [])).roundTripOk = true ↔ cs.length = 1)) ∧
    ((ainvoke peerAddr input ((fragments (wire input)).headD [])).roundTripOk = true ↔
      (wireStr input).length ≤ maxSendChunk) := by
  have hchunks : ∀ cs : List Bytes, (∀ c ∈ cs, c ≠ []) → cs.flatten = wire input →
      ((ainvoke peerAddr input (cs.headD [])).roundTripOk = true ↔ cs.length = 1) := by
    intro cs hne hcs
    rw [roundTripOk_iff, ← hcs]
    exact head_eq_flatten_iff hne (hcs ▸ wire_ne_nil)
  refine ⟨fun _ => roundTripOk_iff, fun chunk hok => ?_, hchunks, ?_⟩
  · obtain rfl := roundTripOk_iff.1 hok
    rw [echoedBytes_eq, echoedPayload_wire, wire, Utf8.length_encode_ascii wireStr_ascii, wireStr,
      String.toList_ofList]
    exact ⟨Json.loadsText_dumps Json.compact input.wf, rfl⟩
  · have hne : ∀ c ∈ fragments (wire input), c ≠ [] := fun c hc =>
      List.ne_nil_of_length_pos (length_of_mem_fragments hc).1
    rw [hchunks _ hne (flatten_fragments _), length_fragments_eq_one_iff wire_ne_nil, wire,
      Utf8.length_encode_ascii wireStr_ascii]

end PilotEchoRunnable

end PilotLanggraph

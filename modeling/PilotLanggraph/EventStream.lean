import PilotLanggraph.Ipc
import PilotLanggraph.Lib.Incremental
import PilotLanggraph.Lib.Utf8

/-!
# The event stream of a broker

`encode_event` and `split_events` of `_ipc.py`. An event is a topic and a payload, each after
its length; `split_events` refuses lengths over its limits, and reads a topic that is not UTF-8
with replacement characters. `events` is that loop as a decoder, so the events of a stream do
not depend on how it is cut, and what `encode_event` writes within the limits is read back
(`split_encodeEvents`).
-/

namespace PilotLanggraph

namespace Ipc

/-- `Event`. -/
structure Event where
  topic : String
  payload : Bytes
  deriving DecidableEq

/-- `struct.pack(">H", n)`. -/
def packShort (n : ℕ) : Bytes :=
  [UInt8.ofNat (n / 256), UInt8.ofNat n]

/-- `struct.pack(">I", n)`. -/
def packInt (n : ℕ) : Bytes :=
  [UInt8.ofNat (n / 16777216), UInt8.ofNat (n / 65536), UInt8.ofNat (n / 256), UInt8.ofNat n]

/-- `encode_event`. A length that does not fit its field is a `struct.error`. -/
def encodeEvent (ev : Event) : Option Bytes :=
  let t := Utf8.encode ev.topic
  if t.length < 0x10000 ∧ ev.payload.length < 0x100000000 then
    some (packShort t.length ++ t ++ packInt ev.payload.length ++ ev.payload)
  else none

/-- `b"".join(encode_event(ev.topic, ev.payload) for ev in evs)`. -/
def encodeEvents : List Event → Option Bytes
  | [] => some []
  | ev :: evs => (encodeEvent ev).bind fun b => (encodeEvents evs).map (b ++ ·)

/-- The limits of `split_events`. -/
def maxTopic : ℕ := 1024

def maxPayload : ℕ := 1 <<< 24

/-- One turn of the loop of `split_events`, on the buffer from `pos` on. -/
def nextEvent (buf : Bytes) : Front Event UInt8 String :=
  if buf.length < 2 then .incomplete
  else
    let topicLen := beShort buf 0
    if maxTopic < topicLen then .malformed ("topic too long: " ++ toString topicLen)
    else if buf.length < 2 + topicLen + 4 then .incomplete
    else
      let payloadLen := beInt buf (2 + topicLen)
      if maxPayload < payloadLen then .malformed ("payload too large: " ++ toString payloadLen)
      else
        let stop := 2 + topicLen + 4 + payloadLen
        if buf.length < stop then .incomplete
        else .item ⟨Utf8.decode ((buf.drop 2).take topicLen),
          (buf.drop (2 + topicLen + 4)).take payloadLen⟩ (buf.drop stop)

/-! ## Numbers in a buffer -/

theorem beShort_append {buf : Bytes} {offset : ℕ} (h : offset + 2 ≤ buf.length) (more : Bytes) :
    beShort (buf ++ more) offset = beShort buf offset := by
  rw [beShort, beShort, List.drop_append_of_le_length (by omega),
    List.take_append_of_le_length (by rw [List.length_drop]; omega)]

theorem beInt_append {buf : Bytes} {offset : ℕ} (h : offset + 4 ≤ buf.length) (more : Bytes) :
    beInt (buf ++ more) offset = beInt buf offset := by
  rw [beInt, beInt, List.drop_append_of_le_length (by omega),
    List.take_append_of_le_length (by rw [List.length_drop]; omega)]

theorem beShort_packShort {n : ℕ} (h : n < 0x10000) (more : Bytes) :
    beShort (packShort n ++ more) 0 = n := by
  simp only [beShort, packShort, beNat, List.drop_zero, List.cons_append, List.nil_append,
    List.take_succ_cons, List.take_zero, List.foldl_cons, List.foldl_nil, UInt8.toNat_ofNat']
  omega

theorem beInt_packInt {n : ℕ} (h : n < 0x100000000) (more : Bytes) :
    beInt (packInt n ++ more) 0 = n := by
  simp only [beInt, packInt, beNat, List.drop_zero, List.cons_append, List.nil_append,
    List.take_succ_cons, List.take_zero, List.foldl_cons, List.foldl_nil, UInt8.toNat_ofNat']
  omega

/-! ## The decoder -/

/-- How the turn of the loop ends, and why. -/
theorem nextEvent_item_iff {buf rest : Bytes} {ev : Event} :
    nextEvent buf = .item ev rest ↔
      2 ≤ buf.length ∧ beShort buf 0 ≤ maxTopic ∧ 2 + beShort buf 0 + 4 ≤ buf.length ∧
        beInt buf (2 + beShort buf 0) ≤ maxPayload ∧
        2 + beShort buf 0 + 4 + beInt buf (2 + beShort buf 0) ≤ buf.length ∧
        ev = ⟨Utf8.decode ((buf.drop 2).take (beShort buf 0)),
          (buf.drop (2 + beShort buf 0 + 4)).take (beInt buf (2 + beShort buf 0))⟩ ∧
        rest = buf.drop (2 + beShort buf 0 + 4 + beInt buf (2 + beShort buf 0)) := by
  unfold nextEvent
  simp only
  split_ifs with h1 h2 h3 h4 h5
  · exact ⟨nofun, by omega⟩
  · exact ⟨nofun, by omega⟩
  · exact ⟨nofun, by omega⟩
  · exact ⟨nofun, by omega⟩
  · exact ⟨nofun, by omega⟩
  · simp only [Front.item.injEq]
    constructor
    · rintro ⟨rfl, rfl⟩
      exact ⟨by omega, by omega, by omega, by omega, by omega, rfl, rfl⟩
    · rintro ⟨-, -, -, -, -, rfl, rfl⟩
      exact ⟨rfl, rfl⟩

theorem nextEvent_shrinks {buf rest : Bytes} {ev : Event} (h : nextEvent buf = .item ev rest) :
    rest.length < buf.length := by
  obtain ⟨h2, -, -, -, -, -, rfl⟩ := nextEvent_item_iff.1 h
  rw [List.length_drop]
  omega

/-- A complete event stays what it is when more bytes arrive. -/
theorem nextEvent_item_append {buf rest : Bytes} {ev : Event} (h : nextEvent buf = .item ev rest)
    (more : Bytes) : nextEvent (buf ++ more) = .item ev (rest ++ more) := by
  obtain ⟨h2, htopic, hhead, hpayload, hstop, rfl, rfl⟩ := nextEvent_item_iff.1 h
  rw [nextEvent_item_iff, beShort_append (by omega), beInt_append (by omega), List.length_append,
    List.drop_append_of_le_length (by omega), List.drop_append_of_le_length (by omega),
    List.drop_append_of_le_length (by omega),
    List.take_append_of_le_length (by rw [List.length_drop]; omega),
    List.take_append_of_le_length (by rw [List.length_drop]; omega)]
  exact ⟨by omega, htopic, by omega, hpayload, by omega, rfl, rfl⟩

/-- And so does a length over its limit. -/
theorem nextEvent_malformed_append {buf : Bytes} {text : String}
    (h : nextEvent buf = .malformed text) (more : Bytes) :
    nextEvent (buf ++ more) = .malformed text := by
  unfold nextEvent at h ⊢
  rw [List.length_append]
  simp only at h ⊢
  split_ifs at h with h1 h2 h3 h4
  · rw [if_neg (by omega), beShort_append (by omega), if_pos h2, h]
  · rw [if_neg (by omega), beShort_append (by omega), if_neg h2, if_neg (by omega),
      beInt_append (by omega), if_pos h4, h]

/-- `split_events`, as a decoder. -/
def events : Decoder Event UInt8 String where
  front := nextEvent
  shrinks := nextEvent_shrinks
  item_append := nextEvent_item_append
  malformed_append := nextEvent_malformed_append

/-- `split_events` : the complete events, and what is left over. -/
def splitEvents (buf : Bytes) : Except String (List Event × Bytes) :=
  events.split buf

/-! ## Reading what was written -/

/-- The event is within the limits of `split_events`. -/
structure Event.Fits (ev : Event) : Prop where
  topic : (Utf8.encode ev.topic).length ≤ maxTopic
  payload : ev.payload.length ≤ maxPayload

instance (ev : Event) : Decidable ev.Fits :=
  decidable_of_iff ((Utf8.encode ev.topic).length ≤ maxTopic ∧ ev.payload.length ≤ maxPayload)
    ⟨fun h => ⟨h.1, h.2⟩, fun h => ⟨h.1, h.2⟩⟩

section

variable {ev : Event} {bytes : Bytes}

theorem encodeEvent_eq_some (h : encodeEvent ev = some bytes) :
    (Utf8.encode ev.topic).length < 0x10000 ∧ ev.payload.length < 0x100000000 ∧
      bytes = packShort (Utf8.encode ev.topic).length ++ (Utf8.encode ev.topic ++
        (packInt ev.payload.length ++ ev.payload)) := by
  unfold encodeEvent at h
  simp only [Option.ite_none_right_eq_some, Option.some.injEq, List.append_assoc] at h
  exact ⟨h.1.1, h.1.2, h.2.symm⟩

/-- The length of the topic stands first. -/
theorem beShort_encodeEvent (h : encodeEvent ev = some bytes) (more : Bytes) :
    beShort (bytes ++ more) 0 = (Utf8.encode ev.topic).length := by
  obtain ⟨htopic, -, rfl⟩ := encodeEvent_eq_some h
  rw [List.append_assoc, beShort_packShort htopic]

/-- Past the topic stands the length of the payload, -/
theorem drop_encodeEvent (h : encodeEvent ev = some bytes) (more : Bytes) (k : ℕ) :
    (bytes ++ more).drop (2 + (Utf8.encode ev.topic).length + k) =
      (packInt ev.payload.length ++ (ev.payload ++ more)).drop k := by
  obtain ⟨-, -, rfl⟩ := encodeEvent_eq_some h
  have hdrop2 : ∀ l, (packShort (Utf8.encode ev.topic).length ++ l).drop 2 = l := fun l => rfl
  simp only [List.append_assoc]
  rw [← List.drop_drop, ← List.drop_drop, hdrop2, List.drop_left]

theorem beInt_encodeEvent (h : encodeEvent ev = some bytes) (more : Bytes) :
    beInt (bytes ++ more) (2 + (Utf8.encode ev.topic).length) = ev.payload.length := by
  have hdrop := drop_encodeEvent h more 0
  rw [Nat.add_zero, List.drop_zero] at hdrop
  rw [beInt, hdrop]
  exact beInt_packInt (encodeEvent_eq_some h).2.1 _

/-- and the payload. -/
theorem drop_encodeEvent_payload (h : encodeEvent ev = some bytes) (more : Bytes) (k : ℕ) :
    (bytes ++ more).drop (2 + (Utf8.encode ev.topic).length + 4 + k) =
      (ev.payload ++ more).drop k := by
  rw [Nat.add_assoc (2 + _) 4, drop_encodeEvent h, ← List.drop_drop]
  rfl

theorem length_encodeEvent (h : encodeEvent ev = some bytes) :
    bytes.length = 2 + (Utf8.encode ev.topic).length + 4 + ev.payload.length := by
  obtain ⟨-, -, rfl⟩ := encodeEvent_eq_some h
  simp only [List.length_append, packShort, packInt, List.length_cons, List.length_nil]
  omega

/-- An event within the limits is read back. -/
theorem nextEvent_encodeEvent (h : encodeEvent ev = some bytes) (hev : ev.Fits) (more : Bytes) :
    nextEvent (bytes ++ more) = .item ev more := by
  have hlength := length_encodeEvent h
  have hpayload := drop_encodeEvent_payload h more 0
  rw [Nat.add_zero, List.drop_zero] at hpayload
  have htopic : ((bytes ++ more).drop 2).take (Utf8.encode ev.topic).length =
      Utf8.encode ev.topic := by
    obtain ⟨-, -, rfl⟩ := encodeEvent_eq_some h
    rw [List.append_assoc, List.append_assoc]
    exact List.take_left
  rw [nextEvent_item_iff, beShort_encodeEvent h, beInt_encodeEvent h, hpayload, htopic,
    List.take_left, Utf8.decode_encode, drop_encodeEvent_payload h, List.drop_left,
    List.length_append]
  exact ⟨by omega, hev.topic, by omega, hev.payload, by omega, rfl, rfl⟩

/-- A topic over the limit is refused. -/
theorem nextEvent_encodeEvent_of_lt (h : encodeEvent ev = some bytes)
    (hev : maxTopic < (Utf8.encode ev.topic).length) (more : Bytes) :
    nextEvent (bytes ++ more) =
      .malformed ("topic too long: " ++ toString (Utf8.encode ev.topic).length) := by
  have hshort := beShort_encodeEvent h more
  have hlength : 2 ≤ bytes.length := by
    obtain ⟨-, -, rfl⟩ := encodeEvent_eq_some h
    simp [packShort]
  unfold nextEvent
  rw [if_neg (by rw [List.length_append]; omega)]
  simp only [hshort]
  rw [if_pos hev]

/-- And so is a payload. -/
theorem nextEvent_encodeEvent_of_payload_lt (h : encodeEvent ev = some bytes)
    (htopic : (Utf8.encode ev.topic).length ≤ maxTopic) (hev : maxPayload < ev.payload.length)
    (more : Bytes) :
    nextEvent (bytes ++ more) =
      .malformed ("payload too large: " ++ toString ev.payload.length) := by
  have hlength := length_encodeEvent h
  unfold nextEvent
  rw [if_neg (by rw [List.length_append]; omega)]
  simp only [beShort_encodeEvent h, beInt_encodeEvent h]
  rw [if_neg (Nat.not_lt.2 htopic), if_neg (by rw [List.length_append]; omega), if_pos hev]

theorem encodeEvents_cons {evs : List Event} (h : encodeEvents (ev :: evs) = some bytes) :
    ∃ b bs, encodeEvent ev = some b ∧ encodeEvents evs = some bs ∧ bytes = b ++ bs := by
  obtain ⟨b, hb, h⟩ := Option.bind_eq_some_iff.1 h
  obtain ⟨bs, hbs, rfl⟩ := Option.map_eq_some_iff.1 h
  exact ⟨b, bs, hb, hbs, rfl⟩

/-- Events whose lengths fit their fields can be written. -/
theorem exists_encodeEvents {evs : List Event} (h : ∀ ev ∈ evs,
    (Utf8.encode ev.topic).length < 0x10000 ∧ ev.payload.length < 0x100000000) :
    ∃ bytes, encodeEvents evs = some bytes := by
  induction evs with
  | nil => exact ⟨[], rfl⟩
  | cons ev evs ih =>
    rw [List.forall_mem_cons] at h
    obtain ⟨bytes, hbytes⟩ := ih h.2
    have hev : (encodeEvent ev).isSome := by rw [encodeEvent, if_pos h.1, Option.isSome_some]
    obtain ⟨b, hb⟩ := Option.isSome_iff_exists.1 hev
    refine ⟨b ++ bytes, ?_⟩
    rw [encodeEvents, hb, hbytes]
    rfl

/-- Events within the limits are read back, whatever follows. -/
theorem splitEvents_encodeEvents {evs : List Event} (hfits : ∀ ev ∈ evs, ev.Fits)
    (h : encodeEvents evs = some bytes) (rest : Bytes) :
    splitEvents (bytes ++ rest) = (splitEvents rest).map fun r => (evs ++ r.1, r.2) := by
  induction evs generalizing bytes with
  | nil =>
    obtain rfl := Option.some.inj h
    cases hrest : splitEvents rest <;> rw [List.nil_append, hrest] <;> rfl
  | cons ev evs ih =>
    rw [List.forall_mem_cons] at hfits
    obtain ⟨b, bs, hb, hbs, rfl⟩ := encodeEvents_cons h
    have hfront : events.front (b ++ (bs ++ rest)) = .item ev (bs ++ rest) :=
      nextEvent_encodeEvent hb hfits.1 _
    have ih := ih hfits.2 hbs
    unfold splitEvents at ih ⊢
    rw [List.append_assoc, Decoder.split_of_item hfront, ih]
    cases events.split rest <;> rfl

/-- Up to the first topic over the limit. -/
theorem splitEvents_encodeEvents_error {evs : List Event} {ev : Event} (hev : ev ∈ evs)
    (hlimit : maxTopic < (Utf8.encode ev.topic).length)
    (hpayload : ∀ ev ∈ evs, ev.payload.length ≤ maxPayload)
    (h : encodeEvents evs = some bytes) (rest : Bytes) :
    ∃ text, splitEvents (bytes ++ rest) = .error text := by
  induction evs generalizing bytes with
  | nil => cases hev
  | cons first evs ih =>
    rw [List.forall_mem_cons] at hpayload
    obtain ⟨b, bs, hb, hbs, rfl⟩ := encodeEvents_cons h
    unfold splitEvents at ih ⊢
    rw [List.append_assoc]
    by_cases hfirst : (Utf8.encode first.topic).length ≤ maxTopic
    · have hfront : events.front (b ++ (bs ++ rest)) = .item first (bs ++ rest) :=
        nextEvent_encodeEvent hb ⟨hfirst, hpayload.1⟩ _
      rcases List.mem_cons.1 hev with rfl | hev
      · exact absurd hfirst (Nat.not_le.2 hlimit)
      · obtain ⟨text, htext⟩ := ih hev hpayload.2 hbs
        rw [Decoder.split_of_item hfront, htext]
        exact ⟨text, rfl⟩
    · exact ⟨_, Decoder.split_of_malformed
        (nextEvent_encodeEvent_of_lt hb (Nat.not_le.1 hfirst) _)⟩

/-- What has been read can be written again : with replacement characters, a topic is at most
four times as long as it was. -/
theorem length_of_mem_splitEvents {buf : Bytes} {r : List Event × Bytes}
    (h : splitEvents buf = .ok r) : ∀ ev ∈ r.1,
      (Utf8.encode ev.topic).length ≤ 4 * maxTopic ∧ ev.payload.length ≤ maxPayload := by
  refine Decoder.forall_mem_split (fun buf ev rest hfront => ?_) h
  obtain ⟨-, htopic, -, hpayload, -, rfl, -⟩ := nextEvent_item_iff.1 hfront
  have hdecode := Utf8.length_encode_decode_le ((buf.drop 2).take (beShort buf 0))
  have htake := List.length_take_le (beShort buf 0) (buf.drop 2)
  exact ⟨by simp only; omega, Nat.le_trans (List.length_take_le _ _) hpayload⟩

end

end Ipc

end PilotLanggraph

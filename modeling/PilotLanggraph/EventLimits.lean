import PilotLanggraph.Channel

/-!
# The limits of an event

`encode_event` writes any length that fits its field; `split_events` refuses a topic over 1024
bytes and a payload over 16 MiB, and raises from inside its loop. So a publisher can send what
no subscriber decodes (`publish_decodes_iff`), and the events in front of a header over the
limits are lost with it when the two arrive in one read (`malformed_delivery_iff`).
-/

namespace PilotLanggraph

open Ipc

/-- The payload that `publish` is given. -/
inductive Payload
  | bytes (payload : Bytes)
  | str (payload : String)
  deriving DecidableEq

/-- The bytes of the event : a text is encoded. -/
def Payload.encode : Payload → Bytes
  | .bytes payload => payload
  | .str payload => Utf8.encode payload

/-- `PilotPublisher.publish` : what it writes to its stream. -/
def PilotPublisher.publish (topic : String) (payload : Payload) : Option Bytes :=
  encodeEvent ⟨topic, payload.encode⟩

namespace Ipc

section

variable {ev : Event} {bytes bad : Bytes} {text : String}

theorem splitEvents_encodeEvent_iff (h : encodeEvent ev = some bytes) :
    splitEvents bytes = .ok ([ev], []) ↔ ev.Fits := by
  have hitem : ev.Fits → splitEvents bytes = .ok ([ev], []) := by
    intro hev
    have hfront := nextEvent_encodeEvent h hev []
    rw [List.append_nil] at hfront
    rw [splitEvents, Decoder.split_of_item (d := events) hfront]
    rfl
  have hmalformed (e : String) (hfront : nextEvent (bytes ++ []) = .malformed e) :
      splitEvents bytes ≠ .ok ([ev], []) := by
    rw [List.append_nil] at hfront
    rw [splitEvents, Decoder.split_of_malformed (d := events) hfront]
    exact fun hok => by cases hok
  refine ⟨fun hok => ?_, hitem⟩
  by_cases htopic : (Utf8.encode ev.topic).length ≤ maxTopic
  · by_cases hpayload : ev.payload.length ≤ maxPayload
    · exact ⟨htopic, hpayload⟩
    · exact absurd hok
        (hmalformed _ (nextEvent_encodeEvent_of_payload_lt h htopic (Nat.not_le.1 hpayload) []))
  · exact absurd hok (hmalformed _ (nextEvent_encodeEvent_of_lt h (Nat.not_le.1 htopic) []))

/-! ## A header over the limits -/

/-- The bytes of a header that show a length over its limit. -/
def headerLength (bad : Bytes) : ℕ :=
  if maxTopic < beShort bad 0 then 2 else 2 + beShort bad 0 + 4

/-- A start of a malformed stream is malformed once it has the header, and before that it is
incomplete. -/
theorem nextEvent_of_append {head more : Bytes} (h : nextEvent (head ++ more) = .malformed text) :
    nextEvent head =
      if head.length < headerLength (head ++ more) then .incomplete else .malformed text := by
  have hlength : (head ++ more).length = head.length + more.length := List.length_append
  unfold nextEvent headerLength at *
  simp only at h ⊢
  by_cases htwo : head.length < 2
  · rw [if_pos htwo, if_pos (by split <;> omega)]
  · rw [if_neg (by omega), beShort_append (by omega)] at h
    rw [if_neg htwo, beShort_append (by omega)]
    by_cases htopic : maxTopic < beShort head 0
    · rw [if_pos htopic] at h
      rw [if_pos htopic, if_pos htopic, if_neg htwo, h]
    · rw [if_neg htopic] at h
      rw [if_neg htopic, if_neg htopic]
      by_cases hheader : head.length < 2 + beShort head 0 + 4
      · rw [if_pos hheader, if_pos hheader]
      · rw [if_neg hheader, if_neg hheader]
        rw [if_neg (by omega), beInt_append (by omega)] at h
        split_ifs at h with hpayload
        rw [if_pos hpayload, h]

theorem headerLength_le (h : nextEvent bad = .malformed text) : headerLength bad ≤ bad.length := by
  have happend : nextEvent (bad ++ []) = .malformed text := by rw [List.append_nil, h]
  have hstart := nextEvent_of_append happend
  rw [List.append_nil] at hstart
  split_ifs at hstart with hlength
  · rw [h] at hstart
    cases hstart
  · exact Nat.le_of_not_lt hlength

theorem headerLength_pos (bad : Bytes) : 0 < headerLength bad := by
  unfold headerLength
  split <;> omega

variable {good head more : Bytes} {evs es : List Event} {left : Bytes}

/-- A start of a stream of events that goes on with a header over the limits : it raises once it
has that header. -/
theorem splitEvents_start (hgood : splitEvents good = .ok (evs, []))
    (hbad : nextEvent bad = .malformed text) (h : head ++ more = good ++ bad) :
    if head.length < good.length + headerLength bad then
      ∃ es left, splitEvents head = .ok (es, left) ∧ es <+: evs ∧
        (es = evs ↔ good.length ≤ head.length)
    else splitEvents head = .error text := by
  rcases List.append_eq_append_iff.1 h with ⟨missing, rfl, rfl⟩ | ⟨start, rfl, rfl⟩
  · rw [if_pos (by have := headerLength_pos bad; rw [List.length_append]; omega)]
    obtain ⟨⟨es, left⟩, hhead, items, hmissing, hevs⟩ := Decoder.split_of_append hgood
    refine ⟨es, left, hhead, ⟨items, hevs.symm⟩, fun hall => ?_, fun hle => ?_⟩
    · -- With all events decoded the missing bytes would decode to nothing and leave nothing.
      obtain rfl : items = [] := List.append_right_eq_self.1 (hevs.symm.trans hall.symm)
      have hnone := Decoder.eq_of_split_nil hmissing
      obtain rfl := (List.append_eq_nil_iff.1 hnone.symm).2
      exact Nat.le_of_eq (congrArg List.length (List.append_nil head))
    · rw [List.length_append] at hle
      obtain rfl := List.eq_nil_of_length_eq_zero (show missing.length = 0 by omega)
      rw [List.append_nil, splitEvents, hhead] at hgood
      exact congrArg Prod.fst (Except.ok.inj hgood)
  · have hstart := nextEvent_of_append hbad
    have hsplit : splitEvents (good ++ start) = (splitEvents start).map fun r =>
        (evs ++ r.1, r.2) := Decoder.split_append_of_ok hgood start
    rw [List.length_append]
    by_cases hlength : start.length < headerLength (start ++ more)
    · rw [if_pos hlength] at hstart
      have hnone : splitEvents start = .ok ([], start) := Decoder.split_of_incomplete hstart
      rw [if_pos (by omega), hsplit, hnone]
      exact ⟨evs ++ [], start, rfl, by simp, by simp⟩
    · rw [if_neg hlength] at hstart
      have herror : splitEvents start = .error text := Decoder.split_of_malformed hstart
      rw [if_neg (by omega), hsplit, herror]
      rfl

end

end Ipc

/-- For every event that can be written, what `encode_event` and `publish` write is read back, as
this event and nothing else, exactly if its topic and its payload are within the limits of
`split_events`. -/
theorem publish_decodes_iff {ev : Event} {topic : String} {payload : Payload}
    {encoded published : Bytes} (hencode : encodeEvent ev = some encoded)
    (hpublish : PilotPublisher.publish topic payload = some published) :
    (splitEvents encoded = .ok ([ev], []) ↔
      (Utf8.encode ev.topic).length ≤ maxTopic ∧ ev.payload.length ≤ maxPayload) ∧
    (splitEvents published = .ok ([⟨topic, payload.encode⟩], []) ↔
      (Utf8.encode topic).length ≤ maxTopic ∧ payload.encode.length ≤ maxPayload) := by
  have hiff {ev : Event} {bytes : Bytes} (h : encodeEvent ev = some bytes) :
      splitEvents bytes = .ok ([ev], []) ↔
        (Utf8.encode ev.topic).length ≤ maxTopic ∧ ev.payload.length ≤ maxPayload := by
    rw [splitEvents_encodeEvent_iff h]
    exact ⟨fun hev => ⟨hev.topic, hev.payload⟩, fun hev => ⟨hev.1, hev.2⟩⟩
  exact ⟨hiff hencode, hiff hpublish⟩

theorem publish_decodes_iff_text :
    splitEvents [0, 1, 97, 0, 0, 0, 1, 33] = .ok ([⟨"a", [33]⟩], []) := by
  have hencode : encodeEvent ⟨"a", [33]⟩ = some [0, 1, 97, 0, 0, 0, 1, 33] := by decide
  have hpublish : PilotPublisher.publish "a" (.str "!") = some [0, 1, 97, 0, 0, 0, 1, 33] := by
    decide
  exact (publish_decodes_iff hencode hpublish).2.2 (by decide)

/-- A topic between the two limits is published, and refused by every subscriber. -/
theorem publish_of_lt {topic : String} (hlimit : maxTopic < (Utf8.encode topic).length)
    (hfield : (Utf8.encode topic).length < 0x10000) :
    ∃ bytes, PilotPublisher.publish topic (.bytes []) = some bytes ∧
      splitEvents bytes = .error ("topic too long: " ++ toString (Utf8.encode topic).length) := by
  have hencode : (encodeEvent ⟨topic, []⟩).isSome := by
    rw [encodeEvent, if_pos ⟨hfield, Nat.zero_lt_succ _⟩, Option.isSome_some]
  obtain ⟨bytes, hbytes⟩ := Option.isSome_iff_exists.1 hencode
  have hfront := nextEvent_encodeEvent_of_lt hbytes hlimit []
  rw [List.append_nil] at hfront
  exact ⟨bytes, hbytes, Decoder.split_of_malformed hfront⟩

theorem length_encode_letters (n : ℕ) :
    (Utf8.encode (String.ofList (List.replicate n 'a'))).length = n := by
  rw [Utf8.encode, String.toList_ofList, List.flatMap_replicate, List.length_flatten,
    List.map_replicate, List.sum_replicate_nat]
  exact Nat.mul_one n

/-- So is one of 1025 letters. -/
theorem publish_topic_1025 : ∃ bytes,
    PilotPublisher.publish (String.ofList (List.replicate 1025 'a')) (.bytes []) = some bytes ∧
      splitEvents bytes = .error "topic too long: 1025" := by
  have hlength := length_encode_letters 1025
  have h := publish_of_lt (by rw [hlength]; decide) (by rw [hlength]; decide)
  rwa [hlength] at h

/-! ## Events in front of a header over the limits -/

namespace PilotChannel

/-- Some read ends behind the events and before the header over the limits is complete. -/
def HeaderApart (good bad : Bytes) (cs : List Bytes) : Prop :=
  ∃ k, good.length ≤ (cs.take k).flatten.length ∧
    (cs.take k).flatten.length < good.length + headerLength bad

section

variable {rest left chunk : Bytes} {before after : List Bytes} {es : List Event} {text : String}

/-- Calls of `recv` on chunks that are clear. -/
theorem recvs_chunks (hne : ∀ chunk ∈ before, chunk ≠ [])
    (hrest : splitEvents rest = .ok ([], rest))
    (h : splitEvents (rest ++ before.flatten) = .ok (es, left)) (hclear : Clear rest before)
    (more : List StreamRead) (n : ℕ) :
    (recvs (es.length + n) rest (before.map .data ++ more)).1 =
      es.map .event ++ (recvs n left more).1 := by
  induction before generalizing rest es n with
  | nil =>
    rw [List.flatten_nil, List.append_nil, hrest] at h
    obtain ⟨rfl, rfl⟩ := Prod.mk.inj (Except.ok.inj h)
    rw [List.length_nil, Nat.zero_add]
    rfl
  | cons chunk before ih =>
    obtain ⟨hchunk, hnes⟩ := List.forall_mem_cons.1 hne
    obtain ⟨b, chunk, rfl⟩ := List.exists_cons_of_ne_nil hchunk
    obtain ⟨evs, rest', es', hsplit, hmore, rfl, hrest'⟩ := split_chunk h
    obtain ⟨hfits, hclear'⟩ := (clear_cons hsplit before).1 hclear
    have hread : recv rest (((b :: chunk) :: before).map .data ++ more) =
        recv (rest ++ b :: chunk) (before.map .data ++ more) := by
      rw [List.map_cons, List.cons_append, recv, hrest]
    cases evs with
    | nil =>
      obtain rfl := Decoder.eq_of_split_nil hsplit
      rw [List.nil_append, ← ih hnes hrest' hmore hclear']
      cases es'.length + n with
      | zero => rfl
      | succ m => rw [recvs, hread]; rfl
    | cons ev evs =>
      obtain ⟨bytes, hbytes⟩ := exists_putBack hsplit
      have hputBack : Holds (bytes ++ rest') evs rest' := ⟨⟨bytes, hbytes, rfl⟩, hfits, hrest'⟩
      have hlength : (ev :: evs ++ es').length + n = evs.length + (es'.length + n) + 1 := by
        rw [List.length_append, List.length_cons]
        omega
      rw [hlength, recvs, hread, recv_of_split hsplit hbytes]
      simp only
      rw [recvs_add, recvs_holds hputBack, ih hnes hrest' hmore hclear', ← List.append_assoc,
        List.map_append]
      rfl

/-- A buffer that raises is left as it is, so every later call raises too. -/
theorem recvs_error {buf : Bytes} (h : splitEvents buf = .error text) (reads : List StreamRead)
    (n : ℕ) : (recvs n buf reads).1 = List.replicate n (.valueError text) := by
  have hraises : recv buf reads = (.valueError text, buf, reads) := by
    unfold recv
    rw [h]
  induction n with
  | zero => rfl
  | succ n ih =>
    rw [recvs, hraises]
    simp only
    rw [ih, List.replicate_succ]

/-- The chunk with the header over the limits. -/
theorem recvs_error_chunk (hchunk : chunk ≠ []) (hleft : splitEvents left = .ok ([], left))
    (h : splitEvents (left ++ chunk) = .error text) (more : List StreamRead) (n : ℕ) :
    (recvs n left (.data chunk :: more)).1 = List.replicate n (.valueError text) := by
  obtain ⟨b, chunk, rfl⟩ := List.exists_cons_of_ne_nil hchunk
  cases n with
  | zero => rfl
  | succ n =>
    have hread : recv left (.data (b :: chunk) :: more) = recv (left ++ b :: chunk) more := by
      rw [recv, hleft]
    have hfirst := recvs_error h more (n + 1)
    rw [recvs] at hfirst
    rw [recvs, hread]
    exact hfirst

theorem iterate_error_chunk (hchunk : chunk ≠ []) (hleft : splitEvents left = .ok ([], left))
    (h : splitEvents (left ++ chunk) = .error text) (more : List StreamRead) :
    iterate left (.data chunk :: more) = ([], .valueError text, left ++ chunk, more) := by
  obtain ⟨b, chunk, rfl⟩ := List.exists_cons_of_ne_nil hchunk
  have herror : iterate (left ++ b :: chunk) more =
      ([], .valueError text, left ++ b :: chunk, more) := by
    unfold iterate
    rw [h]
  rw [iterate, hleft]
  simp only
  rw [herror]
  rfl

/-- No chunk completes an event from there on. -/
theorem bursts_error_chunk (h : splitEvents (rest ++ before.flatten) = .ok (es, left))
    (hchunk : splitEvents (left ++ chunk) = .error text)
    (hrest : splitEvents rest = .ok ([], rest)) :
    bursts rest (before ++ chunk :: after) = bursts rest before := by
  induction before generalizing rest es with
  | nil =>
    rw [List.flatten_nil, List.append_nil, hrest] at h
    obtain ⟨-, rfl⟩ := Prod.mk.inj (Except.ok.inj h)
    simp only [List.nil_append, bursts, hchunk]
  | cons first before ih =>
    obtain ⟨evs, rest', es', hsplit, hmore, -, hrest'⟩ := split_chunk h
    rw [List.cons_append, bursts, bursts, hsplit]
    exact congrArg (evs :: ·) (ih hmore hrest')

end

section

variable {good bad : Bytes} {evs : List Event} {text : String}

/-- What some chunks of the stream are : those before the one that raises, and that one. -/
structure Raises (good bad : Bytes) (evs : List Event) (text : String) (before : List Bytes)
    (chunk : Bytes) (es : List Event) (left : Bytes) : Prop where
  split : splitEvents before.flatten = .ok (es, left)
  error : splitEvents (left ++ chunk) = .error text
  short : before.flatten.length < good.length + headerLength bad
  long : good.length + headerLength bad ≤ before.flatten.length + chunk.length
  start : es <+: evs
  all_iff : es = evs ↔ good.length ≤ before.flatten.length

theorem exists_raises {cs : List Bytes} (hgood : splitEvents good = .ok (evs, []))
    (hbad : nextEvent bad = .malformed text) (hcs : cs.flatten = good ++ bad) :
    ∃ before chunk after es left, cs = before ++ chunk :: after ∧
      Raises good bad evs text before chunk es left := by
  have hall : cs.flatten ++ [] = good ++ bad := by rw [List.append_nil, hcs]
  have hwhole := splitEvents_start hgood hbad hall
  have hheader := headerLength_le hbad
  rw [hcs, List.length_append, if_neg (by omega), ← hcs] at hwhole
  have hnil : events.split [] = .ok ([], []) := rfl
  obtain ⟨before, chunk, after, es, left, rfl, hbefore, hchunk⟩ :=
    Decoder.exists_first_error hnil hwhole
  rw [List.nil_append] at hbefore
  refine ⟨before, chunk, after, es, left, rfl, ?_⟩
  rw [List.flatten_append, List.flatten_cons] at hcs
  have hstart := splitEvents_start hgood hbad hcs
  rw [← List.append_assoc] at hcs
  have hnext := splitEvents_start hgood hbad hcs
  have herror : splitEvents (before.flatten ++ chunk) = .error text := by
    rw [splitEvents, Decoder.split_append_of_ok hbefore, hchunk]
    rfl
  rw [herror, List.length_append] at hnext
  rw [splitEvents, hbefore] at hstart
  split_ifs at hstart with hshort
  obtain ⟨es', left', heq, hstarts, hiff⟩ := hstart
  obtain ⟨rfl, rfl⟩ := Prod.mk.inj (Except.ok.inj heq)
  refine ⟨hbefore, hchunk, hshort, Nat.le_of_not_lt fun hlt => ?_, hstarts, hiff⟩
  rw [if_pos hlt] at hnext
  obtain ⟨es', left', heq, -⟩ := hnext
  cases heq

variable {before after : List Bytes} {chunk left : Bytes} {es : List Event}

/-- The read that ends between the events and the header is the last before the one that
raises. -/
theorem Raises.headerApart_iff (h : Raises good bad evs text before chunk es left) :
    HeaderApart good bad (before ++ chunk :: after) ↔ es = evs := by
  rw [h.all_iff]
  constructor
  · rintro ⟨k, hgood, hheader⟩
    rcases Nat.lt_or_ge before.length k with hlt | hle
    · -- The chunk that raises has the header.
      obtain ⟨m, rfl⟩ := Nat.exists_eq_add_of_lt hlt
      have htake : (before ++ chunk :: after).take (before.length + m + 1) =
          before ++ chunk :: after.take m := by
        rw [Nat.add_assoc, List.take_length_add_append, List.take_succ_cons]
      rw [htake, List.flatten_append, List.flatten_cons, List.length_append,
        List.length_append] at hheader
      have hlong := h.long
      omega
    · rw [List.take_append_of_le_length hle] at hgood
      have hsplit := congrArg (fun l => l.flatten.length) (List.take_append_drop k before)
      simp only [List.flatten_append, List.length_append] at hsplit
      omega
  · intro hgood
    refine ⟨before.length, ?_⟩
    rw [List.take_left]
    exact ⟨hgood, h.short⟩

theorem Raises.iterate_eq (h : Raises good bad evs text before chunk es left)
    (hne : ∀ c ∈ before ++ chunk :: after, c ≠ []) :
    (iterate [] ((before ++ chunk :: after).map .data)).1 = es ∧
      (iterate [] ((before ++ chunk :: after).map .data)).2.1 = .valueError text := by
  rw [List.forall_mem_append, List.forall_mem_cons] at hne
  have hleft : splitEvents left = .ok ([], left) := Decoder.split_rest h.split
  have hnil : splitEvents [] = .ok ([], []) := rfl
  have hchunks := (iterate_chunks hne.1 hnil h.split (.data chunk :: after.map .data)).1
  rw [iterate_error_chunk hne.2.1 hleft h.error, List.append_nil] at hchunks
  rw [List.map_append, List.map_cons, hchunks]
  exact ⟨rfl, rfl⟩

theorem Raises.recvs_eq (h : Raises good bad evs text before chunk es left)
    (hne : ∀ c ∈ before ++ chunk :: after, c ≠ []) (hclear : Clear [] before) (n : ℕ) :
    (recvs (es.length + n) [] ((before ++ chunk :: after).map .data)).1 =
      es.map .event ++ List.replicate n (.valueError text) := by
  rw [List.forall_mem_append, List.forall_mem_cons] at hne
  have hleft : splitEvents left = .ok ([], left) := Decoder.split_rest h.split
  have hnil : splitEvents [] = .ok ([], []) := rfl
  rw [List.map_append, List.map_cons, recvs_chunks hne.1 hnil h.split hclear,
    recvs_error_chunk hne.2.1 hleft h.error]

theorem length_recvs (n : ℕ) (buf : Bytes) (reads : List StreamRead) :
    (recvs n buf reads).1.length = n := by
  induction n generalizing buf reads with
  | zero => rfl
  | succ n ih => exact congrArg (· + 1) (ih _ _)

theorem recvs_prefix (m n : ℕ) (buf : Bytes) (reads : List StreamRead) :
    (recvs (m + n) buf reads).1.take m = (recvs m buf reads).1 := by
  rw [recvs_add]
  exact List.take_left' (length_recvs m buf reads)

/-- Events, and a header over the limits behind them, in any chunks. `_iterate_current_stream`
yields all the events before it raises exactly if some read ends between the events and the end
of that header. Calls of `recv` return them all before they raise exactly if moreover no read
completes, after another event, one whose topic is over the limit once its bytes are replaced. -/
theorem malformed_delivery_iff {cs : List Bytes} (hgood : splitEvents good = .ok (evs, []))
    (hbad : nextEvent bad = .malformed text) (hne : ∀ chunk ∈ cs, chunk ≠ [])
    (hcs : cs.flatten = good ++ bad) :
    ((iterate [] (cs.map .data)).1 = evs ∧
        (iterate [] (cs.map .data)).2.1 = .valueError text ↔ HeaderApart good bad cs) ∧
    ((∀ n, (recvs n [] (cs.map .data)).1 =
        (evs.map Received.event ++ List.replicate n (Received.valueError text)).take n) ↔
      HeaderApart good bad cs ∧ ∀ burst ∈ bursts [] cs, ∀ ev ∈ burst.tail,
        (Utf8.encode ev.topic).length ≤ maxTopic) := by
  obtain ⟨before, chunk, after, es, left, rfl, h⟩ := exists_raises hgood hbad hcs
  obtain ⟨hiterate, hraises⟩ := h.iterate_eq hne
  have hbursts : bursts [] (before ++ chunk :: after) = bursts [] before :=
    bursts_error_chunk h.split h.error rfl
  rw [hiterate, hraises, h.headerApart_iff, hbursts]
  have hnil : splitEvents [] = .ok ([], []) := rfl
  refine ⟨⟨And.left, fun hes => ⟨hes, rfl⟩⟩, fun hall => ?_, ?_⟩
  · -- The first calls return events, so the chunks before the one that raises are clear.
    have hevents (n : ℕ) (hn : n ≤ evs.length) (text' : String) :
        .valueError text' ∉ (recvs n [] ((before ++ chunk :: after).map .data)).1 := by
      rw [hall, List.take_append_of_le_length (by rw [List.length_map]; exact hn)]
      intro hmem
      obtain ⟨ev, -, hev⟩ := List.mem_map.1 (List.mem_of_mem_take hmem)
      cases hev
    have hclear : Clear [] before := by
      rw [List.map_append] at hevents
      exact clear_of_recvs (List.forall_mem_append.1 hne).1 hnil h.split fun n hn =>
        hevents n (Nat.le_trans hn h.start.length_le)
    refine ⟨?_, fun burst hburst ev hev => (hclear burst hburst ev hev).topic⟩
    rcases Nat.lt_or_ge es.length evs.length with hlt | hle
    · refine absurd ?_ (hevents (es.length + 1) hlt text)
      rw [h.recvs_eq hne hclear 1]
      exact List.mem_append_right _ (List.mem_singleton_self _)
    · exact h.start.eq_of_length_le hle
  · rintro ⟨rfl, hfits⟩ n
    have hclear : Clear [] before := fun burst hburst ev hev =>
      ⟨hfits burst hburst ev hev, length_of_mem_bursts hburst ev (List.mem_of_mem_tail hev)⟩
    have hprefix := recvs_prefix n es.length [] ((before ++ chunk :: after).map .data)
    rw [Nat.add_comm, h.recvs_eq hne hclear] at hprefix
    exact hprefix.symm

end

/-- A length of 1025 for the topic. -/
theorem nextEvent_1025 : nextEvent [4, 1] = .malformed ("topic too long: " ++ toString 1025) := by
  have hlength : beShort [4, 1] 0 = 1025 := by decide
  unfold nextEvent
  rw [if_neg (by decide)]
  simp only [hlength]
  rw [if_pos (by decide)]

theorem malformed_delivery_iff_apart :
    (recvs 2 [] [.data [0, 1, 97, 0, 0, 0, 0, 4], .data [1]]).1 =
      [.event ⟨"a", []⟩, .valueError ("topic too long: " ++ toString 1025)] := by
  have hgood : splitEvents [0, 1, 97, 0, 0, 0, 0] = .ok ([⟨"a", []⟩], []) := rfl
  have hne : ∀ chunk ∈ [[0, 1, 97, 0, 0, 0, 0, 4], [1]], chunk ≠ ([] : Bytes) := by decide
  have hapart : HeaderApart [0, 1, 97, 0, 0, 0, 0] [4, 1] [[0, 1, 97, 0, 0, 0, 0, 4], [1]] :=
    ⟨1, by decide, by decide⟩
  exact (malformed_delivery_iff hgood nextEvent_1025 hne rfl).2.2 ⟨hapart, by decide⟩ 2

/-- In one read with the header the event is lost. -/
theorem event_lost_with_header :
    splitEvents [0, 1, 97, 0, 0, 0, 0] = .ok ([⟨"a", []⟩], []) ∧
      nextEvent [4, 1] = .malformed ("topic too long: " ++ toString 1025) ∧
      (iterate [] [.data [0, 1, 97, 0, 0, 0, 0, 4, 1]]).1 = [] ∧
      (recvs 2 [] [.data [0, 1, 97, 0, 0, 0, 0, 4, 1]]).1 =
        List.replicate 2 (.valueError ("topic too long: " ++ toString 1025)) := by
  have hgood : splitEvents [0, 1, 97, 0, 0, 0, 0] = .ok ([⟨"a", []⟩], []) := rfl
  have hwhole : splitEvents ([] ++ [0, 1, 97, 0, 0, 0, 0, 4, 1]) =
      .error ("topic too long: " ++ toString 1025) := by
    have hstart := splitEvents_start hgood nextEvent_1025
      (show [0, 1, 97, 0, 0, 0, 0, 4, 1] ++ [] = _ from rfl)
    rwa [if_neg (by decide)] at hstart
  refine ⟨hgood, nextEvent_1025, ?_, ?_⟩
  · rw [iterate_error_chunk (by decide) rfl hwhole]
  · exact recvs_error_chunk (by decide) rfl hwhole [] 2

end PilotChannel

end PilotLanggraph

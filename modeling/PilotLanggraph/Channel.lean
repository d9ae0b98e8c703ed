import PilotLanggraph.EventStream

/-!
# Receiving events

The two ways in which a `PilotChannel` (`channel.py`) takes the events off its stream. `recv`
returns one event; when a read completes several, it encodes the others again and puts them
back in front of what is left over. `_iterate_current_stream` yields all events of a read. A
run is fed by the outcomes of the reads of the stream, one after another.

`replay` is what `recv` is for : the events as they were decoded, one a call. Putting events
back keeps them if each can be read again, which a topic with replacement characters may not
(`Clear`). With that, calls of `recv` come to what `replay` says (`recvs_eq`).

* `event_delivery` : events within the limits are delivered by both, however they are cut.
* `recv_agrees_iff` : on any stream that decodes, the two agree exactly if no read completes,
  after another event, one whose topic has grown over the limit.
-/

namespace PilotLanggraph

open Ipc

/-- How `Stream.read` ends : with a chunk, empty at the end of the stream, or a timeout. -/
inductive StreamRead
  | data (chunk : Bytes)
  | timedOut
  deriving DecidableEq

/-- What a caller comes to. -/
inductive Received
  | event (ev : Event)
  | timeoutError
  | eofError
  | valueError (text : String)
  | structError
  /-- The caller waits for a read. -/
  | waiting
  deriving DecidableEq

/-- The event that was returned. -/
def Received.event? : Received → Option Event
  | .event ev => some ev
  | _ => none

/-- The events that were returned. -/
def returned (received : List Received) : List Event :=
  received.filterMap Received.event?

/-- The chunks among some reads. -/
def chunks (reads : List StreamRead) : List Bytes :=
  reads.filterMap fun
    | .data chunk => some chunk
    | .timedOut => none

namespace PilotChannel

/-- `recv` without `auto_reconnect`, on the buffer and the outcomes of the reads to come. A
deadline that has passed is a read that times out. -/
def recv (buf : Bytes) (reads : List StreamRead) : Received × Bytes × List StreamRead :=
  match splitEvents buf with
  | .error text => (.valueError text, buf, reads)
  | .ok (ev :: evs, rest) =>
    match encodeEvents evs with
    | none => (.structError, rest, reads)
    | some bytes => (.event ev, bytes ++ rest, reads)
  | .ok ([], rest) =>
    match reads with
    | [] => (.waiting, rest, [])
    | .timedOut :: reads => (.timeoutError, rest, reads)
    | .data [] :: reads => (.eofError, rest, reads)
    | .data (b :: chunk) :: reads => recv (rest ++ b :: chunk) reads

/-- `n` calls of `recv`, one after another. -/
def recvs : ℕ → Bytes → List StreamRead → List Received × Bytes × List StreamRead
  | 0, buf, reads => ([], buf, reads)
  | n + 1, buf, reads =>
    let (received, buf, reads) := recv buf reads
    let (others, buf, reads) := recvs n buf reads
    (received :: others, buf, reads)

/-- `_iterate_current_stream` : the events it yields, and how it ends. -/
def iterate (buf : Bytes) (reads : List StreamRead) :
    List Event × Received × Bytes × List StreamRead :=
  match splitEvents buf with
  | .error text => ([], .valueError text, buf, reads)
  | .ok (evs, rest) =>
    match reads with
    | [] => (evs, .waiting, rest, [])
    | .timedOut :: reads => (evs, .timeoutError, rest, reads)
    | .data [] :: reads => (evs, .eofError, rest, reads)
    | .data (b :: chunk) :: reads =>
      let (others, ending) := iterate (rest ++ b :: chunk) reads
      (evs ++ others, ending)

/-! ## Decoded events, kept -/

/-- What calls of `recv` come to if decoded events are kept as they are. -/
def replay (rest : Bytes) : List StreamRead → List Received
  | [] => []
  | .timedOut :: reads => .timeoutError :: replay rest reads
  | .data [] :: reads => .eofError :: replay rest reads
  | .data (b :: chunk) :: reads =>
    match splitEvents (rest ++ b :: chunk) with
    | .error text => [.valueError text]
    | .ok (evs, rest) => evs.map .event ++ replay rest reads

/-- The events that each chunk completes. -/
def bursts (rest : Bytes) : List Bytes → List (List Event)
  | [] => []
  | chunk :: chunks =>
    match splitEvents (rest ++ chunk) with
    | .error _ => []
    | .ok (evs, rest) => evs :: bursts rest chunks

/-- No chunk completes, after another event, one that is over the limits when it is encoded
again. -/
def Clear (rest : Bytes) (chunks : List Bytes) : Prop :=
  ∀ burst ∈ bursts rest chunks, ∀ ev ∈ burst.tail, ev.Fits

/-- The buffer holds the events, put back in front of what is left over. -/
structure Holds (buf : Bytes) (evs : List Event) (rest : Bytes) : Prop where
  bytes : ∃ bytes, encodeEvents evs = some bytes ∧ buf = bytes ++ rest
  fits : ∀ ev ∈ evs, ev.Fits
  rest : splitEvents rest = .ok ([], rest)

section

variable {buf rest : Bytes} {ev : Event} {evs : List Event} {reads : List StreamRead}

theorem Holds.split (h : Holds buf evs rest) : splitEvents buf = .ok (evs, rest) := by
  obtain ⟨bytes, hbytes, rfl⟩ := h.bytes
  rw [splitEvents_encodeEvents h.fits hbytes, h.rest]
  simp [Except.map]

theorem Holds.eq_rest (h : Holds buf [] rest) : buf = rest := by
  obtain ⟨bytes, hbytes, rfl⟩ := h.bytes
  obtain rfl := Option.some.inj hbytes
  rfl

theorem holds_nil (h : splitEvents rest = .ok ([], rest)) : Holds rest [] rest :=
  ⟨⟨[], rfl, rfl⟩, List.forall_mem_nil _, h⟩

/-- What was decoded can be encoded again. -/
theorem exists_putBack {r : List Event × Bytes} (h : splitEvents buf = .ok r) :
    ∃ bytes, encodeEvents r.1.tail = some bytes := by
  refine exists_encodeEvents fun ev hev => ?_
  obtain ⟨htopic, hpayload⟩ := length_of_mem_splitEvents h ev (List.mem_of_mem_tail hev)
  rw [maxTopic] at htopic
  rw [maxPayload] at hpayload
  exact ⟨by omega, by omega⟩

theorem recv_of_split (h : splitEvents buf = .ok (ev :: evs, rest)) {bytes : Bytes}
    (hbytes : encodeEvents evs = some bytes) (reads : List StreamRead) :
    recv buf reads = (.event ev, bytes ++ rest, reads) := by
  unfold recv
  rw [h]
  simp only [hbytes]

/-- The first chunk of a stream that decodes. -/
theorem split_chunk {chunk left : Bytes} {cs : List Bytes} {es : List Event}
    (h : splitEvents (rest ++ (chunk :: cs).flatten) = .ok (es, left)) :
    ∃ evs rest' es', splitEvents (rest ++ chunk) = .ok (evs, rest') ∧
      splitEvents (rest' ++ cs.flatten) = .ok (es', left) ∧ es = evs ++ es' ∧
        splitEvents rest' = .ok ([], rest') := by
  rw [List.flatten_cons, ← List.append_assoc] at h
  obtain ⟨⟨evs, rest'⟩, hr, es', hmore, hes⟩ := Decoder.split_of_append h
  exact ⟨evs, rest', es', hr, hmore, hes, Decoder.split_rest hr⟩

theorem clear_cons {chunk rest' : Bytes} (h : splitEvents (rest ++ chunk) = .ok (evs, rest'))
    (cs : List Bytes) :
    Clear rest (chunk :: cs) ↔ (∀ ev ∈ evs.tail, ev.Fits) ∧ Clear rest' cs := by
  rw [Clear, bursts, h]
  exact List.forall_mem_cons

/-- Calls of `recv` are to come to `out`, and the bytes to `rest` at the end. -/
def Pending (buf : Bytes) (reads : List StreamRead) (out : List Received) (left : Bytes) : Prop :=
  ∃ evs rest es, Holds buf evs rest ∧
    splitEvents (rest ++ (chunks reads).flatten) = .ok (es, left) ∧
    Clear rest (chunks reads) ∧ out = evs.map .event ++ replay rest reads

/-- One call of `recv`. -/
theorem recv_pending {out : List Received} {left : Bytes} (h : Pending buf reads out left) :
    (recv buf reads).1 = out.head?.getD .waiting ∧
      Pending (recv buf reads).2.1 (recv buf reads).2.2 out.tail left := by
  obtain ⟨evs, rest, es, hbuf, hwhole, hclear, rfl⟩ := h
  cases evs with
  | cons ev evs =>
    obtain ⟨bytes, hbytes⟩ := exists_putBack hbuf.split
    rw [recv_of_split hbuf.split hbytes]
    have hfits := List.forall_mem_cons.1 hbuf.fits
    exact ⟨rfl, evs, rest, es, ⟨⟨bytes, hbytes, rfl⟩, hfits.2, hbuf.rest⟩, hwhole, hclear, rfl⟩
  | nil =>
    obtain rfl := hbuf.eq_rest
    rw [List.map_nil, List.nil_append]
    induction reads generalizing buf with
    | nil =>
      unfold recv
      rw [hbuf.rest]
      exact ⟨rfl, [], buf, es, hbuf, hwhole, hclear, rfl⟩
    | cons read reads ih =>
      cases read with
      | timedOut =>
        unfold recv
        rw [hbuf.rest]
        exact ⟨rfl, [], buf, es, hbuf, hwhole, hclear, rfl⟩
      | data chunk =>
        obtain ⟨evs, rest', es', hsplit, hwhole', rfl, hrest'⟩ := split_chunk hwhole
        obtain ⟨hfits, hclear'⟩ := (clear_cons hsplit _).1 hclear
        cases chunk with
        | nil =>
          rw [List.append_nil, hbuf.rest] at hsplit
          obtain ⟨rfl, rfl⟩ := Prod.mk.inj (Except.ok.inj hsplit)
          unfold recv
          rw [hbuf.rest]
          exact ⟨rfl, [], _, es', hbuf, hwhole', hclear', rfl⟩
        | cons b chunk =>
          rw [replay, hsplit]
          unfold recv
          rw [hbuf.rest]
          simp only
          cases evs with
          | nil =>
            obtain rfl := Decoder.eq_of_split_nil hsplit
            exact ih hwhole' hclear' (holds_nil hrest')
          | cons ev evs =>
            obtain ⟨bytes, hbytes⟩ := exists_putBack hsplit
            rw [recv_of_split hsplit hbytes]
            exact ⟨rfl, evs, rest', es', ⟨⟨bytes, hbytes, rfl⟩, hfits, hrest'⟩, hwhole', hclear',
              rfl⟩

/-- Calls of `recv` come to what `replay` says, and then wait. -/
theorem recvs_pending {out : List Received} {left : Bytes} (h : Pending buf reads out left)
    (n : ℕ) :
    (recvs n buf reads).1 = (out ++ List.replicate n Received.waiting).take n ∧
      Pending (recvs n buf reads).2.1 (recvs n buf reads).2.2 (out.drop n) left := by
  induction n generalizing buf reads out with
  | zero => exact ⟨rfl, h⟩
  | succ n ih =>
    obtain ⟨hreceived, hnext⟩ := recv_pending h
    obtain ⟨hothers, hend⟩ := ih hnext
    rw [recvs]
    simp only
    rw [hreceived, hothers]
    cases out with
    | nil =>
      rw [List.drop_nil]
      rw [List.tail_nil, List.drop_nil] at hend
      refine ⟨?_, hend⟩
      simp [List.replicate_succ]
    | cons received out =>
      refine ⟨?_, hend⟩
      rw [List.replicate_succ', ← List.append_assoc]
      exact congrArg (received :: ·) (List.take_append_of_le_length (by simp)).symm

/-! ## Whole streams -/

/-- With no chunk empty, what is replayed are the events and the timeouts. -/
theorem replay_whole {left : Bytes} {es : List Event} (hne : ∀ chunk ∈ chunks reads, chunk ≠ [])
    (hrest : splitEvents rest = .ok ([], rest))
    (h : splitEvents (rest ++ (chunks reads).flatten) = .ok (es, left)) :
    returned (replay rest reads) = es ∧
      (∀ r ∈ replay rest reads, r = .timeoutError ∨ ∃ ev, r = .event ev) ∧
      (replay rest reads).length = es.length + reads.count .timedOut := by
  induction reads generalizing rest es with
  | nil =>
    rw [chunks, List.filterMap_nil, List.flatten_nil, List.append_nil, hrest] at h
    obtain ⟨rfl, -⟩ := Prod.mk.inj (Except.ok.inj h)
    exact ⟨rfl, List.forall_mem_nil _, rfl⟩
  | cons read reads ih =>
    cases read with
    | timedOut =>
      obtain ⟨hevents, hkinds, hlength⟩ := ih hne hrest h
      refine ⟨hevents, List.forall_mem_cons.2 ⟨.inl rfl, hkinds⟩, ?_⟩
      rw [replay, List.length_cons, hlength, List.count_cons_self, Nat.add_assoc]
    | data chunk =>
      obtain ⟨hchunk, hnes⟩ := List.forall_mem_cons.1
        (hne : ∀ c ∈ chunk :: chunks reads, c ≠ [])
      obtain ⟨b, chunk, rfl⟩ := List.exists_cons_of_ne_nil hchunk
      obtain ⟨evs, rest', es', hsplit, hmore, rfl, hrest'⟩ := split_chunk h
      obtain ⟨hevents, hkinds, hlength⟩ := ih hnes hrest' hmore
      rw [replay, hsplit]
      simp only
      refine ⟨?_, ?_, ?_⟩
      · rw [returned] at hevents ⊢
        rw [List.filterMap_append, hevents, List.filterMap_map]
        exact congrArg (· ++ es') List.filterMap_some
      · intro r hr
        rcases List.mem_append.1 hr with hr | hr
        · obtain ⟨ev, -, rfl⟩ := List.mem_map.1 hr
          exact .inr ⟨ev, rfl⟩
        · exact hkinds r hr
      · rw [List.length_append, List.length_map, hlength, List.length_append,
          List.count_cons_of_ne (by simp), Nat.add_assoc]

/-- What a buffer holds is yielded first. -/
theorem iterate_of_split (h : splitEvents buf = .ok (evs, rest)) (reads : List StreamRead) :
    iterate buf reads = (evs ++ (iterate rest reads).1, (iterate rest reads).2) := by
  have hrest : splitEvents rest = .ok ([], rest) := Decoder.split_rest h
  cases reads with
  | nil =>
    unfold iterate
    rw [h, hrest]
    simp
  | cons read reads =>
    unfold iterate
    rw [h, hrest]
    cases read with
    | timedOut => simp
    | data chunk =>
      cases chunk with
      | nil => simp
      | cons b chunk => simp

/-- The events of some chunks, and what comes after them. -/
theorem iterate_chunks {left : Bytes} {cs : List Bytes} {es : List Event}
    (hne : ∀ chunk ∈ cs, chunk ≠ []) (hrest : splitEvents rest = .ok ([], rest))
    (h : splitEvents (rest ++ cs.flatten) = .ok (es, left)) (more : List StreamRead) :
    iterate rest (cs.map .data ++ more) = (es ++ (iterate left more).1, (iterate left more).2) ∧
      replay rest (cs.map .data ++ more) = es.map .event ++ replay left more := by
  induction cs generalizing rest es with
  | nil =>
    rw [List.flatten_nil, List.append_nil, hrest] at h
    obtain ⟨rfl, rfl⟩ := Prod.mk.inj (Except.ok.inj h)
    exact ⟨rfl, rfl⟩
  | cons chunk cs ih =>
    obtain ⟨hchunk, hnes⟩ := List.forall_mem_cons.1 hne
    obtain ⟨b, chunk, rfl⟩ := List.exists_cons_of_ne_nil hchunk
    obtain ⟨evs, rest', es', hsplit, hmore, rfl, hrest'⟩ := split_chunk h
    obtain ⟨hiterate, hreplay⟩ := ih hnes hrest' hmore
    rw [List.map_cons, List.cons_append]
    constructor
    · rw [iterate, hrest]
      simp only [List.nil_append]
      rw [iterate_of_split hsplit, hiterate, List.append_assoc]
    · rw [replay, hsplit]
      simp only
      rw [hreplay, List.map_append, List.append_assoc]

/-- Reads that are still to come were still to come before. -/
theorem recv_suffix (buf : Bytes) (reads : List StreamRead) : (recv buf reads).2.2 <:+ reads := by
  induction reads generalizing buf with
  | nil =>
    unfold recv
    split
    · exact List.suffix_refl _
    · split <;> exact List.suffix_refl _
    · exact List.suffix_refl _
  | cons read reads ih =>
    unfold recv
    split
    · exact List.suffix_refl _
    · split <;> exact List.suffix_refl _
    · split
      · rename_i hnil
        cases hnil
      · rename_i hcons
        obtain ⟨-, rfl⟩ := List.cons.inj hcons
        exact List.suffix_cons _ _
      · rename_i hcons
        obtain ⟨-, rfl⟩ := List.cons.inj hcons
        exact List.suffix_cons _ _
      · rename_i hcons
        obtain ⟨-, rfl⟩ := List.cons.inj hcons
        exact (ih _).trans (List.suffix_cons _ _)

theorem recvs_suffix (n : ℕ) (buf : Bytes) (reads : List StreamRead) :
    (recvs n buf reads).2.2 <:+ reads := by
  induction n generalizing buf reads with
  | zero => exact List.suffix_refl _
  | succ n ih => exact (ih _ _).trans (recv_suffix buf reads)

/-- Events within the limits are clear. -/
theorem clear_of_fits {left : Bytes} {cs : List Bytes} {es : List Event}
    (h : splitEvents (rest ++ cs.flatten) = .ok (es, left)) (hfits : ∀ ev ∈ es, ev.Fits) :
    Clear rest cs := by
  induction cs generalizing rest es with
  | nil => exact List.forall_mem_nil _
  | cons chunk cs ih =>
    obtain ⟨evs, rest', es', hsplit, hmore, rfl, -⟩ := split_chunk h
    rw [List.forall_mem_append] at hfits
    exact (clear_cons hsplit cs).2
      ⟨fun ev hev => hfits.1 ev (List.mem_of_mem_tail hev), ih hmore hfits.2⟩

theorem returned_take (out : List Received) (n : ℕ) :
    returned ((out ++ List.replicate n Received.waiting).take n) = returned (out.take n) := by
  rw [List.take_append, returned, List.filterMap_append, List.take_replicate,
    List.filterMap_replicate_of_none rfl, List.append_nil]
  rfl

end

/-- Events within the limits, cut in any way and with any timeouts in between : calls of `recv`
return exactly these events in order and raise nothing but timeouts, a call waits only when all
events have been returned, and then the buffer is empty. `_iterate_current_stream` yields the
same events. -/
theorem event_delivery {evs : List Event} (hfits : ∀ ev ∈ evs, ev.Fits) {bytes : Bytes}
    (hbytes : encodeEvents evs = some bytes) {reads : List StreamRead}
    (hne : ∀ chunk ∈ chunks reads, chunk ≠ []) (hreads : (chunks reads).flatten = bytes) :
    (∀ n, returned (recvs n [] reads).1 <+: evs ∧
      (∀ r ∈ (recvs n [] reads).1, r = .timeoutError ∨ r = .waiting ∨ ∃ ev, r = .event ev) ∧
      (.waiting ∈ (recvs n [] reads).1 → returned (recvs n [] reads).1 = evs) ∧
      (returned (recvs n [] reads).1 = evs → (recvs n [] reads).2.1 = [])) ∧
    (∀ n, evs.length + reads.count .timedOut ≤ n → returned (recvs n [] reads).1 = evs) ∧
    iterate [] ((chunks reads).map .data) = (evs, .waiting, [], []) := by
  have hnil : splitEvents [] = .ok ([], []) := rfl
  have hwhole : splitEvents ([] ++ (chunks reads).flatten) = .ok (evs, []) := by
    have h := splitEvents_encodeEvents hfits hbytes []
    rw [List.append_nil, hnil] at h
    rw [hreads, List.nil_append, h]
    simp [Except.map]
  have hstart : Pending [] reads (replay [] reads) [] :=
    ⟨[], [], evs, holds_nil hnil, hwhole, clear_of_fits hwhole hfits, rfl⟩
  obtain ⟨hevents, hkinds, hlength⟩ := replay_whole hne hnil hwhole
  have hreturned (n : ℕ) :
      returned (recvs n [] reads).1 = returned ((replay [] reads).take n) := by
    rw [(recvs_pending hstart n).1, returned_take]
  have hall {n : ℕ} (hn : (replay [] reads).length ≤ n) :
      returned (recvs n [] reads).1 = evs := by
    rw [hreturned, List.take_of_length_le hn, hevents]
  refine ⟨fun n => ⟨?_, ?_, ?_, ?_⟩, fun n hn => hall (hlength ▸ hn), ?_⟩
  · rw [hreturned, ← hevents]
    exact (List.take_prefix n _).filterMap _
  · rw [(recvs_pending hstart n).1]
    intro r hr
    rcases List.mem_append.1 (List.mem_of_mem_take hr) with hr | hr
    · rcases hkinds r hr with h | h
      · exact .inl h
      · exact .inr (.inr h)
    · exact .inr (.inl (List.eq_of_mem_replicate hr))
  · intro hwaiting
    refine hall (Nat.le_of_not_lt fun hn => ?_)
    rw [(recvs_pending hstart n).1, List.take_append_of_le_length (Nat.le_of_lt hn)] at hwaiting
    rcases hkinds _ (List.mem_of_mem_take hwaiting) with h | ⟨ev, h⟩
    · cases h
    · cases h
  · intro hlast
    obtain ⟨evs', rest, es, hbuf, hleft, -, hout⟩ := (recvs_pending hstart n).2
    -- Nothing is left to return, so nothing is left of the bytes.
    have hdone : returned ((replay [] reads).drop n) = [] := by
      have happend := congrArg returned (List.take_append_drop n (replay [] reads))
      rw [returned, List.filterMap_append] at happend
      rw [hreturned, returned] at hlast
      rw [hlast, hevents] at happend
      exact List.append_right_eq_self.1 happend
    rw [hout, returned, List.filterMap_append, List.append_eq_nil_iff, List.filterMap_map] at hdone
    obtain rfl : evs' = [] := List.filterMap_some.symm.trans hdone.1
    have hne' : ∀ chunk ∈ chunks (recvs n [] reads).2.2, chunk ≠ [] := fun chunk hchunk =>
      hne chunk (((recvs_suffix n [] reads).filterMap _).subset hchunk)
    obtain rfl : es = [] := (replay_whole hne' hbuf.rest hleft).1.symm.trans hdone.2
    have hnone := Decoder.eq_of_split_nil hleft
    exact hbuf.eq_rest.trans (List.append_eq_nil_iff.1 hnone.symm).1
  · have h := (iterate_chunks hne hnil hwhole []).1
    rw [List.append_nil] at h
    rw [h]
    simp [iterate, hnil]

theorem event_delivery_burst :
    returned (recvs 4 [] [.data [0, 1, 97, 0, 0, 0], .timedOut,
      .data [1, 33, 0, 1, 98, 0, 0, 0, 0]]).1 = [⟨"a", [33]⟩, ⟨"b", []⟩] := by
  have hbytes : encodeEvents [⟨"a", [33]⟩, ⟨"b", []⟩] =
      some [0, 1, 97, 0, 0, 0, 1, 33, 0, 1, 98, 0, 0, 0, 0] := by
    decide
  have hne : ∀ chunk ∈ chunks [.data [0, 1, 97, 0, 0, 0], .timedOut,
      .data [1, 33, 0, 1, 98, 0, 0, 0, 0]], chunk ≠ [] := by
    decide
  exact (event_delivery (by decide) hbytes hne rfl).2.1 4 (by decide)

/-! ## Agreement of the two paths -/

section

variable {buf rest : Bytes} {evs : List Event} {reads : List StreamRead}

theorem recvs_add (a b : ℕ) (buf : Bytes) (reads : List StreamRead) :
    (recvs (a + b) buf reads).1 = (recvs a buf reads).1 ++
      (recvs b (recvs a buf reads).2.1 (recvs a buf reads).2.2).1 := by
  induction a generalizing buf reads with
  | zero => rw [Nat.zero_add]; rfl
  | succ a ih =>
    rw [Nat.succ_add, recvs]
    simp only [ih]
    rfl

/-- Events that were put back are returned one by one. -/
theorem recvs_holds (h : Holds buf evs rest) (reads : List StreamRead) :
    recvs evs.length buf reads = (evs.map .event, rest, reads) := by
  induction evs generalizing buf with
  | nil => rw [h.eq_rest]; rfl
  | cons ev evs ih =>
    obtain ⟨bytes, hbytes⟩ := exists_putBack h.split
    have hnext : Holds (bytes ++ rest) evs rest :=
      ⟨⟨bytes, hbytes, rfl⟩, (List.forall_mem_cons.1 h.fits).2, h.rest⟩
    rw [List.length_cons, recvs, recv_of_split h.split hbytes]
    simp only [ih hnext]
    rfl

theorem chunks_map_data (cs : List Bytes) (reads : List StreamRead) :
    chunks (cs.map .data ++ reads) = cs ++ chunks reads := by
  rw [chunks, List.filterMap_append, List.filterMap_map]
  exact congrArg (· ++ chunks reads) List.filterMap_some

/-- The end of the stream completes nothing. -/
theorem clear_end {left : Bytes} {cs : List Bytes} {es : List Event}
    (hrest : splitEvents rest = .ok ([], rest))
    (hwhole : splitEvents (rest ++ cs.flatten) = .ok (es, left)) (h : Clear rest cs) :
    Clear rest (cs ++ [[]]) := by
  induction cs generalizing rest es with
  | nil =>
    refine (clear_cons (by rw [List.append_nil, hrest]) []).2 ⟨?_, h⟩
    exact List.forall_mem_nil _
  | cons chunk cs ih =>
    obtain ⟨evs, rest', es', hsplit, hmore, rfl, hrest'⟩ := split_chunk hwhole
    obtain ⟨hfits, hclear⟩ := (clear_cons hsplit cs).1 h
    exact (clear_cons hsplit _).2 ⟨hfits, ih hrest' hmore hclear⟩

/-- If `recv` returns as many events as there are before it raises, the chunks are clear. -/
theorem clear_of_recvs {left : Bytes} {cs : List Bytes} {es : List Event} {more : List StreamRead}
    (hne : ∀ chunk ∈ cs, chunk ≠ []) (hrest : splitEvents rest = .ok ([], rest))
    (hwhole : splitEvents (rest ++ cs.flatten) = .ok (es, left))
    (h : ∀ n ≤ es.length, ∀ text, .valueError text ∉ (recvs n rest (cs.map .data ++ more)).1) :
    Clear rest cs := by
  induction cs generalizing rest es with
  | nil => exact List.forall_mem_nil _
  | cons chunk cs ih =>
    obtain ⟨hchunk, hnes⟩ := List.forall_mem_cons.1 hne
    obtain ⟨b, chunk, rfl⟩ := List.exists_cons_of_ne_nil hchunk
    obtain ⟨evs, rest', es', hsplit, hmore, rfl, hrest'⟩ := split_chunk hwhole
    have hread : recv rest (.data (b :: chunk) :: (cs.map .data ++ more)) =
        recv (rest ++ b :: chunk) (cs.map .data ++ more) := by
      rw [recv, hrest]
    rw [clear_cons hsplit]
    cases evs with
    | nil =>
      obtain rfl := Decoder.eq_of_split_nil hsplit
      refine ⟨List.forall_mem_nil _, ih hnes hrest' hmore fun n hle text => ?_⟩
      cases n with
      | zero => exact List.not_mem_nil
      | succ n =>
        have hn := h (n + 1) hle text
        rwa [List.map_cons, List.cons_append, recvs, hread] at hn
    | cons ev evs =>
      obtain ⟨bytes, hbytes⟩ := exists_putBack hsplit
      have hfirst (n : ℕ) : (recvs (n + 1) rest (((b :: chunk) :: cs).map .data ++ more)).1 =
          .event ev :: (recvs n (bytes ++ rest') (cs.map .data ++ more)).1 := by
        rw [List.map_cons, List.cons_append, recvs, hread, recv_of_split hsplit hbytes]
      rw [List.length_append, List.length_cons] at h
      have hlater (n : ℕ) (hle : n ≤ evs.length + es'.length) (text : String) :
          .valueError text ∉ (recvs n (bytes ++ rest') (cs.map .data ++ more)).1 := by
        intro hmem
        have hn := h (n + 1) (by omega) text
        rw [hfirst] at hn
        exact hn (List.mem_cons_of_mem _ hmem)
      have hlengths := length_of_mem_splitEvents hsplit
      have hfits : ∀ ev ∈ evs, ev.Fits := by
        intro ev' hev'
        have hpayload := (hlengths ev' (List.mem_cons_of_mem _ hev')).2
        refine ⟨Nat.le_of_not_lt fun hlong => ?_, hpayload⟩
        obtain ⟨text, htext⟩ := splitEvents_encodeEvents_error hev' hlong
          (fun e he => (hlengths e (List.mem_cons_of_mem _ he)).2) hbytes rest'
        have hraises : recv (bytes ++ rest') (cs.map .data ++ more) =
            (.valueError text, bytes ++ rest', cs.map .data ++ more) := by
          unfold recv
          rw [htext]
        have hpos := List.length_pos_of_mem hev'
        have hone := hlater 1 (by omega) text
        rw [recvs, hraises] at hone
        exact hone List.mem_cons_self
      refine ⟨hfits, ih hnes hrest' hmore fun n hle text hmem => ?_⟩
      have hputBack : Holds (bytes ++ rest') evs rest' := ⟨⟨bytes, hbytes, rfl⟩, hfits, hrest'⟩
      have hn := hlater (evs.length + n) (by omega) text
      rw [recvs_add, recvs_holds hputBack] at hn
      exact hn (List.mem_append_right _ hmem)

end

/-- Until the end of the stream, calls of `recv` return what `_iterate_current_stream` yields,
and neither raises. -/
def Agree (cs : List Bytes) : Prop :=
  let reads := cs.map .data ++ [.data []]
  (iterate [] reads).2.1 = .eofError ∧ ∀ n, (recvs n [] reads).1 =
    ((iterate [] reads).1.map Received.event ++
      Received.eofError :: List.replicate n .waiting).take n

theorem length_of_mem_bursts {rest : Bytes} {cs : List Bytes} {burst : List Event}
    (h : burst ∈ bursts rest cs) : ∀ ev ∈ burst, ev.payload.length ≤ maxPayload := by
  induction cs generalizing rest with
  | nil => cases h
  | cons chunk cs ih =>
    rw [bursts] at h
    split at h
    · cases h
    · rename_i evs rest' hsplit
      rcases List.mem_cons.1 h with rfl | h
      · exact fun ev hev => (length_of_mem_splitEvents hsplit ev hev).2
      · exact ih h

/-- If the two agree, the chunks are clear. -/
theorem clear_of_agree {cs : List Bytes} (hne : ∀ chunk ∈ cs, chunk ≠ []) {evs : List Event}
    {left : Bytes} (hwhole : splitEvents cs.flatten = .ok (evs, left)) (h : Agree cs) :
    Clear [] cs := by
  have hraises (n : ℕ) (text : String) :
      .valueError text ∉ (recvs n [] (cs.map .data ++ [.data []])).1 := by
    rw [h.2 n]
    intro hmem
    have hmem := List.mem_of_mem_take hmem
    simp at hmem
  exact clear_of_recvs hne rfl hwhole fun n _ text => hraises n text

/-- On any stream that decodes, in any chunks, the two agree exactly if no chunk completes, after
another event, one whose topic is over the limit once its bytes are replaced. -/
theorem recv_agrees_iff {cs : List Bytes} (hne : ∀ chunk ∈ cs, chunk ≠ []) {evs : List Event}
    {left : Bytes} (hwhole : splitEvents cs.flatten = .ok (evs, left)) :
    Agree cs ↔ ∀ burst ∈ bursts [] cs, ∀ ev ∈ burst.tail,
      (Utf8.encode ev.topic).length ≤ maxTopic := by
  have hnil : splitEvents [] = .ok ([], []) := rfl
  constructor
  · intro h
    exact fun burst hburst ev hev => (clear_of_agree hne hwhole h burst hburst ev hev).topic
  · intro h
    have hclear : Clear [] cs := fun burst hburst ev hev =>
      ⟨h burst hburst ev hev, length_of_mem_bursts hburst ev (List.mem_of_mem_tail hev)⟩
    obtain ⟨hiterate, hreplay⟩ := iterate_chunks hne hnil hwhole [.data []]
    have hend : iterate left [.data []] = ([], .eofError, left, []) := by
      unfold iterate
      rw [splitEvents, Decoder.split_rest hwhole]
    have hstart : Pending [] (cs.map .data ++ [.data []])
        (replay [] (cs.map .data ++ [.data []])) left := by
      refine ⟨[], [], evs, holds_nil hnil, ?_, ?_, rfl⟩
      · rw [chunks_map_data, List.flatten_append]
        simpa [chunks] using hwhole
      · rw [chunks_map_data]
        exact clear_end hnil hwhole hclear
    rw [hend, List.append_nil] at hiterate
    rw [Agree, hiterate]
    refine ⟨rfl, fun n => ?_⟩
    rw [(recvs_pending hstart n).1, hreplay, List.append_assoc]
    rfl

theorem recv_agrees_iff_twoChunks :
    Agree [[0, 1, 97, 0, 0, 0], [1, 33, 0, 1, 98, 0, 0, 0, 0]] := by
  have hwhole : splitEvents [[0, 1, 97, 0, 0, 0], [1, 33, 0, 1, 98, 0, 0, 0, 0]].flatten =
      .ok ([⟨"a", [33]⟩, ⟨"b", []⟩], []) := rfl
  exact (recv_agrees_iff (by decide) hwhole).2 (by decide)

/-- An event, and one whose topic is 342 bytes of no UTF-8. -/
def replacedTopic : Bytes :=
  [0, 1, 97, 0, 0, 0, 0] ++ ([1, 86] ++ List.replicate 342 0xFF ++ [0, 0, 0, 0])

set_option maxRecDepth 4000 in
/-- The topic is three times as long when it is put back, and the next `recv` raises. -/
theorem replaced_topic_raises :
    splitEvents [replacedTopic].flatten =
        .ok ([⟨"a", []⟩, ⟨Utf8.decode (List.replicate 342 0xFF), []⟩], []) ∧
      ¬Agree [replacedTopic] := by
  have hwhole : splitEvents [replacedTopic].flatten =
      .ok ([⟨"a", []⟩, ⟨Utf8.decode (List.replicate 342 0xFF), []⟩], []) := by
    rfl
  refine ⟨hwhole, fun h => ?_⟩
  have hclear := clear_of_agree (by decide) hwhole h
  have hburst : bursts [] [replacedTopic] =
      [[⟨"a", []⟩, ⟨Utf8.decode (List.replicate 342 0xFF), []⟩]] := by
    rw [List.flatten_singleton] at hwhole
    rw [bursts, List.nil_append, hwhole]
    rfl
  have hfits := hclear _ (by rw [hburst]; exact List.mem_singleton_self _)
    ⟨Utf8.decode (List.replicate 342 0xFF), []⟩ (List.mem_singleton_self _)
  have hlength : (Utf8.encode (Utf8.decode (List.replicate 342 0xFF))).length = 1026 := by
    have hchars : Utf8.decodeFrom none (List.replicate 342 0xFF) =
        List.replicate 342 Utf8.replacement := by
      decide +kernel
    rw [Utf8.encode, Utf8.decode, String.toList_ofList, hchars]
    decide +kernel
  have htopic := hfits.topic
  rw [hlength] at htopic
  exact absurd htopic (by decide)

end PilotChannel

end PilotLanggraph

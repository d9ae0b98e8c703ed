import PilotLanggraph.Runnables

/-!
# Fragmented replies

A worker writes a reply frame by frame; the daemon delivers the bytes in chunks of its own
choice. `readLoop_reply` follows the reader through any such chunking, and `fragmented_iff`
says for which of them the caller gets the reply as it was written.
-/

namespace PilotLanggraph

namespace PilotRemoteRunnable

variable {r : PilotRemoteRunnable}

theorem drainLines_texts {k : Bool → Trace} : ∀ {fs : List Frame},
    (∀ f ∈ fs, (Json.obj f).WF ∧ f.done = false) → ∀ (lines : List Bytes) (sawAny : Bool),
    r.drainLines Json.loads sawAny k (fs.map Frame.text ++ lines) =
      .yield (fs.map (Frame.withPeer r.peerAddr))
        (r.drainLines Json.loads (sawAny || !fs.isEmpty) k lines)
  | [], _, lines, sawAny => by simp [Trace.yield]
  | f :: fs, h, lines, sawAny => by
    rw [List.forall_mem_cons] at h
    rw [List.map_cons, List.cons_append, drainLines, if_neg f.text_ne_nil,
      Frame.loads_text h.1.1]
    simp only [Frame.done_withPeer, h.1.2, Bool.false_eq_true, if_false,
      drainLines_texts h.2 lines true]
    simp [Trace.yield]

end PilotRemoteRunnable

/-- A worker's reply : frames that are not final, and a final one. -/
structure Reply where
  /-- The frames before the last. -/
  partials : List Frame
  /-- The last frame. -/
  final : Frame
  wf_partials : ∀ f ∈ partials, (Json.obj f).WF
  wf_final : (Json.obj final).WF
  done_partials : ∀ f ∈ partials, Assoc.get? "done" f = some (.bool false)
  done_final : Assoc.get? "done" final = some (.bool true)

namespace Reply

/-- All frames, in order. -/
def frames (p : Reply) : List Frame :=
  p.partials ++ [p.final]

/-- The reply without its first frames. -/
def drop (p : Reply) (j : ℕ) : Reply where
  partials := p.partials.drop j
  final := p.final
  wf_partials f hf := p.wf_partials f (List.drop_subset _ _ hf)
  wf_final := p.wf_final
  done_partials f hf := p.done_partials f (List.drop_subset _ _ hf)
  done_final := p.done_final

theorem frames_eq_append_drop (p : Reply) (j : ℕ) :
    p.frames = p.partials.take j ++ (p.drop j).frames := by
  rw [frames, frames, ← List.append_assoc]
  exact congrArg (· ++ [p.final]) (List.take_append_drop j p.partials).symm

theorem take_frames (p : Reply) {j : ℕ} (hj : j ≤ p.partials.length) :
    p.frames.take j = p.partials.take j := by
  rw [frames, List.take_append_of_le_length hj]

theorem drop_frames (p : Reply) {j : ℕ} (hj : j ≤ p.partials.length) :
    p.frames.drop j = (p.drop j).frames := by
  rw [frames, List.drop_append_of_le_length hj]
  rfl

theorem length_frames_drop (p : Reply) {j : ℕ} (hj : j ≤ p.partials.length) :
    p.frames.length = j + (p.drop j).frames.length := by
  rw [← p.drop_frames hj, List.length_drop, frames, List.length_append]
  omega

/-- The trace of a caller that gets the first `m` frames. -/
def trace (p : Reply) (peer : String) (m : ℕ) : Trace :=
  ⟨(p.frames.take m).map (Frame.withPeer peer), .returned ()⟩

theorem yield_trace_drop (p : Reply) {j : ℕ} (hj : j ≤ p.partials.length) (peer : String) (m : ℕ) :
    .yield ((p.partials.take j).map (Frame.withPeer peer)) ((p.drop j).trace peer m) =
      p.trace peer (j + m) := by
  have htake : p.frames.take (j + m) = p.partials.take j ++ (p.drop j).frames.take m := by
    rw [p.frames_eq_append_drop j, List.take_append, List.take_take,
      List.length_take_of_le hj, Nat.add_sub_cancel_left, Nat.min_eq_right (Nat.le_add_right j m)]
  rw [trace, trace, htake, List.map_append]
  rfl

theorem done_of_mem_partials (p : Reply) {f : Frame} (hf : f ∈ p.partials) : f.done = false := by
  rw [Frame.done, Frame.get, p.done_partials f hf]
  rfl

theorem done_last (p : Reply) : p.final.done = true := by
  rw [Frame.done, Frame.get, p.done_final]
  rfl

/-- A reader that has the whole reply hands it all out. -/
theorem drainLines_frames (p : Reply) (r : PilotRemoteRunnable) (sawAny : Bool)
    (k : Bool → Trace) : r.drainLines Json.loads sawAny k (p.frames.map Frame.text) =
      p.trace r.peerAddr p.frames.length := by
  rw [trace, List.take_length, frames, List.map_append,
    PilotRemoteRunnable.drainLines_texts fun f hf =>
      ⟨p.wf_partials f hf, p.done_of_mem_partials hf⟩,
    List.map_singleton, PilotRemoteRunnable.drainLines, if_neg p.final.text_ne_nil,
    Frame.loads_text p.wf_final]
  simp [Trace.yield, Trace.return', p.done_last]

theorem isSome_done (p : Reply) {f : Frame} (hf : f ∈ p.frames) :
    (Assoc.get? "done" f).isSome := by
  rcases List.mem_append.1 hf with hf | hf
  · rw [p.done_partials f hf]
    rfl
  · rw [List.mem_singleton.1 hf, p.done_final]
    rfl

theorem wf_of_mem_frames (p : Reply) {f : Frame} (hf : f ∈ p.frames) : (Json.obj f).WF := by
  rcases List.mem_append.1 hf with hf | hf
  · exact p.wf_partials f hf
  · rw [List.mem_singleton.1 hf]
    exact p.wf_final

/-- A reply starts with a brace, not with a newline. -/
theorem wire_ne (p : Reply) (rest : Bytes) : Frame.wire p.frames ≠ Frame.newline :: rest := by
  obtain ⟨g, gs, hg⟩ : ∃ g gs, p.frames = g :: gs := List.exists_cons_of_ne_nil (by simp [frames])
  obtain ⟨b, l, hl⟩ := List.exists_cons_of_ne_nil g.text_ne_nil
  rw [hg, Frame.wire_cons, hl, List.cons_append]
  intro h
  exact g.newline_not_mem_text (by rw [hl, (List.cons.inj h).1]; simp)

theorem newline_not_mem (p : Reply) : ∀ line ∈ p.frames.map Frame.text, Frame.newline ∉ line := by
  intro line hline
  obtain ⟨f, -, rfl⟩ := List.mem_map.1 hline
  exact f.newline_not_mem_text

end Reply

/-- No chunk starts with the newline of a frame, unless that newline ends the stream. -/
def Unbroken (chunks : List Bytes) : Prop :=
  ∀ k rest, (chunks.drop k).flatten = Frame.newline :: rest → rest = []

theorem unbroken_cons {chunk : Bytes} {chunks : List Bytes}
    (h : ∀ rest, (chunk :: chunks).flatten ≠ Frame.newline :: rest) :
    Unbroken (chunk :: chunks) ↔ Unbroken chunks := by
  constructor
  · exact fun hu k rest hrest => hu (k + 1) rest hrest
  · intro hu k rest hrest
    cases k with
    | zero => exact absurd hrest (h rest)
    | succ k => exact hu k rest hrest

/-- Chunks that hold no more than one byte are not broken. -/
theorem unbroken_of_length_le_one {chunks : List Bytes} (h : chunks.flatten.length ≤ 1) :
    Unbroken chunks := by
  intro k rest hrest
  have hcut : (chunks.take k).flatten ++ (chunks.drop k).flatten = chunks.flatten := by
    rw [← List.flatten_append, List.take_append_drop]
  rw [← hcut, hrest, List.length_append, List.length_cons] at h
  exact List.length_eq_zero_iff.1 (by omega)

namespace PilotRemoteRunnable

variable {r : PilotRemoteRunnable}

/-- The legacy fallback takes a whole frame that waits for its newline, -/
theorem legacy_text {f : Frame} (hf : (Json.obj f).WF) (hdone : (Assoc.get? "done" f).isSome)
    (k : Trace) : r.legacy Json.loads f.text k = ⟨[f.withPeer r.peerAddr], .returned ()⟩ := by
  have hget : Assoc.get? "done" (f.withPeer r.peerAddr) = Assoc.get? "done" f :=
    Assoc.get?_set_of_ne _ (by decide) f
  rw [legacy, if_neg f.text_ne_nil, Frame.loads_text hf]
  simp only [withDone, hget, hdone, if_true]
  rfl

/-- and leaves the start of a frame alone. -/
theorem legacy_of_text_eq_append {f : Frame} (hf : (Json.obj f).WF) {rest a : Bytes}
    (h : f.text = rest ++ a) (ha : a ≠ []) (k : Trace) : r.legacy Json.loads rest k = k := by
  rw [legacy]
  split_ifs with hrest
  · rfl
  · rw [Frame.loads_of_text_eq_append hf h ha]

/-- A frame whose newline is late is the last one that is read. -/
theorem legacy_late {p : Reply} {g : Frame} {gs : List Frame} (hg : p.frames = g :: gs)
    {chunks : List Bytes} (hflat : chunks.flatten = Frame.newline :: Frame.wire gs) (k : Trace) :
    ∃ m ≤ p.frames.length, r.legacy Json.loads g.text k = p.trace r.peerAddr m ∧
      (m = p.frames.length ↔ Unbroken chunks) := by
  have hmem : g ∈ p.frames := by simp [hg]
  refine ⟨1, by simp [hg], ?_, ?_⟩
  · rw [legacy_text (p.wf_of_mem_frames hmem) (p.isSome_done hmem), Reply.trace, hg]
    rfl
  · have hlen : 1 = p.frames.length ↔ gs = [] := by
      rw [hg, List.length_cons, ← List.length_eq_zero_iff]
      omega
    rw [hlen]
    constructor
    · intro hnil
      exact unbroken_of_length_le_one (by simp [hflat, hnil, Frame.wire])
    · exact fun hu => Frame.wire_eq_nil.1 (hu 0 _ hflat)

/-- A reply that arrives in chunks is read up to the first frame whose newline is late. -/
theorem readLoop_reply (tail : List Read) : ∀ {chunks : List Bytes} {p : Reply} {buf : Bytes},
    (∀ c ∈ chunks, c ≠ []) → Frame.newline ∉ buf → buf ++ chunks.flatten = Frame.wire p.frames →
    (∀ rest, chunks.flatten ≠ Frame.newline :: rest) → ∀ sawAny : Bool, ∃ m ≤ p.frames.length,
      r.readLoop Json.loads buf sawAny (chunks.map .data ++ tail) = p.trace r.peerAddr m ∧
        (m = p.frames.length ↔ Unbroken chunks)
  | [], p, buf, _, hbuf, hwire, _, _ => by
    refine absurd ?_ hbuf
    rw [List.flatten_nil, List.append_nil] at hwire
    rw [hwire, Frame.wire, Reply.frames, List.mem_flatMap]
    exact ⟨p.final, by simp, by simp [Frame.sendChunk]⟩
  | chunk :: chunks, p, buf, hne, hbuf, hwire, hstart, sawAny => by
    rw [List.forall_mem_cons] at hne
    rw [List.flatten_cons, ← List.append_assoc, Frame.wire_eq_join] at hwire
    obtain ⟨j, rest, hsplit, hj, hrest, hjoin, -⟩ := Framing.split_of_append p.newline_not_mem hwire
    rw [← List.map_take] at hsplit
    rw [← List.map_drop] at hjoin
    rw [unbroken_cons hstart, List.map_cons, List.cons_append, readLoop_data hne.1 hsplit]
    rcases Nat.lt_or_ge p.partials.length j with hall | hpart
    · -- The whole reply is there.
      have hlen : p.frames.length ≤ j := by
        rw [Reply.frames, List.length_append, List.length_singleton]
        exact hall
      rw [List.drop_of_length_le hlen] at hjoin
      have hflat : chunks.flatten = [] := (List.append_eq_nil_iff.1 hjoin).2
      refine ⟨p.frames.length, Nat.le_refl _, ?_, iff_of_true rfl ?_⟩
      · rw [List.take_of_length_le hlen, p.drainLines_frames]
      · exact unbroken_of_length_le_one (by simp [hflat])
    · -- Some frames are still to come : the rest of the reply is a reply of its own.
      rw [p.drop_frames hpart, ← Frame.wire_eq_join] at hjoin
      suffices h : ∃ m ≤ (p.drop j).frames.length,
          r.legacy Json.loads rest (r.readLoop Json.loads rest
            (sawAny || !(p.partials.take j).isEmpty) (chunks.map .data ++ tail)) =
              (p.drop j).trace r.peerAddr m ∧
            (m = (p.drop j).frames.length ↔ Unbroken chunks) by
        obtain ⟨m, hm, htrace, hiff⟩ := h
        have htotal := p.length_frames_drop hpart
        have hpartials : ∀ f ∈ p.partials.take j, (Json.obj f).WF ∧ f.done = false := by
          intro f hf
          have hf := List.take_subset j _ hf
          exact ⟨p.wf_partials f hf, p.done_of_mem_partials hf⟩
        refine ⟨j + m, by omega, ?_, by rw [← hiff]; omega⟩
        rw [p.take_frames hpart, ← List.append_nil ((p.partials.take j).map Frame.text),
          drainLines_texts hpartials, drainLines, htrace, p.yield_trace_drop hpart]
      obtain ⟨g, gs, hg⟩ : ∃ g gs, (p.drop j).frames = g :: gs :=
        List.exists_cons_of_ne_nil (by simp [Reply.frames])
      obtain ⟨a, htext, hflat⟩ := Frame.prefix_of_append_eq_wire hrest (hg ▸ hjoin)
      cases a with
      | nil =>
        rw [List.append_nil] at htext
        rw [← htext]
        exact legacy_late hg hflat _
      | cons b a =>
        have hwf : (Json.obj g).WF := (p.drop j).wf_of_mem_frames (by simp [hg])
        rw [legacy_of_text_eq_append hwf htext (by simp)]
        refine readLoop_reply tail hne.2 hrest hjoin ?_ _
        intro rest' hrest'
        rw [hflat, List.cons_append, List.cons.injEq] at hrest'
        exact g.newline_not_mem_text (by rw [htext, hrest'.1]; simp)

theorem streamResults_reply {ending : Outcome Unit} {last : Frame} (hlast : last.done = true)
    (herr : ¬last.isError) : ∀ {fs : List Frame}, (∀ f ∈ fs, f.done = false ∧ ¬f.isError) →
    r.streamResults ending ((fs ++ [last]).map (Frame.withPeer r.peerAddr)) =
      ((fs ++ [last]).filterMap Frame.result?, .returned ())
  | [], _ => by
    simp only [List.nil_append, List.map_singleton, streamResults, Frame.isError_withPeer,
      Frame.done_withPeer, Frame.result?_withPeer, hlast, herr, if_true, if_false]
    cases h : last.result? <;> simp [h]
  | f :: fs, h => by
    rw [List.forall_mem_cons] at h
    simp only [List.cons_append, List.map_cons, streamResults, Frame.isError_withPeer,
      Frame.done_withPeer, Frame.result?_withPeer, h.1, if_false, Bool.false_eq_true,
      streamResults_reply hlast herr h.2]
    cases hres : f.result? <;> simp [hres]

theorem lastResult_reply {ending : Outcome Unit} {last : Frame} (hlast : last.done = true)
    (herr : ¬last.isError) : ∀ {fs : List Frame}, (∀ f ∈ fs, f.done = false ∧ ¬f.isError) →
    ∀ v : Json, r.lastResult ending v ((fs ++ [last]).map (Frame.withPeer r.peerAddr)) =
      .returned (((fs ++ [last]).filterMap Frame.result?).getLast?.getD v)
  | [], _, v => by
    simp only [List.nil_append, List.map_singleton, lastResult, Frame.isError_withPeer,
      Frame.done_withPeer, Frame.result?_withPeer, hlast, herr, if_true, if_false]
    cases h : last.result? <;> simp [h]
  | f :: fs, h, v => by
    rw [List.forall_mem_cons] at h
    simp only [List.cons_append, List.map_cons, lastResult, Frame.isError_withPeer,
      Frame.done_withPeer, Frame.result?_withPeer, h.1, if_false, Bool.false_eq_true,
      lastResult_reply hlast herr h.2]
    cases hres : f.result? with
    | none => simp [hres]
    | some w => simp [hres, List.getLast?_cons]

/-- A worker's reply, cut into chunks anyhow : its frames are handed out as they were
written, with `_peer`, and so are their results, if and only if no chunk starts with the
newline of a frame other than the last. -/
theorem fragmented_iff (r : PilotRemoteRunnable) (p : Reply) (chunks : List Bytes)
    (tail : List Read) (hchunks : ∀ c ∈ chunks, c ≠ [])
    (hwire : chunks.flatten = Frame.wire p.frames) :
    (r.aframes Json.loads (chunks.map .data ++ tail) =
          ⟨p.frames.map (Frame.withPeer r.peerAddr), .returned ()⟩ ∧
        ((∀ f ∈ p.frames, ¬f.isError) →
          r.attemptStream Json.loads (chunks.map .data ++ tail) =
              (p.frames.filterMap Frame.result?, .returned ()) ∧
            r.ainvokeOnce Json.loads (chunks.map .data ++ tail) =
              .returned ((p.frames.filterMap Frame.result?).getLast?.getD .null))) ↔
      Unbroken chunks := by
  have hstart : ∀ rest, chunks.flatten ≠ Frame.newline :: rest := by
    rw [hwire]
    exact p.wire_ne
  have hread : ∃ m ≤ p.frames.length,
      r.aframes Json.loads (chunks.map .data ++ tail) = p.trace r.peerAddr m ∧
        (m = p.frames.length ↔ Unbroken chunks) :=
    readLoop_reply tail hchunks (by simp) hwire hstart false
  obtain ⟨m, hm, htrace, hiff⟩ := hread
  rw [← hiff]
  constructor
  · rintro ⟨hframes, -⟩
    have hlen := congrArg (fun t => t.frames.length) (htrace.symm.trans hframes)
    simp only [Reply.trace, List.length_map, List.length_take] at hlen
    omega
  · intro hm
    have hall : r.aframes Json.loads (chunks.map .data ++ tail) =
        ⟨p.frames.map (Frame.withPeer r.peerAddr), .returned ()⟩ := by
      rw [hm, Reply.trace, List.take_length] at htrace
      exact htrace
    refine ⟨hall, fun herr => ?_⟩
    have hpartials : ∀ f ∈ p.partials, f.done = false ∧ ¬f.isError := fun f hf =>
      ⟨p.done_of_mem_partials hf, herr f (List.mem_append_left _ hf)⟩
    have hfinal : ¬p.final.isError := herr _ (by simp [Reply.frames])
    rw [attemptStream, ainvokeOnce, hall]
    exact ⟨streamResults_reply p.done_last hfinal hpartials,
      lastResult_reply p.done_last hfinal hpartials _⟩

/-- Two results, the second one final. -/
def twoResults : Reply where
  partials := [resultFrame false]
  final := resultFrame true
  wf_partials f hf := by
    rw [List.mem_singleton.1 hf]
    exact wf_resultFrame false
  wf_final := wf_resultFrame true
  done_partials f hf := by
    rw [List.mem_singleton.1 hf]
    rfl
  done_final := rfl

theorem fragmented_iff_whole :
    (∀ c ∈ [Frame.wire twoResults.frames], c ≠ []) ∧
      enrich.attemptStream Json.loads [.data (Frame.wire twoResults.frames)] =
        ([.int 1, .int 1], .returned ()) ∧
      enrich.ainvokeOnce Json.loads [.data (Frame.wire twoResults.frames)] =
        .returned (.int 1) := by
  have hne : ∀ c ∈ [Frame.wire twoResults.frames], c ≠ [] := by
    intro c hc
    rw [List.mem_singleton.1 hc]
    exact fun h => absurd (Frame.wire_eq_nil.1 h) (by simp [Reply.frames])
  have hunbroken : Unbroken [Frame.wire twoResults.frames] :=
    (unbroken_cons (by simpa using twoResults.wire_ne)).2 (unbroken_of_length_le_one (by simp))
  obtain ⟨-, h⟩ := (fragmented_iff enrich twoResults [Frame.wire twoResults.frames] [] hne
    (by simp)).2 hunbroken
  exact ⟨hne, h (by decide)⟩

/-- The same bytes, cut before the first newline : the second result is lost. -/
theorem late_newline_ends_reply :
    [(resultFrame false).text, Frame.newline :: (resultFrame true).sendChunk].flatten =
        Frame.wire twoResults.frames ∧
      enrich.aframes Json.loads
          ([(resultFrame false).text, Frame.newline :: (resultFrame true).sendChunk].map .data) =
        ⟨[(resultFrame false).withPeer enrich.peerAddr], .returned ()⟩ ∧
      twoResults.frames.map (Frame.withPeer enrich.peerAddr) ≠
        [(resultFrame false).withPeer enrich.peerAddr] := by
  refine ⟨?_, ?_, fun h => absurd (congrArg List.length h) (by simp [twoResults, Reply.frames])⟩
  · simp [twoResults, Reply.frames, Frame.wire, Frame.sendChunk]
  · have hsplit := Framing.split_of_not_mem (resultFrame false).newline_not_mem_text
    rw [aframes, List.map_cons, readLoop_data (resultFrame false).text_ne_nil hsplit, drainLines,
      legacy_text (wf_resultFrame false) rfl]

end PilotRemoteRunnable

end PilotLanggraph

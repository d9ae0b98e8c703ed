import PilotLanggraph.CallSteps
import PilotLanggraph.ReplyFraming

/-!
# The bytes of a reply

`_send_chunk` hands a frame to `Stream.write`, which writes it in fragments and can be suspended
before and after each of them. A timeout can strike there too : what is left of the frame is
never written, and the frame of the timeout follows. `Sender` is the server together with what
`_send_chunk` has written for each call and what it still has to; it takes the steps of the
server, and writes fragments (`run_server`).

A timeout leaves the caller a whole reply if it does not strike inside a frame, nor once the
last one is being written (`timed_reply`). Elsewhere it can leave two last frames
(`timeout_after_last`).
-/

namespace PilotLanggraph

/-! ## Fragments -/

namespace Ipc

/-- The fragments of `Stream.write`. -/
def fragments (data : Bytes) : List Bytes :=
  (List.range ((data.length + maxSendChunk - 1) / maxSendChunk)).map fun k =>
    (data.drop (k * maxSendChunk)).take maxSendChunk

theorem flatten_range_take (data : Bytes) (m : ℕ) : ∀ n : ℕ,
    ((List.range n).map fun k => (data.drop (k * m)).take m).flatten = data.take (n * m)
  | 0 => by simp
  | n + 1 => by
    rw [List.range_succ, List.map_append, List.flatten_append, flatten_range_take data m n,
      List.map_singleton, List.flatten_singleton, Nat.succ_mul, List.take_add]

theorem maxSendChunk_pos : 0 < maxSendChunk := by
  decide

/-- They are the data, cut. -/
theorem flatten_fragments (data : Bytes) : (fragments data).flatten = data := by
  rw [fragments, flatten_range_take]
  have hceil := Nat.lt_div_mul_add (a := data.length + maxSendChunk - 1) maxSendChunk_pos
  exact List.take_of_length_le (by omega)

/-- Little data goes in one piece. -/
theorem fragments_of_length_le {data : Bytes} (hne : data ≠ []) (h : data.length ≤ maxSendChunk) :
    fragments data = [data] := by
  have hpos := List.length_pos_iff.2 hne
  have hone : (data.length + maxSendChunk - 1) / maxSendChunk = 1 := by
    rw [Nat.div_eq_iff maxSendChunk_pos]
    omega
  rw [fragments, hone]
  simp [List.take_of_length_le h]

end Ipc

/-! ## The sender -/

/-- What `_send_chunk` has written for a call, and what it still has to. -/
structure Outbox where
  written : Bytes
  /-- The fragments of the frame at hand that are not written. -/
  rest : List Bytes
  /-- Whether a fragment of it is. -/
  begun : Bool

namespace Outbox

def empty : Outbox :=
  ⟨[], [], false⟩

/-- A frame is handed over. What was left of the one before is gone. -/
def hand (o : Outbox) (frame : Frame) : Outbox :=
  ⟨o.written, Ipc.fragments frame.sendChunk, false⟩

/-- `_send_chunk` is left. -/
def drop (o : Outbox) : Outbox :=
  { o with rest := [] }

/-- The next fragment is handed to the writer. -/
def write (o : Outbox) : Option Outbox :=
  match o.rest with
  | [] => none
  | fragment :: rest => some ⟨o.written ++ fragment, rest, true⟩

end Outbox

/-- The server, and the outboxes of its calls. -/
structure Sender where
  server : Server
  out : ℕ → Outbox

namespace Sender

/-- `WorkerServer.__init__`. -/
def init (middleware : List ℕ) : Sender :=
  ⟨.init middleware, fun _ => .empty⟩

inductive Action
  | server (a : Server.Action)
  /-- A fragment of a frame of the call `i` is written. -/
  | write (i : ℕ)

/-- The call whose `_send_chunk` has to return first. -/
def awaits? : Server.Action → Option ℕ
  | .yield i _ | .exhausted i | .returned i _ | .returnedGenerator i _ | .completed i _
  | .rejected i .. | .sent i | .close i => some i
  | _ => none

/-- The call whose `_send_chunk`, if it is in one, is left. -/
def interrupts? : Server.Action → Option ℕ
  | .raised i .. | .timedOut i _ | .cancelled i | .aborted i => some i
  | _ => none

/-- The frame a call hands to `_send_chunk` from one state to the next. -/
def handed? (s t : Server) (i : ℕ) : Option Frame :=
  (((t.calls i).elim [] Call.sent).drop ((s.calls i).elim [] Call.sent).length).head?

/-- The outbox of a call after a step of the server. -/
def outAfter (s : Sender) (a : Server.Action) (t : Server) (i : ℕ) : Outbox :=
  match handed? s.server t i with
  | some frame => (s.out i).hand frame
  | none => if interrupts? a = some i then (s.out i).drop else s.out i

/-- One action, if it can happen. -/
def step (rt : Runtime) (s : Sender) : Action → Option Sender
  | .server a =>
    if (awaits? a).all fun i => (s.out i).rest.isEmpty then
      (s.server.step rt a).map fun t => ⟨t, s.outAfter a t⟩
    else none
  | .write i => (s.out i).write.map fun o => { s with out := Function.update s.out i o }

/-- The action of the server. -/
def Action.server? : Action → Option Server.Action
  | .server a => some a
  | .write _ => none

section

variable {rt : Runtime} {s s' : Sender} {i : ℕ}

theorem step_server {a : Server.Action} (h : s.step rt (.server a) = some s') :
    (∀ i, awaits? a = some i → (s.out i).rest = []) ∧ s.server.step rt a = some s'.server ∧
      s'.out = s.outAfter a s'.server := by
  rw [step] at h
  split_ifs at h with hawaits
  obtain ⟨t, ht, rfl⟩ := Option.map_eq_some_iff.1 h
  refine ⟨fun i hi => ?_, ht, rfl⟩
  rw [hi] at hawaits
  simpa using hawaits

theorem step_write (h : s.step rt (.write i) = some s') :
    ∃ fragment rest, (s.out i).rest = fragment :: rest ∧ s'.server = s.server ∧
      s'.out = Function.update s.out i ⟨(s.out i).written ++ fragment, rest, true⟩ := by
  obtain ⟨o, ho, rfl⟩ := Option.map_eq_some_iff.1 h
  unfold Outbox.write at ho
  split at ho
  · cases ho
  · rename_i fragment rest hrest
    cases ho
    exact ⟨fragment, rest, hrest, rfl, rfl⟩

/-- The sender does what a server does. -/
theorem run_server {as : List Action} (h : Machine.run (step rt) s as = some s') :
    Machine.run (Server.step rt) s.server (as.filterMap Action.server?) = some s'.server := by
  induction as generalizing s with
  | nil =>
    obtain rfl := Option.some.inj h
    rfl
  | cons a as ih =>
    obtain ⟨t, hstep, hrun⟩ := Machine.run_cons h
    cases a with
    | server a =>
      have hserver : (Action.server a).server? = some a := rfl
      rw [List.filterMap_cons_some hserver, Machine.run_of_step (step_server hstep).2.1, ih hrun]
    | write i =>
      obtain ⟨-, -, -, hserver, -⟩ := step_write hstep
      rw [List.filterMap_cons_none rfl, ← hserver, ih hrun]

/-! ## Frames on the way -/

end

end Sender

/-- `done` of a frame that a worker writes. -/
def Frame.Marked (f : Frame) (done : Bool) : Prop :=
  Assoc.get? "done" f = some (.bool done)

namespace Frame

theorem marked_ofResult (value : Json) (done : Bool) : (ofResult value done).Marked done :=
  rfl

theorem marked_ofError (errorType error : String) : (ofError errorType error).Marked true :=
  rfl

end Frame

/-- A reply with one more frame is none. -/
theorem Reply.wire_concat_ne (p q : Reply) {f : Frame} (hf : (Json.obj f).WF) :
    Frame.wire (p.frames ++ [f]) ≠ Frame.wire q.frames := by
  intro h
  have hwf : ∀ g ∈ p.frames ++ [f], (Json.obj g).WF := by
    intro g hg
    rcases List.mem_append.1 hg with hg | hg
    · exact p.wf_of_mem_frames hg
    · rwa [List.mem_singleton.1 hg]
  have hframes := Frame.wire_injective hwf (fun _ hg => q.wf_of_mem_frames hg) h
  have hpartials : p.frames = q.partials := (List.append_inj' hframes rfl).1
  have hmem : p.final ∈ q.partials := by
    rw [← hpartials, Reply.frames]
    exact List.mem_append_right _ List.mem_cons_self
  cases (q.done_partials _ hmem).symm.trans p.done_final

namespace Call

/-- Frames of the call that come before the last one. -/
def Partial (c : Call) (fs : List Frame) : Prop :=
  ∀ f ∈ fs, f ∈ c.sent ∧ f.Marked false

/-- Frames of the call, up to a last one. -/
def Whole (c : Call) (fs : List Frame) : Prop :=
  ∃ gs last, fs = gs ++ [last] ∧ c.Partial gs ∧ last ∈ c.sent ∧ last.Marked true

variable {c c' : Call} {fs : List Frame} {f : Frame}

theorem partial_nil (c : Call) : c.Partial [] :=
  fun _ hf => by cases hf

theorem Partial.mono (h : c.Partial fs) (hsent : c.sent ⊆ c'.sent) : c'.Partial fs :=
  fun f hf => ⟨hsent (h f hf).1, (h f hf).2⟩

theorem Whole.mono (h : c.Whole fs) (hsent : c.sent ⊆ c'.sent) : c'.Whole fs := by
  obtain ⟨gs, last, rfl, hgs, hlast, hmarked⟩ := h
  exact ⟨gs, last, rfl, hgs.mono hsent, hsent hlast, hmarked⟩

theorem Partial.concat (h : c.Partial fs) (hf : f ∈ c.sent) (hmarked : f.Marked false) :
    c.Partial (fs ++ [f]) := by
  intro g hg
  rcases List.mem_append.1 hg with hg | hg
  · exact h g hg
  · rw [List.mem_singleton.1 hg]
    exact ⟨hf, hmarked⟩

theorem Partial.whole (h : c.Partial fs) (hf : f ∈ c.sent) (hmarked : f.Marked true) :
    c.Whole (fs ++ [f]) :=
  ⟨fs, f, rfl, h, hf, hmarked⟩

/-- Such frames are a reply. -/
theorem Whole.exists_reply (h : c.Whole fs) (hwf : ∀ f ∈ c.sent, (Json.obj f).WF) :
    ∃ p : Reply, p.frames = fs := by
  obtain ⟨gs, last, rfl, hgs, hlast, hmarked⟩ := h
  exact ⟨⟨gs, last, fun f hf => hwf f (hgs f hf).1, hwf last hlast, fun f hf => (hgs f hf).2,
    hmarked⟩, rfl⟩

end Call

namespace Outbox

/-- Written and left to write together are the frames. -/
def Carries (o : Outbox) (fs : List Frame) : Prop :=
  o.written ++ o.rest.flatten = Frame.wire fs

/-- Unless the frame at hand is begun, whole frames are written. -/
def Ready (o : Outbox) (c : Call) : Prop :=
  o.begun = false → ∃ fs, c.Partial fs ∧ o.written = Frame.wire fs

/-- The reply is through. -/
def Through (o : Outbox) (c : Call) : Branch → Prop
  | .dispatched _ => (∃ fs, c.Whole fs ∧ o.Carries fs) ∧ o.rest = []
  | _ => True

/-- The outbox of a call, in each phase of it. -/
def Serves (o : Outbox) (c : Call) : Prop :=
  match c.phase with
  | .reading _ | .ready _ => o = .empty
  | .driving .. => (∃ fs, c.Partial fs ∧ o.Carries fs) ∧ o.Ready c
  | .finishing _ => (∃ fs, c.Whole fs ∧ o.Carries fs) ∧ o.Ready c
  | .failing _ => ∃ fs, c.Whole fs ∧ o.Carries fs
  | .refusing _ => True
  | .closing b | .closed b => o.Through c b

variable {o : Outbox} {c c' : Call} {fs : List Frame} {f : Frame}

theorem carries_empty : empty.Carries [] :=
  rfl

theorem Carries.written (h : o.Carries fs) (hrest : o.rest = []) : o.written = Frame.wire fs := by
  rw [← h, hrest, List.flatten_nil, List.append_nil]

/-- A frame after whole frames. -/
theorem carries_hand (h : o.written = Frame.wire fs) (f : Frame) :
    (o.hand f).Carries (fs ++ [f]) := by
  rw [Carries, hand, Ipc.flatten_fragments, h, Frame.wire, Frame.wire, List.flatMap_append,
    List.flatMap_singleton]

theorem Carries.write {fragment : Bytes} {rest : List Bytes} (h : o.Carries fs)
    (hrest : o.rest = fragment :: rest) :
    (⟨o.written ++ fragment, rest, true⟩ : Outbox).Carries fs := by
  rw [Carries, hrest, List.flatten_cons] at h
  rw [Carries, List.append_assoc, h]

@[simp] theorem written_hand (o : Outbox) (f : Frame) : (o.hand f).written = o.written := by
  rw [hand]

theorem ready_hand (hfs : c.Partial fs) (h : o.written = Frame.wire fs) (f : Frame) :
    (o.hand f).Ready c :=
  fun _ => ⟨fs, hfs, by rw [written_hand, h]⟩

theorem ready_empty (c : Call) : empty.Ready c :=
  fun _ => ⟨[], c.partial_nil, rfl⟩

theorem Ready.mono (h : o.Ready c) (hsent : c.sent ⊆ c'.sent) : o.Ready c' := by
  intro hbegun
  obtain ⟨fs, hfs, hwritten⟩ := h hbegun
  exact ⟨fs, hfs.mono hsent, hwritten⟩

theorem Serves.mono (h : o.Serves c) (hphase : c'.phase = c.phase) (hsent : c'.sent = c.sent) :
    o.Serves c' := by
  have hsub : c.sent ⊆ c'.sent := by
    rw [hsent]
    exact List.Subset.refl _
  have hwhole : (∃ fs, c.Whole fs ∧ o.Carries fs) → ∃ fs, c'.Whole fs ∧ o.Carries fs :=
    fun ⟨fs, hfs, hcarries⟩ => ⟨fs, hfs.mono hsub, hcarries⟩
  have hthrough : ∀ b, o.Through c b → o.Through c' b := by
    intro b h
    cases b with
    | dispatched d => exact ⟨hwhole h.1, h.2⟩
    | _ => trivial
  unfold Serves at h ⊢
  rw [hphase]
  split at h
  · exact h
  · exact h
  · obtain ⟨⟨fs, hfs, hcarries⟩, hready⟩ := h
    exact ⟨⟨fs, hfs.mono hsub, hcarries⟩, hready.mono hsub⟩
  · exact ⟨hwhole h.1, h.2.mono hsub⟩
  · exact hwhole h
  · trivial
  · exact hthrough _ h
  · exact hthrough _ h

theorem Serves.of_driving {d : Dispatch} {mode : Mode} (h : o.Serves c)
    (hphase : c.phase = .driving d mode) :
    (∃ fs, c.Partial fs ∧ o.Carries fs) ∧ o.Ready c := by
  unfold Serves at h
  rwa [hphase] at h

/-- At the start of the drive nothing is written. -/
theorem serves_empty {d : Dispatch}
    (hphase : c.phase = .ready d ∨ ∃ mode, c.phase = .driving d mode) : empty.Serves c := by
  unfold Serves
  rcases hphase with hphase | ⟨mode, hphase⟩
  · rw [hphase]
  · rw [hphase]
    exact ⟨⟨[], c.partial_nil, carries_empty⟩, ready_empty c⟩

/-- A value is handed over. -/
theorem serves_yield {d : Dispatch} {mode : Mode} (hphase : c.phase = .driving d mode)
    (hfs : c.Partial fs) (hwritten : o.written = Frame.wire fs) (value : Json) :
    (o.hand (.ofResult value false)).Serves
      { c with sent := c.sent ++ [.ofResult value false] } := by
  have hfs' : Call.Partial { c with sent := c.sent ++ [.ofResult value false] } fs :=
    hfs.mono (List.subset_append_left _ _)
  have hpartial := hfs'.concat (List.mem_append_right _ List.mem_cons_self)
    (Frame.marked_ofResult value false)
  unfold Serves
  simp only [hphase]
  exact ⟨⟨_, hpartial, carries_hand hwritten _⟩, ready_hand hfs' hwritten _⟩

/-- The last frame is handed over, -/
theorem whole_hand (hfs : c.Partial fs) (hwritten : o.written = Frame.wire fs)
    (hmarked : f.Marked true) (hsub : c.sent ⊆ c'.sent) (hf : f ∈ c'.sent) :
    ∃ gs, c'.Whole gs ∧ (o.hand f).Carries gs :=
  ⟨_, (hfs.mono hsub).whole hf hmarked, carries_hand hwritten f⟩

/-- a result -/
theorem serves_finish (hfs : c.Partial fs) (hwritten : o.written = Frame.wire fs) (value : Json)
    (d : Dispatch) :
    (o.hand (.ofResult value true)).Serves
      { c with sent := c.sent ++ [.ofResult value true], phase := .finishing d } :=
  ⟨whole_hand hfs hwritten (Frame.marked_ofResult value true) (List.subset_append_left _ _)
      (List.mem_append_right _ List.mem_cons_self),
    ready_hand (hfs.mono (List.subset_append_left _ _)) hwritten _⟩

/-- or an error. -/
theorem serves_failed (hfs : c.Partial fs) (hwritten : o.written = Frame.wire fs)
    (errorType error : String) (d : Dispatch) :
    (o.hand (.ofError errorType error)).Serves
      { c with sent := c.sent ++ [.ofError errorType error], phase := .failing d } :=
  whole_hand hfs hwritten (Frame.marked_ofError errorType error) (List.subset_append_left _ _)
    (List.mem_append_right _ List.mem_cons_self)

/-- The drive starts, or the chain returns a generator. -/
theorem Serves.driving {d : Dispatch} {mode : Mode} (h : o.Serves c) (hsent : c'.sent = c.sent)
    (hphase : c'.phase = .driving d mode)
    (hold : c.phase = .ready d ∨ c.phase = .driving d .chain) : o.Serves c' := by
  rcases hold with hold | hold
  · unfold Serves at h
    rw [hold] at h
    rw [show o = .empty from h]
    exact serves_empty (.inr ⟨mode, hphase⟩)
  · obtain ⟨⟨fs, hfs, hcarries⟩, hready⟩ := h.of_driving hold
    have hsub : c.sent ⊆ c'.sent := by
      rw [hsent]
      exact List.Subset.refl _
    unfold Serves
    rw [hphase]
    exact ⟨⟨fs, hfs.mono hsub, hcarries⟩, hready.mono hsub⟩

/-- The last frame is written. -/
theorem serves_ending {phase : CallPhase} (h : o.Serves c) (hrest : o.rest = [])
    (hold : c.phase.running? = none)
    (hphase : phase = .closing c.phase.branch ∨ phase = .closed c.phase.branch) :
    o.Serves { c with phase := phase } := by
  have hthrough : o.Through c c.phase.branch := by
    unfold Serves at h
    cases hc : c.phase with
    | reading buf => trivial
    | refusing why => trivial
    | failing d =>
      rw [hc] at h
      exact ⟨h, hrest⟩
    | closing b =>
      rw [hc] at h
      exact h
    | closed b =>
      rw [hc] at h
      exact h
    | _ =>
      rw [hc] at hold
      cases hold
  have hsame : o.Through { c with phase := phase } c.phase.branch := by
    cases hb : c.phase.branch with
    | dispatched d =>
      rw [hb] at hthrough
      exact hthrough
    | _ => trivial
  rcases hphase with rfl | rfl
  · exact hsame
  · exact hsame

/-- A fragment is written. -/
theorem Serves.write {fragment : Bytes} {rest : List Bytes} (h : o.Serves c)
    (hrest : o.rest = fragment :: rest) :
    (⟨o.written ++ fragment, rest, true⟩ : Outbox).Serves c := by
  have hready : (⟨o.written ++ fragment, rest, true⟩ : Outbox).Ready c := fun h => by cases h
  have hthrough : ∀ b, o.Through c b →
      (⟨o.written ++ fragment, rest, true⟩ : Outbox).Through c b := by
    intro b h
    cases b with
    | dispatched d => cases h.2.symm.trans hrest
    | _ => trivial
  unfold Serves at h ⊢
  split at h
  · rw [h] at hrest
    cases hrest
  · rw [h] at hrest
    cases hrest
  · obtain ⟨⟨fs, hfs, hcarries⟩, -⟩ := h
    exact ⟨⟨fs, hfs, hcarries.write hrest⟩, hready⟩
  · obtain ⟨⟨fs, hfs, hcarries⟩, -⟩ := h
    exact ⟨⟨fs, hfs, hcarries.write hrest⟩, hready⟩
  · obtain ⟨fs, hfs, hcarries⟩ := h
    exact ⟨fs, hfs, hcarries.write hrest⟩
  · trivial
  · exact hthrough _ h
  · exact hthrough _ h

end Outbox

namespace Sender

/-! ## Steps -/

/-- The step does not leave `_send_chunk` of the call `i` inside a frame, nor once its last one
is being written. Its task is not cancelled. -/
def Timely (i : ℕ) (s : Sender) : Action → Prop
  | .write _ => True
  | .server a => a ≠ .cancelled i ∧ a ≠ .aborted i ∧ (a.failure? = some i →
      (s.out i).begun = false ∨
        (s.out i).rest = [] ∧ ∀ c d, s.server.calls i = some c → c.phase ≠ .finishing d)

/-- The outbox of the call `i` is as its call wants it. -/
def Served (i : ℕ) (s : Sender) : Prop :=
  match s.server.calls i with
  | none => s.out i = .empty
  | some c => (s.out i).Serves c

section

variable {rt : Runtime} {s s' : Sender} {i : ℕ} {c c' : Call}

theorem interrupts?_eq_none {a : Server.Action} (hfail : a.failure? = none)
    (hcancel : a.cancellation? = none) (habort : a ≠ .aborted i) : interrupts? a ≠ some i := by
  intro h
  cases a with
  | raised => cases hfail
  | timedOut => cases hfail
  | cancelled => cases hcancel
  | aborted j => exact habort (congrArg _ (Option.some.inj h))
  | _ => cases h

theorem outAfter_of_eq {a : Server.Action} {t : Server} (hc : s.server.calls i = some c)
    (hc' : t.calls i = some c') (hsent : c'.sent = c.sent) (ha : interrupts? a ≠ some i) :
    s.outAfter a t i = s.out i := by
  have hnone : handed? s.server t i = none := by
    simp [handed?, hc, hc', hsent]
  rw [outAfter, hnone, if_neg ha]

theorem outAfter_of_concat {a : Server.Action} {t : Server} {f : Frame}
    (hc : s.server.calls i = some c) (hc' : t.calls i = some c') (hsent : c'.sent = c.sent ++ [f]) :
    s.outAfter a t i = (s.out i).hand f := by
  have hsome : handed? s.server t i = some f := by
    simp [handed?, hc, hc', hsent]
  rw [outAfter, hsome]

/-- Other calls keep their outboxes. -/
theorem outAfter_of_ne {a : Server.Action} {t : Server} (hcalls : t.calls i = s.server.calls i)
    (ha : a.call? ≠ some i) : s.outAfter a t i = s.out i := by
  have hnone : handed? s.server t i = none := by
    simp [handed?, hcalls]
  have hinterrupts : interrupts? a ≠ some i := by
    intro h
    cases a <;> first | exact ha h | cases h
  rw [outAfter, hnone, if_neg hinterrupts]

/-- A failure in time finds whole frames written. -/
theorem written_of_timely {d : Dispatch} (h : (s.out i).Serves c)
    (hc : s.server.calls i = some c) (hrunning : c.phase.running? = some d.reg)
    (htimely : (s.out i).begun = false ∨
      (s.out i).rest = [] ∧ ∀ c d, s.server.calls i = some c → c.phase ≠ .finishing d) :
    ∃ fs, c.Partial fs ∧ (s.out i).written = Frame.wire fs := by
  unfold Outbox.Serves at h
  cases hphase : c.phase with
  | ready d =>
    rw [hphase] at h
    exact ⟨[], c.partial_nil, by rw [show s.out i = .empty from h]; rfl⟩
  | driving d mode =>
    rw [hphase] at h
    obtain ⟨⟨fs, hfs, hcarries⟩, hready⟩ := h
    rcases htimely with hbegun | ⟨hrest, -⟩
    · exact hready hbegun
    · exact ⟨fs, hfs, hcarries.written hrest⟩
  | finishing d =>
    rw [hphase] at h
    rcases htimely with hbegun | ⟨-, hnot⟩
    · exact h.2 hbegun
    · exact absurd hphase (hnot c d hc)
  | _ =>
    rw [hphase] at hrunning
    cases hrunning

/-- A step of the call. -/
theorem serves_callStep {a : Server.Action} {t : Server} {b : Books} (h : (s.out i).Serves c)
    (hc : s.server.calls i = some c) (hc' : t.calls i = some c')
    (hawaits : awaits? a = some i → (s.out i).rest = []) (htimely : Timely i s (.server a))
    (hstep : Server.CallStep rt s.server i c a c' b) : (s.outAfter a t i).Serves c' := by
  have hsame (hsent : c'.sent = c.sent) (hfail : a.failure? = none)
      (hcancel : a.cancellation? = none) : s.outAfter a t i = s.out i :=
    outAfter_of_eq hc hc' hsent (interrupts?_eq_none hfail hcancel htimely.2.1)
  have hempty {buf : Bytes} (hphase : c.phase = .reading buf) : s.out i = .empty := by
    unfold Outbox.Serves at h
    rwa [hphase] at h
  cases hstep with
  | @unserved buf _ _ _ phase hold hphase hrun =>
    rw [hsame rfl rfl rfl, hempty hold]
    cases phase with
    | reading buf => rfl
    | closing b => rcases hphase with rfl | rfl <;> trivial
    | closed b => rcases hphase with rfl | rfl <;> trivial
    | _ => rcases hphase with hphase | hphase <;> cases hphase
  | notFound => trivial
  | refused => trivial
  | raises => trivial
  | admitted hlookup _ hsent _ hphase =>
    obtain ⟨buf, hold⟩ := hlookup.reading hc
    rw [hsame hsent rfl rfl, hempty hold]
    exact Outbox.serves_empty hphase
  | working _ hfail hcancel hsent _ hphase =>
    rw [hsame hsent hfail hcancel]
    rcases hphase with hphase | ⟨d, mode, hphase, hold⟩
    · exact h.mono hphase hsent
    · exact h.driving hsent hphase hold
  | @yield d mode value hphase =>
    rw [outAfter_of_concat hc hc' rfl]
    obtain ⟨⟨fs, hfs, hcarries⟩, -⟩ := h.of_driving hphase
    exact Outbox.serves_yield hphase hfs (hcarries.written (hawaits rfl)) value
  | @finish _ d mode value ha hphase =>
    have hrest : (s.out i).rest = [] := hawaits (by rcases ha with rfl | rfl <;> rfl)
    rw [outAfter_of_concat hc hc' rfl]
    obtain ⟨⟨fs, hfs, hcarries⟩, -⟩ := h.of_driving hphase
    exact Outbox.serves_finish hfs (hcarries.written hrest) value d
  | completed hphase =>
    rw [hsame rfl rfl rfl]
    unfold Outbox.Serves at h
    rw [hphase] at h
    exact ⟨h.1, hawaits rfl⟩
  | @failed _ d error _ ha hrunning hbranch =>
    have hfail : a.failure? = some i := by rcases ha with rfl | rfl | rfl <;> rfl
    rw [outAfter_of_concat hc hc' rfl]
    obtain ⟨fs, hfs, hwritten⟩ := written_of_timely h hc hrunning (htimely.2.2 hfail)
    exact Outbox.serves_failed hfs hwritten "handler_error" error d
  | cancelled => exact absurd rfl htimely.1
  | ending ha hold hphase =>
    rcases ha with rfl | rfl | rfl
    · rw [hsame rfl rfl rfl]
      exact Outbox.serves_ending h (hawaits rfl) hold hphase
    · exact absurd rfl htimely.2.1
    · rw [hsame rfl rfl rfl]
      exact Outbox.serves_ending h (hawaits rfl) hold hphase

theorem served_of_some (hc : s.server.calls i = some c) : Served i s ↔ (s.out i).Serves c := by
  rw [Served, hc]

theorem served_of_none (hc : s.server.calls i = none) : Served i s ↔ s.out i = .empty := by
  rw [Served, hc]

theorem served_step {a : Action} (h : Served i s) (htimely : Timely i s a)
    (hstep : s.step rt a = some s') : Served i s' := by
  cases a with
  | write j =>
    obtain ⟨fragment, rest, hrest, hserver, hout⟩ := step_write hstep
    by_cases hj : i = j
    · subst hj
      cases hc : s.server.calls i with
      | none =>
        rw [(served_of_none hc).1 h] at hrest
        cases hrest
      | some c =>
        refine (served_of_some (hserver ▸ hc)).2 ?_
        rw [hout, Function.update_self]
        exact ((served_of_some hc).1 h).write hrest
    · unfold Served at h ⊢
      rwa [hserver, hout, Function.update_of_ne hj]
  | server a =>
    obtain ⟨hawaits, hserver, hout⟩ := step_server hstep
    have hsteps := Server.step_callSteps hserver
    by_cases ha : a.call? = some i
    · cases hc : s.server.calls i with
      | some c =>
        obtain ⟨c', hcalls, hcall⟩ := hsteps.callStep hc ha
        have hc' : s'.server.calls i = some c' := by rw [hcalls, Function.update_self]
        refine (served_of_some hc').2 ?_
        rw [hout]
        exact serves_callStep ((served_of_some hc).1 h) hc hc' (hawaits i) htimely hcall
      | none =>
        -- Only `accept` is there for a call that has not started.
        cases hsteps with
        | registry hnone => cases hnone.symm.trans ha
        | call hi hc₁ =>
          obtain rfl := Option.some.inj (hi.symm.trans ha)
          cases hc.symm.trans hc₁
        | @accept j peer _ hnone hcalls hbooks =>
          obtain rfl : j = i := Option.some.inj ha
          have hc' : s'.server.calls j = _ := (congrFun hcalls j).trans (Function.update_self ..)
          have hnone : handed? s.server s'.server j = none := by
            simp [handed?, hc, hc']
          refine (served_of_some hc').2 ?_
          rw [hout, outAfter, hnone]
          exact (served_of_none hc).1 h
    · have hcalls := hsteps.calls_eq ha
      unfold Served at h ⊢
      rwa [hcalls, hout, outAfter_of_ne hcalls ha]

/-- A call that was dispatched and is through : unless an exception, such as that of a timeout,
struck inside a frame, or once the last frame was being written, what is written is a reply,
frames that are not marked `done` and one that is. The frames are values that a Python program
can hold. -/
theorem timed_reply (rt : Runtime) {mws : List ℕ} {as : List Action} {s : Sender} {i : ℕ} {c : Call}
    {d : Dispatch} (hrun : Machine.run (step rt) (init mws) as = some s)
    (htimely : Machine.Along (step rt) (Timely i) (init mws) as)
    (hc : s.server.calls i = some c)
    (hthrough : c.phase = .closing (.dispatched d) ∨ c.phase = .closed (.dispatched d))
    (hwf : ∀ f ∈ c.sent, (Json.obj f).WF) :
    ∃ p : Reply, (s.out i).written = Frame.wire p.frames := by
  have hinit : Served i (init mws) := rfl
  have hserved : Served i s :=
    Machine.run_invariant (Served i) (Timely i) served_step hinit htimely hrun
  have hserves := (served_of_some hc).1 hserved
  unfold Outbox.Serves at hserves
  have hend : (s.out i).Through c (.dispatched d) := by
    rcases hthrough with hphase | hphase
    · rwa [hphase] at hserves
    · rwa [hphase] at hserves
  obtain ⟨⟨fs, hfs, hcarries⟩, hrest⟩ := hend
  obtain ⟨p, rfl⟩ := hfs.exists_reply hwf
  exact ⟨p, hcarries.written hrest⟩

end

/-! ## A timeout -/

theorem calls_setCall_self (s : Server) (i : ℕ) (c : Call) : (s.setCall i c).calls i = some c :=
  Function.update_self ..

theorem step_of_server {rt : Runtime} {s : Sender} {a : Server.Action} {t : Server}
    (hawaits : ∀ i, awaits? a = some i → (s.out i).rest = []) (h : s.server.step rt a = some t) :
    s.step rt (.server a) = some ⟨t, s.outAfter a t⟩ := by
  have hall : (awaits? a).all (fun i => (s.out i).rest.isEmpty) = true := by
    cases ha : awaits? a with
    | none => rfl
    | some i => simp [hawaits i ha]
  rw [step, if_pos hall, h, Option.map_some]

theorem step_of_rest {rt : Runtime} {s : Sender} {i : ℕ} {fragment : Bytes} {rest : List Bytes}
    (h : (s.out i).rest = fragment :: rest) :
    s.step rt (.write i) =
      some ⟨s.server, Function.update s.out i ⟨(s.out i).written ++ fragment, rest, true⟩⟩ := by
  rw [step, Outbox.write, h, Option.map_some]

/-- `enrich` has a second to answer. The node 7 calls it, and the handler runs. -/
def timedStart : List Action :=
  [.server (.register "enrich" Server.enrichHandler { timeoutSecs := some 1 }),
    .server (.accept 0 (some ⟨1, 7⟩)), .server (.read 0 Server.enrichRequest.text 0 true),
    .server (.start 0 true)]

/-- The call, while its handler runs. -/
def timedCall : Call :=
  ⟨7, .driving ⟨"enrich", 2⟩ .chain, some 0, []⟩

theorem run_timedStart : ∃ s, Machine.run (step Server.plainRuntime) (init []) timedStart = some s ∧
    s.server.calls 0 = some timedCall ∧ (s.server.regs 2).timeoutSecs = some 1 ∧
      s.out 0 = .empty := by
  let v₁ := (Server.init []).register "enrich" Server.enrichHandler { timeoutSecs := some 1 }
  let v₂ := v₁.setCall 0 ⟨7, .reading [], none, []⟩
  let v₃ := v₂.handleRequest Server.plainRuntime 0 ⟨7, .reading [], none, []⟩
    (.obj Server.enrichRequest) 0 true
  let v₄ := v₃.startDrive 0 ⟨7, .ready ⟨"enrich", 2⟩, none, []⟩ ⟨"enrich", 2⟩ true
  let a₁ : Server.Action := .register "enrich" Server.enrichHandler { timeoutSecs := some 1 }
  let s₁ : Sender := ⟨v₁, (init []).outAfter a₁ v₁⟩
  let s₂ : Sender := ⟨v₂, s₁.outAfter (.accept 0 (some ⟨1, 7⟩)) v₂⟩
  let s₃ : Sender := ⟨v₃, s₂.outAfter (.read 0 Server.enrichRequest.text 0 true) v₃⟩
  let s₄ : Sender := ⟨v₄, s₃.outAfter (.start 0 true) v₄⟩
  have hregister : (init []).step Server.plainRuntime (.server a₁) = some s₁ :=
    step_of_server (fun _ h => by cases h) rfl
  have haccept : s₁.step Server.plainRuntime (.server (.accept 0 (some ⟨1, 7⟩))) = some s₂ :=
    step_of_server (fun _ h => by cases h) rfl
  have hread : s₂.step Server.plainRuntime
      (.server (.read 0 Server.enrichRequest.text 0 true)) = some s₃ :=
    step_of_server (fun _ h => by cases h) (Server.step_read_enrichRequest rfl rfl)
  have hstart : s₃.step Server.plainRuntime (.server (.start 0 true)) = some s₄ :=
    step_of_server (fun _ h => by cases h) rfl
  refine ⟨s₄, ?_, rfl, rfl, rfl⟩
  rw [timedStart, Machine.run_of_step hregister, Machine.run_of_step haccept,
    Machine.run_of_step hread, Machine.run_of_step hstart, Machine.run]

/-- The frame of the timeout. -/
def timeoutFrame : Frame :=
  .ofError "handler_error"
    ("timeout after " ++ Server.plainRuntime.strSecs (some 1) ++ "s")

theorem fragments_returned : Ipc.fragments (Frame.ofResult .null true).sendChunk =
    [(Frame.ofResult .null true).sendChunk] := by
  refine Ipc.fragments_of_length_le (by simp [Frame.sendChunk]) ?_
  rw [Frame.length_sendChunk]
  decide +kernel

theorem fragments_timeoutFrame : Ipc.fragments timeoutFrame.sendChunk =
    [timeoutFrame.sendChunk] := by
  refine Ipc.fragments_of_length_le (by simp [Frame.sendChunk]) ?_
  rw [Frame.length_sendChunk]
  decide +kernel

/-- The timeout strikes, and its frame is sent. -/
def timeoutTail : List Action :=
  [.server (.timedOut 0 1), .write 0, .server (.sent 0)]

theorem run_timeoutTail {s : Sender} {c : Call} (hc : s.server.calls 0 = some c)
    (hphase : c.phase = .driving ⟨"enrich", 2⟩ .chain ∨ c.phase = .finishing ⟨"enrich", 2⟩)
    (htimeout : (s.server.regs 2).timeoutSecs = some 1) :
    ∃ s' c', Machine.run (step Server.plainRuntime) s timeoutTail = some s' ∧
      s'.server.calls 0 = some c' ∧ c'.phase = .closing (.dispatched ⟨"enrich", 2⟩) ∧
      c'.sent = c.sent ++ [timeoutFrame] ∧
      (s'.out 0).written = (s.out 0).written ++ timeoutFrame.sendChunk := by
  let c₁ : Call :=
    { c with sent := c.sent ++ [timeoutFrame], phase := .failing ⟨"enrich", 2⟩ }
  let v₁ := (s.server.settle 2 true 1).setCall 0 c₁
  let s₁ : Sender := ⟨v₁, s.outAfter (.timedOut 0 1) v₁⟩
  have hstep : s.server.step Server.plainRuntime (.timedOut 0 1) = some v₁ := by
    refine Server.step_of_stepCall hc rfl ?_
    rcases hphase with hphase | hphase
    · simp only [Server.stepCall, hphase, htimeout]
      rfl
    · simp only [Server.stepCall, hphase, htimeout]
      rfl
  have hc₁ : v₁.calls 0 = some c₁ := calls_setCall_self _ 0 c₁
  have hout₁ : s₁.out 0 = (s.out 0).hand timeoutFrame := outAfter_of_concat hc hc₁ rfl
  have hrest : (s₁.out 0).rest = [timeoutFrame.sendChunk] := by
    rw [hout₁, Outbox.hand, fragments_timeoutFrame]
  let s₂ : Sender := ⟨v₁, Function.update s₁.out 0
    ⟨(s₁.out 0).written ++ timeoutFrame.sendChunk, [], true⟩⟩
  have hout₂ : s₂.out 0 = ⟨(s₁.out 0).written ++ timeoutFrame.sendChunk, [], true⟩ := by
    rw [show s₂.out = Function.update s₁.out 0 _ from rfl, Function.update_self]
  let c₂ : Call := { c₁ with phase := .closing (.dispatched ⟨"enrich", 2⟩) }
  let v₂ := v₁.setCall 0 c₂
  let s₃ : Sender := ⟨v₂, s₂.outAfter (.sent 0) v₂⟩
  have htimedOut : s.step Server.plainRuntime (.server (.timedOut 0 1)) = some s₁ :=
    step_of_server (fun _ h => by cases h) hstep
  have hwrite : s₁.step Server.plainRuntime (.write 0) = some s₂ := step_of_rest hrest
  have hsent : s₂.step Server.plainRuntime (.server (.sent 0)) = some s₃ := by
    refine step_of_server (fun i hi => ?_) ?_
    · obtain rfl : 0 = i := Option.some.inj hi
      rw [hout₂]
    · exact Server.step_of_stepCall hc₁ rfl rfl
  have hc₂ : v₂.calls 0 = some c₂ := calls_setCall_self v₁ 0 c₂
  have hout₃ : s₃.out 0 = s₂.out 0 := outAfter_of_eq hc₁ hc₂ rfl (by simp [interrupts?])
  refine ⟨s₃, c₂, ?_, hc₂, rfl, rfl, ?_⟩
  · rw [timeoutTail, Machine.run_of_step htimedOut, Machine.run_of_step hwrite,
      Machine.run_of_step hsent, Machine.run]
  · rw [hout₃, hout₂, hout₁, Outbox.written_hand]

theorem wf_timeoutFrame : (Json.obj timeoutFrame).WF := by
  simp [timeoutFrame, Frame.ofError, Json.WF, Json.WFMembers, Assoc.keys]

/-- A timeout while the handler runs. -/
theorem timed_reply_timeout :
    ∃ s, Machine.run (step Server.plainRuntime) (init []) (timedStart ++ timeoutTail) = some s ∧
      ∃ p : Reply, (s.out 0).written = Frame.wire p.frames := by
  obtain ⟨s, hrun, hc, htimeout, hout⟩ := run_timedStart
  obtain ⟨s', c', hrun', hc', hphase, hsent, -⟩ := run_timeoutTail hc (.inl rfl) htimeout
  have hall : Machine.run (step Server.plainRuntime) (init []) (timedStart ++ timeoutTail) =
      some s' := by
    rw [Machine.run_append, hrun, Option.bind_some, hrun']
  have htimely : Machine.Along (step Server.plainRuntime) (Timely 0) (init [])
      (timedStart ++ timeoutTail) := by
    refine (Machine.along_append hrun).2 ⟨Machine.along_of_forall (fun a ha s => ?_) _, ?_⟩
    · simp only [timedStart, List.mem_cons, List.not_mem_nil, or_false] at ha
      rcases ha with rfl | rfl | rfl | rfl <;> exact ⟨by simp, by simp, fun h => by cases h⟩
    · obtain ⟨s₁, hstep, -⟩ := Machine.run_cons hrun'
      have hbegun : (s.out 0).begun = false := by rw [hout]; rfl
      refine ⟨⟨by simp, by simp, fun _ => .inl hbegun⟩, ?_⟩
      rw [hstep]
      refine Machine.along_of_forall (fun a ha s => ?_) _
      simp only [List.mem_cons, List.not_mem_nil, or_false] at ha
      rcases ha with rfl | rfl
      · trivial
      · exact ⟨by simp, by simp, fun h => by cases h⟩
  refine ⟨s', hall, timed_reply Server.plainRuntime hall htimely hc' (.inl hphase) ?_⟩
  intro f hf
  rw [hsent, timedCall, List.nil_append, List.mem_singleton] at hf
  rw [hf]
  exact wf_timeoutFrame

/-- The handler returns, and its frame is written. -/
def lateTimeout : List Action :=
  timedStart ++ ([.server (.returned 0 .null), .write 0] ++ timeoutTail)

/-- A timeout once the last frame is written. -/
theorem timeout_after_last :
    ∃ s c, Machine.run (step Server.plainRuntime) (init []) lateTimeout = some s ∧
      s.server.calls 0 = some c ∧ c.phase = .closing (.dispatched ⟨"enrich", 2⟩) ∧
      (∀ f ∈ c.sent, (Json.obj f).WF) ∧
      (s.out 0).written = Frame.wire [.ofResult .null true, timeoutFrame] ∧
      ¬∃ p : Reply, (s.out 0).written = Frame.wire p.frames := by
  obtain ⟨s, hrun, hc, htimeout, hout⟩ := run_timedStart
  let frame : Frame := .ofResult .null true
  let c₁ : Call := { timedCall with sent := [frame], phase := .finishing ⟨"enrich", 2⟩ }
  let v₁ := s.server.setCall 0 c₁
  let s₁ : Sender := ⟨v₁, s.outAfter (.returned 0 .null) v₁⟩
  let s₂ : Sender := ⟨v₁, Function.update s₁.out 0 ⟨frame.sendChunk, [], true⟩⟩
  have hc₁ : v₁.calls 0 = some c₁ := calls_setCall_self _ 0 c₁
  have hout₁ : s₁.out 0 = ⟨[], [frame.sendChunk], false⟩ := by
    have hhand : s₁.out 0 = (s.out 0).hand frame := outAfter_of_concat hc hc₁ rfl
    rw [hhand, hout, Outbox.hand, fragments_returned]
    rfl
  have hreturned : s.step Server.plainRuntime (.server (.returned 0 .null)) = some s₁ := by
    refine step_of_server (fun i hi => ?_) ?_
    · obtain rfl : 0 = i := Option.some.inj hi
      rw [hout]
      rfl
    · exact Server.step_of_stepCall hc rfl rfl
  have hwrite : s₁.step Server.plainRuntime (.write 0) = some s₂ := by
    rw [step_of_rest (by rw [hout₁]), hout₁]
    rfl
  have hout₂ : (s₂.out 0).written = frame.sendChunk := by
    rw [show s₂.out = Function.update s₁.out 0 _ from rfl, Function.update_self]
  obtain ⟨s', c', hrun', hc', hphase, hsent, hwritten⟩ :=
    run_timeoutTail (s := s₂) hc₁ (.inr rfl) htimeout
  have hframes : (s'.out 0).written = Frame.wire [frame, timeoutFrame] := by
    rw [hwritten, hout₂]
    simp [Frame.wire]
  have hwf : (Json.obj frame).WF := by
    simp [frame, Frame.ofResult, Json.WF, Json.WFMembers, Assoc.keys]
  refine ⟨s', c', ?_, hc', hphase, fun f hf => ?_, hframes, ?_⟩
  · rw [lateTimeout, Machine.run_append, hrun, Option.bind_some, List.cons_append,
      List.cons_append, List.nil_append, Machine.run_of_step hreturned,
      Machine.run_of_step hwrite, hrun']
  · rw [hsent] at hf
    rcases List.mem_cons.1 hf with rfl | hf
    · exact hwf
    · rw [List.mem_singleton.1 hf]
      exact wf_timeoutFrame
  · rintro ⟨q, hq⟩
    let p : Reply := ⟨[], frame, by simp, hwf, by simp, rfl⟩
    exact Reply.wire_concat_ne p q wf_timeoutFrame (hframes.symm.trans hq)

end Sender

end PilotLanggraph

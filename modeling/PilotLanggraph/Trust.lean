import PilotLanggraph.Lib.Json
import PilotLanggraph.Lib.Machine
import PilotLanggraph.Registration

/-!
# Bootstrapping trust

`ensure_trust` asks the daemon for its trust list and returns at once if the peer is mutual.
Otherwise it sends a handshake and polls until the peer is. That it is mutual is seen in one
list, and the record comes from the next one, where the first entry with the node id is taken
without another look. `ensure_trust_iff` says when this makes a difference.
-/

namespace PilotLanggraph

/-! ## Trust lists -/

/-- Python's `int`, on floats and on strings. -/
structure IntOf where
  float : Json.Float → Option ℤ
  str : String → Option ℤ

/-- `int(value)`, where it does not raise. -/
def IntOf.apply (int : IntOf) : Json → Option ℤ
  | .int n => some n
  | .bool b => some (if b then 1 else 0)
  | .float x => int.float x
  | .str s => int.str s
  | .null | .arr _ | .obj _ => none

namespace EnsureTrust

/-- `int(entry.get("node_id", -1))`. Only a dictionary has a `get`. -/
def nodeIdOf (int : IntOf) : Json → Option ℤ
  | .obj fields => int.apply ((Assoc.get? "node_id" fields).getD (.int (-1)))
  | _ => none

/-- `entry.get("mutual") is True`. -/
def saysMutual : Json → Bool
  | .obj fields => Assoc.get? "mutual" fields = some (.bool true)
  | _ => false

/-- The test of the entry for its node id, -/
def isNode (int : IntOf) (nodeId : ℤ) (entry : Json) : Option Bool :=
  (nodeIdOf int entry).map (· = nodeId)

/-- and for `mutual` as well. -/
def isMutualNode (int : IntOf) (nodeId : ℤ) (entry : Json) : Option Bool :=
  (nodeIdOf int entry).map fun n => n = nodeId && saysMutual entry

/-- A loop over a trust list : the first entry that passes the test, if there is one, and
`none` if the test raises before. -/
def scan (test : Json → Option Bool) : List Json → Option (Option Json)
  | [] => some none
  | entry :: entries =>
    match test entry with
    | none => none
    | some true => some (some entry)
    | some false => scan test entries

/-- `_is_mutual`, with the list that it gets. -/
def isMutual (int : IntOf) (nodeId : ℤ) (entries : List Json) : Option Bool :=
  (scan (isMutualNode int nodeId) entries).map Option.isSome

/-- The loop that looks for the record of a peer that was mutual. -/
def findRecord (int : IntOf) (nodeId : ℤ) (entries : List Json) : Option (Option Json) :=
  scan (isNode int nodeId) entries

/-- The loop of a poll. -/
def findMutual (int : IntOf) (nodeId : ℤ) (entries : List Json) : Option (Option Json) :=
  scan (isMutualNode int nodeId) entries

/-- A record of mutual trust with the node. -/
structure IsRecord (int : IntOf) (nodeId : ℤ) (entry : Json) : Prop where
  nodeId : nodeIdOf int entry = some nodeId
  trusted : saysMutual entry = true

section

variable {int : IntOf} {nodeId : ℤ} {test : Json → Option Bool} {entry : Json}
  {entries : List Json}

theorem isMutualNode_eq_true : isMutualNode int nodeId entry = some true ↔
    IsRecord int nodeId entry := by
  rw [isMutualNode, Option.map_eq_some_iff]
  constructor
  · rintro ⟨n, hn, htest⟩
    obtain ⟨rfl, hmutual⟩ : n = nodeId ∧ saysMutual entry = true := by simpa using htest
    exact ⟨hn, hmutual⟩
  · rintro ⟨hn, hmutual⟩
    exact ⟨nodeId, hn, by simp [hmutual]⟩

theorem nodeIdOf_of_isNode (h : isNode int nodeId entry = some true) :
    nodeIdOf int entry = some nodeId := by
  obtain ⟨n, hn, htest⟩ := Option.map_eq_some_iff.1 h
  rw [hn, of_decide_eq_true htest]

/-- What a loop finds passes the test, -/
theorem test_of_scan (h : scan test entries = some (some entry)) :
    entry ∈ entries ∧ test entry = some true := by
  induction entries with
  | nil => cases h
  | cons e entries ih =>
    rw [scan] at h
    split at h
    · cases h
    · rename_i htest
      cases h
      exact ⟨List.mem_cons_self, htest⟩
    · obtain ⟨hmem, htest⟩ := ih h
      exact ⟨List.mem_cons_of_mem _ hmem, htest⟩

/-- and where it finds nothing every entry was tested. -/
theorem test_of_scan_none (h : scan test entries = some none) :
    ∀ e ∈ entries, test e = some false := by
  induction entries with
  | nil => simp
  | cons e entries ih =>
    rw [scan] at h
    split at h
    · cases h
    · cases h
    · rename_i htest
      exact List.forall_mem_cons.2 ⟨htest, ih h⟩

theorem exists_of_isMutual (h : isMutual int nodeId entries = some true) :
    ∃ e ∈ entries, IsRecord int nodeId e := by
  obtain ⟨found, hfound, hsome⟩ := Option.map_eq_some_iff.1 h
  obtain ⟨e, rfl⟩ := Option.isSome_iff_exists.1 hsome
  obtain ⟨hmem, htest⟩ := test_of_scan hfound
  exact ⟨e, hmem, isMutualNode_eq_true.1 htest⟩

theorem not_exists_of_isMutual (h : isMutual int nodeId entries = some false) :
    ¬∃ e ∈ entries, IsRecord int nodeId e := by
  obtain ⟨found, hfound, hnone⟩ := Option.map_eq_some_iff.1 h
  obtain rfl : found = none := by simpa using hnone
  rintro ⟨e, hmem, hrecord⟩
  have htest := test_of_scan_none hfound e hmem
  rw [isMutualNode_eq_true.2 hrecord] at htest
  cases htest

end

end EnsureTrust

/-! ## The call -/

/-- The arguments of `ensure_trust`. -/
structure TrustArgs where
  nodeId : ℤ
  justification : String
  timeoutSecs : Secs

/-- Where the call is. -/
inductive EnsureTrust.Phase
  /-- `_is_mutual` waits for the first list. -/
  | checking
  /-- The peer was mutual, and the list is asked for again. -/
  | fetching
  | handshaking
  /-- The handshake was sent; the clock is read for the deadline. -/
  | starting
  /-- The condition of the loop, -/
  | polling (deadline : Secs)
  /-- its query, -/
  | waiting (deadline : Secs)
  /-- and its `sleep`. -/
  | sleeping (deadline : Secs)
  | returned (entry : Json)
  | timedOut
  | raised

/-- `ensure_trust`, once it is connected. -/
structure EnsureTrust where
  phase : EnsureTrust.Phase
  /-- The handshakes that were sent, with their justification. -/
  handshakes : List (ℤ × String)

namespace EnsureTrust

/-- What the call waits for. -/
inductive Action
  /-- The daemon's trust list, -/
  | list (entries : List Json)
  /-- its answer to the handshake, -/
  | answer
  /-- a reading of the clock, -/
  | clock (now : Secs)
  /-- or the end of a `sleep`. -/
  | wake
  /-- A request fails, or the call is cancelled. -/
  | fail

/-- The beginning. -/
def start : EnsureTrust :=
  ⟨.checking, []⟩

/-- `conn.handshake_send`. -/
def sendHandshake (args : TrustArgs) (s : EnsureTrust) : EnsureTrust :=
  ⟨.handshaking, s.handshakes ++ [(args.nodeId, args.justification)]⟩

/-- One action, if the call waits for it. -/
def step (int : IntOf) (args : TrustArgs) (s : EnsureTrust) (a : Action) : Option EnsureTrust :=
  match s.phase, a with
  | .checking, .list entries =>
    match isMutual int args.nodeId entries with
    | none => some { s with phase := .raised }
    | some true => some { s with phase := .fetching }
    | some false => some (s.sendHandshake args)
  | .fetching, .list entries =>
    match findRecord int args.nodeId entries with
    | none => some { s with phase := .raised }
    | some (some entry) => some { s with phase := .returned entry }
    -- The record is gone, and the call goes on as if the peer had not been mutual.
    | some none => some (s.sendHandshake args)
  | .handshaking, .answer => some { s with phase := .starting }
  | .starting, .clock now => some { s with phase := .polling (now + args.timeoutSecs) }
  | .polling deadline, .clock now =>
    if now < deadline then some { s with phase := .waiting deadline }
    else some { s with phase := .timedOut }
  | .waiting deadline, .list entries =>
    match findMutual int args.nodeId entries with
    | none => some { s with phase := .raised }
    | some (some entry) => some { s with phase := .returned entry }
    | some none => some { s with phase := .sleeping deadline }
  | .sleeping deadline, .wake => some { s with phase := .polling deadline }
  | .checking, .fail | .fetching, .fail | .handshaking, .fail | .waiting _, .fail
  | .sleeping _, .fail => some { s with phase := .raised }
  | _, _ => none

/-- The trust list that an action brings. -/
def Action.list? : Action → Option (List Json)
  | .list entries => some entries
  | _ => none

/-- The trust lists of a run. -/
def lists (as : List Action) : List (List Json) :=
  as.filterMap Action.list?

/-- What the call promises : a record that it returns is one of mutual trust with the node, and
it sends no handshake if the first list has such a record. -/
structure Kept (int : IntOf) (nodeId : ℤ) (s : EnsureTrust) (lists : List (List Json)) : Prop where
  returned : ∀ entry, s.phase = .returned entry → IsRecord int nodeId entry
  handshakes : (∃ entries ∈ lists.head?, ∃ entry ∈ entries, IsRecord int nodeId entry) →
    s.handshakes = []

/-- The peer is mutual in the first list, and in the second one the first record of the node
is not, or there is none. -/
def Stale (int : IntOf) (nodeId : ℤ) (lists : List (List Json)) : Prop :=
  ∃ first second rest, lists = first :: second :: rest ∧ isMutual int nodeId first = some true ∧
    (findRecord int nodeId second = some none ∨
      ∃ entry, findRecord int nodeId second = some (some entry) ∧ saysMutual entry = false)

/-! ## Runs -/

/-- Why a handshake was sent. -/
def Sent (int : IntOf) (nodeId : ℤ) (lists : List (List Json)) : Prop :=
  ∃ first rest, lists = first :: rest ∧ (isMutual int nodeId first = some false ∨
    isMutual int nodeId first = some true ∧
      ∃ second rest', rest = second :: rest' ∧ findRecord int nodeId second = some none)

/-- The call, after some trust lists. -/
inductive Reached (int : IntOf) (nodeId : ℤ) (lists : List (List Json)) : EnsureTrust → Prop
  | checking (hlists : lists = []) : Reached int nodeId lists ⟨.checking, []⟩
  | fetching {first : List Json} (hlists : lists = [first])
    (hmutual : isMutual int nodeId first = some true) : Reached int nodeId lists ⟨.fetching, []⟩
  | fetched {first second : List Json} {entry : Json} (hlists : lists = [first, second])
    (hmutual : isMutual int nodeId first = some true)
    (hrecord : findRecord int nodeId second = some (some entry)) :
    Reached int nodeId lists ⟨.returned entry, []⟩
  | failed (hlists : ∀ first second rest, lists = first :: second :: rest →
      findRecord int nodeId second = none) : Reached int nodeId lists ⟨.raised, []⟩
  | sent {phase : Phase} {handshakes : List (ℤ × String)} (hsent : Sent int nodeId lists)
    (hne : handshakes ≠ []) (hphase : phase ≠ .checking ∧ phase ≠ .fetching)
    (hreturned : ∀ entry, phase = .returned entry → IsRecord int nodeId entry) :
    Reached int nodeId lists ⟨phase, handshakes⟩

section

variable {int : IntOf} {args : TrustArgs} {nodeId : ℤ} {ls more : List (List Json)}
  {s s' : EnsureTrust} {a : Action}

theorem Sent.append (h : Sent int nodeId ls) : Sent int nodeId (ls ++ more) := by
  obtain ⟨first, rest, rfl, hfirst⟩ := h
  refine ⟨first, rest ++ more, rfl, hfirst.imp_right ?_⟩
  rintro ⟨hmutual, second, rest', rfl, hnone⟩
  exact ⟨hmutual, second, rest' ++ more, rfl, hnone⟩

theorem reached_sendHandshake (hsent : Sent int nodeId ls) :
    Reached int nodeId ls (s.sendHandshake args) :=
  .sent hsent (by simp) (by simp) (by simp)

/-- After the handshake nothing is returned but what a poll found. -/
theorem step_sent (hphase : s.phase ≠ .checking ∧ s.phase ≠ .fetching)
    (hstep : s.step int args a = some s') :
    s'.handshakes = s.handshakes ∧ (s'.phase ≠ .checking ∧ s'.phase ≠ .fetching) ∧
      ∀ entry, s'.phase = .returned entry → IsRecord int args.nodeId entry := by
  unfold step at hstep
  split at hstep
  · rename_i hchecking
    exact absurd hchecking hphase.1
  · rename_i hfetching
    exact absurd hfetching hphase.2
  · cases hstep
    simp
  · cases hstep
    simp
  · split_ifs at hstep
    · cases hstep
      simp
    · cases hstep
      simp
  · split at hstep
    · cases hstep
      simp
    · rename_i entry hfound
      cases hstep
      refine ⟨rfl, by simp, fun entry' hentry' => ?_⟩
      cases hentry'
      exact isMutualNode_eq_true.1 (test_of_scan hfound).2
    · cases hstep
      simp
  · cases hstep
    simp
  · rename_i hchecking
    exact absurd hchecking hphase.1
  · rename_i hfetching
    exact absurd hfetching hphase.2
  · cases hstep
    simp
  · cases hstep
    simp
  · cases hstep
    simp
  · cases hstep

theorem reached_step (h : Reached int args.nodeId ls s) (hstep : s.step int args a = some s') :
    Reached int args.nodeId (ls ++ a.list?.toList) s' := by
  cases h with
  | checking hlists =>
    subst hlists
    cases a with
    | list entries =>
      simp only [step] at hstep
      split at hstep
      · cases hstep
        exact .failed (by simp [Action.list?])
      · rename_i hmutual
        cases hstep
        exact .fetching rfl hmutual
      · rename_i hmutual
        cases hstep
        exact reached_sendHandshake ⟨entries, [], rfl, .inl hmutual⟩
    | fail =>
      cases hstep
      exact .failed (by simp [Action.list?])
    | answer | clock | wake => cases hstep
  | @fetching first hlists hmutual =>
    subst hlists
    cases a with
    | list entries =>
      simp only [step] at hstep
      split at hstep
      · rename_i hraises
        cases hstep
        refine .failed fun first' second rest hls => ?_
        cases hls
        exact hraises
      · rename_i entry hrecord
        cases hstep
        exact .fetched rfl hmutual hrecord
      · rename_i hnone
        cases hstep
        exact reached_sendHandshake
          ⟨first, [entries], rfl, .inr ⟨hmutual, entries, [], rfl, hnone⟩⟩
    | fail =>
      cases hstep
      exact .failed (by simp [Action.list?])
    | answer | clock | wake => cases hstep
  | fetched => cases a <;> cases hstep
  | failed => cases a <;> cases hstep
  | sent hsent hne hphase _ =>
    obtain ⟨hhandshakes, hphase', hreturned⟩ := step_sent hphase hstep
    exact .sent hsent.append (by rwa [hhandshakes]) hphase' hreturned

theorem reached_run {as : List Action} (hrun : Machine.run (step int args) start as = some s) :
    Reached int args.nodeId (lists as) s := by
  refine Machine.run_induction (fun as s => Reached int args.nodeId (lists as) s) (.checking rfl)
    ?_ hrun
  intro as s a s' _ h hstep
  have hlists : lists (as ++ [a]) = lists as ++ a.list?.toList := by
    rw [lists, List.filterMap_append, List.filterMap_cons, List.filterMap_nil]
    cases a.list? <;> rfl
  rw [hlists]
  exact reached_step h hstep

theorem Reached.kept_iff (h : Reached int nodeId ls s) :
    Kept int nodeId s ls ↔ ¬Stale int nodeId ls := by
  cases h with
  | checking hlists =>
    subst hlists
    refine iff_of_true ⟨fun _ he => (by cases he), fun _ => rfl⟩ ?_
    rintro ⟨first, second, rest, hls, -⟩
    cases hls
  | fetching hlists =>
    subst hlists
    refine iff_of_true ⟨fun _ he => (by cases he), fun _ => rfl⟩ ?_
    rintro ⟨first, second, rest, hls, -⟩
    cases hls
  | @fetched first second entry hlists hmutual hrecord =>
    subst hlists
    constructor
    · rintro hkept ⟨first', second', rest, hls, -, hstale⟩
      cases hls
      rcases hstale with hnone | ⟨entry', hentry', hfalse⟩
      · cases hrecord.symm.trans hnone
      · cases hrecord.symm.trans hentry'
        rw [(hkept.returned entry rfl).trusted] at hfalse
        cases hfalse
    · intro hfresh
      refine ⟨fun entry' hentry' => ?_, fun _ => rfl⟩
      cases hentry'
      refine ⟨nodeIdOf_of_isNode (test_of_scan hrecord).2, ?_⟩
      rw [← Bool.not_eq_false]
      exact fun hfalse => hfresh ⟨first, second, [], rfl, hmutual, .inr ⟨entry, hrecord, hfalse⟩⟩
  | failed hlists =>
    refine iff_of_true ⟨fun _ he => (by cases he), fun _ => rfl⟩ ?_
    rintro ⟨first, second, rest, hls, -, hnone | ⟨entry, hentry, -⟩⟩
    · cases (hlists first second rest hls).symm.trans hnone
    · cases (hlists first second rest hls).symm.trans hentry
  | sent hsent hne _ hreturned =>
    obtain ⟨first, rest, rfl, hfirst | ⟨hmutual, second, rest', rfl, hnone⟩⟩ := hsent
    · refine iff_of_true ⟨hreturned, fun ⟨entries, hentries, hrecord⟩ => ?_⟩ ?_
      · cases hentries
        exact absurd hrecord (not_exists_of_isMutual hfirst)
      · rintro ⟨first', second, rest, hls, hmutual, -⟩
        cases hls
        cases hfirst.symm.trans hmutual
    · refine iff_of_false (fun hkept => hne (hkept.handshakes ?_)) (not_not.2 ?_)
      · exact ⟨first, rfl, exists_of_isMutual hmutual⟩
      · exact ⟨first, second, rest', rfl, hmutual, .inl hnone⟩

end

/-- Whatever the daemon answers, whenever requests fail, and whatever the clock says : the call
returns mutual records of the node only, and leaves a peer alone that is mutual in the first
list, exactly if not the peer is mutual in the first list and in the second one its first
record is missing or not mutual. -/
theorem ensure_trust_iff (int : IntOf) (args : TrustArgs) {as : List Action} {s : EnsureTrust}
    (hrun : Machine.run (step int args) start as = some s) :
    Kept int args.nodeId s (lists as) ↔ ¬Stale int args.nodeId (lists as) :=
  (reached_run hrun).kept_iff

/-! ## The second list -/

/-- `int` on values that are no floats and no strings. -/
def plainInt : IntOf :=
  ⟨fun _ => none, fun _ => none⟩

def peer : TrustArgs :=
  ⟨7, "pilot-langgraph", 30⟩

/-- A record of the node 7. -/
def record (isMutual : Bool) : Json :=
  .obj [("node_id", .int 7), ("mutual", .bool isMutual)]

theorem ensure_trust_iff_fresh :
    Kept plainInt 7 ⟨.returned (record true), []⟩ [[record true], [record true]] := by
  have hrun : Machine.run (step plainInt peer) start [.list [record true], .list [record true]] =
      some ⟨.returned (record true), []⟩ := rfl
  refine (ensure_trust_iff plainInt peer hrun).2 ?_
  rintro ⟨first, second, rest, hlists, -, hnone | ⟨entry, hentry, hfalse⟩⟩
  · cases hlists
    cases hnone
  · cases hlists
    cases hentry
    cases hfalse

/-- The peer is mutual in the first list, and is not any more in the second one. -/
theorem not_mutual_returned :
    Machine.run (step plainInt peer) start [.list [record true], .list [record false]] =
        some ⟨.returned (record false), []⟩ ∧
      ¬Kept plainInt 7 ⟨.returned (record false), []⟩ [[record true], [record false]] := by
  refine ⟨rfl, fun hkept => ?_⟩
  cases (hkept.returned _ rfl).trusted

end EnsureTrust

end PilotLanggraph

import Mathlib.Algebra.BigOperators.Group.Finset.Basic
import PilotLanggraph.ConcurrencyCap

/-!
# The counters

In every state of every run the totals of a worker are the sums over all registrations ever
created, also those that no name is bound to any more, and a registration has counted each
call that has left its handler chain, once, unless it was cancelled there
(`counters_consistent`).
-/

namespace PilotLanggraph

/-! ## Statistics -/

namespace Stats

/-- The errors are among the calls, and the latencies those of the last calls. -/
structure Consistent (st : Stats) : Prop where
  errors_le : st.errors ≤ st.calls
  latencies : st.latenciesMs.length = min maxLatencies st.calls

theorem consistent_init : Consistent init :=
  ⟨Nat.le_refl _, rfl⟩

theorem Consistent.record {st : Stats} (h : st.Consistent) (failed : Bool) (elapsed : Secs) :
    (st.record failed elapsed).Consistent := by
  constructor
  · have := h.errors_le
    cases failed
    · exact Nat.le_succ_of_le this
    · exact Nat.succ_le_succ this
  · have := h.latencies
    simp only [Stats.record, List.length_drop, List.length_append, List.length_singleton]
    omega

end Stats

/-- The registration whose handler chain the call has left. -/
def CallPhase.left? : CallPhase → Option ℕ
  | .failing d | .closing (.dispatched d) | .closed (.dispatched d) => some d.reg
  | _ => none

namespace Server

/-- What a step of a call does to the statistics. -/
inductive StatsChange (s : Server) (i : ℕ) (c c' : Call) (a : Action) (b : Books) : Prop
  | kept (hstats : ∀ id, (b.regs id).stats = (s.regs id).stats)
    (hcalls : b.totalCalls = s.totalCalls) (herrors : b.totalErrors = s.totalErrors)
    (hcancel : a.cancellation? = none) (hleft : c'.phase.left? = c.phase.left?)
  | recorded {d : Dispatch} {failed : Bool} {elapsed : Secs}
    (hb : b = s.books.settle d.reg failed elapsed) (hcancel : a.cancellation? = none)
    (hbranch : c.phase.branch = .dispatched d) (hold : c.phase.left? = none)
    (hleft : c'.phase.left? = some d.reg)
  | cancelled {id : ℕ} (hstats : ∀ id, (b.regs id).stats = (s.regs id).stats)
    (hcalls : b.totalCalls = s.totalCalls) (herrors : b.totalErrors = s.totalErrors)
    (hcancel : a.cancellation? = some i) (hold : c.phase.left? = none)
    (hleft : c'.phase.left? = some id)

section

variable {rt : Runtime} {s s' : Server} {i id k : ℕ} {c c' : Call} {a : Action} {b : Books}
  {d : Dispatch}

theorem left?_of_running? {phase : CallPhase} (h : phase.running? = some id) :
    phase.left? = none := by
  cases phase with
  | ready d => rfl
  | driving d mode => rfl
  | finishing d => rfl
  | _ => cases h

theorem stats_update {id' : ℕ} {reg : Registration} (hreg : reg.stats = (s.regs id').stats)
    (id : ℕ) : (Function.update s.regs id' reg id).stats = (s.regs id).stats := by
  by_cases hid : id = id'
  · rw [hid, Function.update_self, hreg]
  · rw [Function.update_of_ne hid]

theorem stats_of_gate {caller : ℕ} {now : Secs} {reg : Registration} {gate : Gate}
    (h : (s.regs id).gate caller now = (reg, gate)) : reg.stats = (s.regs id).stats := by
  have hstats := Registration.stats_gate (s.regs id) caller now
  rwa [h] at hstats

theorem branch_of_left? {phase : CallPhase} (h : phase.left? = some id) :
    ∃ d, phase.branch = .dispatched d ∧ d.reg = id := by
  cases phase with
  | failing d => exact ⟨d, rfl, Option.some.inj h⟩
  | closing b =>
    cases b with
    | dispatched d => exact ⟨d, rfl, Option.some.inj h⟩
    | _ => cases h
  | closed b =>
    cases b with
    | dispatched d => exact ⟨d, rfl, Option.some.inj h⟩
    | _ => cases h
  | _ => cases h

theorem left?_of_branch {phase : CallPhase} (h : ∀ d, phase.branch ≠ .dispatched d) :
    phase.left? = none := by
  cases hleft : phase.left? with
  | none => rfl
  | some id =>
    obtain ⟨d, hd, -⟩ := branch_of_left? hleft
    exact absurd hd (h d)

/-- Outside the handler chain the branch tells what was left. -/
theorem left?_closing {phase : CallPhase} (h : phase.running? = none) :
    (CallPhase.closing phase.branch).left? = phase.left? ∧
      (CallPhase.closed phase.branch).left? = phase.left? := by
  cases phase with
  | reading buf => exact ⟨rfl, rfl⟩
  | refusing why => exact ⟨rfl, rfl⟩
  | failing d => exact ⟨rfl, rfl⟩
  | closing b => cases b <;> exact ⟨rfl, rfl⟩
  | closed b => cases b <;> exact ⟨rfl, rfl⟩
  | _ => cases h

theorem LooksUp.left? {chunk : Bytes} {caller : ℕ} (h : s.LooksUp rt i chunk caller d)
    (hc : s.calls i = some c) : c.phase.left? = none := by
  obtain ⟨buf, hphase⟩ := h.reading hc
  rw [hphase]
  rfl

theorem CallStep.statsChange (h : CallStep rt s i c a c' b) (hc : s.calls i = some c) :
    StatsChange s i c c' a b := by
  cases h with
  | unserved hold hphase =>
    refine .kept (fun _ => rfl) rfl rfl rfl ?_
    rw [hold]
    refine left?_of_branch fun d hd => ?_
    rcases hphase with hphase | hphase <;> cases hphase.symm.trans hd
  | notFound hold => exact .kept (fun _ => rfl) rfl rfl rfl (by rw [hold]; rfl)
  | refused hlookup hgate =>
    exact .kept (stats_update (stats_of_gate hgate)) rfl rfl rfl (hlookup.left? hc).symm
  | raises hlookup hgate =>
    exact .kept (stats_update (stats_of_gate hgate)) rfl rfl rfl (hlookup.left? hc).symm
  | admitted hlookup hgate _ _ hphase =>
    refine .kept (stats_update (stats_of_gate hgate)) rfl rfl rfl ?_
    rw [hlookup.left? hc]
    rcases hphase with hphase | ⟨mode, hphase⟩
    · rw [hphase]
      rfl
    · rw [hphase]
      rfl
  | working _ _ hcancel _ _ hphase =>
    refine .kept (fun _ => rfl) rfl rfl hcancel ?_
    rcases hphase with hphase | ⟨d, mode, hphase, hold | hold⟩
    · rw [hphase]
    · rw [hphase, hold]
      rfl
    · rw [hphase, hold]
      rfl
  | yield => exact .kept (fun _ => rfl) rfl rfl rfl rfl
  | finish ha hphase =>
    have hcancel : a.cancellation? = none := by
      rcases ha with rfl | rfl <;> rfl
    exact .kept (fun _ => rfl) rfl rfl hcancel (by rw [hphase]; rfl)
  | completed hphase =>
    exact .recorded rfl rfl (by rw [hphase]; rfl) (by rw [hphase]; rfl) rfl
  | failed ha hrunning hbranch =>
    have hcancel : a.cancellation? = none := by
      rcases ha with rfl | rfl | rfl <;> rfl
    exact .recorded rfl hcancel hbranch (left?_of_running? hrunning) rfl
  | cancelled hrunning =>
    exact .cancelled (stats_update rfl) rfl rfl rfl (left?_of_running? hrunning) rfl
  | ending ha hold hphase =>
    have hcancel : a.cancellation? = none := by
      rcases ha with rfl | rfl | rfl <;> rfl
    refine .kept (fun _ => rfl) rfl rfl hcancel ?_
    rcases hphase with rfl | rfl
    · exact (left?_closing hold).1
    · exact (left?_closing hold).2

/-! ## Balance -/

/-- The call `i` has left the handler chain of the registration, and not by a cancellation
of its task. -/
def Counted (as : List Action) (id i : ℕ) (c : Call) : Prop :=
  c.phase.left? = some id ∧ ∀ a ∈ as, a.cancellation? ≠ some i

instance (as : List Action) (id i : ℕ) (c : Call) : Decidable (Counted as id i c) :=
  inferInstanceAs (Decidable (_ ∧ _))

/-- The totals are sums, and what each registration has counted is a set of calls. -/
structure Balanced (as : List Action) (s : Server) : Prop where
  totalCalls : s.totalCalls = ∑ id ∈ Finset.range s.created, (s.regs id).stats.calls
  totalErrors : s.totalErrors = ∑ id ∈ Finset.range s.created, (s.regs id).stats.errors
  stats : ∀ id, (s.regs id).stats.Consistent
  counted : ∀ id, (s.regs id).stats.calls = (s.callsWith (Counted as id)).ncard
  /-- Only calls that have left their handler chain were cancelled in it. -/
  cancelled : ∀ a ∈ as, ∀ i, a.cancellation? = some i →
    ∃ c id, s.calls i = some c ∧ c.phase.left? = some id

theorem balanced_init (mws : List ℕ) : Balanced [] (init mws) := by
  have hnone : ∀ id, ((init mws).callsWith (Counted [] id)) = ∅ := fun id =>
    Set.eq_empty_of_forall_notMem fun i ⟨c, hc, _⟩ => by cases hc
  refine ⟨?_, ?_, fun id => Stats.consistent_init, fun id => ?_, by simp⟩
  · exact (Finset.sum_eq_zero fun id _ => rfl).symm
  · exact (Finset.sum_eq_zero fun id _ => rfl).symm
  · rw [hnone, Set.ncard_empty]
    rfl

theorem counted_append {as : List Action} {id j : ℕ} {c : Call} (h : a.cancellation? ≠ some j) :
    Counted (as ++ [a]) id j c ↔ Counted as id j c := by
  simp only [Counted, List.mem_append, List.mem_singleton, or_imp, forall_and, forall_eq, h, ne_eq,
    not_false_eq_true, and_true]

theorem Addressed.uncounted (h : Addressed s) (as : List Action) (hid : s.created ≤ id) :
    s.callsWith (Counted as id) = ∅ := by
  refine Set.eq_empty_of_forall_notMem fun i ⟨c, hc, hleft, _⟩ => ?_
  obtain ⟨d, hd, rfl⟩ := branch_of_left? hleft
  exact absurd (h.dispatched hc hd) (Nat.not_lt.2 hid)

/-- Statistics of registrations yet to be created are empty. -/
theorem Balanced.stats_eq_zero {as : List Action} (h : Balanced as s) (haddr : Addressed s)
    (hid : s.created ≤ id) :
    (s.regs id).stats.calls = 0 ∧ (s.regs id).stats.errors = 0 := by
  have hcalls : (s.regs id).stats.calls = 0 := by
    rw [h.counted, haddr.uncounted as hid, Set.ncard_empty]
  have herrors := (h.stats id).errors_le
  exact ⟨hcalls, by omega⟩

theorem callsWith_congr {P P' : ℕ → Call → Prop} (hcalls : s'.calls = s.calls)
    (h : ∀ j cj, P' j cj ↔ P j cj) : s'.callsWith P' = s.callsWith P := by
  ext j
  simp only [callsWith, hcalls, h]

theorem Balanced.registry {as : List Action} (h : Balanced as s) (haddr : Addressed s)
    (ha : a.cancellation? = none) (hcalls : s'.calls = s.calls)
    (hbooks : s.books.Reregistered s'.books) : Balanced (as ++ [a]) s' := by
  have hstats : ∀ id, (s'.regs id).stats = (s.regs id).stats ∨
      s.created ≤ id ∧ (s'.regs id).stats = Stats.init := by
    intro id
    rcases hbooks.regs id with ⟨allow, hold⟩ | ⟨hge, -, fn, o, hnew⟩
    · exact .inl (by rw [show s'.regs id = _ from hold]; rfl)
    · exact .inr ⟨hge, by rw [show s'.regs id = _ from hnew]; rfl⟩
  have hcounted : ∀ id, s'.callsWith (Counted (as ++ [a]) id) = s.callsWith (Counted as id) :=
    fun id => callsWith_congr hcalls fun j cj => counted_append (by rw [ha]; simp)
  have hzero : ∀ id, s.created ≤ id →
      (s'.regs id).stats.calls = 0 ∧ (s'.regs id).stats.errors = 0 := by
    intro id hid
    rcases hstats id with hst | ⟨-, hst⟩
    · rw [hst]
      exact h.stats_eq_zero haddr hid
    · rw [hst]
      exact ⟨rfl, rfl⟩
  have hsame : ∀ id ∈ Finset.range s.created, (s'.regs id).stats = (s.regs id).stats := by
    intro id hid
    rcases hstats id with hst | ⟨hge, -⟩
    · exact hst
    · exact absurd (Finset.mem_range.1 hid) (Nat.not_lt.2 hge)
  -- The registrations that are new add nothing to the sums.
  have hsum : ∀ f : Stats → ℕ, (∀ id, s.created ≤ id → f (s'.regs id).stats = 0) →
      ∑ id ∈ Finset.range s'.created, f (s'.regs id).stats =
        ∑ id ∈ Finset.range s.created, f (s.regs id).stats := by
    intro f hf
    have hcreated : s.created ≤ s'.created := hbooks.created
    rw [← Finset.sum_subset (Finset.range_mono hcreated)
      fun id _ hid => hf id (by simpa using hid)]
    exact Finset.sum_congr rfl fun id hid => by rw [hsame id hid]
  refine ⟨?_, ?_, fun id => ?_, fun id => ?_, ?_⟩
  · rw [hsum Stats.calls fun id hid => (hzero id hid).1, ← h.totalCalls]
    exact hbooks.totalCalls
  · rw [hsum Stats.errors fun id hid => (hzero id hid).2, ← h.totalErrors]
    exact hbooks.totalErrors
  · rcases hstats id with hst | ⟨-, hst⟩
    · rw [hst]
      exact h.stats id
    · rw [hst]
      exact Stats.consistent_init
  · rw [hcounted]
    rcases hstats id with hst | ⟨hge, hst⟩
    · rw [hst]
      exact h.counted id
    · rw [hst, haddr.uncounted as hge, Set.ncard_empty]
      rfl
  · intro a' ha' i hi
    rw [hcalls]
    rcases List.mem_append.1 ha' with ha' | ha'
    · exact h.cancelled a' ha' i hi
    · rw [List.mem_singleton.1 ha', ha] at hi
      cases hi

theorem Balanced.accept {as : List Action} {peer : Option Ipc.Addr} {caller : ℕ}
    (h : Balanced as s) (hnone : s.calls i = none)
    (hcalls : s'.calls = Function.update s.calls i (some ⟨caller, .reading [], none, []⟩))
    (hbooks : s'.books = s.books) : Balanced (as ++ [.accept i peer]) s' := by
  have hregs : s'.regs = s.regs := congrArg Books.regs hbooks
  have hcreated : s'.created = s.created := congrArg Books.created hbooks
  refine ⟨?_, ?_, fun id => ?_, fun id => ?_, ?_⟩
  · rw [hcreated, hregs, ← h.totalCalls]
    exact congrArg Books.totalCalls hbooks
  · rw [hcreated, hregs, ← h.totalErrors]
    exact congrArg Books.totalErrors hbooks
  · rw [hregs]
    exact h.stats id
  · rw [hregs, h.counted id]
    have hreading : ¬Counted (as ++ [.accept i peer]) id i ⟨caller, .reading [], none, []⟩ :=
      fun hcounted => by cases hcounted.1
    rw [callsWith_of_none hnone hcalls hreading fun j cj _ => counted_append
      (by simp [Action.cancellation?])]
  · intro a' ha' j hj
    rcases List.mem_append.1 ha' with ha' | ha'
    · obtain ⟨c, id, hc, hleft⟩ := h.cancelled a' ha' j hj
      refine ⟨c, id, ?_, hleft⟩
      rw [hcalls, Function.update_of_ne, hc]
      rintro rfl
      cases hnone.symm.trans hc
    · rw [List.mem_singleton.1 ha'] at hj
      cases hj

/-- The part of the balance that is about the calls alone. -/
theorem Balanced.cancelled_call {as : List Action} (h : Balanced as s) (hc : s.calls i = some c)
    (hcalls : s'.calls = Function.update s.calls i (some c'))
    (hleft : ∀ id, c.phase.left? = some id → c'.phase.left? = some id)
    (ha : ∀ j, a.cancellation? = some j → j = i ∧ ∃ id, c'.phase.left? = some id) :
    ∀ a' ∈ as ++ [a], ∀ j, a'.cancellation? = some j →
      ∃ cj id, s'.calls j = some cj ∧ cj.phase.left? = some id := by
  intro a' ha' j hj
  have hself : s'.calls i = some c' := by rw [hcalls, Function.update_self]
  rcases List.mem_append.1 ha' with ha' | ha'
  · obtain ⟨cj, id, hcj, hleft'⟩ := h.cancelled a' ha' j hj
    by_cases hij : j = i
    · subst hij
      obtain rfl := Option.some.inj (hcj.symm.trans hc)
      exact ⟨c', id, hself, hleft id hleft'⟩
    · exact ⟨cj, id, by rw [hcalls, Function.update_of_ne hij, hcj], hleft'⟩
  · rw [List.mem_singleton.1 ha'] at hj
    obtain ⟨rfl, id, hid⟩ := ha j hj
    exact ⟨c', id, hself, hid⟩

/-- A sum in which one term grows. -/
theorem sum_range_of_add (f f' : ℕ → ℕ) (m : ℕ) {n j : ℕ} (hj : j < n) (hself : f' j = f j + m)
    (hother : ∀ i, i ≠ j → f' i = f i) :
    ∑ i ∈ Finset.range n, f' i = ∑ i ∈ Finset.range n, f i + m := by
  rw [← Finset.add_sum_erase _ f (Finset.mem_range.2 hj),
    ← Finset.add_sum_erase _ f' (Finset.mem_range.2 hj), hself]
  have hrest : ∑ i ∈ (Finset.range n).erase j, f' i = ∑ i ∈ (Finset.range n).erase j, f i :=
    Finset.sum_congr rfl fun i hi => hother i (Finset.ne_of_mem_erase hi)
  rw [hrest]
  omega

/-- A step that records nothing. -/
theorem Balanced.of_stats_eq {as : List Action} (h : Balanced as s)
    (hcreated : s'.created = s.created) (hstats : ∀ id, (s'.regs id).stats = (s.regs id).stats)
    (htotalCalls : s'.totalCalls = s.totalCalls) (htotalErrors : s'.totalErrors = s.totalErrors)
    (hcounted : ∀ id, (s'.callsWith (Counted (as ++ [a]) id)).ncard =
      (s.callsWith (Counted as id)).ncard)
    (hcancelled : ∀ a' ∈ as ++ [a], ∀ j, a'.cancellation? = some j →
      ∃ cj id, s'.calls j = some cj ∧ cj.phase.left? = some id) : Balanced (as ++ [a]) s' := by
  refine ⟨?_, ?_, fun id => ?_, fun id => ?_, hcancelled⟩
  · simp only [htotalCalls, hcreated, hstats, h.totalCalls]
  · simp only [htotalErrors, hcreated, hstats, h.totalErrors]
  · rw [hstats]
    exact h.stats id
  · rw [hstats, hcounted]
    exact h.counted id

/-- The count changes by the call that moves on. -/
theorem ncard_counted (as : List Action) (hfin : ∀ P, (s.callsWith P).Finite)
    (hc : s.calls i = some c) (hcalls : s'.calls = Function.update s.calls i (some c'))
    (hother : ∀ j, j ≠ i → a.cancellation? ≠ some j) (id : ℕ) :
    (s'.callsWith (Counted (as ++ [a]) id)).ncard + (if Counted as id i c then 1 else 0) =
      (s.callsWith (Counted as id)).ncard + (if Counted (as ++ [a]) id i c' then 1 else 0) :=
  ncard_callsWith (hfin _) hc hcalls fun j _ hj => counted_append (hother j hj)

/-- A call leaves its handler chain and is recorded. -/
theorem Balanced.record {as : List Action} {failed : Bool} {elapsed : Secs} (h : Balanced as s)
    (haddr : Addressed s) (hfin : ∀ P, (s.callsWith P).Finite) (hc : s.calls i = some c)
    (hcalls : s'.calls = Function.update s.calls i (some c')) (hcreated : s'.created = s.created)
    (hb : s'.books = s.books.settle d.reg failed elapsed) (hcancel : a.cancellation? = none)
    (hbranch : c.phase.branch = .dispatched d) (hold : c.phase.left? = none)
    (hleft : c'.phase.left? = some d.reg) : Balanced (as ++ [a]) s' := by
  have hlt : d.reg < s.created := haddr.dispatched hc hbranch
  have hregs : s'.regs = (s.books.settle d.reg failed elapsed).regs := congrArg Books.regs hb
  have hself : (s'.regs d.reg).stats = (s.regs d.reg).stats.record failed elapsed := by
    simp only [hregs, Books.settle, Books.setReg, Function.update_self, books]
  have hother : ∀ id, id ≠ d.reg → (s'.regs id).stats = (s.regs id).stats := by
    intro id hid
    simp only [hregs, Books.settle, Books.setReg, Function.update_of_ne hid, books]
  have hcounted : Counted (as ++ [a]) d.reg i c' := by
    refine (counted_append (by rw [hcancel]; simp)).2 ⟨hleft, fun a' ha' hcancelled => ?_⟩
    obtain ⟨c₁, id, hc₁, hleft₁⟩ := h.cancelled a' ha' i hcancelled
    obtain rfl := Option.some.inj (hc₁.symm.trans hc)
    cases hold.symm.trans hleft₁
  refine ⟨?_, ?_, fun id => ?_, fun id => ?_,
    h.cancelled_call hc hcalls (fun id hid => ?_) fun j hj => ?_⟩
  · have hsum := sum_range_of_add (fun id => (s.regs id).stats.calls)
      (fun id => (s'.regs id).stats.calls) 1 hlt (by simp only [hself]; rfl)
      fun id hid => by rw [hother id hid]
    rw [hcreated, hsum, ← h.totalCalls]
    exact congrArg Books.totalCalls hb
  · have hsum := sum_range_of_add (fun id => (s.regs id).stats.errors)
      (fun id => (s'.regs id).stats.errors) (if failed then 1 else 0) hlt
      (by simp only [hself]; cases failed <;> rfl) fun id hid => by rw [hother id hid]
    rw [hcreated, hsum, ← h.totalErrors]
    refine (congrArg Books.totalErrors hb).trans ?_
    cases failed <;> rfl
  · by_cases hid : id = d.reg
    · rw [hid, hself]
      exact (h.stats d.reg).record failed elapsed
    · rw [hother id hid]
      exact h.stats id
  · have hcount := ncard_counted (a := a) as hfin hc hcalls (by simp [hcancel]) id
    have huncounted : ¬Counted as id i c := fun hi => by cases hold.symm.trans hi.1
    rw [if_neg huncounted, Nat.add_zero, ← h.counted] at hcount
    by_cases hid : id = d.reg
    · subst hid
      rw [if_pos hcounted] at hcount
      rw [hself, hcount]
      rfl
    · have hnot : ¬Counted (as ++ [a]) id i c' :=
        fun hi => hid (Option.some.inj (hi.1.symm.trans hleft))
      rw [if_neg hnot] at hcount
      rw [hother id hid, hcount]
      rfl
  · cases hold.symm.trans hid
  · rw [hcancel] at hj
    cases hj

theorem Balanced.call {as : List Action} (h : Balanced as s) (haddr : Addressed s)
    (hfin : ∀ P, (s.callsWith P).Finite) (hc : s.calls i = some c)
    (hcalls : s'.calls = Function.update s.calls i (some c')) (hcreated : s'.created = s.created)
    (hchange : StatsChange s i c c' a s'.books) : Balanced (as ++ [a]) s' := by
  cases hchange with
  | kept hstats htotalCalls htotalErrors hcancel hleft =>
    refine h.of_stats_eq hcreated hstats htotalCalls htotalErrors (fun id => ?_)
      (h.cancelled_call hc hcalls (fun id hid => hleft.trans hid) fun j hj => ?_)
    · have hcount := ncard_counted (a := a) as hfin hc hcalls (by simp [hcancel]) id
      have hiff : Counted (as ++ [a]) id i c' ↔ Counted as id i c := by
        rw [counted_append (by rw [hcancel]; simp), Counted, Counted, hleft]
      rw [if_congr hiff rfl rfl] at hcount
      exact Nat.add_right_cancel hcount
    · rw [hcancel] at hj
      cases hj
  | recorded hb hcancel hbranch hold hleft =>
    exact h.record haddr hfin hc hcalls hcreated hb hcancel hbranch hold hleft
  | @cancelled id₀ hstats htotalCalls htotalErrors hcancel hold hleft =>
    refine h.of_stats_eq hcreated hstats htotalCalls htotalErrors (fun id => ?_)
      (h.cancelled_call hc hcalls (fun id hid => ?_) fun j hj => ?_)
    · have hcount := ncard_counted (a := a) as hfin hc hcalls
        (fun j hj => by simpa [hcancel] using Ne.symm hj) id
      have huncounted : ¬Counted as id i c := fun hi => by cases hold.symm.trans hi.1
      have hnot : ¬Counted (as ++ [a]) id i c' := fun hi => hi.2 a (by simp) hcancel
      rw [if_neg huncounted, if_neg hnot] at hcount
      exact hcount
    · cases hold.symm.trans hid
    · exact ⟨Option.some.inj (hj.symm.trans hcancel), id₀, hleft⟩

theorem balanced_run {mws : List ℕ} {as : List Action}
    (hrun : Machine.run (step rt) (init mws) as = some s) : Balanced as s := by
  refine Machine.run_induction Balanced (balanced_init mws) ?_ hrun
  rintro as t a t' hrun h hstep
  have haddr := addressed_run hrun
  cases step_callSteps hstep with
  | registry ha hcalls hbooks =>
    refine h.registry haddr ?_ hcalls hbooks
    cases a <;> first | rfl | cases ha
  | accept hnone hcalls hbooks => exact h.accept hnone hcalls hbooks
  | call ha hc hcalls hstep =>
    exact h.call haddr (finite_callsWith hrun) hc hcalls hstep.registry_eq.2
      (hstep.statsChange hc)

/-- In every state of every run : the totals are the sums over the registrations created so
far; of each the errors are at most the calls and the latencies those of the last 256 calls;
and its calls are as many as have left its handler chain without being cancelled in it. A
call that was turned away has entered none. -/
theorem counters_consistent (rt : Runtime) {mws : List ℕ} {as : List Action} {s : Server}
    (hrun : Machine.run (step rt) (init mws) as = some s) :
    s.totalCalls = ∑ id ∈ Finset.range s.created, (s.regs id).stats.calls ∧
      s.totalErrors = ∑ id ∈ Finset.range s.created, (s.regs id).stats.errors ∧
      ∀ id, (s.regs id).stats.errors ≤ (s.regs id).stats.calls ∧
        (s.regs id).stats.latenciesMs.length = min 256 (s.regs id).stats.calls ∧
        (s.callsWith (Counted as id)).Finite ∧
        (s.regs id).stats.calls = (s.callsWith (Counted as id)).ncard := by
  have h := balanced_run hrun
  refine ⟨h.totalCalls, h.totalErrors, fun id => ?_⟩
  exact ⟨(h.stats id).errors_le, (h.stats id).latencies, finite_callsWith hrun _, h.counted id⟩

end

theorem counters_consistent_twoChunks :
    Machine.run (step plainRuntime) (init []) (streamStart ++ twoChunks) = some streamed ∧
      streamed.totalCalls = 1 ∧
      (streamed.callsWith (Counted (streamStart ++ twoChunks) 2)).ncard = 1 := by
  have hrun : Machine.run (step plainRuntime) (init []) (streamStart ++ twoChunks) =
      some streamed := by
    rw [Machine.run_append, run_streamStart, Option.bind_some, run_twoChunks]
  obtain ⟨-, -, hregs⟩ := counters_consistent plainRuntime hrun
  obtain ⟨-, -, -, hcounted⟩ := hregs 2
  exact ⟨hrun, rfl, hcounted.symm⟩

end Server

end PilotLanggraph

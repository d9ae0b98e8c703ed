import PilotLanggraph.RegistryLoops

/-!
# One loop among others

As long as no `aclose_all` runs, what other loops do cannot be seen from a loop : its part of the
registry is the registry of one loop, `ConnectionRegistry`, at each step of its own calls.
-/

namespace PilotLanggraph

/-- The phase, for the loop of the call. Those of `aclose_all` are not met. -/
def LoopCallPhase.view : LoopCallPhase → RegistryPhase
  | queued => .queued
  | closing => .closing
  | connecting => .connecting
  | dropping | listed _ | sweeping _ | awaiting _ => .dropping
  | returned conn => .returned (conn.map Prod.snd)
  | raised => .raised

namespace LoopRegistry

/-- The registry, as the calls of a loop see it. -/
def view (s : LoopRegistry) (loop : ℕ) : ConnectionRegistry where
  opened := s.opened loop
  conns k := s.conns (loop, k)
  cached := (s.byLoop.get? loop).map Prod.snd
  lock := (s.lock loop).map Prod.snd
  calls k := (s.calls (loop, k)).map fun p => (p.1, p.2.view)

/-- The action, if it is one of the loop, or of a connection of it. -/
def Action.on (loop : ℕ) : Action → Option ConnectionRegistry.Action
  | .call i c => if i.1 = loop then some (.call i.2 c) else none
  | .acquire i => if i.1 = loop then some (.acquire i.2) else none
  | .closed i => if i.1 = loop then some (.closed i.2) else none
  | .connected i => if i.1 = loop then some (.connected i.2) else none
  | .connectFails i => if i.1 = loop then some (.connectFails i.2) else none
  | .cancel i => if i.1 = loop then some (.cancel i.2) else none
  | .clear _ | .sweep _ => none
  | .dies conn c r t => if conn.1 = loop then some (.dies conn.2 c r t) else none

/-- No `aclose_all` runs. -/
def Plain (s : LoopRegistry) : Prop :=
  ∀ i c phase, s.calls i = some (c, phase) → c ≠ .acloseAll ∧
    ∀ conns, phase ≠ .listed conns ∧ phase ≠ .sweeping conns ∧ phase ≠ .awaiting conns

section

variable {env : Option String} {s s' : LoopRegistry} {a : Action}

theorem Plain.update {i : ℕ × ℕ} {c : RegistryCall} {phase : LoopCallPhase} (h : s.Plain)
    (hcalls : s'.calls = (s.setPhase i c phase).calls) (hc : c ≠ .acloseAll)
    (hphase : ∀ conns, phase ≠ .listed conns ∧ phase ≠ .sweeping conns ∧ phase ≠ .awaiting conns) :
    s'.Plain := by
  intro j d q hj
  rw [hcalls, calls_setPhase] at hj
  split_ifs at hj
  · obtain ⟨rfl, rfl⟩ := Prod.mk.inj (Option.some.inj hj)
    exact ⟨hc, hphase⟩
  · exact h j d q hj

theorem Plain.step (h : s.Plain) (ha : ∀ i, a ≠ .call i .acloseAll)
    (hs : step env s a = some s') : s'.Plain := by
  cases step_cases hs with
  | @call i c hnone => exact h.update rfl (fun hc => ha i (by rw [hc])) (by simp)
  | found hcall | idle hcall | connecting hcall | closing hcall | taken hcall | dropping hcall
  | closed hcall | dropped hcall | connected hcall | releases _ hcall | raises hcall =>
    exact h.update rfl (h _ _ _ hcall).1 (by simp)
  | listed hcall => exact absurd rfl (h _ _ _ hcall).1
  | awaited hcall => exact absurd rfl ((h _ _ _ hcall).2 _).2.2
  | cleared hcall => exact absurd rfl ((h _ _ _ hcall).2 _).1
  | finished hcall | passed hcall | swept hcall => exact absurd rfl ((h _ _ _ hcall).2 _).2.1
  | dies => exact h

/-! ## Other loops -/

theorem view_congr {loop : ℕ} (hopened : s'.opened loop = s.opened loop)
    (hconns : ∀ k, s'.conns (loop, k) = s.conns (loop, k))
    (hbyLoop : s'.byLoop.get? loop = s.byLoop.get? loop) (hlock : s'.lock loop = s.lock loop)
    (hcalls : ∀ k, s'.calls (loop, k) = s.calls (loop, k)) : s'.view loop = s.view loop := by
  simp only [view, hopened, hconns, hbyLoop, hlock, hcalls]

/-- What happens on another loop is not seen. -/
theorem view_step_of_ne {loop : ℕ} (h : s.Plain) (hsound : s.Sound) (hs : step env s a = some s')
    (ha : a.on loop = none) : s'.view loop = s.view loop := by
  have hcalls : ∀ {i : ℕ × ℕ} {c : RegistryCall} {phase : LoopCallPhase}, i.1 ≠ loop → ∀ k,
      (s.setPhase i c phase).calls (loop, k) = s.calls (loop, k) := by
    intro i c phase hi k
    rw [calls_setPhase, if_neg (by rintro rfl; exact hi rfl)]
  have hconns : ∀ {conn : ℕ × ℕ} {c : CachedConn}, conn.1 ≠ loop → ∀ k,
      (s.setConn conn c).conns (loop, k) = s.conns (loop, k) := by
    intro conn c hconn k
    change Function.update s.conns conn c (loop, k) = _
    rw [Function.update_of_ne (by rintro rfl; exact hconn rfl)]
  have hlock : ∀ {i : ℕ × ℕ} {owner : Option (ℕ × ℕ)}, i.1 ≠ loop →
      Function.update s.lock i.1 owner loop = s.lock loop :=
    fun hi => Function.update_of_ne (Ne.symm hi) ..
  cases step_cases hs with
  | @call i | @found i | @idle i | @closed i | @dropped i | @raises i =>
    have hi : i.1 ≠ loop := by simpa [Action.on] using ha
    exact view_congr rfl (fun _ => rfl) rfl rfl (hcalls hi)
  | @connecting i =>
    have hi : i.1 ≠ loop := by simpa [Action.on] using ha
    exact view_congr rfl (fun _ => rfl) rfl (hlock hi) (hcalls hi)
  | @closing i conn c hcall _ hcached =>
    have hi : i.1 ≠ loop := by simpa [Action.on] using ha
    exact view_congr rfl (hconns ((hsound.cached hcached).1 ▸ hi)) rfl (hlock hi) (hcalls hi)
  | @taken i =>
    have hi : i.1 ≠ loop := by simpa [Action.on] using ha
    exact view_congr rfl (fun _ => rfl) (Dict.get?_erase_of_ne _ (Ne.symm hi)) rfl (hcalls hi)
  | @dropping i conn c hcall hcached =>
    have hi : i.1 ≠ loop := by simpa [Action.on] using ha
    exact view_congr rfl (hconns ((hsound.cached hcached).1 ▸ hi))
      (Dict.get?_erase_of_ne _ (Ne.symm hi)) rfl (hcalls hi)
  | @connected i =>
    have hi : i.1 ≠ loop := by simpa [Action.on] using ha
    exact view_congr (Function.update_of_ne (Ne.symm hi) ..)
      (@hconns (i.1, s.opened i.1) _ hi) (Dict.get?_set_of_ne _ _ (Ne.symm hi)) (hlock hi)
      (hcalls hi)
  | @releases i b c phase hb =>
    have hi : i.1 ≠ loop := by
      rcases hb with rfl | rfl <;> simpa [Action.on] using ha
    exact view_congr rfl (fun _ => rfl) rfl (hlock hi) (hcalls hi)
  | @dies conn =>
    have hconn : conn.1 ≠ loop := by simpa [Action.on] using ha
    exact view_congr rfl (hconns hconn) rfl rfl fun _ => rfl
  | listed hcall => exact absurd rfl (h _ _ _ hcall).1
  | awaited hcall => exact absurd rfl ((h _ _ _ hcall).2 _).2.2
  | cleared hcall => exact absurd rfl ((h _ _ _ hcall).2 _).1
  | finished hcall | passed hcall | swept hcall => exact absurd rfl ((h _ _ _ hcall).2 _).2.1

/-! ## The loop itself -/

/-- An entry of the loop is changed. -/
theorem update_pair {β : Type*} (f : ℕ × ℕ → β) (i : ℕ × ℕ) (x : β) :
    (fun k => Function.update f i x (i.1, k)) = Function.update (fun k => f (i.1, k)) i.2 x := by
  funext k
  simp [Function.update_apply, Prod.ext_iff]

variable (s)

theorem view_setPhase (i : ℕ × ℕ) (c : RegistryCall) (phase : LoopCallPhase) :
    (s.setPhase i c phase).view i.1 = (s.view i.1).setPhase i.2 c phase.view := by
  simp only [view, setPhase, ConnectionRegistry.setPhase, ConnectionRegistry.mk.injEq, true_and]
  funext k
  simp only [Function.update_apply, Prod.ext_iff, true_and]
  split_ifs <;> rfl

theorem view_setConn (conn : ℕ × ℕ) (c : CachedConn) :
    (s.setConn conn c).view conn.1 = (s.view conn.1).setConn conn.2 c := by
  simp only [view, setConn, ConnectionRegistry.setConn, update_pair]

theorem view_hold (i : ℕ × ℕ) : (s.hold i).view i.1 = { s.view i.1 with lock := some i.2 } := by
  simp only [view, hold, Function.update_self, Option.map_some]

theorem view_release (loop : ℕ) :
    (s.release loop).view loop = { s.view loop with lock := none } := by
  simp only [view, release, Function.update_self, Option.map_none]

theorem view_close (conn : ℕ × ℕ) :
    (s.close conn).view conn.1 = (s.view conn.1).close conn.2 :=
  view_setConn s conn _

theorem view_erase (loop : ℕ) :
    ({ s with byLoop := s.byLoop.erase loop } : LoopRegistry).view loop =
      { s.view loop with cached := none } := by
  simp only [view, Dict.get?_erase_self, Option.map_none]

variable {s}

/-- The cached connection of the loop, as the loop sees it. -/
theorem view_cached (hsound : s.Sound) {loop : ℕ} {conn : ℕ × ℕ}
    (h : s.byLoop.get? loop = some conn) : conn.1 = loop ∧ (s.view loop).cached = some conn.2 ∧
      (s.view loop).conns conn.2 = s.conns conn := by
  obtain ⟨rfl, -⟩ := hsound.cached h
  refine ⟨rfl, ?_, rfl⟩
  rw [view, h, Option.map_some]

theorem view_lookup (hsound : s.Sound) (i : ℕ × ℕ) (c : RegistryCall) :
    (s.lookup i c).view i.1 = (s.view i.1).lookup i.2 c := by
  cases h : s.byLoop.get? i.1 with
  | none =>
    have hnone : (s.view i.1).cached = none := by
      rw [view, h, Option.map_none]
    simp only [lookup, ConnectionRegistry.lookup, h, hnone]
    rw [view_hold, view_setPhase]
    rfl
  | some conn =>
    obtain ⟨hconn, hcached, hconns⟩ := view_cached hsound h
    have halive : (s.view i.1).Alive conn.2 ↔ s.Alive conn := by
      rw [ConnectionRegistry.Alive, hconns, Alive]
    simp only [lookup, ConnectionRegistry.lookup, h, hcached, hconns]
    by_cases hlive : s.Alive conn
    · rw [if_pos hlive, if_pos (halive.2 hlive), view_setPhase]
      rfl
    rw [if_neg hlive, if_neg (mt halive.1 hlive)]
    by_cases hclosed : (s.conns conn).closed = true
    · rw [if_pos hclosed, if_pos hclosed, view_hold, view_setPhase]
      rfl
    · rw [if_neg hclosed, if_neg hclosed, view_hold, view_setPhase, ← hconn, view_close]
      rfl

theorem view_drop (hsound : s.Sound) (i : ℕ × ℕ) (c : RegistryCall) :
    (s.drop i c).view i.1 = (s.view i.1).drop i.2 c := by
  cases h : s.byLoop.get? i.1 with
  | none =>
    have hnone : (s.view i.1).cached = none := by
      rw [view, h, Option.map_none]
    simp only [drop, ConnectionRegistry.drop, h, hnone]
    rw [view_setPhase]
    rfl
  | some conn =>
    obtain ⟨hconn, hcached, hconns⟩ := view_cached hsound h
    have halive : (s.view i.1).Alive conn.2 ↔ s.Alive conn := by
      rw [ConnectionRegistry.Alive, hconns, Alive]
    simp only [drop, ConnectionRegistry.drop, h, hcached, hconns, ConnectionRegistry.takeOut]
    by_cases hlive : s.Alive conn
    · rw [if_pos hlive, if_pos (halive.2 hlive), view_setPhase]
      rfl
    rw [if_neg hlive, if_neg (mt halive.1 hlive)]
    by_cases hclosed : (s.conns conn).closed = true
    · rw [if_pos hclosed, if_pos hclosed]
      refine (view_erase (s.setPhase i c (.returned none)) i.1).trans ?_
      rw [view_setPhase]
      rfl
    · rw [if_neg hclosed, if_neg hclosed]
      refine (view_erase ((s.close conn).setPhase i c .dropping) i.1).trans ?_
      rw [view_setPhase, ← hconn, view_close]
      rfl

theorem view_connect (i : ℕ × ℕ) (c : RegistryCall) (path : String) :
    (s.connect i c path).view i.1 = (s.view i.1).connect i.2 c path := by
  have hphase := view_setPhase s i c (.returned (i.1, s.opened i.1))
  simp only [view, setPhase, ConnectionRegistry.setPhase, ConnectionRegistry.mk.injEq,
    true_and] at hphase
  simp only [view, connect, setPhase, ConnectionRegistry.connect, ConnectionRegistry.setPhase,
    Function.update_self, Dict.get?_set_self, Option.map_some, Option.map_none,
    ConnectionRegistry.mk.injEq, true_and]
  exact ⟨update_pair s.conns (i.1, s.opened i.1) _, hphase⟩

/-- `aclose_all` apart, what a call does with the lock is what it does in its registry. -/
theorem view_proceed (hsound : s.Sound) {i : ℕ × ℕ} {c : RegistryCall} (hc : c ≠ .acloseAll) :
    (s.proceed i c).view i.1 = (s.view i.1).proceed i.2 c := by
  cases c with
  | get socketPath => exact view_lookup hsound i _
  | dropCurrent => exact view_drop hsound i _
  | acloseAll => exact absurd rfl hc

theorem view_raised (i : ℕ × ℕ) (c : RegistryCall) :
    ((s.setPhase i c .raised).release i.1).view i.1 =
      { (s.view i.1).setPhase i.2 c .raised with lock := none } := by
  rw [view_release, view_setPhase]
  rfl

theorem view_calls {i : ℕ × ℕ} {c : RegistryCall} {phase : LoopCallPhase}
    (h : s.calls i = some (c, phase)) : (s.view i.1).calls i.2 = some (c, phase.view) := by
  simp only [view, h, Option.map_some]

/-- What happens on the loop is what happens in its registry. -/
theorem view_step_of_on {loop : ℕ} {b : ConnectionRegistry.Action} (h : s.Plain)
    (hsound : s.Sound) (hs : step env s a = some s') (ha : a.on loop = some b) :
    ConnectionRegistry.step env (s.view loop) b = some (s'.view loop) := by
  cases a with
  | clear | sweep => cases ha
  | call i c =>
    obtain ⟨rfl, ⟨⟩⟩ := Option.ite_none_right_eq_some.1 ha
    simp only [step] at hs
    split at hs
    · rename_i hcall
      obtain rfl := Option.some.inj hs
      have hnone : (s.view i.1).calls i.2 = none := by
        simp only [view, hcall, Option.map_none]
      simp only [ConnectionRegistry.step, hnone, view_setPhase, LoopCallPhase.view]
    · cases hs
  | acquire i =>
    obtain ⟨rfl, ⟨⟩⟩ := Option.ite_none_right_eq_some.1 ha
    simp only [step] at hs
    split at hs
    · rename_i c hcall hlock
      obtain rfl := Option.some.inj hs
      have hfree : (s.view i.1).lock = none := by
        simp only [view, hlock, Option.map_none]
      simp only [ConnectionRegistry.step, view_calls hcall, hfree, LoopCallPhase.view]
      rw [view_proceed hsound (h _ _ _ hcall).1]
    · cases hs
  | closed i =>
    obtain ⟨rfl, ⟨⟩⟩ := Option.ite_none_right_eq_some.1 ha
    simp only [step] at hs
    split at hs
    · rename_i c hcall
      obtain rfl := Option.some.inj hs
      simp only [ConnectionRegistry.step, view_calls hcall, view_setPhase, LoopCallPhase.view]
    · rename_i c hcall
      obtain rfl := Option.some.inj hs
      simp only [ConnectionRegistry.step, view_calls hcall, view_setPhase, LoopCallPhase.view,
        Option.map_none]
    · rename_i conns hcall
      exact absurd rfl ((h _ _ _ hcall).2 conns).2.2
    · cases hs
  | connected i =>
    obtain ⟨rfl, ⟨⟩⟩ := Option.ite_none_right_eq_some.1 ha
    simp only [step] at hs
    split at hs
    · rename_i socketPath hcall
      obtain rfl := Option.some.inj hs
      simp only [ConnectionRegistry.step, view_calls hcall, view_connect, LoopCallPhase.view]
    · cases hs
  | connectFails i =>
    obtain ⟨rfl, ⟨⟩⟩ := Option.ite_none_right_eq_some.1 ha
    simp only [step] at hs
    split at hs
    · rename_i c hcall
      obtain rfl := Option.some.inj hs
      simp only [ConnectionRegistry.step, view_calls hcall, view_raised, LoopCallPhase.view]
    · cases hs
  | cancel i =>
    obtain ⟨rfl, ⟨⟩⟩ := Option.ite_none_right_eq_some.1 ha
    simp only [step] at hs
    split at hs
    · rename_i c hcall
      obtain rfl := Option.some.inj hs
      simp only [ConnectionRegistry.step, view_calls hcall, view_setPhase, LoopCallPhase.view]
    · rename_i c hcall
      obtain rfl := Option.some.inj hs
      simp only [ConnectionRegistry.step, view_calls hcall, view_setPhase, LoopCallPhase.view]
    · rename_i conns hcall
      exact absurd rfl ((h _ _ _ hcall).2 conns).2.2
    · rename_i c hcall
      obtain rfl := Option.some.inj hs
      simp only [ConnectionRegistry.step, view_calls hcall, view_raised, LoopCallPhase.view]
    · rename_i c hcall
      obtain rfl := Option.some.inj hs
      simp only [ConnectionRegistry.step, view_calls hcall, view_raised, LoopCallPhase.view]
    · cases hs
  | dies conn c r t =>
    obtain ⟨rfl, ⟨⟩⟩ := Option.ite_none_right_eq_some.1 ha
    obtain ⟨hconn, ⟨⟩⟩ := Option.ite_none_right_eq_some.1 hs
    exact (if_pos hconn).trans (congrArg some (view_setConn s conn _).symm)

/-- In a run without `aclose_all`, what a loop has of the registry is the registry of one loop,
after the steps of its own calls and connections and of nothing else. -/
theorem loops_apart {as : List Action} (hplain : ∀ i, .call i .acloseAll ∉ as)
    (hrun : Machine.run (step env) init as = some s) (loop : ℕ) :
    Machine.run (ConnectionRegistry.step env) ConnectionRegistry.init
      (as.filterMap (Action.on loop)) = some (s.view loop) := by
  have hinit : ConnectionRegistry.init = init.view loop := rfl
  have hok : Machine.Along (step env) (fun _ a => ∀ i, a ≠ .call i .acloseAll) init as := by
    refine Machine.along_of_forall (fun a ha _ i hi => ?_) init
    rw [hi] at ha
    exact hplain i ha
  refine (Machine.run_induction_along (fun as t => t.Plain ∧ Machine.run
    (ConnectionRegistry.step env) ConnectionRegistry.init (as.filterMap (Action.on loop)) =
      some (t.view loop)) (fun _ a => ∀ i, a ≠ .call i .acloseAll) ⟨?_, rfl⟩ ?_ hok hrun).2
  · intro i c phase hcall
    cases hcall
  · rintro as t a t' ht ⟨hplain, hview⟩ ha hs
    refine ⟨hplain.step ha hs, ?_⟩
    rw [List.filterMap_append]
    cases hon : a.on loop with
    | none =>
      have hnil : [a].filterMap (Action.on loop) = [] := by
        simp [hon]
      rw [hnil, List.append_nil, hview, view_step_of_ne hplain (sound_run ht) hs hon]
    | some b =>
      have hone : [a].filterMap (Action.on loop) = [b] := by
        simp [hon]
      rw [hone]
      exact Machine.run_concat hview (view_step_of_on hplain (sound_run ht) hs hon)

/-- Two loops open their connections, one of them while the other has the lock. -/
theorem loops_apart_two : ∃ s, Machine.run (step none) init
      [.call (0, 0) (.get none), .acquire (0, 0), .call (1, 0) (.get none), .acquire (1, 0),
        .connected (1, 0), .connected (0, 0)] = some s ∧
    Machine.run (ConnectionRegistry.step none) ConnectionRegistry.init
      [.call 0 (.get none), .acquire 0, .connected 0] = some (s.view 1) := by
  exact ⟨_, rfl, loops_apart (by simp) (rfl : Machine.run (step none) init
    [.call (0, 0) (.get none), .acquire (0, 0), .call (1, 0) (.get none), .acquire (1, 0),
      .connected (1, 0), .connected (0, 0)] = some _) 1⟩

end

end LoopRegistry

end PilotLanggraph

import PilotLanggraph.Endpoints

/-!
# What a listener accepts

Connections that come before the accept queue of their port is registered are dropped. So a
listener accepts all connections to its port, in order, exactly if none comes between the
daemon's reply and the resumption of `listen` (`listen_accepts_iff`).
-/

namespace PilotLanggraph

open Ipc

namespace Endpoints


/-- Queues not created yet are nobody's. -/
structure Unopened (s : Endpoints) : Prop where
  created : ∀ {port q}, s.conn.listenerAcceptQueues.get? port = some q → q < s.queues
  untaken : ∀ {q}, s.queues ≤ q → s.taken q = []
  unoffered : ∀ {q}, s.queues ≤ q → s.conn.accepted q = []

/-- The listener on a port, with the connections offered to it. -/
structure Listening (port q : ℕ) (conns : List AcceptedConn) (s : Endpoints) : Prop where
  created : q < s.queues
  registered : s.conn.listenerAcceptQueues.get? port = some q
  only : ∀ {p}, s.conn.listenerAcceptQueues.get? p = some q → p = port
  offered : s.offered q = conns

/-- The port that a step starts to listen on. -/
def binds? (s : Endpoints) : Action → Option ℕ
  | .listen fut =>
    match s.conn.futures fut with
    | .result body => parseBindOk body
    | _ => none
  | _ => none

section

variable {s s' : Endpoints}

theorem unopened_init : Unopened init where
  created h := by cases h
  untaken _ := rfl
  unoffered _ := rfl

theorem Unopened.congr (h : Unopened s) (hconn : Connection.SameListeners s'.conn s.conn)
    (hqueues : s.queues ≤ s'.queues) (htaken : s'.taken = s.taken) : Unopened s' := by
  constructor
  · intro port q hq
    rw [hconn.queues] at hq
    exact Nat.lt_of_lt_of_le (h.created hq) hqueues
  · intro q hq
    rw [htaken]
    exact h.untaken (Nat.le_trans hqueues hq)
  · intro q hq
    rw [hconn.accepted]
    exact h.unoffered (Nat.le_trans hqueues hq)

theorem Unopened.announce (h : Unopened s) (conn : Option AcceptedConn) :
    Unopened { s with conn := s.conn.announce conn } := by
  unfold Connection.announce
  cases conn with
  | none => exact h
  | some conn =>
    dsimp only
    split
    · rename_i aq haq
      refine ⟨h.created, h.untaken, ?_⟩
      intro q hq
      have hne : q ≠ aq := Nat.ne_of_gt (Nat.lt_of_lt_of_le (h.created haq) hq)
      exact (Function.update_of_ne hne ..).trans (h.unoffered hq)
    · exact h

theorem Unopened.lt_queues {q : ℕ} {conn : AcceptedConn} {rest : List AcceptedConn}
    (h : Unopened s) (hq : s.conn.accepted q = conn :: rest) : q < s.queues := by
  by_contra hlt
  cases hq.symm.trans (h.unoffered (Nat.le_of_not_lt hlt))

theorem Unopened.take {q : ℕ} {conn : AcceptedConn} {rest : List AcceptedConn} (h : Unopened s)
    (hq : s.conn.accepted q = conn :: rest) : Unopened (s.take q conn rest) := by
  have hne {q' : ℕ} (hq' : s.queues ≤ q') : q' ≠ q :=
    Nat.ne_of_gt (Nat.lt_of_lt_of_le (h.lt_queues hq) hq')
  constructor
  · exact h.created
  · exact fun hq' => (Function.update_of_ne (hne hq') ..).trans (h.untaken hq')
  · exact fun hq' => (Function.update_of_ne (hne hq') ..).trans (h.unoffered hq')

theorem Unopened.openListener (h : Unopened s) (fut port : ℕ) :
    Unopened (s.openListener fut port) := by
  constructor
  · intro p q hq
    change (s.conn.listenerAcceptQueues.set port s.queues).get? p = some q at hq
    by_cases hp : p = port
    · subst hp
      rw [Dict.get?_set_self] at hq
      obtain rfl := Option.some.inj hq
      exact Nat.lt_succ_self _
    · rw [Dict.get?_set_of_ne _ _ hp] at hq
      exact Nat.lt_succ_of_lt (h.created hq)
  · exact fun hq => h.untaken (Nat.le_of_succ_le hq)
  · intro q hq
    have hne : q ≠ s.queues := Nat.ne_of_gt hq
    exact (Function.update_of_ne hne ..).trans (h.unoffered (Nat.le_of_succ_le hq))

theorem unopened_step {a : Action} (h : Unopened s) (hstep : s.step a = some s') : Unopened s' := by
  cases step_cases hstep with
  | waiters _ _ hlisteners => exact h.congr hlisteners (Nat.le_refl _) rfl
  | message => exact (h.announce _).congr (s.conn.dispatch_sameListeners _ _) (Nat.le_refl _) rfl
  | dial => exact h.congr ⟨rfl, rfl⟩ (Nat.le_succ _) rfl
  | listen => exact h.openListener _ _
  | accept hq => exact (h.take hq).congr ⟨rfl, rfl⟩ (Nat.le_succ _) rfl
  | read => exact h.congr ⟨rfl, rfl⟩ (Nat.le_refl _) rfl

variable {port q : ℕ} {conns : List AcceptedConn}

theorem Unopened.listening (h : Unopened s) (fut port : ℕ) :
    Listening port s.queues [] (s.openListener fut port) := by
  constructor
  · exact Nat.lt_succ_self _
  · exact Dict.get?_set_self ..
  · intro p hp
    change (s.conn.listenerAcceptQueues.set port s.queues).get? p = some s.queues at hp
    by_contra hne
    rw [Dict.get?_set_of_ne _ _ hne] at hp
    exact Nat.lt_irrefl _ (h.created hp)
  · change s.taken s.queues ++ Function.update s.conn.accepted s.queues [] s.queues = []
    rw [h.untaken (Nat.le_refl _), Function.update_self, List.append_nil]

theorem Listening.congr (h : Listening port q conns s)
    (hconn : Connection.SameListeners s'.conn s.conn) (hqueues : s.queues ≤ s'.queues)
    (htaken : s'.taken = s.taken) : Listening port q conns s' := by
  constructor
  · exact Nat.lt_of_lt_of_le h.created hqueues
  · rw [hconn.queues]
    exact h.registered
  · rw [hconn.queues]
    exact h.only
  · rw [Endpoints.offered, htaken, hconn.accepted]
    exact h.offered

/-- A connection announced on the port is offered to its listener. -/
theorem Listening.announce (h : Listening port q conns s) (conn : Option AcceptedConn) :
    Listening port q (conns ++ (conn.filter fun conn => conn.localPort = port).toList)
      { s with conn := s.conn.announce conn } := by
  unfold Connection.announce
  cases conn with
  | none => simpa using h
  | some conn =>
    by_cases hport : conn.localPort = port
    · simp only [hport, h.registered, Option.filter_some, decide_true, if_true,
        Option.toList_some]
      refine ⟨h.created, h.registered, h.only, ?_⟩
      change s.taken q ++ Function.update s.conn.accepted q _ q = _
      rw [Function.update_self, ← List.append_assoc]
      exact congrArg (· ++ [conn]) h.offered
    · simp only [Option.filter_some, hport, decide_false, Bool.false_eq_true, if_false,
        Option.toList_none, List.append_nil]
      split
      · rename_i aq haq
        refine ⟨h.created, h.registered, h.only, ?_⟩
        have hne : q ≠ aq := by
          rintro rfl
          exact hport (h.only haq)
        change s.taken q ++ Function.update s.conn.accepted aq _ q = _
        rw [Function.update_of_ne hne]
        exact h.offered
      · exact h

/-- An `accept` moves a connection, it is offered all the same. -/
theorem offered_take {conn : AcceptedConn} {rest : List AcceptedConn}
    (hq : s.conn.accepted q = conn :: rest) : (s.take q conn rest).offered = s.offered := by
  funext q'
  unfold offered take
  by_cases hq' : q' = q
  · subst hq'
    simp only [Function.update_self]
    rw [hq, List.append_assoc, List.singleton_append]
  · simp only [Function.update_of_ne hq']

theorem Listening.take {q' : ℕ} {conn : AcceptedConn} {rest : List AcceptedConn}
    (h : Listening port q conns s) (hq : s.conn.accepted q' = conn :: rest) :
    Listening port q conns (s.take q' conn rest) := by
  refine ⟨h.created, h.registered, h.only, ?_⟩
  rw [offered_take hq]
  exact h.offered

theorem Listening.openListener {p : ℕ} (h : Listening port q conns s) (fut : ℕ) (hp : p ≠ port) :
    Listening port q conns (s.openListener fut p) := by
  have hne : q ≠ s.queues := Nat.ne_of_lt h.created
  constructor
  · exact Nat.lt_succ_of_lt h.created
  · exact (Dict.get?_set_of_ne _ _ hp.symm).trans h.registered
  · intro p' hp'
    change (s.conn.listenerAcceptQueues.set p s.queues).get? p' = some q at hp'
    by_cases hc : p' = p
    · subst hc
      rw [Dict.get?_set_self] at hp'
      exact absurd (Option.some.inj hp').symm hne
    · rw [Dict.get?_set_of_ne _ _ hc] at hp'
      exact h.only hp'
  · change s.taken q ++ Function.update s.conn.accepted s.queues [] q = conns
    rw [Function.update_of_ne hne]
    exact h.offered

theorem listening_step {a : Action} (h : Listening port q conns s) (hbind : s.binds? a ≠ some port)
    (hstep : s.step a = some s') : Listening port q (conns ++ (a.conn? port).toList) s' := by
  have hnone {a : Action} (ha : a.conn? port = none) : conns ++ (a.conn? port).toList = conns := by
    rw [ha, Option.toList_none, List.append_nil]
  cases step_cases hstep with
  | waiters ha _ hlisteners =>
    rw [hnone (conn?_of_not_message ha port)]
    exact h.congr hlisteners (Nat.le_refl _) rfl
  | message => exact (h.announce _).congr (s.conn.dispatch_sameListeners _ _) (Nat.le_refl _) rfl
  | dial =>
    rw [hnone rfl]
    exact h.congr ⟨rfl, rfl⟩ (Nat.le_succ _) rfl
  | listen hfut hbody =>
    rw [hnone rfl]
    refine h.openListener _ fun hp => hbind ?_
    simp only [binds?, hfut, hbody, hp]
  | accept hq =>
    rw [hnone rfl]
    exact (h.take hq).congr ⟨rfl, rfl⟩ (Nat.le_succ _) rfl
  | read =>
    rw [hnone rfl]
    exact h.congr ⟨rfl, rfl⟩ (Nat.le_refl _) rfl

end

/-- A future that is done stays as it is. -/
theorem futures_step {s s' : Endpoints} {a : Action} {fut : ℕ}
    (hdone : (s.conn.futures fut).done = true) (hstep : s.step a = some s') :
    s'.conn.futures fut = s.conn.futures fut := by
  cases step_cases hstep with
  | waiters _ _ _ hf => exact hf fut hdone
  | message => exact s.conn.futures_dispatch_done _ _ hdone
  | dial => rfl
  | listen => rfl
  | accept => rfl
  | read => rfl

/-- A `listen` call has at most one listener. -/
theorem listeners_step {s s' : Endpoints} {a : Action} {fut q : ℕ}
    (hq : s.listeners fut = some q) (hstep : s.step a = some s') : s'.listeners fut = some q := by
  cases step_cases hstep with
  | waiters => exact hq
  | message => exact hq
  | dial => exact hq
  | listen _ _ hnone =>
    refine (Function.update_of_ne ?_ ..).trans hq
    rintro rfl
    cases hnone.symm.trans hq
  | accept => exact hq
  | read => exact hq

theorem announced_append (port : ℕ) (as bs : List Action) :
    announced port (as ++ bs) = announced port as ++ announced port bs :=
  List.filterMap_append

theorem announced_singleton (port : ℕ) (a : Action) :
    announced port [a] = (a.conn? port).toList := by
  rw [announced, List.filterMap_cons, List.filterMap_nil]
  cases a.conn? port <;> rfl

/-- The listener of a port is offered what is announced on it, as long as nobody else
listens there. -/
theorem listening_run {port q : ℕ} {as : List Action} {s s' : Endpoints}
    (h : Listening port q [] s)
    (hbind : Machine.Along step (fun s a => s.binds? a ≠ some port) s as)
    (hrun : Machine.run step s as = some s') : Listening port q (announced port as) s' := by
  refine Machine.run_induction_along (fun as s => Listening port q (announced port as) s) _ h
    (fun _ h hbind hstep => ?_) hbind hrun
  rw [announced_append, announced_singleton]
  exact listening_step h hbind hstep

/-- After the reply a `listen` call has what it needs to resume. -/
theorem futures_run_bindOk {l : List Action} {s₀ s : Endpoints} {fut : ℕ} {rest : List ℕ}
    {payload : Bytes} (hwaits : s₀.conn.waitersOf cmdBindOk = fut :: rest)
    (hpending : s₀.conn.futures fut = .pending)
    (hrun : Machine.run step s₀ (.message cmdBindOk payload :: l) = some s) :
    s.conn.futures fut = .result payload := by
  obtain ⟨t, ht, hrun⟩ := Machine.run_cons hrun
  obtain rfl := Option.some.inj ht
  refine Machine.run_induction (fun _ s => s.conn.futures fut = .result payload) ?_
    (fun _ h hs => (futures_step (by rw [h]; rfl) hs).trans h) hrun
  rw [(s₀.conn.dispatch_of_isReply (by decide) payload).futures,
    s₀.conn.futures_deliverToWaiter hwaits, hpending]
  exact Function.update_self ..

theorem openListener_of_step {s s' : Endpoints} {fut port : ℕ} {payload : Bytes}
    (hfut : s.conn.futures fut = .result payload) (hport : parseBindOk payload = some port)
    (hstep : s.step (.listen fut) = some s') : s' = s.openListener fut port := by
  simp only [step, hfut] at hstep
  cases hnone : s.listeners fut with
  | some q =>
    rw [hnone] at hstep
    cases hstep
  | none =>
    simp only [hnone, hport] at hstep
    exact (Option.some.inj hstep).symm

/-- The reply to a `listen` call is read, then come the messages among `l`, the call resumes,
and then come those among `r`. The listener gets all the connections announced on its port
since the reply, each once and in order, just when none was announced before the call resumed. -/
theorem listen_accepts_iff {as l r : List Action} {s₀ s₁ s₂ : Endpoints} {fut port : ℕ}
    {rest : List ℕ} {payload : Bytes} (hreach : Machine.run step init as = some s₀)
    (hwaits : s₀.conn.waitersOf cmdBindOk = fut :: rest) (hpending : s₀.conn.futures fut = .pending)
    (hport : parseBindOk payload = some port)
    (hlisten : Machine.run step s₀ (.message cmdBindOk payload :: l ++ [.listen fut]) = some s₁)
    (hbind : Machine.Along step (fun s a => s.binds? a ≠ some port) s₁ r)
    (hrun : Machine.run step s₁ r = some s₂) :
    ∃ q, s₂.listeners fut = some q ∧
      (s₂.offered q = announced port (l ++ r) ↔ announced port l = []) := by
  obtain ⟨s, s', hl, hstep, hend⟩ := Machine.run_split hlisten
  obtain rfl : s' = s₁ := Option.some.inj hend
  have hunopened₀ : Unopened s₀ :=
    Machine.run_induction (fun _ s => Unopened s) unopened_init (fun _ h hs => unopened_step h hs)
      hreach
  have hunopened : Unopened s :=
    Machine.run_induction (fun _ s => Unopened s) hunopened₀ (fun _ h hs => unopened_step h hs) hl
  have hfut := futures_run_bindOk hwaits hpending hl
  obtain rfl := openListener_of_step hfut hport hstep
  refine ⟨s.queues, ?_, ?_⟩
  · exact Machine.run_induction (fun _ t => t.listeners fut = some s.queues)
      (Function.update_self ..) (fun _ h hs => listeners_step h hs) hrun
  · have hoffered := (listening_run (hunopened.listening fut port) hbind hrun).offered
    rw [hoffered, announced_append]
    exact List.self_eq_append_left

/-- Connection 7 is announced on port 80. -/
def acceptOn80 : Action :=
  .message cmdAccept [0, 80, 0, 0, 0, 7, 0, 0, 0, 0, 0, 9, 0, 1]

theorem listen_accepts_iff_resumed :
    ∃ s, Machine.run step init
        [.request 0 cmdBindOk, .message cmdBindOk [0, 80], .listen 0, acceptOn80] = some s ∧
      s.listeners 0 = some 0 ∧ s.offered 0 = [⟨80, 7, ⟨0, 9⟩, 1⟩] := by
  refine ⟨_, rfl, rfl, ?_⟩
  obtain ⟨q, hq, hiff⟩ := @listen_accepts_iff [.request 0 cmdBindOk] [] [acceptOn80] _ _ _ 0 80 []
    [0, 80] rfl rfl rfl rfl rfl (by decide) rfl
  obtain rfl : 0 = q := Option.some.inj hq
  exact hiff.2 rfl

/-- Announced right after the reply, the connection reaches nobody. -/
theorem early_accept_dropped :
    ∃ s, Machine.run step init
        [.request 0 cmdBindOk, .message cmdBindOk [0, 80], acceptOn80, .listen 0] = some s ∧
      s.listeners 0 = some 0 ∧ s.offered 0 = [] ∧
      announced 80 [acceptOn80] = [⟨80, 7, ⟨0, 9⟩, 1⟩] :=
  ⟨_, rfl, rfl, rfl, rfl⟩

end Endpoints

end PilotLanggraph

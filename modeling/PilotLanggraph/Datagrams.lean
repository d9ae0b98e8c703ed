import PilotLanggraph.Connection
import PilotLanggraph.Lib.Machine
import PilotLanggraph.Lib.PubSub

/-!
# Datagram subscriptions

`subscribe` makes a queue, `__aenter__` puts it on the list of its port, and the read loop puts
each datagram into every queue on the list of its destination. To a subscription the connection is
a broadcast (`broadcast_step`); `datagrams_delivered` says that one that was entered once has been
handed the datagrams for its port that came from then on until it was left, in order, and no
others, whatever else the connection was doing.
-/

namespace PilotLanggraph

open Ipc

/-- A connection with its subscriptions. The number of a subscription is that of its queue. -/
structure Subscriptions where
  conn : Connection
  /-- The port of each. -/
  ports : ℕ → Option ℕ
  /-- How many there are. -/
  created : ℕ
  /-- What was taken out of each queue. -/
  taken : ℕ → List Datagram

/-- What can happen. `elsewhere` is what requests, streams and listeners do to the connection. -/
inductive SubscriptionAction
  | subscribe (port : ℕ)
  | enter (q : ℕ)
  | exit (q : ℕ)
  | message (cmd : UInt8) (payload : Bytes)
  | get (q : ℕ)
  | elsewhere (conn : Connection)

namespace Subscriptions

def init : Subscriptions :=
  ⟨.init, fun _ => none, 0, fun _ => []⟩

/-- `self._conn._port_dgram_queues[self.port]`. -/
def queuesOf (s : Subscriptions) (port : ℕ) : List ℕ :=
  (s.conn.portDgramQueues.get? port).getD []

def setQueues (s : Subscriptions) (port : ℕ) (queues : List ℕ) : Subscriptions :=
  { s with conn := { s.conn with
      portDgramQueues := s.conn.portDgramQueues.set port queues } }

def step (s : Subscriptions) : SubscriptionAction → Option Subscriptions
  | .subscribe port =>
    some { s with ports := Function.update s.ports s.created (some port), created := s.created + 1 }
  | .enter q => (s.ports q).map fun port => s.setQueues port (s.queuesOf port ++ [q])
  -- `list.remove`, whose `ValueError` is dropped.
  | .exit q => (s.ports q).map fun port => s.setQueues port ((s.queuesOf port).erase q)
  | .message cmd payload => some { s with conn := s.conn.dispatch cmd payload }
  | .get q =>
    match s.conn.dgrams q with
    | dg :: rest =>
      some { s with
        conn := { s.conn with dgrams := Function.update s.conn.dgrams q rest }
        taken := Function.update s.taken q (s.taken q ++ [dg]) }
    | [] => none
  | .elsewhere conn =>
    some { s with conn := { conn with
      portDgramQueues := s.conn.portDgramQueues, dgrams := s.conn.dgrams } }

/-- What was put into a queue. -/
def handed (s : Subscriptions) (q : ℕ) : List Datagram :=
  s.taken q ++ s.conn.dgrams q

/-- The datagram of a message for a port. -/
def datagram? (port : ℕ) : SubscriptionAction → Option Datagram
  | .message cmd payload =>
    if cmd = cmdRecvFrom then
      (parseDatagram payload).filter fun dg => dg.dstPort = port
    else none
  | _ => none

/-! ## A broadcast -/

/-- What subscribers see. -/
def broadcast (s : Subscriptions) : PubSub.State ℕ ℕ Datagram :=
  ⟨s.queuesOf, s.handed⟩

/-- An action, to subscribers. -/
def event? (s : Subscriptions) : SubscriptionAction → Option (PubSub.Event ℕ ℕ Datagram)
  | .enter q => (s.ports q).map fun port => .enter port q
  | .exit q => (s.ports q).map fun port => .leave port q
  | .message cmd payload =>
    if cmd = cmdRecvFrom then (parseDatagram payload).map fun dg => .publish dg.dstPort dg else none
  | _ => none

variable {s s' : Subscriptions} {a : SubscriptionAction}

theorem queuesOf_setQueues (s : Subscriptions) (port : ℕ) (queues : List ℕ) :
    (s.setQueues port queues).queuesOf = Function.update s.queuesOf port queues := by
  funext port'
  by_cases h : port' = port
  · simp [queuesOf, setQueues, h]
  · simp [queuesOf, setQueues, h, Dict.get?_set_of_ne]

theorem deliverToWaiter_datagrams (c : Connection) (cmd : UInt8) (payload : Bytes) :
    (c.deliverToWaiter cmd payload).portDgramQueues = c.portDgramQueues ∧
      (c.deliverToWaiter cmd payload).dgrams = c.dgrams := by
  unfold Connection.deliverToWaiter
  split
  · exact ⟨rfl, rfl⟩
  · unfold Connection.settle
    split <;> exact ⟨rfl, rfl⟩

/-- A message without a datagram leaves the subscribers alone. -/
theorem dispatch_datagrams (c : Connection) {cmd : UInt8} (h : cmd ≠ cmdRecvFrom)
    (payload : Bytes) : (c.dispatch cmd payload).portDgramQueues = c.portDgramQueues ∧
      (c.dispatch cmd payload).dgrams = c.dgrams := by
  have hreceive : ∀ connId item, (c.receive connId item).portDgramQueues = c.portDgramQueues ∧
      (c.receive connId item).dgrams = c.dgrams := by
    intro connId item
    unfold Connection.receive
    split <;> exact ⟨rfl, rfl⟩
  unfold Connection.dispatch
  split_ifs
  · split
    · exact ⟨rfl, rfl⟩
    · exact hreceive _ _
  · split
    · exact ⟨rfl, rfl⟩
    · split <;> exact ⟨rfl, rfl⟩
  · obtain ⟨hports, hdgrams⟩ := deliverToWaiter_datagrams (c.closeOk payload) cmd payload
    rw [hports, hdgrams]
    unfold Connection.closeOk
    split
    · exact ⟨rfl, rfl⟩
    · exact hreceive _ _
  · unfold Connection.failOldestWaiter
    split
    · unfold Connection.settle
      split <;> exact ⟨rfl, rfl⟩
    · exact ⟨rfl, rfl⟩
  · exact deliverToWaiter_datagrams c cmd payload

theorem dispatch_recvFrom (c : Connection) (payload : Bytes) :
    c.dispatch cmdRecvFrom payload =
      match parseDatagram payload with
      | none => c
      | some dg => { c with
        dgrams := PubSub.hand dg c.dgrams ((c.portDgramQueues.get? dg.dstPort).getD []) } := by
  unfold Connection.dispatch
  rw [if_neg (by decide), if_neg (by decide), if_neg (by decide), if_pos rfl]
  rfl

/-- Taking out of the front does not matter to where a message is put. -/
theorem handed_hand (taken : ℕ → List Datagram) (dg : Datagram) (queues : List ℕ)
    (dgrams : ℕ → List Datagram) :
    (fun q => taken q ++ PubSub.hand dg dgrams queues q) =
      PubSub.hand dg (fun q => taken q ++ dgrams q) queues := by
  funext q
  rw [PubSub.hand_apply, PubSub.hand_apply, List.append_assoc]

/-- Every step is an event of the broadcast, or none. -/
theorem broadcast_step (h : s.step a = some s') :
    s'.broadcast = (event? s a).elim s.broadcast s.broadcast.apply := by
  cases a with
  | subscribe port =>
    cases h
    rfl
  | enter q | exit q =>
    obtain ⟨port, hport, rfl⟩ := Option.map_eq_some_iff.1 h
    rw [event?, hport, Option.map_some, Option.elim_some]
    exact congrArg₂ PubSub.State.mk (queuesOf_setQueues ..) rfl
  | message cmd payload =>
    cases h
    by_cases hcmd : cmd = cmdRecvFrom
    · subst hcmd
      rw [event?, if_pos rfl]
      have hdispatch := dispatch_recvFrom s.conn payload
      cases hparse : parseDatagram payload with
      | none =>
        rw [hparse] at hdispatch
        rw [hdispatch]
        rfl
      | some dg =>
        rw [hparse] at hdispatch
        rw [hdispatch, Option.map_some, Option.elim_some]
        exact congrArg₂ PubSub.State.mk rfl
          (handed_hand s.taken dg (s.queuesOf dg.dstPort) s.conn.dgrams)
    · obtain ⟨hports, hdgrams⟩ := dispatch_datagrams s.conn hcmd payload
      rw [event?, if_neg hcmd, Option.elim_none]
      refine congrArg₂ PubSub.State.mk ?_ ?_
      · funext port
        simp only [queuesOf, hports]
      · funext q
        simp only [handed, hdgrams]
  | get q =>
    simp only [step] at h
    split at h
    · rename_i dg rest hqueue
      cases h
      refine congrArg₂ PubSub.State.mk rfl ?_
      funext q'
      by_cases hq : q' = q
      · simp [handed, hq, hqueue]
      · simp [handed, hq]
    · cases h
  | elsewhere conn =>
    cases h
    rfl

/-! ## Every run -/

/-- Subscriptions keep their ports, and new ones have new numbers. -/
theorem ports_step {q port : ℕ} (hfresh : ∀ q, s.ports q ≠ none → q < s.created)
    (hport : s.ports q = some port) (h : s.step a = some s') : s'.ports q = some port := by
  cases a with
  | subscribe port' =>
    cases h
    have hlt := hfresh q (by simp [hport])
    simp only [Function.update_of_ne (Nat.ne_of_lt hlt), hport]
  | enter q' | exit q' =>
    obtain ⟨port', -, rfl⟩ := Option.map_eq_some_iff.1 h
    exact hport
  | get q' =>
    simp only [step] at h
    split at h
    · cases h
      exact hport
    · cases h
  | message cmd payload | elsewhere conn =>
    cases h
    exact hport

theorem fresh_step (hfresh : ∀ q, s.ports q ≠ none → q < s.created) (h : s.step a = some s') :
    ∀ q, s'.ports q ≠ none → q < s'.created := by
  cases a with
  | subscribe port =>
    cases h
    intro q hq
    by_cases heq : q = s.created
    · simp [heq]
    · simp only [Function.update_of_ne heq] at hq
      exact Nat.lt_succ_of_lt (hfresh q hq)
  | enter q' | exit q' =>
    obtain ⟨port', -, rfl⟩ := Option.map_eq_some_iff.1 h
    exact hfresh
  | get q' =>
    simp only [step] at h
    split at h
    · cases h
      exact hfresh
    · cases h
  | message cmd payload | elsewhere conn =>
    cases h
    exact hfresh

/-- The events of a run. -/
abbrev events (s : Subscriptions) (as : List SubscriptionAction) :
    List (PubSub.Event ℕ ℕ Datagram) :=
  Machine.outputs step event? s as

theorem broadcast_run : ∀ {as : List SubscriptionAction} {s s' : Subscriptions},
    Machine.run step s as = some s' →
      s'.broadcast = (s.events as).foldl PubSub.State.apply s.broadcast
  | [], s, s', h => by
    obtain rfl := Option.some.inj h
    rfl
  | a :: as, s, s', h => by
    obtain ⟨t, hstep, hrun⟩ := Machine.run_cons h
    rw [broadcast_run hrun, broadcast_step hstep, events, events, Machine.outputs, hstep,
      List.foldl_append]
    cases event? s a <;> rfl

theorem ports_run {q port : ℕ} : ∀ {as : List SubscriptionAction} {s s' : Subscriptions},
    (∀ q, s.ports q ≠ none → q < s.created) → s.ports q = some port →
      Machine.run step s as = some s' → s'.ports q = some port
  | [], _, _, _, hport, h => Option.some.inj h ▸ hport
  | _ :: _, _, _, hfresh, hport, h => by
    obtain ⟨t, hstep, hrun⟩ := Machine.run_cons h
    exact ports_run (fresh_step hfresh hstep) (ports_step hfresh hport hstep) hrun

theorem fresh_run {as : List SubscriptionAction} (hfresh : ∀ q, s.ports q ≠ none → q < s.created)
    (h : Machine.run step s as = some s') : ∀ q, s'.ports q ≠ none → q < s'.created :=
  Machine.run_invariant (fun s => ∀ q, s.ports q ≠ none → q < s.created) (fun _ _ => True)
    (fun h _ hstep => fresh_step h hstep) hfresh (Machine.along_of_forall (fun _ _ _ => trivial) s)
    h

/-- A subscription is on the list of its own port only. -/
theorem keeps_events {q port : ℕ} : ∀ {as : List SubscriptionAction} {s s' : Subscriptions},
    (∀ q, s.ports q ≠ none → q < s.created) → Machine.run step s as = some s' →
      s'.ports q = some port → ∀ e ∈ s.events as, PubSub.Keeps port q e
  | [], _, _, _, _, _, e, he => by cases he
  | a :: as, s, s', hfresh, h, hport, e, he => by
    obtain ⟨t, hstep, hrun⟩ := Machine.run_cons h
    rw [events, Machine.outputs, hstep, List.mem_append, Option.mem_toList] at he
    rcases he with he | he
    · rintro topic rfl
      have hports : s.ports q = some topic := by
        cases a with
        | enter q' =>
          obtain ⟨port', hport', hevent⟩ := Option.map_eq_some_iff.1 he
          cases hevent
          exact hport'
        | exit q' =>
          obtain ⟨port', -, hevent⟩ := Option.map_eq_some_iff.1 he
          cases hevent
        | message cmd payload =>
          simp only [event?] at he
          split_ifs at he
          obtain ⟨dg, -, hevent⟩ := Option.map_eq_some_iff.1 he
          cases hevent
        | subscribe port' | get q' | elsewhere conn => cases he
      have hend := ports_run hfresh hports h
      rw [hport] at hend
      exact (Option.some.inj hend).symm
    · exact keeps_events (fresh_step hfresh hstep) hrun hport e he

/-- What enters `q` is the action that does. -/
theorem enter_of_event {q port : ℕ} (h : event? s a = some (.enter port q)) : a = .enter q := by
  cases a with
  | enter q' =>
    obtain ⟨port', -, hevent⟩ := Option.map_eq_some_iff.1 h
    cases hevent
    rfl
  | exit q' =>
    obtain ⟨port', -, hevent⟩ := Option.map_eq_some_iff.1 h
    cases hevent
  | message cmd payload =>
    simp only [event?] at h
    split_ifs at h
    obtain ⟨dg, -, hevent⟩ := Option.map_eq_some_iff.1 h
    cases hevent
  | subscribe port' | get q' | elsewhere conn => cases h

theorem exit_of_event {q port : ℕ} (h : event? s a = some (.leave port q)) : a = .exit q := by
  cases a with
  | enter q' =>
    obtain ⟨port', -, hevent⟩ := Option.map_eq_some_iff.1 h
    cases hevent
  | exit q' =>
    obtain ⟨port', -, hevent⟩ := Option.map_eq_some_iff.1 h
    cases hevent
    rfl
  | message cmd payload =>
    simp only [event?] at h
    split_ifs at h
    obtain ⟨dg, -, hevent⟩ := Option.map_eq_some_iff.1 h
    cases hevent
  | subscribe port' | get q' | elsewhere conn => cases h

theorem published_event (port : ℕ) (s : Subscriptions) (a : SubscriptionAction) :
    (event? s a).bind (PubSub.published? port) = datagram? port a := by
  cases a with
  | enter q | exit q =>
    cases hport : s.ports q <;> simp [event?, datagram?, hport, PubSub.published?]
  | message cmd payload =>
    by_cases hcmd : cmd = cmdRecvFrom
    · cases hparse : parseDatagram payload with
      | none => simp [event?, datagram?, hcmd, hparse]
      | some dg => simp [event?, datagram?, hcmd, hparse, PubSub.published?, Option.filter_some]
    · simp [event?, datagram?, hcmd]
  | subscribe port' | get q | elsewhere conn => rfl

/-- A subscription that was entered once has been handed the datagrams for its port that came
between its entry and its exit, in order, each once, and nothing else : what was taken out of its
queue and what is still in it. Other subscriptions, of the same port or of others, come and go, and
the connection does what else it does. -/
theorem datagrams_delivered {before during after : List SubscriptionAction} {q port : ℕ}
    {s : Subscriptions}
    (hrun : Machine.run step init (before ++ .enter q :: (during ++ after)) = some s)
    (hport : s.ports q = some port) (hbefore : .enter q ∉ before) (hduring : .enter q ∉ during)
    (hstays : .exit q ∉ during)
    (hafter : after = [] ∨ ∃ rest, after = .exit q :: rest ∧ .enter q ∉ rest) :
    s.taken q ++ s.conn.dgrams q = during.filterMap (datagram? port) := by
  have hfresh : ∀ q, init.ports q ≠ none → q < init.created := fun _ h => absurd rfl h
  have hkeeps := keeps_events hfresh hrun hport
  have hhanded := PubSub.handed_foldl (s := init.broadcast) (i := q)
    (fun _ _ h => by cases h) hkeeps
  rw [← broadcast_run hrun] at hhanded
  have hsplit := hrun
  rw [Machine.run_append] at hsplit
  obtain ⟨t, ht, htail⟩ := Option.bind_eq_some_iff.1 hsplit
  obtain ⟨t', henter, hrest⟩ := Machine.run_cons htail
  have hevent : event? t (.enter q) = some (.enter port q) := by
    obtain ⟨port', hport', -⟩ := Option.map_eq_some_iff.1 henter
    have hend := ports_run (fresh_run hfresh ht) hport' htail
    rw [hport] at hend
    rw [event?, hport', Option.map_some, Option.some.inj hend]
  rw [Machine.run_append] at hrest
  obtain ⟨u, hu, hlast⟩ := Option.bind_eq_some_iff.1 hrest
  have hnotenter : ∀ {as : List SubscriptionAction} {v : Subscriptions}, .enter q ∉ as →
      ∀ e ∈ v.events as, e ≠ .enter port q := by
    rintro as v hnot e he rfl
    obtain ⟨w, a, ha, hout⟩ := Machine.mem_outputs he
    exact hnot (enter_of_event hout ▸ ha)
  have hnotleave : ∀ e ∈ t'.events during, e ≠ .leave port q := by
    rintro e he rfl
    obtain ⟨w, a, ha, hout⟩ := Machine.mem_outputs he
    exact hstays (exit_of_event hout ▸ ha)
  -- The events are those of the three parts, with the entry between the first two.
  have hevents : init.events (before ++ .enter q :: (during ++ after)) =
      init.events before ++ .enter port q :: (t'.events during ++ u.events after) := by
    rw [events, Machine.outputs_run_append ht, Machine.outputs, hevent, henter]
    exact congrArg (fun es => init.events before ++ .enter port q :: es)
      (Machine.outputs_run_append hu after)
  have hleft : u.events after = [] ∨ ∃ rest, u.events after = .leave port q :: rest ∧
      ∀ e ∈ rest, e ≠ .enter port q := by
    rcases hafter with rfl | ⟨rest, rfl, hgone⟩
    · exact .inl rfl
    · obtain ⟨v, hexit, hrun⟩ := Machine.run_cons hlast
      have hleave : event? u (.exit q) = some (.leave port q) := by
        obtain ⟨port', hport', -⟩ := Option.map_eq_some_iff.1 hexit
        have hend := ports_run (fresh_run (fresh_step (fresh_run hfresh ht) henter) hu)
          hport' hlast
        rw [hport] at hend
        rw [event?, hport', Option.map_some, Option.some.inj hend]
      refine .inr ⟨v.events rest, ?_, hnotenter hgone⟩
      rw [events, Machine.outputs, hleave, hexit]
      rfl
  have hmessages : (t'.events during).filterMap (PubSub.published? port) =
      during.filterMap (datagram? port) :=
    Machine.filterMap_outputs (published_event port) hu
  have hheard : PubSub.heard port q 0
      (init.events before ++ .enter port q :: (t'.events during ++ u.events after)) = _ :=
    PubSub.heard_once (hnotenter hbefore) (hnotenter hduring) hnotleave hleft
  rw [hevents] at hhanded
  exact hhanded.trans (hheard.trans hmessages)

/-- A datagram for a port below 256, with one byte of data. -/
def datagramFor (port data : UInt8) : SubscriptionAction :=
  .message cmdRecvFrom [0, 1, 0, 0, 0, 7, 0, 5, 0, port, data]

/-- The first of two subscriptions of the port 9 hears the two datagrams for that port that come
while it lasts. -/
theorem datagrams_delivered_first :
    ∃ s, Machine.run step init ([.subscribe 9, .subscribe 9, datagramFor 9 0] ++ .enter 0 ::
        ([datagramFor 9 1, .enter 1, datagramFor 8 2, .get 0, datagramFor 9 3] ++
          [.exit 0, datagramFor 9 4])) = some s ∧
      (s.taken 0 ++ s.conn.dgrams 0).map Datagram.data = [[1], [3]] := by
  obtain ⟨s, hrun, hport⟩ : ∃ s, Machine.run step init
      ([.subscribe 9, .subscribe 9, datagramFor 9 0] ++ .enter 0 ::
        ([datagramFor 9 1, .enter 1, datagramFor 8 2, .get 0, datagramFor 9 3] ++
          [.exit 0, datagramFor 9 4])) = some s ∧ s.ports 0 = some 9 := ⟨_, rfl, rfl⟩
  refine ⟨s, hrun, ?_⟩
  rw [datagrams_delivered hrun hport (by simp [datagramFor]) (by simp [datagramFor])
    (by simp [datagramFor]) (.inr ⟨_, rfl, by simp [datagramFor]⟩)]
  decide

end Subscriptions

end PilotLanggraph

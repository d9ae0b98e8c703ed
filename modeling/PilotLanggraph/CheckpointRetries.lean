import PilotLanggraph.CheckpointRefinement
import PilotLanggraph.Lib.AtLeastOnce
import PilotLanggraph.Retries

/-!
# Checkpoint calls over a lossy network

A `PilotCheckpointSaver` repeats a call that fails : `_aretry` makes three calls of `ainvoke`, which
makes three attempts of its own where the connection fails. An attempt can fail before the store has
handled its request, or after. `retried_calls` says that this does no harm : whatever becomes of the
attempts, what the saver sees is what it would see of a store that handles each call that returns
exactly once, and each call that raises once or never.
-/

namespace PilotLanggraph

/-! ## Replies on the wire -/

/-- An entry of `pending_writes`. -/
def PendingWrite.json (w : PendingWrite) : Json :=
  .obj [("task_id", .str w.taskId), ("channel", .str w.channel), ("value_b64", w.valueB64)]

/-- An entry of `items`. -/
def ListItem.json (item : ListItem) : Json :=
  .obj [("thread", .str item.thread), ("checkpoint_ns", .str item.checkpointNs),
    ("checkpoint_id", .str item.checkpointId),
    ("parent_checkpoint_id", item.parentCheckpointId),
    ("checkpoint_b64", item.checkpointB64), ("metadata_b64", item.metadataB64)]

/-- The `dict` a handler returns. -/
def StoreReply.json : StoreReply → Json
  | .ok => .obj [("ok", .bool true)]
  | .notFound => .obj [("found", .bool false)]
  | .found t => .obj [("found", .bool true), ("checkpoint_id", .str t.checkpointId),
      ("parent_checkpoint_id", t.parentCheckpointId),
      ("checkpoint_b64", t.checkpointB64), ("metadata_b64", t.metadataB64),
      ("pending_writes", .arr (t.pendingWrites.map PendingWrite.json))]
  | .items xs => .obj [("items", .arr (xs.map ListItem.json))]

theorem StoreReply.json_ne_null (reply : StoreReply) : reply.json ≠ .null := by
  cases reply with
  | ok | notFound | found | items => exact fun h => by cases h

/-- The handler a request is for. -/
def StoreRequest.node : StoreRequest → String
  | .put _ => "checkpoint_put"
  | .getTuple _ => "checkpoint_get_tuple"
  | .list _ => "checkpoint_list"
  | .putWrites _ => "checkpoint_put_writes"

/-! ## Attempts -/

/-- What becomes of an attempt. -/
inductive Fate
  /-- It fails, and the store has not handled the request. -/
  | lost (e : CallError)
  /-- It fails, but the store has. -/
  | unanswered (e : CallError)
  | answered

/-- The store handles the request. -/
def Fate.handled : Fate → Bool
  | .lost _ => false
  | .unanswered _ | .answered => true

/-- `_call_put`, `_call_get`, `_call_list` and `_call_writes`, by the request they are for. -/
def saverCall (peerAddr timeoutSecs : String) (r : StoreRequest) :
    RetryingRunnable StoreRequest where
  node := r.node
  peerAddr := peerAddr
  timeoutSecs := timeoutSecs
  inputModel := none
  outputModel := none
  maxRetries := 2
  retryBackoffSecs := 1.5

namespace Backend

variable (b : Backend)

/-- The reply frame. A store that raises sends the error. -/
def replyFrame (error : String) : Option StoreReply → Frame
  | some reply => .ofResult reply.json true
  | none => .ofError "handler_error" error

/-- An attempt of a call, at a state of the store. -/
def attempt (error : String) (s : b.State) (r : StoreRequest) : Fate → Attempt
  | .lost e | .unanswered e => .stops e
  | .answered => .reads ⟨[replyFrame error (b.handle s r).2], .returned ()⟩

/-- The store after the first attempts of a call. -/
def storeAfter (s : b.State) (r : StoreRequest) (fates : ℕ → Fate) : ℕ → b.State
  | 0 => s
  | k + 1 =>
    if (fates k).handled then (b.handle (storeAfter s r fates k) r).1 else storeAfter s r fates k

/-- `ainvoke` of a call. -/
def ainvoke (caller : StoreRequest → RetryingRunnable StoreRequest) (error : String) (s : b.State)
    (r : StoreRequest) (fates : ℕ → Fate) : InvokeRun :=
  (caller r).ainvoke r fun r k => b.attempt error (b.storeAfter s r fates k) r (fates k)

/-- A call of `_aretry` : how it ends, the store after it, the number of attempts, and the
sleeps. -/
structure AretryRun where
  outcome : CallOutcome Json
  store : b.State
  attempts : ℕ
  sleeps : List Secs

/-- The `for` loop of `_aretry`. -/
def aretryLoop (caller : StoreRequest → RetryingRunnable StoreRequest) (error : String)
    (r : StoreRequest) (attempts : ℕ) : List ℕ → b.State → (ℕ → Fate) → b.AretryRun
  | [], s, _ => ⟨.returned .null, s, 0, []⟩
  | i :: rest, s, fates =>
    let run := b.ainvoke caller error s r fates
    let store := b.storeAfter s r fates run.attempts
    match run.outcome with
    | .raised e =>
      if i = attempts - 1 then ⟨.raised e, store, run.attempts, run.sleeps⟩
      else
        let later := aretryLoop caller error r attempts rest store
          fun k => fates (run.attempts + k)
        ⟨later.outcome, later.store, run.attempts + later.attempts,
          run.sleeps ++ 0.5 * 2 ^ i :: later.sleeps⟩
    | outcome => ⟨outcome, store, run.attempts, run.sleeps⟩

/-- `_aretry`, with its default of three attempts. -/
def aretry (caller : StoreRequest → RetryingRunnable StoreRequest) (error : String)
    (s : b.State) (r : StoreRequest) (fates : ℕ → Fate) : b.AretryRun :=
  b.aretryLoop caller error r 3 (List.range 3) s fates

/-- A sequence of calls : each with its outcome, and the store after them. -/
def aretries (caller : StoreRequest → RetryingRunnable StoreRequest) (error : String) :
    b.State → (ℕ → Fate) → List StoreRequest → List (StoreRequest × CallOutcome Json) × b.State
  | s, _, [] => ([], s)
  | s, fates, r :: rs =>
    let run := b.aretry caller error s r fates
    let later := aretries caller error run.store (fun k => fates (run.attempts + k)) rs
    ((r, run.outcome) :: later.1, later.2)

end Backend

/-- The value a call returned. -/
def CallOutcome.value? {α : Type} : CallOutcome α → Option α
  | .returned a => some a
  | _ => none

/-! ## Histories absorb repetitions -/

namespace History

theorem eq_of_fields {h h' : History} (hcheckpoints : h.checkpoints = h'.checkpoints)
    (hwrites : h.writes = h'.writes) (hspaces : h.spaces = h'.spaces) : h = h' := by
  cases h
  cases h'
  cases hcheckpoints
  cases hwrites
  cases hspaces
  rfl

theorem put_put (h : History) (c : Checkpoint) : (h.put c).put c = h.put c := by
  refine eq_of_fields ?_ rfl ?_
  · exact (Keyed.replace_eq_self_iff (h.put c).distinct).2 (Keyed.getLast?_replace c h.checkpoints)
  · refine if_pos ?_
    rw [put]
    split_ifs with hc
    · exact hc
    · simp

theorem putWrites_putWrites (h : History) (w : Write) :
    (h.putWrites w).putWrites w = h.putWrites w := by
  obtain ⟨v, hv, hkey⟩ : ∃ v ∈ (h.putWrites w).writes, v.key = w.key :=
    Keyed.exists_mem_insertNew w h.writes
  exact eq_of_fields rfl (Keyed.insertNew_of_mem hv hkey) rfl

/-- A request that comes again right away is answered alike and changes nothing. -/
theorem absorbs (b : Backend) :
    AtLeastOnce.Absorbs (step b) fun h r => ((h.reply b r).map StoreReply.json).getD .null where
  step_step h r := by
    cases r with
    | put p =>
      simp only [step]
      cases b.stored? p.checkpoint with
      | none => rfl
      | some c => exact h.put_put c
    | putWrites p => exact h.putWrites_putWrites p.write
    | getTuple p => rfl
    | list p => rfl
  reply_step h r := by
    cases r with
    | put p | putWrites p | getTuple p | list p => rfl

end History

/-! ## Calls -/

namespace RetryingRunnable

variable {ι : Type} {r : RetryingRunnable ι} {attempts : ℕ → Attempt}

/-- The loop ends with the outcome of its last attempt. The ones before it have raised. -/
theorem invokeLoop_last : ∀ n k : ℕ, k + n = r.totalAttempts - 1 →
    ∃ last, k ≤ last ∧
      (r.invokeLoop attempts (List.range' k (n + 1))).outcome = r.once (attempts last) ∧
      k + (r.invokeLoop attempts (List.range' k (n + 1))).attempts = last + 1 ∧
      ∀ j, k ≤ j → j < last → ∃ e, r.once (attempts j) = .raised e
  | n, k, hk => by
    have hstops : (r.invokeLoop attempts (List.range' k (n + 1))) = ⟨r.once (attempts k), 1, []⟩ →
        ∃ last, k ≤ last ∧
          (r.invokeLoop attempts (List.range' k (n + 1))).outcome = r.once (attempts last) ∧
          k + (r.invokeLoop attempts (List.range' k (n + 1))).attempts = last + 1 ∧
          ∀ j, k ≤ j → j < last → ∃ e, r.once (attempts j) = .raised e := by
      intro hrun
      rw [hrun]
      exact ⟨k, le_rfl, rfl, rfl, fun j hj hlt => absurd hlt (by omega)⟩
    cases honce : r.once (attempts k) with
    | returned v => exact hstops (by rw [List.range'_succ, invokeLoop, honce])
    | waiting => exact hstops (by rw [List.range'_succ, invokeLoop, honce])
    | raised e =>
      by_cases hagain : e.retries = true ∧ k < r.totalAttempts - 1
      · obtain ⟨m, rfl⟩ : ∃ m, n = m + 1 := ⟨n - 1, by omega⟩
        obtain ⟨last, hle, houtcome, hattempts, hraised⟩ := invokeLoop_last m (k + 1) (by omega)
        have hrun : r.invokeLoop attempts (List.range' k (m + 1 + 1)) =
            (r.invokeLoop attempts (List.range' (k + 1) (m + 1))).retried
              (min (r.retryBackoffSecs * 2 ^ k) 30) := by
          rw [List.range'_succ, invokeLoop, honce]
          exact if_pos hagain
        rw [hrun]
        refine ⟨last, by omega, houtcome, ?_, fun j hj hlt => ?_⟩
        · rw [InvokeRun.retried]
          simp only
          omega
        · rcases Nat.eq_or_lt_of_le hj with rfl | hlt'
          · exact ⟨e, honce⟩
          · exact hraised j hlt' hlt
      · refine hstops ?_
        rw [List.range'_succ, invokeLoop, honce]
        exact if_neg hagain

theorem ainvokeWithRetries_ends (r : RetryingRunnable ι) (attempts : ℕ → Attempt) :
    ∃ last, (r.ainvokeWithRetries attempts).outcome = r.once (attempts last) ∧
      (r.ainvokeWithRetries attempts).attempts = last + 1 ∧
      ∀ j < last, ∃ e, r.once (attempts j) = .raised e := by
  obtain ⟨m, hm⟩ : ∃ m, r.totalAttempts = m + 1 := ⟨_, Nat.add_comm _ _⟩
  obtain ⟨last, -, houtcome, hattempts, hraised⟩ :=
    @invokeLoop_last ι r attempts m 0 (by omega)
  rw [← hm, ← List.range_eq_range', ← ainvokeWithRetries] at houtcome hattempts
  exact ⟨last, houtcome, by omega, fun j hlt => hraised j (Nat.zero_le j) hlt⟩

end RetryingRunnable

namespace Backend

variable {b : Backend} {peerAddr timeoutSecs error : String} {s : b.State} {h : History}
  {r : StoreRequest} {fates : ℕ → Fate}

/-- The saver validates nothing. -/
theorem ainvoke_saverCall :
    b.ainvoke (saverCall peerAddr timeoutSecs) error s r fates =
      (saverCall peerAddr timeoutSecs r).ainvokeWithRetries
        fun k => b.attempt error (b.storeAfter s r fates k) r (fates k) := by
  rw [ainvoke, RetryingRunnable.ainvoke, saverCall]
  simp only [RetryingRunnable.validateOutput]
  split
  · rename_i hmodel
    cases hmodel
  · rfl

/-- After any number of attempts the store is where one delivery, or none, would have left it. -/
theorem storeAfter_touched (hr : b.Refines s h) (r : StoreRequest) (fates : ℕ → Fate) : ∀ k,
    ∃ h', b.Refines (b.storeAfter s r fates k) h' ∧
      AtLeastOnce.Touched (History.step b) r h h'
  | 0 => ⟨h, hr, .refl _ r h⟩
  | k + 1 => by
    obtain ⟨h', hr', htouched⟩ := storeAfter_touched hr r fates k
    rw [storeAfter]
    split_ifs with hhandled
    · refine ⟨h'.step b r, (b.handle_refines hr' r).1, .inr ?_⟩
      exact htouched.step_eq (History.absorbs b)
    · exact ⟨h', hr', htouched⟩

/-- An attempt that returns has the reply to the request. A request that the store refuses makes
it raise. -/
theorem once_attempt (hr : b.Refines s h) (caller : RetryingRunnable StoreRequest)
    (error : String) (r : StoreRequest) (fate : Fate) :
    caller.once (b.attempt error s r fate) =
        .returned (((h.reply b r).map StoreReply.json).getD .null) ∧ fate = .answered ∨
      ∃ e, caller.once (b.attempt error s r fate) = .raised e := by
  cases fate with
  | lost e => exact .inr ⟨e, rfl⟩
  | unanswered e => exact .inr ⟨e, rfl⟩
  | answered =>
    rw [attempt, (b.handle_refines hr r).2]
    cases h.reply b r with
    | none => exact .inr ⟨_, rfl⟩
    | some reply =>
      refine .inl ⟨?_, rfl⟩
      have hresult : (Frame.ofResult reply.json true).result? = some reply.json := by
        rw [Frame.result?, if_neg]
        · rfl
        · exact reply.json_ne_null
      rw [replyFrame, RetryingRunnable.once, PilotRemoteRunnable.lastResult, if_neg, if_pos,
        hresult]
      · rfl
      · rfl
      · exact fun h => by cases h

/-- How a call of `ainvoke` ends. -/
def Settles (b : Backend) (h : History) (r : StoreRequest) (outcome : CallOutcome Json)
    (h' : History) : Prop :=
  AtLeastOnce.Touched (History.step b) r h h' ∧
    (outcome = .returned (((h.reply b r).map StoreReply.json).getD .null) ∧ h' = h.step b r ∨
      ∃ e, outcome = .raised e)

theorem ainvoke_settles (hr : b.Refines s h) :
    ∃ h', b.Refines (b.storeAfter s r fates
        (b.ainvoke (saverCall peerAddr timeoutSecs) error s r fates).attempts) h' ∧
      b.Settles h r (b.ainvoke (saverCall peerAddr timeoutSecs) error s r fates).outcome h' := by
  rw [ainvoke_saverCall]
  obtain ⟨last, houtcome, hattempts, -⟩ :=
    (saverCall peerAddr timeoutSecs r).ainvokeWithRetries_ends
      fun k => b.attempt error (b.storeAfter s r fates k) r (fates k)
  rw [houtcome, hattempts]
  obtain ⟨h₁, hr₁, htouched⟩ := storeAfter_touched hr r fates last
  have hreply := htouched.reply_eq (History.absorbs b)
  have hstep := htouched.step_eq (History.absorbs b)
  rw [storeAfter]
  rcases once_attempt hr₁ (saverCall peerAddr timeoutSecs r) error r (fates last) with
    ⟨honce, hanswered⟩ | ⟨e, honce⟩
  · have hhandled : (fates last).handled = true := by
      rw [hanswered]
      rfl
    rw [if_pos hhandled]
    refine ⟨h₁.step b r, (b.handle_refines hr₁ r).1, .inr hstep, .inl ⟨?_, hstep⟩⟩
    rw [honce, hreply]
  · split_ifs
    · exact ⟨h₁.step b r, (b.handle_refines hr₁ r).1, .inr hstep, .inr ⟨e, honce⟩⟩
    · exact ⟨h₁, hr₁, htouched, .inr ⟨e, honce⟩⟩

/-- A call of `ainvoke` after another that was for the same request. -/
theorem Settles.after {h₁ h₂ : History} {outcome : CallOutcome Json}
    (htouched : AtLeastOnce.Touched (History.step b) r h h₁)
    (hsettles : b.Settles h₁ r outcome h₂) : b.Settles h r outcome h₂ := by
  obtain ⟨htouched₂, hend⟩ := hsettles
  refine ⟨htouched.trans (History.absorbs b) htouched₂, ?_⟩
  rcases hend with ⟨houtcome, hstep⟩ | hraised
  · have hreply := htouched.reply_eq (History.absorbs b)
    refine .inl ⟨?_, ?_⟩
    · rw [houtcome, hreply]
    · rw [hstep, htouched.step_eq (History.absorbs b)]
  · exact .inr hraised

/-- The loop of `_aretry` ends as a call does. -/
theorem aretryLoop_settles {attempts : ℕ} : ∀ (n i : ℕ), i + n + 1 = attempts →
    ∀ {s : b.State} {h : History} {fates : ℕ → Fate}, b.Refines s h →
    ∃ h', b.Refines (b.aretryLoop (saverCall peerAddr timeoutSecs) error r attempts
        (List.range' i (n + 1)) s fates).store h' ∧
      b.Settles h r (b.aretryLoop (saverCall peerAddr timeoutSecs) error r attempts
        (List.range' i (n + 1)) s fates).outcome h'
  | n, i, hi, s, h, fates, hr => by
    obtain ⟨h₁, hr₁, hsettles⟩ := @ainvoke_settles b peerAddr timeoutSecs error s h r fates hr
    rw [List.range'_succ, aretryLoop]
    simp only
    rcases hsettles.2 with ⟨houtcome, -⟩ | ⟨e, houtcome⟩
    · rw [houtcome] at hsettles ⊢
      exact ⟨h₁, hr₁, hsettles⟩
    · rw [houtcome] at hsettles ⊢
      simp only
      split_ifs with hlast
      · exact ⟨h₁, hr₁, hsettles⟩
      · obtain ⟨m, rfl⟩ : ∃ m, n = m + 1 := ⟨n - 1, by omega⟩
        have hnext : i + 1 + m + 1 = attempts := by omega
        obtain ⟨h₂, hr₂, hsettles₂⟩ := aretryLoop_settles m (i + 1) hnext hr₁
        exact ⟨h₂, hr₂, hsettles₂.after hsettles.1⟩

/-- A sequence of calls, seen from the history. -/
theorem aretries_explained (peerAddr timeoutSecs error : String) : ∀ (rs : List StoreRequest)
    {s : b.State} {h : History} {fates : ℕ → Fate}, b.Refines s h →
    ∃ h', b.Refines (b.aretries (saverCall peerAddr timeoutSecs) error s fates rs).2 h' ∧
      AtLeastOnce.Explained (History.step b)
        (fun h r => ((h.reply b r).map StoreReply.json).getD .null) h
        ((b.aretries (saverCall peerAddr timeoutSecs) error s fates rs).1.map
          fun call => (call.1, call.2.value?)) h'
  | [], s, h, fates, hr => ⟨h, hr, .nil h⟩
  | r :: rs, s, h, fates, hr => by
    obtain ⟨h₁, hr₁, hsettles⟩ :=
      @aretryLoop_settles b peerAddr timeoutSecs error r 3 2 0 rfl s h fates hr
    rw [← List.range_eq_range', ← aretry] at hr₁ hsettles
    obtain ⟨h₂, hr₂, hexplained⟩ := aretries_explained peerAddr timeoutSecs error rs hr₁
    refine ⟨h₂, hr₂, ?_⟩
    refine AtLeastOnce.Explained.cons_of_touched hsettles.1 ?_ hexplained
    rcases hsettles.2 with ⟨houtcome, hstep⟩ | ⟨e, houtcome⟩
    · exact .inl ⟨by rw [houtcome]; rfl, hstep⟩
    · exact .inr (by rw [houtcome]; rfl)

/-- The calls of a saver, one after another, over a network on which any attempt can fail before or
after the store has handled its request. Every value that is returned is the reply of a store that
handles each call that returns exactly once, and each call that raises once or never; and no later
request tells the two stores apart. -/
theorem retried_calls (b : Backend) (peerAddr timeoutSecs error : String) (fates : ℕ → Fate)
    (rs : List StoreRequest) :
    ∃ s', AtLeastOnce.Explained (fun s r => (b.handle s r).1)
        (fun s r => ((b.handle s r).2.map StoreReply.json).getD .null) b.init
        ((b.aretries (saverCall peerAddr timeoutSecs) error b.init fates rs).1.map
          fun call => (call.1, call.2.value?)) s' ∧
      ∀ later, b.replies
          (b.aretries (saverCall peerAddr timeoutSecs) error b.init fates rs).2 later =
        b.replies s' later := by
  obtain ⟨h', hr, hexplained⟩ :=
    @aretries_explained b peerAddr timeoutSecs error rs _ _ fates b.init_refines
  obtain ⟨s', hstore, hr'⟩ := @AtLeastOnce.Explained.of_refines History b.State StoreRequest Json
    (History.step b) _ _ _ (fun s r => (b.handle s r).1)
    (fun s r => ((b.handle s r).2.map StoreReply.json).getD .null) b.Refines
    (fun hr r => (b.handle_refines hr r).1) (fun hr r => by
      rw [(b.handle_refines hr r).2]) _ hexplained _ b.init_refines
  exact ⟨s', hstore, fun later => by rw [b.replies_eq later hr, b.replies_eq later hr']⟩

end Backend

end PilotLanggraph

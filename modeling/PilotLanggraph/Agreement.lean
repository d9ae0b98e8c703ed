import PilotLanggraph.RateLimit

/-!
# Servers that cannot be told apart

Two servers agree, apart from one call and from a time on, if nothing that comes later could
notice a difference (`Agree`) : a window may have been pruned by a reading of the clock that
others only come after, and a semaphore may have been made before it was needed. A step of
another call, or of the registry, is possible in both or in none, and leaves them in agreement
(`step_rel`).
-/

namespace PilotLanggraph

/-! ## Limiters -/

namespace RateLimiter

/-- The timestamps of a caller that still count. -/
def counting (l : RateLimiter) (callerNodeId : ℕ) (now : Secs) : List Secs :=
  (l.window callerNodeId).dropWhile (· < now - l.windowSecs)

/-- The limiters cannot be told apart from `now` on. -/
structure Alike (now : Secs) (l l' : RateLimiter) : Prop where
  limit : l.limit = l'.limit
  windowSecs : l.windowSecs = l'.windowSecs
  counting : ∀ caller, l.counting caller now = l'.counting caller now

variable {now now' : Secs} {l l' : RateLimiter}

theorem alike_refl (now : Secs) (l : RateLimiter) : Alike now l l :=
  ⟨rfl, rfl, fun _ => rfl⟩

theorem Alike.symm (h : Alike now l l') : Alike now l' l :=
  ⟨h.limit.symm, h.windowSecs.symm, fun caller => (h.counting caller).symm⟩

theorem Alike.trans {l'' : RateLimiter} (h : Alike now l l') (h' : Alike now l' l'') :
    Alike now l l'' :=
  ⟨h.limit.trans h'.limit, h.windowSecs.trans h'.windowSecs,
    fun caller => (h.counting caller).trans (h'.counting caller)⟩

theorem dropWhile_dropWhile {α : Type*} {p q : α → Bool} (h : ∀ x, p x = true → q x = true) :
    ∀ xs : List α, (xs.dropWhile p).dropWhile q = xs.dropWhile q
  | [] => rfl
  | x :: xs => by
    cases hp : p x with
    | true =>
      rw [List.dropWhile_cons_of_pos hp, List.dropWhile_cons_of_pos (h x hp)]
      exact dropWhile_dropWhile h xs
    | false => rw [List.dropWhile_cons_of_neg (by simp [hp])]

/-- What counts at a later time counts now. -/
theorem counting_of_le (h : now ≤ now') (l : RateLimiter) (caller : ℕ) :
    (l.counting caller now).dropWhile (fun t => t < now' - l.windowSecs) = l.counting caller now' :=
  dropWhile_dropWhile (fun t ht => by
    have ht : t < now - l.windowSecs := by simpa using ht
    simpa using ht.trans_le (sub_le_sub_right h _)) _

theorem Alike.of_le (h : Alike now l l') (hle : now ≤ now') : Alike now' l l' := by
  refine ⟨h.limit, h.windowSecs, fun caller => ?_⟩
  rw [← counting_of_le hle l, ← counting_of_le hle l', h.counting, h.windowSecs]

theorem consume_eq (l : RateLimiter) (caller : ℕ) (now : Secs) :
    l.consume caller now =
      if l.limit ≤ (l.counting caller now).length then
        ({ l with windows := l.windows.set caller (l.counting caller now) }, false)
      else ({ l with windows := l.windows.set caller (l.counting caller now ++ [now]) }, true) :=
  rfl

/-- Asked at any time from then on, they give the same answer and stay alike. -/
theorem Alike.consume (h : Alike now l l') (hle : now ≤ now') (caller : ℕ) :
    (l.consume caller now').2 = (l'.consume caller now').2 ∧
      Alike now (l.consume caller now').1 (l'.consume caller now').1 := by
  have hcounting := (h.of_le hle).counting caller
  have hset : ∀ ts : List Secs, Alike now { l with windows := l.windows.set caller ts }
      { l' with windows := l'.windows.set caller ts } := by
    intro ts
    refine ⟨h.limit, h.windowSecs, fun caller' => ?_⟩
    by_cases hc : caller' = caller
    · simp only [RateLimiter.counting, window, hc, Dict.get?_set_self, h.windowSecs]
    · have hother := h.counting caller'
      simp only [RateLimiter.counting, window, Dict.get?_set_of_ne _ _ hc] at hother ⊢
      exact hother
  have hiff : l.limit ≤ (l.counting caller now').length ↔
      l'.limit ≤ (l'.counting caller now').length := by rw [h.limit, hcounting]
  rw [consume_eq, consume_eq, hcounting]
  rw [hcounting] at hiff
  split_ifs with h₁ h₂ h₂
  · exact ⟨rfl, hset _⟩
  · exact absurd (hiff.1 h₁) h₂
  · exact absurd (hiff.2 h₂) h₁
  · exact ⟨rfl, hset _⟩

theorem dropWhile_append_singleton {α : Type*} {p : α → Bool} {y : α} (hy : p y = false) :
    ∀ xs : List α, (xs.dropWhile p ++ [y]).dropWhile p = xs.dropWhile p ++ [y]
  | [] => List.dropWhile_cons_of_neg (by simp [hy])
  | x :: xs => by
    cases hp : p x with
    | true =>
      rw [List.dropWhile_cons_of_pos hp]
      exact dropWhile_append_singleton hy xs
    | false =>
      rw [List.dropWhile_cons_of_neg (by simp [hp]), List.cons_append,
        List.dropWhile_cons_of_neg (by simp [hp])]

/-- A call that is let pass is charged. -/
theorem counting_consume {caller : ℕ} (hwindow : 0 ≤ l.windowSecs)
    (h : (l.consume caller now).2 = true) :
    (l.consume caller now).1.counting caller now = l.counting caller now ++ [now] := by
  rw [consume_eq] at h ⊢
  split_ifs at h ⊢
  simp only [counting, window, Dict.get?_set_self, Option.getD_some]
  exact dropWhile_append_singleton (by simpa using hwindow) _

/-- A limiter that refuses only prunes. -/
theorem alike_of_refused {caller : ℕ} (h : (l.consume caller now).2 = false) :
    Alike now (l.consume caller now).1 l := by
  rw [consume_eq] at h ⊢
  split_ifs at h ⊢
  refine ⟨rfl, rfl, fun caller' => ?_⟩
  by_cases hc : caller' = caller
  · subst hc
    simp only [counting, window, Dict.get?_set_self, Option.getD_some]
    exact dropWhile_dropWhile (fun _ h => h) _
  · simp only [counting, window, Dict.get?_set_of_ne _ _ hc]

end RateLimiter

/-! ## Registrations -/

namespace Registration

/-- A registration without its limiter and semaphore. -/
def config (r : Registration) : Registration :=
  { r with rateLimiter := none, semaphoreValue := none }

/-- The registrations cannot be told apart from `now` on. One may have made its semaphore
already. -/
structure Alike (now : Secs) (r r' : Registration) : Prop where
  config : r.config = r'.config
  rateLimiter : Option.Rel (RateLimiter.Alike now) r.rateLimiter r'.rateLimiter
  semaphore : r.semaphoreValue = r'.semaphoreValue ∨
    ∃ k : ℕ, r.maxConcurrent = some (k : ℤ) ∧ r.free k = r'.free k

/-- The semaphore is made, if there is to be one. -/
def Held (r : Registration) : Prop :=
  ∀ k : ℕ, r.maxConcurrent = some (k : ℤ) → r.semaphoreValue ≠ none

variable {now now' : Secs} {r r' : Registration} {caller : ℕ}

theorem rel_cases {α : Type*} {R : α → α → Prop} {x y : Option α} (h : Option.Rel R x y) :
    (x = none ∧ y = none) ∨ ∃ a b, x = some a ∧ y = some b ∧ R a b := by
  cases h with
  | none => exact .inl ⟨rfl, rfl⟩
  | some h => exact .inr ⟨_, _, rfl, rfl, h⟩

theorem rel_alike_refl (now : Secs) (l : Option RateLimiter) :
    Option.Rel (RateLimiter.Alike now) l l := by
  cases l with
  | none => exact .none
  | some l => exact .some (RateLimiter.alike_refl now l)

theorem rel_alike_symm {l l' : Option RateLimiter} (h : Option.Rel (RateLimiter.Alike now) l l') :
    Option.Rel (RateLimiter.Alike now) l' l := by
  cases h with
  | none => exact .none
  | some h => exact .some h.symm

theorem alike_refl (now : Secs) (r : Registration) : Alike now r r :=
  ⟨rfl, rel_alike_refl now _, .inl rfl⟩

theorem Alike.of_le (h : Alike now r r') (hle : now ≤ now') : Alike now' r r' := by
  refine ⟨h.config, ?_, h.semaphore⟩
  rcases rel_cases h.rateLimiter with ⟨hl, hl'⟩ | ⟨l, l', hl, hl', halike⟩
  · rw [hl, hl']
    exact .none
  · rw [hl, hl']
    exact .some (halike.of_le hle)

section

variable (h : Alike now r r')

include h

theorem Alike.fn : r.fn = r'.fn :=
  (congrArg Registration.fn h.config :)

theorem Alike.allow : r.allow = r'.allow :=
  (congrArg Registration.allow h.config :)

theorem Alike.stats : r.stats = r'.stats :=
  (congrArg Registration.stats h.config :)

theorem Alike.timeoutSecs : r.timeoutSecs = r'.timeoutSecs :=
  (congrArg Registration.timeoutSecs h.config :)

theorem Alike.maxConcurrent : r.maxConcurrent = r'.maxConcurrent :=
  (congrArg Registration.maxConcurrent h.config :)

theorem Alike.inputModel : r.inputModel = r'.inputModel :=
  (congrArg Registration.inputModel h.config :)

theorem Alike.outputModel : r.outputModel = r'.outputModel :=
  (congrArg Registration.outputModel h.config :)

theorem Alike.symm : Alike now r' r := by
  refine ⟨h.config.symm, rel_alike_symm h.rateLimiter, ?_⟩
  rcases h.semaphore with hv | ⟨k, hk, hfree⟩
  · exact .inl hv.symm
  · exact .inr ⟨k, h.maxConcurrent ▸ hk, hfree.symm⟩

end

theorem Alike.trans {r'' : Registration} (h : Alike now r r') (h' : Alike now r' r'') :
    Alike now r r'' := by
  refine ⟨h.config.trans h'.config, ?_, ?_⟩
  · rcases rel_cases h.rateLimiter with ⟨hl, hl'⟩ | ⟨l, l', hl, hl', halike⟩
    · rw [hl]
      exact hl' ▸ h'.rateLimiter
    · rcases rel_cases h'.rateLimiter with ⟨hnone, -⟩ | ⟨l₁, l'', hl₁, hl'', halike'⟩
      · cases hnone.symm.trans hl'
      · obtain rfl := Option.some.inj (hl'.symm.trans hl₁)
        rw [hl, hl'']
        exact .some (halike.trans halike')
  · rcases h.semaphore with hv | ⟨k, hk, hfree⟩
    · rcases h'.semaphore with hv' | ⟨k, hk, hfree⟩
      · exact .inl (hv.trans hv')
      · exact .inr ⟨k, h.maxConcurrent ▸ hk, by rw [← hfree, free, free, hv]⟩
    · rcases h'.semaphore with hv' | ⟨k', hk', hfree'⟩
      · exact .inr ⟨k, hk, by rw [hfree, free, free, hv']⟩
      · obtain rfl : k = k' := by
          rw [h.maxConcurrent, hk'] at hk
          exact_mod_cast (Option.some.inj hk).symm
        exact .inr ⟨k, hk, hfree.trans hfree'⟩

theorem Alike.authorized (h : Alike now r r') : r.authorized caller = r'.authorized caller := by
  rw [Registration.authorized, Registration.authorized, h.allow]

/-- The rate gate gives the same answer. -/
theorem Alike.consume (h : Alike now r r') (hle : now ≤ now') (caller : ℕ) :
    (r.consume caller now').2 = (r'.consume caller now').2 ∧
      Alike now (r.consume caller now').1 (r'.consume caller now').1 := by
  rcases rel_cases h.rateLimiter with ⟨hl, hl'⟩ | ⟨l, l', hl, hl', halike⟩
  · rw [consume_of_none hl, consume_of_none hl']
    exact ⟨rfl, h⟩
  · rw [consume_of_some hl, consume_of_some hl']
    obtain ⟨hallowed, halike⟩ := halike.consume hle caller
    exact ⟨hallowed, ⟨h.config, .some halike, h.semaphore⟩⟩

/-- Asked for, the semaphores are the same. -/
theorem Alike.semaphore_rel (h : Alike now r r') :
    Option.Rel (fun r r' => Alike now r r' ∧ r.semaphoreValue = r'.semaphoreValue) r.semaphore
      r'.semaphore := by
  rcases h.semaphore with hv | ⟨k, hk, hfree⟩
  · unfold Registration.semaphore
    rw [← h.maxConcurrent, ← hv]
    split
    · exact .some ⟨h, hv⟩
    · exact .some ⟨h, hv⟩
    · split_ifs
      · exact .none
      · have hconfig := h.config
        simp only [Registration.config, ← h.maxConcurrent] at hconfig
        exact .some ⟨⟨hconfig, h.rateLimiter, .inl rfl⟩, rfl⟩
  · rw [semaphore_spec hk, semaphore_spec (h.maxConcurrent ▸ hk)]
    refine .some ⟨⟨h.config, h.rateLimiter, .inl ?_⟩, ?_⟩
    · rw [hfree]
    · rw [hfree]

/-- So do all the gates. -/
theorem Alike.gate (h : Alike now r r') (hle : now ≤ now') (caller : ℕ) :
    (r.gate caller now').2 = (r'.gate caller now').2 ∧
      Alike now (r.gate caller now').1 (r'.gate caller now').1 := by
  obtain ⟨hallowed, hconsume⟩ := h.consume hle caller
  unfold Registration.gate
  rw [h.authorized, hallowed]
  split_ifs
  · exact ⟨rfl, h⟩
  · exact ⟨rfl, hconsume⟩
  · rcases rel_cases hconsume.semaphore_rel with ⟨hs, hs'⟩ | ⟨reg, reg', hs, hs', hreg, hvalue⟩
    · rw [hs, hs']
      exact ⟨rfl, hconsume⟩
    · have hlocked : reg.locked = reg'.locked := by
        rw [locked, locked, hreg.maxConcurrent, hvalue]
      rw [hs, hs']
      simp only [hlocked]
      split_ifs
      · exact ⟨rfl, hreg⟩
      · refine ⟨rfl, ⟨hreg.config, hreg.rateLimiter, .inl ?_⟩⟩
        rw [acquire, acquire, hvalue]

theorem semaphore_alike {reg : Registration} (h : r.semaphore = some reg) : Alike now reg r := by
  unfold Registration.semaphore at h
  split at h
  · cases h
    exact alike_refl now r
  · cases h
    exact alike_refl now r
  · rename_i k hk hnone
    split_ifs at h with hneg
    cases h
    have hcast : ((k.toNat : ℕ) : ℤ) = k := Int.toNat_of_nonneg (not_lt.1 hneg)
    refine ⟨rfl, rel_alike_refl now _, .inr ⟨k.toNat, by rw [hcast]; exact hk, ?_⟩⟩
    simp only [free, hnone, Option.getD_some, Option.getD_none]

/-- A refusal leaves the registration as it was, unless the rate gate let the call pass. -/
theorem alike_of_gate {reg : Registration} {why : Refusal}
    (hgate : r.gate caller now = (reg, .refused why))
    (hrate : ∀ l, r.rateLimiter = some l → r.authorized caller = true →
      (l.consume caller now).2 = false) : Alike now reg r := by
  unfold Registration.gate at hgate
  split_ifs at hgate with hauth hallowed
  · cases hgate
    exact alike_refl now r
  · cases hgate
    cases hl : r.rateLimiter with
    | none =>
      rw [consume_of_none hl] at hallowed
      cases hallowed
    | some l =>
      rw [consume_of_some hl] at hallowed ⊢
      exact ⟨rfl, hl ▸ .some (RateLimiter.alike_of_refused hallowed), .inl rfl⟩
  · have hsame : (r.consume caller now).1 = r := by
      cases hl : r.rateLimiter with
      | none => rw [consume_of_none hl]
      | some l =>
        rw [consume_of_some hl] at hallowed
        exact absurd (hrate l hl (by simpa using hauth)) hallowed
    rw [hsame] at hgate
    split at hgate
    · cases hgate
    · rename_i hsem
      split_ifs at hgate
      · cases hgate
        exact semaphore_alike hsem
      · cases hgate

theorem Alike.record (h : Alike now r r') (failed : Bool) (elapsed : Secs) :
    Alike now { r with stats := r.stats.record failed elapsed }
      { r' with stats := r'.stats.record failed elapsed } :=
  ⟨(congrArg (fun r : Registration => { r with stats := r.stats.record failed elapsed })
    h.config :), h.rateLimiter, h.semaphore⟩

theorem Alike.release (h : Alike now r r') (hr : Held r) (hr' : Held r') :
    Alike now r.release r'.release := by
  have hvalue : r.semaphoreValue = r'.semaphoreValue := by
    rcases h.semaphore with hv | ⟨k, hk, hfree⟩
    · exact hv
    · unfold free at hfree
      cases hv : r.semaphoreValue with
      | none => exact absurd hv (hr k hk)
      | some v =>
        cases hv' : r'.semaphoreValue with
        | none => exact absurd hv' (hr' k (h.maxConcurrent ▸ hk))
        | some v' =>
          rw [hv, hv'] at hfree
          exact congrArg some hfree
  refine ⟨h.config, h.rateLimiter, .inl ?_⟩
  rw [Registration.release, Registration.release, hvalue]

end Registration

/-! ## Servers -/

namespace Server

/-- Apart from the call `j`, the servers cannot be told apart from `now` on. -/
structure Agree (j : ℕ) (now : Secs) (s t : Server) : Prop where
  handlers : s.handlers = t.handlers
  created : s.created = t.created
  middleware : s.middleware = t.middleware
  calls : ∀ i, i ≠ j → s.calls i = t.calls i
  regs : ∀ id, (s.regs id).Alike now (t.regs id)

section

variable {rt : Runtime} {j : ℕ} {now now' : Secs} {s t : Server} {c : Call} {d : Dispatch}

theorem agree_refl (j : ℕ) (now : Secs) (s : Server) : Agree j now s s :=
  ⟨rfl, rfl, rfl, fun _ _ => rfl, fun id => Registration.alike_refl now (s.regs id)⟩

theorem Agree.symm (h : Agree j now s t) : Agree j now t s :=
  ⟨h.handlers.symm, h.created.symm, h.middleware.symm, fun i hi => (h.calls i hi).symm,
    fun id => (h.regs id).symm⟩

theorem Agree.trans {u : Server} (h : Agree j now s t) (h' : Agree j now t u) : Agree j now s u :=
  ⟨h.handlers.trans h'.handlers, h.created.trans h'.created, h.middleware.trans h'.middleware,
    fun i hi => (h.calls i hi).trans (h'.calls i hi), fun id => (h.regs id).trans (h'.regs id)⟩

theorem Agree.of_le (h : Agree j now s t) (hle : now ≤ now') : Agree j now' s t :=
  ⟨h.handlers, h.created, h.middleware, h.calls, fun id => (h.regs id).of_le hle⟩

theorem Agree.setReg (h : Agree j now s t) (id : ℕ) {r r' : Registration} (hr : r.Alike now r') :
    Agree j now (s.setReg id r) (t.setReg id r') := by
  refine ⟨h.handlers, h.created, h.middleware, h.calls, fun id' => ?_⟩
  change (Function.update s.regs id r id').Alike now (Function.update t.regs id r' id')
  by_cases hid : id' = id
  · rw [hid, Function.update_self, Function.update_self]
    exact hr
  · rw [Function.update_of_ne hid, Function.update_of_ne hid]
    exact h.regs id'

theorem Agree.setCall (h : Agree j now s t) (i : ℕ) (c : Call) :
    Agree j now (s.setCall i c) (t.setCall i c) := by
  refine ⟨h.handlers, h.created, h.middleware, fun i' hi' => ?_, h.regs⟩
  change Function.update s.calls i (some c) i' = Function.update t.calls i (some c) i'
  by_cases hi : i' = i
  · rw [hi, Function.update_self, Function.update_self]
  · rw [Function.update_of_ne hi, Function.update_of_ne hi]
    exact h.calls i' hi'

theorem Agree.log (h : Agree j now s t) (i reg reg' : ℕ) (codes codes' : List UserCode) :
    Agree j now (s.log i reg codes) (t.log i reg' codes') :=
  ⟨h.handlers, h.created, h.middleware, h.calls, h.regs⟩

theorem Agree.mws (h : Agree j now s t) (node : String) : s.mws node = t.mws node := by
  rw [Server.mws, Server.mws, h.middleware]

theorem Agree.next (h : Agree j now s t) (i : ℕ) (c : Call) (d : Dispatch) (idx : ℕ)
    (valid : Bool) : Agree j now (s.next i c d idx valid) (t.next i c d idx valid) := by
  unfold Server.next
  rw [h.mws]
  split
  · exact (h.setCall i _).log ..
  · exact h.log ..

theorem Agree.startDrive (h : Agree j now s t) (i : ℕ) (c : Call) (d : Dispatch) (valid : Bool) :
    Agree j now (s.startDrive i c d valid) (t.startDrive i c d valid) := by
  unfold Server.startDrive
  rw [h.mws, (h.regs d.reg).fn]
  split_ifs
  · exact (h.setCall i _).log ..
  · exact (h.setCall i _).next ..

theorem Agree.launch (h : Agree j now s t) (i : ℕ) (c : Call) (d : Dispatch) (valid : Bool) :
    Agree j now (s.launch i c d valid) (t.launch i c d valid) := by
  unfold Server.launch
  rw [(h.regs d.reg).timeoutSecs]
  split
  · exact h.setCall i _
  · exact h.startDrive i c d valid

/-- A refusal shows the settings of the registration, which are the same. -/
theorem refusalFrame_congr {r r' : Registration} (h : r.Alike now r') (callerNodeId : ℕ)
    (node : String) (why : Refusal) :
    refusalFrame rt r callerNodeId node why = refusalFrame rt r' callerNodeId node why := by
  cases why with
  | handlerNotFound => rfl
  | unauthorized => rfl
  | rateLimited =>
    unfold refusalFrame rateLimitedFrame
    rcases Registration.rel_cases h.rateLimiter with ⟨hl, hl'⟩ | ⟨l, l', hl, hl', halike⟩
    · rw [hl, hl']
    · rw [hl, hl']
      simp only [halike.limit, halike.windowSecs]
  | busy => exact (busyFrame_congr h.maxConcurrent node)

theorem Agree.passGates (h : Agree j now s t) (hle : now ≤ now') (i : ℕ) (c : Call) (d : Dispatch)
    (valid : Bool) : Agree j now (s.passGates rt i c d now' valid)
      (t.passGates rt i c d now' valid) := by
  obtain ⟨hgate, hreg⟩ := (h.regs d.reg).gate hle c.caller
  have hset := h.setReg d.reg hreg
  rw [passGates_eq, passGates_eq, hgate]
  cases ((t.regs d.reg).gate c.caller now').2 with
  | refused why =>
    rw [enter, enter, regs_setReg_self, regs_setReg_self, refusalFrame_congr hreg]
    exact hset.setCall i _
  | raises => exact hset.setCall i _
  | admitted => exact hset.launch i c d valid

theorem Agree.receive (h : Agree j now s t) (hle : now ≤ now') (i : ℕ) (c : Call)
    (buf chunk : Bytes) (valid : Bool) : Agree j now (s.receive rt i c buf chunk now' valid)
      (t.receive rt i c buf chunk now' valid) := by
  unfold Server.receive
  split_ifs
  · exact h.setCall i _
  split
  · exact h.setCall i _
  · exact h.setCall i _
  · unfold handleRequest
    split
    · split
      · exact h.setCall i _
      · exact h.setCall i _
      · rw [h.handlers]
        split
        · exact h.passGates hle i c _ valid
        · exact h.setCall i _
      · exact h.setCall i _
    · exact h.setCall i _

theorem Agree.release (h : Agree j now s t) {id : ℕ} (hs : (s.regs id).Held)
    (ht : (t.regs id).Held) :
    Agree j now (s.setReg id (s.regs id).release) (t.setReg id (t.regs id).release) :=
  h.setReg id ((h.regs id).release hs ht)

theorem Agree.settle (h : Agree j now s t) {id : ℕ} (hs : (s.regs id).Held)
    (ht : (t.regs id).Held) (failed : Bool) (elapsed : Secs) :
    Agree j now (s.settle id failed elapsed) (t.settle id failed elapsed) := by
  have hset := h.setReg id (((h.regs id).release hs ht).record failed elapsed)
  exact ⟨hset.handlers, hset.created, hset.middleware, hset.calls, hset.regs⟩

theorem Agree.report (h : Agree j now s t) (hs : (s.regs d.reg).Held) (ht : (t.regs d.reg).Held)
    (i : ℕ) (c : Call) (error : String) (elapsed : Secs) :
    Agree j now (s.report i c d error elapsed) (t.report i c d error elapsed) :=
  (h.settle hs ht true elapsed).setCall i _

/-- A step of another call goes the same way. What it runs has made its semaphore. -/
theorem stepCall_rel {i : ℕ} {a : Action} (h : Agree j now s t)
    (hclock : ∀ now' ∈ a.now?, now ≤ now')
    (hs : ∀ id, c.phase.running? = some id → (s.regs id).Held)
    (ht : ∀ id, c.phase.running? = some id → (t.regs id).Held) :
    Option.Rel (Agree j now) (s.stepCall rt i c a) (t.stepCall rt i c a) := by
  have hreport {d : Dispatch} (hrunning : c.phase.running? = some d.reg) (error : String)
      (elapsed : Secs) : Option.Rel (Agree j now) (some (s.report i c d error elapsed))
        (some (t.report i c d error elapsed)) :=
    .some (h.report (hs _ hrunning) (ht _ hrunning) i c error elapsed)
  have hrelease {d : Dispatch} (hrunning : c.phase.running? = some d.reg) :
      Option.Rel (Agree j now)
        (some ((s.setReg d.reg (s.regs d.reg).release).leave i c (.dispatched d)))
        (some ((t.setReg d.reg (t.regs d.reg).release).leave i c (.dispatched d))) :=
    .some ((h.release (hs _ hrunning) (ht _ hrunning)).setCall i _)
  cases a with
  | read k chunk now' valid =>
    simp only [stepCall]
    split
    · exact .some (h.receive (hclock now' rfl) i c _ chunk valid)
    · exact .none
  | start k valid =>
    simp only [stepCall]
    split
    · exact .some (h.startDrive i c _ valid)
    · exact .none
  | next k valid =>
    simp only [stepCall]
    split
    · exact .some (h.next i c _ _ valid)
    · exact .none
  | handled k =>
    simp only [stepCall]
    split
    · exact .some (h.log ..)
    · exact .none
  | yield k value =>
    simp only [stepCall]
    split
    · exact .some (h.setCall i _)
    · exact .some (h.setCall i _)
    · exact .none
  | exhausted k =>
    simp only [stepCall]
    split
    · exact .some (h.setCall i _)
    · exact .some (h.setCall i _)
    · exact .none
  | returned k value =>
    simp only [stepCall]
    split
    · exact .some (h.setCall i _)
    · exact .none
  | returnedGenerator k body =>
    simp only [stepCall]
    split
    · exact .some ((h.setCall i _).log ..)
    · exact .none
  | completed k elapsed =>
    simp only [stepCall]
    split
    · rename_i d hphase
      have hrunning : c.phase.running? = some d.reg := by rw [hphase]; rfl
      exact .some ((h.settle (hs _ hrunning) (ht _ hrunning) false elapsed).setCall i _)
    · exact .none
  | raised k error elapsed =>
    simp only [stepCall]
    split
    · rename_i hphase
      exact hreport (by rw [hphase]; rfl) error elapsed
    · rename_i hphase
      exact hreport (by rw [hphase]; rfl) error elapsed
    · exact .none
  | timedOut k elapsed =>
    simp only [stepCall]
    split
    · rename_i d hphase
      rw [(h.regs d.reg).timeoutSecs]
      exact hreport (by rw [hphase]; rfl) _ elapsed
    · rename_i d mode hphase
      rw [(h.regs d.reg).timeoutSecs]
      exact hreport (by rw [hphase]; rfl) _ elapsed
    · rename_i d hphase
      rw [(h.regs d.reg).timeoutSecs]
      exact hreport (by rw [hphase]; rfl) _ elapsed
    · exact .none
  | rejected k error elapsed =>
    simp only [stepCall]
    split
    · rename_i hphase
      exact hreport (by rw [hphase]; rfl) error elapsed
    · exact .none
  | cancelled k =>
    simp only [stepCall]
    split
    · rename_i hphase
      exact hrelease (by rw [hphase]; rfl)
    · rename_i hphase
      exact hrelease (by rw [hphase]; rfl)
    · rename_i hphase
      exact hrelease (by rw [hphase]; rfl)
    · exact .none
  | sent k =>
    simp only [stepCall]
    split
    · exact .some (h.setCall i _)
    · exact .some (h.setCall i _)
    · exact .none
  | aborted k =>
    simp only [stepCall]
    split
    · exact .some (h.setCall i _)
    · exact .some (h.setCall i _)
    · exact .some (h.setCall i _)
    · exact .none
  | close k =>
    simp only [stepCall]
    split
    · exact .some (h.setCall i _)
    · exact .none
  | _ => exact .none

/-! ## The registry -/

theorem Agree.create (h : Agree j now s t) (fn : Handler) (o : Options) :
    Agree j now (s.create fn o) (t.create fn o) := by
  have hset := h.setReg s.created (Registration.alike_refl now (.new fn o))
  refine ⟨h.handlers, congrArg (· + 1) h.created, h.middleware, h.calls, fun id => ?_⟩
  change (Function.update s.regs s.created _ id).Alike now (Function.update t.regs t.created _ id)
  rw [← h.created]
  exact hset.regs id

theorem Agree.bind (h : Agree j now s t) (name : String) (id : ℕ) :
    Agree j now (s.bind name id) (t.bind name id) := by
  refine ⟨?_, h.created, h.middleware, h.calls, h.regs⟩
  exact congrArg (·.set name id) h.handlers

theorem Agree.register (h : Agree j now s t) (name : String) (fn : Handler) (o : Options) :
    Agree j now (s.register name fn o) (t.register name fn o) := by
  unfold Server.register
  rw [h.created]
  exact (h.create fn o).bind name t.created

theorem Agree.registerMany (mapping : List (String × (Handler ⊕ ℕ))) :
    ∀ {s t : Server}, Agree j now s t →
      Agree j now (s.registerMany mapping) (t.registerMany mapping) := by
  induction mapping with
  | nil => exact fun h => h
  | cons entry mapping ih =>
    intro s t h
    obtain ⟨name, fn | id⟩ := entry
    · exact ih (h.register name fn {})
    · exact ih (h.bind name id)

theorem Agree.authorize (h : Agree j now s t) (name : String) (allow : List ℕ) :
    Agree j now (s.authorize name allow) (t.authorize name allow) := by
  unfold Server.authorize
  rw [h.handlers]
  split
  · exact h
  · rename_i id _
    have hreg := h.regs id
    refine h.setReg id ⟨?_, hreg.rateLimiter, hreg.semaphore⟩
    exact (congrArg (fun r : Registration => { r with allow := some allow }) hreg.config :)

/-! ## Steps -/

/-- What runs has made its semaphore. -/
theorem held_of_running {mws : List ℕ} {as : List Action} {i id : ℕ}
    (hrun : Machine.run (step rt) (init mws) as = some s) (hc : s.calls i = some c)
    (hrunning : c.phase.running? = some id) : (s.regs id).Held := by
  intro k hk hnone
  have hslots := slots_run hrun id k hk
  have hpos : 0 < (s.running id).ncard :=
    (Set.ncard_pos (finite_callsWith hrun _)).2 ⟨i, c, hc, hrunning⟩
  rw [Registration.free, hnone, Option.getD_none] at hslots
  omega

/-- An action that is not one of the call `j` can happen in both servers or in none, and leaves
them in agreement. -/
theorem step_rel {mws : List ℕ} {as bs : List Action} {a : Action}
    (hs : Machine.run (step rt) (init mws) as = some s)
    (ht : Machine.run (step rt) (init mws) bs = some t) (h : Agree j now s t)
    (ha : a.call? ≠ some j) (hclock : ∀ now' ∈ a.now?, now ≤ now') :
    Option.Rel (Agree j now) (s.step rt a) (t.step rt a) := by
  have started : ∀ {i}, a.call? = some i →
      Option.Rel (Agree j now) ((s.calls i).bind fun c => s.stepCall rt i c a)
        ((t.calls i).bind fun c => t.stepCall rt i c a) := by
    intro i hi
    have hcalls := h.calls i fun hij => ha (hij ▸ hi)
    cases hc : s.calls i with
    | none =>
      rw [← hcalls, hc]
      exact .none
    | some c =>
      rw [← hcalls, hc, Option.bind_some, Option.bind_some]
      exact stepCall_rel h hclock (fun id => held_of_running hs hc)
        fun id => held_of_running ht (hcalls ▸ hc)
  cases a with
  | create fn o => exact .some (h.create fn o)
  | register name fn o => exact .some (h.register name fn o)
  | registerMany mapping =>
    simp only [step, h.created]
    split_ifs
    · exact .some (h.registerMany mapping)
    · exact .none
  | clearUserHandlers =>
    refine .some ⟨?_, h.created, h.middleware, h.calls, h.regs⟩
    exact congrArg (·.filterKeys isIntrospection) h.handlers
  | authorize name allow => exact .some (h.authorize name allow)
  | use mw =>
    refine .some ⟨h.handlers, h.created, ?_, h.calls, h.regs⟩
    exact congrArg (· ++ [mw]) h.middleware
  | accept i peer =>
    simp only [step, h.calls i fun hij => ha (congrArg some hij)]
    split_ifs
    · exact .none
    · exact .some (h.setCall i _)
  | _ => exact started rfl

theorem Agree.of_books {s' : Server} (h : Agree j now s t) (hbooks : s'.books = s.books)
    (hcalls : ∀ i, i ≠ j → s'.calls i = s.calls i) : Agree j now s' t := by
  have hregs : s'.regs = s.regs := congrArg Books.regs hbooks
  refine ⟨(congrArg Books.handlers hbooks).trans h.handlers,
    (congrArg Books.created hbooks).trans h.created,
    (congrArg Books.middleware hbooks).trans h.middleware,
    fun i hi => (hcalls i hi).trans (h.calls i hi), fun id => ?_⟩
  rw [hregs]
  exact h.regs id

end

end Server

end PilotLanggraph

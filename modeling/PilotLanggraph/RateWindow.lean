import PilotLanggraph.Agreement

/-!
# What the rate window decides

The limiter over a whole sequence of calls of `consume`. It has only
the pruned windows, and yet answers each call as if it had kept everything : the call is
allowed if fewer than `limit` calls that the caller made before it and was allowed lie in the
closed interval of length `windowSecs` that ends with it (`window_exact`). The calls of others
make no difference, and no window is longer than the limit.
-/

namespace PilotLanggraph

open SlidingWindow

/-- The arguments of a call of `consume`. -/
structure Consume where
  callerNodeId : ℕ
  now : Secs

namespace RateLimiter

/-- `_RateLimiter.__init__`. -/
def init (limit : ℤ) (windowSecs : Secs) : RateLimiter :=
  ⟨limit, windowSecs, .empty⟩

/-- The limiter after a call, -/
def step (l : RateLimiter) (c : Consume) : Option RateLimiter :=
  some (l.consume c.callerNodeId c.now).1

/-- and after a sequence of calls. -/
def after (l : RateLimiter) (cs : List Consume) : RateLimiter :=
  cs.foldl (fun l c => (l.consume c.callerNodeId c.now).1) l

/-- What a call of the caller is answered. -/
def answer? (caller : ℕ) (l : RateLimiter) (c : Consume) : Option Bool :=
  if c.callerNodeId = caller then some (l.consume caller c.now).2 else none

/-- The answers given to a caller, in order. -/
def answers (caller : ℕ) (l : RateLimiter) (cs : List Consume) : List Bool :=
  Machine.outputs step (answer? caller) l cs

/-- The timestamp of a call of the caller that is allowed. -/
def allowed? (caller : ℕ) (l : RateLimiter) (c : Consume) : Option Secs :=
  if c.callerNodeId = caller ∧ (l.consume caller c.now).2 = true then some c.now else none

/-- The timestamps of the caller's calls that were allowed, in order. -/
def allowed (caller : ℕ) (l : RateLimiter) (cs : List Consume) : List Secs :=
  Machine.outputs step (allowed? caller) l cs

section

variable {l l' : RateLimiter} {caller : ℕ} {now : Secs} {c : Consume} {cs : List Consume}

theorem run_step (l : RateLimiter) (cs : List Consume) :
    Machine.run step l cs = some (l.after cs) := by
  induction cs generalizing l with
  | nil => rfl
  | cons c cs ih => exact ih _

theorem after_concat (l : RateLimiter) (cs : List Consume) (c : Consume) :
    l.after (cs ++ [c]) = ((l.after cs).consume c.callerNodeId c.now).1 :=
  List.foldl_concat ..

theorem allowed_concat (l : RateLimiter) (cs : List Consume) (c : Consume) :
    allowed caller l (cs ++ [c]) = allowed caller l cs ++ (allowed? caller (l.after cs) c).toList :=
  Machine.outputs_append (run_step l cs) c

/-! ## One call -/

theorem consume_snd (l : RateLimiter) (caller : ℕ) (now : Secs) :
    (l.consume caller now).2 = true ↔ ((l.counting caller now).length : ℤ) < l.limit := by
  rw [consume_eq]
  split_ifs with hfull
  · simpa using hfull
  · simpa using hfull

theorem window_consume (l : RateLimiter) (caller : ℕ) (now : Secs) :
    (l.consume caller now).1.window caller =
      if (l.consume caller now).2 = true then l.counting caller now ++ [now]
      else l.counting caller now := by
  rw [consume_eq]
  split_ifs with hfull hpass hpass
  · cases hpass
  · rw [window, Dict.get?_set_self, Option.getD_some]
  · rw [window, Dict.get?_set_self, Option.getD_some]
  · exact absurd rfl hpass

/-- A call does not make a window longer than the limit. -/
theorem length_window_consume {n : ℤ} (h : ((l.window caller).length : ℤ) ≤ n)
    (hlimit : l.limit ≤ n) : (((l.consume caller now).1.window caller).length : ℤ) ≤ n := by
  have hcounting : (l.counting caller now).length ≤ (l.window caller).length :=
    (List.dropWhile_sublist _).length_le
  rw [window_consume]
  split_ifs with hallowed
  · have hroom := (consume_snd l caller now).1 hallowed
    rw [List.length_append, List.length_singleton]
    omega
  · omega

/-! ## All calls -/

/-- The limiter after some calls, seen by one caller. -/
structure Exact (limit : ℤ) (width : Secs) (seen taken : List Secs) (caller : ℕ)
    (l : RateLimiter) : Prop where
  limit_eq : l.limit = limit
  windowSecs_eq : l.windowSecs = width
  pruned : Pruned width seen taken (l.window caller)
  bounded : ((l.window caller).length : ℤ) ≤ max limit 0

variable {limit : ℤ} {width : Secs} {seen taken : List Secs}

theorem exact_init (limit : ℤ) (width : Secs) (caller : ℕ) :
    Exact limit width [] [] caller (init limit width) :=
  ⟨rfl, rfl, pruned_nil width [], le_max_right limit 0⟩

theorem exact_consume (h : Exact limit width seen taken caller l) (c : Consume)
    (hclock : ∀ t ∈ seen, t ≤ c.now) :
    Exact limit width (seen ++ [c.now]) (taken ++ (allowed? caller l c).toList) caller
      (l.consume c.callerNodeId c.now).1 := by
  obtain ⟨rfl, rfl, hpruned, hbounded⟩ := h
  refine ⟨limit_consume .., windowSecs_consume .., ?_, ?_⟩
  · by_cases hcaller : c.callerNodeId = caller
    · rw [hcaller, window_consume, allowed?]
      by_cases hallowed : (l.consume caller c.now).2 = true
      · rw [if_pos hallowed, if_pos ⟨hcaller, hallowed⟩]
        exact hpruned.take hclock
      · rw [if_neg hallowed, if_neg fun h => hallowed h.2, Option.toList_none, List.append_nil]
        exact hpruned.refuse hclock
    · rw [window_consume_of_ne _ _ _ (Ne.symm hcaller), allowed?, if_neg fun h => hcaller h.1,
        Option.toList_none, List.append_nil]
      exact hpruned.mono (List.subset_append_left seen [c.now])
  · by_cases hcaller : c.callerNodeId = caller
    · rw [hcaller]
      exact length_window_consume hbounded (le_max_left l.limit 0)
    · rwa [window_consume_of_ne _ _ _ (Ne.symm hcaller)]

/-- As long as the clock does not go back. -/
theorem exact_after (limit : ℤ) (width : Secs) (caller : ℕ)
    (hclock : (cs.map Consume.now).Pairwise (· ≤ ·)) :
    Exact limit width (cs.map Consume.now) (allowed caller (init limit width) cs) caller
      ((init limit width).after cs) := by
  induction cs using List.reverseRecOn with
  | nil => exact exact_init limit width caller
  | append_singleton cs c ih =>
    rw [List.map_append, List.pairwise_append] at hclock
    obtain ⟨hold, -, hnew⟩ := hclock
    rw [after_concat, allowed_concat, List.map_append]
    exact exact_consume (ih hold) c fun t ht => hnew t ht c.now (by simp)

/-! ## One caller -/

/-- Two limiters that the caller cannot tell apart. -/
structure Same (caller : ℕ) (l l' : RateLimiter) : Prop where
  limit : l.limit = l'.limit
  windowSecs : l.windowSecs = l'.windowSecs
  window : l.window caller = l'.window caller

theorem Same.counting (h : Same caller l l') (now : Secs) :
    l.counting caller now = l'.counting caller now := by
  rw [RateLimiter.counting, h.window, h.windowSecs, RateLimiter.counting]

theorem Same.answer (h : Same caller l l') (now : Secs) :
    (l.consume caller now).2 = (l'.consume caller now).2 := by
  rw [Bool.eq_iff_iff, consume_snd, consume_snd, h.counting, h.limit]

theorem Same.consume (h : Same caller l l') (now : Secs) :
    Same caller (l.consume caller now).1 (l'.consume caller now).1 := by
  refine ⟨?_, ?_, ?_⟩
  · rw [limit_consume, limit_consume, h.limit]
  · rw [windowSecs_consume, windowSecs_consume, h.windowSecs]
  · rw [window_consume, window_consume, h.answer, h.counting]

/-- A call of somebody else. -/
theorem Same.other (h : Same caller l l') {other : ℕ} (hne : other ≠ caller) (now : Secs) :
    Same caller (l.consume other now).1 l' := by
  refine ⟨(limit_consume ..).trans h.limit, (windowSecs_consume ..).trans h.windowSecs, ?_⟩
  rw [window_consume_of_ne _ _ _ hne.symm, h.window]

/-- The calls of others can be left out. -/
theorem answers_filter (h : Same caller l l') (cs : List Consume) :
    answers caller l cs = answers caller l' (cs.filter fun c => c.callerNodeId = caller) := by
  induction cs generalizing l l' with
  | nil => rfl
  | cons c cs ih =>
    by_cases hcaller : c.callerNodeId = caller
    · rw [List.filter_cons_of_pos (by simpa using hcaller)]
      simp only [answers, Machine.outputs, step, answer?, hcaller, if_true, h.answer]
      exact congrArg _ (ih (h.consume c.now))
    · rw [List.filter_cons_of_neg (by simpa using hcaller)]
      simp only [answers, Machine.outputs, step, answer?, hcaller, if_false, Option.toList_none,
        List.nil_append]
      exact ih (h.other hcaller c.now)

end

/-- Whatever is called, as long as the clock does not go back : a call is allowed exactly if
fewer than `limit` earlier calls of the caller were allowed in `[now - width, now]`. The windows
stay sorted and within the limit. What a caller is answered depends only on its own calls. -/
theorem window_exact (limit : ℤ) (width : Secs) (cs : List Consume)
    (hclock : (cs.map Consume.now).Pairwise (· ≤ ·)) :
    (∀ earlier later c, cs = earlier ++ c :: later →
      ((((init limit width).after earlier).consume c.callerNodeId c.now).2 = true ↔
        ((between width (c.now - width)
          (allowed c.callerNodeId (init limit width) earlier)).length : ℤ) < limit)) ∧
      (∀ caller window, ((init limit width).after cs).windows.get? caller = some window →
        (window.length : ℤ) ≤ max limit 0 ∧ window.Pairwise (· ≤ ·)) ∧
      ∀ caller cs', cs'.filter (fun c => c.callerNodeId = caller) =
          cs.filter (fun c => c.callerNodeId = caller) →
        answers caller (init limit width) cs' = answers caller (init limit width) cs := by
  refine ⟨fun earlier later c hcs => ?_, fun caller window hwindow => ?_, fun caller cs' h => ?_⟩
  · rw [hcs, List.map_append, List.map_cons, List.pairwise_append] at hclock
    obtain ⟨hold, -, hnew⟩ := hclock
    have hexact := exact_after limit width c.callerNodeId hold
    rw [consume_snd, hexact.limit_eq, counting, hexact.windowSecs_eq,
      hexact.pruned.window_eq fun t ht => hnew t ht c.now (by simp), between, sub_add_cancel]
  · have hexact := exact_after limit width caller hclock
    have heq : ((init limit width).after cs).window caller = window := by
      rw [RateLimiter.window, hwindow, Option.getD_some]
    rw [← heq]
    exact ⟨hexact.bounded, hexact.pruned.pairwise⟩
  · have hsame : Same caller (init limit width) (init limit width) := ⟨rfl, rfl, rfl⟩
    rw [answers_filter hsame, h, ← answers_filter hsame]

/-- A call as late as the window is long, with the first one still in. -/
theorem window_exact_cutoff :
    (((init 1 10).after [⟨7, 0⟩]).consume 7 10).2 = true ↔
      ((between 10 (10 - 10) (allowed 7 (init 1 10) [⟨7, 0⟩])).length : ℤ) < 1 :=
  (window_exact 1 10 [⟨7, 0⟩, ⟨7, 10⟩] (by simp)).1 [⟨7, 0⟩] [] ⟨7, 10⟩ rfl

end RateLimiter

end PilotLanggraph

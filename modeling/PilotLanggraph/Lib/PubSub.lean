import Mathlib.Data.List.Count
import Mathlib.Logic.Function.Basic

/-!
# Publishing to subscribers

Topics with their lists of subscribers, and what each subscriber was handed. One that stands in the
list of a topic several times is handed each of its messages as many times. `handed_foldl` says
what a subscriber of one topic was handed, and `heard_once` what that is if it entered once : the
messages published from then on until it left.
-/

namespace PubSub

variable {κ ι μ : Type*} [DecidableEq κ] [DecidableEq ι]

/-- What can happen. A subscriber that leaves is taken out once, if it is there. -/
inductive Event (κ ι μ : Type*)
  | enter (topic : κ) (i : ι)
  | leave (topic : κ) (i : ι)
  | publish (topic : κ) (m : μ)

/-- The subscribers of each topic, and what each was handed. -/
structure State (κ ι μ : Type*) where
  subscribers : κ → List ι
  handed : ι → List μ

/-- Hand a message to each of a list. -/
def hand (m : μ) (handed : ι → List μ) (subscribers : List ι) : ι → List μ :=
  subscribers.foldl (fun handed i => Function.update handed i (handed i ++ [m])) handed

namespace State

def init : State κ ι μ :=
  ⟨fun _ => [], fun _ => []⟩

def apply (s : State κ ι μ) : Event κ ι μ → State κ ι μ
  | .enter topic i =>
    { s with subscribers := Function.update s.subscribers topic (s.subscribers topic ++ [i]) }
  | .leave topic i =>
    { s with subscribers := Function.update s.subscribers topic ((s.subscribers topic).erase i) }
  | .publish topic m => { s with handed := hand m s.handed (s.subscribers topic) }

end State

/-- How often `i` is subscribed to the topic after an event, if it was `n` times. -/
def depth (topic : κ) (i : ι) (n : ℕ) : Event κ ι μ → ℕ
  | .enter topic' i' => if topic' = topic ∧ i' = i then n + 1 else n
  | .leave topic' i' => if topic' = topic ∧ i' = i then n - 1 else n
  | .publish _ _ => n

/-- The message of an event, if it is published under the topic. -/
def published? (topic : κ) : Event κ ι μ → Option μ
  | .publish topic' m => if topic' = topic then some m else none
  | _ => none

/-- What one is handed that is subscribed to the topic `n` times, and enters and leaves it as the
events say. -/
def heard (topic : κ) (i : ι) : ℕ → List (Event κ ι μ) → List μ
  | _, [] => []
  | n, e :: es => (published? topic e).toList.flatMap (List.replicate n) ++
    heard topic i (depth topic i n e) es

variable {topic : κ} {i : ι}

theorem hand_apply (m : μ) (i : ι) : ∀ (subscribers : List ι) (handed : ι → List μ),
    hand m handed subscribers i = handed i ++ List.replicate (subscribers.count i) m
  | [], handed => by simp [hand]
  | j :: subscribers, handed => by
    rw [hand, List.foldl_cons]
    refine (hand_apply m i subscribers _).trans ?_
    by_cases h : j = i
    · rw [h, Function.update_self, List.count_cons_self, List.append_assoc, List.replicate_succ]
      rfl
    · rw [Function.update_of_ne (Ne.symm h), List.count_cons_of_ne h]

/-- `i` is subscribed to one topic at most. -/
def Only (topic : κ) (i : ι) (s : State κ ι μ) : Prop :=
  ∀ topic', topic' ≠ topic → i ∉ s.subscribers topic'

/-- The event enters `i` nowhere else. -/
def Keeps (topic : κ) (i : ι) (e : Event κ ι μ) : Prop :=
  ∀ topic', e = .enter topic' i → topic' = topic

theorem only_apply {s : State κ ι μ} {e : Event κ ι μ} (h : Only topic i s)
    (he : Keeps topic i e) : Only topic i (s.apply e) := by
  intro topic' hne
  cases e with
  | enter topic₀ i₀ =>
    by_cases htopic : topic' = topic₀
    · have hi : i ≠ i₀ := by
        rintro rfl
        exact hne (htopic.trans (he topic₀ rfl))
      simp [State.apply, htopic, hi, htopic ▸ h topic' hne]
    · simp only [State.apply, Function.update_of_ne htopic]
      exact h topic' hne
  | leave topic₀ i₀ =>
    by_cases htopic : topic' = topic₀
    · simp only [State.apply, htopic, Function.update_self]
      exact fun hmem => h topic' hne (htopic ▸ List.mem_of_mem_erase hmem)
    · simp only [State.apply, Function.update_of_ne htopic]
      exact h topic' hne
  | publish topic₀ m => exact h topic' hne

theorem count_apply (s : State κ ι μ) (e : Event κ ι μ) :
    ((s.apply e).subscribers topic).count i = depth topic i ((s.subscribers topic).count i) e := by
  cases e with
  | enter topic₀ i₀ =>
    by_cases htopic : topic₀ = topic
    · subst htopic
      by_cases hi : i₀ = i
      · simp [State.apply, depth, hi]
      · simp [State.apply, depth, hi]
    · simp [State.apply, depth, htopic, Function.update_of_ne (Ne.symm htopic)]
  | leave topic₀ i₀ =>
    by_cases htopic : topic₀ = topic
    · subst htopic
      by_cases hi : i₀ = i
      · simp [State.apply, depth, hi, List.count_erase_self]
      · simp [State.apply, depth, hi, List.count_erase_of_ne (Ne.symm hi)]
    · simp [State.apply, depth, htopic, Function.update_of_ne (Ne.symm htopic)]
  | publish topic₀ m => rfl

theorem handed_apply {s : State κ ι μ} (h : Only topic i s) (e : Event κ ι μ) :
    (s.apply e).handed i = s.handed i ++
      (published? topic e).toList.flatMap (List.replicate ((s.subscribers topic).count i)) := by
  cases e with
  | enter topic₀ i₀ => simp [State.apply, published?]
  | leave topic₀ i₀ => simp [State.apply, published?]
  | publish topic₀ m =>
    simp only [State.apply, hand_apply, published?]
    by_cases htopic : topic₀ = topic
    · simp [htopic]
    · simp [htopic, List.count_eq_zero_of_not_mem (h topic₀ htopic)]

/-- What a subscriber of one topic was handed. -/
theorem handed_foldl : ∀ {es : List (Event κ ι μ)} {s : State κ ι μ}, Only topic i s →
    (∀ e ∈ es, Keeps topic i e) → (es.foldl State.apply s).handed i =
      s.handed i ++ heard topic i ((s.subscribers topic).count i) es
  | [], s, _, _ => by simp [heard]
  | e :: es, s, h, hkeeps => by
    obtain ⟨he, hes⟩ := List.forall_mem_cons.1 hkeeps
    rw [List.foldl_cons, handed_foldl (only_apply h he) hes, handed_apply h, count_apply, heard,
      List.append_assoc]

/-- An event that is neither an entry nor a departure of `i` leaves the count as it is. -/
theorem depth_of_ne {n : ℕ} {e : Event κ ι μ} (henter : e ≠ .enter topic i)
    (hleave : e ≠ .leave topic i ∨ n = 0) : depth topic i n e = n := by
  cases e with
  | enter topic₀ i₀ =>
    rw [depth, if_neg]
    rintro ⟨rfl, rfl⟩
    exact henter rfl
  | leave topic₀ i₀ =>
    rcases hleave with hleave | rfl
    · rw [depth, if_neg]
      rintro ⟨rfl, rfl⟩
      exact hleave rfl
    · simp [depth]
  | publish topic₀ m => rfl

/-- Nothing is heard before the first entry, -/
theorem heard_skip : ∀ {es : List (Event κ ι μ)} (rest : List (Event κ ι μ)),
    (∀ e ∈ es, e ≠ .enter topic i) → heard topic i 0 (es ++ rest) = heard topic i 0 rest
  | [], _, _ => rfl
  | e :: es, rest, h => by
    obtain ⟨he, hes⟩ := List.forall_mem_cons.1 h
    rw [List.cons_append, heard, depth_of_ne he (.inr rfl), heard_skip rest hes]
    simp

/-- and within a subscription every message of the topic. -/
theorem heard_one : ∀ {es : List (Event κ ι μ)} (rest : List (Event κ ι μ)),
    (∀ e ∈ es, e ≠ .enter topic i) → (∀ e ∈ es, e ≠ .leave topic i) →
    heard topic i 1 (es ++ rest) = es.filterMap (published? topic) ++ heard topic i 1 rest
  | [], _, _, _ => rfl
  | e :: es, rest, henter, hleave => by
    obtain ⟨he, hes⟩ := List.forall_mem_cons.1 henter
    obtain ⟨he', hes'⟩ := List.forall_mem_cons.1 hleave
    rw [List.cons_append, heard, depth_of_ne he (.inl he'), heard_one rest hes hes',
      List.filterMap_cons]
    cases published? topic e <;> simp

/-- One that enters once hears what is published from then on until it leaves. -/
theorem heard_once {before during after : List (Event κ ι μ)}
    (hbefore : ∀ e ∈ before, e ≠ .enter topic i) (hduring : ∀ e ∈ during, e ≠ .enter topic i)
    (hstays : ∀ e ∈ during, e ≠ .leave topic i)
    (hafter : after = [] ∨ ∃ rest, after = .leave topic i :: rest ∧
      ∀ e ∈ rest, e ≠ .enter topic i) :
    heard topic i 0 (before ++ .enter topic i :: (during ++ after)) =
      during.filterMap (published? topic) := by
  have henter : depth topic i 0 (.enter topic i : Event κ ι μ) = 1 := by simp [depth]
  rw [heard_skip _ hbefore, heard, henter, heard_one _ hduring hstays]
  rcases hafter with rfl | ⟨rest, rfl, hrest⟩
  · simp [heard, published?]
  · have hleave : depth topic i 1 (.leave topic i : Event κ ι μ) = 0 := by simp [depth]
    have hnothing : heard topic i 0 rest = [] := by
      simpa [heard] using heard_skip [] hrest
    rw [heard, hleave, hnothing]
    simp [published?]

end PubSub

import Mathlib.Logic.Function.Basic
import PilotLanggraph.Lib.Machine

/-!
# Coroutines as values

A call makes a coroutine, and a coroutine is a value : whoever holds it may await it, run it as a
task, return it, or drop it. It does nothing until it is begun, by a wait or as a task, and what it
then runs is the business of a `Script`, from a state that all coroutines share. Only the one that
began it by a wait hears its outcome, and of a task everyone does.

`step_congr` says what a step depends on, and `step_links` what it does to who made what and what
runs.
-/

namespace Awaitable

/-- What a coroutine hears after an operation. -/
inductive Answer (R X O : Type*)
  /-- The call has made the coroutine `w`. -/
  | made (w : ℕ)
  | heard (r : R)
  /-- The coroutine that was awaited has ended, -/
  | ended (o : O)
  /-- or something was raised instead. -/
  | threw (x : X)
  | spawned

/-- What a coroutine does next. -/
inductive Op (A E O : Type*)
  | perform (e : E)
  | call (arg : A)
  | await (w : ℕ)
  /-- Run a coroutine as a task. -/
  | spawn (w : ℕ)
  | finish (o : O)

/-- The next operation, from the argument and the replies so far. -/
abbrev Behaviour (A E R X O : Type*) :=
  A → List (Answer R X O) → Op A E O

/-- The behaviour begins nothing. -/
def Behaviour.Plain {A E R X O : Type*} (b : Behaviour A E R X O) : Prop :=
  ∀ arg replies w, b arg replies ≠ .await w ∧ b arg replies ≠ .spawn w

/-- The behaviour calls at most once. -/
def Behaviour.OneCall {A E R X O : Type*} (b : Behaviour A E R X O) : Prop :=
  ∀ arg replies w x, .made w ∈ replies → b arg replies ≠ .call x

/-- A coroutine. -/
structure Coro (P A R X O : Type*) where
  arg : A
  /-- The coroutine whose call made it. -/
  maker : Option ℕ
  /-- What it runs, once it is begun, -/
  prog : Option P
  /-- and the coroutine whose wait began it. A task has none. -/
  awaiter : Option ℕ
  replies : List (Answer R X O)
  outcome : Option O

/-- The coroutines, in the order in which they were made, and the effects so far. -/
structure Heap (σ P A E R X O : Type*) where
  shared : σ
  coros : List (Coro P A R X O)
  effects : List (ℕ × E)

/-- How programs behave, and which program begins next. -/
structure Script (σ P A E R X O : Type*) where
  behave : P → Behaviour A E R X O
  link : σ → P × σ

/-- One operation of a coroutine, with the reply of the environment. -/
inductive Move (R X : Type*)
  | perform (r : R)
  | call
  /-- The coroutine that is awaited begins, -/
  | begin
  /-- or has ended. -/
  | wake
  /-- The wait ends by an exception. -/
  | interrupt (x : X)
  | spawn
  | finish

variable {σ P A E R X O : Type*}

namespace Coro

/-- Hear a reply. -/
def hear (c : Coro P A R X O) (r : Answer R X O) : Coro P A R X O :=
  { c with replies := c.replies ++ [r] }

/-- The next operation, of a coroutine that is running. -/
def op? (sc : Script σ P A E R X O) (c : Coro P A R X O) : Option (Op A E O) :=
  match c.prog, c.outcome with
  | some p, none => some (sc.behave p c.arg c.replies)
  | _, _ => none

theorem of_op? {sc : Script σ P A E R X O} {c : Coro P A R X O} {op : Op A E O}
    (h : c.op? sc = some op) : ∃ p, c.prog = some p ∧ sc.behave p c.arg c.replies = op := by
  unfold op? at h
  split at h
  · rename_i p hprog _
    exact ⟨p, hprog, Option.some.inj h⟩
  · cases h

/-- A program that begins nothing. -/
theorem not_begins {sc : Script σ P A E R X O} {c : Coro P A R X O} {p : P}
    (hp : c.prog = some p) (hplain : (sc.behave p).Plain) (w : ℕ) :
    ¬(c.op? sc = some (.await w) ∨ c.op? sc = some (.spawn w)) := by
  rintro (hop | hop)
  · obtain ⟨p', hp', hop⟩ := of_op? hop
    obtain rfl := Option.some.inj (hp.symm.trans hp')
    exact (hplain _ _ _).1 hop
  · obtain ⟨p', hp', hop⟩ := of_op? hop
    obtain rfl := Option.some.inj (hp.symm.trans hp')
    exact (hplain _ _ _).2 hop

end Coro

namespace Heap

/-- A program that runs, with its argument. -/
def start (sc : Script σ P A E R X O) (shared : σ) (arg : A) : Heap σ P A E R X O :=
  ⟨(sc.link shared).2, [⟨arg, none, some (sc.link shared).1, none, [], none⟩], []⟩

/-- The coroutine `w` begins. -/
def begin (sc : Script σ P A E R X O) (s : Heap σ P A E R X O) (awaiter : Option ℕ) (w : ℕ) :
    Option (Heap σ P A E R X O) :=
  s.coros[w]?.bind fun c =>
    if c.prog.isSome then none
    else
      some { s with
        shared := (sc.link s.shared).2
        coros := s.coros.set w { c with prog := some (sc.link s.shared).1, awaiter } }

/-- The outcome of the coroutine `w`, as far as `x` can hear it. -/
def outcome? (s : Heap σ P A E R X O) (x w : ℕ) : Option O :=
  s.coros[w]?.bind fun c => if c.awaiter = none ∨ c.awaiter = some x then c.outcome else none

/-- An operation of the coroutine `x`, which stands as `c`. -/
def after (sc : Script σ P A E R X O) (s : Heap σ P A E R X O) (x : ℕ) (c : Coro P A R X O) :
    Op A E O → Move R X → Option (Heap σ P A E R X O)
  | .perform e, .perform r =>
    some { s with coros := s.coros.set x (c.hear (.heard r)), effects := s.effects ++ [(x, e)] }
  | .call arg, .call =>
    some { s with
      coros := s.coros.set x (c.hear (.made s.coros.length)) ++
        [⟨arg, some x, none, none, [], none⟩] }
  | .await w, .begin => s.begin sc (some x) w
  | .await w, .wake =>
    (s.outcome? x w).map fun o => { s with coros := s.coros.set x (c.hear (.ended o)) }
  | .await _, .interrupt e => some { s with coros := s.coros.set x (c.hear (.threw e)) }
  | .spawn w, .spawn => { s with coros := s.coros.set x (c.hear .spawned) }.begin sc none w
  | .finish o, .finish => some { s with coros := s.coros.set x { c with outcome := some o } }
  | _, _ => none

/-- One action, if it can happen. -/
def step (sc : Script σ P A E R X O) (s : Heap σ P A E R X O) (a : ℕ × Move R X) :
    Option (Heap σ P A E R X O) :=
  s.coros[a.1]?.bind fun c => (c.op? sc).bind fun op => s.after sc a.1 c op a.2

section

variable {sc sc' : Script σ P A E R X O} {s s' : Heap σ P A E R X O}

theorem step_of_op? {a : ℕ × Move R X} {c : Coro P A R X O} {op : Op A E O}
    (hc : s.coros[a.1]? = some c) (hop : c.op? sc = some op) :
    s.step sc a = s.after sc a.1 c op a.2 := by
  rw [step, hc, Option.bind_some, hop, Option.bind_some]

/-- A step depends on the script by what begins next and by what the coroutine does next. -/
theorem step_congr {a : ℕ × Move R X} (hlink : sc.link = sc'.link)
    (h : ∀ c ∈ s.coros[a.1]?, c.op? sc = c.op? sc') : s.step sc a = s.step sc' a := by
  unfold step
  cases hc : s.coros[a.1]? with
  | none => rfl
  | some c =>
    have hafter : ∀ op, s.after sc a.1 c op a.2 = s.after sc' a.1 c op a.2 := by
      intro op
      unfold after begin
      rw [hlink]
    rw [Option.bind_some, Option.bind_some, h c hc]
    simp only [hafter]

/-- Who made each coroutine, and what it runs. -/
def links (s : Heap σ P A E R X O) : List (Option ℕ × Option P) :=
  s.coros.map fun c => (c.maker, c.prog)

/-- What a step of the coroutine `x`, which stands as `c`, does to the links : nothing, or it makes
a coroutine, or it begins one. -/
inductive Links (sc : Script σ P A E R X O) (s : Heap σ P A E R X O) (x : ℕ) (c : Coro P A R X O)
    (s' : Heap σ P A E R X O) : Prop
  | same (hshared : s'.shared = s.shared) (h : s'.links = s.links)
  | made (arg : A) (hop : c.op? sc = some (.call arg)) (hshared : s'.shared = s.shared)
    (hheard : ∃ c', s'.coros[x]? = some c' ∧ .made s.coros.length ∈ c'.replies)
    (h : s'.links = s.links ++ [(some x, none)])
  | begun (w : ℕ) (maker : Option ℕ)
    (hop : c.op? sc = some (.await w) ∨ c.op? sc = some (.spawn w))
    (hw : s.links[w]? = some (maker, none)) (hshared : s'.shared = (sc.link s.shared).2)
    (h : s'.links = s.links.set w (maker, some (sc.link s.shared).1))

theorem links_hear {x : ℕ} {c : Coro P A R X O} (hc : s.coros[x]? = some c)
    (c' : Coro P A R X O) (h : (c'.maker, c'.prog) = (c.maker, c.prog)) :
    (s.coros.set x c').map (fun c => (c.maker, c.prog)) = s.links := by
  obtain ⟨hlt, rfl⟩ := List.getElem?_eq_some_iff.1 hc
  have hlinks : x < s.links.length := by simpa [links] using hlt
  have hself : s.links.set x s.links[x] = s.links := List.set_getElem_self hlinks
  rw [List.map_set, h]
  simpa only [links, List.getElem_map] using hself

theorem links_begin {awaiter : Option ℕ} {w : ℕ} (h : s.begin sc awaiter w = some s') :
    ∃ maker, s.links[w]? = some (maker, none) ∧ s'.shared = (sc.link s.shared).2 ∧
      s'.links = s.links.set w (maker, some (sc.link s.shared).1) := by
  obtain ⟨d, hd, h⟩ := Option.bind_eq_some_iff.1 h
  split_ifs at h with hprog
  obtain rfl := Option.some.inj h
  have hnone : d.prog = none := by simpa using hprog
  refine ⟨d.maker, ?_, rfl, List.map_set⟩
  rw [links, List.getElem?_map, hd, Option.map_some, hnone]

theorem step_links {a : ℕ × Move R X} (h : s.step sc a = some s') :
    ∃ c, s.coros[a.1]? = some c ∧ c.prog ≠ none ∧ Links sc s a.1 c s' := by
  obtain ⟨c, hc, h⟩ := Option.bind_eq_some_iff.1 h
  obtain ⟨op, hop, h⟩ := Option.bind_eq_some_iff.1 h
  refine ⟨c, hc, fun hnone => ?_, ?_⟩
  · unfold Coro.op? at hop
    rw [hnone] at hop
    cases hop
  unfold after at h
  split at h
  · obtain rfl := Option.some.inj h
    exact .same rfl (links_hear hc _ rfl)
  · obtain rfl := Option.some.inj h
    have hlt := (List.getElem?_eq_some_iff.1 hc).1
    refine .made _ hop rfl ⟨c.hear (.made s.coros.length), ?_, by simp [Coro.hear]⟩ ?_
    · rw [List.getElem?_append_left (by rwa [List.length_set]), List.getElem?_set_self hlt]
    · rw [links, List.map_append, links_hear hc (c.hear _) rfl]
      rfl
  · obtain ⟨maker, hw, hshared, hlinks⟩ := links_begin h
    exact .begun _ maker (.inl hop) hw hshared hlinks
  · obtain ⟨o, -, rfl⟩ := Option.map_eq_some_iff.1 h
    exact .same rfl (links_hear hc _ rfl)
  · obtain rfl := Option.some.inj h
    exact .same rfl (links_hear hc _ rfl)
  · obtain ⟨maker, hw, hshared, hlinks⟩ := links_begin h
    have hsame : links { s with coros := s.coros.set a.1 (c.hear .spawned) } = s.links :=
      links_hear hc _ rfl
    rw [hsame] at hw hlinks
    exact .begun _ maker (.inr hop) hw hshared hlinks
  · obtain rfl := Option.some.inj h
    exact .same rfl (links_hear hc _ rfl)
  · cases h

/-- What a coroutine has heard, it has heard. -/
theorem step_replies {a : ℕ × Move R X} (h : s.step sc a = some s') {j : ℕ} {d : Coro P A R X O}
    (hd : s.coros[j]? = some d) : ∃ d', s'.coros[j]? = some d' ∧ d.replies <+: d'.replies := by
  obtain ⟨c, hc, h⟩ := Option.bind_eq_some_iff.1 h
  obtain ⟨op, -, h⟩ := Option.bind_eq_some_iff.1 h
  have hset : ∀ {coros : List (Coro P A R X O)} {x : ℕ} {c c' : Coro P A R X O},
      coros[x]? = some c → c.replies <+: c'.replies → ∀ {d}, coros[j]? = some d →
        ∃ d', (coros.set x c')[j]? = some d' ∧ d.replies <+: d'.replies := by
    intro coros x c c' hc hreplies d hd
    rw [List.getElem?_set]
    split_ifs with hx hlt
    · subst hx
      obtain rfl := Option.some.inj (hc.symm.trans hd)
      exact ⟨c', rfl, hreplies⟩
    · exact absurd (List.getElem?_eq_some_iff.1 hc).1 (hx ▸ hlt)
    · exact ⟨d, hd, List.prefix_rfl⟩
  have hbegin : ∀ {t : Heap σ P A E R X O} {awaiter : Option ℕ} {w : ℕ},
      t.begin sc awaiter w = some s' → ∀ {d}, t.coros[j]? = some d →
        ∃ d', s'.coros[j]? = some d' ∧ d.replies <+: d'.replies := by
    intro t awaiter w h d hd
    obtain ⟨e, he, h⟩ := Option.bind_eq_some_iff.1 h
    split_ifs at h
    obtain rfl := Option.some.inj h
    refine hset he ?_ hd
    exact List.prefix_rfl
  have hhear : ∀ r, c.replies <+: (c.hear r).replies := fun r => List.prefix_append _ _
  unfold after at h
  split at h
  · obtain rfl := Option.some.inj h
    exact hset hc (hhear _) hd
  · obtain rfl := Option.some.inj h
    obtain ⟨d', hd', hreplies⟩ := hset hc (hhear (.made s.coros.length)) hd
    exact ⟨d', by rw [List.getElem?_append_left (List.getElem?_eq_some_iff.1 hd').1, hd'], hreplies⟩
  · exact hbegin h hd
  · obtain ⟨o, -, rfl⟩ := Option.map_eq_some_iff.1 h
    exact hset hc (hhear _) hd
  · obtain rfl := Option.some.inj h
    exact hset hc (hhear _) hd
  · obtain ⟨d', hd', hreplies⟩ := hset hc (hhear .spawned) hd
    obtain ⟨d'', hd'', hmore⟩ := hbegin h hd'
    exact ⟨d'', hd'', hreplies.trans hmore⟩
  · obtain rfl := Option.some.inj h
    refine hset hc ?_ hd
    exact List.prefix_rfl
  · cases h

/-! ## Who has made what -/

/-- Makers have begun, and have heard that they have made something. -/
def Called (s : Heap σ P A E R X O) : Prop :=
  ∀ (w x : ℕ) (q : Option P), s.links[w]? = some (some x, q) →
    (∃ maker p, s.links[x]? = some (maker, some p)) ∧
      ∃ c, s.coros[x]? = some c ∧ ∃ v, .made v ∈ c.replies

/-- What has begun stays so. -/
theorem Links.keeps {x : ℕ} {c : Coro P A R X O} (h : Links sc s x c s') {j : ℕ}
    {maker : Option ℕ} {p : P} (hj : s.links[j]? = some (maker, some p)) :
    s'.links[j]? = some (maker, some p) := by
  cases h with
  | same _ hsame => rwa [hsame]
  | made arg hop _ _ hmade =>
    rw [hmade, List.getElem?_append_left (List.getElem?_eq_some_iff.1 hj).1, hj]
  | begun w maker' hop hw _ hbegun =>
    have hne : w ≠ j := by
      rintro rfl
      rw [hw] at hj
      cases hj
    rw [hbegun, List.getElem?_set_ne hne, hj]

/-- Each coroutine was there, or the step has made it. -/
theorem Links.maker {x : ℕ} {c : Coro P A R X O} (h : Links sc s x c s') {w : ℕ}
    {maker : Option ℕ} {q : Option P} (hw : s'.links[w]? = some (maker, q)) :
    (∃ q', s.links[w]? = some (maker, q')) ∨
      w = s.links.length ∧ maker = some x ∧ q = none ∧ (∃ arg, c.op? sc = some (.call arg)) ∧
        ∃ c', s'.coros[x]? = some c' ∧ ∃ v, .made v ∈ c'.replies := by
  cases h with
  | same _ hsame => exact .inl ⟨q, by rwa [hsame] at hw⟩
  | made arg hop _ hheard hmade =>
    rw [hmade, List.getElem?_append] at hw
    split_ifs at hw with hlt
    · exact .inl ⟨q, hw⟩
    · obtain ⟨hlen, hnew⟩ := List.getElem?_eq_some_iff.1 hw
      rw [List.length_singleton] at hlen
      rw [List.getElem_singleton, Prod.mk.injEq] at hnew
      obtain ⟨c', hc', hmem⟩ := hheard
      exact .inr ⟨by omega, hnew.1.symm, hnew.2.symm, ⟨arg, hop⟩, c', hc', _, hmem⟩
  | begun w' maker' hop hw' _ hbegun =>
    rw [hbegun, List.getElem?_set] at hw
    split_ifs at hw with heq hlt
    · obtain ⟨rfl, -⟩ := Prod.mk.inj (Option.some.inj hw)
      exact .inl ⟨none, heq ▸ hw'⟩
    · exact .inl ⟨q, hw⟩

theorem links_of_prog {x : ℕ} {c : Coro P A R X O} (hc : s.coros[x]? = some c)
    (hprog : c.prog ≠ none) : ∃ p, c.prog = some p ∧ s.links[x]? = some (c.maker, some p) := by
  obtain ⟨p, hp⟩ := Option.ne_none_iff_exists'.1 hprog
  exact ⟨p, hp, by rw [links, List.getElem?_map, hc, Option.map_some, hp]⟩

theorem called_start (sc : Script σ P A E R X O) (shared : σ) (arg : A) :
    Called (start sc shared arg : Heap σ P A E R X O) := by
  intro w x q hw
  have hmem := List.mem_of_getElem? hw
  simp [start, links] at hmem

theorem called_step {a : ℕ × Move R X} (h : Called s) (hstep : s.step sc a = some s') :
    Called s' := by
  obtain ⟨c, hc, hprog, hlinks⟩ := step_links hstep
  intro w x q hw
  rcases hlinks.maker hw with ⟨q', hw'⟩ | ⟨-, hmaker, -, -, hheard⟩
  · obtain ⟨⟨maker, p, hx⟩, d, hd, v, hv⟩ := h w x q' hw'
    obtain ⟨d', hd', hreplies⟩ := step_replies hstep hd
    exact ⟨⟨maker, p, hlinks.keeps hx⟩, d', hd', v, hreplies.subset hv⟩
  · obtain rfl := Option.some.inj hmaker
    obtain ⟨p, -, hx⟩ := links_of_prog hc hprog
    exact ⟨⟨c.maker, p, hlinks.keeps hx⟩, hheard⟩

/-- A maker stays what it was. -/
theorem Called.link {x y w : ℕ} {c : Coro P A R X O} {q : Option P} {l : Option ℕ × Option P}
    (h : Called s) (hlinks : Links sc s x c s') (hw : s.links[w]? = some (some y, q))
    (hy : s'.links[y]? = some l) : s.links[y]? = some l := by
  obtain ⟨⟨maker, p, hold⟩, -⟩ := h w y q hw
  rw [hold, ← hlinks.keeps hold, hy]

/-- A maker that runs one of these programs has made one coroutine. -/
def MadeOnce (once : P → Prop) (s : Heap σ P A E R X O) : Prop :=
  ∀ (w w' x : ℕ) (q q' : Option P) (maker : Option ℕ) (p : P),
    s.links[w]? = some (some x, q) → s.links[w']? = some (some x, q') →
      s.links[x]? = some (maker, some p) → once p → w = w'

theorem madeOnce_start {once : P → Prop} (sc : Script σ P A E R X O) (shared : σ) (arg : A) :
    MadeOnce once (start sc shared arg : Heap σ P A E R X O) := by
  intro w w' x q q' maker p hw
  have hmem := List.mem_of_getElem? hw
  simp [start, links] at hmem

theorem madeOnce_step {once : P → Prop} (honce : ∀ p, once p → (sc.behave p).OneCall)
    {a : ℕ × Move R X} (hcalled : Called s) (h : MadeOnce once s)
    (hstep : s.step sc a = some s') : MadeOnce once s' := by
  obtain ⟨c, hc, hprog, hlinks⟩ := step_links hstep
  obtain ⟨p₀, hp₀, hx₀⟩ := links_of_prog hc hprog
  -- What makes a coroutine now had made none.
  have hfirst : ∀ {w : ℕ} {q : Option P}, s.links[w]? = some (some a.1, q) →
      (∃ arg, c.op? sc = some (.call arg)) → ¬once p₀ := by
    rintro w q hw ⟨arg, hop⟩ hp
    obtain ⟨-, d, hd, v, hv⟩ := hcalled w a.1 q hw
    obtain rfl := Option.some.inj (hc.symm.trans hd)
    obtain ⟨p, hp', hop⟩ := Coro.of_op? hop
    obtain rfl := Option.some.inj (hp₀.symm.trans hp')
    exact honce p₀ hp _ _ v arg hv hop
  intro w w' x q q' maker p hw hw' hx hp
  have hnew : ∀ {w : ℕ} {q : Option P}, s.links[w]? = some (some x, q) → some x = some a.1 →
      (∃ arg, c.op? sc = some (.call arg)) → False := by
    intro w q hw hxa hop
    obtain rfl := Option.some.inj hxa
    have hsame := hx₀.symm.trans (hcalled.link hlinks hw hx)
    rw [Option.some.injEq, Prod.mk.injEq, Option.some.injEq] at hsame
    exact hfirst hw hop (hsame.2 ▸ hp)
  rcases hlinks.maker hw with ⟨r, hr⟩ | ⟨hlen, hxa, -, hop, -⟩
  · rcases hlinks.maker hw' with ⟨r', hr'⟩ | ⟨hlen', hxa, -, hop, -⟩
    · exact h w w' x r r' maker p hr hr' (hcalled.link hlinks hr hx) hp
    · exact (hnew hr hxa hop).elim
  · rcases hlinks.maker hw' with ⟨r', hr'⟩ | ⟨hlen', -⟩
    · exact (hnew hr' hxa hop).elim
    · exact hlen.trans hlen'.symm

/-- A coroutine is begun by its maker alone. -/
def BeginsOwn (sc : Script σ P A E R X O) (s : Heap σ P A E R X O) (a : ℕ × Move R X) : Prop :=
  ∀ c ∈ s.coros[a.1]?, ∀ w, c.op? sc = some (.await w) ∨ c.op? sc = some (.spawn w) →
    ∀ maker q, s.links[w]? = some (maker, q) → maker = some a.1

end

end Heap

end Awaitable

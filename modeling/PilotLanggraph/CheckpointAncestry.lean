import PilotLanggraph.CheckpointFilter

/-!
# Going back in time

`alist` and `aget_tuple` are two views of one history. `alist_agrees` says that for either store,
after any calls, `aget_tuple` finds on a thread and namespace the checkpoints that `alist` yields,
each as it is listed, and no others; without an id it finds the first of them. Where each `aput`
was given the config that the one before it returned, the list is the line of ancestors : the
parent config of each tuple is the config of the next, and the last has none.
-/

namespace PilotLanggraph

/-- The rows of a thread and namespace have distinct ids. -/
theorem History.distinct_rowsAt (h : History) (k : String × String) :
    Keyed.Distinct Checkpoint.cid (h.rowsAt k) := by
  have hkeys : ((h.rowsAt k).map Checkpoint.key).Nodup :=
    h.distinct.sublist (List.filter_sublist.map _)
  refine List.Nodup.map_on (fun c hc d hd hcid => ?_) hkeys.of_map
  have hspace : c.space = d.space :=
    (of_decide_eq_true (List.mem_filter.1 hc).2).trans
      (of_decide_eq_true (List.mem_filter.1 hd).2).symm
  simp only [Checkpoint.space, Prod.mk.injEq] at hspace
  refine List.inj_on_of_nodup_map hkeys hc hd ?_
  rw [Checkpoint.key, Checkpoint.key, hspace.1, hspace.2, hcid]

namespace Saver

variable {C M V : Type} {sv : Saver C M V} {b : Backend}

/-- The checkpoints that were put on a thread and namespace, in order. -/
def putsOn (sv : Saver C M V) (k : String × String) (calls : List (SaverCall C M V)) :
    List (Stored C M) :=
  (calls.filterMap sv.stored?).filter fun x => (x.thread, x.ns) = k

/-- Each has the one before it as its parent, and the first has `parent`. -/
def Lineage : Option String → List (Stored C M) → Prop
  | _, [] => True
  | parent, x :: xs => x.parentCid = parent ∧ x.cid ≠ "" ∧ Lineage (some x.cid) xs

/-- If no id was put twice, what is stored is what was put. -/
theorem stored_of_nodup {k : String × String} {calls : List (SaverCall C M V)}
    (h : ((sv.putsOn k calls).map Stored.cid).Nodup) :
    (sv.stored calls).filter (fun x => (x.thread, x.ns) = k) = sv.putsOn k calls := by
  refine Keyed.filter_foldl_replace _ (fun x y hy => ?_) ?_
  · simp only [Stored.key, Prod.mk.injEq] at hy
    rw [hy.1, hy.2.1]
  · refine List.Nodup.of_map (fun key : String × String × String => key.2.2) ?_
    rw [List.map_map]
    exact h

/-! ## `aget_tuple` -/

theorem rowsAt_run (k : String × String) (calls : List (SaverCall C M V)) :
    (History.empty.run b (calls.filterMap sv.request?)).rowsAt k =
      ((sv.stored calls).filter fun x => (x.thread, x.ns) = k).map (Stored.row sv) := by
  rw [History.rowsAt, checkpoints_run, List.filter_map]
  rfl

/-- What `aget_tuple` makes of a checkpoint that the store finds. -/
theorem agetTuple_stored (b : Backend) {calls : List (SaverCall C M V)}
    (hserde : sv.RoundTrips calls) (hwrites : ∀ call ∈ calls, call.WritesSome)
    {x : Stored C M} (hx : x ∈ sv.stored calls) {cid : Option String}
    (hsel : (History.empty.run b (calls.filterMap sv.request?)).select ⟨x.thread, some x.ns, cid⟩ =
      some (x.row sv)) :
    ∃ pending, sv.agetTuple b (sv.run b calls) ⟨x.thread, some x.ns, cid⟩ =
      some (some { (x.tuple : CheckpointTuple C M V) with pendingWrites := pending }) := by
  obtain ⟨call, hcall, hstored⟩ := List.mem_filterMap.1
    ((Keyed.mem_of_mem_foldl_replace hx).resolve_right List.not_mem_nil)
  cases call with
  | agetTuple cfg => cases hstored
  | aputWrites cfg ws task path => cases hstored
  | aput cfg c m nv =>
    obtain rfl := Option.some.inj hstored
    exact sv.agetTuple_of_select b hserde hwrites ⟨cfg.threadId, some cfg.ns, cid⟩ hcall hsel

theorem agetTuple_of_select_none (b : Backend) {calls : List (SaverCall C M V)} {thread ns : String}
    {cid : Option String}
    (hsel : (History.empty.run b (calls.filterMap sv.request?)).select ⟨thread, some ns, cid⟩ =
      none) :
    sv.agetTuple b (sv.run b calls) ⟨thread, some ns, cid⟩ = some none := by
  have hreply := (b.handle_refines (b.run_refines (calls.filterMap sv.request?) b.init_refines)
    (.getTuple ⟨thread, some ns, cid⟩)).2
  rw [agetTuple, run_eq]
  simp only [Config.ns, Option.getD_some, hreply, History.reply, History.getTuple, hsel]

/-- The listing without `before` : what is stored on the thread and namespace, newest first. -/
theorem listing_none (k : String × String) (calls : List (SaverCall C M V)) :
    sv.listing k none calls = ((sv.stored calls).filter fun x => (x.thread, x.ns) = k).reverse :=
  rfl

/-- Without an id the store finds the first of the listing, -/
theorem select_newest (calls : List (SaverCall C M V)) (thread ns : String) :
    (History.empty.run b (calls.filterMap sv.request?)).select ⟨thread, some ns, none⟩ =
      (sv.listing (thread, ns) none calls).head?.map (Stored.row sv) := by
  rw [listing_none, List.head?_reverse, ← List.getLast?_map, ← rowsAt_run]
  rfl

/-- with the id of one that one, -/
theorem select_of_mem {calls : List (SaverCall C M V)} {thread ns : String} {x : Stored C M}
    (hx : x ∈ sv.listing (thread, ns) none calls) :
    (History.empty.run b (calls.filterMap sv.request?)).select ⟨thread, some ns, some x.cid⟩ =
      some (x.row sv) := by
  have hrow : x.row sv ∈
      (History.empty.run b (calls.filterMap sv.request?)).rowsAt (thread, ns) := by
    rw [listing_none, List.mem_reverse] at hx
    rw [rowsAt_run]
    exact List.mem_map_of_mem hx
  exact Keyed.find?_key_of_mem (History.distinct_rowsAt _ _) hrow

/-- and with another id none. -/
theorem select_of_not_mem {calls : List (SaverCall C M V)} {thread ns cid : String}
    (h : ∀ x ∈ sv.listing (thread, ns) none calls, x.cid ≠ cid) :
    (History.empty.run b (calls.filterMap sv.request?)).select ⟨thread, some ns, some cid⟩ =
      none := by
  refine List.find?_eq_none.2 fun row hrow => ?_
  change row ∈ (History.empty.run b (calls.filterMap sv.request?)).rowsAt (thread, ns) at hrow
  rw [rowsAt_run] at hrow
  obtain ⟨x, hx, rfl⟩ := List.mem_map.1 hrow
  have hne := h x (by rw [listing_none, List.mem_reverse]; exact hx)
  exact fun hcid => hne (of_decide_eq_true hcid)

/-! ## The line of ancestors -/

/-- The parent of the first of a line. -/
theorem parent_of_lineage {parent : Option String} {xs : List (Stored C M)}
    (h : Lineage parent xs) {x : Stored C M} (hx : x ∈ xs.head?) : x.parentCid = parent := by
  cases xs with
  | nil => cases hx
  | cons y ys =>
    obtain rfl : y = x := by simpa using hx
    exact h.1

/-- The tuples of a line of ancestors, newest first. -/
theorem chain_of_lineage {thread ns : String} : ∀ {xs : List (Stored C M)} {parent : Option String},
    Lineage parent xs → (∀ x ∈ xs, x.thread = thread ∧ x.ns = ns) →
      (xs.map Stored.tuple).reverse.IsChain fun t t' : CheckpointTuple C M V =>
        t.parentConfig = some t'.config
  | [], _, _, _ => by simp
  | x :: xs, parent, h, hspace => by
    obtain ⟨-, hcid, hxs⟩ := h
    obtain ⟨⟨hthread, hns⟩, hrest⟩ := List.forall_mem_cons.1 hspace
    have hchain := chain_of_lineage hxs hrest
    rw [List.map_cons, List.reverse_cons, List.isChain_append]
    refine ⟨hchain, List.isChain_singleton _, fun t ht t' ht' => ?_⟩
    obtain rfl : x.tuple = t' := by simpa using ht'
    rw [List.getLast?_reverse, List.head?_map] at ht
    obtain ⟨y, hy, rfl⟩ := Option.map_eq_some_iff.1 ht
    obtain ⟨hthread', hns'⟩ := hrest y (List.mem_of_mem_head? hy)
    have hparent := parent_of_lineage hxs hy
    simp [Stored.tuple, hparent, truthyId, hcid, hthread, hns, hthread', hns']

/-- For either store, after any calls that hand over writes only where there are some : every tuple
that `alist` yields for a thread and namespace is the one that `aget_tuple` finds with its config,
but for the pending writes; with an id that is not listed nothing is found, and without an id the
first that is listed. If no id was put twice, the first `aput` had no checkpoint id in its config
and each later one the config of the one before it, then the list is what was put, newest first,
and each tuple has the config of the next as its parent, and the last none. -/
theorem alist_agrees (b : Backend) {calls : List (SaverCall C M V)} (hserde : sv.RoundTrips calls)
    (hwrites : ∀ call ∈ calls, call.WritesSome) (thread ns : String) :
    ∃ ts, sv.alist (W := Unit) b (sv.run b calls) (some ⟨thread, some ns, none⟩) none none none =
        (ts, true) ∧
      (∀ t ∈ ts, ∃ pending, sv.agetTuple b (sv.run b calls) t.config =
        some (some { t with pendingWrites := pending })) ∧
      (∀ cid, (∀ t ∈ ts, t.config.checkpointId ≠ some cid) →
        sv.agetTuple b (sv.run b calls) ⟨thread, some ns, some cid⟩ = some none) ∧
      (ts = [] → sv.agetTuple b (sv.run b calls) ⟨thread, some ns, none⟩ = some none) ∧
      (∀ t ∈ ts.head?, ∃ pending, sv.agetTuple b (sv.run b calls) ⟨thread, some ns, none⟩ =
        some (some { t with pendingWrites := pending })) ∧
      (((sv.putsOn (thread, ns) calls).map Stored.cid).Nodup →
        Lineage none (sv.putsOn (thread, ns) calls) →
          ts = ((sv.putsOn (thread, ns) calls).map Stored.tuple).reverse ∧
          (ts.IsChain fun t t' => t.parentConfig = some t'.config) ∧
          ∀ t ∈ ts.getLast?, t.parentConfig = none) := by
  have hlist := sv.alist_eq (W := Unit) b hserde thread ns none none none
    (by simp : ∀ n ∈ (none : Option ℤ), 1 ≤ n)
  rw [if_pos b.takes_none] at hlist
  have hspace : ∀ x ∈ sv.listing (thread, ns) none calls, x.thread = thread ∧ x.ns = ns := by
    intro x hx
    rw [listing_none, List.mem_reverse] at hx
    exact Prod.mk.inj (of_decide_eq_true (List.mem_filter.1 hx).2)
  refine ⟨(sv.listing (thread, ns) none calls).map Stored.tuple, hlist, ?_, ?_, ?_, ?_, ?_⟩
  · intro t ht
    obtain ⟨x, hx, rfl⟩ := List.mem_map.1 ht
    obtain ⟨hthread, hns⟩ := hspace x hx
    have hsel := select_of_mem (b := b) hx
    rw [← hthread, ← hns] at hsel
    exact agetTuple_stored b hserde hwrites (mem_stored_of_mem_listing hx) hsel
  · intro cid hcid
    refine agetTuple_of_select_none b (select_of_not_mem fun x hx heq => ?_)
    exact hcid x.tuple (List.mem_map_of_mem hx) (congrArg some heq)
  · intro hnil
    refine agetTuple_of_select_none b ?_
    rw [select_newest, List.map_eq_nil_iff.1 hnil]
    rfl
  · intro t ht
    rw [List.head?_map] at ht
    obtain ⟨x, hx, rfl⟩ := Option.map_eq_some_iff.1 ht
    have hmem := List.mem_of_mem_head? hx
    obtain ⟨hthread, hns⟩ := hspace x hmem
    have hsel : (History.empty.run b (calls.filterMap sv.request?)).select
        ⟨x.thread, some x.ns, none⟩ = some (x.row sv) := by
      rw [hthread, hns, select_newest, hx, Option.map_some]
    have hget := agetTuple_stored b hserde hwrites (mem_stored_of_mem_listing hmem) hsel
    rwa [hthread, hns] at hget
  · intro hnodup hlineage
    have hputs : sv.listing (thread, ns) none calls = (sv.putsOn (thread, ns) calls).reverse := by
      rw [listing_none, stored_of_nodup hnodup]
    rw [hputs] at hspace ⊢
    rw [List.map_reverse]
    refine ⟨rfl, chain_of_lineage hlineage fun x hx => hspace x (List.mem_reverse.2 hx), ?_⟩
    intro t ht
    rw [List.getLast?_reverse, List.head?_map] at ht
    obtain ⟨x, hx, rfl⟩ := Option.map_eq_some_iff.1 ht
    simp [Stored.tuple, parent_of_lineage hlineage hx, truthyId]

/-- A serialiser for the checkpoints `{"id": "1"}` and `{"id": "2"}`, and empty metadata. -/
def twoSerde : Serde Bool Unit String where
  dumpsTyped
    | .checkpoint second => ("msgpack", [129, 162, 105, 100, 161, if second then 50 else 49])
    | .metadata _ => ("msgpack", [128])
    | .writes _ => ("msgpack", [144])
  loadsTyped := fun p =>
    match p.2 with
    | [129, 162, 105, 100, 161, 49] => some (.checkpoint false)
    | [129, 162, 105, 100, 161, 50] => some (.checkpoint true)
    | [128] => some (.metadata ())
    | [144] => some (.writes [])
    | _ => none

def twoSaver : Saver Bool Unit String :=
  ⟨twoSerde, fun second => if second then "2" else "1"⟩

/-- A put, and a second one with the config that the first returned. -/
def twoPuts : List (SaverCall Bool Unit String) :=
  [.aput ⟨"t", none, none⟩ false () ⟨.obj [], List.nodup_nil, trivial⟩,
    .aput ⟨"t", some "", some "1"⟩ true () ⟨.obj [], List.nodup_nil, trivial⟩]

theorem alist_agrees_twoPuts :
    ∃ newest oldest pending, twoSaver.alist (W := Unit) .memory (twoSaver.run .memory twoPuts)
        (some ⟨"t", some "", none⟩) none none none = ([newest, oldest], true) ∧
      newest.parentConfig = some oldest.config ∧ oldest.parentConfig = none ∧
      twoSaver.agetTuple .memory (twoSaver.run .memory twoPuts) ⟨"t", some "", none⟩ =
        some (some { newest with pendingWrites := pending }) := by
  have hserde : twoSaver.RoundTrips twoPuts := by
    intro v hv
    simp only [twoPuts, dumped, List.flatMap_cons, List.flatMap_nil, List.append_nil,
      List.cons_append, List.nil_append, List.mem_cons, List.not_mem_nil, or_false] at hv
    rcases hv with rfl | rfl | rfl | rfl
    · rfl
    · rfl
    · rfl
    · rfl
  obtain ⟨ts, hlist, -, -, -, hnewest, hline⟩ := alist_agrees .memory hserde
    (by simp [twoPuts, SaverCall.WritesSome]) "t" ""
  obtain ⟨rfl, hchain, hlast⟩ := hline (by decide) ⟨rfl, by decide, rfl, by decide, trivial⟩
  obtain ⟨pending, hget⟩ := hnewest _ rfl
  exact ⟨_, _, pending, hlist, (List.isChain_cons_cons.1 hchain).1, hlast _ rfl, hget⟩

end Saver

end PilotLanggraph

import PilotLanggraph.Server

/-!
# Hot reload

`_reload_handler_module` of the worker process : the handler module is executed again, the
user handlers are cleared, the handlers that `@pilot_handler` has put into `_GLOBAL_HANDLERS` are
registered, and the module's `register(server)` is called. Executing a module again leaves what
the new source does not define : a `register` of an earlier version stays. A module that raises
has run the decorators before that point.

* `reload_atomic_iff` : when a reload leaves the table of handlers as it was.
* `reload_current_iff` : when a reload that succeeds leaves the handlers of the current version
  and no others.
-/

namespace PilotLanggraph

/-- A handler with its name : `pilot_handler(name, ...)(fn)`, or `register(name, fn, ...)`. -/
structure HandlerDef where
  name : String
  fn : Handler
  options : Options

/-- A `register(server)` of the module : the calls of `server.register` it makes, and whether
it raises after them. -/
structure RegisterFn where
  calls : Server → List HandlerDef
  raises : Server → Bool

/-- One version of the source of the handler module. -/
structure ModuleVersion where
  /-- The decorators that run. -/
  decorated : List HandlerDef
  /-- The source raises after them. -/
  raises : Bool
  /-- `register`, where the source has come to define it. -/
  register : Option RegisterFn

/-- The worker process, as a reload sees it. -/
structure WorkerProcess where
  server : Server
  /-- `_GLOBAL_HANDLERS`. -/
  globalHandlers : Dict String ℕ
  /-- The handler module in `sys.modules`, with its attribute `register`. -/
  module : Option (Option RegisterFn)

/-- How a reload ends. -/
inductive ReloadOutcome
  | importFailed
  | registerFailed
  | succeeded
  deriving DecidableEq

namespace Server

/-- The calls of a `register(server)`. -/
def registerAll (s : Server) (defs : List HandlerDef) : Server :=
  defs.foldl (fun s d => s.register d.name d.fn d.options) s

end Server

namespace WorkerProcess

/-- Before the handler module is imported. -/
def init (middleware : List ℕ) : WorkerProcess :=
  ⟨.init middleware, Dict.empty, none⟩

/-- `@pilot_handler(...)`. -/
def decorate (w : WorkerProcess) (d : HandlerDef) : WorkerProcess :=
  { w with
    server := w.server.create d.fn d.options
    globalHandlers := w.globalHandlers.set d.name w.server.created }

/-- The source is executed in a module that has this `register`. -/
def exec (w : WorkerProcess) (register : Option RegisterFn) (v : ModuleVersion) : WorkerProcess :=
  { v.decorated.foldl decorate w with module := some (v.register.orElse fun _ => register) }

/-- `importlib.import_module`. -/
def importModule (w : WorkerProcess) (v : ModuleVersion) : WorkerProcess × Bool :=
  match w.module with
  | some _ => (w, true)
  | none =>
    let w := w.exec none v
    if v.raises then ({ w with module := none }, false) else (w, true)

/-- `consume_global_handlers`. -/
def consumeGlobalHandlers (w : WorkerProcess) : WorkerProcess × Dict String ℕ :=
  ({ w with globalHandlers := Dict.empty }, w.globalHandlers)

/-- `server.register_many(consume_global_handlers())`. -/
def registerDecorated (w : WorkerProcess) : WorkerProcess :=
  let (w, decorated) := w.consumeGlobalHandlers
  { w with server := w.server.registerMany (decorated.entries.map fun e => (e.1, .inr e.2)) }

/-- `if hasattr(mod, "register"): mod.register(server)`. -/
def callRegister (w : WorkerProcess) : WorkerProcess × ReloadOutcome :=
  match w.module.join with
  | some f =>
    ({ w with server := w.server.registerAll (f.calls w.server) },
      if f.raises w.server then .registerFailed else .succeeded)
  | none => (w, .succeeded)

/-- `_reload_handler_module`. -/
def reload (w : WorkerProcess) (v : ModuleVersion) : WorkerProcess × ReloadOutcome :=
  let (w, imported) := w.importModule v
  if imported = false then (w, .importFailed)
  else
    let w := w.exec w.module.join v
    if v.raises then (w, .importFailed)
    else { w with server := w.server.clearUserHandlers }.registerDecorated.callRegister

/-- The start of `main`. -/
def start (w : WorkerProcess) (v : ModuleVersion) : Option WorkerProcess :=
  match w.importModule v with
  | (w, true) =>
    match w.registerDecorated.callRegister with
    | (w, .succeeded) => some w
    | _ => none
  | (_, false) => none

/-- What can happen. -/
inductive Action
  | start (v : ModuleVersion)
  | reload (v : ModuleVersion)
  /-- Other code of the process registers a handler, -/
  | register (d : HandlerDef)
  /-- or clears them. -/
  | clear

/-- One action, if it can happen. -/
def step (w : WorkerProcess) : Action → Option WorkerProcess
  | .start v => if w.module.isNone then w.start v else none
  | .reload v => some (w.reload v).1
  | .register d => some { w with server := w.server.register d.name d.fn d.options }
  | .clear => some { w with server := w.server.clearUserHandlers }

/-! ## What a reload binds -/

/-- The names of the definitions, with their registrations counted from `created`. -/
def entriesOf (defs : List HandlerDef) (created : ℕ) : List (String × ℕ) :=
  (defs.map HandlerDef.name).zipIdx created

/-- The process once the source was executed. -/
def executed (w : WorkerProcess) (v : ModuleVersion) : WorkerProcess :=
  let w := (w.importModule v).1
  w.exec w.module.join v

/-- The process when `register(server)` is called. -/
def swapped (w : WorkerProcess) (v : ModuleVersion) : WorkerProcess :=
  { w.executed v with server := (w.executed v).server.clearUserHandlers }.registerDecorated

/-- What `register(server)` registers, if it is this one. -/
def callsOf (w : WorkerProcess) (v : ModuleVersion) (register : Option RegisterFn) :
    List HandlerDef :=
  match register with
  | some f => f.calls (w.swapped v).server
  | none => []

/-- The handlers that every server has. -/
def introspected : Dict String ℕ :=
  (Dict.empty.set "_health" 0).set "_handlers" 1

/-- `_health` and `_handlers`, and what the current version registers through its decorators
and through its own `register`. -/
def current (w : WorkerProcess) (v : ModuleVersion) : Dict String ℕ :=
  let created := (w.importModule v).1.server.created
  (introspected.update (entriesOf v.decorated created)).update
    (entriesOf (w.callsOf v v.register) (created + v.decorated.length))

/-- The registration that the definitions bind to a name. -/
def boundTo (defs : List HandlerDef) (created : ℕ) (name : String) : Option ℕ :=
  (Dict.empty.update (entriesOf defs created)).get? name

section

variable {defs : List HandlerDef} {created id : ℕ} {name : String}

theorem names_entriesOf (defs : List HandlerDef) (created : ℕ) :
    (entriesOf defs created).map Prod.fst = defs.map HandlerDef.name :=
  List.zipIdx_map_fst ..

theorem boundTo_eq_none : boundTo defs created name = none ↔ name ∉ defs.map HandlerDef.name := by
  rw [boundTo, Dict.get?_update_eq_none, names_entriesOf]

theorem boundTo_nil (created : ℕ) (name : String) : boundTo [] created name = none :=
  rfl

/-- New registrations have new numbers. -/
theorem le_of_boundTo (h : boundTo defs created name = some id) :
    created ≤ id ∧ id < created + defs.length := by
  have hmem := Dict.mem_of_get?_update h
  have hlen : (defs.map HandlerDef.name).length = defs.length := List.length_map _
  exact ⟨List.le_snd_of_mem_zipIdx hmem, hlen ▸ List.snd_lt_add_of_mem_zipIdx hmem⟩

/-- One of some definitions is bound. -/
theorem exists_boundTo (h : defs ≠ []) (created : ℕ) :
    ∃ name id, boundTo defs created name = some id := by
  obtain ⟨d, ds, rfl⟩ := List.exists_cons_of_ne_nil h
  refine ⟨d.name, Option.ne_none_iff_exists'.1 fun hnone => ?_⟩
  exact boundTo_eq_none.1 hnone (List.mem_map_of_mem List.mem_cons_self)

end

section

variable (w : WorkerProcess)

theorem registerAll_eq (defs : List HandlerDef) (s : Server) :
    (s.registerAll defs).handlers = s.handlers.update (entriesOf defs s.created) ∧
      (s.registerAll defs).created = s.created + defs.length := by
  induction defs generalizing s with
  | nil => exact ⟨rfl, rfl⟩
  | cons d ds ih =>
    obtain ⟨hhandlers, hcreated⟩ := ih (s.register d.name d.fn d.options)
    refine ⟨hhandlers, hcreated.trans ?_⟩
    change s.created + 1 + ds.length = _
    rw [List.length_cons]
    omega

theorem registerMany_inr (es : List (String × ℕ)) (s : Server) :
    (s.registerMany (es.map fun e => (e.1, .inr e.2))).handlers = s.handlers.update es ∧
      (s.registerMany (es.map fun e => (e.1, .inr e.2))).created = s.created := by
  induction es generalizing s with
  | nil => exact ⟨rfl, rfl⟩
  | cons e es ih => exact ih (s.bind e.1 e.2)

theorem decorate_eq (defs : List HandlerDef) (w : WorkerProcess) :
    (defs.foldl decorate w).server.handlers = w.server.handlers ∧
      (defs.foldl decorate w).server.created = w.server.created + defs.length ∧
        (defs.foldl decorate w).globalHandlers =
          w.globalHandlers.update (entriesOf defs w.server.created) := by
  induction defs generalizing w with
  | nil => exact ⟨rfl, rfl, rfl⟩
  | cons d ds ih =>
    obtain ⟨hhandlers, hcreated, hglobals⟩ := ih (w.decorate d)
    refine ⟨hhandlers, hcreated.trans ?_, hglobals⟩
    change w.server.created + 1 + ds.length = _
    rw [List.length_cons]
    omega

theorem registerDecorated_eq :
    (∀ name, w.registerDecorated.server.handlers.get? name =
      (w.globalHandlers.get? name).or (w.server.handlers.get? name)) ∧
        w.registerDecorated.server.created = w.server.created ∧
          w.registerDecorated.globalHandlers = Dict.empty ∧
            w.registerDecorated.module = w.module := by
  obtain ⟨hhandlers, hcreated⟩ := registerMany_inr w.globalHandlers.entries w.server
  refine ⟨fun name => ?_, hcreated, rfl, rfl⟩
  change (w.server.registerMany _).handlers.get? name = _
  rw [hhandlers, Dict.get?_update_entries]

/-- What an import leaves alone. -/
structure Imports (v : ModuleVersion) (w w' : WorkerProcess) : Prop where
  handlers : w'.server.handlers = w.server.handlers
  created : w.server.created ≤ w'.server.created
  globals : ∀ {name}, name ∉ v.decorated.map HandlerDef.name →
    w'.globalHandlers.get? name = w.globalHandlers.get? name
  fresh : ∀ {name id}, w'.globalHandlers.get? name = some id →
    w.globalHandlers.get? name = some id ∨
      w.server.created ≤ id ∧ id < w'.server.created

theorem imports_exec (register : Option RegisterFn) (v : ModuleVersion) :
    Imports v w (w.exec register v) := by
  obtain ⟨hhandlers, hcreated, hglobals⟩ := decorate_eq v.decorated w
  have hget : ∀ name, (w.exec register v).globalHandlers.get? name =
      (boundTo v.decorated w.server.created name).or (w.globalHandlers.get? name) := by
    intro name
    change (v.decorated.foldl decorate w).globalHandlers.get? name = _
    rw [hglobals, Dict.get?_update]
    rfl
  refine ⟨hhandlers, ?_, fun {name} hname => ?_, fun {name id} hid => ?_⟩
  · change w.server.created ≤ (v.decorated.foldl decorate w).server.created
    omega
  · rw [hget, boundTo_eq_none.2 hname, Option.none_or]
  · rw [hget] at hid
    cases hbound : boundTo v.decorated w.server.created name with
    | none =>
      rw [hbound, Option.none_or] at hid
      exact Or.inl hid
    | some id' =>
      rw [hbound, Option.some_or, Option.some.injEq] at hid
      subst hid
      have hle := le_of_boundTo hbound
      refine Or.inr ⟨hle.1, ?_⟩
      change id' < (v.decorated.foldl decorate w).server.created
      omega

theorem imports_importModule (v : ModuleVersion) : Imports v w (w.importModule v).1 := by
  unfold importModule
  split
  · exact ⟨rfl, Nat.le_refl _, fun _ => rfl, Or.inl⟩
  · obtain ⟨h₁, h₂, h₃, h₄⟩ := w.imports_exec none v
    split <;> exact ⟨h₁, h₂, h₃, h₄⟩

theorem Imports.trans {v : ModuleVersion} {w w' w'' : WorkerProcess} (h : Imports v w w')
    (h' : Imports v w' w'') : Imports v w w'' where
  handlers := h'.handlers.trans h.handlers
  created := Nat.le_trans h.created h'.created
  globals hname := (h'.globals hname).trans (h.globals hname)
  fresh hid := by
    rcases h'.fresh hid with hid | ⟨hle, hlt⟩
    · exact (h.fresh hid).imp_right fun hid => ⟨hid.1, Nat.lt_of_lt_of_le hid.2 h'.created⟩
    · exact Or.inr ⟨Nat.le_trans h.created hle, hlt⟩

theorem imports_executed (v : ModuleVersion) : Imports v w (w.executed v) :=
  (w.imports_importModule v).trans (imports_exec _ _ v)

theorem callRegister_ne_importFailed : w.callRegister.2 ≠ .importFailed := by
  unfold callRegister
  split
  · split_ifs <;> nofun
  · nofun

/-- The import fails and the table stays, or the handlers are swapped. -/
theorem reload_cases (v : ModuleVersion) :
    ((w.reload v).2 = .importFailed ∧ Imports v w (w.reload v).1 ∧
      ((w.reload v).1.module = none ∨ (w.reload v).1.module = (w.executed v).module)) ∨
      (w.reload v).2 ≠ .importFailed ∧ w.reload v = (w.swapped v).callRegister := by
  unfold reload swapped executed
  cases himport : w.importModule v with
  | mk w' imported =>
    have hw' : Imports v w w' := by
      have h := w.imports_importModule v
      rwa [himport] at h
    cases imported with
    | false =>
      refine Or.inl ⟨rfl, hw', Or.inl ?_⟩
      unfold importModule at himport
      split at himport
      · cases himport
      · dsimp only at himport
        split at himport
        · exact congrArg WorkerProcess.module (congrArg Prod.fst himport).symm
        · cases himport
    | true =>
      simp only [Bool.true_eq_false, if_false]
      split
      · exact Or.inl ⟨rfl, hw'.trans (w'.imports_exec _ v), Or.inr rfl⟩
      · exact Or.inr ⟨callRegister_ne_importFailed _, rfl⟩

/-- The import fails exactly if the source raises : it is executed at least once. -/
theorem reload_importFailed_iff (v : ModuleVersion) :
    (w.reload v).2 = .importFailed ↔ v.raises = true := by
  constructor
  · intro hfailed
    by_contra hraises
    have himport : (w.importModule v).2 = true := by
      unfold importModule
      split
      · rfl
      · rw [if_neg hraises]
    have hreload : w.reload v = (w.swapped v).callRegister := by
      simp only [reload, himport, Bool.true_eq_false, if_false, if_neg hraises]
      rfl
    exact callRegister_ne_importFailed _ (hreload ▸ hfailed)
  · intro hraises
    simp only [reload, hraises, if_true]
    split_ifs <;> rfl

/-- The numbers of the registrations, once the source was executed. -/
theorem created_swapped (v : ModuleVersion) : (w.swapped v).server.created =
    (w.importModule v).1.server.created + v.decorated.length :=
  (registerDecorated_eq _).2.1.trans (decorate_eq v.decorated (w.importModule v).1).2.1

/-- The table when `register(server)` is called : the decorated handlers, the ones that were
left over, and of the old table what the clear step keeps. -/
theorem get?_swapped (v : ModuleVersion) (name : String) :
    (w.swapped v).server.handlers.get? name =
      (boundTo v.decorated (w.importModule v).1.server.created name).or
        (((w.importModule v).1.globalHandlers.get? name).or
          (if Server.isIntrospection name then w.server.handlers.get? name else none)) := by
  have hclear := (registerDecorated_eq { w.executed v with
    server := (w.executed v).server.clearUserHandlers }).1 name
  refine hclear.trans ?_
  have hglobals : (w.executed v).globalHandlers.get? name =
      (boundTo v.decorated (w.importModule v).1.server.created name).or
        ((w.importModule v).1.globalHandlers.get? name) := by
    change (v.decorated.foldl decorate (w.importModule v).1).globalHandlers.get? name = _
    rw [(decorate_eq v.decorated (w.importModule v).1).2.2, Dict.get?_update]
    rfl
  change ((w.executed v).globalHandlers.get? name).or
    (((w.executed v).server.handlers.filterKeys Server.isIntrospection).get? name) = _
  rw [hglobals, Dict.get?_filterKeys, (w.imports_executed v).handlers, Option.or_assoc]

/-- The `register` that the module has. -/
theorem module_swapped (v : ModuleVersion) : (w.swapped v).module.join =
    v.register.orElse fun _ => w.module.join := by
  change v.register.orElse (fun _ => (w.importModule v).1.module.join) = _
  cases hregister : v.register with
  | some f => rfl
  | none =>
    unfold importModule
    cases hmodule : w.module with
    | some r =>
      dsimp only
      rw [hmodule]
    | none =>
      have hexec : (w.exec none v).module.join = none := by
        unfold exec
        rw [hregister]
        rfl
      dsimp only
      split
      · rfl
      · exact hexec

/-- The table after a reload. -/
theorem get?_reload {v : ModuleVersion} (h : (w.reload v).2 ≠ .importFailed) (name : String) :
    (w.reload v).1.server.handlers.get? name =
      (boundTo (w.callsOf v (v.register.orElse fun _ => w.module.join))
          (w.swapped v).server.created name).or
        ((w.swapped v).server.handlers.get? name) := by
  obtain ⟨-, hreload⟩ := (w.reload_cases v).resolve_left fun hfail => h hfail.1
  rw [hreload, ← w.module_swapped]
  unfold callRegister callsOf
  split
  · change ((w.swapped v).server.registerAll _).handlers.get? name = _
    rw [(registerAll_eq _ _).1, Dict.get?_update]
    rfl
  · rfl

end

/-! ## Histories -/

/-- What is registered and what is left over are numbered, and different. -/
structure Apart (w : WorkerProcess) : Prop where
  created : 2 ≤ w.server.created
  handlers : ∀ {name id}, w.server.handlers.get? name = some id → id < w.server.created
  globals : ∀ {name id}, w.globalHandlers.get? name = some id → id < w.server.created
  apart : ∀ {name name' id}, w.server.handlers.get? name = some id →
    w.globalHandlers.get? name' ≠ some id

theorem apart_init (middleware : List ℕ) : (init middleware).Apart where
  created := Nat.le_refl _
  handlers {name id} h := by
    change ((Dict.empty.set "_health" 0).set "_handlers" 1).get? name = some id at h
    by_cases h₁ : name = "_handlers"
    · rw [h₁, Dict.get?_set_self] at h
      exact Option.some.inj h ▸ Nat.one_lt_two
    rw [Dict.get?_set_of_ne _ _ h₁] at h
    by_cases h₂ : name = "_health"
    · rw [h₂, Dict.get?_set_self] at h
      exact Option.some.inj h ▸ Nat.zero_lt_two
    · rw [Dict.get?_set_of_ne _ _ h₂] at h
      cases h
  globals h := by cases h
  apart _ h := by cases h

section

variable {w w' : WorkerProcess}

/-- An import leaves its registrations over. -/
theorem Apart.imports (h : w.Apart) {v : ModuleVersion} (hw : Imports v w w') : w'.Apart where
  created := Nat.le_trans h.created hw.created
  handlers hid := Nat.lt_of_lt_of_le (h.handlers (hw.handlers ▸ hid)) hw.created
  globals hid := (hw.fresh hid).elim (fun hid => Nat.lt_of_lt_of_le (h.globals hid) hw.created)
    And.right
  apart hid hid' := by
    rw [hw.handlers] at hid
    rcases hw.fresh hid' with hid' | ⟨hle, -⟩
    · exact h.apart hid hid'
    · exact Nat.not_lt.2 hle (h.handlers hid)

/-- What was left over is registered, -/
theorem Apart.registerDecorated (h : w.Apart) : w.registerDecorated.Apart := by
  obtain ⟨hhandlers, hcreated, hglobals, -⟩ := w.registerDecorated_eq
  refine ⟨hcreated ▸ h.created, fun {name id} hid => ?_, fun hid => ?_, fun _ hid => ?_⟩
  · rw [hhandlers] at hid
    rw [hcreated]
    cases hleft : w.globalHandlers.get? name with
    | some id' =>
      rw [hleft, Option.some_or, Option.some.injEq] at hid
      exact hid ▸ h.globals hleft
    | none =>
      rw [hleft, Option.none_or] at hid
      exact h.handlers hid
  · rw [hglobals] at hid
    cases hid
  · rw [hglobals] at hid
    cases hid

/-- and some definitions. -/
theorem Apart.registerAll (h : w.Apart) (defs : List HandlerDef) :
    { w with server := w.server.registerAll defs }.Apart := by
  obtain ⟨hhandlers, hcreated⟩ := registerAll_eq defs w.server
  have hcases : ∀ {name id}, (w.server.registerAll defs).handlers.get? name = some id →
      w.server.handlers.get? name = some id ∨
        w.server.created ≤ id ∧ id < w.server.created + defs.length := by
    intro name id hid
    rw [hhandlers, Dict.get?_update] at hid
    cases hbound : boundTo defs w.server.created name with
    | some id' =>
      change (boundTo defs w.server.created name).or _ = some id at hid
      rw [hbound, Option.some_or, Option.some.injEq] at hid
      exact Or.inr (hid ▸ le_of_boundTo hbound)
    | none =>
      change (boundTo defs w.server.created name).or _ = some id at hid
      rw [hbound, Option.none_or] at hid
      exact Or.inl hid
  have hle : w.server.created ≤ (w.server.registerAll defs).created := by omega
  refine ⟨Nat.le_trans h.created hle, fun {name id} hid => ?_,
    fun hid => Nat.lt_of_lt_of_le (h.globals hid) hle, fun {name name' id} hid hid' => ?_⟩
  · rcases hcases hid with hid | hid
    · exact Nat.lt_of_lt_of_le (h.handlers hid) hle
    · change id < (w.server.registerAll defs).created
      omega
  · rcases hcases hid with hid | hid
    · exact h.apart hid hid'
    · exact Nat.not_lt.2 hid.1 (h.globals hid')

theorem Apart.callRegister (h : w.Apart) : w.callRegister.1.Apart := by
  unfold WorkerProcess.callRegister
  split
  · exact h.registerAll _
  · exact h

theorem Apart.clear (h : w.Apart) :
    { w with server := w.server.clearUserHandlers }.Apart := by
  have hget : ∀ {name id}, w.server.clearUserHandlers.handlers.get? name = some id →
      w.server.handlers.get? name = some id := by
    intro name id hid
    change (w.server.handlers.filterKeys Server.isIntrospection).get? name = some id at hid
    rw [Dict.get?_filterKeys] at hid
    split_ifs at hid
    exact hid
  exact ⟨h.created, fun hid => h.handlers (hget hid), h.globals, fun hid => h.apart (hget hid)⟩

theorem Apart.step {a : Action} (h : w.Apart) (hs : w.step a = some w') : w'.Apart := by
  cases a with
  | start v =>
    simp only [WorkerProcess.step, start] at hs
    split_ifs at hs
    split at hs
    · rename_i w₁ himport
      split at hs
      · rename_i w₂ hcall
        obtain rfl := Option.some.inj hs
        have hw₁ : w₁.Apart := by
          have hi := h.imports (w.imports_importModule v)
          rwa [himport] at hi
        have hw₂ := hw₁.registerDecorated.callRegister
        rwa [hcall] at hw₂
      · cases hs
    · cases hs
  | reload v =>
    obtain rfl := Option.some.inj hs
    rcases w.reload_cases v with ⟨-, himports, -⟩ | ⟨-, hreload⟩
    · exact h.imports himports
    · rw [hreload]
      exact (h.imports (w.imports_executed v)).clear.registerDecorated.callRegister
  | register d =>
    obtain rfl := Option.some.inj hs
    exact h.registerAll [d]
  | clear =>
    obtain rfl := Option.some.inj hs
    exact h.clear

theorem apart_of_run {as : List Action} {middleware : List ℕ}
    (hrun : Machine.run step (init middleware) as = some w) : w.Apart :=
  Machine.run_induction (fun _ w => w.Apart) (apart_init middleware) (fun _ h hs => h.step hs) hrun

/-! ## A reload that fails -/

/-- A `register` that registers anything makes new handlers. -/
theorem callsOf_eq_nil {v : ModuleVersion} (himport : (w.reload v).2 ≠ .importFailed)
    (hold : ∀ name id, (w.reload v).1.server.handlers.get? name = some id →
      id < (w.swapped v).server.created) :
    w.callsOf v (v.register.orElse fun _ => w.module.join) = [] := by
  by_contra hne
  obtain ⟨name, id, hid⟩ := exists_boundTo hne (w.swapped v).server.created
  have hlt := hold name id (by rw [w.get?_reload himport, hid, Option.some_or])
  exact absurd hlt (Nat.not_lt.2 (le_of_boundTo hid).1)

/-- A reload, from any state that is reached, leaves the table of handlers as it was exactly if
the source raises, or `register` returns or raises before it registers anything, no decorator
has run since handlers were last consumed, and there was no user handler to clear. -/
theorem reload_atomic_iff {as : List Action} {middleware : List ℕ} {v : ModuleVersion}
    (hrun : Machine.run step (init middleware) as = some w) :
    (∀ name, (w.reload v).1.server.handlers.get? name = w.server.handlers.get? name) ↔
      v.raises = true ∨
        w.callsOf v (v.register.orElse fun _ => w.module.join) = [] ∧ v.decorated = [] ∧
          (∀ name, w.globalHandlers.get? name = none) ∧
            ∀ name, Server.isIntrospection name = false → w.server.handlers.get? name = none := by
  have hapart := apart_of_run hrun
  rw [← w.reload_importFailed_iff]
  by_cases himport : (w.reload v).2 = .importFailed
  · rcases w.reload_cases v with ⟨-, himports, -⟩ | ⟨hne, -⟩
    · exact iff_of_true (fun name => by rw [himports.handlers]) (Or.inl himport)
    · exact absurd himport hne
  have hcreated : w.server.created ≤ (w.importModule v).1.server.created :=
    (w.imports_importModule v).created
  have hswapped := w.created_swapped v
  have hget := w.get?_reload himport
  have hget' := w.get?_swapped v
  constructor
  · intro hsame
    have hold : ∀ name id, (w.reload v).1.server.handlers.get? name = some id →
        id < w.server.created := fun _ _ hid => hapart.handlers (hsame _ ▸ hid)
    have hcalls : w.callsOf v (v.register.orElse fun _ => w.module.join) = [] :=
      callsOf_eq_nil himport fun name id hid =>
        Nat.lt_of_lt_of_le (hold name id hid) (hcreated.trans (by omega))
    simp only [hcalls, boundTo_nil, Option.none_or, hget'] at hget
    have hdecorated : v.decorated = [] := by
      by_contra hne
      obtain ⟨name, id, hid⟩ := exists_boundTo hne (w.importModule v).1.server.created
      have hlt := hold name id (by rw [hget, hid, Option.some_or])
      have hle := le_of_boundTo hid
      omega
    have hglobals : ∀ name, (w.importModule v).1.globalHandlers.get? name =
        w.globalHandlers.get? name :=
      fun name => (w.imports_importModule v).globals (by simp [hdecorated])
    simp only [hdecorated, boundTo_nil, Option.none_or, hglobals] at hget
    have hnone : ∀ name, w.globalHandlers.get? name = none := by
      intro name
      cases hid : w.globalHandlers.get? name with
      | none => rfl
      | some id =>
        have hsome := hget name
        rw [hid, Option.some_or, hsame] at hsome
        exact absurd hid (hapart.apart hsome)
    refine Or.inr ⟨hcalls, hdecorated, hnone, fun name huser => ?_⟩
    rw [← hsame, hget, hnone, Option.none_or, huser]
    rfl
  · rintro (hfailed | ⟨hcalls, hdecorated, hnone, huser⟩) name
    · exact absurd hfailed himport
    have hglobals : (w.importModule v).1.globalHandlers.get? name = none := by
      rw [(w.imports_importModule v).globals (by simp [hdecorated]), hnone]
    rw [hget, hcalls, boundTo_nil, Option.none_or, hget', hdecorated, boundTo_nil, Option.none_or,
      hglobals, Option.none_or]
    split_ifs with hintro
    · rfl
    · exact (huser name (by simpa using hintro)).symm

/-! ## A reload that succeeds -/

/-- A name of an introspection handler. -/
def Auto (name : String) : Prop :=
  name = "_health" ∨ name = "_handlers"

instance : DecidablePred Auto :=
  fun name => inferInstanceAs (Decidable (name = "_health" ∨ name = "_handlers"))

/-- The definitions have other names, -/
def NamesOk (defs : List HandlerDef) : Prop :=
  ∀ d ∈ defs, ¬Auto d.name

instance : DecidablePred NamesOk :=
  fun defs => inferInstanceAs (Decidable (∀ d ∈ defs, ¬Auto d.name))

/-- and so do those of a `register`, -/
def RegisterOk (register : Option RegisterFn) : Prop :=
  ∀ f, register = some f → ∀ s, NamesOk (f.calls s)

/-- of a version, -/
def VersionOk (v : ModuleVersion) : Prop :=
  NamesOk v.decorated ∧ RegisterOk v.register

/-- and of an action. -/
def ActionOk : Action → Prop
  | .start v | .reload v => VersionOk v
  | .register d => ¬Auto d.name
  | .clear => True

/-- The introspection handlers are in place. -/
structure Introspective (w : WorkerProcess) : Prop where
  handlers : ∀ {name}, Auto name →
    w.server.handlers.get? name = introspected.get? name
  globals : ∀ {name}, Auto name → w.globalHandlers.get? name = none
  register : RegisterOk w.module.join

theorem not_mem_of_auto {defs : List HandlerDef} {name : String} (h : NamesOk defs)
    (hauto : Auto name) : name ∉ defs.map HandlerDef.name := by
  intro hmem
  obtain ⟨d, hd, rfl⟩ := List.mem_map.1 hmem
  exact h d hd hauto

theorem isIntrospection_of_auto {name : String} (h : Auto name) :
    Server.isIntrospection name = true := by
  rcases h with rfl | rfl <;> decide

theorem introspected_of_not_auto {name : String} (h : ¬Auto name) :
    introspected.get? name = none := by
  unfold introspected
  rw [Dict.get?_set_of_ne _ _ fun heq => h (Or.inr heq),
    Dict.get?_set_of_ne _ _ fun heq => h (Or.inl heq), Dict.get?_empty]

theorem registerOk_orElse {register register' : Option RegisterFn} (h : RegisterOk register)
    (h' : RegisterOk register') : RegisterOk (register.orElse fun _ => register') := by
  cases register with
  | none => exact h'
  | some f => exact h

theorem introspective_init (middleware : List ℕ) : (init middleware).Introspective where
  handlers _ := rfl
  globals _ := rfl
  register _ h := by cases h

theorem Introspective.imports {v : ModuleVersion} (h : w.Introspective) (hv : NamesOk v.decorated)
    (hw : Imports v w w') (hregister : RegisterOk w'.module.join) : w'.Introspective where
  handlers hauto := by
    rw [hw.handlers]
    exact h.handlers hauto
  globals hauto := by
    rw [hw.globals (not_mem_of_auto hv hauto)]
    exact h.globals hauto
  register := hregister

theorem Introspective.clear (h : w.Introspective) :
    { w with server := w.server.clearUserHandlers }.Introspective where
  handlers hauto := by
    refine (Dict.get?_filterKeys ..).trans ?_
    rw [if_pos (isIntrospection_of_auto hauto)]
    exact h.handlers hauto
  globals := h.globals
  register := h.register

theorem Introspective.registerDecorated (h : w.Introspective) :
    w.registerDecorated.Introspective := by
  obtain ⟨hhandlers, -, hglobals, hmodule⟩ := w.registerDecorated_eq
  refine ⟨fun {name} hauto => ?_, fun {name} _ => ?_, hmodule ▸ h.register⟩
  · rw [hhandlers, h.globals hauto, Option.none_or, h.handlers hauto]
  · rw [hglobals, Dict.get?_empty]

theorem Introspective.registerAll {defs : List HandlerDef} (h : w.Introspective)
    (hdefs : NamesOk defs) : { w with server := w.server.registerAll defs }.Introspective where
  handlers {name} hauto := by
    change (w.server.registerAll defs).handlers.get? name = _
    have hnone : boundTo defs w.server.created name = none :=
      boundTo_eq_none.2 (not_mem_of_auto hdefs hauto)
    rw [(registerAll_eq _ _).1, Dict.get?_update]
    change (boundTo defs w.server.created name).or _ = _
    rw [hnone, Option.none_or, h.handlers hauto]
  globals := h.globals
  register := h.register

theorem Introspective.callRegister (h : w.Introspective) : w.callRegister.1.Introspective := by
  unfold WorkerProcess.callRegister
  split
  · rename_i f hf
    exact h.registerAll (h.register f hf _)
  · exact h

theorem Introspective.importModule {v : ModuleVersion} (h : w.Introspective) (hv : VersionOk v) :
    (w.importModule v).1.Introspective := by
  refine h.imports hv.1 (w.imports_importModule v) ?_
  unfold WorkerProcess.importModule
  split
  · exact h.register
  · dsimp only
    split
    · exact fun f hf => by cases hf
    · exact registerOk_orElse hv.2 fun f hf => by cases hf

theorem Introspective.executed {v : ModuleVersion} (h : w.Introspective) (hv : VersionOk v) :
    (w.executed v).Introspective :=
  h.imports hv.1 (w.imports_executed v) (registerOk_orElse hv.2 (h.importModule hv).register)

theorem Introspective.step {a : Action} (h : w.Introspective) (ha : ActionOk a)
    (hs : w.step a = some w') : w'.Introspective := by
  cases a with
  | start v =>
    simp only [WorkerProcess.step, start] at hs
    split_ifs at hs
    split at hs
    · rename_i w₁ himport
      split at hs
      · rename_i w₂ hcall
        obtain rfl := Option.some.inj hs
        have hw₁ : w₁.Introspective := by
          have hi := h.importModule (v := v) ha
          rwa [himport] at hi
        have hw₂ := hw₁.registerDecorated.callRegister
        rwa [hcall] at hw₂
      · cases hs
    · cases hs
  | reload v =>
    obtain rfl := Option.some.inj hs
    rcases w.reload_cases v with ⟨-, himports, hmodule⟩ | ⟨-, hreload⟩
    · refine h.imports ha.1 himports ?_
      rcases hmodule with hmodule | hmodule
      · rw [hmodule]
        exact fun f hf => by cases hf
      · rw [hmodule]
        exact (h.executed ha).register
    · rw [hreload]
      exact (h.executed ha).clear.registerDecorated.callRegister
  | register d =>
    obtain rfl := Option.some.inj hs
    have hdefs : NamesOk [d] := fun e he => by
      rw [List.mem_singleton.1 he]
      exact ha
    exact h.registerAll hdefs
  | clear =>
    obtain rfl := Option.some.inj hs
    exact h.clear

/-- Nothing of an earlier version is left to be installed : a version without a `register` finds
no earlier one that registers handlers, and it defines itself each handler that is left over in
`_GLOBAL_HANDLERS` or that the clear step keeps for its underscore. -/
def Replaces (w : WorkerProcess) (v : ModuleVersion) : Prop :=
  (v.register = none → w.callsOf v w.module.join = []) ∧
    ∀ name, ¬Auto name → name ∉ v.decorated.map HandlerDef.name →
      name ∉ (w.callsOf v v.register).map HandlerDef.name →
        w.globalHandlers.get? name = none ∧
          (Server.isIntrospection name = true → w.server.handlers.get? name = none)

theorem get?_current (w : WorkerProcess) (v : ModuleVersion) (name : String) :
    (w.current v).get? name =
      (boundTo (w.callsOf v v.register) (w.swapped v).server.created name).or
        ((boundTo v.decorated (w.importModule v).1.server.created name).or
          (introspected.get? name)) := by
  rw [w.created_swapped, current, Dict.get?_update, Dict.get?_update introspected]
  rfl

/-- Without a `register`, the current version's handlers are made before the call. -/
theorem Apart.current_lt (h : w.Apart) {v : ModuleVersion} (hregister : v.register = none)
    {name : String} {id : ℕ} (hid : (w.current v).get? name = some id) :
    id < (w.swapped v).server.created := by
  rw [get?_current, hregister] at hid
  change (boundTo [] _ name).or _ = some id at hid
  rw [boundTo_nil, Option.none_or] at hid
  have hswapped := w.created_swapped v
  cases hown : boundTo v.decorated (w.importModule v).1.server.created name with
  | some id' =>
    rw [hown, Option.some_or, Option.some.injEq] at hid
    have hlt := (le_of_boundTo hown).2
    omega
  | none =>
    rw [hown, Option.none_or] at hid
    have hlt : id < 2 := (apart_init []).handlers hid
    have hgrow := (w.imports_importModule v).created
    have htwo := h.created
    omega

/-- An earlier `register` is called if the version has none. -/
theorem callsOf_orElse {v : ModuleVersion}
    (hstale : v.register = none → w.callsOf v w.module.join = []) :
    w.callsOf v (v.register.orElse fun _ => w.module.join) = w.callsOf v v.register := by
  cases hregister : v.register with
  | some f => rfl
  | none => exact hstale hregister

/-- A reload that succeeds, after any history of versions whose handlers are not called `_health`
or `_handlers`, leaves these two and the handlers of the current version, and no others, exactly
if nothing of an earlier version is left to be installed. -/
theorem reload_current_iff {as : List Action} {middleware : List ℕ} {v : ModuleVersion}
    (hrun : Machine.run WorkerProcess.step (init middleware) as = some w)
    (hnames : ∀ a ∈ as, ActionOk a) (hsucceeds : (w.reload v).2 = .succeeded) :
    (∀ name, (w.reload v).1.server.handlers.get? name = (w.current v).get? name) ↔
      w.Replaces v := by
  have hapart := apart_of_run hrun
  have hintro : w.Introspective :=
    Machine.run_invariant Introspective (fun _ a => ActionOk a) (fun h ha hs => h.step ha hs)
      (introspective_init middleware)
      (Machine.along_of_forall (fun a ha _ => hnames a ha) _) hrun
  have himport : (w.reload v).2 ≠ .importFailed := by
    rw [hsucceeds]
    exact nofun
  have hget := w.get?_reload himport
  simp only [w.get?_swapped v] at hget
  have hcurrent := w.get?_current v
  have himports := w.imports_importModule v
  constructor
  · intro hsame
    have hstale : v.register = none → w.callsOf v w.module.join = [] := by
      intro hregister
      have hcalls := callsOf_eq_nil himport fun name id hid =>
        hapart.current_lt hregister (hsame name ▸ hid)
      rwa [hregister] at hcalls
    refine ⟨hstale, fun name hauto hdecorated hown => ?_⟩
    have hbound := hsame name
    rw [hget, hcurrent, callsOf_orElse hstale, boundTo_eq_none.2 hdecorated, boundTo_eq_none.2 hown,
      introspected_of_not_auto hauto, himports.globals hdecorated] at hbound
    simp only [Option.none_or, Option.or_eq_none_iff] at hbound
    refine ⟨hbound.1, fun hname => ?_⟩
    rw [if_pos hname] at hbound
    exact hbound.2
  · rintro ⟨hstale, hothers⟩ name
    rw [hget, hcurrent, callsOf_orElse hstale]
    cases hown : boundTo (w.callsOf v v.register) (w.swapped v).server.created name with
    | some id => rfl
    | none =>
      cases hdecorated : boundTo v.decorated (w.importModule v).1.server.created name with
      | some id => rfl
      | none =>
        have hglobals := himports.globals (boundTo_eq_none.1 hdecorated)
        simp only [Option.none_or, hglobals]
        by_cases hauto : Auto name
        · rw [hintro.globals hauto, Option.none_or, if_pos (isIntrospection_of_auto hauto),
            hintro.handlers hauto]
        · obtain ⟨hleft, hkept⟩ := hothers name hauto (boundTo_eq_none.1 hdecorated)
            (boundTo_eq_none.1 hown)
          rw [hleft, Option.none_or, introspected_of_not_auto hauto]
          split_ifs with hname
          · exact hkept hname
          · rfl

end

/-- A handler with no options. -/
def plain (name : String) (id : ℕ) : HandlerDef :=
  ⟨name, ⟨id, .plain, some ⟨1, false⟩⟩, {}⟩

/-- A `register` that registers these handlers, and may raise then. -/
def registers (defs : List HandlerDef) (raises : Bool) : RegisterFn :=
  ⟨fun _ => defs, fun _ => raises⟩

/-- Nothing was registered before, and `register` raises at once. -/
theorem reload_atomic_iff_empty :
    ∃ w, Machine.run step (init []) [.start ⟨[], false, none⟩] = some w ∧
      (w.reload ⟨[], false, some (registers [] true)⟩).2 = .registerFailed ∧
        ∀ name, (w.reload ⟨[], false, some (registers [] true)⟩).1.server.handlers.get? name =
          w.server.handlers.get? name := by
  have hrun : Machine.run step (init []) [.start ⟨[], false, none⟩] =
      some ⟨.init [], Dict.empty, some none⟩ := rfl
  refine ⟨_, hrun, rfl, (reload_atomic_iff hrun).2
    (Or.inr ⟨rfl, rfl, fun _ => rfl, fun name huser => ?_⟩)⟩
  refine introspected_of_not_auto fun hauto => ?_
  rw [isIntrospection_of_auto hauto] at huser
  cases huser

/-- The new `register` raises before its first call, and the old handler is gone. -/
theorem reload_not_atomic :
    ∃ w, Machine.run step (init []) [.start ⟨[plain "greet" 10], false, none⟩] = some w ∧
      (w.reload ⟨[], false, some (registers [] true)⟩).2 = .registerFailed ∧
        w.server.handlers.get? "greet" = some 2 ∧
          (w.reload ⟨[], false, some (registers [] true)⟩).1.server.handlers.get? "greet" = none :=
  ⟨_, rfl, rfl, by decide, by decide⟩

/-- The version of a module whose `register` registers the handler `greet`. -/
def greets (id : ℕ) : ModuleVersion :=
  ⟨[], false, some (registers [plain "greet" id] false)⟩

/-- A decorator gives way to a `register`. -/
theorem reload_current_iff_greets :
    ∃ w, Machine.run step (init []) [.start ⟨[plain "greet" 10], false, none⟩] = some w ∧
      ∀ name, (w.reload (greets 11)).1.server.handlers.get? name =
        (w.current (greets 11)).get? name := by
  have hgreet : NamesOk [plain "greet" 10] := by
    intro d hd
    rw [List.mem_singleton.1 hd]
    exact (by decide : ¬Auto "greet")
  have hrun : Machine.run step (init []) [.start ⟨[plain "greet" 10], false, none⟩] =
      some ⟨(Server.init []).register "greet" (plain "greet" 10).fn {}, Dict.empty, some none⟩ :=
    rfl
  refine ⟨_, hrun, (reload_current_iff hrun (fun a ha => ?_) rfl).2
    ⟨nofun, fun name hauto _ hname => ⟨rfl, fun _ => ?_⟩⟩⟩
  · rw [List.mem_singleton.1 ha]
    exact ⟨hgreet, fun f hf => by cases hf⟩
  · refine (Dict.get?_set_of_ne introspected 2 fun heq => hname ?_).trans
      (introspected_of_not_auto hauto)
    rw [heq]
    exact List.mem_singleton_self _

/-- An import that raises leaves the handler `b` over, and the next reload installs it. -/
theorem reload_installs_failed :
    ∃ w, Machine.run step (init [])
        [.start ⟨[plain "a" 10], false, none⟩, .reload ⟨[plain "b" 11], true, none⟩] = some w ∧
      (w.reload ⟨[plain "a" 12], false, none⟩).2 = .succeeded ∧
        (w.current ⟨[plain "a" 12], false, none⟩).get? "b" = none ∧
          (w.reload ⟨[plain "a" 12], false, none⟩).1.server.handlers.get? "b" = some 3 :=
  ⟨_, rfl, rfl, by decide, by decide⟩

end WorkerProcess

end PilotLanggraph

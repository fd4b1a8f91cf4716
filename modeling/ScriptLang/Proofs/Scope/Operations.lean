import ScriptLang.Proofs.Scope.History
import ScriptLang.Scope.Store

namespace ScriptLang

namespace Action

variable {α β : Type}

theorem bind_apply (action : Action α) (next : α → Action β) (store : Store) :
    (action >>= next) store = match action store with
      | (.ok value, after) => next value after
      | (.error error, after) => (.error error, after) := by
  change (match action store with | (result, after) => ExceptT.bindCont next result after) = _
  rcases action store with ⟨result, after⟩
  cases result with
  | ok value => rfl
  | error error => rfl

theorem view_apply (handle : Handle) (look : Arena → Except ScopeError α) (store : Store) :
    view handle look store = (look (store.arena handle), store) := by
  change (view.liftExcept (look (store.arena handle)) : Action α) store = _
  cases look (store.arena handle) with
  | ok value => rfl
  | error error => rfl

theorem update_apply (handle : Handle) (change : Arena → Except ScopeError (α × Arena))
    (store : Store) : update handle change store = match change (store.arena handle) with
      | .ok (value, arena) => (.ok value, store.setArena handle arena)
      | .error error => (.error error, store) := by
  unfold update
  rw [bind_apply, view_apply]
  cases change (store.arena handle) with
  | ok pair => rfl
  | error error => rfl

theorem requireClosures_apply (value : Value) (store : Store) :
    (requireClosures value store).2 = store := by
  unfold requireClosures
  induction value.closures with
  | nil => rfl
  | cons closure rest ih =>
    change (((depth closure >>= fun _ => pure ()) >>= fun _ => rest.forM _) store).2 = store
    rw [bind_apply, bind_apply]
    unfold depth
    rw [view_apply]
    cases (store.arena closure).depth closure.scope with
    | ok depth => exact ih
    | error error => rfl

end Action

/-- Events of several arenas, each with the number of its arena, the latest one first. -/
abbrev Log := List (Nat × Event)

def Log.inArena (log : Log) (number : Nat) : List Event :=
  log.filterMap fun entry => if entry.1 = number then some entry.2 else none

def Store.Evolves (store : Store) (log : Log) (after : Store) : Prop :=
  ∀ number (arena : Arena), store.arenas[number]? = some arena → ∃ arena',
    after.arenas[number]? = some arena' ∧ arena.Becomes (log.inArena number) arena'

namespace Store

variable {store between after : Store} {log later : Log} {handle : Handle} {arena : Arena}
  {event : Event}

theorem evolves_of_arenas (h : after.arenas = store.arenas) : store.Evolves [] after := by
  intro number arena harena
  rw [← h] at harena
  exact ⟨arena, harena, Arena.Becomes.refl⟩

theorem Evolves.trans (h : store.Evolves log between) (h' : between.Evolves later after) :
    store.Evolves (later ++ log) after := by
  intro number arena harena
  obtain ⟨arena', harena', hbecomes⟩ := h number arena harena
  obtain ⟨arena'', harena'', hbecomes'⟩ := h' number arena' harena'
  refine ⟨arena'', harena'', ?_⟩
  unfold Log.inArena at hbecomes hbecomes' ⊢
  rw [List.filterMap_append]
  exact hbecomes.trans hbecomes'

theorem arena_of_getElem? {number : Nat} (h : store.arenas[number]? = some arena)
    (hnumber : handle.arena = number) : store.arena handle = arena := by
  unfold Store.arena
  rw [hnumber, h]
  rfl

theorem evolves_setArena (h : (store.arena handle).Takes event arena) :
    store.Evolves [(handle.arena, event)] (store.setArena handle arena) := by
  intro number before hbefore
  unfold Log.inArena setArena
  by_cases hnumber : handle.arena = number
  · refine ⟨arena, ?_, ?_⟩
    · have hlt := (List.getElem?_eq_some_iff.mp hbefore).1
      rw [hnumber, List.getElem?_set_self hlt]
    · rw [arena_of_getElem? hbefore hnumber] at h
      simpa [hnumber] using Arena.Becomes.single h
  · refine ⟨before, ?_, ?_⟩
    · rw [List.getElem?_set_ne hnumber]
      exact hbefore
    · simpa [hnumber] using Arena.Becomes.refl

theorem evolves_newArena : store.Evolves [] (Action.newArena store).2 := by
  intro number arena harena
  have hlt := (List.getElem?_eq_some_iff.mp harena).1
  refine ⟨arena, ?_, Arena.Becomes.refl⟩
  change (store.arenas ++ [Arena.fresh])[number]? = some arena
  rw [List.getElem?_append_left hlt]
  exact harena

end Store

namespace Action

variable {α : Type} {store : Store}

def log (action : Action α) (number : Nat) (event : α → Event) (store : Store) : Log :=
  match action store with
  | (.ok value, _) => [(number, event value)]
  | (.error _, _) => []

/-- An update that succeeds is one event. -/
theorem evolves_update (handle : Handle) {change : Arena → Except ScopeError (α × Arena)}
    (event : α → Event)
    (h : ∀ value arena, change (store.arena handle) = .ok (value, arena) →
      (store.arena handle).Takes (event value) arena) :
    store.Evolves ((update handle change).log handle.arena event store)
      (update handle change store).2 := by
  unfold log
  rw [update_apply]
  cases hchange : change (store.arena handle) with
  | ok pair => exact Store.evolves_setArena (h pair.1 pair.2 hchange)
  | error error => exact Store.evolves_of_arenas rfl

theorem evolves_view (handle : Handle) (look : Arena → Except ScopeError α) :
    store.Evolves [] (view handle look store).2 := by
  rw [view_apply]
  exact Store.evolves_of_arenas rfl

theorem enclose_apply (handle : Handle) (store : Store) :
    enclose handle store = match (store.arena handle).push handle.scope with
      | .ok (index, arena) => (.ok ⟨store.issued, handle.arena, index⟩,
          { store.setArena handle arena with issued := store.issued + 1 })
      | .error error => (.error error, store) := by
  unfold enclose
  rw [bind_apply, update_apply]
  cases (store.arena handle).push handle.scope with
  | ok pair => rfl
  | error error => rfl

theorem evolves_enclose (handle : Handle) :
    store.Evolves ((enclose handle).log handle.arena (.opened ·.scope handle.scope) store)
      (enclose handle store).2 := by
  unfold log
  rw [enclose_apply]
  cases hpush : (store.arena handle).push handle.scope with
  | ok pair =>
    have hset := Store.evolves_setArena (Arena.Takes.push hpush)
    exact hset.trans (Store.evolves_of_arenas rfl)
  | error error => exact Store.evolves_of_arenas rfl

theorem evolves_enclosing (handle : Handle) :
    store.Evolves [] (enclosing handle store).2 := by
  unfold enclosing
  rw [bind_apply, view_apply]
  cases (store.arena handle).scope handle.scope with
  | ok scope =>
    obtain ⟨index, parent, bindings, liveChildren⟩ := scope
    cases parent with
    | none => exact Store.evolves_of_arenas rfl
    | some parent => exact Store.evolves_of_arenas rfl
  | error error => exact Store.evolves_of_arenas rfl

theorem evolves_describe (handle : Handle) : store.Evolves [] (describe handle store).2 := by
  unfold describe depth
  rw [bind_apply, view_apply]
  cases (store.arena handle).depth handle.scope with
  | ok depth => exact Store.evolves_of_arenas rfl
  | error error => exact Store.evolves_of_arenas rfl

theorem evolves_discard (handle : Handle) :
    store.Evolves ((discard handle).log handle.arena (fun _ => .discarded handle.scope) store)
      (discard handle store).2 := by
  apply evolves_update
  intro _ arena h
  cases hrelease : (store.arena handle).release handle.scope with
  | ok after =>
    rw [hrelease] at h
    cases h
    exact Arena.Takes.release hrelease
  | error error =>
    rw [hrelease] at h
    cases h

/-- Closures that are looked at first change nothing. -/
theorem evolves_afterClosures (value : Value) {action : Action α} {number : Nat}
    {event : α → Event}
    (h : store.Evolves (action.log number event store) (action store).2) :
    store.Evolves ((requireClosures value >>= fun _ => action).log number event store)
      ((requireClosures value >>= fun _ => action) store).2 := by
  have hstore := requireClosures_apply value store
  unfold log at h ⊢
  rw [bind_apply]
  rcases hclosures : requireClosures value store with ⟨result, after⟩
  rw [hclosures] at hstore
  rw [show after = store from hstore]
  cases result with
  | ok done => exact h
  | error error => exact Store.evolves_of_arenas rfl

theorem evolves_define (handle : Handle) (name : Identifier) (value : Value) :
    store.Evolves
      ((define handle name value).log handle.arena
        (fun _ => .defined handle.scope name.text value) store)
      (define handle name value store).2 := by
  apply evolves_afterClosures
  apply evolves_update
  intro _ arena h
  cases hdefine : (store.arena handle).define handle.scope name value with
  | ok after =>
    rw [hdefine] at h
    cases h
    exact Arena.Takes.define hdefine
  | error error =>
    rw [hdefine] at h
    cases h

theorem evolves_assign (handle : Handle) (name : Identifier) (value : Value) :
    store.Evolves
      ((assign handle name value).log handle.arena
        (fun _ => .assigned handle.scope name.text value) store)
      (assign handle name value store).2 := by
  apply evolves_afterClosures
  apply evolves_update
  intro _ _ h
  exact Arena.Takes.assign h

theorem evolves_declare (declaration : FunctionDecl) (handle : Handle) :
    store.Evolves
      ((declare declaration handle).log handle.arena
        (fun function => .defined handle.scope function.name (.function function)) store)
      (declare declaration handle store).2 := by
  have hdefine : store.Evolves _ (define handle _ _ store).2 :=
    evolves_define handle (Identifier.ofToken declaration.name) (.function ⟨declaration, handle⟩)
  unfold log at hdefine ⊢
  unfold declare
  rw [bind_apply]
  rcases hresult : define handle (Identifier.ofToken declaration.name)
    (.function ⟨declaration, handle⟩) store with ⟨result, after⟩
  rw [hresult] at hdefine
  cases result with
  | ok done => exact hdefine
  | error error => exact hdefine

def parameterLog (handle : Handle) : List (Token × Value) → Store → Log
  | [], _ => []
  | (param, value) :: rest, store =>
    match define handle (Identifier.ofToken param) value store with
    | (.ok _, after) =>
      parameterLog handle rest after ++
        [(handle.arena, .defined handle.scope param.lexeme value)]
    | (.error _, _) => []

/-- A call opens a scope and binds parameters there, one after the other. -/
def callLog (function : Function) (arguments : List Value) (store : Store) : Log :=
  if arguments.length ≠ function.declaration.arity then []
  else
    match enclose function.closure store with
    | (.ok inner, opened) =>
      parameterLog inner (function.declaration.params.zip arguments) opened ++
        [(function.closure.arena, .opened inner.scope function.closure.scope)]
    | (.error _, _) => []

theorem evolves_defineAll (handle : Handle) (bindings : List (Token × Value)) :
    store.Evolves (parameterLog handle bindings store) (defineAll handle bindings store).2 := by
  induction bindings generalizing store with
  | nil => exact Store.evolves_of_arenas rfl
  | cons binding rest ih =>
    obtain ⟨param, value⟩ := binding
    have hdefine : store.Evolves _ (define handle _ value store).2 :=
      evolves_define handle (Identifier.ofToken param) value
    unfold log at hdefine
    rw [parameterLog, defineAll, bind_apply]
    rcases hresult : define handle (Identifier.ofToken param) value store with ⟨result, after⟩
    rw [hresult] at hdefine
    cases result with
    | ok done => exact hdefine.trans ih
    | error error => exact hdefine

theorem evolves_bindArguments (function : Function) (arguments : List Value)
    (line : Option Int) :
    store.Evolves (callLog function arguments store)
      (bindArguments function arguments line store).2 := by
  unfold callLog bindArguments
  by_cases harity : arguments.length ≠ function.declaration.arity
  · rw [if_pos harity]
    simp only [if_pos harity]
    exact Store.evolves_of_arenas rfl
  · rw [if_neg harity]
    simp only [if_neg harity]
    have hopen : store.Evolves _ (enclose function.closure store).2 :=
      evolves_enclose function.closure
    unfold log at hopen
    rw [bind_apply]
    rcases hresult : enclose function.closure store with ⟨result, opened⟩
    rw [hresult] at hopen
    cases result with
    | ok inner =>
      have hall : opened.Evolves _ (defineAll inner _ opened).2 :=
        evolves_defineAll inner (function.declaration.params.zip arguments)
      simp only
      rw [bind_apply]
      rcases hbound : defineAll inner (function.declaration.params.zip arguments) opened with
        ⟨result, after⟩
      rw [hbound] at hall
      cases result with
      | ok done => exact hopen.trans hall
      -- a call that fails at an argument has opened its scope all the same
      | error error => exact hopen.trans hall
    | error error => exact hopen

end Action

/-- What can be done with a store, through any handles. -/
inductive Operation where
  | newArena
  | enclose (handle : Handle)
  | enclosing (handle : Handle)
  | depth (handle : Handle)
  | describe (handle : Handle)
  | discard (handle : Handle)
  | define (handle : Handle) (name : Identifier) (value : Value)
  | assign (handle : Handle) (name : Identifier) (value : Value)
  | lookup (handle : Handle) (name : Identifier)
  | contains (handle : Handle) (name : Identifier)
  | declare (declaration : FunctionDecl) (handle : Handle)
  | bindArguments (function : Function) (arguments : List Value) (line : Option Int)

namespace Operation

def after (store : Store) : Operation → Store
  | newArena => (Action.newArena store).2
  | enclose handle => (Action.enclose handle store).2
  | enclosing handle => (Action.enclosing handle store).2
  | depth handle => (Action.depth handle store).2
  | describe handle => (Action.describe handle store).2
  | discard handle => (Action.discard handle store).2
  | define handle name value => (Action.define handle name value store).2
  | assign handle name value => (Action.assign handle name value store).2
  | lookup handle name => (Action.lookup handle name store).2
  | contains handle name => (Action.contains handle name store).2
  | declare declaration handle => (Action.declare declaration handle store).2
  | bindArguments function arguments line =>
    (Action.bindArguments function arguments line store).2

def log (store : Store) : Operation → Log
  | enclose handle =>
    (Action.enclose handle).log handle.arena (.opened ·.scope handle.scope) store
  | discard handle =>
    (Action.discard handle).log handle.arena (fun _ => .discarded handle.scope) store
  | define handle name value =>
    (Action.define handle name value).log handle.arena
      (fun _ => .defined handle.scope name.text value) store
  | assign handle name value =>
    (Action.assign handle name value).log handle.arena
      (fun _ => .assigned handle.scope name.text value) store
  | declare declaration handle =>
    (Action.declare declaration handle).log handle.arena
      (fun function => .defined handle.scope function.name (.function function)) store
  | bindArguments function arguments _ => Action.callLog function arguments store
  | _ => []

theorem evolves (operation : Operation) (store : Store) :
    store.Evolves (operation.log store) (operation.after store) := by
  cases operation with
  | newArena => exact Store.evolves_newArena
  | enclose handle => exact Action.evolves_enclose handle
  | enclosing handle => exact Action.evolves_enclosing handle
  | depth handle => exact Action.evolves_view handle _
  | describe handle => exact Action.evolves_describe handle
  | discard handle => exact Action.evolves_discard handle
  | define handle name value => exact Action.evolves_define handle name value
  | assign handle name value => exact Action.evolves_assign handle name value
  | lookup handle name => exact Action.evolves_view handle _
  | contains handle name => exact Action.evolves_view handle _
  | declare declaration handle => exact Action.evolves_declare declaration handle
  | bindArguments function arguments line =>
    exact Action.evolves_bindArguments function arguments line

end Operation

namespace Store

/-- The store after all of these operations. -/
def run (store : Store) (operations : List Operation) : Store :=
  operations.foldl Operation.after store

theorem run_append (store : Store) (earlier later : List Operation) :
    store.run (earlier ++ later) = (store.run earlier).run later := List.foldl_append

def log (store : Store) : List Operation → Log
  | [] => []
  | operation :: rest => (operation.after store).log rest ++ operation.log store

theorem evolves_run (store : Store) (operations : List Operation) :
    store.Evolves (store.log operations) (store.run operations) := by
  induction operations generalizing store with
  | nil => exact evolves_of_arenas rfl
  | cons operation rest ih => exact (operation.evolves store).trans (ih _)

/-- The run of an arena that was new when the run began. -/
theorem becomes_run (before : Store) {start : Store} {handle : Handle}
    (hnew : Action.newArena before = (.ok handle, start)) (operations : List Operation) :
    ∃ arena, (start.run operations).arenas[handle.arena]? = some arena ∧
      Arena.fresh.Becomes ((start.log operations).inArena handle.arena) arena := by
  have hrun := evolves_run start operations
  cases hnew
  apply hrun
  exact List.getElem?_concat_length

end Store

end ScriptLang

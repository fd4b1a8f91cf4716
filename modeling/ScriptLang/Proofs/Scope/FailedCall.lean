import ScriptLang.Proofs.Scope.Atomicity
import ScriptLang.Proofs.Scope.Call

namespace ScriptLang

namespace Store

variable {store : Store} {handle other : Handle} {arena : Arena} {value : Value}

theorem arena_setArena_of_ne (h : handle.arena ≠ other.arena) (arena : Arena) :
    (store.setArena handle arena).arena other = store.arena other := by
  unfold Store.arena setArena
  rw [List.getElem?_set_ne h]

/-- Binding names moves no scope, so what is live stays so. -/
theorem isLive_setArena_modify (harena : store.arenas[handle.arena]? = some arena) (index : Nat)
    {change : Scope → Scope} (hkeep : ∀ scope, (change scope).index = scope.index)
    (other : Handle) :
    (store.setArena handle (arena.modify index change)).isLive other = store.isLive other := by
  unfold isLive
  by_cases h : handle.arena = other.arena
  · rw [arena_of_getElem? (Action.getElem?_setArena harena _) h.symm,
      arena_of_getElem? harena h.symm, Arena.scope?_modify hkeep]
    split
    · rw [Option.isSome_map]
    · rfl
  · rw [arena_setArena_of_ne h]

theorem stale?_congr {after : Store} (h : ∀ closure, after.isLive closure = store.isLive closure)
    (value : Value) : after.stale? value = store.stale? value := by
  unfold stale?
  simp only [h]

/-- Either no argument holds a discarded closure, or there is a first one that does. -/
theorem first_stale (store : Store) (bindings : List (Token × Value)) :
    (∀ binding ∈ bindings, store.stale? binding.2 = none) ∨
    ∃ earlier param value later stale, bindings = earlier ++ (param, value) :: later ∧
      (∀ binding ∈ earlier, store.stale? binding.2 = none) ∧
      store.stale? value = some stale := by
  cases hfind : bindings.find? fun binding => (store.stale? binding.2).isSome with
  | none =>
    left
    intro binding hmem
    simpa using List.find?_eq_none.mp hfind binding hmem
  | some binding =>
    right
    obtain ⟨hstale, earlier, later, hsplit, hearlier⟩ := List.find?_eq_some_iff_append.mp hfind
    obtain ⟨stale, hstale⟩ := Option.isSome_iff_exists.mp hstale
    obtain ⟨param, value⟩ := binding
    refine ⟨earlier, param, value, later, stale, hsplit, ?_, hstale⟩
    intro binding hmem
    simpa using hearlier binding hmem

end Store

namespace Action

variable {store after : Store} {handle : Handle} {arena : Arena} {param : Token} {value : Value}
  {earlier later : List (Token × Value)} {function : Function} {arguments : List Value}
  {line : Option Int} {error : ScopeError}

/-- Parameters whose arguments hold no discarded closure are bound. -/
theorem defineAll_append (harena : store.arenas[handle.arena]? = some arena)
    (hlive : store.isLive handle) (h : ∀ binding ∈ earlier, store.stale? binding.2 = none)
    (rest : List (Token × Value)) : defineAll handle (earlier ++ rest) store = defineAll handle rest
      (store.setArena handle (arena.modify handle.scope (Scope.bindAll earlier))) := by
  induction earlier generalizing store arena with
  | nil =>
    have hsame : store.setArena handle (arena.modify handle.scope (Scope.bindAll [])) = store :=
      (congrArg _ Arena.modify_id).trans (setArena_self harena)
    rw [hsame, List.nil_append]
  | cons binding more ih =>
    obtain ⟨param, value⟩ := binding
    have hkeep (scope : Scope) : (scope.bind param.lexeme value).index = scope.index := by simp
    have hstays := Store.isLive_setArena_modify harena handle.scope hkeep
    rw [List.cons_append, defineAll, bind_apply, define_eq hlive, h _ List.mem_cons_self,
      Store.arena_of_getElem? harena rfl]
    -- binding a parameter leaves the same scopes alive
    have hmore : ∀ binding ∈ more, (store.setArena handle (arena.modify handle.scope
        (Scope.bind param.lexeme value))).stale? binding.2 = none := by
      intro binding hmem
      rw [Store.stale?_congr hstays]
      exact h binding (List.mem_cons_of_mem _ hmem)
    have hrest := ih (getElem?_setArena harena _) (by rw [hstays]; exact hlive) hmore
    rw [setArena_setArena, Arena.modify_modify hkeep] at hrest
    exact hrest

/-- The first argument that holds a discarded closure stops a call, and what was bound before stays
bound. -/
theorem defineAll_of_stale (harena : store.arenas[handle.arena]? = some arena)
    (hlive : store.isLive handle) (h : ∀ binding ∈ earlier, store.stale? binding.2 = none)
    {stale : Handle} (hstale : store.stale? value = some stale) :
    defineAll handle (earlier ++ (param, value) :: later) store =
      (.error (.discarded stale.scope),
        store.setArena handle (arena.modify handle.scope (Scope.bindAll earlier))) := by
  have hkeep (scope : Scope) : (scope.bindAll earlier).index = scope.index := by simp
  have hstays := Store.isLive_setArena_modify harena handle.scope hkeep
  rw [defineAll_append harena hlive h, defineAll, bind_apply,
    define_eq (by rw [hstays]; exact hlive), Store.stale?_congr hstays, hstale]

/-- The handle and the store with which the parameters of a call are bound. -/
theorem bindArguments_apply (harena : store.arenas[function.closure.arena]? = some arena)
    (harity : arguments.length = function.declaration.arity)
    (hlive : (arena.scope? function.closure.scope).isSome) (line : Option Int) : ∃ inner opened,
      enclose function.closure store = (.ok inner, opened) ∧
      inner = ⟨store.issued, function.closure.arena, arena.nextIndex⟩ ∧
      opened.arenas = store.arenas.set function.closure.arena
        (arena.pushed function.closure.scope) ∧
      bindArguments function arguments line store =
        (do defineAll inner (function.declaration.params.zip arguments); return inner) opened := by
  obtain ⟨opened, hopen, harenas⟩ := enclose_of_live harena hlive
  refine ⟨_, opened, hopen, rfl, harenas, ?_⟩
  unfold bindArguments
  simp only [harity, ne_eq, not_true_eq_false, if_false]
  rw [bind_apply, hopen]

/-- What a call that fails at an argument leaves behind: the new scope with the parameters before
that argument, and one child more for the closure, which can therefore not be discarded. -/
structure LeavesCall (function : Function) (arguments : List Value) (store : Store)
    (error : ScopeError) (after : Store) : Prop where
  stopped : ∃ earlier param value later stale,
    function.declaration.params.zip arguments = earlier ++ (param, value) :: later ∧
    (∀ binding ∈ earlier, (enclose function.closure store).2.stale? binding.2 = none) ∧
    (enclose function.closure store).2.stale? value = some stale ∧
    error = .discarded stale.scope ∧
    after.arenas = store.arenas.set function.closure.arena
      ((store.arena function.closure).called function.closure.scope earlier)
  held : ∃ refusal, (discard function.closure).failure? after = some refusal

/-- A scope with a child cannot be discarded. -/
theorem failure?_discard_called (harena : after.arenas[handle.arena]? =
      some (arena.called handle.scope earlier)) (sound : arena.Sound)
    (hlive : (arena.scope? handle.scope).isSome) :
    ∃ refusal, (discard handle).failure? after = some refusal := by
  obtain ⟨scope, hscope⟩ := Option.isSome_iff_exists.mp hlive
  have hcalled : (arena.called handle.scope earlier).scope? handle.scope = some scope.addChild := by
    rw [Arena.scope?_called_of_ne (sound.ne_nextIndex hlive), if_pos rfl, hscope, Option.map_some]
  have hchildren : scope.addChild.liveChildren ≠ 0 := Nat.succ_ne_zero _
  unfold failure? discard
  rw [update_apply, Store.arena_of_getElem? harena rfl, Arena.release_eq, hcalled]
  by_cases hglobal : handle.scope = Arena.globalIndex
  · rw [if_pos hglobal]
    exact ⟨_, rfl⟩
  · rw [if_neg hglobal]
    simp only [if_neg hchildren]
    exact ⟨_, rfl⟩

theorem leavesCall_of_failure (harena : store.arenas[function.closure.arena]? = some arena)
    (sound : arena.Sound) (harity : arguments.length = function.declaration.arity)
    (hlive : store.isLive function.closure)
    (h : bindArguments function arguments line store = (.error error, after)) :
    LeavesCall function arguments store error after := by
  have hstore : store.arena function.closure = arena := Store.arena_of_getElem? harena rfl
  have hclosure : (arena.scope? function.closure.scope).isSome := by
    rw [← hstore]
    exact hlive
  obtain ⟨inner, opened, hopen, hinner, harenas, hcall⟩ :=
    bindArguments_apply harena harity hclosure line
  have hpushed : opened.arenas[inner.arena]? = some (arena.pushed function.closure.scope) := by
    rw [hinner]
    exact Store.getElem?_of_set harena harenas
  have hnew : opened.isLive inner := by
    unfold Store.isLive
    rw [Store.arena_of_getElem? hpushed rfl, Arena.scope?_pushed, hinner, sound.scope?_nextIndex]
    simp
  rw [hcall, bind_apply] at h
  -- arguments are bound up to the first one with a dead closure; without any, the call succeeds
  obtain hnone | ⟨earlier, param, value, later, stale, hsplit, hnone, hstale⟩ :=
    opened.first_stale (function.declaration.params.zip arguments)
  · have hall := defineAll_append hpushed hnew hnone []
    rw [List.append_nil] at hall
    rw [hall] at h
    cases h
  · rw [hsplit, defineAll_of_stale hpushed hnew hnone hstale] at h
    cases h
    have hafter : (opened.setArena inner ((arena.pushed function.closure.scope).modify inner.scope
        (Scope.bindAll earlier))).arenas = store.arenas.set function.closure.arena
          (arena.called function.closure.scope earlier) := by
      unfold Store.setArena
      rw [harenas, hinner, List.set_set]
      rfl
    refine ⟨⟨earlier, param, value, later, stale, hsplit, ?_, ?_, rfl, ?_⟩, ?_⟩
    · rw [hopen]
      exact hnone
    · rw [hopen]
      exact hstale
    · rw [hafter, hstore]
    · exact failure?_discard_called (Store.getElem?_of_set harena hafter) sound hclosure

/-- A call with the wrong number of arguments, or of a function whose closure is discarded, fails
before it opens a scope. -/
theorem unchanged_of_not_opened
    (hnot : ¬(arguments.length = function.declaration.arity ∧ store.isLive function.closure))
    (h : bindArguments function arguments line store = (.error error, after)) : after = store := by
  by_cases harity : arguments.length = function.declaration.arity
  · have hdead : store.isLive function.closure = false := by
      rw [← Bool.not_eq_true]
      exact fun hlive => hnot ⟨harity, hlive⟩
    unfold bindArguments at h
    simp only [harity, ne_eq, not_true_eq_false, if_false] at h
    rw [bind_apply, enclose_apply, Arena.push_of_dead (isLive_eq_false hdead)] at h
    exact (Prod.mk.inj h).2.symm
  · unfold bindArguments at h
    simp only [harity, ne_eq, not_false_eq_true, if_true] at h
    exact (Prod.mk.inj h).2.symm

/-- The index of the new scope is used up. -/
theorem LeavesCall.arenas_ne (h : LeavesCall function arguments store error after)
    (harena : store.arenas[function.closure.arena]? = some arena) :
    after.arenas ≠ store.arenas := by
  obtain ⟨earlier, param, value, later, stale, -, -, -, -, harenas⟩ := h.stopped
  rw [Store.arena_of_getElem? harena rfl] at harenas
  have hafter := Store.getElem?_of_set harena harenas
  intro hsame
  rw [hsame, harena] at hafter
  have hnext : arena.nextIndex = arena.nextIndex + 1 :=
    congrArg Arena.nextIndex (Option.some.inj hafter)
  omega

end Action

/-- A declaration that fails changes nothing, and neither does a call that fails before its scope is
opened. A call that fails later does so at the first argument that holds a function with a discarded
closure, and its scope stays. -/
theorem failed_call_leaves_scope (before : Store) :
    ∃ handle start, Action.newArena before = (.ok handle, start) ∧
      ∀ operations : List Operation,
        let store := start.run operations
        (∀ declaration inner error after,
          Action.declare declaration inner store = (.error error, after) → after = store) ∧
        ∀ function arguments line error after, function.closure.arena = handle.arena →
          Action.bindArguments function arguments line store = (.error error, after) →
          let opens := arguments.length = function.declaration.arity ∧
            store.isLive function.closure
          (¬opens → after = store) ∧
          (opens → after.arenas ≠ store.arenas ∧
            Action.LeavesCall function arguments store error after) := by
  obtain ⟨handle, start, hnew⟩ :
      ∃ handle start, Action.newArena before = (.ok handle, start) := ⟨_, _, rfl⟩
  refine ⟨handle, start, hnew, ?_⟩
  intro operations store
  refine ⟨?_, ?_⟩
  · intro declaration inner error after hfails
    exact (Action.atomic_declare declaration inner store error after hfails).1
  · intro function arguments line error after hclosure hfails opens
    obtain ⟨arena, harena, hbecomes⟩ := Store.becomes_run before hnew operations
    have sound := hbecomes.sound Arena.sound_fresh
    rw [← hclosure] at harena
    refine ⟨fun hnot => Action.unchanged_of_not_opened hnot hfails, fun hopens => ?_⟩
    have hleaves := Action.leavesCall_of_failure harena sound hopens.1 hopens.2 hfails
    exact ⟨hleaves.arenas_ne harena, hleaves⟩

def paired : Function :=
  ⟨⟨1, default, [⟨.identifier, "a", .null, 1⟩, ⟨.identifier, "b", .null, 1⟩], 1, []⟩, ⟨1, 0, 1⟩⟩

def passing : Function := ⟨⟨1, default, [], 1, []⟩, ⟨2, 0, 2⟩⟩

def discardSecond : List Operation :=
  [.enclose ⟨0, 0, 0⟩, .enclose ⟨0, 0, 0⟩, .discard ⟨2, 0, 2⟩]

theorem paired_leaves_scope : ∃ handle start after,
    Action.newArena Store.empty = (.ok handle, start) ∧
    let store := start.run discardSecond
    let arguments := [.literal .null, .list [.function passing]]
    Action.bindArguments paired arguments none store = (.error (.discarded 2), after) ∧
    Action.LeavesCall paired arguments store (.discarded 2) after ∧
    (Action.lookup ⟨3, 0, 3⟩ ⟨"a", none⟩ after).1 = .ok (.literal .null) := by
  obtain ⟨handle, start, hnew, hall⟩ := failed_call_leaves_scope Store.empty
  cases hnew
  obtain ⟨-, hcalls⟩ := hall discardSecond
  exact ⟨_, _, _, rfl, rfl, ((hcalls paired _ none _ _ rfl rfl).2 ⟨rfl, rfl⟩).2, rfl⟩

/-- Before the call the closure could be discarded, and after it that fails, although the call
failed itself. -/
theorem failed_call_holds_closure : ∃ handle start after,
    Action.newArena Store.empty = (.ok handle, start) ∧
    let store := start.run discardSecond
    Action.bindArguments paired [.literal .null, .function passing] none store =
      (.error (.discarded 2), after) ∧
    (store.arena handle).size = 2 ∧ (after.arena handle).size = 3 ∧
    (Action.discard paired.closure).failure? store = none ∧
    (Action.discard paired.closure).failure? after = some (.stillEnclosing 1 1) :=
  ⟨_, _, _, rfl, rfl, rfl, rfl, rfl, rfl⟩

end ScriptLang

import ScriptLang.Proofs.Scope.Stale

namespace ScriptLang

namespace Arena

variable {arena : Arena} {index : Nat} {scope : Scope} {name : Identifier} {value : Value}

theorem scope_of_live (h : arena.scope? index = some scope) : arena.scope index = .ok scope := by
  unfold Arena.scope
  rw [h]

theorem push_of_live (h : (arena.scope? index).isSome) :
    arena.push index = .ok (arena.nextIndex, arena.pushed index) := by
  obtain ⟨scope, hscope⟩ := Option.isSome_iff_exists.mp h
  unfold push
  rw [scope_of_live hscope]
  rfl

theorem define_of_live (h : (arena.scope? index).isSome) :
    arena.define index name value = .ok (arena.modify index (Scope.bind name.text value)) := by
  obtain ⟨scope, hscope⟩ := Option.isSome_iff_exists.mp h
  unfold define
  rw [scope_of_live hscope]
  rfl

theorem binder?_eq_none_iff {name : String} : arena.binder? index name = none ↔
    ∀ scope ∈ arena.chain index, scope.lookup name = none := by
  unfold binder?
  simp

theorem assign_of_unbound (h : (arena.scope? index).isSome)
    (hbinder : arena.binder? index name.text = none) :
    arena.assign index name value = .error (.undefined name) := by
  unfold assign resolve
  rw [find_of_live h, hbinder]
  rfl

theorem assign_of_bound (h : (arena.scope? index).isSome)
    (hbinder : arena.binder? index name.text = some scope) (value : Value) : ∃ previous,
      scope.lookup name.text = some previous ∧ arena.assign index name value =
        .ok (previous, arena.modify scope.index (Scope.bind name.text value)) := by
  obtain ⟨previous, hprevious⟩ := lookup_of_binder? hbinder
  refine ⟨previous, hprevious, ?_⟩
  unfold assign resolve
  rw [find_of_live h, hbinder]
  simp only [bind, Except.bind, hprevious]
  rfl

end Arena

theorem Store.getElem?_of_set {store after : Store} {number : Nat} {arena arena' : Arena}
    (harena : store.arenas[number]? = some arena)
    (h : after.arenas = store.arenas.set number arena') : after.arenas[number]? = some arena' := by
  rw [h]
  exact List.getElem?_set_self (List.getElem?_eq_some_iff.mp harena).1

def Store.stale? (store : Store) (value : Value) : Option Handle :=
  value.closures.find? (!store.isLive ·)

theorem Store.stale?_eq_none_iff {store : Store} {value : Value} :
    store.stale? value = none ↔ ∀ closure ∈ value.closures, store.isLive closure := by
  unfold stale?
  simp

namespace Action

variable {store : Store} {handle : Handle} {arena : Arena} {name : Identifier} {value : Value}

theorem enclose_of_live (harena : store.arenas[handle.arena]? = some arena)
    (hlive : (arena.scope? handle.scope).isSome) : ∃ opened,
      enclose handle store = (.ok ⟨store.issued, handle.arena, arena.nextIndex⟩, opened) ∧
      opened.arenas = store.arenas.set handle.arena (arena.pushed handle.scope) := by
  rw [enclose_apply, Store.arena_of_getElem? harena rfl, Arena.push_of_live hlive]
  exact ⟨_, rfl, rfl⟩

theorem define_eq (hlive : store.isLive handle) : define handle name value store =
    match store.stale? value with
    | some stale => (.error (.discarded stale.scope), store)
    | none => (.ok (), store.setArena handle
        ((store.arena handle).modify handle.scope (Scope.bind name.text value))) := by
  unfold define Store.stale?
  rw [bind_apply, requireClosures_eq]
  cases value.closures.find? (!store.isLive ·) with
  | some stale => rfl
  | none =>
    simp only [update_apply, Arena.define_of_live hlive]
    rfl

/-- The scopes of the chain are looked through when the closures in the value are all live. -/
theorem failure?_assign (hlive : store.isLive handle) :
    (assign handle name value).failure? store =
      match store.stale? value with
      | some stale => some (.discarded stale.scope)
      | none =>
        if (store.arena handle).binder? handle.scope name.text = none then some (.undefined name)
        else none := by
  unfold failure? assign Store.stale?
  rw [bind_apply, requireClosures_eq]
  cases value.closures.find? (!store.isLive ·) with
  | some stale => rfl
  | none =>
    simp only [update_apply]
    cases hbinder : (store.arena handle).binder? handle.scope name.text with
    | none =>
      rw [Arena.assign_of_unbound hlive hbinder]
      rfl
    | some scope =>
      obtain ⟨previous, -, hassign⟩ := Arena.assign_of_bound hlive hbinder value
      rw [hassign]
      rfl

theorem failure?_define (hlive : store.isLive handle) :
    (define handle name value).failure? store =
      (store.stale? value).map fun stale => .discarded stale.scope := by
  unfold failure?
  rw [define_eq hlive]
  cases store.stale? value <;> rfl

end Action

/-- A definition through a live handle fails if and only if the value holds a function whose closure
is discarded. An assignment fails then, too, and otherwise if no scope around binds the name. -/
theorem write_fails_iff {store : Store} {handle : Handle} (hlive : store.isLive handle)
    (name : Identifier) (value : Value) (error : ScopeError) :
    ((Action.define handle name value).failure? store = some error ↔
      ∃ stale, store.stale? value = some stale ∧ error = .discarded stale.scope) ∧
    ((Action.assign handle name value).failure? store = some error ↔
      (∃ stale, store.stale? value = some stale ∧ error = .discarded stale.scope) ∨
      ((∀ closure ∈ value.closures, store.isLive closure) ∧
        (∀ scope ∈ (store.arena handle).chain handle.scope, scope.lookup name.text = none) ∧
        error = .undefined name)) := by
  rw [Action.failure?_define hlive, Action.failure?_assign hlive, ← Store.stale?_eq_none_iff,
    ← Arena.binder?_eq_none_iff]
  cases store.stale? value with
  | some stale => simp [eq_comm]
  | none =>
    by_cases hbinder : (store.arena handle).binder? handle.scope name.text = none
    · simp [hbinder, eq_comm]
    · simp [hbinder]

def outlived : Store :=
  (Action.newArena Store.empty).2.run (bindInnerFunction ++ [.discard ⟨1, 0, 1⟩])

theorem outlived_refuses_innerFunction : outlived.isLive ⟨0, 0, 0⟩ = true ∧
    (Action.define ⟨0, 0, 0⟩ ⟨"g", none⟩ (.list [.literal .null, .function innerFunction])).failure?
      outlived = some (.discarded 1) ∧
    (Action.assign ⟨0, 0, 0⟩ ⟨"g", none⟩ (.literal .null)).failure? outlived =
      some (.undefined ⟨"g", none⟩) := by
  refine ⟨rfl, (write_fails_iff rfl _ _ _).1.mpr ⟨_, rfl, rfl⟩, ?_⟩
  refine (write_fails_iff rfl _ _ _).2.mpr (Or.inr ⟨?_, ?_, rfl⟩)
  · intro closure hmem
    cases hmem
  · intro scope hmem
    cases List.mem_singleton.mp hmem
    rfl

/-- The scope is live and binds the name, and yet neither write succeeds. -/
theorem live_scope_refuses_value : outlived.isLive ⟨0, 0, 0⟩ = true ∧
    (Action.contains ⟨0, 0, 0⟩ ⟨"f", none⟩ outlived).1 = .ok true ∧
    (Action.define ⟨0, 0, 0⟩ ⟨"f", none⟩ (.function innerFunction)).failure? outlived =
      some (.discarded 1) ∧
    (Action.assign ⟨0, 0, 0⟩ ⟨"f", none⟩ (.function innerFunction)).failure? outlived =
      some (.discarded 1) := ⟨rfl, rfl, rfl, rfl⟩

end ScriptLang

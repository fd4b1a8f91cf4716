import ScriptLang.Proofs.Scope.Stepwise

namespace ScriptLang

def ScopeError.isOfScope : ScopeError → Bool
  | argumentCount _ _ _ _ => false
  | _ => true

def FailsOfScope {α : Type} (result : Except ScopeError α) : Prop :=
  ∀ error, result = .error error → error.isOfScope

namespace FailsOfScope

variable {α β : Type} {arena : Arena} {index : Nat} {name : Identifier} {value : Value}

theorem pure (result : α) : FailsOfScope (.ok result) := by
  intro error h
  cases h

theorem throw {error : ScopeError} (h : error.isOfScope) :
    FailsOfScope (.error error : Except ScopeError α) := by
  intro other hother
  cases hother
  exact h

theorem bind {result : Except ScopeError α} {next : α → Except ScopeError β}
    (h : FailsOfScope result) (hnext : ∀ value, FailsOfScope (next value)) :
    FailsOfScope (result >>= next) := by
  cases result with
  | ok value => exact hnext value
  | error error => exact throw (h error rfl)

theorem scope : FailsOfScope (arena.scope index) := by
  unfold Arena.scope
  split
  · exact pure _
  · exact throw rfl

theorem find (name : String) : FailsOfScope (arena.find index name) :=
  scope.bind fun _ => pure _

theorem depth : FailsOfScope (arena.depth index) := scope.bind fun _ => pure _

theorem push : FailsOfScope (arena.push index) := scope.bind fun _ => pure _

theorem release : FailsOfScope (arena.release index) := by
  rw [Arena.release_eq]
  split
  · exact throw rfl
  · split
    · exact throw rfl
    · split
      · exact pure _
      · exact throw rfl

theorem define : FailsOfScope (arena.define index name value) := scope.bind fun _ => pure _

theorem resolve : FailsOfScope (arena.resolve index name) := by
  apply (find name.text).bind
  intro found
  split
  · exact throw rfl
  · split
    · exact throw rfl
    · exact pure _

theorem assign : FailsOfScope (arena.assign index name value) := resolve.bind fun _ => pure _

theorem get : FailsOfScope (arena.get index name) := resolve.bind fun _ => pure _

theorem contains : FailsOfScope (arena.contains index name) :=
  (find name.text).bind fun _ => pure _

end FailsOfScope

namespace Action

variable {α β : Type}

/-- An action that fails, if it does, before it has changed anything, and with an error about a
scope or a name. -/
def Atomic (action : Action α) : Prop :=
  ∀ store error after, action store = (.error error, after) → after = store ∧ error.isOfScope

theorem Atomic.of_failure {action : Action α} (h : action.Atomic) {store : Store}
    {error : ScopeError} (hfailure : action.failure? store = some error) :
    (action store).2 = store ∧ error.isOfScope := by
  unfold failure? at hfailure
  rcases hresult : action store with ⟨result, after⟩
  rw [hresult] at hfailure
  cases result with
  | ok value => cases hfailure
  | error other =>
    cases hfailure
    exact h store error after hresult

theorem atomic_view (handle : Handle) {look : Arena → Except ScopeError α}
    (h : ∀ arena, FailsOfScope (look arena)) : (view handle look).Atomic := by
  intro store error after hresult
  rw [view_apply] at hresult
  obtain ⟨hlook, rfl⟩ := Prod.mk.inj hresult
  exact ⟨rfl, h _ error hlook⟩

theorem atomic_update (handle : Handle) {change : Arena → Except ScopeError (α × Arena)}
    (h : ∀ arena, FailsOfScope (change arena)) : (update handle change).Atomic := by
  intro store error after hresult
  rw [update_apply] at hresult
  cases hchange : change (store.arena handle) with
  | ok pair =>
    rw [hchange] at hresult
    cases hresult
  | error other =>
    rw [hchange] at hresult
    cases hresult
    exact ⟨rfl, h _ error hchange⟩

/-- What comes first changes nothing. -/
theorem Atomic.after {first : Action α} {next : α → Action β} (h : first.Atomic)
    (hkeep : ∀ store, (first store).2 = store) (hnext : ∀ value, (next value).Atomic) :
    (first >>= next).Atomic := by
  intro store error after hresult
  have hstore := hkeep store
  rw [bind_apply] at hresult
  rcases hfirst : first store with ⟨result, between⟩
  rw [hfirst] at hresult hstore
  obtain rfl : between = store := hstore
  cases result with
  | ok value => exact hnext value _ error after hresult
  | error other =>
    cases hresult
    exact h _ error _ hfirst

/-- What comes next cannot fail. -/
theorem Atomic.andThen {first : Action α} {next : α → Action β} (h : first.Atomic)
    (hnext : ∀ value store, (next value).failure? store = none) : (first >>= next).Atomic := by
  intro store error after hresult
  rw [bind_apply] at hresult
  rcases hfirst : first store with ⟨result, between⟩
  rw [hfirst] at hresult
  cases result with
  | ok value =>
    have hnone := hnext value between
    unfold failure? at hnone
    rw [show next value between = (.error error, after) from hresult] at hnone
    cases hnone
  | error other =>
    cases hresult
    exact h store error _ hfirst

theorem atomic_requireClosures (value : Value) : (requireClosures value).Atomic := by
  intro store error after hresult
  rw [requireClosures_eq] at hresult
  cases hstale : value.closures.find? (!store.isLive ·) with
  | some stale =>
    rw [hstale] at hresult
    cases hresult
    exact ⟨rfl, rfl⟩
  | none =>
    rw [hstale] at hresult
    cases hresult

theorem atomic_enclose (handle : Handle) : (enclose handle).Atomic :=
  (atomic_update handle fun _ => FailsOfScope.push).andThen fun _ _ => rfl

theorem atomic_enclosing (handle : Handle) : (enclosing handle).Atomic := by
  apply (atomic_view handle fun _ => FailsOfScope.scope).andThen
  intro scope store
  obtain ⟨index, parent, bindings, liveChildren⟩ := scope
  cases parent with
  | none => rfl
  | some parent => rfl

theorem atomic_depth (handle : Handle) : (depth handle).Atomic :=
  atomic_view handle fun _ => FailsOfScope.depth

theorem atomic_describe (handle : Handle) : (describe handle).Atomic :=
  (atomic_depth handle).andThen fun _ _ => rfl

theorem atomic_discard (handle : Handle) : (discard handle).Atomic :=
  atomic_update handle fun _ => FailsOfScope.release.bind fun _ => FailsOfScope.pure _

theorem atomic_define (handle : Handle) (name : Identifier) (value : Value) :
    (define handle name value).Atomic := by
  apply (atomic_requireClosures value).after (requireClosures_apply value)
  intro _
  exact atomic_update handle fun _ => FailsOfScope.define.bind fun _ => FailsOfScope.pure _

theorem atomic_assign (handle : Handle) (name : Identifier) (value : Value) :
    (assign handle name value).Atomic := by
  apply (atomic_requireClosures value).after (requireClosures_apply value)
  intro _
  exact atomic_update handle fun _ => FailsOfScope.assign

theorem atomic_declare (declaration : FunctionDecl) (handle : Handle) :
    (declare declaration handle).Atomic := (atomic_define handle _ _).andThen fun _ _ => rfl

end Action

def Operation.isCall : Operation → Bool
  | bindArguments _ _ _ => true
  | _ => false

theorem Operation.unchanged_of_failure {operation : Operation} {store : Store} {error : ScopeError}
    (hcall : operation.isCall = false) (h : operation.failure? store = some error) :
    operation.after store = store ∧ error.isOfScope := by
  cases operation with
  | newArena => cases h
  | enclose handle => exact (Action.atomic_enclose handle).of_failure h
  | enclosing handle => exact (Action.atomic_enclosing handle).of_failure h
  | depth handle => exact (Action.atomic_depth handle).of_failure h
  | describe handle => exact (Action.atomic_describe handle).of_failure h
  | discard handle => exact (Action.atomic_discard handle).of_failure h
  | define handle name value => exact (Action.atomic_define handle name value).of_failure h
  | assign handle name value => exact (Action.atomic_assign handle name value).of_failure h
  | lookup handle name =>
    exact (Action.atomic_view handle fun _ => FailsOfScope.get).of_failure h
  | contains handle name =>
    exact (Action.atomic_view handle fun _ => FailsOfScope.contains).of_failure h
  | declare declaration handle =>
    exact (Action.atomic_declare declaration handle).of_failure h
  | bindArguments function arguments line => cases hcall

/-- Any operation but a call, through a handle that is live or not, leaves everything as it was when
it fails, and it fails because of a scope or a name. The changes that it makes to an arena when it
succeeds can be made one write after the other: they come to the same, and when they fail, then
before the first write. -/
theorem failed_operation_changes_nothing (before : Store) :
    ∃ handle start, Action.newArena before = (.ok handle, start) ∧
      ∀ operations : List Operation,
        let store := start.run operations
        let arena := store.arena handle
        (∀ (operation : Operation) (error : ScopeError), operation.isCall = false →
          operation.failure? store = some error →
            operation.after store = store ∧ error.isOfScope) ∧
        (∀ index,
          Stepwise.push index arena = Stepwise.atOnce arena (arena.push index) ∧
          Stepwise.release index arena =
            Stepwise.atOnce arena ((arena.release index).map fun after => ((), after))) ∧
        ∀ index name value,
          Stepwise.define index name value arena =
            Stepwise.atOnce arena ((arena.define index name value).map fun after => ((), after)) ∧
          Stepwise.assign index name value arena =
            Stepwise.atOnce arena (arena.assign index name value) := by
  refine ⟨_, _, rfl, ?_⟩
  intro operations store arena
  obtain ⟨current, hcurrent, hbecomes⟩ := Store.becomes_run before rfl operations
  have sound : arena.Sound := by
    rw [show arena = current from Store.arena_of_getElem? hcurrent rfl]
    exact hbecomes.sound Arena.sound_fresh
  refine ⟨?_, ?_, ?_⟩
  · intro operation error hcall hfailure
    exact Operation.unchanged_of_failure hcall hfailure
  · intro index
    exact ⟨Stepwise.push_apply index arena, Stepwise.release_apply sound index⟩
  · intro index name value
    exact ⟨Stepwise.define_apply index name value arena,
      Stepwise.assign_apply sound index name value⟩

/-- The outer one of two scopes cannot be discarded, and no name can be looked up from a scope that
is gone. -/
theorem outer_scope_stays : ∃ handle start, Action.newArena Store.empty = (.ok handle, start) ∧
    let store := start.run (bindInnerFunction ++ [.enclose ⟨1, 0, 1⟩, .discard ⟨2, 0, 2⟩,
      .enclose ⟨1, 0, 1⟩])
    (Operation.discard ⟨1, 0, 1⟩).failure? store = some (.stillEnclosing 1 1) ∧
    (Operation.discard ⟨1, 0, 1⟩).after store = store ∧
    (Operation.lookup ⟨2, 0, 2⟩ ⟨"f", none⟩).failure? store = some (.discarded 2) ∧
    (Operation.lookup ⟨2, 0, 2⟩ ⟨"f", none⟩).after store = store ∧
    Stepwise.release 1 (store.arena handle) =
      (.error (.error (.stillEnclosing 1 1)), store.arena handle) := by
  obtain ⟨handle, start, hnew, hall⟩ := failed_operation_changes_nothing Store.empty
  refine ⟨handle, start, hnew, ?_⟩
  cases hnew
  obtain ⟨hunchanged, hstepwise, -⟩ := hall (bindInnerFunction ++
    [.enclose ⟨1, 0, 1⟩, .discard ⟨2, 0, 2⟩, .enclose ⟨1, 0, 1⟩])
  exact ⟨rfl, (hunchanged (.discard ⟨1, 0, 1⟩) _ rfl rfl).1, rfl,
    (hunchanged (.lookup ⟨2, 0, 2⟩ ⟨"f", none⟩) _ rfl rfl).1, (hstepwise 1).2⟩

end ScriptLang

import ScriptLang.Scope.Arena

namespace ScriptLang

structure Store where
  arenas : List Arena
  issued : Nat

namespace Store

def empty : Store := ⟨[], 0⟩

def arena (store : Store) (handle : Handle) : Arena := store.arenas[handle.arena]?.getD Arena.fresh

def setArena (store : Store) (handle : Handle) (arena : Arena) : Store :=
  { store with arenas := store.arenas.set handle.arena arena }

end Store

/-- Something done to a store, which may fail part of the way. -/
abbrev Action : Type → Type := ExceptT ScopeError (StateM Store)

namespace Action

def issue (arena scope : Nat) : Action Handle := do
  let store ← get
  set { store with issued := store.issued + 1 }
  return ⟨store.issued, arena, scope⟩

def view {α : Type} (handle : Handle) (look : Arena → Except ScopeError α) : Action α := do
  liftExcept (look ((← get).arena handle))
where
  liftExcept {α : Type} : Except ScopeError α → Action α
    | .ok value => pure value
    | .error error => throw error

def update {α : Type} (handle : Handle) (change : Arena → Except ScopeError (α × Arena)) :
    Action α := do
  let (value, arena) ← view handle change
  -- a change that fails is not stored
  modify fun store => store.setArena handle arena
  return value

def newArena : Action Handle := do
  let store ← get
  set { store with arenas := store.arenas ++ [Arena.fresh] }
  issue store.arenas.length Arena.globalIndex

def enclose (handle : Handle) : Action Handle := do
  let index ← update handle fun arena => arena.push handle.scope
  issue handle.arena index

/-- A handle to the parent of a scope, or nothing for a global scope. -/
def enclosing (handle : Handle) : Action (Option Handle) := do
  let scope ← view handle fun arena => arena.scope handle.scope
  match scope.parent with
  | none => return none
  | some parent => some <$> issue handle.arena parent

def depth (handle : Handle) : Action Nat := view handle fun arena => arena.depth handle.scope

def discard (handle : Handle) : Action Unit :=
  update handle fun arena => do return ((), ← arena.release handle.scope)

/-- Fails for a value that holds a function whose closure is discarded. -/
def requireClosures (value : Value) : Action Unit :=
  value.closures.forM fun closure => do
    -- only a live scope has a depth
    let _ ← depth closure

def define (handle : Handle) (name : Identifier) (value : Value) : Action Unit := do
  requireClosures value
  -- only now is the scope itself looked at, whose error comes second
  update handle fun arena => do return ((), ← arena.define handle.scope name value)

def assign (handle : Handle) (name : Identifier) (value : Value) : Action Value := do
  requireClosures value
  update handle fun arena => arena.assign handle.scope name value

def lookup (handle : Handle) (name : Identifier) : Action Value :=
  view handle fun arena => arena.get handle.scope name

def contains (handle : Handle) (name : Identifier) : Action Bool :=
  view handle fun arena => arena.contains handle.scope name

def describe (handle : Handle) : Action String := do
  return "Environment(scope=" ++ toString handle.scope ++ ", depth=" ++
    toString (← depth handle) ++ ")"

/-- Builds a function and binds it by its name in the scope that becomes its closure. -/
def declare (declaration : FunctionDecl) (handle : Handle) : Action Function := do
  let function : Function := ⟨declaration, handle⟩
  define handle (Identifier.ofToken declaration.name) (.function function)
  return function

def defineAll (handle : Handle) : List (Token × Value) → Action Unit
  | [] => pure ()
  | (param, value) :: rest => do
    define handle (Identifier.ofToken param) value
    defineAll handle rest

/-- Opens the scope of a call inside the closure of a function, with each parameter bound to its
argument. -/
def bindArguments (function : Function) (arguments : List Value) (line : Option Int) :
    Action Handle := do
  let arity := function.declaration.arity
  if arguments.length ≠ arity then
    throw (.argumentCount function.name arity arguments.length line)
  let handle ← enclose function.closure
  -- if a parameter cannot be bound, then the new scope stays open
  defineAll handle (function.declaration.params.zip arguments)
  return handle

/-- Runs a body with a new scope inside that of a handle. The scope is discarded when the body ends,
also when it fails. If it cannot be discarded, then that is the error. -/
def within {m : Type → Type} [Monad m] [MonadFinally m] {α : Type}
    (lift : {β : Type} → Action β → m β) (handle : Handle) (body : Handle → m α) : m α := do
  let inner ← lift (enclose handle)
  try body inner finally lift (discard inner)

end Action

end ScriptLang

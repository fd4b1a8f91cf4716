import ScriptLang.Scope.Value

namespace ScriptLang

/-- A live scope and its bindings, each name once. -/
structure Scope where
  index : Nat
  parent : Option Nat
  bindings : List (String × Value)
  liveChildren : Nat

namespace Scope

def lookup (scope : Scope) (name : String) : Option Value := scope.bindings.lookup name

def bind (name : String) (value : Value) (scope : Scope) : Scope :=
  if (scope.lookup name).isSome then
    { scope with
      bindings := scope.bindings.map fun binding =>
        if binding.1 = name then (name, value) else binding }
  else { scope with bindings := scope.bindings ++ [(name, value)] }

def addChild (scope : Scope) : Scope := { scope with liveChildren := scope.liveChildren + 1 }

def removeChild (scope : Scope) : Scope := { scope with liveChildren := scope.liveChildren - 1 }

def sortedBindings (scope : Scope) : List (String × Value) :=
  scope.bindings.mergeSort fun a b => a.1 ≤ b.1

end Scope

/-- The live scopes in the order of their indices, and the index that the next one gets. -/
structure Arena where
  scopes : List Scope
  nextIndex : Nat

namespace Arena

def globalIndex : Nat := 0

def fresh : Arena := ⟨[⟨globalIndex, none, [], 0⟩], globalIndex + 1⟩

instance : Inhabited Arena := ⟨fresh⟩

def size (arena : Arena) : Nat := arena.scopes.length

def scope? (arena : Arena) (index : Nat) : Option Scope :=
  arena.scopes.find? fun scope => scope.index = index

def scope (arena : Arena) (index : Nat) : Except ScopeError Scope :=
  match arena.scope? index with
  | some scope => .ok scope
  | none => .error (.discarded index)

def modify (arena : Arena) (index : Nat) (change : Scope → Scope) : Arena :=
  { arena with
    scopes := arena.scopes.map fun scope => if scope.index = index then change scope else scope }

/-- Of scopes from young to old, the one with the wanted index and those that enclose it. A scope is
always younger than its parent. -/
def chainFrom (wanted : Option Nat) : List Scope → List Scope
  | [] => []
  | scope :: older =>
    if some scope.index = wanted then scope :: chainFrom scope.parent older
    else chainFrom wanted older

def chain (arena : Arena) (index : Nat) : List Scope :=
  chainFrom (some index) arena.scopes.reverse

def find (arena : Arena) (index : Nat) (name : String) : Except ScopeError (Option Scope) := do
  let _ ← arena.scope index
  return (arena.chain index).find? fun scope => (scope.lookup name).isSome

def depth (arena : Arena) (index : Nat) : Except ScopeError Nat := do
  let _ ← arena.scope index
  return (arena.chain index).length - 1

def push (arena : Arena) (parent : Nat) : Except ScopeError (Nat × Arena) := do
  let _ ← arena.scope parent
  let index := arena.nextIndex
  let enclosed := arena.modify parent Scope.addChild
  return (index, ⟨enclosed.scopes ++ [⟨index, some parent, [], 0⟩], index + 1⟩)

/-- Discards a scope that encloses no live one; the global scope stays. -/
def release (arena : Arena) (index : Nat) : Except ScopeError Arena := do
  if index = globalIndex then throw .globalDiscard
  let scope ← arena.scope index
  if scope.liveChildren ≠ 0 then throw (.stillEnclosing index scope.liveChildren)
  let remaining := { arena with scopes := arena.scopes.filter fun scope => scope.index ≠ index }
  match scope.parent with
  | some parent => return remaining.modify parent Scope.removeChild
  | none => return remaining

def define (arena : Arena) (index : Nat) (name : Identifier) (value : Value) :
    Except ScopeError Arena := do
  let _ ← arena.scope index
  return arena.modify index (Scope.bind name.text value)

/-- The innermost scope of a chain that binds a name, and the value there. -/
def resolve (arena : Arena) (index : Nat) (name : Identifier) :
    Except ScopeError (Scope × Value) := do
  match ← arena.find index name.text with
  | none => throw (.undefined name)
  | some scope =>
    match scope.lookup name.text with
    | none => throw (.undefined name)
    | some value => return (scope, value)

/-- Overwrites the innermost binding of a name, and gives the value that was there. -/
def assign (arena : Arena) (index : Nat) (name : Identifier) (value : Value) :
    Except ScopeError (Value × Arena) := do
  let (scope, previous) ← arena.resolve index name
  return (previous, arena.modify scope.index (Scope.bind name.text value))

def get (arena : Arena) (index : Nat) (name : Identifier) : Except ScopeError Value := do
  return (← arena.resolve index name).2

def contains (arena : Arena) (index : Nat) (name : Identifier) : Except ScopeError Bool := do
  return (← arena.find index name.text).isSome

end Arena

end ScriptLang

import ScriptLang.Scope.Store

namespace ScriptLang

inductive Operand where
  | literal (value : Literal)
  | list (items : List Operand)
  | function (number : Nat)

instance : Inhabited Operand := ⟨.literal .null⟩

inductive Step where
  | newArena
  | enclose (handle : Nat)
  | enclosing (handle : Nat)
  | define (handle : Nat) (name : Identifier) (value : Operand)
  | assign (handle : Nat) (name : Identifier) (value : Operand)
  | lookup (handle : Nat) (name : Identifier)
  | lookupPush (handle : Nat) (name : Identifier) (item : Operand)
  | contains (handle : Nat) (name : Identifier)
  | depth (handle : Nat)
  | describe (handle : Nat)
  | discard (handle : Nat)
  | size (handle : Nat)
  | scopes (handle : Nat)
  | churn (handle count : Nat)
  | declare (handle : Nat) (declaration : FunctionDecl)
  | makeFunction (handle : Nat) (declaration : FunctionDecl)
  | bindArguments (function : Nat) (arguments : List Operand) (line : Option Int)
  | alike (function other : Nat)
  | within (handle : Nat) (body : List Step)

inductive Answer where
  | nothing
  | handle (number scope depth : Nat)
  | previous (value : Value)
  | value (value : Value)
  | pushed (copy kept : Value)
  | truth (value : Bool)
  | count (value : Nat)
  | text (value : String)
  | scopes (scopes : List Scope)
  | churned (size nextIndex : Nat)
  | declared (number : Nat) (function : Function)
  | made (number : Nat) (function : Function)
  | block (answers : List Answer) (failure : Option ScopeError)

/-- A script that is being run: its store, the handles and functions by number, and the answers in
the innermost block so far, the latest one first. -/
structure ScriptRun where
  store : Store
  handles : List Handle
  functions : List Function
  answers : List Answer

abbrev Script : Type → Type := ExceptT ScopeError (StateM ScriptRun)

namespace Script

def start : ScriptRun := ⟨Store.empty, [], [], []⟩

def act {α : Type} (action : Action α) : Script α := fun run =>
  let (result, store) := action run.store
  (result, { run with store })

def handle (number : Nat) : Script Handle := do
  return ((← get).handles[number]?).getD default

def function (number : Nat) : Script Function := do
  return ((← get).functions[number]?).getD ⟨⟨0, default, [], 0, []⟩, default⟩

def addHandle (handle : Handle) : Script Answer := do
  let number := (← get).handles.length
  modify fun run => { run with handles := run.handles ++ [handle] }
  return .handle number handle.scope (← act (Action.depth handle))

def addFunction (function : Function) : Script Nat := do
  let number := (← get).functions.length
  modify fun run => { run with functions := run.functions ++ [function] }
  return number

mutual

def eval : Operand → Script Value
  | .literal value => return .literal value
  | .list items => return .list (← evalAll items)
  | .function number => return .function (← function number)

def evalAll : List Operand → Script (List Value)
  | [] => return []
  | term :: rest => return (← eval term) :: (← evalAll rest)

end

def attempt {α : Type} (script : Script α) : Script (Except ScopeError α) := fun run =>
  let (result, run) := script.run run
  (.ok result, run)

/-- The answers of a block up to its first failure, and that failure. -/
def transcript (block : Script Unit) : Script Answer := do
  let outside := (← get).answers
  -- an inner block collects its answers apart
  modify fun run => { run with answers := [] }
  let result ← attempt block
  let answers := (← get).answers.reverse
  modify fun run => { run with answers := outside }
  match result with
  | .ok () => return .block answers none
  | .error error => return .block answers (some error)

/-- Opens a scope and one inside it, binds a name there, and discards both, again and again. -/
def churn (handle : Handle) : Nat → Action Unit
  | 0 => return
  | count + 1 => do
    let outer ← Action.enclose handle
    let inner ← Action.enclose outer
    Action.define inner ⟨"i", none⟩ (.literal (.number (Double.zero false)))
    Action.discard inner
    Action.discard outer
    churn handle count

mutual

def perform : Step → Script Answer
  | .newArena => do addHandle (← act Action.newArena)
  | .enclose number => do
    let handle ← handle number
    addHandle (← act (Action.enclose handle))
  | .enclosing number => do
    let handle ← handle number
    match ← act (Action.enclosing handle) with
    | none => return .nothing
    | some parent => addHandle parent
  | .define number name term => do
    let handle ← handle number
    let value ← eval term
    act (Action.define handle name value)
    return .nothing
  | .assign number name term => do
    let handle ← handle number
    let value ← eval term
    return .previous (← act (Action.assign handle name value))
  | .lookup number name => do
    let handle ← handle number
    return .value (← act (Action.lookup handle name))
  | .lookupPush number name term => do
    let handle ← handle number
    let item ← eval term
    let copy ← act (Action.lookup handle name)
    return .pushed (copy.push item) (← act (Action.lookup handle name))
  | .contains number name => do
    let handle ← handle number
    return .truth (← act (Action.contains handle name))
  | .depth number => do
    let handle ← handle number
    return .count (← act (Action.depth handle))
  | .describe number => do
    let handle ← handle number
    return .text (← act (Action.describe handle))
  | .discard number => do
    let handle ← handle number
    act (Action.discard handle)
    return .nothing
  | .size number => do
    let handle ← handle number
    return .count ((← get).store.arena handle).size
  | .scopes number => do
    let handle ← handle number
    return .scopes ((← get).store.arena handle).scopes
  | .churn number count => do
    let handle ← handle number
    act (churn handle count)
    let arena := (← get).store.arena handle
    return .churned arena.size arena.nextIndex
  | .declare number declaration => do
    let handle ← handle number
    let function ← act (Action.declare declaration handle)
    return .declared (← addFunction function) function
  | .makeFunction number declaration => do
    let handle ← handle number
    let function : Function := ⟨declaration, handle⟩
    return .made (← addFunction function) function
  | .bindArguments number terms line => do
    let function ← function number
    let arguments ← evalAll terms
    addHandle (← act (Action.bindArguments function arguments line))
  | .alike number other => do
    let function ← Script.function number
    return .truth (function.alike (← Script.function other))
  | .within number body => do
    let handle ← handle number
    transcript (Action.within act handle fun inner => do
      let _ ← addHandle inner
      performEach body)

def performEach : List Step → Script Unit
  | [] => return
  | step :: rest => do
    let answer ← perform step
    modify fun run => { run with answers := answer :: run.answers }
    performEach rest

end

def performAll : List Step → Script (List (Except ScopeError Answer))
  | [] => return []
  | step :: rest => do
    let result ← attempt (perform step)
    return result :: (← performAll rest)

end Script

def runScript (steps : List Step) : List (Except ScopeError Answer) :=
  match ((Script.performAll steps).run Script.start).1 with
  | .ok results => results
  | .error error => [.error error]

end ScriptLang

import ScriptLang.Proofs.Scope.Writes

namespace ScriptLang

/-- What stops a change to an arena: an error, or a scope that is taken for granted and is not
there. -/
inductive Fault where
  | error (error : ScopeError)
  | missing

/-- Changes to an arena, one write after the other. What is written before a fault stays. -/
abbrev Stepwise : Type → Type := ExceptT Fault (StateM Arena)

namespace Stepwise

variable {α β : Type}

def look (find : Arena → Except ScopeError α) : Stepwise α := do
  match find (← get) with
  | .ok value => return value
  | .error error => throw (.error error)

def alter (index : Option Nat) (change : Scope → Scope) : Stepwise Unit := do
  match index.bind (← get).scope? with
  | none => throw .missing
  | some scope => modify fun arena => arena.modify scope.index change

def push (parent : Nat) : Stepwise Nat := do
  let _ ← look fun arena => arena.scope parent
  alter (some parent) Scope.addChild
  let index := (← get).nextIndex
  modify fun arena => { arena with nextIndex := index + 1 }
  modify fun arena => { arena with scopes := arena.scopes ++ [⟨index, some parent, [], 0⟩] }
  return index

def release (index : Nat) : Stepwise Unit := do
  if index = Arena.globalIndex then throw (.error .globalDiscard)
  let scope ← look fun arena => arena.scope index
  if scope.liveChildren ≠ 0 then throw (.error (.stillEnclosing index scope.liveChildren))
  modify fun arena => arena.without index
  alter scope.parent Scope.removeChild

def define (index : Nat) (name : Identifier) (value : Value) : Stepwise Unit := do
  let _ ← look fun arena => arena.scope index
  alter (some index) (Scope.bind name.text value)

def assign (index : Nat) (name : Identifier) (value : Value) : Stepwise Value := do
  match ← look fun arena => arena.find index name.text with
  | none => throw (.error (.undefined name))
  | some scope =>
    match scope.lookup name.text with
    | none => throw .missing
    | some previous =>
      alter (some scope.index) (Scope.bind name.text value)
      return previous

def atOnce (arena : Arena) : Except ScopeError (α × Arena) → Except Fault α × Arena
  | .ok (value, after) => (.ok value, after)
  | .error error => (.error (.error error), arena)

variable {arena : Arena} {index : Nat} {name : Identifier} {value : Value}

theorem bind_apply (change : Stepwise α) (next : α → Stepwise β) (arena : Arena) :
    (change >>= next) arena = match change arena with
      | (.ok value, after) => next value after
      | (.error fault, after) => (.error fault, after) := by
  change (match change arena with | (result, after) => ExceptT.bindCont next result after) = _
  rcases change arena with ⟨result, after⟩
  cases result with
  | ok value => rfl
  | error fault => rfl

theorem look_apply (find : Arena → Except ScopeError α) (arena : Arena) :
    look find arena = match find arena with
      | .ok value => (.ok value, arena)
      | .error error => (.error (.error error), arena) := by
  change (match find arena with
    | .ok value => pure value
    | .error error => throw (.error error) : Stepwise α) arena = _
  cases find arena with
  | ok value => rfl
  | error error => rfl

theorem alter_apply {scope : Scope} (h : arena.scope? index = some scope) (change : Scope → Scope) :
    alter (some index) change arena = (.ok (), arena.modify index change) := by
  change (match arena.scope? index with
    | none => throw .missing
    | some scope => modify fun arena => arena.modify scope.index change : Stepwise Unit) arena = _
  rw [h, ← Arena.index_of_scope? h]
  rfl

theorem push_apply (index : Nat) (arena : Arena) :
    push index arena = atOnce arena (arena.push index) := by
  unfold push
  rw [bind_apply, look_apply]
  cases hscope : arena.scope? index with
  | none =>
    rw [Arena.scope_of_dead hscope, Arena.push_of_dead hscope]
    rfl
  | some scope =>
    unfold Arena.push
    rw [Arena.scope_of_live hscope]
    simp only [bind_apply, alter_apply hscope]
    rfl

/-- The parent of a scope that is gone is still there, so its count can go down. -/
theorem release_apply (sound : arena.Sound) (index : Nat) :
    release index arena = atOnce arena ((arena.release index).map fun after => ((), after)) := by
  unfold release
  rw [Arena.release_eq]
  by_cases hglobal : index = Arena.globalIndex
  · simp only [if_pos hglobal]
    rfl
  · simp only [if_neg hglobal]
    rw [bind_apply, look_apply]
    cases hscope : arena.scope? index with
    | none =>
      rw [Arena.scope_of_dead hscope]
      rfl
    | some scope =>
      obtain ⟨parent, outer, hparent, houter, -⟩ := sound.scope?_parent_without hscope hglobal
      rw [Arena.scope_of_live hscope]
      by_cases hchildren : scope.liveChildren = 0
      · simp only [hchildren, ne_eq, not_true_eq_false, if_false, if_true, hparent]
        exact alter_apply houter Scope.removeChild
      · simp only [hchildren, ne_eq, not_false_eq_true, if_true, if_false]
        rfl

theorem define_apply (index : Nat) (name : Identifier) (value : Value) (arena : Arena) :
    define index name value arena =
      atOnce arena ((arena.define index name value).map fun after => ((), after)) := by
  unfold define
  rw [bind_apply, look_apply]
  cases hscope : arena.scope? index with
  | none =>
    rw [Arena.scope_of_dead hscope, Arena.define_of_dead hscope]
    rfl
  | some scope =>
    rw [Arena.define_of_live (by rw [hscope]; rfl), Arena.scope_of_live hscope]
    exact alter_apply hscope _

/-- The scope that binds the name is on the chain, and so it is live. -/
theorem assign_apply (sound : arena.Sound) (index : Nat) (name : Identifier) (value : Value) :
    assign index name value arena = atOnce arena (arena.assign index name value) := by
  unfold assign
  rw [bind_apply, look_apply]
  cases hscope : arena.scope? index with
  | none =>
    rw [Arena.find_of_dead hscope, Arena.assign_of_dead hscope]
    rfl
  | some scope =>
    have hlive : (arena.scope? index).isSome := by
      rw [hscope]
      rfl
    rw [Arena.find_of_live hlive]
    cases hbinder : arena.binder? index name.text with
    | none =>
      rw [Arena.assign_of_unbound hlive hbinder]
      rfl
    | some binder =>
      obtain ⟨previous, hprevious, hassign⟩ := Arena.assign_of_bound hlive hbinder value
      have hmem := List.mem_of_find?_eq_some hbinder
      have hthere := (sound.walk_chain hscope).scope?_of_mem hmem
      rw [hassign]
      simp only [hprevious, bind_apply, alter_apply hthere]
      rfl

end Stepwise

end ScriptLang

import ScriptLang.Proofs.Scope.Chain

namespace ScriptLang

/-- What can happen to an arena. An assignment names the scope that it was made from. -/
inductive Event where
  | opened (index parent : Nat)
  | discarded (index : Nat)
  | defined (scope : Nat) (name : String) (value : Value)
  | assigned (source : Nat) (name : String) (value : Value)

namespace Event

def isOpening : Event → Bool
  | opened _ _ => true
  | _ => false

def isDiscard : Event → Bool
  | discarded _ => true
  | _ => false

end Event

namespace Arena

/-- An operation that succeeds on an arena, as an event, and the arena afterwards. -/
inductive Takes (arena : Arena) : Event → Arena → Prop where
  | push {parent index : Nat} {arena' : Arena} (h : arena.push parent = .ok (index, arena')) :
      Takes arena (.opened index parent) arena'
  | release {index : Nat} {arena' : Arena} (h : arena.release index = .ok arena') :
      Takes arena (.discarded index) arena'
  | define {index : Nat} {name : Identifier} {value : Value} {arena' : Arena}
      (h : arena.define index name value = .ok arena') :
      Takes arena (.defined index name.text value) arena'
  | assign {index : Nat} {name : Identifier} {value previous : Value} {arena' : Arena}
      (h : arena.assign index name value = .ok (previous, arena')) :
      Takes arena (.assigned index name.text value) arena'

/-- The history that leads from one arena to another. -/
inductive Becomes (start : Arena) : List Event → Arena → Prop where
  | refl : Becomes start [] start
  | step {history : List Event} {arena arena' : Arena} {event : Event}
      (before : Becomes start history arena) (last : arena.Takes event arena') :
      Becomes start (event :: history) arena'

variable {start arena arena' : Arena} {event : Event} {history later : List Event}

theorem Becomes.trans (h : start.Becomes history arena) (h' : arena.Becomes later arena') :
    start.Becomes (later ++ history) arena' := by
  induction h' with
  | refl => exact h
  | step _ last ih => exact ih.step last

theorem Becomes.single (h : arena.Takes event arena') : arena.Becomes [event] arena' :=
  Becomes.refl.step h

theorem Takes.sound (h : arena.Takes event arena') (sound : arena.Sound) : arena'.Sound := by
  cases h with
  | push h =>
    obtain ⟨hlive, -, rfl⟩ := push_eq_ok h
    exact sound.pushed hlive
  | release h =>
    obtain ⟨hne, scope, hscope, hchildren, rfl⟩ := release_eq_ok h
    exact sound.released hscope hne hchildren
  | define h =>
    obtain ⟨-, rfl⟩ := define_eq_ok h
    exact sound.modify_bind _ _ _
  | assign h =>
    obtain ⟨-, scope, -, -, rfl⟩ := assign_eq_ok h
    exact sound.modify_bind _ _ _

theorem Becomes.sound (h : start.Becomes history arena) (sound : start.Sound) : arena.Sound := by
  induction h with
  | refl => exact sound
  | step _ last ih => exact last.sound ih

/-- Each scope that is opened uses up an index, and nothing else does. -/
theorem Takes.nextIndex_eq (h : arena.Takes event arena') :
    arena'.nextIndex = arena.nextIndex + [event].countP Event.isOpening := by
  cases h with
  | push h =>
    obtain ⟨-, -, rfl⟩ := push_eq_ok h
    rfl
  | release h =>
    obtain ⟨-, scope, -, -, rfl⟩ := release_eq_ok h
    cases scope.parent with
    | none => rfl
    | some parent => rfl
  | define h =>
    obtain ⟨-, rfl⟩ := define_eq_ok h
    rfl
  | assign h =>
    obtain ⟨-, scope, -, -, rfl⟩ := assign_eq_ok h
    rfl

theorem Becomes.nextIndex_eq (h : start.Becomes history arena) :
    arena.nextIndex = start.nextIndex + history.countP Event.isOpening := by
  induction h with
  | refl => rfl
  | step _ last ih =>
    rw [last.nextIndex_eq, ih, List.countP_cons, List.countP_cons, List.countP_nil]
    omega

theorem Becomes.nextIndex_le (h : start.Becomes history arena) :
    start.nextIndex ≤ arena.nextIndex := by
  rw [h.nextIndex_eq]
  exact Nat.le_add_right _ _

theorem Takes.size_eq (h : arena.Takes event arena') (sound : arena.Sound) :
    arena'.size + [event].countP Event.isDiscard =
      arena.size + [event].countP Event.isOpening := by
  cases h with
  | push h =>
    obtain ⟨-, -, rfl⟩ := push_eq_ok h
    exact size_pushed
  | release h =>
    obtain ⟨hne, scope, hscope, -, rfl⟩ := release_eq_ok h
    obtain ⟨parent, outer, hparent, -, -⟩ := sound.enclosed _ scope hscope hne
    have hsize := size_without sound.ordered hscope
    rw [hparent]
    unfold released
    rw [size_modify]
    exact hsize
  | define h =>
    obtain ⟨-, rfl⟩ := define_eq_ok h
    exact size_modify
  | assign h =>
    obtain ⟨-, scope, -, -, rfl⟩ := assign_eq_ok h
    exact size_modify

/-- There are as many scopes more than before as were opened and not discarded. -/
theorem Becomes.size_eq (h : start.Becomes history arena) (sound : start.Sound) :
    arena.size + history.countP Event.isDiscard =
      start.size + history.countP Event.isOpening := by
  induction h with
  | refl => rfl
  | step before last ih =>
    have hlast := last.size_eq (before.sound sound)
    rw [List.countP_cons, List.countP_cons]
    simp only [List.countP_cons, List.countP_nil] at hlast
    omega

/-- Binding a name moves no scope. -/
theorem scope_before_bind {i index : Nat} {name : String} {value : Value} {scope' : Scope}
    (h : (arena.modify index (Scope.bind name value)).scope? i = some scope') :
    ∃ scope, arena.scope? i = some scope ∧ scope'.parent = scope.parent := by
  obtain ⟨scope, hscope, rfl⟩ := (scope?_modify_eq_some (Scope.bind_index · _ _)).mp h
  exact ⟨scope, hscope, Scope.keeps_ite Scope.parent (Scope.bind_parent · _ _) _ scope⟩

/-- A scope that is found at an index that was given out before was there before, in its place. -/
theorem Takes.scope_before (h : arena.Takes event arena') (sound : arena.Sound) {i : Nat}
    {scope' : Scope} (hscope' : arena'.scope? i = some scope') (hi : i < arena.nextIndex) :
    ∃ scope, arena.scope? i = some scope ∧ scope'.parent = scope.parent := by
  cases h with
  | push h =>
    obtain ⟨-, -, rfl⟩ := push_eq_ok h
    obtain ⟨scope, hscope, rfl⟩ | ⟨-, rfl, -⟩ := scope?_pushed_eq_some.mp hscope'
    · exact ⟨scope, hscope, Scope.keeps_ite Scope.parent Scope.addChild_parent _ scope⟩
    · exact absurd hi (Nat.lt_irrefl _)
  | release h =>
    obtain ⟨hne, scope, hscope, -, rfl⟩ := release_eq_ok h
    obtain ⟨parent, outer, hparent, -, -⟩ := sound.enclosed _ scope hscope hne
    rw [hparent] at hscope'
    obtain ⟨-, scope, hscope, rfl⟩ := scope?_released_eq_some.mp hscope'
    exact ⟨scope, hscope, Scope.keeps_ite Scope.parent Scope.removeChild_parent _ scope⟩
  | define h =>
    obtain ⟨-, rfl⟩ := define_eq_ok h
    exact scope_before_bind hscope'
  | assign h =>
    obtain ⟨-, binder, -, -, rfl⟩ := assign_eq_ok h
    exact scope_before_bind hscope'

/-- A scope that is live at both ends of a history has one and the same parent. -/
theorem Becomes.parent_eq (h : start.Becomes history arena) (sound : start.Sound) {i : Nat}
    {scope scope' : Scope} (hscope : start.scope? i = some scope)
    (hscope' : arena.scope? i = some scope') : scope'.parent = scope.parent := by
  induction h generalizing scope' with
  | refl =>
    rw [hscope] at hscope'
    rw [Option.some.inj hscope']
  | step before last ih =>
    -- The index was given out before the history began, so no push in it made the scope.
    have hi := Nat.lt_of_lt_of_le (sound.bounded i scope hscope) before.nextIndex_le
    obtain ⟨between, hbetween, hparent⟩ := last.scope_before (before.sound sound) hscope' hi
    rw [hparent]
    exact ih hbetween

end Arena

end ScriptLang

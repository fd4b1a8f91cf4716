import ScriptLang.Scope.Arena

namespace ScriptLang

namespace Scope

variable (scope : Scope) (name other : String) (value : Value)

@[simp] theorem bind_index : (scope.bind name value).index = scope.index := by
  unfold bind
  split <;> rfl

@[simp] theorem bind_parent : (scope.bind name value).parent = scope.parent := by
  unfold bind
  split <;> rfl

@[simp] theorem bind_liveChildren : (scope.bind name value).liveChildren = scope.liveChildren := by
  unfold bind
  split <;> rfl

@[simp] theorem addChild_index : scope.addChild.index = scope.index := rfl

@[simp] theorem addChild_parent : scope.addChild.parent = scope.parent := rfl

@[simp] theorem addChild_lookup : scope.addChild.lookup name = scope.lookup name := rfl

@[simp] theorem removeChild_index : scope.removeChild.index = scope.index := rfl

@[simp] theorem removeChild_parent : scope.removeChild.parent = scope.parent := rfl

@[simp] theorem removeChild_lookup : scope.removeChild.lookup name = scope.lookup name := rfl

/-- What a change keeps, it keeps where it is made under a condition. -/
theorem keeps_ite {α : Type} (read : Scope → α) {change : Scope → Scope}
    (hkeep : ∀ scope, read (change scope) = read scope) (p : Prop) [Decidable p] (scope : Scope) :
    read (if p then change scope else scope) = read scope := by
  split
  · exact hkeep scope
  · rfl

theorem lookup_binding_cons (binding : String × Value) (rest : List (String × Value)) :
    (binding :: rest).lookup other =
      if other = binding.1 then some binding.2 else rest.lookup other := by
  rw [List.lookup_cons]
  by_cases h : other = binding.1
  · simp [h]
  · simp [h, beq_false_of_ne h]

theorem lookup_replace_of_ne (bindings : List (String × Value)) (h : other ≠ name) :
    (bindings.map fun binding => if binding.1 = name then (name, value) else binding).lookup other =
      bindings.lookup other := by
  induction bindings with
  | nil => rfl
  | cons binding rest ih =>
    rw [List.map_cons, lookup_binding_cons, lookup_binding_cons, ih]
    by_cases hkey : binding.1 = name
    · simp [hkey, h]
    · simp [hkey]

theorem lookup_replace_self (bindings : List (String × Value))
    (h : (bindings.lookup name).isSome) :
    (bindings.map fun binding => if binding.1 = name then (name, value) else binding).lookup name =
      some value := by
  induction bindings with
  | nil => cases h
  | cons binding rest ih =>
    rw [lookup_binding_cons] at h
    rw [List.map_cons, lookup_binding_cons]
    by_cases hkey : binding.1 = name
    · simp [hkey]
    · rw [if_neg (Ne.symm hkey)] at h
      simp [hkey, Ne.symm hkey, ih h]

/-- A name that is bound has its value, and all other names have theirs. -/
theorem lookup_bind : (scope.bind name value).lookup other =
    if other = name then some value else scope.lookup other := by
  unfold bind
  split
  · next h =>
    by_cases hother : other = name
    · subst hother
      rw [if_pos rfl]
      exact lookup_replace_self other value scope.bindings h
    · rw [if_neg hother]
      exact lookup_replace_of_ne name other value scope.bindings hother
  · next h =>
    have hnone : scope.bindings.lookup name = none := by
      rw [Bool.not_eq_true, Option.isSome_eq_false_iff, Option.isNone_iff_eq_none] at h
      exact h
    unfold lookup
    rw [List.lookup_append, lookup_binding_cons]
    by_cases hother : other = name
    · simp [hother, hnone]
    · simp [hother]

end Scope

namespace Arena

variable {arena arena' : Arena} {index parent i : Nat} {scope : Scope} {name : Identifier}
  {value previous : Value}

theorem index_of_scope? (h : arena.scope? i = some scope) : scope.index = i := by
  have hp := List.find?_some h
  exact of_decide_eq_true hp

def without (arena : Arena) (index : Nat) : Arena :=
  { arena with scopes := arena.scopes.filter fun scope => scope.index ≠ index }

def pushed (arena : Arena) (parent : Nat) : Arena :=
  ⟨(arena.modify parent Scope.addChild).scopes ++ [⟨arena.nextIndex, some parent, [], 0⟩],
    arena.nextIndex + 1⟩

def released (arena : Arena) (index : Nat) : Option Nat → Arena
  | some parent => (arena.without index).modify parent Scope.removeChild
  | none => arena.without index

section Modify

variable {change : Scope → Scope}

theorem scope?_modify (hkeep : ∀ scope, (change scope).index = scope.index) (i : Nat) :
    (arena.modify index change).scope? i =
      if i = index then (arena.scope? i).map change else arena.scope? i := by
  have hfind : (arena.modify index change).scope? i =
      (arena.scope? i).map fun scope => if scope.index = index then change scope else scope := by
    unfold modify scope?
    rw [List.find?_map]
    simp only [Function.comp_def, Scope.keeps_ite Scope.index hkeep]
  rw [hfind]
  cases h : arena.scope? i with
  | none => simp
  | some scope =>
    have hi := index_of_scope? h
    by_cases hindex : i = index
    · simp [hi, hindex]
    · simp [hi, hindex]

theorem scope?_modify_eq_some (hkeep : ∀ scope, (change scope).index = scope.index) :
    (arena.modify index change).scope? i = some scope ↔
      ∃ before, arena.scope? i = some before ∧
        scope = if i = index then change before else before := by
  rw [scope?_modify hkeep]
  cases arena.scope? i with
  | none => split <;> simp
  | some before => split <;> simp [eq_comm]

theorem size_modify : (arena.modify index change).size = arena.size := List.length_map _

end Modify

theorem scope?_without (i : Nat) :
    (arena.without index).scope? i = if i = index then none else arena.scope? i := by
  unfold without scope?
  rw [List.find?_filter]
  by_cases h : i = index
  · subst h
    simp
  · rw [if_neg h]
    congr 1
    funext scope
    by_cases hs : scope.index = i
    · simp [hs, h]
    · simp [hs]

theorem scope?_pushed (i : Nat) :
    (arena.pushed parent).scope? i =
      ((if i = parent then (arena.scope? i).map Scope.addChild else arena.scope? i).or
        (if i = arena.nextIndex then some ⟨arena.nextIndex, some parent, [], 0⟩ else none)) := by
  have hmodify : (arena.modify parent Scope.addChild).scope? i =
      if i = parent then (arena.scope? i).map Scope.addChild else arena.scope? i :=
    scope?_modify Scope.addChild_index i
  unfold scope? at hmodify ⊢
  unfold pushed
  rw [List.find?_append, hmodify]
  by_cases h : i = arena.nextIndex
  · simp [h]
  · simp [h, Ne.symm h]

theorem scope?_pushed_eq_some : (arena.pushed parent).scope? i = some scope ↔
    (∃ before, arena.scope? i = some before ∧
      scope = if i = parent then before.addChild else before) ∨
    (arena.scope? i = none ∧ i = arena.nextIndex ∧
      scope = ⟨arena.nextIndex, some parent, [], 0⟩) := by
  rw [scope?_pushed]
  cases arena.scope? i with
  | none => simp [eq_comm]
  | some before => split <;> simp [eq_comm]

theorem scope?_released_eq_some : (arena.released index (some parent)).scope? i = some scope ↔
    i ≠ index ∧ ∃ before, arena.scope? i = some before ∧
      scope = if i = parent then before.removeChild else before := by
  rw [released, scope?_modify_eq_some Scope.removeChild_index, scope?_without]
  by_cases h : i = index
  · simp [h]
  · simp [h]

theorem push_eq_ok (h : arena.push parent = .ok (index, arena')) :
    (arena.scope? parent).isSome ∧ index = arena.nextIndex ∧ arena' = arena.pushed parent := by
  unfold push scope at h
  cases hparent : arena.scope? parent with
  | none =>
    rw [hparent] at h
    cases h
  | some outer =>
    rw [hparent] at h
    cases h
    exact ⟨rfl, rfl, rfl⟩

theorem release_eq (arena : Arena) (index : Nat) : arena.release index =
    if index = globalIndex then .error .globalDiscard
    else match arena.scope? index with
      | none => .error (.discarded index)
      | some scope =>
        if scope.liveChildren = 0 then .ok (arena.released index scope.parent)
        else .error (.stillEnclosing index scope.liveChildren) := by
  unfold release Arena.scope
  by_cases hglobal : index = globalIndex
  · rw [if_pos hglobal, if_pos hglobal]
    rfl
  · rw [if_neg hglobal, if_neg hglobal]
    cases arena.scope? index with
    | none => rfl
    | some scope =>
      obtain ⟨own, parent, bindings, liveChildren⟩ := scope
      cases liveChildren with
      | zero => cases parent <;> rfl
      | succ children => rfl

theorem release_eq_ok (h : arena.release index = .ok arena') :
    index ≠ globalIndex ∧ ∃ scope, arena.scope? index = some scope ∧ scope.liveChildren = 0 ∧
      arena' = arena.released index scope.parent := by
  rw [release_eq] at h
  split at h
  · cases h
  · next hglobal =>
    refine ⟨hglobal, ?_⟩
    split at h
    · cases h
    · next scope hscope =>
      split at h
      · next hchildren => exact ⟨scope, hscope, hchildren, (Except.ok.inj h).symm⟩
      · cases h

theorem define_eq_ok (h : arena.define index name value = .ok arena') :
    (arena.scope? index).isSome ∧ arena' = arena.modify index (Scope.bind name.text value) := by
  unfold define scope at h
  cases hscope : arena.scope? index with
  | none =>
    rw [hscope] at h
    cases h
  | some scope =>
    rw [hscope] at h
    cases h
    exact ⟨rfl, rfl⟩

def binder? (arena : Arena) (index : Nat) (name : String) : Option Scope :=
  (arena.chain index).find? fun scope => (scope.lookup name).isSome

theorem find_of_live (h : (arena.scope? index).isSome) (name : String) :
    arena.find index name = .ok (arena.binder? index name) := by
  unfold find scope
  obtain ⟨scope, hscope⟩ := Option.isSome_iff_exists.mp h
  rw [hscope]
  rfl

theorem depth_of_live (h : (arena.scope? index).isSome) :
    arena.depth index = .ok ((arena.chain index).length - 1) := by
  unfold depth scope
  obtain ⟨scope, hscope⟩ := Option.isSome_iff_exists.mp h
  rw [hscope]
  rfl

theorem lookup_of_binder? {name : String} (h : arena.binder? index name = some scope) :
    ∃ value, scope.lookup name = some value := by
  have hbinds := List.find?_some h
  exact Option.isSome_iff_exists.mp hbinds

def bound? (arena : Arena) (index : Nat) (name : String) : Option Value :=
  (arena.binder? index name).bind fun scope => scope.lookup name

theorem get_of_live (h : (arena.scope? index).isSome) (name : Identifier) :
    arena.get index name =
      match arena.bound? index name.text with
      | some value => .ok value
      | none => .error (.undefined name) := by
  unfold get resolve bound?
  rw [find_of_live h]
  cases hbinder : arena.binder? index name.text with
  | none => rfl
  | some scope =>
    obtain ⟨value, hvalue⟩ := lookup_of_binder? hbinder
    simp only [bind, Except.bind, Option.bind, hvalue]
    rfl

theorem contains_of_live (h : (arena.scope? index).isSome) (name : Identifier) :
    arena.contains index name = .ok (arena.binder? index name.text).isSome := by
  unfold contains
  rw [find_of_live h]
  rfl

theorem assign_eq_ok (h : arena.assign index name value = .ok (previous, arena')) :
    (arena.scope? index).isSome ∧ ∃ scope, arena.binder? index name.text = some scope ∧
      scope.lookup name.text = some previous ∧
      arena' = arena.modify scope.index (Scope.bind name.text value) := by
  unfold assign resolve at h
  cases hlive : arena.scope? index with
  | none =>
    unfold find scope at h
    rw [hlive] at h
    cases h
  | some inner =>
    refine ⟨rfl, ?_⟩
    rw [find_of_live (by rw [hlive]; rfl)] at h
    cases hbinder : arena.binder? index name.text with
    | none =>
      rw [hbinder] at h
      cases h
    | some scope =>
      obtain ⟨bound, hbound⟩ := lookup_of_binder? hbinder
      rw [hbinder] at h
      simp only [bind, Except.bind, hbound] at h
      cases h
      exact ⟨scope, rfl, hbound, rfl⟩

end Arena

end ScriptLang

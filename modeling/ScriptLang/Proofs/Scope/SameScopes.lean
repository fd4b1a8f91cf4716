import ScriptLang.Proofs.Scope.Call

namespace ScriptLang

def Scope.bare (scope : Scope) : Scope := { scope with bindings := [] }

namespace Scope

variable (scope : Scope) (name : String) (value : Value)

@[simp] theorem bare_bind : (scope.bind name value).bare = scope.bare := by
  simp [bare]

@[simp] theorem bare_addChild : scope.addChild.bare = scope.bare.addChild := rfl

@[simp] theorem bare_removeChild : scope.removeChild.bare = scope.bare.removeChild := rfl

@[simp] theorem removeChild_addChild : scope.addChild.removeChild = scope := rfl

end Scope

namespace Arena

variable {arena between after : Arena} {parent index : Nat}

/-- The same scopes are live, with the same parents and numbers of children; bindings may differ. -/
def SameScopes (arena after : Arena) : Prop :=
  ∀ index, (after.scope? index).map Scope.bare = (arena.scope? index).map Scope.bare

namespace SameScopes

theorem refl (arena : Arena) : arena.SameScopes arena := fun _ => rfl

theorem trans (h : arena.SameScopes between) (h' : between.SameScopes after) :
    arena.SameScopes after := fun index => (h' index).trans (h index)

theorem isSome (h : arena.SameScopes after) (hlive : (arena.scope? index).isSome) :
    (after.scope? index).isSome := by
  rw [← Option.isSome_map, h index, Option.isSome_map]
  exact hlive

theorem modify_bind (arena : Arena) (index : Nat) (name : String) (value : Value) :
    arena.SameScopes (arena.modify index (Scope.bind name value)) := by
  intro i
  rw [scope?_modify (Scope.bind_index · _ _)]
  split
  · rw [Option.map_map]
    congr 1
    funext scope
    exact Scope.bare_bind scope name value
  · rfl

/-- Without the scope that was opened, all is as it was, and its parent has a child less again. -/
theorem released (h : (arena.pushed parent).SameScopes between) (sound : arena.Sound)
    (hlive : (arena.scope? parent).isSome) :
    arena.SameScopes (between.released arena.nextIndex (some parent)) := by
  have hparent := sound.ne_nextIndex hlive
  intro i
  rw [Arena.released, scope?_modify Scope.removeChild_index, scope?_without]
  by_cases hi : i = arena.nextIndex
  · rw [if_pos hi, if_neg (by rw [hi]; exact hparent.symm), hi, sound.scope?_nextIndex]
  · have hkept := h i
    rw [scope?_pushed, if_neg hi, Option.or_none] at hkept
    rw [if_neg hi]
    by_cases hip : i = parent
    · rw [if_pos hip] at hkept ⊢
      calc ((between.scope? i).map Scope.removeChild).map Scope.bare
          = ((between.scope? i).map Scope.bare).map Scope.removeChild := by
            simp [Function.comp_def]
        _ = (((arena.scope? i).map Scope.addChild).map Scope.bare).map Scope.removeChild := by
            rw [hkept]
        _ = (arena.scope? i).map Scope.bare := by simp [Function.comp_def]
    · rw [if_neg hip] at hkept ⊢
      exact hkept

/-- A scope that a block has opened, and that has no more children than at first, can be
discarded. -/
theorem release (h : (arena.pushed parent).SameScopes between) (sound : arena.Sound)
    (hlive : (arena.scope? parent).isSome) : ∃ after,
      between.release arena.nextIndex = .ok after ∧ arena.SameScopes after := by
  have hglobal : arena.nextIndex ≠ globalIndex := by
    obtain ⟨root, hroot, -⟩ := sound.rooted
    exact Nat.ne_of_gt (sound.bounded _ _ hroot)
  -- The scope of the block is found as it was when it was new, bindings apart.
  have hnew := h arena.nextIndex
  rw [scope?_pushed_eq_some.mpr (Or.inr ⟨sound.scope?_nextIndex, rfl, rfl⟩)] at hnew
  obtain ⟨inner, hinner, hbare⟩ := Option.map_eq_some_iff.mp hnew
  have hchildren : inner.liveChildren = 0 := congrArg Scope.liveChildren hbare
  have hinside : inner.parent = some parent := congrArg Scope.parent hbare
  refine ⟨between.released arena.nextIndex (some parent), ?_, h.released sound hlive⟩
  rw [release_eq, if_neg hglobal, hinner]
  simp only [hchildren, if_true, hinside]

end SameScopes

end Arena

theorem Arena.Takes.sameScopes {arena after : Arena} {event : Event} (h : arena.Takes event after)
    (hopening : event.isOpening = false) (hdiscard : event.isDiscard = false) :
    arena.SameScopes after := by
  cases h with
  | push h => cases hopening
  | release h => cases hdiscard
  | define h =>
    obtain ⟨-, rfl⟩ := define_eq_ok h
    exact SameScopes.modify_bind arena _ _ _
  | assign h =>
    obtain ⟨-, binder, -, -, rfl⟩ := assign_eq_ok h
    exact SameScopes.modify_bind arena _ _ _

/-- A history of definitions and assignments opens no scope and discards none. -/
theorem Arena.Becomes.sameScopes {start arena : Arena} {history : List Event}
    (h : start.Becomes history arena)
    (hwrites : ∀ event ∈ history, event.isOpening = false ∧ event.isDiscard = false) :
    start.SameScopes arena := by
  induction h with
  | refl => exact SameScopes.refl start
  | step before last ih =>
    have hlast := hwrites _ List.mem_cons_self
    have hbefore := ih fun event hmem => hwrites event (List.mem_cons_of_mem _ hmem)
    exact hbefore.trans (last.sameScopes hlast.1 hlast.2)

def Store.KeepsScopes (store after : Store) : Prop :=
  ∀ (number : Nat) (arena : Arena), store.arenas[number]? = some arena → ∃ arena',
    after.arenas[number]? = some arena' ∧ arena.SameScopes arena'

theorem Store.KeepsScopes.refl (store : Store) : store.KeepsScopes store :=
  fun _ arena harena => ⟨arena, harena, .refl arena⟩

theorem Store.KeepsScopes.trans {store between after : Store} (h : store.KeepsScopes between)
    (h' : between.KeepsScopes after) : store.KeepsScopes after := by
  intro number arena harena
  obtain ⟨middle, hmiddle, hsame⟩ := h number arena harena
  obtain ⟨last, hlast, hsame'⟩ := h' number middle hmiddle
  exact ⟨last, hlast, hsame.trans hsame'⟩

end ScriptLang

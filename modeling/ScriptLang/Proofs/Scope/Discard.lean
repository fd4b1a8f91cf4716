import Mathlib.Data.List.Sort
import ScriptLang.Proofs.Scope.Block

namespace ScriptLang

namespace Arena

variable {arena : Arena} {index parent : Nat} {scope root : Scope}

/-- What is found after a discard. -/
theorem scope?_released (i : Nat) : (arena.released index (some parent)).scope? i =
    if i = index then none
    else if i = parent then (arena.scope? i).map Scope.removeChild
    else arena.scope? i := by
  rw [released, scope?_modify Scope.removeChild_index, scope?_without]
  by_cases h : i = index
  · simp [h]
  · simp [h]

theorem nextIndex_released (parent : Option Nat) :
    (arena.released index parent).nextIndex = arena.nextIndex := by
  cases parent <;> rfl

theorem childCount_eq_zero_iff :
    arena.childCount index = 0 ↔ ∀ inner ∈ arena.scopes, inner.parent ≠ some index := by
  unfold childCount
  rw [List.countP_eq_zero]
  simp only [decide_eq_true_eq]

def innerIndices (arena : Arena) : List Nat :=
  (arena.scopes.map Scope.index).reverse.filter (· ≠ globalIndex)

theorem mem_innerIndices :
    index ∈ arena.innerIndices ↔ index ≠ globalIndex ∧ (arena.scope? index).isSome := by
  unfold innerIndices scope?
  rw [List.mem_filter, List.mem_reverse, List.mem_map, List.find?_isSome]
  simp only [decide_eq_true_eq]
  exact and_comm

theorem innerIndices_released (parent : Option Nat) :
    (arena.released index parent).innerIndices = arena.innerIndices.filter (· ≠ index) := by
  have hindices : (arena.released index parent).scopes.map Scope.index =
      (arena.scopes.map Scope.index).filter (· ≠ index) := by
    rw [List.filter_map]
    cases parent with
    | none => rfl
    | some parent =>
      change ((arena.without index).scopes.map fun scope =>
        if scope.index = parent then scope.removeChild else scope).map Scope.index = _
      rw [List.map_map]
      apply List.map_congr_left
      intro scope _
      exact Scope.keeps_ite Scope.index Scope.removeChild_index _ scope
  unfold innerIndices
  rw [hindices, ← List.filter_reverse, List.filter_filter, List.filter_filter]
  simp only [Bool.and_comm]

namespace Sound

/-- The children that a scope counts are the live scopes inside it. -/
theorem release_eq_of_childCount (sound : arena.Sound) (index : Nat) : arena.release index =
    if index = globalIndex then .error .globalDiscard
    else match arena.scope? index with
      | none => .error (.discarded index)
      | some scope =>
        if arena.childCount index = 0 then .ok (arena.released index scope.parent)
        else .error (.stillEnclosing index (arena.childCount index)) := by
  rw [release_eq]
  split
  · rfl
  · cases hscope : arena.scope? index with
    | none => rfl
    | some scope => simp only [sound.counted index scope hscope]

theorem pairwise_innerIndices (sound : arena.Sound) : arena.innerIndices.Pairwise (· > ·) := by
  apply List.Pairwise.filter
  rw [List.pairwise_reverse, List.pairwise_map]
  exact sound.ordered

/-- A scope that no live one is younger than has no live one inside it. -/
theorem childCount_youngest (sound : arena.Sound) {rest : List Nat}
    (h : arena.innerIndices = index :: rest) : arena.childCount index = 0 := by
  rw [childCount_eq_zero_iff]
  intro inner hmem hparent
  have hinner := scope?_of_mem sound.ordered hmem
  obtain ⟨hlt, -⟩ := sound.parent_lt hinner hparent
  have hlive : inner.index ∈ arena.innerIndices := by
    refine mem_innerIndices.mpr ⟨Nat.ne_zero_of_lt hlt, ?_⟩
    rw [hinner]
    rfl
  have hsorted := sound.pairwise_innerIndices
  rw [h] at hlive hsorted
  obtain heq | hmem := List.mem_cons.mp hlive
  · omega
  · exact Nat.lt_asymm hlt ((List.pairwise_cons.mp hsorted).1 _ hmem)

/-- The youngest scope can be discarded, and those that are left are the others. -/
theorem release_youngest (sound : arena.Sound) {rest : List Nat}
    (h : arena.innerIndices = index :: rest) : ∃ scope, arena.scope? index = some scope ∧
      arena.release index = .ok (arena.released index scope.parent) ∧
      (arena.released index scope.parent).Sound ∧
      (arena.released index scope.parent).innerIndices = rest := by
  obtain ⟨hglobal, hlive⟩ := mem_innerIndices.mp (h ▸ List.mem_cons_self)
  obtain ⟨scope, hscope⟩ := Option.isSome_iff_exists.mp hlive
  have hchildren := sound.childCount_youngest h
  refine ⟨scope, hscope, ?_, ?_, ?_⟩
  · rw [sound.release_eq_of_childCount, if_neg hglobal, hscope]
    exact if_pos hchildren
  · exact sound.released hscope hglobal ((sound.counted index scope hscope).trans hchildren)
  · have hsorted := sound.pairwise_innerIndices
    rw [h] at hsorted
    rw [innerIndices_released, h, List.filter_cons_of_neg (by simp)]
    apply List.filter_eq_self.mpr
    intro older hmem
    exact decide_eq_true (Nat.ne_of_lt ((List.pairwise_cons.mp hsorted).1 older hmem))

/-- With no other scope the global one is left alone, without children. -/
theorem eq_of_innerIndices (sound : arena.Sound) (h : arena.innerIndices = [])
    (hroot : arena.scope? globalIndex = some root) :
    arena = ⟨[{ root with liveChildren := 0 }], arena.nextIndex⟩ := by
  have hglobal : ∀ scope ∈ arena.scopes, scope = root := by
    intro scope hmem
    have hscope := scope?_of_mem sound.ordered hmem
    have hindex : scope.index = globalIndex := by
      by_contra hne
      have hinner : scope.index ∈ arena.innerIndices :=
        mem_innerIndices.mpr ⟨hne, by rw [hscope]; rfl⟩
      rw [h] at hinner
      cases hinner
    rw [hindex, hroot] at hscope
    exact (Option.some.inj hscope).symm
  have hchildren : root.liveChildren = 0 := by
    rw [sound.counted globalIndex root hroot, childCount_eq_zero_iff]
    intro inner hmem
    obtain ⟨root', hroot', hparent⟩ := sound.rooted
    rw [hroot] at hroot'
    rw [hglobal inner hmem, Option.some.inj hroot', hparent]
    exact nofun
  have hsame : { root with liveChildren := 0 } = root := by
    rw [← hchildren]
  have hmem := List.mem_of_find?_eq_some hroot
  have hordered := sound.ordered
  obtain ⟨scopes, nextIndex⟩ := arena
  rw [hsame]
  match scopes with
  | [] => cases hmem
  | [scope] => rw [hglobal scope List.mem_cons_self]
  -- two scopes would both be the global one, but their indices go up
  | scope :: scope' :: rest =>
    have hlt := (List.pairwise_cons.mp hordered).1 scope' List.mem_cons_self
    rw [hglobal scope List.mem_cons_self,
      hglobal scope' (List.mem_cons_of_mem _ List.mem_cons_self)] at hlt
    exact absurd hlt (Nat.lt_irrefl _)

/-- Without a scope that has none inside, all is as it was, but its parent has a child less. -/
theorem release_of_childless (sound : arena.Sound) (hscope : arena.scope? index = some scope)
    (hglobal : index ≠ globalIndex) (hchildren : arena.childCount index = 0) :
    ∃ arena' parent outer, arena.release index = .ok arena' ∧ scope.parent = some parent ∧
      parent ≠ index ∧ arena.scope? parent = some outer ∧ 0 < outer.liveChildren ∧
      arena'.nextIndex = arena.nextIndex ∧ arena'.scope? index = none ∧
      arena'.scope? parent = some { outer with liveChildren := outer.liveChildren - 1 } ∧
      ∀ other, other ≠ index → other ≠ parent → arena'.scope? other = arena.scope? other := by
  obtain ⟨parent, outer, hparent, hwithout, hcounts⟩ := sound.scope?_parent_without hscope hglobal
  have hne : parent ≠ index := Nat.ne_of_lt (sound.parent_lt hscope hparent).1
  rw [scope?_without, if_neg hne] at hwithout
  refine ⟨arena.released index (some parent), parent, outer, ?_, hparent, hne, hwithout, hcounts,
    nextIndex_released _, ?_, ?_, ?_⟩
  · rw [sound.release_eq_of_childCount, if_neg hglobal, hscope, ← hparent]
    exact if_pos hchildren
  · rw [scope?_released, if_pos rfl]
  · rw [scope?_released, if_neg hne, if_pos rfl, hwithout]
    rfl
  · intro other hother hother'
    rw [scope?_released, if_neg hother, if_neg hother']

/-- A discard keeps the global scope, the number of its children apart. -/
theorem root_released (sound : arena.Sound) (hscope : arena.scope? index = some scope)
    (hglobal : index ≠ globalIndex) (hroot : arena.scope? globalIndex = some root) :
    ∃ root', (arena.released index scope.parent).scope? globalIndex = some root' ∧
      { root' with liveChildren := 0 } = { root with liveChildren := 0 } := by
  obtain ⟨parent, -, hparent, -, -⟩ := sound.enclosed index scope hscope hglobal
  rw [hparent, scope?_released, if_neg (Ne.symm hglobal), hroot]
  split
  · exact ⟨root.removeChild, rfl, rfl⟩
  · exact ⟨root, rfl, rfl⟩

end Sound

end Arena

namespace Action

theorem discard_apply (handle : Handle) (store : Store) : discard handle store =
    match (store.arena handle).release handle.scope with
    | .ok arena => (.ok (), store.setArena handle arena)
    | .error error => (.error error, store) := by
  unfold discard
  rw [update_apply]
  cases (store.arena handle).release handle.scope <;> rfl

section Target

variable {store : Store} {arena : Arena} {handle : Handle} {scope : Scope}
  (harena : store.arena handle = arena) (sound : arena.Sound)

include harena sound

theorem discard_of_global (hglobal : handle.scope = Arena.globalIndex) :
    discard handle store = (.error .globalDiscard, store) := by
  rw [discard_apply, harena, sound.release_eq_of_childCount, if_pos hglobal]

theorem discard_of_dead (hglobal : handle.scope ≠ Arena.globalIndex)
    (hscope : arena.scope? handle.scope = none) :
    discard handle store = (.error (.discarded handle.scope), store) := by
  rw [discard_apply, harena, sound.release_eq_of_childCount, if_neg hglobal, hscope]

theorem discard_of_enclosing (hglobal : handle.scope ≠ Arena.globalIndex)
    (hscope : arena.scope? handle.scope = some scope)
    (hchildren : arena.childCount handle.scope ≠ 0) : discard handle store =
      (.error (.stillEnclosing handle.scope (arena.childCount handle.scope)), store) := by
  rw [discard_apply, harena, sound.release_eq_of_childCount, if_neg hglobal, hscope]
  dsimp only
  rw [if_neg hchildren]

end Target

variable {store : Store} {arena : Arena} {root : Scope}

/-- Handles to all scopes of an arena but the global one, from the youngest to the oldest, can be
discarded one after the other. -/
theorem discard_innerIndices {handles : List Handle} {number : Nat}
    (hnumber : ∀ handle ∈ handles, handle.arena = number)
    (hscopes : handles.map Handle.scope = arena.innerIndices)
    (harena : store.arenas[number]? = some arena) (sound : arena.Sound)
    (hroot : arena.scope? Arena.globalIndex = some root) :
    store.failures (handles.map .discard) = [] ∧
      store.run (handles.map .discard) = { store with
        arenas := store.arenas.set number
          ⟨[{ root with liveChildren := 0 }], arena.nextIndex⟩ } := by
  induction handles generalizing store arena root with
  | nil =>
    refine ⟨rfl, ?_⟩
    obtain ⟨hlt, hget⟩ := List.getElem?_eq_some_iff.mp harena
    rw [← sound.eq_of_innerIndices hscopes.symm hroot, ← hget, List.set_getElem_self hlt]
    rfl
  | cons handle rest ih =>
    have hfirst : handle.arena = number := hnumber handle List.mem_cons_self
    -- the youngest scope encloses no other one, so it can always go first
    obtain ⟨scope, hscope, hrelease, sound', hrest⟩ := sound.release_youngest hscopes.symm
    have hinner : handle.scope ∈ arena.innerIndices := by
      rw [← hscopes]
      exact List.mem_cons_self
    obtain ⟨hglobal, -⟩ := Arena.mem_innerIndices.mp hinner
    obtain ⟨root', hroot', hsame⟩ := sound.root_released hscope hglobal hroot
    have hdiscard : discard handle store =
        (.ok (), store.setArena handle (arena.released handle.scope scope.parent)) := by
      rw [discard_apply, Store.arena_of_getElem? harena hfirst, hrelease]
    have hafter : (Operation.discard handle).after store =
        store.setArena handle (arena.released handle.scope scope.parent) :=
      congrArg Prod.snd hdiscard
    have hkept :
        (store.setArena handle (arena.released handle.scope scope.parent)).arenas[number]? =
          some (arena.released handle.scope scope.parent) := by
      rw [← hfirst] at harena ⊢
      exact getElem?_setArena harena _
    obtain ⟨hfailures, hrun⟩ := ih (fun other hmem => hnumber other (List.mem_cons_of_mem _ hmem))
      hrest.symm hkept sound' hroot'
    constructor
    · rw [List.map_cons, Store.failures, hafter, hfailures]
      simp [Operation.failure?, failure?, hdiscard]
    · change ((Operation.discard handle).after store).run _ = _
      rw [hafter, hrun, hsame, Arena.nextIndex_released]
      unfold Store.setArena
      rw [hfirst, List.set_set]

end Action

open Arena

/-- A scope can be discarded if and only if it is not the global one, is live, and no live scope
lies directly inside it. Otherwise the error says which of this is wrong, counts the scopes inside
as they are, and nothing changes. A discard takes away that scope alone, and only its parent
changes: it has a child less. And handles to all scopes but the global one can be discarded from the
youngest to the oldest without an error, which leaves the global scope with its bindings and no
children. -/
theorem discard_succeeds_iff (before : Store) :
    ∃ handle start, Action.newArena before = (.ok handle, start) ∧
      ∀ operations : List Operation,
        let store := start.run operations
        let arena := store.arena handle
        (∀ target : Handle, target.arena = handle.arena →
          ((Action.discard target store).1 = .ok () ↔
            target.scope ≠ globalIndex ∧ (arena.scope? target.scope).isSome ∧
              ∀ inner ∈ arena.scopes, inner.parent ≠ some target.scope) ∧
          (target.scope = globalIndex →
            Action.discard target store = (.error .globalDiscard, store)) ∧
          (target.scope ≠ globalIndex → arena.scope? target.scope = none →
            Action.discard target store = (.error (.discarded target.scope), store)) ∧
          (target.scope ≠ globalIndex → (arena.scope? target.scope).isSome →
            (∃ inner ∈ arena.scopes, inner.parent = some target.scope) →
            Action.discard target store =
              (.error (.stillEnclosing target.scope (arena.childCount target.scope)), store)) ∧
          ((Action.discard target store).1 = .ok () → ∃ arena' scope parent outer,
            Action.discard target store = (.ok (), store.setArena target arena') ∧
            arena.scope? target.scope = some scope ∧ scope.parent = some parent ∧
            parent ≠ target.scope ∧ arena.scope? parent = some outer ∧ 0 < outer.liveChildren ∧
            arena'.nextIndex = arena.nextIndex ∧ arena'.scope? target.scope = none ∧
            arena'.scope? parent =
              some { outer with liveChildren := outer.liveChildren - 1 } ∧
            ∀ other, other ≠ target.scope → other ≠ parent →
              arena'.scope? other = arena.scope? other)) ∧
        ∀ handles : List Handle, (∀ other ∈ handles, other.arena = handle.arena) →
          (handles.map Handle.scope).Pairwise (· > ·) →
          (∀ index, index ∈ handles.map Handle.scope ↔
            index ≠ globalIndex ∧ (arena.scope? index).isSome) →
          store.failures (handles.map .discard) = [] ∧ ∃ root,
            arena.scope? globalIndex = some root ∧
            store.run (handles.map .discard) =
              store.setArena handle ⟨[{ root with liveChildren := 0 }], arena.nextIndex⟩ := by
  refine ⟨_, _, rfl, ?_⟩
  intro operations store arena
  -- the operations may go to other arenas as well; this one goes on from the fresh arena all the
  -- same
  obtain ⟨current, hcurrent, hbecomes⟩ := Store.becomes_run before rfl operations
  have harena : arena = current := Store.arena_of_getElem? hcurrent rfl
  rw [← harena] at hcurrent hbecomes
  have sound := hbecomes.sound sound_fresh
  constructor
  · intro target htarget
    have htarget : store.arena target = arena := Store.arena_of_getElem? hcurrent htarget
    by_cases hglobal : target.scope = globalIndex
    · rw [Action.discard_of_global htarget sound hglobal]
      exact ⟨⟨nofun, fun h => absurd hglobal h.1⟩, fun _ => rfl, fun h => absurd hglobal h,
        fun h => absurd hglobal h, nofun⟩
    cases hscope : arena.scope? target.scope with
    | none =>
      rw [Action.discard_of_dead htarget sound hglobal hscope]
      exact ⟨⟨nofun, nofun⟩, fun h => absurd h hglobal, fun _ _ => rfl, nofun, nofun⟩
    | some scope =>
      by_cases hchildren : arena.childCount target.scope = 0
      · obtain ⟨arena', parent, outer, hrelease, heffect⟩ :=
          sound.release_of_childless hscope hglobal hchildren
        have hnone := childCount_eq_zero_iff.mp hchildren
        rw [Action.discard_apply, htarget, hrelease]
        refine ⟨⟨fun _ => ⟨hglobal, rfl, hnone⟩, fun _ => rfl⟩, fun h => absurd h hglobal, nofun,
          ?_, fun _ => ⟨arena', scope, parent, outer, rfl, rfl, heffect⟩⟩
        rintro - - ⟨inner, hmem, hinside⟩
        exact absurd hinside (hnone inner hmem)
      · rw [Action.discard_of_enclosing htarget sound hglobal hscope hchildren]
        refine ⟨⟨nofun, fun h => ?_⟩, fun h => absurd h hglobal, nofun, fun _ _ _ => rfl, nofun⟩
        exact absurd (childCount_eq_zero_iff.mpr h.2.2) hchildren
  · intro handles hnumber hsorted hmem
    obtain ⟨root, hroot, -⟩ := sound.rooted
    -- both lists go strictly down and have the same members
    have hscopes : handles.map Handle.scope = arena.innerIndices := by
      apply hsorted.eq_of_mem_iff sound.pairwise_innerIndices
      intro index
      rw [hmem, mem_innerIndices]
    obtain ⟨hfailures, hrun⟩ := Action.discard_innerIndices hnumber hscopes hcurrent sound hroot
    exact ⟨hfailures, root, hroot, hrun⟩

def nestedScopes : List Scope := [⟨0, none, [], 1⟩, ⟨1, some 0, [], 1⟩, ⟨2, some 1, [], 0⟩]

/-- The three ways in which a discard is refused, one that succeeds, and what is left when all inner
scopes are discarded. -/
theorem nesting_discarded : ∃ handle start, Action.newArena Store.empty = (.ok handle, start) ∧
    let store := start.run nesting
    Action.discard ⟨0, 0, 0⟩ store = (.error .globalDiscard, store) ∧
    Action.discard ⟨3, 0, 3⟩ store = (.error (.discarded 3), store) ∧
    Action.discard ⟨1, 0, 1⟩ store = (.error (.stillEnclosing 1 1), store) ∧
    (Action.discard ⟨2, 0, 2⟩ store).1 = .ok () ∧
    store.failures [.discard ⟨2, 0, 2⟩, .discard ⟨1, 0, 1⟩] = [] ∧
    store.run [.discard ⟨2, 0, 2⟩, .discard ⟨1, 0, 1⟩] =
      store.setArena handle ⟨[⟨0, none, [], 0⟩], 4⟩ := by
  have hinside : ∃ inner ∈ nestedScopes, inner.parent = some 1 := by simp [nestedScopes]
  have hchildless : ∀ inner ∈ nestedScopes, inner.parent ≠ some 2 := by simp [nestedScopes]
  have hindices (index : Nat) :
      index ∈ [2, 1] ↔ index ≠ globalIndex ∧ ((Arena.mk nestedScopes 4).scope? index).isSome := by
    simp [scope?, nestedScopes, globalIndex]
    omega
  obtain ⟨handle, start, hnew, hall⟩ := discard_succeeds_iff Store.empty
  refine ⟨handle, start, hnew, ?_⟩
  cases hnew
  obtain ⟨hdiscard, hinner⟩ := hall nesting
  obtain ⟨-, hglobal, -⟩ := hdiscard ⟨0, 0, 0⟩ rfl
  obtain ⟨-, -, hdead, -⟩ := hdiscard ⟨3, 0, 3⟩ rfl
  obtain ⟨-, -, -, hchild, -⟩ := hdiscard ⟨1, 0, 1⟩ rfl
  obtain ⟨⟨-, hsucceeds⟩, -⟩ := hdiscard ⟨2, 0, 2⟩ rfl
  obtain ⟨hfailures, root, hroot, hrun⟩ :=
    hinner [⟨2, 0, 2⟩, ⟨1, 0, 1⟩] (by simp [Store.empty]) (by decide) hindices
  cases hroot
  exact ⟨hglobal rfl, hdead (by decide) rfl, hchild (by decide) rfl hinside,
    hsucceeds ⟨by decide, rfl, hchildless⟩, hfailures, hrun⟩

end ScriptLang

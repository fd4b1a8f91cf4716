import ScriptLang.Proofs.Scope.Operations

namespace ScriptLang

namespace Arena.Sound

variable {arena : Arena} {index : Nat} {scope : Scope}

/-- The parent of a discarded scope is there to be told. -/
theorem scope?_parent_without (sound : arena.Sound) (h : arena.scope? index = some scope)
    (hne : index ≠ globalIndex) : ∃ parent outer, scope.parent = some parent ∧
      (arena.without index).scope? parent = some outer ∧ 0 < outer.liveChildren := by
  obtain ⟨parent, outer, hparent, houter, hlt⟩ := sound.enclosed index scope h hne
  refine ⟨parent, outer, hparent, ?_, ?_⟩
  · rw [scope?_without, if_neg (Nat.ne_of_lt hlt)]
    exact houter
  · rw [sound.counted parent outer houter]
    apply List.countP_pos_iff.mpr
    exact ⟨scope, List.mem_of_find?_eq_some h, decide_eq_true hparent⟩

theorem walk_iff (sound : arena.Sound) (h : arena.scope? index = some scope)
    (path : List Scope) : arena.Walk index path ↔ path = arena.chain index := by
  have hwalk := sound.walk_chain h
  constructor
  · intro hpath
    exact hpath.unique hwalk
  · intro heq
    rw [heq]
    exact hwalk

end Arena.Sound

open Arena

/-- From when an arena is made, and after any operations on any handles, it is sound, its scopes are
the global one and those that were opened and not discarded, and a scope that stays live keeps its
parent. So from each live scope there is one walk outwards. It ends at the global scope, and it is
the chain that names are looked up in and depths are measured by. A scope that can be discarded has
a parent that counts it. -/
theorem arena_of_run_sound (before : Store) :
    ∃ handle start, Action.newArena before = (.ok handle, start) ∧
      ∀ operations : List Operation, ∃ arena,
        (start.run operations).arenas[handle.arena]? = some arena ∧
        arena.Sound ∧
        arena.size + ((start.log operations).inArena handle.arena).countP Event.isDiscard =
          1 + ((start.log operations).inArena handle.arena).countP Event.isOpening ∧
        (∀ earlier later, operations = earlier ++ later → ∀ index scope scope',
          ((start.run earlier).arena handle).scope? index = some scope →
          arena.scope? index = some scope' → scope'.parent = scope.parent) ∧
        ∀ index scope, arena.scope? index = some scope →
          (∀ path, arena.Walk index path ↔ path = arena.chain index) ∧
          (arena.chain index).getLast?.map Scope.index = some globalIndex ∧
          (∀ name, arena.find index name =
            .ok ((arena.chain index).find? fun scope => (scope.lookup name).isSome)) ∧
          arena.depth index = .ok ((arena.chain index).length - 1) ∧
          (index ≠ globalIndex → ∃ parent outer, scope.parent = some parent ∧
            (arena.without index).scope? parent = some outer ∧ 0 < outer.liveChildren) := by
  refine ⟨_, _, rfl, ?_⟩
  intro operations
  obtain ⟨arena, harena, hbecomes⟩ := Store.becomes_run before rfl operations
  have sound := hbecomes.sound sound_fresh
  refine ⟨arena, harena, sound, hbecomes.size_eq sound_fresh, ?_, ?_⟩
  · intro earlier later hoperations index scope scope' hscope hscope'
    -- the history of the run is that of its first part, followed by that of the rest
    obtain ⟨between, hbetween, hfirst⟩ := Store.becomes_run before rfl earlier
    rw [Store.arena_of_getElem? hbetween rfl] at hscope
    obtain ⟨arena', harena', hrest⟩ := Store.evolves_run _ later _ between hbetween
    rw [← Store.run_append, ← hoperations, harena] at harena'
    rw [← Option.some.inj harena'] at hrest
    exact hrest.parent_eq (hfirst.sound sound_fresh) hscope hscope'
  · intro index scope hscope
    have hlive : (arena.scope? index).isSome := by
      rw [hscope]
      rfl
    refine ⟨sound.walk_iff hscope, sound.getLast?_walk (sound.walk_chain hscope),
      find_of_live hlive, depth_of_live hlive, ?_⟩
    exact sound.scope?_parent_without hscope

def nesting : List Operation :=
  [.enclose ⟨0, 0, 0⟩, .enclose ⟨1, 0, 1⟩, .discard ⟨1, 0, 1⟩, .enclose ⟨0, 0, 0⟩,
   .discard ⟨3, 0, 3⟩, .define ⟨3, 0, 3⟩ ⟨"x", none⟩ (.literal .null)]

theorem nesting_sound : ∃ handle start, Action.newArena Store.empty = (.ok handle, start) ∧
    ∃ arena, (start.run nesting).arenas[handle.arena]? = some arena ∧ arena.Sound ∧
      arena.size + 1 = 1 + 3 ∧
      arena.Walk 2 (arena.chain 2) ∧ (arena.chain 2).map Scope.index = [2, 1, 0] ∧
      arena.depth 2 = .ok 2 := by
  obtain ⟨handle, start, hnew, hall⟩ := arena_of_run_sound Store.empty
  obtain ⟨arena, harena, hsound, hsize, -, hlive⟩ := hall nesting
  refine ⟨handle, start, hnew, arena, harena, hsound, ?_⟩
  cases hnew
  cases harena
  obtain ⟨hwalk, -, -, hdepth, -⟩ := hlive 2 _ rfl
  exact ⟨hsize, (hwalk _).mpr rfl, rfl, hdepth⟩

end ScriptLang

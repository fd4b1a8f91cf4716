import ScriptLang.Proofs.Scope.Invariant

namespace ScriptLang.Arena

variable {arena : Arena} {index parent : Nat} {scope : Scope}

/-- A walk outwards. Each index on the way has to be that of a live scope, and the walk ends at a
scope without a parent. -/
inductive Walk (arena : Arena) : Nat → List Scope → Prop where
  | root {index : Nat} {scope : Scope} (hscope : arena.scope? index = some scope)
      (hparent : scope.parent = none) : Walk arena index [scope]
  | step {index parent : Nat} {scope : Scope} {path : List Scope}
      (hscope : arena.scope? index = some scope) (hparent : scope.parent = some parent)
      (hpath : Walk arena parent path) : Walk arena index (scope :: path)

/-- There is at most one walk from a scope. -/
theorem Walk.unique {path other : List Scope} (h : arena.Walk index path)
    (h' : arena.Walk index other) : path = other := by
  induction h generalizing other with
  | root hscope hparent =>
    cases h' with
    | root hscope' _ =>
      rw [hscope] at hscope'
      rw [Option.some.inj hscope']
    | step hscope' hparent' _ =>
      rw [hscope] at hscope'
      rw [← Option.some.inj hscope', hparent] at hparent'
      cases hparent'
  | step hscope hparent _ ih =>
    cases h' with
    | root hscope' hparent' =>
      rw [hscope] at hscope'
      rw [← Option.some.inj hscope', hparent] at hparent'
      cases hparent'
    | step hscope' hparent' hpath' =>
      rw [hscope] at hscope'
      rw [← Option.some.inj hscope'] at hparent' ⊢
      rw [hparent] at hparent'
      rw [← Option.some.inj hparent'] at hpath'
      rw [ih hpath']

theorem Walk.scope?_of_mem {path : List Scope} (h : arena.Walk index path) (hmem : scope ∈ path) :
    arena.scope? scope.index = some scope := by
  induction h with
  | root hscope _ =>
    rw [List.mem_singleton.mp hmem, index_of_scope? hscope]
    exact hscope
  | step hscope _ _ ih =>
    obtain heq | hmem := List.mem_cons.mp hmem
    · rw [heq, index_of_scope? hscope]
      exact hscope
    · exact ih hmem

theorem chainFrom_none (scopes : List Scope) : chainFrom none scopes = [] := by
  induction scopes with
  | nil => rfl
  | cons scope older ih => simpa [chainFrom] using ih

/-- Scopes that are younger than the wanted one are passed over. -/
theorem chainFrom_append {younger : List Scope} (h : ∀ scope ∈ younger, index < scope.index)
    (older : List Scope) :
    chainFrom (some index) (younger ++ older) = chainFrom (some index) older := by
  induction younger with
  | nil => rfl
  | cons scope younger ih =>
    have hlt := h scope List.mem_cons_self
    have hne : some scope.index ≠ some index := by
      intro heq
      have heq := Option.some.inj heq
      omega
    rw [List.cons_append, chainFrom, if_neg hne]
    exact ih fun scope hmem => h scope (List.mem_cons_of_mem _ hmem)

namespace Sound

/-- The chain of a scope is the scope and the chain of its parent. -/
theorem chain_eq (sound : arena.Sound) (h : arena.scope? index = some scope) :
    arena.chain index = scope :: (scope.parent.elim [] arena.chain) := by
  obtain ⟨before, after, hscopes⟩ := List.append_of_mem (List.mem_of_find?_eq_some h)
  have hindex := index_of_scope? h
  have hordered := sound.ordered
  rw [hscopes] at hordered
  have hafter : ∀ younger ∈ after.reverse, index < younger.index := by
    intro younger hmem
    rw [← hindex]
    exact (List.pairwise_cons.mp (List.pairwise_append.mp hordered).2.1).1 younger
      (List.mem_reverse.mp hmem)
  have hreverse : arena.scopes.reverse = after.reverse ++ scope :: before.reverse := by
    rw [hscopes]
    simp
  -- The search goes from young to old, so that it meets this scope before any around it.
  have hchain : arena.chain index = scope :: chainFrom scope.parent before.reverse := by
    unfold chain
    rw [hreverse, chainFrom_append hafter, chainFrom, if_pos (congrArg some hindex)]
  rw [hchain]
  cases hparent : scope.parent with
  | none => rw [chainFrom_none, Option.elim_none]
  | some parent =>
    obtain ⟨hlt, -⟩ := sound.parent_lt h hparent
    have hyounger : ∀ younger ∈ after.reverse ++ [scope], parent < younger.index := by
      intro younger hmem
      obtain hmem | hmem := List.mem_append.mp hmem
      · exact Nat.lt_trans hlt (hafter younger hmem)
      · rw [List.mem_singleton.mp hmem, hindex]
        exact hlt
    rw [Option.elim_some, chain, hreverse, List.append_cons, chainFrom_append hyounger]

theorem walk_chain (sound : arena.Sound) (h : arena.scope? index = some scope) :
    arena.Walk index (arena.chain index) := by
  induction index using Nat.strongRecOn generalizing scope with
  | ind index ih =>
    rw [sound.chain_eq h]
    cases hparent : scope.parent with
    | none => exact Walk.root h hparent
    | some parent =>
      obtain ⟨hlt, outer, houter⟩ := sound.parent_lt h hparent
      exact Walk.step h hparent (ih parent hlt houter)

/-- A walk ends at the global scope. -/
theorem getLast?_walk (sound : arena.Sound) {path : List Scope} (h : arena.Walk index path) :
    path.getLast?.map Scope.index = some globalIndex := by
  induction h with
  | @root index scope hscope hparent =>
    by_cases hglobal : index = globalIndex
    · rw [← hglobal, ← index_of_scope? hscope]
      rfl
    · obtain ⟨parent, -, hsome, -⟩ := sound.enclosed index scope hscope hglobal
      rw [hparent] at hsome
      cases hsome
  | @step index parent scope path hscope hparent hpath ih =>
    cases hpath with
    | root => exact ih
    | step => exact ih

end Sound

end ScriptLang.Arena

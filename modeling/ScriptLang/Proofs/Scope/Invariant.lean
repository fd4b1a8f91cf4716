import ScriptLang.Proofs.Scope.Records

namespace ScriptLang.Arena

variable {arena : Arena} {index parent : Nat} {scope : Scope}

def childCount (arena : Arena) (index : Nat) : Nat :=
  arena.scopes.countP fun scope => scope.parent = some index

structure Sound (arena : Arena) : Prop where
  ordered : arena.scopes.Pairwise fun a b => a.index < b.index
  rooted : ∃ scope, arena.scope? globalIndex = some scope ∧ scope.parent = none
  enclosed : ∀ index scope, arena.scope? index = some scope → index ≠ globalIndex →
    ∃ parent outer, scope.parent = some parent ∧ arena.scope? parent = some outer ∧ parent < index
  counted : ∀ index scope, arena.scope? index = some scope →
    scope.liveChildren = arena.childCount index
  bounded : ∀ index scope, arena.scope? index = some scope → index < arena.nextIndex

theorem sound_fresh : fresh.Sound where
  ordered := List.pairwise_singleton _ _
  rooted := ⟨_, rfl, rfl⟩
  enclosed index scope h hne := by
    have hindex := index_of_scope? h
    have hmem := List.mem_of_find?_eq_some h
    rw [List.mem_singleton.mp hmem] at hindex
    exact absurd hindex.symm hne
  counted index scope h := by
    have hmem := List.mem_of_find?_eq_some h
    rw [List.mem_singleton.mp hmem]
    rfl
  bounded index scope h := by
    have hindex := index_of_scope? h
    have hmem := List.mem_of_find?_eq_some h
    rw [List.mem_singleton.mp hmem] at hindex
    rw [← hindex]
    exact Nat.lt_succ_self _

section Counts

theorem childCount_modify {change : Scope → Scope}
    (hkeep : ∀ scope, (change scope).parent = scope.parent) (i : Nat) :
    (arena.modify index change).childCount i = arena.childCount i := by
  unfold childCount modify
  rw [List.countP_map]
  apply List.countP_congr
  intro scope _
  by_cases h : scope.index = index
  · simp [h, hkeep]
  · simp [h]

theorem childCount_pushed (i : Nat) :
    (arena.pushed parent).childCount i = arena.childCount i + if i = parent then 1 else 0 := by
  have hmodify : (arena.modify parent Scope.addChild).childCount i = arena.childCount i :=
    childCount_modify Scope.addChild_parent i
  unfold childCount at hmodify ⊢
  unfold pushed
  rw [List.countP_append, hmodify]
  by_cases h : i = parent
  · simp [h]
  · simp [h, Ne.symm h]

theorem size_pushed : (arena.pushed parent).size = arena.size + 1 := by
  unfold size pushed modify
  simp

/-- A scope stands alone among the scopes with its index. -/
theorem scopes_without (ordered : arena.scopes.Pairwise fun a b => a.index < b.index)
    (h : arena.scope? index = some scope) : ∃ before after,
      arena.scopes = before ++ scope :: after ∧ (arena.without index).scopes = before ++ after := by
  obtain ⟨hindex, before, after, hscopes, hbefore⟩ := List.find?_eq_some_iff_append.mp h
  have hindex := of_decide_eq_true hindex
  refine ⟨before, after, hscopes, ?_⟩
  rw [hscopes] at ordered
  have hafter := (List.pairwise_cons.mp (List.pairwise_append.mp ordered).2.1).1
  have hkept : after.filter (fun scope => scope.index ≠ index) = after := by
    apply List.filter_eq_self.mpr
    intro other hmem
    have hlt := hafter other hmem
    apply decide_eq_true
    omega
  have hkept' : before.filter (fun scope => scope.index ≠ index) = before := by
    apply List.filter_eq_self.mpr
    intro other hmem
    simpa using hbefore other hmem
  unfold without
  rw [hscopes, List.filter_append, List.filter_cons_of_neg (by simp [hindex]), hkept, hkept']

theorem childCount_without (ordered : arena.scopes.Pairwise fun a b => a.index < b.index)
    (h : arena.scope? index = some scope) (i : Nat) :
    (arena.without index).childCount i + (if scope.parent = some i then 1 else 0) =
      arena.childCount i := by
  obtain ⟨before, after, hscopes, hwithout⟩ := scopes_without ordered h
  unfold childCount
  rw [hscopes, hwithout, List.countP_append, List.countP_append, List.countP_cons]
  simp only [decide_eq_true_eq]
  omega

theorem size_without (ordered : arena.scopes.Pairwise fun a b => a.index < b.index)
    (h : arena.scope? index = some scope) : (arena.without index).size + 1 = arena.size := by
  obtain ⟨before, after, hscopes, hwithout⟩ := scopes_without ordered h
  unfold size
  rw [hscopes, hwithout, List.length_append, List.length_append, List.length_cons]
  omega

end Counts

theorem ordered_modify {change : Scope → Scope}
    (hkeep : ∀ scope, (change scope).index = scope.index)
    (ordered : arena.scopes.Pairwise fun a b => a.index < b.index) :
    (arena.modify index change).scopes.Pairwise fun a b => a.index < b.index := by
  unfold modify
  rw [List.pairwise_map]
  simp only [Scope.keeps_ite Scope.index hkeep]
  exact ordered

theorem scope?_of_mem (ordered : arena.scopes.Pairwise fun a b => a.index < b.index)
    (h : scope ∈ arena.scopes) : arena.scope? scope.index = some scope := by
  obtain ⟨before, after, hscopes⟩ := List.append_of_mem h
  rw [hscopes] at ordered
  have hbefore := (List.pairwise_append.mp ordered).2.2
  apply List.find?_eq_some_iff_append.mpr
  refine ⟨decide_eq_true rfl, before, after, hscopes, ?_⟩
  intro other hmem
  have hlt := hbefore other hmem scope List.mem_cons_self
  have hne : other.index ≠ scope.index := by omega
  simp [hne]

/-- A scope without children is no one's parent. -/
theorem parent_ne_of_childCount (h : arena.childCount index = 0) {i : Nat} {inner : Scope}
    (hinner : arena.scope? i = some inner) : inner.parent ≠ some index := by
  intro hparent
  have hmem := List.mem_of_find?_eq_some hinner
  have hzero := List.countP_eq_zero.mp h inner hmem
  exact hzero (decide_eq_true hparent)

namespace Sound

theorem parent_lt (sound : arena.Sound) (h : arena.scope? index = some scope)
    (hparent : scope.parent = some parent) :
    parent < index ∧ ∃ outer, arena.scope? parent = some outer := by
  have hne : index ≠ globalIndex := by
    intro hindex
    obtain ⟨root, hroot, hnone⟩ := sound.rooted
    rw [hindex, hroot] at h
    rw [← Option.some.inj h, hnone] at hparent
    cases hparent
  obtain ⟨parent', outer, hparent', houter, hlt⟩ := sound.enclosed index scope h hne
  rw [hparent'] at hparent
  cases hparent
  exact ⟨hlt, outer, houter⟩

/-- No scope has a parent that is still to come. -/
theorem childCount_nextIndex (sound : arena.Sound) : arena.childCount arena.nextIndex = 0 := by
  apply List.countP_eq_zero.mpr
  intro scope hmem hparent
  have hscope := scope?_of_mem sound.ordered hmem
  obtain ⟨hlt, -⟩ := sound.parent_lt hscope (of_decide_eq_true hparent)
  have hbound := sound.bounded scope.index scope hscope
  omega

theorem modify_bind (sound : arena.Sound) (index : Nat) (name : String) (value : Value) :
    (arena.modify index (Scope.bind name value)).Sound := by
  have hindex (scope : Scope) : (scope.bind name value).index = scope.index := by simp
  have hparent (scope : Scope) : (scope.bind name value).parent = scope.parent := by simp
  have hchildren (scope : Scope) : (scope.bind name value).liveChildren = scope.liveChildren := by
    simp
  refine ⟨ordered_modify hindex sound.ordered, ?_, ?_, ?_, ?_⟩
  · obtain ⟨root, hroot, hnone⟩ := sound.rooted
    refine ⟨_, (scope?_modify_eq_some hindex).mpr ⟨root, hroot, rfl⟩, ?_⟩
    rw [Scope.keeps_ite Scope.parent hparent, hnone]
  · intro i scope h hne
    obtain ⟨before, hbefore, rfl⟩ := (scope?_modify_eq_some hindex).mp h
    obtain ⟨parent, outer, hp, houter, hlt⟩ := sound.enclosed i before hbefore hne
    refine ⟨parent, _, ?_, (scope?_modify_eq_some hindex).mpr ⟨outer, houter, rfl⟩, hlt⟩
    rw [Scope.keeps_ite Scope.parent hparent, hp]
  · intro i scope h
    obtain ⟨before, hbefore, rfl⟩ := (scope?_modify_eq_some hindex).mp h
    rw [childCount_modify hparent, ← sound.counted i before hbefore,
      Scope.keeps_ite Scope.liveChildren hchildren]
  · intro i scope h
    obtain ⟨before, hbefore, -⟩ := (scope?_modify_eq_some hindex).mp h
    exact sound.bounded i before hbefore

theorem pushed (sound : arena.Sound) (hlive : (arena.scope? parent).isSome) :
    (arena.pushed parent).Sound := by
  obtain ⟨around, haround⟩ := Option.isSome_iff_exists.mp hlive
  have hlt := sound.bounded parent around haround
  have hkept {i : Nat} {scope : Scope} (h : arena.scope? i = some scope) :
      (arena.pushed parent).scope? i = some (if i = parent then scope.addChild else scope) :=
    scope?_pushed_eq_some.mpr (Or.inl ⟨scope, h, rfl⟩)
  refine ⟨?_, ?_, ?_, ?_, ?_⟩
  · apply List.pairwise_append.mpr
    refine ⟨ordered_modify Scope.addChild_index sound.ordered, List.pairwise_singleton _ _, ?_⟩
    intro scope hmem new hnew
    rw [List.mem_singleton.mp hnew]
    obtain ⟨before, hbefore, rfl⟩ := List.mem_map.mp hmem
    rw [Scope.keeps_ite Scope.index Scope.addChild_index]
    exact sound.bounded before.index before (scope?_of_mem sound.ordered hbefore)
  · obtain ⟨root, hroot, hnone⟩ := sound.rooted
    refine ⟨_, hkept hroot, ?_⟩
    rw [Scope.keeps_ite Scope.parent Scope.addChild_parent, hnone]
  · intro i scope h hne
    obtain ⟨before, hbefore, rfl⟩ | ⟨-, rfl, rfl⟩ := scope?_pushed_eq_some.mp h
    · obtain ⟨outer, scope, hp, hscope, hbelow⟩ := sound.enclosed i before hbefore hne
      refine ⟨outer, _, ?_, hkept hscope, hbelow⟩
      rw [Scope.keeps_ite Scope.parent Scope.addChild_parent, hp]
    · exact ⟨parent, _, rfl, hkept haround, hlt⟩
  · intro i scope h
    rw [childCount_pushed]
    obtain ⟨before, hbefore, rfl⟩ | ⟨-, rfl, rfl⟩ := scope?_pushed_eq_some.mp h
    · rw [← sound.counted i before hbefore]
      split
      · rfl
      · rfl
    · rw [sound.childCount_nextIndex, if_neg (Nat.ne_of_gt hlt)]
  · intro i scope h
    obtain ⟨before, hbefore, -⟩ | ⟨-, rfl, -⟩ := scope?_pushed_eq_some.mp h
    · exact Nat.lt_succ_of_lt (sound.bounded i before hbefore)
    · exact Nat.lt_succ_self _

theorem released (sound : arena.Sound) (h : arena.scope? index = some scope)
    (hne : index ≠ globalIndex) (hchildren : scope.liveChildren = 0) :
    (arena.released index scope.parent).Sound := by
  obtain ⟨parent, outer, hparent, houter, hlt⟩ := sound.enclosed index scope h hne
  have hzero : arena.childCount index = 0 := by rw [← sound.counted index scope h, hchildren]
  have hkept {i : Nat} {inner : Scope} (hinner : arena.scope? i = some inner) (hi : i ≠ index) :
      (arena.released index (some parent)).scope? i =
        some (if i = parent then inner.removeChild else inner) :=
    scope?_released_eq_some.mpr ⟨hi, inner, hinner, rfl⟩
  have hcount (i : Nat) := childCount_without sound.ordered h i
  have hmodify (i : Nat) : (arena.released index (some parent)).childCount i =
      (arena.without index).childCount i := childCount_modify Scope.removeChild_parent i
  rw [hparent] at hcount ⊢
  refine ⟨?_, ?_, ?_, ?_, ?_⟩
  · exact ordered_modify Scope.removeChild_index (sound.ordered.filter _)
  · obtain ⟨root, hroot, hnone⟩ := sound.rooted
    refine ⟨_, hkept hroot (Ne.symm hne), ?_⟩
    rw [Scope.keeps_ite Scope.parent Scope.removeChild_parent, hnone]
  · intro i inner hinner hi
    obtain ⟨-, before, hbefore, rfl⟩ := scope?_released_eq_some.mp hinner
    obtain ⟨around, scope', hp, hscope', hbelow⟩ := sound.enclosed i before hbefore hi
    -- A scope that is counted to have no children is not the one around this scope.
    have haround : around ≠ index := by
      intro heq
      apply parent_ne_of_childCount hzero hbefore
      rw [hp, heq]
    refine ⟨around, _, ?_, hkept hscope' haround, hbelow⟩
    rw [Scope.keeps_ite Scope.parent Scope.removeChild_parent, hp]
  · intro i inner hinner
    obtain ⟨-, before, hbefore, rfl⟩ := scope?_released_eq_some.mp hinner
    have hcounted := sound.counted i before hbefore
    have hi := hcount i
    rw [hmodify]
    -- Only the parent has a child less, and only its counter goes down.
    by_cases heq : i = parent
    · subst heq
      rw [if_pos rfl] at hi ⊢
      have hless : before.removeChild.liveChildren = before.liveChildren - 1 := rfl
      omega
    · rw [if_neg heq]
      rw [if_neg (fun hsome => heq (Option.some.inj hsome).symm)] at hi
      omega
  · intro i inner hinner
    obtain ⟨-, before, hbefore, -⟩ := scope?_released_eq_some.mp hinner
    exact sound.bounded i before hbefore

end Sound

end ScriptLang.Arena

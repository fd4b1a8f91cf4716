import ScriptLang.Proofs.Scope.Stale

namespace ScriptLang

namespace Scope

def bindAll (bindings : List (Token × Value)) (scope : Scope) : Scope :=
  bindings.foldl (fun scope binding => scope.bind binding.1.lexeme binding.2) scope

variable {bindings : List (Token × Value)} {scope : Scope}

@[simp] theorem bindAll_index : (scope.bindAll bindings).index = scope.index := by
  induction bindings generalizing scope with
  | nil => rfl
  | cons binding rest ih => exact ih.trans (bind_index _ _ _)

@[simp] theorem bindAll_parent : (scope.bindAll bindings).parent = scope.parent := by
  induction bindings generalizing scope with
  | nil => rfl
  | cons binding rest ih => exact ih.trans (bind_parent _ _ _)

@[simp] theorem bindAll_liveChildren :
    (scope.bindAll bindings).liveChildren = scope.liveChildren := by
  induction bindings generalizing scope with
  | nil => rfl
  | cons binding rest ih => exact ih.trans (bind_liveChildren _ _ _)

def last? (bindings : List (Token × Value)) (name : String) : Option Value :=
  (bindings.reverse.find? fun binding => binding.1.lexeme = name).map Prod.snd

theorem last?_cons (binding : Token × Value) (rest : List (Token × Value)) (name : String) :
    last? (binding :: rest) name =
      (last? rest name).or (if binding.1.lexeme = name then some binding.2 else none) := by
  unfold last?
  rw [List.reverse_cons, List.find?_append, List.find?_singleton]
  cases rest.reverse.find? fun binding => binding.1.lexeme = name with
  | some later => rfl
  | none =>
    by_cases h : binding.1.lexeme = name
    · simp [h]
    · simp [h]

theorem lookup_bindAll (name : String) :
    (scope.bindAll bindings).lookup name = (last? bindings name).or (scope.lookup name) := by
  induction bindings generalizing scope with
  | nil => rfl
  | cons binding rest ih =>
    have hrest : (scope.bindAll (binding :: rest)).lookup name =
        ((scope.bind binding.1.lexeme binding.2).bindAll rest).lookup name := rfl
    rw [hrest, ih, last?_cons, Option.or_assoc, lookup_bind]
    by_cases h : binding.1.lexeme = name
    · simp [h]
    · simp [h, Ne.symm h]

end Scope

namespace Arena

variable {start arena arena' : Arena} {index parent i : Nat} {scope : Scope} {name : String}
  {history : List Event} {bindings : List (Token × Value)}

theorem modify_modify {first second : Scope → Scope}
    (hkeep : ∀ scope, (first scope).index = scope.index) :
    (arena.modify index first).modify index second = arena.modify index (second ∘ first) := by
  unfold modify
  rw [List.map_map]
  congr 2
  funext scope
  by_cases h : scope.index = index
  · simp [h, hkeep]
  · simp [h]

theorem modify_id : arena.modify index id = arena := by
  unfold modify
  simp

section Lookup

def lookup? (arena : Arena) (name : String) (index : Nat) : Option Value :=
  (arena.scope? index).bind fun scope => scope.lookup name

theorem findSome?_congr {α β : Type} {f g : α → Option β} {items : List α}
    (h : ∀ item ∈ items, f item = g item) : items.findSome? f = items.findSome? g := by
  induction items with
  | nil => rfl
  | cons item rest ih =>
    have hrest := ih fun other hmem => h other (List.mem_cons_of_mem _ hmem)
    rw [List.findSome?_cons, List.findSome?_cons, h item List.mem_cons_self, hrest]

theorem bound?_eq_findSome? : arena.bound? index name =
    (arena.chain index).findSome? fun scope => scope.lookup name := by
  unfold bound? binder?
  induction arena.chain index with
  | nil => rfl
  | cons scope rest ih =>
    cases h : scope.lookup name with
    | some value => simp [h]
    | none => simpa [h] using ih

/-- A name means what the innermost scope of the chain with this name binds it to. -/
theorem Sound.bound?_eq (sound : arena.Sound) (h : arena.scope? index = some scope) :
    arena.bound? index name =
      ((arena.chain index).map Scope.index).findSome? (arena.lookup? name) := by
  rw [bound?_eq_findSome?, List.findSome?_map]
  apply findSome?_congr
  intro inner hmem
  have hinner := (sound.walk_chain h).scope?_of_mem hmem
  rw [Function.comp_apply, lookup?, hinner, Option.bind_some]

/-- A scope that stays live keeps the scopes around it. -/
theorem Becomes.map_chain (h : start.Becomes history arena) (sound : start.Sound)
    {scope' : Scope} (hscope : start.scope? index = some scope)
    (hscope' : arena.scope? index = some scope') :
    (arena.chain index).map Scope.index = (start.chain index).map Scope.index := by
  induction index using Nat.strongRecOn generalizing scope scope' with
  | ind index ih =>
    rw [sound.chain_eq hscope, (h.sound sound).chain_eq hscope', List.map_cons, List.map_cons,
      index_of_scope? hscope, index_of_scope? hscope', h.parent_eq sound hscope hscope']
    cases hparent : scope.parent with
    | none => rfl
    | some parent =>
      have hparent' := (h.parent_eq sound hscope hscope').trans hparent
      obtain ⟨hlt, outer, houter⟩ := sound.parent_lt hscope hparent
      obtain ⟨-, outer', houter'⟩ := (h.sound sound).parent_lt hscope' hparent'
      exact congrArg (index :: ·) (ih parent hlt houter houter')

end Lookup

section Called

/-- The arena with a new scope inside the one of this index, and these names bound there. -/
def called (arena : Arena) (parent : Nat) (bindings : List (Token × Value)) : Arena :=
  (arena.pushed parent).modify arena.nextIndex (Scope.bindAll bindings)

theorem Sound.scope?_nextIndex (sound : arena.Sound) : arena.scope? arena.nextIndex = none := by
  apply Option.eq_none_iff_forall_ne_some.mpr
  intro scope hscope
  exact Nat.lt_irrefl _ (sound.bounded _ scope hscope)

theorem Sound.ne_nextIndex (sound : arena.Sound) (h : (arena.scope? i).isSome) :
    i ≠ arena.nextIndex := by
  intro heq
  rw [heq, sound.scope?_nextIndex] at h
  cases h

theorem scope?_called_self (sound : arena.Sound) :
    (arena.called parent bindings).scope? arena.nextIndex =
      some (Scope.bindAll bindings ⟨arena.nextIndex, some parent, [], 0⟩) := by
  have hpushed : (arena.pushed parent).scope? arena.nextIndex =
      some ⟨arena.nextIndex, some parent, [], 0⟩ :=
    scope?_pushed_eq_some.mpr (Or.inr ⟨sound.scope?_nextIndex, rfl, rfl⟩)
  unfold called
  rw [scope?_modify (fun _ => Scope.bindAll_index), if_pos rfl, hpushed, Option.map_some]

theorem isSome_called (sound : arena.Sound) :
    ((arena.called parent bindings).scope? arena.nextIndex).isSome := by
  rw [scope?_called_self sound]
  rfl

theorem scope?_called_of_ne (h : i ≠ arena.nextIndex) :
    (arena.called parent bindings).scope? i =
      if i = parent then (arena.scope? i).map Scope.addChild else arena.scope? i := by
  unfold called
  rw [scope?_modify (fun _ => Scope.bindAll_index), if_neg h, scope?_pushed, if_neg h,
    Option.or_none]

/-- No binding of another scope changes. -/
theorem lookup?_called_of_ne (h : i ≠ arena.nextIndex) :
    (arena.called parent bindings).lookup? name i = arena.lookup? name i := by
  unfold lookup?
  rw [scope?_called_of_ne h]
  split
  · cases arena.scope? i <;> rfl
  · rfl

/-- Around the scope of a call are those around the closure. -/
theorem map_chain_called (sound : arena.Sound) (hparent : (arena.scope? parent).isSome)
    (h : arena.Becomes history (arena.called parent bindings)) :
    ((arena.called parent bindings).chain arena.nextIndex).map Scope.index =
      arena.nextIndex :: (arena.chain parent).map Scope.index := by
  obtain ⟨around, haround⟩ := Option.isSome_iff_exists.mp hparent
  have hkept : (arena.called parent bindings).scope? parent = some around.addChild := by
    rw [scope?_called_of_ne (sound.ne_nextIndex hparent), if_pos rfl, haround, Option.map_some]
  rw [(h.sound sound).chain_eq (scope?_called_self sound), List.map_cons, Scope.bindAll_index,
    Scope.bindAll_parent, Option.elim_some, h.map_chain sound haround hkept]

/-- In the scope of a call a name means what it is bound to there, or else what it means in the
closure. -/
theorem bound?_called (sound : arena.Sound) (hparent : (arena.scope? parent).isSome)
    (h : arena.Becomes history (arena.called parent bindings)) :
    (arena.called parent bindings).bound? arena.nextIndex name =
      (Scope.last? bindings name).or (arena.bound? parent name) := by
  obtain ⟨around, haround⟩ := Option.isSome_iff_exists.mp hparent
  have hself : (arena.called parent bindings).scope? arena.nextIndex =
      some (Scope.bindAll bindings ⟨arena.nextIndex, some parent, [], 0⟩) :=
    scope?_called_self sound
  have hown : (arena.called parent bindings).lookup? name arena.nextIndex =
      Scope.last? bindings name := by
    rw [lookup?, hself, Option.bind_some, Scope.lookup_bindAll]
    exact Option.or_none
  have houter : ((arena.chain parent).map Scope.index).findSome?
        ((arena.called parent bindings).lookup? name) = arena.bound? parent name := by
    rw [sound.bound?_eq haround]
    apply findSome?_congr
    intro i hmem
    obtain ⟨inner, hinner, rfl⟩ := List.mem_map.mp hmem
    have hscope := (sound.walk_chain haround).scope?_of_mem hinner
    exact lookup?_called_of_ne (sound.ne_nextIndex (by rw [hscope]; rfl))
  rw [(h.sound sound).bound?_eq hself, map_chain_called sound hparent h, List.findSome?_cons,
    hown, houter]
  cases Scope.last? bindings name <;> rfl

end Called

end Arena

namespace Action

variable {store after : Store} {handle call : Handle} {arena : Arena} {name : Identifier}
  {value : Value} {bindings : List (Token × Value)} {function : Function}
  {arguments : List Value} {line : Option Int}

/-- A write that succeeds is the change of one arena. -/
theorem write_eq_ok {α : Type} {change : Arena → Except ScopeError (α × Arena)} {result : α}
    (harena : store.arenas[handle.arena]? = some arena)
    (h : (requireClosures value >>= fun _ => update handle change) store = (.ok result, after)) :
    ∃ arena', change arena = .ok (result, arena') ∧ after = store.setArena handle arena' := by
  rw [bind_apply, requireClosures_eq] at h
  cases hclosures : value.closures.find? (!store.isLive ·) with
  | some dead =>
    rw [hclosures] at h
    cases h
  | none =>
    rw [hclosures] at h
    simp only [update_apply, Store.arena_of_getElem? harena rfl] at h
    cases hchange : change arena with
    | ok pair =>
      rw [hchange] at h
      cases h
      exact ⟨_, rfl, rfl⟩
    | error error =>
      rw [hchange] at h
      cases h

theorem define_eq_ok (harena : store.arenas[handle.arena]? = some arena)
    (h : define handle name value store = (.ok (), after)) :
    after = store.setArena handle (arena.modify handle.scope (Scope.bind name.text value)) := by
  obtain ⟨arena', hchange, rfl⟩ := write_eq_ok harena h
  cases hdefine : arena.define handle.scope name value with
  | ok defined =>
    obtain ⟨-, rfl⟩ := Arena.define_eq_ok hdefine
    rw [hdefine] at hchange
    cases hchange
    rfl
  | error error =>
    rw [hdefine] at hchange
    cases hchange

theorem setArena_self (harena : store.arenas[handle.arena]? = some arena) :
    store.setArena handle arena = store := by
  obtain ⟨hlt, rfl⟩ := List.getElem?_eq_some_iff.mp harena
  unfold Store.setArena
  rw [List.set_getElem_self]

theorem getElem?_setArena (harena : store.arenas[handle.arena]? = some arena) (arena' : Arena) :
    (store.setArena handle arena').arenas[handle.arena]? = some arena' :=
  List.getElem?_set_self (List.getElem?_eq_some_iff.mp harena).1

theorem setArena_setArena (first second : Arena) :
    (store.setArena handle first).setArena handle second = store.setArena handle second := by
  unfold Store.setArena
  rw [List.set_set]

theorem defineAll_eq_ok (harena : store.arenas[handle.arena]? = some arena)
    (h : defineAll handle bindings store = (.ok (), after)) :
    after = store.setArena handle (arena.modify handle.scope (Scope.bindAll bindings)) := by
  induction bindings generalizing store arena with
  | nil =>
    cases h
    exact ((congrArg _ Arena.modify_id).trans (setArena_self harena)).symm
  | cons binding rest ih =>
    obtain ⟨param, value⟩ := binding
    rw [defineAll, bind_apply] at h
    rcases hdefine : define handle (Identifier.ofToken param) value store with ⟨result, between⟩
    rw [hdefine] at h
    cases result with
    | error error => cases h
    | ok done =>
      have hbetween := define_eq_ok harena hdefine
      subst hbetween
      have hrest := ih (getElem?_setArena harena _) h
      have hkeep (scope : Scope) : (scope.bind param.lexeme value).index = scope.index := by simp
      rw [hrest, setArena_setArena]
      exact congrArg _ (Arena.modify_modify hkeep)

theorem bindArguments_eq_ok (harena : store.arenas[function.closure.arena]? = some arena)
    (h : bindArguments function arguments line store = (.ok call, after)) :
    (arena.scope? function.closure.scope).isSome ∧
      call = ⟨store.issued, function.closure.arena, arena.nextIndex⟩ ∧
      after.arenas = store.arenas.set function.closure.arena
        (arena.called function.closure.scope (function.declaration.params.zip arguments)) := by
  unfold bindArguments at h
  by_cases harity : arguments.length ≠ function.declaration.arity
  · simp only [if_pos harity] at h
    cases h
  · simp only [if_neg harity] at h
    rw [bind_apply, enclose_apply, Store.arena_of_getElem? harena rfl] at h
    -- first the scope is opened, then the parameters are bound; neither fails here
    cases hpush : arena.push function.closure.scope with
    | error error =>
      rw [hpush] at h
      cases h
    | ok pair =>
      obtain ⟨index, opened⟩ := pair
      obtain ⟨hlive, rfl, rfl⟩ := Arena.push_eq_ok hpush
      rw [hpush] at h
      simp only [bind_apply] at h
      generalize hinner : Handle.mk store.issued function.closure.arena arena.nextIndex = inner at h
      generalize hopened : Store.mk (store.setArena function.closure
        (arena.pushed function.closure.scope)).arenas (store.issued + 1) = opened at h
      rcases hall : defineAll inner (function.declaration.params.zip arguments) opened with
        ⟨result, bound⟩
      rw [hall] at h
      cases result with
      | error error => cases h
      | ok done =>
        cases h
        have harena' : opened.arenas[call.arena]? =
            some (arena.pushed function.closure.scope) := by
          rw [← hopened, ← hinner]
          exact getElem?_setArena harena _
        rw [defineAll_eq_ok harena' hall, ← hopened, ← hinner]
        exact ⟨hlive, rfl, List.set_set _⟩

/-- What is got through a handle to a live scope. -/
theorem lookup_eq (harena : store.arena handle = arena)
    (hlive : (arena.scope? handle.scope).isSome) (name : Identifier) :
    lookup handle name store = match arena.bound? handle.scope name.text with
      | some value => (.ok value, store)
      | none => (.error (.undefined name), store) := by
  unfold lookup
  rw [view_apply, harena, Arena.get_of_live hlive]
  cases arena.bound? handle.scope name.text <;> rfl

/-- A call that succeeds leads from the arena of its closure to the one with the new scope. -/
theorem becomes_called (harena : store.arenas[function.closure.arena]? = some arena)
    (h : bindArguments function arguments line store = (.ok call, after)) :
    after.arenas[function.closure.arena]? =
        some (arena.called function.closure.scope (function.declaration.params.zip arguments)) ∧
      arena.Becomes ((callLog function arguments store).inArena function.closure.arena)
        (arena.called function.closure.scope (function.declaration.params.zip arguments)) := by
  obtain ⟨-, -, harenas⟩ := bindArguments_eq_ok harena h
  have hafter : after.arenas[function.closure.arena]? =
      some (arena.called function.closure.scope (function.declaration.params.zip arguments)) := by
    rw [harenas, List.getElem?_set_self (List.getElem?_eq_some_iff.mp harena).1]
  obtain ⟨arena', harena', hbecomes⟩ :=
    evolves_bindArguments function arguments line function.closure.arena arena harena
  rw [h, hafter] at harena'
  rw [← Option.some.inj harena'] at hbecomes
  exact ⟨hafter, hbecomes⟩

/-- What a call that succeeds leaves behind: a new scope inside the closure, which counts it, and no
other change. A name means in it the argument of the last parameter with that name, and otherwise
what it means in the closure. -/
structure OpensCall (function : Function) (arguments : List Value) (store : Store) (call : Handle)
    (after : Store) : Prop where
  inArena : call.arena = function.closure.arena
  fresh : (store.arena function.closure).scope? call.scope = none
  placed : ∃ scope, (after.arena call).scope? call.scope = some scope ∧
    scope.parent = some function.closure.scope ∧ scope.liveChildren = 0
  kept : ∀ index, index ≠ call.scope → (after.arena call).scope? index =
    if index = function.closure.scope then
      ((store.arena function.closure).scope? index).map Scope.addChild
    else (store.arena function.closure).scope? index
  others : ∀ number, number ≠ call.arena → after.arenas[number]? = store.arenas[number]?
  resolved : ∀ name : Identifier, Action.lookup call name after =
    match Scope.last? (function.declaration.params.zip arguments) name.text with
    | some value => (.ok value, after)
    | none => ((Action.lookup function.closure name store).1, after)

theorem opensCall_of_bindArguments (harena : store.arenas[function.closure.arena]? = some arena)
    (sound : arena.Sound)
    (h : bindArguments function arguments line store = (.ok call, after)) :
    OpensCall function arguments store call after := by
  obtain ⟨hafter, hbecomes⟩ := becomes_called harena h
  obtain ⟨hclosure, rfl, harenas⟩ := bindArguments_eq_ok harena h
  have hbefore : store.arena function.closure = arena := Store.arena_of_getElem? harena rfl
  have hcalled : after.arena ⟨store.issued, function.closure.arena, arena.nextIndex⟩ =
      arena.called function.closure.scope (function.declaration.params.zip arguments) :=
    Store.arena_of_getElem? hafter rfl
  have hself : (arena.called function.closure.scope
      (function.declaration.params.zip arguments)).scope? arena.nextIndex =
        some (Scope.bindAll _ ⟨arena.nextIndex, some function.closure.scope, [], 0⟩) :=
    Arena.scope?_called_self sound
  refine ⟨rfl, ?_, ?_, ?_, ?_, ?_⟩
  · rw [hbefore]
    exact sound.scope?_nextIndex
  · rw [hcalled]
    exact ⟨_, hself, Scope.bindAll_parent, Scope.bindAll_liveChildren⟩
  · intro index hne
    rw [hcalled, hbefore]
    exact Arena.scope?_called_of_ne hne
  · intro number hne
    rw [harenas, List.getElem?_set_ne (Ne.symm hne)]
  · intro name
    rw [lookup_eq hcalled (Arena.isSome_called sound), lookup_eq hbefore hclosure,
      Arena.bound?_called sound hclosure hbecomes]
    cases Scope.last? (function.declaration.params.zip arguments) name.text with
    | some value => rfl
    | none => cases arena.bound? function.closure.scope name.text <;> rfl

end Action

end ScriptLang

import ScriptLang.Proofs.Scope.Operations

namespace ScriptLang

namespace Action

variable {α β : Type}

def KeepsCount (action : Action α) : Prop :=
  ∀ store, (action store).2.arenas.length = store.arenas.length

theorem KeepsCount.bind {first : Action α} {next : α → Action β} (h : first.KeepsCount)
    (hnext : ∀ value, (next value).KeepsCount) : (first >>= next).KeepsCount := by
  intro store
  have hfirst := h store
  rw [bind_apply]
  rcases hresult : first store with ⟨result, between⟩
  rw [hresult] at hfirst
  cases result with
  | ok value => exact (hnext value between).trans hfirst
  | error error => exact hfirst

theorem keepsCount_pure (result : α) : (pure result : Action α).KeepsCount := fun _ => rfl

theorem keepsCount_view (handle : Handle) (look : Arena → Except ScopeError α) :
    (view handle look).KeepsCount := by
  intro store
  rw [view_apply]

theorem keepsCount_update (handle : Handle) (change : Arena → Except ScopeError (α × Arena)) :
    (update handle change).KeepsCount := by
  intro store
  rw [update_apply]
  cases change (store.arena handle) with
  | ok pair => exact List.length_set
  | error error => rfl

theorem keepsCount_enclose (handle : Handle) : (enclose handle).KeepsCount :=
  (keepsCount_update handle _).bind fun _ _ => rfl

theorem keepsCount_enclosing (handle : Handle) : (enclosing handle).KeepsCount := by
  apply (keepsCount_view handle _).bind
  intro scope store
  obtain ⟨index, parent, bindings, liveChildren⟩ := scope
  cases parent with
  | none => rfl
  | some parent => rfl

theorem keepsCount_describe (handle : Handle) : (describe handle).KeepsCount :=
  (keepsCount_view handle _).bind fun _ => keepsCount_pure _

theorem keepsCount_requireClosures (value : Value) : (requireClosures value).KeepsCount := by
  intro store
  rw [requireClosures_apply]

theorem keepsCount_define (handle : Handle) (name : Identifier) (value : Value) :
    (define handle name value).KeepsCount :=
  (keepsCount_requireClosures value).bind fun _ => keepsCount_update handle _

theorem keepsCount_assign (handle : Handle) (name : Identifier) (value : Value) :
    (assign handle name value).KeepsCount :=
  (keepsCount_requireClosures value).bind fun _ => keepsCount_update handle _

theorem keepsCount_declare (declaration : FunctionDecl) (handle : Handle) :
    (declare declaration handle).KeepsCount :=
  (keepsCount_define handle _ _).bind fun _ => keepsCount_pure _

theorem keepsCount_defineAll (handle : Handle) (bindings : List (Token × Value)) :
    (defineAll handle bindings).KeepsCount := by
  induction bindings with
  | nil => exact keepsCount_pure ()
  | cons binding rest ih => exact (keepsCount_define handle _ _).bind fun _ => ih

theorem keepsCount_bindArguments (function : Function) (arguments : List Value)
    (line : Option Int) : (bindArguments function arguments line).KeepsCount := by
  unfold bindArguments
  by_cases harity : arguments.length ≠ function.declaration.arity
  · simp only [if_pos harity]
    exact fun _ => rfl
  · simp only [if_neg harity]
    apply (keepsCount_enclose function.closure).bind
    intro inner
    exact (keepsCount_defineAll inner _).bind fun _ => keepsCount_pure _

end Action

def Store.Sound (store : Store) : Prop := ∀ arena ∈ store.arenas, arena.Sound

namespace Store

variable {store after : Store} {log : Log}

theorem Evolves.length_le (h : store.Evolves log after) :
    store.arenas.length ≤ after.arenas.length := by
  apply Nat.le_of_not_lt
  intro hlt
  obtain ⟨arena, harena, -⟩ := h after.arenas.length _ (List.getElem?_eq_getElem hlt)
  exact absurd (List.getElem?_eq_some_iff.mp harena).1 (Nat.lt_irrefl _)

/-- Arenas that were there before stay sound, and no others are there. -/
theorem Evolves.sound (h : store.Evolves log after)
    (hcount : after.arenas.length = store.arenas.length) (sound : store.Sound) : after.Sound := by
  intro arena hmem
  obtain ⟨number, hlt, rfl⟩ := List.mem_iff_getElem.mp hmem
  have hbefore := List.getElem?_eq_getElem (hcount ▸ hlt)
  obtain ⟨arena', harena', hbecomes⟩ := h number _ hbefore
  rw [List.getElem?_eq_getElem hlt] at harena'
  rw [Option.some.inj harena']
  exact hbecomes.sound (sound _ (List.mem_of_getElem? hbefore))

theorem Sound.newArena (sound : store.Sound) : (Action.newArena store).2.Sound := by
  intro arena hmem
  obtain hold | hnew := List.mem_append.mp hmem
  · exact sound arena hold
  · rw [List.mem_singleton.mp hnew]
    exact Arena.sound_fresh

theorem Sound.step (sound : store.Sound) (operation : Operation) :
    (operation.after store).Sound := by
  have hevolves := operation.evolves store
  cases operation with
  | newArena => exact sound.newArena
  | enclose handle => exact hevolves.sound (Action.keepsCount_enclose handle store) sound
  | enclosing handle => exact hevolves.sound (Action.keepsCount_enclosing handle store) sound
  | depth handle => exact hevolves.sound (Action.keepsCount_view handle _ store) sound
  | describe handle => exact hevolves.sound (Action.keepsCount_describe handle store) sound
  | discard handle => exact hevolves.sound (Action.keepsCount_update handle _ store) sound
  | define handle name value =>
    exact hevolves.sound (Action.keepsCount_define handle name value store) sound
  | assign handle name value =>
    exact hevolves.sound (Action.keepsCount_assign handle name value store) sound
  | lookup handle name => exact hevolves.sound (Action.keepsCount_view handle _ store) sound
  | contains handle name => exact hevolves.sound (Action.keepsCount_view handle _ store) sound
  | declare declaration handle =>
    exact hevolves.sound (Action.keepsCount_declare declaration handle store) sound
  | bindArguments function arguments line =>
    exact hevolves.sound (Action.keepsCount_bindArguments function arguments line store) sound

theorem Sound.run (sound : store.Sound) (operations : List Operation) :
    (store.run operations).Sound := by
  induction operations generalizing store with
  | nil => exact sound
  | cons operation rest ih => exact ih (sound.step operation)

theorem sound_empty : empty.Sound := by
  intro arena hmem
  cases hmem

end Store

end ScriptLang

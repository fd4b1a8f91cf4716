import ScriptLang.Proofs.Scope.Soundness

namespace ScriptLang

/-- The scopes around a scope, from itself outwards, as they were opened. -/
def surroundings : List Event → Nat → List Nat
  | [], scope => [scope]
  | .opened index parent :: earlier, scope =>
    if scope = index then scope :: surroundings earlier parent else surroundings earlier scope
  | _ :: earlier, scope => surroundings earlier scope

def Event.defines (name : String) (scope : Nat) : Event → Bool
  | defined target bound _ => target = scope && bound = name
  | _ => false

def isDefined (history : List Event) (name : String) (scope : Nat) : Bool :=
  history.any (Event.defines name scope)

/-- The innermost scope around a scope in which a name was defined. -/
def innermost? (history : List Event) (source : Nat) (name : String) : Option Nat :=
  (surroundings history source).find? (isDefined history name)

/-- What an event writes to a name in a scope. An assignment reaches the scope that is the innermost
one with that name at the time. -/
def Event.written? (earlier : List Event) (scope : Nat) (name : String) : Event → Option Value
  | defined target bound value => if target = scope ∧ bound = name then some value else none
  | assigned source bound value =>
    if bound = name ∧ innermost? earlier source name = some scope then some value else none
  | _ => none

/-- The value that was written last to a name in a scope. -/
def latest? : List Event → Nat → String → Option Value
  | [], _, _ => none
  | event :: earlier, scope, name =>
    (event.written? earlier scope name).or (latest? earlier scope name)

section History

variable {history : List Event} {name : String} {scope source : Nat}

theorem isDefined_of_innermost? (h : innermost? history source name = some scope) :
    isDefined history name scope := List.find?_some h

/-- A name has a value in the scopes in which it was defined. -/
theorem isSome_latest? : (latest? history scope name).isSome = isDefined history name scope := by
  induction history with
  | nil => rfl
  | cons event earlier ih =>
    have hcons : isDefined (event :: earlier) name scope =
        (event.defines name scope || isDefined earlier name scope) := List.any_cons
    rw [latest?, Option.isSome_or, ih, hcons]
    cases event with
    | opened index parent => rfl
    | discarded index => rfl
    | defined target bound value =>
      simp only [Event.written?, Event.defines]
      by_cases h : target = scope ∧ bound = name
      · simp [h]
      · simp only [if_neg h, ← Bool.decide_and, decide_eq_false h]
        rfl
    | assigned source bound value =>
      simp only [Event.written?, Event.defines]
      by_cases h : bound = name ∧ innermost? earlier source name = some scope
      · rw [isDefined_of_innermost? h.2, Bool.or_true, Bool.or_true]
      · rw [if_neg h]
        rfl

end History

namespace Arena

/-- The live scopes of an arena lie and bind what its history says, and nothing was done yet to
scopes that are still to come. -/
structure Follows (arena : Arena) (history : List Event) : Prop where
  placed : ∀ index scope, arena.scope? index = some scope →
    surroundings history index = index :: scope.parent.elim [] (surroundings history)
  bound : ∀ index scope, arena.scope? index = some scope →
    ∀ name, scope.lookup name = latest? history index name
  untouched : ∀ index name, arena.nextIndex ≤ index → latest? history index name = none

theorem follows_fresh : fresh.Follows [] where
  placed index scope h := by
    rw [List.mem_singleton.mp (List.mem_of_find?_eq_some h)]
    rfl
  bound index scope h name := by
    rw [List.mem_singleton.mp (List.mem_of_find?_eq_some h)]
    rfl
  untouched _ _ _ := rfl

namespace Follows

variable {arena : Arena} {history : List Event} {index : Nat} {scope : Scope} {name : String}

/-- The chain of a scope is what the history says is around it. -/
theorem map_chain (follows : arena.Follows history) (sound : arena.Sound)
    (h : arena.scope? index = some scope) :
    (arena.chain index).map Scope.index = surroundings history index := by
  induction index using Nat.strongRecOn generalizing scope with
  | ind index ih =>
    rw [sound.chain_eq h, follows.placed index scope h, List.map_cons, index_of_scope? h]
    cases hparent : scope.parent with
    | none => rfl
    | some parent =>
      obtain ⟨hlt, outer, houter⟩ := sound.parent_lt h hparent
      exact congrArg (index :: ·) (ih parent hlt houter)

/-- The innermost scope of a chain that binds a name is the innermost one in which the name was
defined. -/
theorem map_binder? (follows : arena.Follows history) (sound : arena.Sound)
    (h : arena.scope? index = some scope) (name : String) :
    (arena.binder? index name).map Scope.index = innermost? history index name := by
  have hbinds : ∀ inner ∈ arena.chain index,
      (inner.lookup name).isSome = isDefined history name inner.index := by
    intro inner hmem
    rw [follows.bound inner.index inner ((sound.walk_chain h).scope?_of_mem hmem) name]
    exact isSome_latest?
  unfold innermost? binder?
  rw [← follows.map_chain sound h, List.find?_map]
  -- A scope of the chain binds the name if and only if the history defines it there.
  generalize arena.chain index = chain at hbinds
  induction chain with
  | nil => rfl
  | cons inner rest ih =>
    have hrest := ih fun other hmem => hbinds other (List.mem_cons_of_mem _ hmem)
    have hinner := hbinds inner List.mem_cons_self
    cases hdefined : isDefined history name inner.index with
    | true => simp [hinner, hdefined]
    | false => simpa [hinner, hdefined] using hrest

/-- Writing a name in a live scope, as an event that says so. -/
theorem modify_bind (follows : arena.Follows history) (sound : arena.Sound)
    {event : Event} {value : Value} (hlive : arena.scope? index = some scope)
    (hplaces : surroundings (event :: history) = surroundings history)
    (hwritten : ∀ target other, event.written? history target other =
      if index = target ∧ name = other then some value else none) :
    (arena.modify index (Scope.bind name value)).Follows (event :: history) := by
  have hindex (scope : Scope) : (scope.bind name value).index = scope.index := by simp
  refine ⟨?_, ?_, ?_⟩
  · intro i scope' h
    obtain ⟨before, hbefore, rfl⟩ := (scope?_modify_eq_some hindex).mp h
    rw [hplaces, Scope.keeps_ite Scope.parent (Scope.bind_parent · _ _)]
    exact follows.placed i before hbefore
  · intro i scope' h other
    obtain ⟨before, hbefore, rfl⟩ := (scope?_modify_eq_some hindex).mp h
    rw [latest?, hwritten, ← follows.bound i before hbefore other]
    by_cases hi : i = index
    · rw [if_pos hi, Scope.lookup_bind]
      by_cases hname : other = name
      · simp [hi, hname]
      · simp [hname, Ne.symm hname]
    · simp [hi, Ne.symm hi]
  · intro i other hi
    have hlt := sound.bounded index scope hlive
    -- an index that is still to come is not that of a live scope
    have hne : index ≠ i := Nat.ne_of_lt (Nat.lt_of_lt_of_le hlt hi)
    rw [latest?, hwritten, if_neg (fun h => hne h.1), Option.none_or]
    exact follows.untouched i other hi

theorem pushed (follows : arena.Follows history) (sound : arena.Sound) {parent : Nat}
    (hlive : (arena.scope? parent).isSome) :
    (arena.pushed parent).Follows (.opened arena.nextIndex parent :: history) := by
  obtain ⟨around, haround⟩ := Option.isSome_iff_exists.mp hlive
  have hold {i : Nat} (hi : i < arena.nextIndex) :
      surroundings (.opened arena.nextIndex parent :: history) i = surroundings history i :=
    if_neg (Nat.ne_of_lt hi)
  refine ⟨?_, ?_, ?_⟩
  · intro i scope h
    obtain ⟨before, hbefore, rfl⟩ | ⟨-, rfl, rfl⟩ := scope?_pushed_eq_some.mp h
    · have hi := sound.bounded i before hbefore
      rw [hold hi, Scope.keeps_ite Scope.parent Scope.addChild_parent,
        follows.placed i before hbefore]
      -- What is around the parent is older than the new scope, too.
      cases hp : before.parent with
      | none => rfl
      | some outer =>
        obtain ⟨hlt, -⟩ := sound.parent_lt hbefore hp
        rw [Option.elim_some, Option.elim_some, hold (Nat.lt_trans hlt hi)]
    · rw [surroundings, if_pos rfl, Option.elim_some, hold (sound.bounded parent around haround)]
  · intro i scope h name
    obtain ⟨before, hbefore, rfl⟩ | ⟨-, rfl, rfl⟩ := scope?_pushed_eq_some.mp h
    · have hlookup : (if i = parent then before.addChild else before).lookup name =
          before.lookup name :=
        Scope.keeps_ite (Scope.lookup · name) (Scope.addChild_lookup · name) _ before
      rw [hlookup]
      exact follows.bound i before hbefore name
    · exact (follows.untouched _ name (Nat.le_refl _)).symm
  · intro i name hi
    exact follows.untouched i name (Nat.le_of_succ_le hi)

theorem released (follows : arena.Follows history) {parent : Nat} :
    (arena.released index (some parent)).Follows (.discarded index :: history) := by
  refine ⟨?_, ?_, follows.untouched⟩
  · intro i scope h
    obtain ⟨-, before, hbefore, rfl⟩ := scope?_released_eq_some.mp h
    rw [Scope.keeps_ite Scope.parent Scope.removeChild_parent]
    exact follows.placed i before hbefore
  · intro i scope h name
    obtain ⟨-, before, hbefore, rfl⟩ := scope?_released_eq_some.mp h
    have hlookup : (if i = parent then before.removeChild else before).lookup name =
        before.lookup name :=
      Scope.keeps_ite (Scope.lookup · name) (Scope.removeChild_lookup · name) _ before
    rw [hlookup]
    exact follows.bound i before hbefore name

theorem step (follows : arena.Follows history) (sound : arena.Sound) {event : Event}
    {arena' : Arena} (h : arena.Takes event arena') : arena'.Follows (event :: history) := by
  cases h with
  | push h =>
    obtain ⟨hlive, rfl, rfl⟩ := push_eq_ok h
    exact follows.pushed sound hlive
  | release h =>
    obtain ⟨hne, scope, hscope, -, rfl⟩ := release_eq_ok h
    obtain ⟨parent, outer, hparent, -, -⟩ := sound.enclosed _ scope hscope hne
    rw [hparent]
    exact follows.released
  | define h =>
    obtain ⟨hlive, rfl⟩ := define_eq_ok h
    obtain ⟨scope, hscope⟩ := Option.isSome_iff_exists.mp hlive
    exact follows.modify_bind sound hscope rfl fun _ _ => rfl
  | @assign index name value previous arena' h =>
    obtain ⟨hlive, binder, hbinder, -, rfl⟩ := assign_eq_ok h
    obtain ⟨scope, hscope⟩ := Option.isSome_iff_exists.mp hlive
    -- The scope that is written to is the one that the event reaches by the history before it.
    have hmem := List.mem_of_find?_eq_some hbinder
    have hinnermost := follows.map_binder? sound hscope name.text
    rw [hbinder, Option.map_some] at hinnermost
    apply follows.modify_bind sound ((sound.walk_chain hscope).scope?_of_mem hmem) rfl
    intro target other
    simp only [Event.written?]
    by_cases hname : name.text = other
    · rw [← hname, ← hinnermost]
      simp
    · simp [hname]

end Follows

theorem Becomes.follows {history : List Event} {arena : Arena} (h : fresh.Becomes history arena) :
    arena.Follows history := by
  induction h with
  | refl => exact follows_fresh
  | step before last ih => exact ih.step (before.sound sound_fresh) last

end Arena

/-- In an arena with any history a name means, from a live scope, the value that was written last in
the innermost scope around it in which the name was defined; without such a scope it is undefined.
Values are never changed in place, so what is got is as good as a copy. -/
theorem lookup_follows_history (before : Store) :
    ∃ handle start, Action.newArena before = (.ok handle, start) ∧
      ∀ (operations : List Operation) (inner : Handle) (name : Identifier),
        inner.arena = handle.arena →
        (((start.run operations).arena inner).scope? inner.scope).isSome →
        let store := start.run operations
        let history := (start.log operations).inArena handle.arena
        ((store.arena inner).chain inner.scope).map Scope.index =
            surroundings history inner.scope ∧
          match innermost? history inner.scope name.text with
          | some scope => ∃ value, latest? history scope name.text = some value ∧
              Action.lookup inner name store = (.ok value, store) ∧
              Action.contains inner name store = (.ok true, store)
          | none => Action.lookup inner name store = (.error (.undefined name), store) ∧
              Action.contains inner name store = (.ok false, store) := by
  refine ⟨_, _, rfl, ?_⟩
  intro operations inner name hinner hlive store history
  obtain ⟨arena, harena, hbecomes⟩ := Store.becomes_run before rfl operations
  have sound := hbecomes.sound Arena.sound_fresh
  have follows := hbecomes.follows
  have harena : store.arena inner = arena := Store.arena_of_getElem? harena hinner
  rw [harena] at hlive ⊢
  obtain ⟨scope, hscope⟩ := Option.isSome_iff_exists.mp hlive
  refine ⟨follows.map_chain sound hscope, ?_⟩
  have hlookup : Action.lookup inner name store = (arena.get inner.scope name, store) := by
    rw [← harena]
    exact Action.view_apply inner _ store
  have hcontains : Action.contains inner name store = (arena.contains inner.scope name, store) := by
    rw [← harena]
    exact Action.view_apply inner _ store
  rw [hlookup, hcontains, Arena.get_of_live hlive, Arena.contains_of_live hlive,
    ← follows.map_binder? sound hscope name.text]
  unfold Arena.bound?
  cases hbinder : arena.binder? inner.scope name.text with
  | none => exact ⟨rfl, rfl⟩
  | some binder =>
    obtain ⟨value, hvalue⟩ := Arena.lookup_of_binder? hbinder
    have hmem := List.mem_of_find?_eq_some hbinder
    -- the binder is live, so what it binds is what was written last there
    have hlast := follows.bound binder.index binder
      ((sound.walk_chain hscope).scope?_of_mem hmem) name.text
    refine ⟨value, ?_, ?_, rfl⟩
    · rw [← hlast, hvalue]
    · rw [Option.bind_some, hvalue]

def shadowing : List Operation :=
  [.define ⟨0, 0, 0⟩ ⟨"x", none⟩ (.literal (.bool false)), .enclose ⟨0, 0, 0⟩,
   .assign ⟨1, 0, 1⟩ ⟨"x", none⟩ (.literal (.bool true)),
   .define ⟨1, 0, 1⟩ ⟨"x", none⟩ (.literal .null), .enclose ⟨1, 0, 1⟩,
   .assign ⟨2, 0, 2⟩ ⟨"x", none⟩ (.literal (.string "inner")), .discard ⟨1, 0, 1⟩]

theorem shadowing_lookup : ∃ handle start, Action.newArena Store.empty = (.ok handle, start) ∧
    let store := start.run shadowing
    Action.lookup ⟨2, 0, 2⟩ ⟨"x", none⟩ store = (.ok (.literal (.string "inner")), store) ∧
    Action.lookup ⟨0, 0, 0⟩ ⟨"x", none⟩ store = (.ok (.literal (.bool true)), store) ∧
    Action.contains ⟨2, 0, 2⟩ ⟨"y", none⟩ store = (.ok false, store) := by
  obtain ⟨handle, start, hnew, hall⟩ := lookup_follows_history Store.empty
  refine ⟨handle, start, hnew, ?_⟩
  cases hnew
  obtain ⟨-, value, hvalue, hinner, -⟩ := hall shadowing ⟨2, 0, 2⟩ ⟨"x", none⟩ rfl rfl
  cases hvalue
  obtain ⟨-, value, hvalue, hglobal, -⟩ := hall shadowing ⟨0, 0, 0⟩ ⟨"x", none⟩ rfl rfl
  cases hvalue
  obtain ⟨-, -, hcontains⟩ := hall shadowing ⟨2, 0, 2⟩ ⟨"y", none⟩ rfl rfl
  exact ⟨hinner, hglobal, hcontains⟩

end ScriptLang

import ScriptLang.Proofs.Scope.Arenas
import ScriptLang.Proofs.Scope.Captured
import ScriptLang.Proofs.Scope.SameScopes
import ScriptLang.Proofs.Scope.Writes

namespace ScriptLang

def Store.failures (store : Store) : List Operation → List (Operation × ScopeError)
  | [] => []
  | operation :: rest =>
    ((operation.failure? store).map (operation, ·)).toList ++ (operation.after store).failures rest

theorem Store.failures_append (store : Store) (earlier later : List Operation) :
    store.failures (earlier ++ later) =
      store.failures earlier ++ (store.run earlier).failures later := by
  induction earlier generalizing store with
  | nil => rfl
  | cons operation rest ih =>
    rw [List.cons_append, failures, ih, failures, List.append_assoc]
    rfl

def Operation.isDiscard : Operation → Bool
  | discard _ => true
  | _ => false

namespace Action

variable {α β : Type} {store : Store} {arena : Arena}

def block (handle : Handle) (body : Handle → Action α) : Action α :=
  within (fun action => action) handle body

theorem tryFinally_apply (body : Action α) (closing : Action Unit) (store : Store) :
    tryFinally body closing store = match body store with
      | (result, ended) => match closing ended with
        | (.ok _, after) => (result, after)
        | (.error error, after) => (.error error, after) := by
  rcases hbody : body store with ⟨result, ended⟩
  rcases hclosing : closing ended with ⟨closed, after⟩
  simp only [tryFinally, tryFinally', ExceptT.mk, Functor.map, ExceptT.map, bind, StateT.bind,
    hbody, pure]
  cases result with
  | ok value =>
    simp only [hclosing]
    cases closed <;> rfl
  | error error =>
    simp only [hclosing]
    cases closed <;> rfl

theorem block_apply (handle : Handle) (body : Handle → Action α) (store : Store) :
    block handle body store = match enclose handle store with
      | (.ok inner, opened) => match body inner opened with
        | (result, ended) => match discard inner ended with
          | (.ok _, after) => (result, after)
          | (.error error, after) => (.error error, after)
      | (.error error, after) => (.error error, after) := by
  change (enclose handle >>= fun inner => tryFinally (body inner) (discard inner)) store = _
  rw [bind_apply]
  rcases enclose handle store with ⟨result, opened⟩
  cases result with
  | ok inner => exact tryFinally_apply (body inner) (discard inner) opened
  | error error => rfl

/-- The scope of a block has no child left when what is done inside keeps all scopes, so it can be
discarded. Then the scopes are those from before the block. -/
theorem discard_of_keepsScopes {handle inner : Handle} {opened ended : Store}
    (harena : store.arenas[handle.arena]? = some arena) (sound : arena.Sound)
    (hlive : (arena.scope? handle.scope).isSome)
    (hopened : opened.arenas = store.arenas.set handle.arena (arena.pushed handle.scope))
    (hinner : inner.arena = handle.arena) (hscope : inner.scope = arena.nextIndex)
    (h : opened.KeepsScopes ended) : ∃ after,
      discard inner ended = (.ok (), after) ∧ store.KeepsScopes after := by
  obtain ⟨between, hbetween, hsame⟩ := h _ _ (Store.getElem?_of_set harena hopened)
  obtain ⟨closed, hrelease, hclosed⟩ := hsame.release sound hlive
  refine ⟨ended.setArena inner closed, ?_, ?_⟩
  · unfold discard
    rw [update_apply, Store.arena_of_getElem? hbetween hinner, hscope, hrelease]
    rfl
  · intro number before hbefore
    by_cases hnumber : number = inner.arena
    · rw [hnumber, hinner, harena] at hbefore
      cases hbefore
      rw [← hinner] at hbetween
      exact ⟨closed, hnumber ▸ getElem?_setArena hbetween closed, hclosed⟩
    · have hother : inner.arena ≠ number := Ne.symm hnumber
      rw [← List.getElem?_set_ne (hinner ▸ hother), ← hopened] at hbefore
      obtain ⟨after, hafter, hsame⟩ := h number before hbefore
      exact ⟨after, (List.getElem?_set_ne hother).trans hafter, hsame⟩

/-- An action comes to what these operations come to. If it fails, then one of them does, which is
not a discard, with the same error, and no other. All arenas have the same scopes afterwards. -/
structure Settles (action : Action α) (store : Store) (operations : List Operation) : Prop where
  after : store.run operations = (action store).2
  outcome : match (action store).1 with
    | .ok _ => store.failures operations = []
    | .error error => ∃ operation, operation.isDiscard = false ∧
        store.failures operations = [(operation, error)]
  scopes : store.KeepsScopes (action store).2

theorem settles_pure (result : α) (store : Store) : (pure result : Action α).Settles store [] where
  after := rfl
  outcome := rfl
  scopes := .refl store

/-- What is done next is done only after a success. -/
theorem Settles.bind {first : Action α} {next : α → Action β} {earlier : List Operation}
    {later : α → Store → List Operation} (h : first.Settles store earlier)
    (hnext : ∀ value between, first store = (.ok value, between) →
      (next value).Settles between (later value between)) :
    (first >>= next).Settles store (earlier ++ match first store with
      | (.ok value, between) => later value between
      | (.error _, _) => []) := by
  obtain ⟨hafter, houtcome, hscopes⟩ := h
  rcases hfirst : first store with ⟨result, between⟩
  rw [hfirst] at hafter houtcome hscopes
  have hbind := bind_apply first next store
  rw [hfirst] at hbind
  cases result with
  | ok value =>
    have hrest := hnext value between hfirst
    refine ⟨?_, ?_, ?_⟩
    · rw [Store.run_append, hafter, hbind]
      exact hrest.after
    · rw [hbind, Store.failures_append, houtcome, hafter]
      exact hrest.outcome
    · rw [hbind]
      exact hscopes.trans hrest.scopes
  | error error =>
    rw [List.append_nil]
    refine ⟨?_, ?_, ?_⟩
    · rw [hafter, hbind]
    · rw [hbind]
      exact houtcome
    · rw [hbind]
      exact hscopes

/-- An action that succeeds is logged as one event, so it is enough that no such event opens or
discards a scope. -/
theorem log_writes {action : Action α} {number : Nat} {event : α → Event}
    (h : ∀ value, (event value).isOpening = false ∧ (event value).isDiscard = false) :
    ∀ entry ∈ action.log number event store,
      entry.2.isOpening = false ∧ entry.2.isDiscard = false := by
  intro entry hmem
  unfold log at hmem
  rcases hresult : action store with ⟨result, after⟩
  rw [hresult] at hmem
  cases result with
  | ok value =>
    rw [List.mem_singleton.mp hmem]
    exact h value
  | error error => cases hmem

/-- An operation by itself, if it is a write or a lookup. -/
theorem settles_operation {action : Action α} {operation : Operation}
    (hafter : operation.after store = (action store).2)
    (hfailure : operation.failure? store = action.failure? store)
    (hdiscard : operation.isDiscard = false)
    (hwrites : ∀ entry ∈ operation.log store,
      entry.2.isOpening = false ∧ entry.2.isDiscard = false) :
    action.Settles store [operation] := by
  refine ⟨hafter, ?_, ?_⟩
  · unfold failure? at hfailure
    rcases hresult : action store with ⟨result, after⟩
    rw [hresult] at hfailure
    cases result with
    | ok value => simp [Store.failures, hfailure]
    | error error => exact ⟨operation, hdiscard, by simp [Store.failures, hfailure]⟩
  · intro number arena harena
    obtain ⟨arena', harena', hbecomes⟩ := operation.evolves store number arena harena
    rw [hafter] at harena'
    refine ⟨arena', harena', hbecomes.sameScopes ?_⟩
    intro event hmem
    obtain ⟨entry, hentry, hevent⟩ := List.mem_filterMap.mp hmem
    split at hevent
    · cases hevent
      exact hwrites entry hentry
    · cases hevent

/-- A block around a scope that is not live fails at its beginning. -/
theorem settles_block_of_dead {handle : Handle}
    (hdead : (store.arena handle).scope? handle.scope = none) (body : Handle → Action α) :
    (block handle body).Settles store [.enclose handle] := by
  have hopen : enclose handle store = (.error (.discarded handle.scope), store) := by
    rw [enclose_apply, Arena.push_of_dead hdead]
  have hblock := block_apply handle body store
  rw [hopen] at hblock
  refine ⟨?_, ?_, ?_⟩
  · rw [hblock]
    exact congrArg Prod.snd hopen
  · rw [hblock]
    exact ⟨.enclose handle, rfl, by simp [Store.failures, Operation.failure?, failure?, hopen]⟩
  · rw [hblock]
    exact .refl store

/-- A block settles if its body does. What the body fails with comes out of the block, because the
discard at the end succeeds. -/
theorem settles_block {handle : Handle} (harena : store.arenas[handle.arena]? = some arena)
    (sound : arena.Sound) {body : Handle → Action α} {inside : Handle → Store → List Operation}
    (hbody : ∀ inner opened, enclose handle store = (.ok inner, opened) →
      (body inner).Settles opened (inside inner opened)) :
    (block handle body).Settles store (.enclose handle :: match enclose handle store with
      | (.ok inner, opened) => inside inner opened ++ [.discard inner]
      | (.error _, _) => []) := by
  have hstore : store.arena handle = arena := Store.arena_of_getElem? harena rfl
  cases hlive : arena.scope? handle.scope with
  | none =>
    rw [← hstore] at hlive
    rw [enclose_apply, Arena.push_of_dead hlive]
    exact settles_block_of_dead hlive body
  | some around =>
    have hlive : (arena.scope? handle.scope).isSome := by
      rw [hlive]
      rfl
    obtain ⟨opened, hopen, harenas⟩ := enclose_of_live harena hlive
    have hblock := block_apply handle body store
    have hsettles := hbody _ opened hopen
    rw [hopen] at hblock ⊢
    generalize hinner : Handle.mk store.issued handle.arena arena.nextIndex = inner at *
    have hnumber : inner.arena = handle.arena := by rw [← hinner]
    have hscope : inner.scope = arena.nextIndex := by rw [← hinner]
    rcases hended : body inner opened with ⟨result, ended⟩
    obtain ⟨hafter, houtcome, hscopes⟩ := hsettles
    rw [hended] at hafter houtcome hscopes
    -- whatever the body did, the scope of the block has no children, so discarding it succeeds
    obtain ⟨after, hdiscard, hkeeps⟩ := discard_of_keepsScopes harena sound hlive harenas
      hnumber hscope hscopes
    simp only [hended, hdiscard] at hblock
    have hfirst : (Operation.enclose handle).after store = opened := congrArg Prod.snd hopen
    have hfailures : store.failures (.enclose handle :: (inside inner opened ++ [.discard inner])) =
        opened.failures (inside inner opened) := by
      rw [Store.failures, hfirst, Store.failures_append, hafter]
      simp [Store.failures, Operation.failure?, failure?, hopen, hdiscard]
    refine ⟨?_, ?_, ?_⟩
    · change (Operation.after store (.enclose handle)).run _ = _
      rw [hfirst, Store.run_append, hafter, hblock]
      exact congrArg Prod.snd hdiscard
    · rw [hblock, hfailures]
      exact houtcome
    · rw [hblock]
      exact hkeeps

end Action

/-- A write or a lookup, with the type of its result. -/
inductive Access : Type → Type where
  | define (handle : Handle) (name : Identifier) (value : Value) : Access Unit
  | assign (handle : Handle) (name : Identifier) (value : Value) : Access Value
  | lookup (handle : Handle) (name : Identifier) : Access Value
  | contains (handle : Handle) (name : Identifier) : Access Bool

namespace Access

variable {α : Type}

def action : Access α → Action α
  | define handle name value => Action.define handle name value
  | assign handle name value => Action.assign handle name value
  | lookup handle name => Action.lookup handle name
  | contains handle name => Action.contains handle name

def operation : Access α → Operation
  | define handle name value => .define handle name value
  | assign handle name value => .assign handle name value
  | lookup handle name => .lookup handle name
  | contains handle name => .contains handle name

theorem settles (access : Access α) (store : Store) :
    access.action.Settles store [access.operation] := by
  cases access with
  | define handle name value =>
    exact Action.settles_operation rfl rfl rfl (Action.log_writes fun _ => ⟨rfl, rfl⟩)
  | assign handle name value =>
    exact Action.settles_operation rfl rfl rfl (Action.log_writes fun _ => ⟨rfl, rfl⟩)
  | lookup handle name =>
    apply Action.settles_operation rfl rfl rfl
    intro entry hmem
    cases hmem
  | contains handle name =>
    apply Action.settles_operation rfl rfl rfl
    intro entry hmem
    cases hmem

end Access

/-- There are so many arenas at least, and all of them are sound. -/
structure Store.Provides (store : Store) (count : Nat) : Prop where
  sound : store.Sound
  enough : count ≤ store.arenas.length

theorem Store.Provides.run {store : Store} {count : Nat} (h : store.Provides count)
    (operations : List Operation) : (store.run operations).Provides count where
  sound := h.sound.run operations
  enough := Nat.le_trans h.enough (Store.evolves_run store operations).length_le

theorem Action.Settles.provides {α : Type} {action : Action α} {store between : Store}
    {operations : List Operation} {count : Nat} {result : α} (h : action.Settles store operations)
    (hstore : store.Provides count) (hresult : action store = (.ok result, between)) :
    between.Provides count := by
  obtain rfl : store.run operations = between := by rw [h.after, hresult]
  exact hstore.run operations

/-- A handle, live or not, into one of the first arenas, of which there are this many. -/
def HandleIn (count : Nat) : Type := { handle : Handle // handle.arena < count }

def HandleIn.inside {count : Nat} (outer : HandleIn count) (inner : Handle) : HandleIn count :=
  ⟨{ inner with arena := outer.val.arena }, outer.property⟩

theorem Store.Provides.arena {store : Store} {count : Nat} (h : store.Provides count)
    (outer : HandleIn count) :
    ∃ arena, store.arenas[outer.val.arena]? = some arena ∧ arena.Sound := by
  have hsome := List.getElem?_eq_getElem (Nat.lt_of_lt_of_le outer.property h.enough)
  exact ⟨_, hsome, h.sound _ (List.mem_of_getElem? hsome)⟩

/-- Programs that write and look up through any handles, and open scopes for blocks only. What comes
next may depend on the results so far. -/
inductive BlockProgram (count : Nat) : Type → Type 1 where
  | done {α : Type} (result : α) : BlockProgram count α
  | access {α β : Type} (first : Access α) (next : α → BlockProgram count β) :
      BlockProgram count β
  | within {α β : Type} (outer : HandleIn count) (body : HandleIn count → BlockProgram count α)
      (next : α → BlockProgram count β) : BlockProgram count β

namespace BlockProgram

variable {α : Type} {count : Nat} {store : Store}

def run {α : Type} : BlockProgram count α → Action α
  | done result => pure result
  | access first next => do
    let result ← first.action
    (next result).run
  | within outer body next => do
    let result ← Action.block outer.val fun inner => (body (outer.inside inner)).run
    (next result).run

/-- What a program does, one operation after the other, up to the one that fails. Each block begins
with opening a scope, and ends with discarding it. -/
def operations {α : Type} : BlockProgram count α → Store → List Operation
  | done _, _ => []
  | access first next, store =>
    [first.operation] ++ match first.action store with
      | (.ok result, between) => (next result).operations between
      | (.error _, _) => []
  | within outer body next, store =>
    (.enclose outer.val :: match Action.enclose outer.val store with
      | (.ok inner, opened) =>
        (body (outer.inside inner)).operations opened ++ [.discard inner]
      | (.error _, _) => []) ++
    match Action.block outer.val (fun inner => (body (outer.inside inner)).run) store with
      | (.ok result, between) => (next result).operations between
      | (.error _, _) => []

/-- By induction on the program. Every operation before a block, and inside it, leaves all arenas
sound, which is what the block needs to be closed. -/
theorem settles_run (program : BlockProgram count α) (h : store.Provides count) :
    program.run.Settles store (program.operations store) := by
  induction program generalizing store with
  | done result => exact Action.settles_pure result store
  | access first next ih =>
    have hfirst := first.settles store
    rw [run, operations]
    apply hfirst.bind
    intro result between hresult
    exact ih result (hfirst.provides h hresult)
  | within outer body next ihbody ih =>
    obtain ⟨arena, harena, sound⟩ := h.arena outer
    have hbody : ∀ inner opened, Action.enclose outer.val store = (.ok inner, opened) →
        (body (outer.inside inner)).run.Settles opened
          ((body (outer.inside inner)).operations opened) := by
      intro inner opened hopen
      -- the block is run on the store in which its scope was opened
      apply ihbody
      rw [show opened = store.run [.enclose outer.val] from (congrArg Prod.snd hopen).symm]
      exact h.run [.enclose outer.val]
    have hblock := Action.settles_block harena sound hbody
    rw [run, operations]
    apply hblock.bind
    intro result between hresult
    exact ih result (hblock.provides h hresult)

end BlockProgram

/-- From any store that was made from nothing, a program whose scopes are opened for blocks comes to
the operations in it, up to the first that fails. That is never a discard, and its error is the
error of the program. In every arena the scopes that were live are live again with the same parents
and numbers of children. Only the next index has grown, by one for each block that was opened, and a
name means in a scope what was written there last, by a definition or an assignment that succeeded,
or else what it meant before. -/
theorem blocks_release_scopes (earlier : List Operation) :
    ∃ handle start, Action.newArena (Store.empty.run earlier) = (.ok handle, start) ∧
      ∀ (operations : List Operation) (α : Type)
        (program : BlockProgram (start.run operations).arenas.length α),
        let store := start.run operations
        let performed := program.operations store
        let after := (program.run store).2
        let history := (start.log operations).inArena handle.arena
        let later := (store.log performed).inArena handle.arena
        program.run.Settles store performed ∧
        (after.arena handle).nextIndex =
          (store.arena handle).nextIndex + later.countP Event.isOpening ∧
        ∀ index name, ((store.arena handle).scope? index).isSome →
          (after.arena handle).lookup? name index =
            (((writesSince history later).find? (Write.isAt index name)).map Write.value).or
              ((store.arena handle).lookup? name index) := by
  obtain ⟨handle, start, hnew⟩ : ∃ handle start,
      Action.newArena (Store.empty.run earlier) = (.ok handle, start) := ⟨_, _, rfl⟩
  refine ⟨handle, start, hnew, ?_⟩
  intro operations α program store performed after history later
  have hstart : start.Sound := by
    have hsound := (Store.sound_empty.run earlier).newArena
    rw [hnew] at hsound
    exact hsound
  have hsettles := program.settles_run ⟨hstart.run operations, Nat.le_refl _⟩
  obtain ⟨arena, harena, hbecomes⟩ := Store.becomes_run _ hnew operations
  obtain ⟨arena', harena', hlater⟩ := Store.evolves_run store performed handle.arena arena harena
  obtain ⟨arena'', harena'', hsame⟩ := hsettles.scopes handle.arena arena harena
  rw [show store.run performed = after from hsettles.after] at harena'
  obtain rfl : arena'' = arena' := Option.some.inj (harena''.symm.trans harena')
  rw [show store.arena handle = arena from Store.arena_of_getElem? harena rfl,
    show after.arena handle = arena'' from Store.arena_of_getElem? harena' rfl]
  refine ⟨hsettles, hlater.nextIndex_eq, ?_⟩
  intro index name hlive
  -- the value written last is one that the program wrote, or else the one from before
  rw [(hbecomes.trans hlater).follows.lookup?_eq (hsame.isSome hlive), latest?_append,
    ← hbecomes.follows.lookup?_eq hlive]

def nestedBlocks : BlockProgram 1 Value :=
  let root : HandleIn 1 := ⟨⟨0, 0, 0⟩, Nat.zero_lt_one⟩
  .within root (fun outer =>
    .access (.define outer.val ⟨"y", none⟩ (.literal .null)) fun _ =>
      .within root (fun inner =>
        .access (.assign inner.val ⟨"x", none⟩ (.literal (.bool true))) fun _ =>
          .access (.lookup inner.val ⟨"y", none⟩) .done) .done) .done

theorem nestedBlocks_release : ∃ handle start,
    Action.newArena Store.empty = (.ok handle, start) ∧
    let store := start.run [.define ⟨0, 0, 0⟩ ⟨"x", none⟩ (.literal .null)]
    let after := (nestedBlocks.run store).2
    (nestedBlocks.run store).1 = .error (.undefined ⟨"y", none⟩) ∧
    nestedBlocks.run.Settles store (nestedBlocks.operations store) ∧
    (nestedBlocks.operations store).length = 7 ∧
    (after.arena handle).nextIndex = 3 ∧
    (after.arena handle).lookup? "x" 0 = some (.literal (.bool true)) := by
  obtain ⟨handle, start, hnew, hall⟩ := blocks_release_scopes []
  refine ⟨handle, start, hnew, ?_⟩
  cases hnew
  obtain ⟨hsettles, hnext, hlookup⟩ :=
    hall [.define ⟨0, 0, 0⟩ ⟨"x", none⟩ (.literal .null)] Value nestedBlocks
  exact ⟨rfl, hsettles, rfl, hnext, hlookup 0 "x" rfl⟩

end ScriptLang

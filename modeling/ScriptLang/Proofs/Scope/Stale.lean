import ScriptLang.Proofs.Scope.Soundness

namespace ScriptLang

namespace Arena

variable {start arena arena' : Arena} {index : Nat} {name : Identifier} {value : Value}

section Dead

theorem scope_of_dead (h : arena.scope? index = none) :
    arena.scope index = .error (.discarded index) := by
  unfold scope
  rw [h]

theorem find_of_dead (h : arena.scope? index = none) (name : String) :
    arena.find index name = .error (.discarded index) := by
  unfold find
  rw [scope_of_dead h]
  rfl

theorem depth_of_dead (h : arena.scope? index = none) :
    arena.depth index = .error (.discarded index) := by
  unfold depth
  rw [scope_of_dead h]
  rfl

theorem push_of_dead (h : arena.scope? index = none) :
    arena.push index = .error (.discarded index) := by
  unfold push
  rw [scope_of_dead h]
  rfl

theorem release_of_dead (h : arena.scope? index = none) (hne : index ≠ globalIndex) :
    arena.release index = .error (.discarded index) := by
  rw [release_eq, if_neg hne, h]

theorem define_of_dead (h : arena.scope? index = none) :
    arena.define index name value = .error (.discarded index) := by
  unfold define
  rw [scope_of_dead h]
  rfl

theorem resolve_of_dead (h : arena.scope? index = none) :
    arena.resolve index name = .error (.discarded index) := by
  unfold resolve
  rw [find_of_dead h]
  rfl

theorem assign_of_dead (h : arena.scope? index = none) :
    arena.assign index name value = .error (.discarded index) := by
  unfold assign
  rw [resolve_of_dead h]
  rfl

theorem get_of_dead (h : arena.scope? index = none) :
    arena.get index name = .error (.discarded index) := by
  unfold get
  rw [resolve_of_dead h]
  rfl

theorem contains_of_dead (h : arena.scope? index = none) :
    arena.contains index name = .error (.discarded index) := by
  unfold contains
  rw [find_of_dead h]
  rfl

end Dead

/-- No scope comes back to an index that was given out before. -/
theorem Becomes.scope?_eq_none {history : List Event} (h : start.Becomes history arena)
    (sound : start.Sound) (hindex : index < start.nextIndex) (hdead : start.scope? index = none) :
    arena.scope? index = none := by
  induction h with
  | refl => exact hdead
  | step earlier last ih =>
    apply Option.eq_none_iff_forall_ne_some.mpr
    intro scope hscope
    have hlt := Nat.lt_of_lt_of_le hindex earlier.nextIndex_le
    obtain ⟨before, hbefore, -⟩ := last.scope_before (earlier.sound sound) hscope hlt
    rw [ih] at hbefore
    cases hbefore

end Arena

def Event.handedOut? : Event → Option Nat
  | opened index _ => some index
  | _ => none

/-- The indices that were handed out, the latest one first. -/
def handedOut (history : List Event) : List Nat := history.filterMap Event.handedOut?

theorem Arena.Takes.handedOut? {arena arena' : Arena} {event : Event} {index : Nat}
    (h : arena.Takes event arena') (hindex : event.handedOut? = some index) :
    index = arena.nextIndex ∧ arena'.nextIndex = index + 1 := by
  cases h with
  | push h =>
    obtain ⟨-, rfl, rfl⟩ := push_eq_ok h
    cases hindex
    exact ⟨rfl, rfl⟩
  | release h => cases hindex
  | define h => cases hindex
  | assign h => cases hindex

/-- Indices are handed out one after the other, from the next one on. -/
theorem Arena.Becomes.handedOut {start arena : Arena} {history : List Event}
    (h : start.Becomes history arena) : (handedOut history).Pairwise (· > ·) ∧
      ∀ index ∈ ScriptLang.handedOut history,
        start.nextIndex ≤ index ∧ index < arena.nextIndex := by
  induction h with
  | refl => exact ⟨List.Pairwise.nil, fun index hmem => absurd hmem List.not_mem_nil⟩
  | @step history arena arena' event earlier last ih =>
    obtain ⟨hordered, hbounds⟩ := ih
    have hle := (Arena.Becomes.single last).nextIndex_le
    cases hindex : event.handedOut? with
    | none =>
      have hsame : ScriptLang.handedOut (event :: history) = ScriptLang.handedOut history :=
        List.filterMap_cons_none hindex
      rw [hsame]
      refine ⟨hordered, fun index hmem => ?_⟩
      obtain ⟨hlower, hupper⟩ := hbounds index hmem
      exact ⟨hlower, Nat.lt_of_lt_of_le hupper hle⟩
    | some index =>
      have hcons : ScriptLang.handedOut (event :: history) =
          index :: ScriptLang.handedOut history := List.filterMap_cons_some hindex
      -- the index that is handed out is the next one, which was ahead of all earlier ones
      obtain ⟨rfl, hnext⟩ := last.handedOut? hindex
      rw [hcons]
      refine ⟨List.pairwise_cons.mpr ⟨fun older hmem => (hbounds older hmem).2, hordered⟩, ?_⟩
      intro other hmem
      obtain rfl | hmem := List.mem_cons.mp hmem
      · exact ⟨earlier.nextIndex_le, by omega⟩
      · obtain ⟨hlower, hupper⟩ := hbounds other hmem
        exact ⟨hlower, by omega⟩

def Store.isLive (store : Store) (handle : Handle) : Bool :=
  ((store.arena handle).scope? handle.scope).isSome

namespace Action

variable {α : Type} {store : Store} {handle : Handle}

def failure? (action : Action α) (store : Store) : Option ScopeError :=
  match (action store).1 with
  | .ok _ => none
  | .error error => some error

theorem isLive_eq_false (h : store.isLive handle = false) :
    (store.arena handle).scope? handle.scope = none := by
  unfold Store.isLive at h
  exact Option.isNone_iff_eq_none.mp (Option.isSome_eq_false_iff.mp h)

theorem view_of_error {look : Arena → Except ScopeError α} {error : ScopeError}
    (h : look (store.arena handle) = .error error) :
    view handle look store = (.error error, store) := by
  rw [view_apply, h]

theorem update_of_error {change : Arena → Except ScopeError (α × Arena)} {error : ScopeError}
    (h : change (store.arena handle) = .error error) :
    update handle change store = (.error error, store) := by
  rw [update_apply, h]

/-- Looking at closures fails at the first one that is discarded. -/
theorem forM_depth (closures : List Handle) (store : Store) :
    (closures.forM fun closure => do let _ ← depth closure) store =
      match closures.find? (!store.isLive ·) with
      | some dead => (.error (.discarded dead.scope), store)
      | none => (.ok (), store) := by
  induction closures with
  | nil => rfl
  | cons closure rest ih =>
    change (((depth closure >>= fun _ => pure ()) >>= fun _ => rest.forM _) : Action Unit) store = _
    rw [bind_apply, bind_apply]
    cases hlive : store.isLive closure with
    | false =>
      have hdepth : depth closure store = (.error (.discarded closure.scope), store) :=
        view_of_error (Arena.depth_of_dead (isLive_eq_false hlive))
      rw [hdepth, List.find?_cons_of_pos (by rw [hlive]; rfl)]
    | true =>
      have hdepth : depth closure store = (.ok _, store) :=
        (view_apply closure _ store).trans (by rw [Arena.depth_of_live hlive])
      rw [hdepth, List.find?_cons_of_neg (by rw [hlive]; decide)]
      exact ih

theorem requireClosures_eq (value : Value) (store : Store) : requireClosures value store =
    match value.closures.find? (!store.isLive ·) with
    | some dead => (.error (.discarded dead.scope), store)
    | none => (.ok (), store) := forM_depth value.closures store

end Action

namespace Operation

def failure? (store : Store) : Operation → Option ScopeError
  | newArena => Action.newArena.failure? store
  | enclose handle => (Action.enclose handle).failure? store
  | enclosing handle => (Action.enclosing handle).failure? store
  | depth handle => (Action.depth handle).failure? store
  | describe handle => (Action.describe handle).failure? store
  | discard handle => (Action.discard handle).failure? store
  | define handle name value => (Action.define handle name value).failure? store
  | assign handle name value => (Action.assign handle name value).failure? store
  | lookup handle name => (Action.lookup handle name).failure? store
  | contains handle name => (Action.contains handle name).failure? store
  | declare declaration handle => (Action.declare declaration handle).failure? store
  | bindArguments function arguments line =>
    (Action.bindArguments function arguments line).failure? store

/-- The handles whose scopes an operation needs alive before it does anything, in the order in which
it comes to them. -/
def reliesOn : Operation → List Handle
  | newArena => []
  | enclose handle => [handle]
  | enclosing handle => [handle]
  | depth handle => [handle]
  | describe handle => [handle]
  | discard handle => [handle]
  | define handle _ value => value.closures ++ [handle]
  | assign handle _ value => value.closures ++ [handle]
  | lookup handle _ => [handle]
  | contains handle _ => [handle]
  | declare _ handle => [handle]
  | bindArguments function arguments _ =>
    if arguments.length = function.declaration.arity then [function.closure] else []

variable {store : Store} {dead handle : Handle}

/-- An action that fails with an error and leaves the store as it was. -/
theorem fails_of_eq {α : Type} {action : Action α} {error : ScopeError}
    (h : action store = (.error error, store)) :
    action.failure? store = some error ∧ (action store).2 = store := by
  unfold Action.failure?
  rw [h]
  exact ⟨rfl, rfl⟩

theorem of_find?_singleton (h : [handle].find? (!store.isLive ·) = some dead) :
    handle = dead ∧ (store.arena dead).scope? dead.scope = none := by
  rw [List.find?_singleton] at h
  split at h
  · next hdead =>
    cases h
    exact ⟨rfl, Action.isLive_eq_false (by simpa using hdead)⟩
  · cases h

/-- A write looks at the closures of the value first, and then at its own scope. -/
theorem write_of_dead {α : Type} {value : Value} {change : Arena → Except ScopeError (α × Arena)}
    (hchange : (store.arena handle).scope? handle.scope = none →
      change (store.arena handle) = .error (.discarded handle.scope))
    (h : (value.closures ++ [handle]).find? (!store.isLive ·) = some dead) :
    (Action.requireClosures value >>= fun _ => Action.update handle change) store =
      (.error (.discarded dead.scope), store) := by
  rw [Action.bind_apply, Action.requireClosures_eq]
  rw [List.find?_append] at h
  cases hclosures : value.closures.find? (!store.isLive ·) with
  | some closure =>
    rw [hclosures, Option.some_or] at h
    cases h
    rfl
  | none =>
    rw [hclosures, Option.none_or] at h
    obtain ⟨rfl, hnone⟩ := of_find?_singleton h
    exact Action.update_of_error (hchange hnone)

theorem define_of_dead {name : Identifier} {value : Value}
    (h : (value.closures ++ [handle]).find? (!store.isLive ·) = some dead) :
    Action.define handle name value store = (.error (.discarded dead.scope), store) := by
  apply write_of_dead _ h
  intro hnone
  rw [Arena.define_of_dead hnone]
  rfl

theorem assign_of_dead {name : Identifier} {value : Value}
    (h : (value.closures ++ [handle]).find? (!store.isLive ·) = some dead) :
    Action.assign handle name value store = (.error (.discarded dead.scope), store) :=
  write_of_dead (fun hnone => Arena.assign_of_dead hnone) h

/-- An operation that relies on a discarded scope fails, with the first one that it comes to, and
changes nothing. -/
theorem fails_of_dead {operation : Operation}
    (h : operation.reliesOn.find? (!store.isLive ·) = some dead)
    (hglobal : ∀ handle, operation = .discard handle → handle.scope ≠ Arena.globalIndex) :
    operation.failure? store = some (.discarded dead.scope) ∧ operation.after store = store := by
  cases operation with
  | newArena => cases h
  | enclose handle =>
    obtain ⟨rfl, hnone⟩ := of_find?_singleton h
    apply fails_of_eq
    rw [Action.enclose_apply, Arena.push_of_dead hnone]
  | enclosing handle =>
    obtain ⟨rfl, hnone⟩ := of_find?_singleton h
    apply fails_of_eq
    unfold Action.enclosing
    rw [Action.bind_apply, Action.view_of_error (Arena.scope_of_dead hnone)]
  | depth handle =>
    obtain ⟨rfl, hnone⟩ := of_find?_singleton h
    exact fails_of_eq (Action.view_of_error (Arena.depth_of_dead hnone))
  | describe handle =>
    obtain ⟨rfl, hnone⟩ := of_find?_singleton h
    apply fails_of_eq
    unfold Action.describe Action.depth
    rw [Action.bind_apply, Action.view_of_error (Arena.depth_of_dead hnone)]
  | discard handle =>
    obtain ⟨rfl, hnone⟩ := of_find?_singleton h
    apply fails_of_eq
    apply Action.update_of_error
    rw [Arena.release_of_dead hnone (hglobal handle rfl)]
    rfl
  | define handle name value => exact fails_of_eq (define_of_dead h)
  | assign handle name value => exact fails_of_eq (assign_of_dead h)
  | lookup handle name =>
    obtain ⟨rfl, hnone⟩ := of_find?_singleton h
    exact fails_of_eq (Action.view_of_error (Arena.get_of_dead hnone))
  | contains handle name =>
    obtain ⟨rfl, hnone⟩ := of_find?_singleton h
    exact fails_of_eq (Action.view_of_error (Arena.contains_of_dead hnone))
  | declare declaration handle =>
    obtain ⟨rfl, hnone⟩ := of_find?_singleton h
    -- The function that is bound has this handle as its closure.
    have hfunction : ((Value.function ⟨declaration, handle⟩).closures ++ [handle]).find?
        (!store.isLive ·) = some handle := by
      rw [List.find?_append]
      exact congrArg (Option.or · _) h
    apply fails_of_eq
    unfold Action.declare
    rw [Action.bind_apply, define_of_dead hfunction]
  | bindArguments function arguments line =>
    by_cases harity : arguments.length = function.declaration.arity
    · have hrelies : (bindArguments function arguments line).reliesOn = [function.closure] :=
        if_pos harity
      rw [hrelies] at h
      obtain ⟨rfl, hnone⟩ := of_find?_singleton h
      apply fails_of_eq
      unfold Action.bindArguments
      simp only [harity, ne_eq, not_true_eq_false, if_false]
      rw [Action.bind_apply, Action.enclose_apply, Arena.push_of_dead hnone]
    · have hrelies : (bindArguments function arguments line).reliesOn = [] := if_neg harity
      rw [hrelies] at h
      cases h

end Operation

/-- A scope is gone when it is discarded, and it was not the global one. -/
theorem Arena.Takes.discarded {arena arena' : Arena} {index : Nat}
    (h : arena.Takes (.discarded index) arena') (sound : arena.Sound) :
    arena'.scope? index = none ∧ index < arena'.nextIndex ∧ index ≠ globalIndex := by
  cases h with
  | release h =>
    obtain ⟨hne, scope, hscope, -, rfl⟩ := release_eq_ok h
    obtain ⟨parent, outer, hparent, -, -⟩ := sound.enclosed index scope hscope hne
    rw [hparent]
    refine ⟨?_, sound.bounded index scope hscope, hne⟩
    apply Option.eq_none_iff_forall_ne_some.mpr
    intro other hother
    exact (scope?_released_eq_some.mp hother).1 rfl

/-- What is left of an arena after a discard that succeeds. -/
theorem Store.takes_discarded {store : Store} {stale : Handle} {arena : Arena}
    (harena : store.arenas[stale.arena]? = some arena)
    (h : (Action.discard stale store).1 = .ok ()) : ∃ arena',
      ((Operation.discard stale).after store).arenas[stale.arena]? = some arena' ∧
        arena.Takes (.discarded stale.scope) arena' := by
  obtain ⟨arena', harena', hbecomes⟩ :=
    (Operation.discard stale).evolves store stale.arena arena harena
  have hlog : (Operation.discard stale).log store = [(stale.arena, .discarded stale.scope)] := by
    change (Action.discard stale).log stale.arena (fun _ => .discarded stale.scope) store = _
    unfold Action.log
    rcases hresult : Action.discard stale store with ⟨result, after⟩
    rw [hresult] at h
    rw [show result = .ok () from h]
  have hevents : Log.inArena [(stale.arena, .discarded stale.scope)] stale.arena =
      [.discarded stale.scope] := by simp [Log.inArena]
  rw [hlog, hevents] at hbecomes
  cases hbecomes with
  | step earlier last =>
    cases earlier
    exact ⟨arena', harena', last⟩

/-- Once a scope is discarded, whatever is done to the arena after that, its index is not handed out
again: indices only go up. And any operation that relies on a handle to it fails, with the first
discarded scope that it comes to, and leaves the store as it was. -/
theorem discarded_scope_stays_dead (before : Store) :
    ∃ handle start, Action.newArena before = (.ok handle, start) ∧
      ∀ (earlier later : List Operation) (stale : Handle), stale.arena = handle.arena →
        (Action.discard stale (start.run earlier)).1 = .ok () →
        let discarded := start.run (earlier ++ [.discard stale])
        let store := discarded.run later
        (handedOut ((start.log (earlier ++ .discard stale :: later)).inArena handle.arena)).Pairwise
          (· > ·) ∧
        (∀ index ∈ handedOut ((discarded.log later).inArena handle.arena), stale.scope < index) ∧
        ∀ (operation : Operation) (other : Handle), other ∈ operation.reliesOn →
          other.arena = stale.arena → other.scope = stale.scope →
          ∃ dead, operation.reliesOn.find? (!store.isLive ·) = some dead ∧
            operation.failure? store = some (.discarded dead.scope) ∧
            operation.after store = store := by
  refine ⟨_, _, rfl, ?_⟩
  intro earlier later stale hstale hdiscard discarded store
  obtain ⟨first, hfirst, hbecomes⟩ := Store.becomes_run before rfl earlier
  have sound := hbecomes.sound Arena.sound_fresh
  rw [← hstale] at hfirst
  obtain ⟨second, hsecond, htakes⟩ := Store.takes_discarded hfirst hdiscard
  obtain ⟨hgone, hindex, hglobal⟩ := htakes.discarded sound
  have hdiscarded : discarded = (Operation.discard stale).after (Store.run _ earlier) :=
    Store.run_append _ _ _
  rw [← hdiscarded] at hsecond
  obtain ⟨third, hthird, hlater⟩ := Store.evolves_run discarded later stale.arena second hsecond
  have hdead := hlater.scope?_eq_none (htakes.sound sound) hindex hgone
  refine ⟨?_, ?_, ?_⟩
  · obtain ⟨_, -, hwhole⟩ := Store.becomes_run before rfl (earlier ++ .discard stale :: later)
    exact hwhole.handedOut.1
  · intro index hmem
    rw [← hstale] at hmem
    exact Nat.lt_of_lt_of_le hindex (hlater.handedOut.2 index hmem).1
  · intro operation other hmem harena hscope
    have hother : store.isLive other = false := by
      unfold Store.isLive
      rw [Store.arena_of_getElem? hthird harena, hscope, hdead]
      rfl
    -- the operation may rely on several handles, and the first dead one is what it fails with
    obtain ⟨dead, hfind⟩ := Option.isSome_iff_exists.mp
      (List.find?_isSome.mpr ⟨other, hmem, by rw [hother]; rfl⟩ :
        (operation.reliesOn.find? (!store.isLive ·)).isSome)
    refine ⟨dead, hfind, Operation.fails_of_dead hfind ?_⟩
    intro target hoperation
    rw [hoperation] at hmem
    rw [← List.mem_singleton.mp hmem, hscope]
    exact hglobal

def innerFunction : Function := ⟨⟨1, default, [], 1, []⟩, ⟨1, 0, 1⟩⟩

def bindInnerFunction : List Operation :=
  [.enclose ⟨0, 0, 0⟩, .define ⟨0, 0, 0⟩ ⟨"f", none⟩ (.function innerFunction)]

theorem innerFunction_stays_dead : ∃ handle start,
    Action.newArena Store.empty = (.ok handle, start) ∧
    (Action.discard ⟨1, 0, 1⟩ (start.run bindInnerFunction)).1 = .ok () ∧
    let store := (start.run (bindInnerFunction ++ [.discard ⟨1, 0, 1⟩])).run [.enclose ⟨0, 0, 0⟩]
    (Operation.bindArguments innerFunction [] none).failure? store = some (.discarded 1) ∧
    (Operation.discard ⟨7, 0, 1⟩).failure? store = some (.discarded 1) ∧
    (Operation.assign ⟨0, 0, 0⟩ ⟨"f", none⟩ (.function innerFunction)).after store = store := by
  obtain ⟨handle, start, hnew, hall⟩ := discarded_scope_stays_dead Store.empty
  refine ⟨handle, start, hnew, ?_⟩
  cases hnew
  obtain ⟨-, -, hfails⟩ := hall bindInnerFunction [.enclose ⟨0, 0, 0⟩] ⟨1, 0, 1⟩ rfl rfl
  refine ⟨rfl, ?_, ?_, ?_⟩
  · obtain ⟨dead, hdead, hfailure, -⟩ := hfails (.bindArguments innerFunction [] none) ⟨1, 0, 1⟩
      List.mem_cons_self rfl rfl
    cases hdead
    exact hfailure
  · obtain ⟨dead, hdead, hfailure, -⟩ := hfails (.discard ⟨7, 0, 1⟩) ⟨7, 0, 1⟩
      List.mem_cons_self rfl rfl
    cases hdead
    exact hfailure
  · obtain ⟨dead, -, -, hafter⟩ := hfails (.assign ⟨0, 0, 0⟩ ⟨"f", none⟩ (.function innerFunction))
      ⟨1, 0, 1⟩ List.mem_cons_self rfl rfl
    exact hafter

end ScriptLang

import Mathlib.Data.List.Find
import ScriptLang.Proofs.Scope.Call
import ScriptLang.Proofs.Scope.Lookup

namespace ScriptLang

structure Write where
  scope : Nat
  name : String
  value : Value

def Write.isAt (scope : Nat) (name : String) (write : Write) : Bool :=
  write.scope = scope && write.name = name

/-- What an event writes, and where. An assignment reaches the innermost scope around its own in
which the name was defined before. -/
def Event.write? (earlier : List Event) : Event → Option Write
  | defined scope name value => some ⟨scope, name, value⟩
  | assigned source name value =>
    (innermost? earlier source name).map fun scope => ⟨scope, name, value⟩
  | _ => none

/-- What is written by events that come after earlier ones, the latest first. -/
def writesSince (earlier : List Event) : List Event → List Write
  | [] => []
  | event :: later => (event.write? (later ++ earlier)).toList ++ writesSince earlier later

section Writes

variable {earlier later : List Event} {event : Event} {scope : Nat} {name : String}

theorem written?_eq : event.written? earlier scope name =
    ((event.write? earlier).toList.find? (Write.isAt scope name)).map Write.value := by
  cases event with
  | opened index parent => rfl
  | discarded index => rfl
  | defined target bound value =>
    simp only [Event.written?, Event.write?]
    by_cases h : target = scope ∧ bound = name
    · simp [Write.isAt, h]
    · simp [Write.isAt, h]
  | assigned source bound value =>
    simp only [Event.written?, Event.write?]
    by_cases hname : bound = name
    · subst hname
      cases innermost? earlier source bound with
      | none => simp
      | some target =>
        by_cases h : target = scope
        · simp [Write.isAt, h]
        · simp [Write.isAt, h]
    · cases innermost? earlier source bound with
      | none => simp [hname]
      | some target => simp [Write.isAt, hname]

/-- The value that was written last is that of the latest write, or an older one. -/
theorem latest?_append : latest? (later ++ earlier) scope name =
    (((writesSince earlier later).find? (Write.isAt scope name)).map Write.value).or
      (latest? earlier scope name) := by
  induction later with
  | nil => rfl
  | cons event later ih =>
    rw [List.cons_append, latest?, ih, written?_eq, writesSince, List.find?_append,
      ← Option.or_assoc, Option.map_or]

/-- Writes to other scopes do not matter. -/
theorem find?_writes {around : List Nat} (h : scope ∈ around) (writes : List Write) :
    (writes.filter (·.scope ∈ around)).find? (Write.isAt scope name) =
      writes.find? (Write.isAt scope name) := by
  rw [List.find?_filter]
  apply List.find?_congr
  intro write _
  cases hat : Write.isAt scope name write with
  | false => simp
  | true =>
    have hscope : write.scope = scope := by
      simp only [Write.isAt, Bool.and_eq_true, decide_eq_true_eq] at hat
      exact hat.1
    simp [hscope, h]

end Writes

namespace Arena

variable {start arena arena' : Arena} {index i : Nat} {event : Event} {history : List Event}

/-- A live scope stays live unless it is discarded. -/
theorem Takes.isSome (h : arena.Takes event arena') (sound : arena.Sound)
    (hlive : (arena.scope? i).isSome) (hne : .discarded i ≠ event) : (arena'.scope? i).isSome := by
  obtain ⟨scope, hscope⟩ := Option.isSome_iff_exists.mp hlive
  cases h with
  | push h =>
    obtain ⟨-, -, rfl⟩ := push_eq_ok h
    exact Option.isSome_iff_exists.mpr ⟨_, scope?_pushed_eq_some.mpr (Or.inl ⟨scope, hscope, rfl⟩)⟩
  | @release index arena' h =>
    obtain ⟨hglobal, gone, hgone, -, rfl⟩ := release_eq_ok h
    obtain ⟨parent, outer, hparent, -, -⟩ := sound.enclosed index gone hgone hglobal
    have hi : i ≠ index := fun heq => hne (congrArg Event.discarded heq)
    rw [hparent]
    exact Option.isSome_iff_exists.mpr ⟨_, scope?_released_eq_some.mpr ⟨hi, scope, hscope, rfl⟩⟩
  | define h =>
    obtain ⟨-, rfl⟩ := define_eq_ok h
    exact Option.isSome_iff_exists.mpr
      ⟨_, (scope?_modify_eq_some (Scope.bind_index · _ _)).mpr ⟨scope, hscope, rfl⟩⟩
  | assign h =>
    obtain ⟨-, binder, -, -, rfl⟩ := assign_eq_ok h
    exact Option.isSome_iff_exists.mpr
      ⟨_, (scope?_modify_eq_some (Scope.bind_index · _ _)).mpr ⟨scope, hscope, rfl⟩⟩

theorem Becomes.isSome (h : start.Becomes history arena) (sound : start.Sound)
    (hlive : (start.scope? i).isSome) (hkept : .discarded i ∉ history) :
    (arena.scope? i).isSome := by
  induction h with
  | refl => exact hlive
  | step before last ih =>
    have hbefore := ih fun hmem => hkept (List.mem_cons_of_mem _ hmem)
    apply last.isSome (before.sound sound) hbefore
    intro heq
    exact hkept (heq ▸ List.mem_cons_self)

theorem Follows.lookup?_eq (follows : arena.Follows history) (hlive : (arena.scope? i).isSome)
    (name : String) : arena.lookup? name i = latest? history i name := by
  obtain ⟨scope, hscope⟩ := Option.isSome_iff_exists.mp hlive
  rw [← follows.bound i scope hscope name, lookup?, hscope, Option.bind_some]

/-- After more events, a name means from a live scope what was written last around it, by them or
before them. -/
theorem Becomes.bound?_eq_writes {later : List Event} (h : fresh.Becomes history start)
    (h' : start.Becomes later arena) (hlive : (start.scope? index).isSome)
    (hkept : .discarded index ∉ later) (name : String) :
    arena.bound? index name = ((start.chain index).map Scope.index).findSome? fun i =>
      (((writesSince history later).find? (Write.isAt i name)).map Write.value).or
        (latest? history i name) := by
  have sound := h.sound sound_fresh
  have sound' := h'.sound sound
  have hlive' := h'.isSome sound hlive hkept
  obtain ⟨scope, hscope⟩ := Option.isSome_iff_exists.mp hlive
  obtain ⟨scope', hscope'⟩ := Option.isSome_iff_exists.mp hlive'
  rw [sound'.bound?_eq hscope', ← h'.map_chain sound hscope hscope']
  apply findSome?_congr
  intro i hmem
  obtain ⟨inner, hinner, rfl⟩ := List.mem_map.mp hmem
  have hscope := (sound'.walk_chain hscope').scope?_of_mem hinner
  rw [(h.trans h').follows.lookup?_eq (by rw [hscope]; rfl), latest?_append]

/-- Two continuations with the same writes around a scope leave the same meaning to each name. -/
theorem Becomes.bound?_congr {first second : Arena} {firsts seconds : List Event}
    (h : fresh.Becomes history start) (hfirst : start.Becomes firsts first)
    (hsecond : start.Becomes seconds second) (hlive : (start.scope? index).isSome)
    (hkept : .discarded index ∉ firsts) (hkept' : .discarded index ∉ seconds)
    {around : List Nat} (haround : (start.chain index).map Scope.index = around)
    (hsame : (writesSince history firsts).filter (·.scope ∈ around) =
      (writesSince history seconds).filter (·.scope ∈ around)) (name : String) :
    first.bound? index name = second.bound? index name := by
  rw [h.bound?_eq_writes hfirst hlive hkept, h.bound?_eq_writes hsecond hlive hkept', haround]
  apply findSome?_congr
  intro i hmem
  rw [← find?_writes hmem, hsame, find?_writes hmem]

end Arena

/-- What is got through a handle after either of two continuations, with the same writes around its
scope, is the same. -/
theorem Store.lookup_run_congr {store : Store} {arena : Arena} {history : List Event}
    (handle : Handle) (harena : store.arenas[handle.arena]? = some arena)
    (h : Arena.fresh.Becomes history arena) (hlive : (arena.scope? handle.scope).isSome)
    {around : List Nat} (haround : (arena.chain handle.scope).map Scope.index = around)
    {first second : List Operation}
    (hkept : .discarded handle.scope ∉ (store.log first).inArena handle.arena)
    (hkept' : .discarded handle.scope ∉ (store.log second).inArena handle.arena)
    (hsame : (writesSince history ((store.log first).inArena handle.arena)).filter
        (·.scope ∈ around) =
      (writesSince history ((store.log second).inArena handle.arena)).filter (·.scope ∈ around))
    (name : Identifier) :
    (Action.lookup handle name (store.run first)).1 =
      (Action.lookup handle name (store.run second)).1 := by
  have sound := h.sound Arena.sound_fresh
  obtain ⟨arena₁, harena₁, hfirst⟩ := Store.evolves_run store first handle.arena arena harena
  obtain ⟨arena₂, harena₂, hsecond⟩ := Store.evolves_run store second handle.arena arena harena
  have hlive₁ := hfirst.isSome sound hlive hkept
  have hlive₂ := hsecond.isSome sound hlive hkept'
  rw [Action.lookup_eq (Store.arena_of_getElem? harena₁ rfl) hlive₁,
    Action.lookup_eq (Store.arena_of_getElem? harena₂ rfl) hlive₂,
    h.bound?_congr hfirst hsecond hlive hkept hkept' haround hsame]
  cases arena₂.bound? handle.scope name.text <;> rfl

/-- The history of an arena up to a call that succeeds leads to the arena with the new scope. -/
theorem Store.becomes_call (before : Store) {start bound : Store} {handle call : Handle}
    {arena : Arena} {operations : List Operation} {function : Function} {arguments : List Value}
    {line : Option Int} (hnew : Action.newArena before = (.ok handle, start))
    (hclosure : function.closure.arena = handle.arena)
    (harena : (start.run operations).arenas[function.closure.arena]? = some arena)
    (hcall : Action.bindArguments function arguments line (start.run operations) =
      (.ok call, bound)) :
    Arena.fresh.Becomes
      ((start.log (operations ++ [.bindArguments function arguments line])).inArena handle.arena)
      (arena.called function.closure.scope (function.declaration.params.zip arguments)) := by
  obtain ⟨after, hafter, hhistory⟩ := Store.becomes_run before hnew
    (operations ++ [.bindArguments function arguments line])
  have hbound : start.run (operations ++ [.bindArguments function arguments line]) = bound :=
    (Store.run_append _ _ _).trans (congrArg Prod.snd hcall)
  rw [hbound, ← hclosure, (Action.becomes_called harena hcall).1] at hafter
  rw [Option.some.inj hafter]
  exact hhistory

/-- A call that succeeds opens a scope inside its closure whose index was never handed out before.
And two continuations that write the same values in the same order to this scope and to those around
the closure, and do not discard it, leave the same meaning to each name in it, whatever else they
do. -/
theorem call_resolves_through_closure (before : Store) :
    ∃ handle start, Action.newArena before = (.ok handle, start) ∧
      ∀ (operations : List Operation) (function : Function) (arguments : List Value)
        (line : Option Int) (call : Handle) (bound : Store),
        function.closure.arena = handle.arena →
        Action.bindArguments function arguments line (start.run operations) = (.ok call, bound) →
        let store := start.run operations
        let around := call.scope ::
          ((store.arena function.closure).chain function.closure.scope).map Scope.index
        let history :=
          (start.log (operations ++ [.bindArguments function arguments line])).inArena handle.arena
        Action.OpensCall function arguments store call bound ∧
        (∀ index ∈ handedOut ((start.log operations).inArena handle.arena), index < call.scope) ∧
        ∀ first second : List Operation,
          let firsts := (bound.log first).inArena handle.arena
          let seconds := (bound.log second).inArena handle.arena
          .discarded call.scope ∉ firsts → .discarded call.scope ∉ seconds →
          (writesSince history firsts).filter (·.scope ∈ around) =
            (writesSince history seconds).filter (·.scope ∈ around) →
          ∀ (inner : Handle) (name : Identifier), inner.arena = call.arena →
            inner.scope = call.scope →
            (Action.lookup inner name (bound.run first)).1 =
              (Action.lookup inner name (bound.run second)).1 := by
  obtain ⟨handle, start, hnew⟩ :
      ∃ handle start, Action.newArena before = (.ok handle, start) := ⟨_, _, rfl⟩
  refine ⟨handle, start, hnew, ?_⟩
  intro operations function arguments line call bound hclosure hcall store around history
  obtain ⟨serial, number, root⟩ := handle
  cases hclosure
  obtain ⟨arena, harena, hbecomes⟩ := Store.becomes_run before hnew operations
  have sound := hbecomes.sound Arena.sound_fresh
  have hopens := Action.opensCall_of_bindArguments harena sound hcall
  obtain ⟨hcalled, hopened⟩ := Action.becomes_called harena hcall
  obtain ⟨hlive, rfl, -⟩ := Action.bindArguments_eq_ok harena hcall
  have hstore : store.arena function.closure = arena := Store.arena_of_getElem? harena rfl
  refine ⟨hopens, fun index hmem => (hbecomes.handedOut.2 index hmem).2, ?_⟩
  intro first second firsts seconds hkept hkept' hsame inner name hinner hscope
  obtain ⟨serial', number', scope'⟩ := inner
  cases hinner
  cases hscope
  have hhistory := Store.becomes_call before hnew rfl harena hcall
  have haround : ((arena.called function.closure.scope
      (function.declaration.params.zip arguments)).chain arena.nextIndex).map Scope.index =
        around := by
    change _ = arena.nextIndex ::
      ((store.arena function.closure).chain function.closure.scope).map Scope.index
    rw [Arena.map_chain_called sound hlive hopened, hstore]
  exact Store.lookup_run_congr ⟨serial', _, arena.nextIndex⟩ hcalled hhistory
    (Arena.isSome_called sound) haround hkept hkept' hsame name

def doubled : Function :=
  ⟨⟨1, default, [⟨.identifier, "a", .null, 1⟩, ⟨.identifier, "a", .null, 1⟩], 1, []⟩, ⟨1, 0, 1⟩⟩

def bindAround : List Operation :=
  [.define ⟨0, 0, 0⟩ ⟨"x", none⟩ (.literal .null), .enclose ⟨0, 0, 0⟩,
   .define ⟨1, 0, 1⟩ ⟨"x", none⟩ (.literal (.string "captured")), .enclose ⟨0, 0, 0⟩,
   .define ⟨2, 0, 2⟩ ⟨"x", none⟩ (.literal (.string "caller"))]

def truths : List Value := [.literal (.bool true), .literal (.bool false)]

def assignFromCall : List Operation :=
  [.assign ⟨3, 0, 3⟩ ⟨"x", none⟩ (.literal .null),
   .assign ⟨2, 0, 2⟩ ⟨"x", none⟩ (.literal (.bool true))]

def assignFromSibling : List Operation :=
  [.discard ⟨2, 0, 2⟩, .bindArguments doubled truths none,
   .assign ⟨4, 0, 4⟩ ⟨"x", none⟩ (.literal .null)]

theorem doubled_resolves : ∃ handle start bound,
    Action.newArena Store.empty = (.ok handle, start) ∧
    Action.bindArguments doubled truths none (start.run bindAround) = (.ok ⟨3, 0, 3⟩, bound) ∧
    Action.lookup ⟨3, 0, 3⟩ ⟨"a", none⟩ bound = (.ok (.literal (.bool false)), bound) ∧
    Action.lookup ⟨3, 0, 3⟩ ⟨"x", none⟩ bound = (.ok (.literal (.string "captured")), bound) ∧
    ∀ name, (Action.lookup ⟨3, 0, 3⟩ name (bound.run assignFromCall)).1 =
      (Action.lookup ⟨3, 0, 3⟩ name (bound.run assignFromSibling)).1 := by
  obtain ⟨handle, start, hnew, hall⟩ := call_resolves_through_closure Store.empty
  cases hnew
  obtain ⟨hopens, -, hcongr⟩ := hall bindAround doubled truths none ⟨3, 0, 3⟩ _ rfl rfl
  refine ⟨_, _, _, rfl, rfl, hopens.resolved ⟨"a", none⟩, hopens.resolved ⟨"x", none⟩, ?_⟩
  intro name
  refine hcongr assignFromCall assignFromSibling ?_ ?_ rfl ⟨3, 0, 3⟩ name rfl rfl
  -- Only the scope of the caller is discarded.
  · intro hmem
    have hdiscards : Event.discarded 3 ∈ ([] : List Event) :=
      List.mem_filter (p := Event.isDiscard).mpr ⟨hmem, rfl⟩
    cases hdiscards
  · intro hmem
    have hdiscards : Event.discarded 3 ∈ [Event.discarded 2] :=
      List.mem_filter (p := Event.isDiscard).mpr ⟨hmem, rfl⟩
    cases List.mem_singleton.mp hdiscards

end ScriptLang

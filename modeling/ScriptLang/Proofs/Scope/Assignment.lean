import Mathlib.Data.List.Find
import Mathlib.Data.List.Forall2
import Mathlib.Data.List.Nodup
import ScriptLang.Proofs.Scope.SameScopes

namespace ScriptLang

namespace Scope

variable {scope : Scope} {name : String} {value previous : Value}

def names (scope : Scope) : List String := scope.bindings.map Prod.fst

theorem isSome_lookup : (scope.lookup name).isSome ↔ name ∈ scope.names := by
  unfold lookup names
  rw [List.lookup_isSome_iff, List.mem_map]
  constructor
  · rintro ⟨binding, hmem, hname⟩
    exact ⟨binding, hmem, (eq_of_beq hname).symm⟩
  · rintro ⟨binding, hmem, hname⟩
    exact ⟨binding, hmem, beq_iff_eq.mpr hname.symm⟩

/-- A name that is bound already stays where it is, and a new one comes last. -/
theorem names_bind (scope : Scope) (name : String) (value : Value) :
    (scope.bind name value).names =
      if name ∈ scope.names then scope.names else scope.names ++ [name] := by
  unfold bind
  by_cases h : (scope.lookup name).isSome
  · rw [if_pos h, if_pos (isSome_lookup.mp h)]
    unfold names
    rw [List.map_map]
    apply List.map_congr_left
    intro binding _
    by_cases hname : binding.1 = name
    · simp [hname]
    · simp [hname]
  · rw [if_neg h, if_neg (fun hmem => h (isSome_lookup.mpr hmem))]
    exact List.map_append

theorem nodup_names_bind (distinct : scope.names.Nodup) : (scope.bind name value).names.Nodup := by
  rw [names_bind]
  split
  · exact distinct
  · next h =>
    rw [← List.concat_eq_append, List.nodup_concat]
    exact ⟨h, distinct⟩

/-- Among bindings with distinct names, those with this name are the one that is found. -/
theorem eq_of_lookup {bindings : List (String × Value)} (distinct : (bindings.map Prod.fst).Nodup)
    (h : bindings.lookup name = some previous) :
    ∀ binding ∈ bindings, binding.1 = name → binding = (name, previous) := by
  induction bindings with
  | nil => nofun
  | cons first rest ih =>
    rw [List.map_cons, List.nodup_cons] at distinct
    rw [lookup_binding_cons] at h
    intro binding hmem hname
    by_cases hfirst : name = first.1
    · obtain rfl | hrest := List.mem_cons.mp hmem
      · rw [if_pos hfirst] at h
        exact Prod.ext hname (Option.some.inj h)
      · have hagain := List.mem_map_of_mem (f := Prod.fst) hrest
        rw [hname, hfirst] at hagain
        exact absurd hagain distinct.1
    · rw [if_neg hfirst] at h
      obtain rfl | hrest := List.mem_cons.mp hmem
      · exact absurd hname.symm hfirst
      · exact ih distinct.2 h binding hrest hname

/-- Binding a name to the value that it had undoes what it was bound to since. -/
theorem bind_bind (distinct : scope.names.Nodup) (h : scope.lookup name = some previous) :
    (scope.bind name value).bind name previous = scope := by
  have hbound : (scope.lookup name).isSome := by
    rw [h]
    rfl
  have hagain : ((scope.bind name value).lookup name).isSome := by
    rw [lookup_bind, if_pos rfl]
    rfl
  have hbindings : (scope.bindings.map fun binding =>
        if binding.1 = name then (name, value) else binding).map (fun binding =>
          if binding.1 = name then (name, previous) else binding) = scope.bindings := by
    rw [List.map_map]
    apply (List.map_congr_left _).trans (List.map_id scope.bindings)
    intro binding hmem
    by_cases hname : binding.1 = name
    · simp [eq_of_lookup distinct h binding hmem hname]
    · simp [hname]
  rw [bind, if_pos hagain, bind, if_pos hbound]
  exact congrArg (Scope.mk scope.index scope.parent · scope.liveChildren) hbindings

structure SameNames (scope after : Scope) : Prop where
  index : after.index = scope.index
  parent : after.parent = scope.parent
  liveChildren : after.liveChildren = scope.liveChildren
  names : after.names = scope.names

theorem sameNames_bind (h : (scope.lookup name).isSome) :
    scope.SameNames (scope.bind name value) where
  index := bind_index _ _ _
  parent := bind_parent _ _ _
  liveChildren := bind_liveChildren _ _ _
  names := by rw [names_bind, if_pos (isSome_lookup.mp h)]

end Scope

namespace Arena

variable {arena arena' : Arena} {index i : Nat} {binder : Scope} {name other : String}
  {value previous : Value} {change : Scope → Scope}

section Names

def Distinct (arena : Arena) : Prop := ∀ scope ∈ arena.scopes, scope.names.Nodup

theorem distinct_fresh : fresh.Distinct := by
  intro scope hmem
  rw [List.mem_singleton.mp hmem]
  exact List.nodup_nil

theorem Distinct.modify (distinct : arena.Distinct)
    (hkeep : ∀ scope : Scope, scope.names.Nodup → (change scope).names.Nodup) :
    (arena.modify index change).Distinct := by
  intro scope hmem
  obtain ⟨before, hbefore, rfl⟩ := List.mem_map.mp hmem
  split
  · exact hkeep before (distinct before hbefore)
  · exact distinct before hbefore

theorem Distinct.without (distinct : arena.Distinct) : (arena.without index).Distinct := by
  intro scope hmem
  exact distinct scope (List.mem_filter.mp hmem).1

theorem Takes.distinct {event : Event} (h : arena.Takes event arena') (distinct : arena.Distinct) :
    arena'.Distinct := by
  cases h with
  | @push parent _ _ h =>
    obtain ⟨-, -, rfl⟩ := push_eq_ok h
    intro scope hmem
    obtain hold | hnew := List.mem_append.mp hmem
    · have hcounted : (arena.modify parent Scope.addChild).Distinct :=
        distinct.modify fun _ hnames => hnames
      exact hcounted scope hold
    · rw [List.mem_singleton.mp hnew]
      exact List.nodup_nil
  | release h =>
    obtain ⟨-, scope, -, -, rfl⟩ := release_eq_ok h
    cases scope.parent with
    | none => exact distinct.without
    | some parent => exact distinct.without.modify fun _ hnames => hnames
  | define h =>
    obtain ⟨-, rfl⟩ := define_eq_ok h
    exact distinct.modify fun _ => Scope.nodup_names_bind
  | assign h =>
    obtain ⟨-, binder, -, -, rfl⟩ := assign_eq_ok h
    exact distinct.modify fun _ => Scope.nodup_names_bind

theorem Becomes.distinct {history : List Event} (h : arena.Becomes history arena')
    (distinct : arena.Distinct) : arena'.Distinct := by
  induction h with
  | refl => exact distinct
  | step _ last ih => exact last.distinct ih

end Names

section Rebinding

/-- What moves no scope changes the scopes of a chain where they are. -/
theorem chain_modify (hindex : ∀ scope, (change scope).index = scope.index)
    (hparent : ∀ scope, (change scope).parent = scope.parent) (i : Nat) :
    (arena.modify index change).chain i =
      (arena.chain i).map fun scope => if scope.index = index then change scope else scope := by
  have hfrom (wanted : Option Nat) (scopes : List Scope) :
      chainFrom wanted (scopes.map fun scope =>
        if scope.index = index then change scope else scope) =
      (chainFrom wanted scopes).map fun scope =>
        if scope.index = index then change scope else scope := by
    induction scopes generalizing wanted with
    | nil => rfl
    | cons scope older ih =>
      rw [List.map_cons, chainFrom, chainFrom, Scope.keeps_ite Scope.index hindex,
        Scope.keeps_ite Scope.parent hparent, ih, ih]
      split
      · rfl
      · rfl
  unfold chain modify
  rw [← hfrom, ← List.map_reverse]

/-- A change of nothing but the scope at an index leaves the arena as it is if it leaves that
scope as it is. -/
theorem modify_eq_self (ordered : arena.scopes.Pairwise fun a b => a.index < b.index)
    (h : arena.scope? index = some binder) (hsame : change binder = binder) :
    arena.modify index change = arena := by
  have hscopes : (arena.scopes.map fun scope =>
      if scope.index = index then change scope else scope) = arena.scopes := by
    apply (List.map_congr_left _).trans (List.map_id arena.scopes)
    intro scope hmem
    split
    · next hindex =>
      have hscope := scope?_of_mem ordered hmem
      rw [hindex, h] at hscope
      rw [← Option.some.inj hscope]
      exact hsame
    · rfl
  exact congrArg (Arena.mk · arena.nextIndex) hscopes

variable (sound : arena.Sound) (hbinder : arena.scope? index = some binder)
  (hbound : (binder.lookup name).isSome)

include sound hbinder hbound

/-- Overwriting a binding changes no scope's names. -/
theorem Sound.sameNames_modify :
    List.Forall₂ Scope.SameNames arena.scopes
      (arena.modify index (Scope.bind name value)).scopes := by
  apply List.forall₂_map_right_iff.mpr
  apply List.forall₂_same.mpr
  intro scope hmem
  split
  · next hindex =>
    have hscope := scope?_of_mem sound.ordered hmem
    rw [hindex, hbinder] at hscope
    rw [← Option.some.inj hscope]
    exact Scope.sameNames_bind hbound
  · exact ⟨rfl, rfl, rfl, rfl⟩

/-- Overwriting a binding hides and uncovers none: each name belongs to the scope to which it
belonged. -/
theorem Sound.binder?_modify (hlive : (arena.scope? i).isSome) :
    (arena.modify index (Scope.bind name value)).binder? i other =
      (arena.binder? i other).map fun scope =>
        if scope.index = index then scope.bind name value else scope := by
  obtain ⟨inner, hinner⟩ := Option.isSome_iff_exists.mp hlive
  unfold binder?
  rw [chain_modify (Scope.bind_index · _ _) (Scope.bind_parent · _ _), List.find?_map]
  apply congrArg
  apply List.find?_congr
  intro scope hmem
  rw [Function.comp_apply]
  split
  · next hindex =>
    have hscope := (sound.walk_chain hinner).scope?_of_mem hmem
    rw [hindex, hbinder] at hscope
    rw [Scope.lookup_bind]
    split
    · next hname =>
      rw [← Option.some.inj hscope, hname, hbound]
      rfl
    · rfl
  · rfl

/-- From a scope in which a name means the binding that is overwritten, it means the new value. -/
theorem Sound.bound?_modify_self (hlive : (arena.scope? i).isSome)
    (h : arena.binder? i name = some binder) :
    (arena.modify index (Scope.bind name value)).bound? i name = some value := by
  unfold bound?
  rw [sound.binder?_modify hbinder hbound hlive, h, Option.map_some,
    if_pos (index_of_scope? hbinder), Option.bind_some, Scope.lookup_bind, if_pos rfl]

/-- All else means what it did. -/
theorem Sound.bound?_modify_of_not (hlive : (arena.scope? i).isSome)
    (h : ¬(other = name ∧ arena.binder? i name = some binder)) :
    (arena.modify index (Scope.bind name value)).bound? i other = arena.bound? i other := by
  obtain ⟨inner, hinner⟩ := Option.isSome_iff_exists.mp hlive
  unfold bound?
  rw [sound.binder?_modify hbinder hbound hlive]
  cases hother : arena.binder? i other with
  | none => rfl
  | some scope =>
    rw [Option.map_some, Option.bind_some, Option.bind_some]
    split
    · next hindex =>
      have hmem := List.mem_of_find?_eq_some hother
      have hscope := (sound.walk_chain hinner).scope?_of_mem hmem
      rw [hindex, hbinder] at hscope
      -- It is the scope that is written to, so that the name is another one.
      have hne : other ≠ name := by
        intro hname
        rw [hname, ← Option.some.inj hscope] at hother
        exact h ⟨hname, hother⟩
      rw [Scope.lookup_bind, if_neg hne]
    · rfl

end Rebinding

end Arena

namespace Action

variable {store after : Store} {handle : Handle} {arena : Arena} {name : Identifier}
  {value previous : Value}

theorem assign_eq_ok (harena : store.arenas[handle.arena]? = some arena)
    (h : assign handle name value store = (.ok previous, after)) :
    (arena.scope? handle.scope).isSome ∧ ∃ binder,
      arena.binder? handle.scope name.text = some binder ∧
      binder.lookup name.text = some previous ∧
      after = store.setArena handle (arena.modify binder.index (Scope.bind name.text value)) := by
  obtain ⟨arena', hassign, rfl⟩ := write_eq_ok harena h
  obtain ⟨hlive, binder, hbinder, hprevious, rfl⟩ := Arena.assign_eq_ok hassign
  exact ⟨hlive, binder, hbinder, hprevious, rfl⟩

/-- What an assignment comes to that overwrites a binding in this scope. -/
structure Overwrites (source : Handle) (name : Identifier) (value previous : Value) (store : Store)
    (binder : Scope) (after : Store) : Prop where
  innermost : (store.arena source).binder? source.scope name.text = some binder
  replaced : binder.lookup name.text = some previous
  seen : ∀ (reader : Handle) (other : Identifier), store.isLive reader →
    reader.arena = source.arena → other.text = name.text →
    (store.arena source).binder? reader.scope name.text = some binder →
    Action.lookup reader other after = (.ok value, after)
  unseen : ∀ (reader : Handle) (other : Identifier), store.isLive reader →
    ¬(reader.arena = source.arena ∧ other.text = name.text ∧
      (store.arena source).binder? reader.scope name.text = some binder) →
    Action.lookup reader other after = ((Action.lookup reader other store).1, after)
  scopes : List.Forall₂ Scope.SameNames (store.arena source).scopes (after.arena source).scopes
  nextIndex : (after.arena source).nextIndex = (store.arena source).nextIndex
  others : ∀ number, number ≠ source.arena → after.arenas[number]? = store.arenas[number]?
  undone : ∀ (back : Value) (restored : Store),
    Action.assign source name previous after = (.ok back, restored) →
    back = value ∧ restored = store

theorem overwrites_of_assign (harena : store.arenas[handle.arena]? = some arena)
    (sound : arena.Sound) (distinct : arena.Distinct)
    (h : assign handle name value store = (.ok previous, after)) :
    ∃ binder, Overwrites handle name value previous store binder after := by
  obtain ⟨hlive, binder, hbinder, hprevious, rfl⟩ := assign_eq_ok harena h
  obtain ⟨inner, hinner⟩ := Option.isSome_iff_exists.mp hlive
  have hmem := List.mem_of_find?_eq_some hbinder
  have hscope := (sound.walk_chain hinner).scope?_of_mem hmem
  have hbound : (binder.lookup name.text).isSome := by
    rw [hprevious]
    rfl
  have hwritten := getElem?_setArena harena
    (arena.modify binder.index (Scope.bind name.text value))
  have hbefore {reader : Handle} (hreader : reader.arena = handle.arena) :
      store.arena reader = arena := Store.arena_of_getElem? harena hreader
  have hafter {reader : Handle} (hreader : reader.arena = handle.arena) :
      (store.setArena handle _).arena reader = _ := Store.arena_of_getElem? hwritten hreader
  have hstays {i : Nat} (hi : (arena.scope? i).isSome) :=
    (Arena.SameScopes.modify_bind arena binder.index name.text value).isSome hi
  refine ⟨binder, ⟨?_, hprevious, ?_, ?_, ?_, ?_, ?_, ?_⟩⟩
  · rw [hbefore rfl]
    exact hbinder
  · intro reader other hreader hin hname hsees
    rw [Store.isLive, hbefore hin] at hreader
    rw [hbefore rfl] at hsees
    rw [lookup_eq (hafter hin) (hstays hreader), hname,
      sound.bound?_modify_self hscope hbound hreader hsees]
  · intro reader other hreader hnot
    by_cases hin : reader.arena = handle.arena
    · rw [Store.isLive, hbefore hin] at hreader
      rw [hbefore rfl] at hnot
      rw [lookup_eq (hafter hin) (hstays hreader), lookup_eq (hbefore hin) hreader,
        sound.bound?_modify_of_not hscope hbound hreader fun h => hnot ⟨hin, h⟩]
      cases arena.bound? reader.scope other.text <;> rfl
    -- in another arena nothing is written
    · have hother : (store.setArena handle (arena.modify binder.index
          (Scope.bind name.text value))).arena reader = store.arena reader := by
        unfold Store.arena Store.setArena
        rw [List.getElem?_set_ne (Ne.symm hin)]
      unfold lookup
      rw [view_apply, view_apply, hother]
  · rw [hbefore rfl, hafter rfl]
    exact sound.sameNames_modify hscope hbound
  · rw [hbefore rfl, hafter rfl]
    rfl
  · intro number hne
    exact List.getElem?_set_ne (Ne.symm hne)
  · intro back restored hback
    -- assigned back, the name still means the binding that was overwritten
    obtain ⟨-, binder', hbinder', hvalue, rfl⟩ := assign_eq_ok hwritten hback
    rw [sound.binder?_modify hscope hbound hlive, hbinder, Option.map_some, if_pos rfl] at hbinder'
    cases hbinder'
    rw [Scope.lookup_bind, if_pos rfl] at hvalue
    have hdistinct := distinct binder (List.mem_of_find?_eq_some hscope)
    refine ⟨(Option.some.inj hvalue).symm, ?_⟩
    rw [Scope.bind_index, setArena_setArena, Arena.modify_modify (Scope.bind_index · _ _),
      Arena.modify_eq_self sound.ordered hscope (Scope.bind_bind hdistinct hprevious)]
    exact setArena_self harena

end Action

open Arena

/-- An assignment that succeeds, through any handle and after any operations, gives the value that
the name had in the innermost scope around that binds it. Through a live handle a name means
afterwards the new value if it belongs to that same binding, and what it meant before otherwise. The
same scopes are live, in the same places, with as many children and the same names, and no other
arena changes. If the value that was given can be assigned back, then that gives the new value and
leaves the store as it was at first. -/
theorem assign_overwrites_one_binding (before : Store) :
    ∃ handle start, Action.newArena before = (.ok handle, start) ∧
      ∀ (operations : List Operation) (source : Handle) (name : Identifier)
        (value previous : Value) (after : Store), source.arena = handle.arena →
        Action.assign source name value (start.run operations) = (.ok previous, after) →
        ∃ binder,
          Action.Overwrites source name value previous (start.run operations) binder after := by
  refine ⟨_, _, rfl, ?_⟩
  intro operations source name value previous after hsource hassign
  obtain ⟨arena, harena, hbecomes⟩ := Store.becomes_run before rfl operations
  rw [← hsource] at harena
  exact Action.overwrites_of_assign harena (hbecomes.sound sound_fresh)
    (hbecomes.distinct distinct_fresh) hassign

def siblings : List Operation :=
  [.define ⟨0, 0, 0⟩ ⟨"x", none⟩ (.literal (.bool false)), .enclose ⟨0, 0, 0⟩, .enclose ⟨0, 0, 0⟩,
   .define ⟨2, 0, 2⟩ ⟨"x", none⟩ (.literal .null), .enclose ⟨2, 0, 2⟩]

/-- An assignment from the first of them is seen in the global scope, and not from the innermost
one. -/
theorem siblings_assigned : ∃ handle start after,
    Action.newArena Store.empty = (.ok handle, start) ∧
    Action.assign ⟨1, 0, 1⟩ ⟨"x", none⟩ (.literal (.bool true)) (start.run siblings) =
      (.ok (.literal (.bool false)), after) ∧
    Action.lookup ⟨0, 0, 0⟩ ⟨"x", some 7⟩ after = (.ok (.literal (.bool true)), after) ∧
    Action.lookup ⟨3, 0, 3⟩ ⟨"x", none⟩ after = (.ok (.literal .null), after) ∧
    ∃ restored, Action.assign ⟨1, 0, 1⟩ ⟨"x", none⟩ (.literal (.bool false)) after =
      (.ok (.literal (.bool true)), restored) ∧ restored = start.run siblings := by
  obtain ⟨handle, start, hnew, hall⟩ := assign_overwrites_one_binding Store.empty
  cases hnew
  obtain ⟨binder, hoverwrites⟩ :=
    hall siblings ⟨1, 0, 1⟩ ⟨"x", none⟩ (.literal (.bool true)) _ _ rfl rfl
  cases hoverwrites.innermost
  refine ⟨_, _, _, rfl, rfl, ?_, ?_, _, rfl, ?_⟩
  · exact hoverwrites.seen ⟨0, 0, 0⟩ ⟨"x", some 7⟩ rfl rfl rfl rfl
  · refine hoverwrites.unseen ⟨3, 0, 3⟩ ⟨"x", none⟩ rfl ?_
    rintro ⟨-, -, hsees⟩
    cases hsees
  · exact (hoverwrites.undone _ _ rfl).2

end ScriptLang

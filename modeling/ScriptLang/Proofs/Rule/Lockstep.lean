import Mathlib.Data.List.Forall2
import ScriptLang.Proofs.Rule.Agreement

namespace ScriptLang

variable {α β : Type}

/-- Which tokens face each other at an index of a first token list. They are of one kind, and the
token of the second list stands `shift` further on. -/
structure Pairing where
  faces : Nat → Token → Token → Prop
  shift : Nat
  kind_eq : ∀ {index token token'}, faces index token token' → token'.kind = token.kind

namespace Pairing

variable (P : Pairing)

/-- From an index on the tokens face each other, up to an end mark. -/
inductive Facing : Nat → List Token → List Token → Prop
  | nil (index : Nat) : Facing index [] []
  | mark {index token token'} (rest rest' : List Token) (h : P.faces index token token')
    (hk : token.kind = .eof) : Facing index (token :: rest) (token' :: rest')
  | cons {index token token' rest rest'} (h : P.faces index token token')
    (hs : Facing (index + 1) rest rest') : Facing index (token :: rest) (token' :: rest')

/-- The tokens that are left face each other, and as many blocks are open. -/
structure Cursors (c c' : Cursor) : Prop where
  rest : P.Facing c.position c.rest c'.rest
  position_eq : c'.position = c.position + P.shift
  openBlocks_eq : c'.openBlocks = c.openBlocks

def Tokens (token token' : Token) : Prop := ∃ index, P.faces index token token'

structure Errors (error error' : SyntaxError) : Prop where
  fault_eq : error'.fault = error.fault
  faces : P.faces error.position error.token error'.token
  position_eq : error'.position = error.position + P.shift

inductive Endings (Q : α → α → Prop) : Ending α → Ending α → Prop
  | done {value value'} (h : Q value value') : Endings Q (.done value) (.done value')
  | stopped {error error'} (h : P.Errors error error') :
    Endings Q (.stopped error) (.stopped error')
  | ranOut : Endings Q .ranOut .ranOut

/-- Two readings, the first one from `c`, end in the same way and where tokens face each other
again, and they record the same errors. -/
structure Readings (Q : α → α → Prop) (c : Cursor) (reading reading' : Reading α) : Prop where
  ending : P.Endings Q reading.ending reading'.ending
  cursors : P.Cursors reading.cursor reading'.cursor
  recorded : List.Forall₂ P.Errors reading.recorded reading'.recorded
  length_le : reading.cursor.rest.length ≤ c.rest.length

/-- Where at most `n` tokens are left for the first rule, both rules go in step. -/
def InStep (n : Nat) (Q : α → α → Prop) (r r' : Rule α) : Prop :=
  ∀ c c', P.Cursors c c' → c.rest.length ≤ n → P.Readings Q c (r c) (r' c')

variable {P} {Q : α → α → Prop} {S : β → β → Prop} {n : Nat} {c c' : Cursor}

namespace Readings

theorem stay {ending ending' : Ending α} (hc : P.Cursors c c') (h : P.Endings Q ending ending') :
    P.Readings Q c ⟨ending, c, []⟩ ⟨ending', c', []⟩ :=
  ⟨h, hc, .nil, Nat.le_refl _⟩

/-- What two readings go on with where they came to. -/
theorem after {ending ending' : Ending α} {d d' : Cursor} {errors errors' : List SyntaxError}
    {reading reading' : Reading β} (h : P.Readings Q c ⟨ending, d, errors⟩ ⟨ending', d', errors'⟩)
    (h' : P.Readings S d reading reading') :
    P.Readings S c (reading.after errors) (reading'.after errors') where
  ending := h'.ending
  cursors := h'.cursors
  recorded := List.rel_append h.recorded h'.recorded
  length_le := Nat.le_trans h'.length_le h.length_le

/-- Whatever else the readings were to be related by, if they come to no value. -/
theorem recast {ending ending' : Ending α} {end₁ end₂ : Ending β} {d d' : Cursor}
    {errors errors' : List SyntaxError}
    (h : P.Readings Q c ⟨ending, d, errors⟩ ⟨ending', d', errors'⟩) (he : P.Endings S end₁ end₂) :
    P.Readings S c ⟨end₁, d, errors⟩ ⟨end₂, d', errors'⟩ :=
  ⟨he, h.cursors, h.recorded, h.length_le⟩

end Readings

section Sequences

variable {p p' : Rule α} {f f' : α → Rule β}

theorem InStep.mono {m : Nat} (h : P.InStep n Q p p') (hm : m ≤ n) : P.InStep m Q p p' :=
  fun c c' hc hn => h c c' hc (Nat.le_trans hn hm)

theorem inStep_pure {value value' : α} (h : Q value value') :
    P.InStep n Q (pure value) (pure value') :=
  fun _ _ hc _ => .stay hc (.done h)

theorem inStep_bind (hp : P.InStep n Q p p')
    (hf : ∀ value value', Q value value' → P.InStep n S (f value) (f' value')) :
    P.InStep n S (p >>= f) (p' >>= f') := by
  intro c c' hc hn
  have hfirst := hp c c' hc hn
  rcases hr : p c with ⟨ending, d, errors⟩
  rcases hr' : p' c' with ⟨ending', d', errors'⟩
  rw [hr, hr'] at hfirst
  cases hfirst.ending with
  | done hvalue =>
    rw [Rule.bind_of_done hr, Rule.bind_of_done hr']
    exact hfirst.after
      (hf _ _ hvalue d d' hfirst.cursors (Nat.le_trans hfirst.length_le hn))
  | stopped herror =>
    rw [Rule.bind_of_stopped hr, Rule.bind_of_stopped hr']
    exact hfirst.recast (.stopped herror)
  | ranOut =>
    rw [Rule.bind_of_ranOut hr, Rule.bind_of_ranOut hr']
    exact hfirst.recast .ranOut

theorem inStep_map {g g' : α → β} (hp : P.InStep n Q p p')
    (hg : ∀ value value', Q value value' → S (g value) (g' value')) :
    P.InStep n S (g <$> p) (g' <$> p') := by
  rw [Rule.map_eq_bind, Rule.map_eq_bind]
  exact inStep_bind hp fun value value' h => inStep_pure (hg value value' h)

/-- Both runs stand before the end of the list, or before tokens that face each other. -/
theorem inStep_of_next
    (hnil : ∀ position openBlocks, P.Readings Q ⟨position, [], openBlocks⟩
      (p ⟨position, [], openBlocks⟩) (p' ⟨position + P.shift, [], openBlocks⟩))
    (hcons : ∀ position openBlocks token token' rest rest', rest.length < n →
      P.faces position token token' →
      P.Cursors ⟨position, token :: rest, openBlocks⟩
        ⟨position + P.shift, token' :: rest', openBlocks⟩ →
      (token.kind ≠ .eof → P.Cursors ⟨position + 1, rest, openBlocks⟩
        ⟨position + P.shift + 1, rest', openBlocks⟩) →
      P.Readings Q ⟨position, token :: rest, openBlocks⟩
        (p ⟨position, token :: rest, openBlocks⟩)
        (p' ⟨position + P.shift, token' :: rest', openBlocks⟩)) :
    P.InStep n Q p p' := by
  rintro ⟨position, rest, openBlocks⟩ ⟨position', rest', openBlocks'⟩ hc hn
  obtain ⟨hrest, hposition, hopen⟩ := id hc
  dsimp only at hrest hposition hopen
  subst hposition hopen
  cases hrest with
  | nil => exact hnil position openBlocks'
  | mark rest rest' h hk =>
    exact hcons position _ _ _ rest rest' hn h hc fun hne => absurd hk hne
  | cons h hs =>
    exact hcons position _ _ _ _ _ hn h hc fun _ => ⟨hs, Nat.add_right_comm .., rfl⟩

theorem Cursors.nil (position openBlocks : Nat) :
    P.Cursors ⟨position, [], openBlocks⟩ ⟨position + P.shift, [], openBlocks⟩ :=
  ⟨.nil position, rfl, rfl⟩

/-- One token used up by both runs. -/
theorem Readings.next {position openBlocks : Nat} {token : Token} {rest rest' : List Token}
    {value value' : α} (hv : Q value value')
    (hc : P.Cursors ⟨position + 1, rest, openBlocks⟩ ⟨position + P.shift + 1, rest', openBlocks⟩) :
    P.Readings Q ⟨position, token :: rest, openBlocks⟩
      ⟨.done value, ⟨position + 1, rest, openBlocks⟩, []⟩
      ⟨.done value', ⟨position + P.shift + 1, rest', openBlocks⟩, []⟩ :=
  ⟨.done hv, hc, .nil, Nat.le_succ _⟩

theorem isEof_eq {index : Nat} {token token' : Token} (h : P.faces index token token') :
    token'.isEof = token.isEof := by
  unfold Token.isEof
  rw [P.kind_eq h]

theorem inStep_peek : P.InStep n P.Tokens Rule.peek Rule.peek := by
  refine inStep_of_next (fun position openBlocks => .stay (.nil ..) .ranOut) ?_
  intro position openBlocks token token' rest rest' _ h hc _
  exact .stay hc (.done ⟨position, h⟩)

theorem inStep_stop (fault : SyntaxFault) :
    P.InStep n Q (Rule.stop fault) (Rule.stop fault) := by
  refine inStep_of_next (fun position openBlocks => .stay (.nil ..) .ranOut) ?_
  intro position openBlocks token token' rest rest' _ h hc _
  exact .stay hc (.stopped ⟨rfl, h, rfl⟩)

theorem inStep_flag (fault : SyntaxFault) : P.InStep n Eq (Rule.flag fault) (Rule.flag fault) := by
  refine inStep_of_next (fun position openBlocks => .stay (.nil ..) .ranOut) ?_
  intro position openBlocks token token' rest rest' _ h hc _
  exact ⟨.done rfl, hc, .cons ⟨rfl, h, rfl⟩ .nil, Nat.le_refl _⟩

theorem inStep_recordError {error error' : SyntaxError} (h : P.Errors error error') :
    P.InStep n Eq (Rule.recordError error) (Rule.recordError error') :=
  fun _ _ hc _ => ⟨.done rfl, hc, .cons h .nil, Nat.le_refl _⟩

theorem inStep_atEnd : P.InStep n Eq Rule.atEnd Rule.atEnd :=
  inStep_bind inStep_peek fun _ _ ⟨_, h⟩ => inStep_pure (isEof_eq h).symm

theorem inStep_isNext (kind : TokenKind) :
    P.InStep n Eq (Rule.isNext kind) (Rule.isNext kind) := by
  refine inStep_bind inStep_peek fun token token' ⟨_, h⟩ => inStep_pure ?_
  rw [isEof_eq h, P.kind_eq h]

/-- A choice by the next token that may use its index: past a token of one of these kinds fewer
tokens are left. -/
theorem inStep_position_accept? {kinds : List TokenKind} {g g' : Nat → Option Token → Rule β}
    (hsome : ∀ index token token' m, P.faces index token token' → token.kind ∈ kinds → m < n →
      P.InStep m S (g index (some token)) (g' (index + P.shift) (some token')))
    (hnone : ∀ index, P.InStep n S (g index none) (g' (index + P.shift) none)) :
    P.InStep n S (Rule.position >>= fun index => Rule.accept? kinds >>= g index)
      (Rule.position >>= fun index => Rule.accept? kinds >>= g' index) := by
  have hposition (f : Nat → Rule β) (c : Cursor) : (Rule.position >>= f) c = f c.position c := rfl
  refine inStep_of_next (fun position openBlocks => .stay (.nil ..) .ranOut) ?_
  intro position openBlocks token token' rest rest' hn h hc htail
  rw [hposition, hposition]
  by_cases hhit : token.kind ≠ .eof ∧ token.kind ∈ kinds
  · obtain ⟨heof, hk⟩ := hhit
    have hk' : token'.kind ∈ kinds := P.kind_eq h ▸ hk
    have heof' : token'.kind ≠ .eof := P.kind_eq h ▸ heof
    rw [Rule.bind_of_done (Rule.accept?_hit position openBlocks rest hk heof),
      Rule.bind_of_done (Rule.accept?_hit (position + P.shift) openBlocks rest' hk' heof')]
    exact (Readings.next h (htail heof)).after
      (hsome position token token' _ h hk hn _ _ (htail heof) (Nat.le_refl _))
  -- the kinds are the same, so the second run misses as well
  · have hmiss : ¬ (!token.isEof && decide (token.kind ∈ kinds)) = true := by
      simpa [Token.isEof] using hhit
    have hmiss' : ¬ (!token'.isEof && decide (token'.kind ∈ kinds)) = true := by
      rwa [isEof_eq h, P.kind_eq h]
    have hread : Rule.accept? kinds ⟨position, token :: rest, openBlocks⟩ = _ :=
      Rule.accept?_cons position openBlocks rest kinds
    have hread' : Rule.accept? kinds ⟨position + P.shift, token' :: rest', openBlocks⟩ = _ :=
      Rule.accept?_cons (position + P.shift) openBlocks rest' kinds
    rw [if_neg hmiss] at hread
    rw [if_neg hmiss'] at hread'
    rw [Rule.bind_of_done hread, Rule.bind_of_done hread']
    exact hnone position _ _ hc hn

theorem inStep_accept? {kinds : List TokenKind} {f f' : Option Token → Rule β}
    (hsome : ∀ token token' m, P.Tokens token token' → token.kind ∈ kinds → m < n →
      P.InStep m S (f (some token)) (f' (some token')))
    (hnone : P.InStep n S (f none) (f' none)) :
    P.InStep n S (Rule.accept? kinds >>= f) (Rule.accept? kinds >>= f') := by
  have hchoice : P.InStep n S (Rule.position >>= fun _ => Rule.accept? kinds >>= f)
      (Rule.position >>= fun _ => Rule.accept? kinds >>= f') := by
    refine inStep_position_accept? ?_ fun _ => hnone
    exact fun index token token' m h => hsome token token' m ⟨index, h⟩
  exact hchoice

theorem inStep_expectNamed (kind : TokenKind) (expected context : String) :
    P.InStep n P.Tokens (Rule.expectNamed kind expected context)
      (Rule.expectNamed kind expected context) :=
  inStep_accept? (fun _ _ _ h _ _ => inStep_pure h) (inStep_stop _)

theorem inStep_expect (kind : TokenKind) (context : String) :
    P.InStep n P.Tokens (Rule.expect kind context) (Rule.expect kind context) :=
  inStep_expectNamed kind _ context

theorem inStep_inBlock (hp : P.InStep n Q p p') :
    P.InStep n Q (Rule.inBlock p) (Rule.inBlock p') := by
  intro c c' hc hn
  have hopened : P.Cursors { c with openBlocks := c.openBlocks + 1 }
      { c' with openBlocks := c'.openBlocks + 1 } :=
    ⟨hc.rest, hc.position_eq, congrArg (· + 1) hc.openBlocks_eq⟩
  have hinside := hp _ _ hopened hn
  exact ⟨hinside.ending, ⟨hinside.cursors.rest, hinside.cursors.position_eq, hc.openBlocks_eq⟩,
    hinside.recorded, hinside.length_le⟩

theorem inStep_rescue {handler handler' : SyntaxError → Rule α} (hp : P.InStep n Q p p')
    (hh : ∀ error error', P.Errors error error' →
      P.InStep n Q (handler error) (handler' error')) :
    P.InStep n Q (Rule.rescue p handler) (Rule.rescue p' handler') := by
  intro c c' hc hn
  have hfirst := hp c c' hc hn
  rcases hr : p c with ⟨ending, d, errors⟩
  rcases hr' : p' c' with ⟨ending', d', errors'⟩
  rw [hr, hr'] at hfirst
  cases hfirst.ending with
  | done hvalue =>
    rw [Rule.rescue_of_done hr, Rule.rescue_of_done hr']
    exact hfirst
  | stopped herror =>
    rw [Rule.rescue_of_stopped hr, Rule.rescue_of_stopped hr']
    exact hfirst.after
      (hh _ _ herror d d' hfirst.cursors (Nat.le_trans hfirst.length_le hn))
  | ranOut =>
    rw [Rule.rescue_of_ranOut hr, Rule.rescue_of_ranOut hr']
    exact hfirst

end Sequences

section Repetition

variable {holds : Cursor → Prop} {step : α → Rule (Option α)}

/-- A step that goes in step with itself does so when it is repeated. -/
theorem inStep_iterate (hs : Rule.Advances holds step)
    (hstep : ∀ value value', Q value value' →
      P.InStep n (Option.Rel Q) (step value) (step value'))
    {value value' : α} (hvalue : Q value value') (hc : P.Cursors c c') (hn : c.rest.length ≤ n)
    (hholds : holds c) (hholds' : holds c') :
    P.Readings Q c (Rule.iterate step value c) (Rule.iterate step value' c') := by
  -- on the tokens that are left for the first run, of which every new value costs one
  induction hlength : c.rest.length using Nat.strongRecOn generalizing c c' value value' with
  | ind length ih =>
    subst hlength
    have hfirst := hstep value value' hvalue c c' hc hn
    rw [Rule.iterate_eq hs value c hholds, Rule.iterate_eq hs value' c' hholds']
    rcases hr : step value c with ⟨ending, d, errors⟩
    rcases hr' : step value' c' with ⟨ending', d', errors'⟩
    rw [hr, hr'] at hfirst
    cases hfirst.ending with
    | done hfound =>
      rw [Rule.bind_of_done hr, Rule.bind_of_done hr']
      cases hfound with
      | some hnew =>
        obtain ⟨hlt, hd⟩ := hs.shrinks value c hholds _ d errors hr
        obtain ⟨-, hd'⟩ := hs.shrinks value' c' hholds' _ d' errors' hr'
        exact hfirst.after
          (ih _ hlt hnew hfirst.cursors (Nat.le_trans (Nat.le_of_lt hlt) hn) hd hd' rfl)
      | none => exact hfirst.after (.stay hfirst.cursors (.done hvalue))
    | stopped herror =>
      rw [Rule.bind_of_stopped hr, Rule.bind_of_stopped hr']
      exact hfirst.recast (.stopped herror)
    | ranOut =>
      rw [Rule.bind_of_ranOut hr, Rule.bind_of_ranOut hr']
      exact hfirst.recast .ranOut

/-- A loop goes in step with itself if what it repeats does, past the token that it goes on with. -/
theorem inStep_loop (regime : Regime) {kinds : List TokenKind} {g : α → Token → Rule α}
    (hagree : ∀ value token m, Rule.Agree regime m (g value token) (g value token))
    (hg : ∀ value value' token token' m, Q value value' → P.Tokens token token' → m < n →
      P.InStep m Q (g value token) (g value' token')) {value value' : α} (hvalue : Q value value') :
    P.InStep n Q (Rule.loop kinds g value) (Rule.loop kinds g value') := by
  induction n using Nat.strongRecOn generalizing value value' with
  | ind n ih =>
    rw [Rule.loop_eq regime hagree value, Rule.loop_eq regime hagree value']
    refine inStep_accept? (fun token token' m h _ hm => ?_) (inStep_pure hvalue)
    refine inStep_bind (hg value value' token token' m hvalue h hm) fun next next' hnext => ?_
    exact ih m hm (fun v v' t t' k hv ht hk => hg v v' t t' k hv ht (Nat.lt_trans hk hm)) hnext

end Repetition

end Pairing

end ScriptLang

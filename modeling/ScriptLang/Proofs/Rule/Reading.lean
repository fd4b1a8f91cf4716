import ScriptLang.Syntax.Rule

namespace ScriptLang

variable {α β : Type}

namespace SyntaxFault

/-- Whether a fault stops the rule that meets it; the others are recorded in passing. -/
def raised : SyntaxFault → Bool
  | expectedToken .. | expectedExpression => true
  | invalidAssignmentTarget | tooManyArguments | tooManyParameters => false

end SyntaxFault

namespace Reading

def after (errors : List SyntaxError) (reading : Reading α) : Reading α :=
  ⟨reading.ending, reading.cursor, errors ++ reading.recorded⟩

@[simp] theorem after_nil (reading : Reading α) : reading.after [] = reading := rfl

@[simp] theorem after_mk (errors recorded : List SyntaxError) (ending : Ending α)
    (cursor : Cursor) :
    (Reading.mk ending cursor recorded).after errors = ⟨ending, cursor, errors ++ recorded⟩ := rfl

@[simp] theorem after_after (errors errors' : List SyntaxError) (reading : Reading α) :
    (reading.after errors').after errors = reading.after (errors ++ errors') := by
  simp [after]

end Reading

namespace Rule

variable {p : Rule α} {f : α → Rule β} {c c' : Cursor}

@[simp] theorem pure_apply (value : α) (c : Cursor) :
    (pure value : Rule α) c = ⟨.done value, c, []⟩ := rfl

theorem bind_apply (p : Rule α) (f : α → Rule β) (c : Cursor) :
    (p >>= f) c = match p c with
      | ⟨.done value, c', recorded⟩ => (f value c').after recorded
      | ⟨.stopped error, c', recorded⟩ => ⟨.stopped error, c', recorded⟩
      | ⟨.ranOut, c', recorded⟩ => ⟨.ranOut, c', recorded⟩ := rfl

theorem bind_of_done {value : α} {errors : List SyntaxError}
    (h : p c = ⟨.done value, c', errors⟩) : (p >>= f) c = (f value c').after errors := by
  rw [bind_apply, h]

theorem bind_of_stopped {error : SyntaxError} {errors : List SyntaxError}
    (h : p c = ⟨.stopped error, c', errors⟩) :
    (p >>= f) c = ⟨.stopped error, c', errors⟩ := by
  rw [bind_apply, h]

theorem bind_of_ranOut {errors : List SyntaxError} (h : p c = ⟨.ranOut, c', errors⟩) :
    (p >>= f) c = ⟨.ranOut, c', errors⟩ := by
  rw [bind_apply, h]

theorem bind_congr {g : α → Rule β}
    (h : ∀ value c' errors, p c = ⟨.done value, c', errors⟩ → f value c' = g value c') :
    (p >>= f) c = (p >>= g) c := by
  rw [bind_apply, bind_apply]
  rcases hp : p c with ⟨ending, c', errors⟩
  cases ending with
  | done value => exact congrArg (Reading.after errors) (h value c' errors hp)
  | stopped error => rfl
  | ranOut => rfl

theorem map_eq_bind (g : α → β) (p : Rule α) : g <$> p = p >>= fun value => pure (g value) := rfl

theorem pure_bind (value : α) (f : α → Rule β) : pure value >>= f = f value := rfl

theorem bind_assoc {γ : Type} (p : Rule α) (f : α → Rule β) (g : β → Rule γ) :
    p >>= f >>= g = p >>= fun value => f value >>= g := by
  funext c
  rcases hp : p c with ⟨ending, c', errors⟩
  cases ending with
  | done value =>
    rw [bind_of_done hp, bind_apply, bind_of_done hp, bind_apply]
    rcases f value c' with ⟨ending', c'', errors'⟩
    cases ending' with
    | done value' => exact (Reading.after_after ..).symm
    | stopped error => rfl
    | ranOut => rfl
  | stopped error => rw [bind_of_stopped (bind_of_stopped hp), bind_of_stopped hp]
  | ranOut => rw [bind_of_ranOut (bind_of_ranOut hp), bind_of_ranOut hp]

/-- A sequence comes to its end exactly if both of its parts do. -/
theorem bind_eq_done_iff {value : β} {errors : List SyntaxError} :
    (p >>= f) c = ⟨.done value, c', errors⟩ ↔
      ∃ first middle before later, p c = ⟨.done first, middle, before⟩ ∧
        f first middle = ⟨.done value, c', later⟩ ∧ errors = before ++ later := by
  constructor
  · intro h
    rcases hp : p c with ⟨ending, middle, before⟩
    cases ending with
    | done first =>
      rw [bind_of_done hp] at h
      rcases hf : f first middle with ⟨ending', cursor', later⟩
      rw [hf, Reading.after_mk] at h
      cases h
      exact ⟨first, middle, before, later, rfl, hf, rfl⟩
    | stopped error => rw [bind_of_stopped hp] at h; cases h
    | ranOut => rw [bind_of_ranOut hp] at h; cases h
  · rintro ⟨first, middle, before, later, hp, hf, rfl⟩
    rw [bind_of_done hp, hf, Reading.after_mk]

section Rescue

variable {handler : SyntaxError → Rule α} {errors : List SyntaxError}

theorem rescue_of_done {value : α} (h : p c = ⟨.done value, c', errors⟩) :
    rescue p handler c = ⟨.done value, c', errors⟩ := by
  unfold rescue
  rw [h]

theorem rescue_of_stopped {error : SyntaxError} (h : p c = ⟨.stopped error, c', errors⟩) :
    rescue p handler c = (handler error c').after errors := by
  unfold rescue
  rw [h]
  rfl

theorem rescue_of_ranOut (h : p c = ⟨.ranOut, c', errors⟩) :
    rescue p handler c = ⟨.ranOut, c', errors⟩ := by
  unfold rescue
  rw [h]

end Rescue

section Repetition

/-- What follows a step: another step from the new value, or the end with the old one. -/
def andThen (value : α) (next : α → Rule α) : Option α → Rule α
  | some value' => next value'
  | none => pure value

theorem iterateWithin_succ (step : α → Rule (Option α)) (bound : Nat) (value : α) (c : Cursor) :
    iterateWithin step (bound + 1) value c =
      (step value >>= andThen value (iterateWithin step bound)) c := by
  unfold iterateWithin
  rw [bind_apply]
  unfold Rule.bind andThen
  rcases step value c with ⟨ending, c', errors⟩
  cases ending with
  | done found => cases found <;> rfl
  | stopped error => rfl
  | ranOut => rfl

/-- What a step preserves holds of whatever its repetition comes to. -/
theorem iterate_invariant {step : α → Rule (Option α)} {P : α → Cursor → Prop}
    (hstep : ∀ value c, P value c → ∀ value' c' errors,
      step value c = ⟨.done (some value'), c', errors⟩ → P value' c')
    {value result : α} {c c' : Cursor} {errors : List SyntaxError} (hvalue : P value c)
    (h : iterate step value c = ⟨.done result, c', errors⟩) : ∃ last, P result last := by
  unfold iterate at h
  generalize c.rest.length = bound at h
  induction bound generalizing value c errors with
  | zero => cases h
  | succ bound ih =>
    rw [iterateWithin_succ] at h
    obtain ⟨found, middle, before, later, hfound, hnext, -⟩ := bind_eq_done_iff.mp h
    cases found with
    | some value' => exact ih (hstep value c hvalue value' middle before hfound) hnext
    | none =>
      cases hnext
      exact ⟨c, hvalue⟩

end Repetition

def loopStep (kinds : List TokenKind) (g : α → Token → Rule α) (value : α) : Rule (Option α) := do
  match ← accept? kinds with
  | some token => return some (← g value token)
  | none => return none

theorem loopStep_bind (kinds : List TokenKind) (g : α → Token → Rule α) (value : α)
    (f : Option α → Rule β) : loopStep kinds g value >>= f = (do
      match ← accept? kinds with
      | some token => f (some (← g value token))
      | none => f none) := by
  unfold loopStep
  rw [bind_assoc]
  congr 1
  funext found
  cases found with
  | some token => exact bind_assoc ..
  | none => rfl

def loop (kinds : List TokenKind) (g : α → Token → Rule α) : α → Rule α :=
  iterate (loopStep kinds g)

section NextToken

variable (position openBlocks : Nat) (rest : List Token) {token : Token}

theorem peek_cons : peek ⟨position, token :: rest, openBlocks⟩ =
    ⟨.done token, ⟨position, token :: rest, openBlocks⟩, []⟩ := rfl

theorem atEnd_cons : atEnd ⟨position, token :: rest, openBlocks⟩ =
    ⟨.done token.isEof, ⟨position, token :: rest, openBlocks⟩, []⟩ := rfl

theorem isNext_cons (kind : TokenKind) : isNext kind ⟨position, token :: rest, openBlocks⟩ =
    ⟨.done (!token.isEof && token.kind = kind), ⟨position, token :: rest, openBlocks⟩, []⟩ := rfl

theorem accept?_cons (kinds : List TokenKind) :
    accept? kinds ⟨position, token :: rest, openBlocks⟩ =
      if !token.isEof && token.kind ∈ kinds then
        ⟨.done (some token), ⟨position + 1, rest, openBlocks⟩, []⟩
      else ⟨.done none, ⟨position, token :: rest, openBlocks⟩, []⟩ := by
  unfold accept?
  rw [bind_of_done (peek_cons position openBlocks rest)]
  split <;> rfl

theorem accept?_hit {kinds : List TokenKind} (h : token.kind ∈ kinds) (heof : token.kind ≠ .eof) :
    accept? kinds ⟨position, token :: rest, openBlocks⟩ =
      ⟨.done (some token), ⟨position + 1, rest, openBlocks⟩, []⟩ := by
  rw [accept?_cons, if_pos]
  simp [Token.isEof, h, heof]

theorem accept?_miss {kinds : List TokenKind} (h : token.kind ∉ kinds) :
    accept? kinds ⟨position, token :: rest, openBlocks⟩ =
      ⟨.done none, ⟨position, token :: rest, openBlocks⟩, []⟩ := by
  rw [accept?_cons, if_neg]
  simp [h]

theorem accept?_nil (kinds : List TokenKind) : accept? kinds ⟨position, [], openBlocks⟩ =
    ⟨.ranOut, ⟨position, [], openBlocks⟩, []⟩ := rfl

theorem expectNamed_hit {kind : TokenKind} (expected context : String) (h : token.kind = kind)
    (heof : kind ≠ .eof) :
    expectNamed kind expected context ⟨position, token :: rest, openBlocks⟩ =
      ⟨.done token, ⟨position + 1, rest, openBlocks⟩, []⟩ := by
  unfold expectNamed
  rw [bind_of_done (accept?_hit position openBlocks rest (by simp [h]) (h ▸ heof))]
  rfl

theorem expectNamed_miss {kind : TokenKind} (expected context : String) (h : token.kind ≠ kind) :
    expectNamed kind expected context ⟨position, token :: rest, openBlocks⟩ =
      ⟨.stopped ⟨.expectedToken expected context, token, position⟩,
        ⟨position, token :: rest, openBlocks⟩, []⟩ := by
  unfold expectNamed
  rw [bind_of_done (accept?_miss position openBlocks rest (by simp [h]))]
  rfl

end NextToken

section Inversion

theorem accept?_eq_done {kinds : List TokenKind} {found : Option Token}
    {errors : List SyntaxError} (h : accept? kinds c = ⟨.done found, c', errors⟩) :
    errors = [] ∧ ∃ token rest, c.rest = token :: rest ∧
      ((found = some token ∧ token.kind ∈ kinds ∧ token.kind ≠ .eof ∧
          c' = ⟨c.position + 1, rest, c.openBlocks⟩) ∨
        (found = none ∧ (token.kind = .eof ∨ token.kind ∉ kinds) ∧ c' = c)) := by
  obtain ⟨position, rest, openBlocks⟩ := c
  cases rest with
  | nil => cases h
  | cons token rest =>
    rw [accept?_cons] at h
    split at h
    · next hk =>
      cases h
      simp only [Token.isEof, Bool.and_eq_true, Bool.not_eq_true', decide_eq_false_iff_not,
        decide_eq_true_eq] at hk
      exact ⟨rfl, token, rest, rfl, .inl ⟨rfl, hk.2, hk.1, rfl⟩⟩
    · next hk =>
      cases h
      simp only [Token.isEof, Bool.and_eq_true, Bool.not_eq_true', decide_eq_false_iff_not,
        decide_eq_true_eq, not_and] at hk
      refine ⟨rfl, token, rest, rfl, .inr ⟨rfl, ?_, rfl⟩⟩
      by_cases heof : token.kind = .eof
      · exact .inl heof
      · exact .inr (hk heof)

theorem expectNamed_eq_done {kind : TokenKind} {expected context : String} {token : Token}
    {errors : List SyntaxError}
    (h : expectNamed kind expected context c = ⟨.done token, c', errors⟩) :
    errors = [] ∧ ∃ rest, c.rest = token :: rest ∧ token.kind = kind ∧ token.kind ≠ .eof ∧
      c' = ⟨c.position + 1, rest, c.openBlocks⟩ := by
  obtain ⟨found, middle, before, later, ha, hf, rfl⟩ := bind_eq_done_iff.mp h
  obtain ⟨rfl, first, rest, hr, ⟨rfl, hk, heof, rfl⟩ | ⟨rfl, -, rfl⟩⟩ := accept?_eq_done ha
  · cases hf
    exact ⟨rfl, rest, hr, by simpa using hk, heof, rfl⟩
  · obtain ⟨position, tokens, openBlocks⟩ := middle
    cases hr
    cases hf

end Inversion

end Rule

end ScriptLang

import ScriptLang.Proofs.Rule.Agreement

namespace ScriptLang

variable {α β : Type}

namespace SyntaxFault

def pastLimit : SyntaxFault → Bool
  | tooManyArguments | tooManyParameters => true
  | expectedToken .. | expectedExpression | invalidAssignmentTarget => false

end SyntaxFault

def withoutLimit (errors : List SyntaxError) : List SyntaxError :=
  errors.filter fun error => !error.fault.pastLimit

namespace Reading

/-- The reading without the errors of items past the limit. -/
def lenient (reading : Reading α) : Reading α :=
  ⟨reading.ending, reading.cursor, withoutLimit reading.recorded⟩

/-- The second reading is the first one without the errors of items past the limit, none of which
stops it. -/
structure Eased (reading reading' : Reading α) : Prop where
  eq_lenient : reading' = reading.lenient
  stops : ∀ error, reading.ending = .stopped error → error.fault.pastLimit = false

theorem Eased.done (value : α) (c : Cursor) : Eased ⟨.done value, c, []⟩ ⟨.done value, c, []⟩ :=
  ⟨rfl, by rintro _ ⟨⟩⟩

theorem Eased.ranOut (c : Cursor) : Eased (⟨.ranOut, c, []⟩ : Reading α) ⟨.ranOut, c, []⟩ :=
  ⟨rfl, by rintro _ ⟨⟩⟩

theorem Eased.after {reading reading' : Reading α} (h : reading.Eased reading')
    (errors : List SyntaxError) :
    (reading.after errors).Eased (reading'.after (withoutLimit errors)) where
  eq_lenient := by
    rw [h.eq_lenient]
    simp [Reading.after, lenient, withoutLimit]
  stops := h.stops

end Reading

namespace Rule

/-- The second rule does as the first one, without the errors of items past the limit. -/
def Eases (r r' : Rule α) : Prop := ∀ c, (r c).Eased (r' c)

section Sequences

variable {p p' : Rule α} {f f' : α → Rule β}

theorem eases_pure (value : α) : Eases (pure value) (pure value) := fun c => .done value c

theorem eases_bind (hp : Eases p p') (hf : ∀ value, Eases (f value) (f' value)) :
    Eases (p >>= f) (p' >>= f') := by
  intro c
  obtain ⟨hfirst, hstops⟩ := hp c
  rcases hr : p c with ⟨ending, d, errors⟩
  rw [hr] at hfirst hstops
  cases ending with
  | done value =>
    rw [bind_of_done hr, bind_of_done hfirst]
    exact (hf value d).after errors
  | stopped error =>
    rw [bind_of_stopped hr, bind_of_stopped hfirst]
    refine ⟨rfl, ?_⟩
    rintro _ ⟨⟩
    exact hstops error rfl
  | ranOut =>
    rw [bind_of_ranOut hr, bind_of_ranOut hfirst]
    exact ⟨rfl, by rintro _ ⟨⟩⟩

theorem eases_map (g : α → β) (hp : Eases p p') : Eases (g <$> p) (g <$> p') :=
  eases_bind hp fun value => eases_pure (g value)

theorem eases_ite {condition : Prop} [Decidable condition] {q q' : Rule α} (hp : Eases p p')
    (hq : Eases q q') :
    Eases (if condition then p else q) (if condition then p' else q') := by
  split
  · exact hp
  · exact hq

theorem eases_peek : Eases peek peek := by
  rintro ⟨position, rest, openBlocks⟩
  cases rest with
  | nil => exact .ranOut _
  | cons token rest => exact .done token _

theorem eases_next : Eases next next := by
  rintro ⟨position, rest, openBlocks⟩
  cases rest with
  | nil => exact .ranOut _
  | cons token rest => exact .done token _

theorem eases_stop {fault : SyntaxFault} (h : fault.pastLimit = false) :
    Eases (stop fault : Rule α) (stop fault) := by
  rintro ⟨position, rest, openBlocks⟩
  cases rest with
  | nil => exact .ranOut _
  | cons token rest =>
    refine ⟨rfl, ?_⟩
    rintro _ ⟨⟩
    exact h

theorem eases_position : Eases position position := fun c => .done c.position c

theorem eases_insideBlock : Eases insideBlock insideBlock := fun c => .done _ c

theorem eases_recordError {error : SyntaxError} (h : error.fault.pastLimit = false) :
    Eases (recordError error) (recordError error) := by
  refine fun c => ⟨?_, by rintro _ ⟨⟩⟩
  simp [recordError, Reading.lenient, withoutLimit, h]

theorem eases_atEnd : Eases atEnd atEnd := eases_bind eases_peek fun _ => eases_pure _

theorem eases_isNext (kind : TokenKind) : Eases (isNext kind) (isNext kind) :=
  eases_bind eases_peek fun _ => eases_pure _

theorem eases_accept? (kinds : List TokenKind) : Eases (accept? kinds) (accept? kinds) :=
  eases_bind eases_peek fun _ => eases_ite (eases_map some eases_next) (eases_pure none)

theorem eases_expectNamed (kind : TokenKind) (expected context : String) :
    Eases (expectNamed kind expected context) (expectNamed kind expected context) := by
  refine eases_bind (eases_accept? [kind]) fun found => ?_
  cases found with
  | some token => exact eases_pure token
  | none => exact eases_stop rfl

theorem eases_expect (kind : TokenKind) (context : String) :
    Eases (expect kind context) (expect kind context) := eases_expectNamed kind _ context

/-- Without the limit nothing is recorded before what the second rule goes on with. -/
theorem eases_flag {fault : SyntaxFault} (h : fault.pastLimit = true) (hp : Eases p p')
    (hs : ∀ c, c.rest = [] → p c = ⟨.ranOut, c, []⟩) : Eases (flag fault >>= fun _ => p) p' := by
  intro c
  have hnext := hp c
  obtain ⟨position, rest, openBlocks⟩ := c
  cases rest with
  | nil =>
    rw [hs _ rfl] at hnext
    exact hnext
  | cons token rest =>
    have hdropped : withoutLimit [⟨fault, token, position⟩] = [] := by simp [withoutLimit, h]
    have hflagged := hnext.after [⟨fault, token, position⟩]
    rw [hdropped] at hflagged
    exact hflagged

theorem eases_inBlock (hp : Eases p p') : Eases (inBlock p) (inBlock p') := by
  intro c
  obtain ⟨hinside, hstops⟩ := hp { c with openBlocks := c.openBlocks + 1 }
  unfold inBlock
  rw [hinside]
  exact ⟨rfl, hstops⟩

theorem eases_rescue {handler handler' : SyntaxError → Rule α} (hp : Eases p p')
    (hh : ∀ error, error.fault.pastLimit = false → Eases (handler error) (handler' error)) :
    Eases (rescue p handler) (rescue p' handler') := by
  intro c
  obtain ⟨hfirst, hstops⟩ := hp c
  rcases hr : p c with ⟨ending, d, errors⟩
  rw [hr] at hfirst hstops
  cases ending with
  | done value =>
    rw [rescue_of_done hr, rescue_of_done hfirst]
    exact ⟨rfl, by rintro _ ⟨⟩⟩
  | stopped error =>
    rw [rescue_of_stopped hr, rescue_of_stopped hfirst]
    exact (hh error (hstops error rfl) d).after errors
  | ranOut =>
    rw [rescue_of_ranOut hr, rescue_of_ranOut hfirst]
    exact ⟨rfl, by rintro _ ⟨⟩⟩

end Sequences

section Repetition

variable {step step' : α → Rule (Option α)} {body body' : Rule α → Rule α}

theorem eases_iterateWithin (h : ∀ value, Eases (step value) (step' value)) (bound : Nat)
    (value : α) : Eases (iterateWithin step bound value) (iterateWithin step' bound value) := by
  induction bound generalizing value with
  | zero => exact fun c => .ranOut c
  | succ bound ih =>
    intro c
    rw [iterateWithin_succ, iterateWithin_succ]
    refine eases_bind (h value) (fun found => ?_) c
    cases found with
    | some next => exact ih next
    | none => exact eases_pure value

theorem eases_iterate (h : ∀ value, Eases (step value) (step' value)) (value : α) :
    Eases (iterate step value) (iterate step' value) :=
  fun c => eases_iterateWithin h c.rest.length value c

theorem eases_fix (hs : Starves body) (h : ∀ r r', (∀ c, c.rest = [] → r c = ⟨.ranOut, c, []⟩) →
      Eases r r' → Eases (body r) (body' r')) : Eases (fix body) (fix body') := by
  have hwithin : ∀ bound, Eases (fixWithin body bound) (fixWithin body' bound) := by
    intro bound
    induction bound with
    | zero => exact fun c => .ranOut c
    | succ bound ih => exact h _ _ (fun c hc => hs.fixWithin_eq bound hc) ih
  exact fun c => hwithin c.rest.length c

end Repetition

end Rule

end ScriptLang

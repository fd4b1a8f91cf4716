import ScriptLang.Proofs.Grammar.ExpressionRules

namespace ScriptLang

/-- The value of a literal token. -/
def Token.value (token : Token) : Literal :=
  match token.kind with
  | .falseWord => .bool false
  | .trueWord => .bool true
  | .nullWord => .null
  | _ => token.literal

namespace Grammar

def bareToken (kind : TokenKind) (lexeme : String) : Token := ⟨kind, lexeme, .null, 1⟩

def literalKinds : List TokenKind := [.falseWord, .trueWord, .nullWord, .number, .string]

/-- The error of one more argument or parameter past the limit. -/
def overflow (fault : SyntaxFault) (count : Nat) (token : Token) (start : Nat) :
    List SyntaxError :=
  if maxArguments ≤ count then [⟨fault, token, start⟩] else []

/-- A part of an expression. Loops are parts of their own: what is read before them and what they
come to. -/
inductive Phrase where
  | expr (tier : Tier) (tree : Expr)
  | operands (level : Level) (left result : Expr)
  | calls (callee result : Expr)
  | arguments (trees : List Expr)
  | moreArguments (read trees : List Expr)

/-- From this index on, these tokens spell the phrase, and these errors go with them. -/
inductive Spells : Phrase → Nat → List Token → List SyntaxError → Prop
  | literal (start : Nat) {token : Token} (hk : token.kind ∈ literalKinds) :
    Spells (.expr .primary (.literal token.line token.value)) start [token] []
  | name (start : Nat) {token : Token} (hk : token.kind = .identifier) :
    Spells (.expr .primary (.name token.line token)) start [token] []
  | grouping {start opening closing ts inner errors} (ho : opening.kind = .leftParen)
    (h : Spells (.expr .assignment inner) (start + 1) ts errors)
    (hc : closing.kind = .rightParen) :
    Spells (.expr .primary (.grouping opening.line inner)) start (opening :: (ts ++ [closing]))
      errors
  | noCalls (start : Nat) (callee : Expr) : Spells (.calls callee callee) start [] []
  | oneCall {start opening paren ts us callee arguments result errors errors'}
    (ho : opening.kind = .leftParen) (ha : Spells (.arguments arguments) (start + 1) ts errors)
    (hp : paren.kind = .rightParen)
    (h : Spells (.calls (.call callee.line callee paren arguments) result)
      (start + 1 + (ts.length + 1)) us errors') :
    Spells (.calls callee result) start (opening :: (ts ++ paren :: us)) (errors ++ errors')
  | call {start ts us callee result errors errors'}
    (hc : Spells (.expr .primary callee) start ts errors)
    (h : Spells (.calls callee result) (start + ts.length) us errors') :
    Spells (.expr .call result) start (ts ++ us) (errors ++ errors')
  | noArguments (start : Nat) : Spells (.arguments []) start [] []
  | someArguments {start ts us first trees errors errors'}
    (hf : Spells (.expr .assignment first) start ts errors)
    (h : Spells (.moreArguments [first] trees) (start + ts.length) us errors') :
    Spells (.arguments trees) start (ts ++ us) (errors ++ errors')
  | lastArgument (start : Nat) (trees : List Expr) : Spells (.moreArguments trees trees) start [] []
  | nextArgument {start comma head ts us read tree trees errors errors'}
    (hc : comma.kind = .comma)
    (ht : Spells (.expr .assignment tree) (start + 1) (head :: ts) errors)
    (h : Spells (.moreArguments (read ++ [tree]) trees) (start + 1 + (ts.length + 1)) us errors') :
    Spells (.moreArguments read trees) start (comma :: (head :: ts ++ us))
      (overflow .tooManyArguments read.length head (start + 1) ++ errors ++ errors')
  | unaryOfCall {start ts tree errors} (h : Spells (.expr .call tree) start ts errors) :
    Spells (.expr .unary tree) start ts errors
  | unary {start operator ts right errors} (ho : operator.kind ∈ prefixOperators)
    (h : Spells (.expr .unary right) (start + 1) ts errors) :
    Spells (.expr .unary (.unary operator.line operator right)) start (operator :: ts) errors
  | lastOperand (start : Nat) (level : Level) (left : Expr) :
    Spells (.operands level left left) start [] []
  | nextOperand {start level operator ts us left right result errors errors'}
    (ho : operator.kind ∈ level.operators)
    (hr : Spells (.expr level.operandTier right) (start + 1) ts errors)
    (h : Spells (.operands level (level.join left operator right) result)
      (start + 1 + ts.length) us errors') :
    Spells (.operands level left result) start (operator :: (ts ++ us)) (errors ++ errors')
  | binary {start level ts us first result errors errors'}
    (hf : Spells (.expr level.operandTier first) start ts errors)
    (h : Spells (.operands level first result) (start + ts.length) us errors') :
    Spells (.expr (.binary level) result) start (ts ++ us) (errors ++ errors')
  | operation {start ts tree errors}
    (h : Spells (.expr (.binary .disjunction) tree) start ts errors) :
    Spells (.expr .assignment tree) start ts errors
  | assignment {start equals ts us line name value errors errors'}
    (ht : Spells (.expr (.binary .disjunction) (.name line name)) start ts errors)
    (he : equals.kind = .equal)
    (h : Spells (.expr .assignment value) (start + ts.length + 1) us errors') :
    Spells (.expr .assignment (.assign line name value)) start (ts ++ equals :: us)
      (errors ++ errors')
  | badAssignment {start equals ts us target value errors errors'}
    (ht : Spells (.expr (.binary .disjunction) target) start ts errors)
    (hn : ∀ line name, target ≠ .name line name) (he : equals.kind = .equal)
    (h : Spells (.expr .assignment value) (start + ts.length + 1) us errors') :
    Spells (.expr .assignment target) start (ts ++ equals :: us)
      (errors ++ errors' ++ [⟨.invalidAssignmentTarget, equals, start + ts.length⟩])

section Loops

variable {start : Nat} {ts us : List Token} {errors : List SyntaxError} {tree : Expr}

/-- An operand is an operation without operators. -/
theorem Spells.of_operand (level : Level)
    (h : Spells (.expr level.operandTier tree) start ts errors) :
    Spells (.expr (.binary level) tree) start ts errors := by
  have hbinary := Spells.binary h (.lastOperand _ level tree)
  rwa [List.append_nil, List.append_nil] at hbinary

theorem Spells.of_primary (h : Spells (.expr .primary tree) start ts errors) :
    Spells (.expr .call tree) start ts errors := by
  have hcall := Spells.call h (.noCalls _ tree)
  rwa [List.append_nil, List.append_nil] at hcall

/-- A bare name is an operation. -/
theorem spells_name {token : Token} (start : Nat) (hk : token.kind = .identifier) :
    Spells (.expr (.binary .disjunction) (.name token.line token)) start [token] [] := by
  have hcall := (Spells.name start hk).of_primary
  have hproduct := (Spells.unaryOfCall hcall).of_operand .product
  have hsum := hproduct.of_operand .sum
  have hcomparison := hsum.of_operand .comparison
  have hequality := hcomparison.of_operand .equality
  have hconjunction := hequality.of_operand .conjunction
  exact hconjunction.of_operand .disjunction

end Loops

section Errors

def raisedErrors (errors : List SyntaxError) : List SyntaxError :=
  errors.filter fun error => error.fault.raised

@[simp] theorem raisedErrors_append (errors errors' : List SyntaxError) :
    raisedErrors (errors ++ errors') = raisedErrors errors ++ raisedErrors errors' :=
  List.filter_append ..

/-- Expressions record only in passing. -/
theorem raisedErrors_of_expression {errors : List SyntaxError}
    (h : ∀ error ∈ errors, Regime.expression.records error) : raisedErrors errors = [] := by
  refine List.filter_eq_nil_iff.mpr fun error hmem => ?_
  have hrecords : error.fault.raised = false := h error hmem
  simp [hrecords]

theorem overflow_eq_nil_iff {fault : SyntaxFault} {count : Nat} {token : Token} {start : Nat} :
    overflow fault count token start = [] ↔ count < maxArguments := by
  unfold overflow
  split
  · next hlimit => simpa using hlimit
  · next hlimit => simpa using hlimit

theorem length_overflow (fault : SyntaxFault) (count : Nat) (token : Token) (start : Nat) :
    (overflow fault count token start).length = if maxArguments ≤ count then 1 else 0 := by
  unfold overflow
  split <;> rfl

theorem raisedErrors_overflow {fault : SyntaxFault} (h : fault.raised = false) (count : Nat)
    (token : Token) (start : Nat) : raisedErrors (overflow fault count token start) = [] := by
  unfold overflow
  split
  · simp [raisedErrors, h]
  · rfl

theorem Spells.raisedErrors_eq_nil {phrase : Phrase} {start : Nat} {ts : List Token}
    {errors : List SyntaxError} (h : Spells phrase start ts errors) : raisedErrors errors = [] := by
  induction h with
  | literal | name | noCalls | noArguments | lastArgument | lastOperand => rfl
  | grouping _ _ _ ih | unaryOfCall _ ih | unary _ _ ih | operation _ ih => exact ih
  | oneCall _ _ _ _ iha ih => simp [iha, ih]
  | call _ _ ihc ih => simp [ihc, ih]
  | someArguments _ _ ihf ih => simp [ihf, ih]
  | nextArgument _ _ _ iht ih =>
    rw [raisedErrors_append, raisedErrors_append, raisedErrors_overflow rfl, iht, ih]
    rfl
  | nextOperand _ _ _ ihr ih => simp [ihr, ih]
  | binary _ _ ihf ih => simp [ihf, ih]
  | assignment _ _ _ iht ih => simp [iht, ih]
  | badAssignment _ _ _ _ iht ih =>
    rw [raisedErrors_append, raisedErrors_append, iht, ih]
    rfl

end Errors

section Shifts

/-- Wherever the tokens of a phrase stand, as many errors go with them. -/
theorem Spells.shift {phrase : Phrase} {start : Nat} {ts : List Token} {errors : List SyntaxError}
    (h : Spells phrase start ts errors) (start' : Nat) :
    ∃ errors', Spells phrase start' ts errors' ∧ errors'.length = errors.length := by
  induction h generalizing start' with
  | literal _ hk => exact ⟨[], .literal start' hk, rfl⟩
  | name _ hk => exact ⟨[], .name start' hk, rfl⟩
  | grouping ho _ hc ih =>
    obtain ⟨errors', h, hlength⟩ := ih (start' + 1)
    exact ⟨errors', .grouping ho h hc, hlength⟩
  | noCalls _ callee => exact ⟨[], .noCalls start' callee, rfl⟩
  | oneCall ho _ hp _ iha ih =>
    obtain ⟨before, ha, hbefore⟩ := iha (start' + 1)
    obtain ⟨later, h, hlater⟩ := ih _
    exact ⟨before ++ later, .oneCall ho ha hp h, by simp [hbefore, hlater]⟩
  | call _ _ ihc ih =>
    obtain ⟨before, hc, hbefore⟩ := ihc start'
    obtain ⟨later, h, hlater⟩ := ih _
    exact ⟨before ++ later, .call hc h, by simp [hbefore, hlater]⟩
  | noArguments => exact ⟨[], .noArguments start', rfl⟩
  | someArguments _ _ ihf ih =>
    obtain ⟨before, hf, hbefore⟩ := ihf start'
    obtain ⟨later, h, hlater⟩ := ih _
    exact ⟨before ++ later, .someArguments hf h, by simp [hbefore, hlater]⟩
  | lastArgument _ trees => exact ⟨[], .lastArgument start' trees, rfl⟩
  | nextArgument hc _ _ iht ih =>
    obtain ⟨before, ht, hbefore⟩ := iht (start' + 1)
    obtain ⟨later, h, hlater⟩ := ih _
    refine ⟨_, .nextArgument hc ht h, ?_⟩
    simp [hbefore, hlater, length_overflow]
  | unaryOfCall _ ih =>
    obtain ⟨errors', h, hlength⟩ := ih start'
    exact ⟨errors', .unaryOfCall h, hlength⟩
  | unary ho _ ih =>
    obtain ⟨errors', h, hlength⟩ := ih (start' + 1)
    exact ⟨errors', .unary ho h, hlength⟩
  | lastOperand _ level left => exact ⟨[], .lastOperand start' level left, rfl⟩
  | nextOperand ho _ _ ihr ih =>
    obtain ⟨before, hr, hbefore⟩ := ihr (start' + 1)
    obtain ⟨later, h, hlater⟩ := ih _
    exact ⟨before ++ later, .nextOperand ho hr h, by simp [hbefore, hlater]⟩
  | binary _ _ ihf ih =>
    obtain ⟨before, hf, hbefore⟩ := ihf start'
    obtain ⟨later, h, hlater⟩ := ih _
    exact ⟨before ++ later, .binary hf h, by simp [hbefore, hlater]⟩
  | operation _ ih =>
    obtain ⟨errors', h, hlength⟩ := ih start'
    exact ⟨errors', .operation h, hlength⟩
  | assignment _ he _ iht ih =>
    obtain ⟨before, ht, hbefore⟩ := iht start'
    obtain ⟨later, h, hlater⟩ := ih _
    exact ⟨before ++ later, .assignment ht he h, by simp [hbefore, hlater]⟩
  | badAssignment _ hn he _ iht ih =>
    obtain ⟨before, ht, hbefore⟩ := iht start'
    obtain ⟨later, h, hlater⟩ := ih _
    exact ⟨_, .badAssignment ht hn he h, by simp [hbefore, hlater]⟩

end Shifts

section Heads

def primaryHeads : List TokenKind :=
  [.falseWord, .trueWord, .nullWord, .number, .string, .identifier, .leftParen]

def Tier.heads : Tier → List TokenKind
  | primary | call => primaryHeads
  | unary | binary _ | assignment => primaryHeads ++ prefixOperators

/-- Some first token is of one of these kinds. -/
def BeginsWith (kinds : List TokenKind) (ts : List Token) : Prop :=
  ∃ token rest, ts = token :: rest ∧ token.kind ∈ kinds

theorem BeginsWith.append {kinds : List TokenKind} {ts : List Token} (h : BeginsWith kinds ts)
    (us : List Token) : BeginsWith kinds (ts ++ us) := by
  obtain ⟨token, rest, rfl, hk⟩ := h
  exact ⟨token, rest ++ us, rfl, hk⟩

theorem BeginsWith.mono {kinds kinds' : List TokenKind} {ts : List Token}
    (h : BeginsWith kinds ts) (hsub : kinds ⊆ kinds') : BeginsWith kinds' ts := by
  obtain ⟨token, rest, rfl, hk⟩ := h
  exact ⟨token, rest, rfl, hsub hk⟩

def Phrase.Begins : Phrase → List Token → Prop
  | expr tier _, ts => BeginsWith tier.heads ts
  | operands level _ _, ts => ts = [] ∨ BeginsWith level.operators ts
  | calls _ _, ts => ts = [] ∨ BeginsWith [.leftParen] ts
  | arguments _, ts => ts = [] ∨ BeginsWith Tier.assignment.heads ts
  | moreArguments _ _, ts => ts = [] ∨ BeginsWith [.comma] ts

theorem Spells.begins {phrase : Phrase} {start : Nat} {ts : List Token} {errors : List SyntaxError}
    (h : Spells phrase start ts errors) : phrase.Begins ts := by
  induction h with
  | @literal start token hk =>
    have hsub : literalKinds ⊆ primaryHeads := by decide
    exact ⟨token, [], rfl, hsub hk⟩
  | @name start token hk => exact ⟨token, [], rfl, by rw [hk]; decide⟩
  | grouping ho => exact ⟨_, _, rfl, by rw [ho]; decide⟩
  | noCalls => exact .inl rfl
  | oneCall ho => exact .inr ⟨_, _, rfl, by rw [ho]; decide⟩
  | call _ _ ih => exact ih.append _
  | noArguments => exact .inl rfl
  | someArguments _ _ ih => exact .inr (ih.append _)
  | lastArgument => exact .inl rfl
  | nextArgument hc => exact .inr ⟨_, _, rfl, by rw [hc]; decide⟩
  | unaryOfCall _ ih => exact ih.mono (by decide)
  | unary ho =>
    have hsub : prefixOperators ⊆ Tier.unary.heads := by decide
    exact ⟨_, _, rfl, hsub ho⟩
  | lastOperand => exact .inl rfl
  | nextOperand ho => exact .inr ⟨_, _, rfl, ho⟩
  | @binary _ level _ _ _ _ _ _ _ _ ih =>
    cases level <;> exact ih.append _
  | operation _ ih => exact ih
  | assignment _ _ _ ih => exact ih.append _
  | badAssignment _ _ _ _ ih => exact ih.append _

/-- An argument up to the limit adds no error. -/
theorem Spells.nextArgument_of_lt {start : Nat} {comma : Token} {ts us : List Token}
    {read trees : List Expr} {tree : Expr} (hfew : read.length < maxArguments)
    (hc : comma.kind = .comma) (ht : Spells (.expr .assignment tree) (start + 1) ts [])
    (h : Spells (.moreArguments (read ++ [tree]) trees) (start + 1 + ts.length) us []) :
    Spells (.moreArguments read trees) start (comma :: (ts ++ us)) [] := by
  -- the error past the limit would be at the first token of the argument
  obtain ⟨head, rest, rfl, -⟩ := ht.begins
  have hnext := Spells.nextArgument hc ht h
  rwa [overflow_eq_nil_iff.mpr hfew] at hnext

end Heads

end Grammar

end ScriptLang

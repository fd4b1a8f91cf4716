import ScriptLang.Proofs.Grammar.Spelling

namespace ScriptLang

/-- Whether a statement ends in a conditional without an else, which would take one that follows. -/
def Stmt.dangling : Stmt → Bool
  | ifThen .. => true
  | ifElse _ _ _ elseBranch => elseBranch.dangling
  | whileLoop _ _ body => body.dangling
  | _ => false

structure Span where
  start : Nat
  stop : Nat

namespace Grammar

/-- Tokens that a declaration or a malformed piece may begin with. -/
def Starts (ts : List Token) : Prop :=
  ∃ token rest, ts = token :: rest ∧ token.kind ∉ [.elseWord, .rightBrace, .eof]

theorem Starts.append {ts : List Token} (h : Starts ts) (us : List Token) : Starts (ts ++ us) := by
  obtain ⟨token, rest, rfl, hk⟩ := h
  exact ⟨token, rest ++ us, rfl, hk⟩

theorem BeginsWith.starts {kinds : List TokenKind} {ts : List Token} (h : BeginsWith kinds ts)
    (hdisjoint : ∀ kind ∈ kinds, kind ∉ [.elseWord, .rightBrace, .eof]) : Starts ts := by
  obtain ⟨token, rest, rfl, hk⟩ := h
  exact ⟨token, rest, rfl, hdisjoint token.kind hk⟩

/-- The malformed pieces that may stand between declarations, and those that may stand between the
last declaration of a block and its closing brace. -/
structure Pieces where
  whole : List Token → Prop
  last : List Token → Prop
  whole_starts : ∀ ts, whole ts → Starts ts
  last_starts : ∀ ts, last ts → Starts ts

def Pieces.none : Pieces where
  whole _ := False
  last _ := False
  whole_starts _ h := h.elim
  last_starts _ h := h.elim

inductive SpellsMoreNames : List Token → List Token → Nat → List Token → List SyntaxError → Prop
  | last (start : Nat) (names : List Token) : SpellsMoreNames names names start [] []
  | next {start comma name ts read names errors} (hc : comma.kind = .comma)
    (hn : name.kind = .identifier)
    (h : SpellsMoreNames (read ++ [name]) names (start + 2) ts errors) :
    SpellsMoreNames read names start (comma :: name :: ts)
      (overflow .tooManyParameters read.length name (start + 1) ++ errors)

/-- The names of parameters, with the errors of those past the limit. -/
inductive SpellsNames : List Token → Nat → List Token → List SyntaxError → Prop
  | none (start : Nat) : SpellsNames [] start [] []
  | some {start name ts names errors} (hn : name.kind = .identifier)
    (h : SpellsMoreNames [name] names (start + 1) ts errors) :
    SpellsNames names start (name :: ts) errors

/-- A part of a program. The body of a block is a list of declarations, and a malformed piece may
follow them. -/
inductive Clause where
  | statement (tree : Stmt)
  | declaration (tree : Stmt)
  | sequence (trees : List Stmt)
  | body (trees : List Stmt)

/-- From this index on, these tokens form the clause; these errors go with its well-formed parts,
and malformed pieces stand at these places. -/
inductive Forms (pieces : Pieces) :
    Clause → Nat → List Token → List SyntaxError → List Span → Prop
  | expression {start ts semicolon value errors}
    (hv : Spells (.expr .assignment value) start ts errors) (hs : semicolon.kind = .semicolon) :
    Forms pieces (.statement (.expression value.line value)) start (ts ++ [semicolon]) errors []
  | print {start keyword ts semicolon value errors} (hk : keyword.kind = .printWord)
    (hv : Spells (.expr .assignment value) (start + 1) ts errors)
    (hs : semicolon.kind = .semicolon) :
    Forms pieces (.statement (.print keyword.line value)) start (keyword :: (ts ++ [semicolon]))
      errors []
  | ifThen {start keyword opening ts closing us condition thenBranch errors errors' skipped}
    (hk : keyword.kind = .ifWord) (ho : opening.kind = .leftParen)
    (hc : Spells (.expr .assignment condition) (start + 2) ts errors)
    (hp : closing.kind = .rightParen)
    (ht : Forms pieces (.statement thenBranch) (start + 2 + ts.length + 1) us errors' skipped) :
    Forms pieces (.statement (.ifThen keyword.line condition thenBranch)) start
      (keyword :: opening :: (ts ++ closing :: us)) (errors ++ errors') skipped
  | ifElse {start keyword opening ts closing us word vs condition thenBranch elseBranch errors
      errors' errors'' skipped skipped'}
    (hk : keyword.kind = .ifWord) (ho : opening.kind = .leftParen)
    (hc : Spells (.expr .assignment condition) (start + 2) ts errors)
    (hp : closing.kind = .rightParen)
    (ht : Forms pieces (.statement thenBranch) (start + 2 + ts.length + 1) us errors' skipped)
    (hd : thenBranch.dangling = false) (hw : word.kind = .elseWord)
    (he : Forms pieces (.statement elseBranch) (start + 2 + ts.length + 1 + us.length + 1) vs
      errors'' skipped') :
    Forms pieces (.statement (.ifElse keyword.line condition thenBranch elseBranch)) start
      (keyword :: opening :: (ts ++ closing :: (us ++ word :: vs)))
      (errors ++ (errors' ++ errors'')) (skipped ++ skipped')
  | whileLoop {start keyword opening ts closing us condition tree errors errors' skipped}
    (hk : keyword.kind = .whileWord) (ho : opening.kind = .leftParen)
    (hc : Spells (.expr .assignment condition) (start + 2) ts errors)
    (hp : closing.kind = .rightParen)
    (hb : Forms pieces (.statement tree) (start + 2 + ts.length + 1) us errors' skipped) :
    Forms pieces (.statement (.whileLoop keyword.line condition tree)) start
      (keyword :: opening :: (ts ++ closing :: us)) (errors ++ errors') skipped
  | block {start opening ts closing trees errors skipped} (ho : opening.kind = .leftBrace)
    (hb : Forms pieces (.body trees) (start + 1) ts errors skipped)
    (hc : closing.kind = .rightBrace) :
    Forms pieces (.statement (.block opening.line trees)) start (opening :: (ts ++ [closing]))
      errors skipped
  | function {start keyword name opening ts closing brace us ending params trees errors errors'
      skipped}
    (hk : keyword.kind = .fnWord) (hn : name.kind = .identifier) (ho : opening.kind = .leftParen)
    (hp : SpellsNames params (start + 3) ts errors) (hc : closing.kind = .rightParen)
    (hb : brace.kind = .leftBrace)
    (h : Forms pieces (.body trees) (start + 3 + ts.length + 2) us errors' skipped)
    (he : ending.kind = .rightBrace) :
    Forms pieces (.declaration (.function keyword.line name params brace.line trees)) start
      (keyword :: name :: opening :: (ts ++ closing :: brace :: (us ++ [ending])))
      (errors ++ errors') skipped
  | letBinding {start keyword name equals ts semicolon initializer errors}
    (hk : keyword.kind = .letWord) (hn : name.kind = .identifier) (he : equals.kind = .equal)
    (hv : Spells (.expr .assignment initializer) (start + 3) ts errors)
    (hs : semicolon.kind = .semicolon) :
    Forms pieces (.declaration (.letBinding keyword.line name initializer)) start
      (keyword :: name :: equals :: (ts ++ [semicolon])) errors []
  | statement {start ts tree errors skipped}
    (h : Forms pieces (.statement tree) start ts errors skipped) :
    Forms pieces (.declaration tree) start ts errors skipped
  | nil (start : Nat) : Forms pieces (.sequence []) start [] [] []
  | cons {start ts us tree trees errors errors' skipped skipped'}
    (h : Forms pieces (.declaration tree) start ts errors skipped)
    (hs : Forms pieces (.sequence trees) (start + ts.length) us errors' skipped') :
    Forms pieces (.sequence (tree :: trees)) start (ts ++ us) (errors ++ errors')
      (skipped ++ skipped')
  | skip {start ts us trees errors skipped} (hp : pieces.whole ts)
    (hs : Forms pieces (.sequence trees) (start + ts.length) us errors skipped) :
    Forms pieces (.sequence trees) start (ts ++ us) errors (⟨start, start + ts.length⟩ :: skipped)
  | body {start ts trees errors skipped}
    (h : Forms pieces (.sequence trees) start ts errors skipped) :
    Forms pieces (.body trees) start ts errors skipped
  | bodyThen {start ts us trees errors skipped}
    (h : Forms pieces (.sequence trees) start ts errors skipped) (hp : pieces.last us) :
    Forms pieces (.body trees) start (ts ++ us) errors
      (skipped ++ [⟨start + ts.length, start + ts.length + us.length + 1⟩])

def Clause.Begins : Clause → List Token → Prop
  | statement _, ts | declaration _, ts => Starts ts
  | sequence _, ts | body _, ts => ts = [] ∨ Starts ts

theorem starts_cons {token : Token} {kind : TokenKind} (ts : List Token) (hk : token.kind = kind)
    (h : kind ∉ [.elseWord, .rightBrace, .eof]) : Starts (token :: ts) :=
  ⟨token, ts, rfl, by rw [hk]; exact h⟩

/-- A name up to the limit adds no error. -/
theorem SpellsMoreNames.next_of_lt {start : Nat} {comma name : Token} {ts read names : List Token}
    (hfew : read.length < maxArguments) (hc : comma.kind = .comma) (hn : name.kind = .identifier)
    (h : SpellsMoreNames (read ++ [name]) names (start + 2) ts []) :
    SpellsMoreNames read names start (comma :: name :: ts) [] := by
  have hnext := SpellsMoreNames.next hc hn h
  rwa [overflow_eq_nil_iff.mpr hfew] at hnext

theorem SpellsMoreNames.raisedErrors_eq_nil {read names : List Token} {start : Nat}
    {ts : List Token} {errors : List SyntaxError}
    (h : SpellsMoreNames read names start ts errors) : raisedErrors errors = [] := by
  induction h with
  | last => rfl
  | next _ _ _ ih => rw [raisedErrors_append, raisedErrors_overflow rfl, ih, List.append_nil]

theorem SpellsNames.raisedErrors_eq_nil {names : List Token} {start : Nat} {ts : List Token}
    {errors : List SyntaxError} (h : SpellsNames names start ts errors) :
    raisedErrors errors = [] := by
  cases h with
  | none => rfl
  | some _ h => exact h.raisedErrors_eq_nil

variable {pieces : Pieces} {clause : Clause} {start : Nat} {ts : List Token}
  {errors : List SyntaxError} {skipped : List Span}

theorem Forms.begins (h : Forms pieces clause start ts errors skipped) : clause.Begins ts := by
  induction h with
  | expression hv =>
    exact (hv.begins.starts (by decide)).append _
  | print hk => exact starts_cons _ hk (by decide)
  | ifThen hk => exact starts_cons _ hk (by decide)
  | ifElse hk => exact starts_cons _ hk (by decide)
  | whileLoop hk => exact starts_cons _ hk (by decide)
  | block ho => exact starts_cons _ ho (by decide)
  | function hk => exact starts_cons _ hk (by decide)
  | letBinding hk => exact starts_cons _ hk (by decide)
  | statement _ ih => exact ih
  | nil => exact .inl rfl
  | cons _ _ ih => exact .inr (ih.append _)
  | skip hp => exact .inr ((pieces.whole_starts _ hp).append _)
  | body _ ih => exact ih
  | bodyThen _ hp ih =>
    obtain rfl | hstarts := ih
    · exact .inr (pieces.last_starts _ hp)
    · exact .inr (hstarts.append _)

/-- Without malformed pieces nothing is skipped. -/
theorem Forms.skipped_eq_nil (h : Forms .none clause start ts errors skipped) : skipped = [] := by
  induction h with
  | ifElse _ _ _ _ _ _ _ _ iht ihe => rw [iht, ihe, List.append_nil]
  | cons _ _ ih ihs => rw [ih, ihs, List.append_nil]
  | skip hp => exact hp.elim
  | bodyThen _ hp => exact hp.elim
  | ifThen _ _ _ _ _ ih | whileLoop _ _ _ _ _ ih | block _ _ _ ih | function _ _ _ _ _ _ _ _ ih
  | statement _ ih | body _ ih => exact ih
  | _ => rfl

theorem SpellsMoreNames.shift {read names : List Token}
    (h : SpellsMoreNames read names start ts errors) (start' : Nat) :
    ∃ errors', SpellsMoreNames read names start' ts errors' ∧ errors'.length = errors.length := by
  induction h generalizing start' with
  | last _ names => exact ⟨[], .last start' names, rfl⟩
  | next hc hn _ ih =>
    obtain ⟨errors', h, hlength⟩ := ih (start' + 2)
    exact ⟨_, .next hc hn h, by simp [hlength, length_overflow]⟩

theorem SpellsNames.shift {names : List Token} (h : SpellsNames names start ts errors)
    (start' : Nat) : ∃ errors', SpellsNames names start' ts errors' ∧
      errors'.length = errors.length := by
  cases h with
  | none => exact ⟨[], .none start', rfl⟩
  | some hn h =>
    obtain ⟨errors', h, hlength⟩ := h.shift (start' + 1)
    exact ⟨errors', .some hn h, hlength⟩

/-- Tokens that form a clause without malformed pieces form it wherever they stand, and as many
errors go with them. -/
theorem Forms.shift (h : Forms .none clause start ts errors skipped) (pieces : Pieces)
    (start' : Nat) :
    ∃ errors', Forms pieces clause start' ts errors' [] ∧ errors'.length = errors.length := by
  induction h generalizing start' with
  | expression hv hs =>
    obtain ⟨errors', hv, hlength⟩ := hv.shift start'
    exact ⟨errors', .expression hv hs, hlength⟩
  | print hk hv hs =>
    obtain ⟨errors', hv, hlength⟩ := hv.shift (start' + 1)
    exact ⟨errors', .print hk hv hs, hlength⟩
  | ifThen hk ho hc hp _ ih =>
    obtain ⟨before, hc, hbefore⟩ := hc.shift (start' + 2)
    obtain ⟨later, ht, hlater⟩ := ih _
    exact ⟨before ++ later, .ifThen hk ho hc hp ht, by simp [hbefore, hlater]⟩
  | ifElse hk ho hc hp _ hd hw _ iht ihe =>
    obtain ⟨before, hc, hbefore⟩ := hc.shift (start' + 2)
    obtain ⟨middle, ht, hmiddle⟩ := iht _
    obtain ⟨later, he, hlater⟩ := ihe _
    exact ⟨before ++ (middle ++ later), .ifElse hk ho hc hp ht hd hw he,
      by simp [hbefore, hmiddle, hlater]⟩
  | whileLoop hk ho hc hp _ ih =>
    obtain ⟨before, hc, hbefore⟩ := hc.shift (start' + 2)
    obtain ⟨later, hb, hlater⟩ := ih _
    exact ⟨before ++ later, .whileLoop hk ho hc hp hb, by simp [hbefore, hlater]⟩
  | block ho _ hc ih =>
    obtain ⟨errors', hb, hlength⟩ := ih (start' + 1)
    exact ⟨errors', .block ho hb hc, hlength⟩
  | function hk hn ho hp hc hb _ he ih =>
    obtain ⟨before, hp, hbefore⟩ := hp.shift (start' + 3)
    obtain ⟨later, h, hlater⟩ := ih _
    exact ⟨before ++ later, .function hk hn ho hp hc hb h he, by simp [hbefore, hlater]⟩
  | letBinding hk hn he hv hs =>
    obtain ⟨errors', hv, hlength⟩ := hv.shift (start' + 3)
    exact ⟨errors', .letBinding hk hn he hv hs, hlength⟩
  | statement _ ih =>
    obtain ⟨errors', h, hlength⟩ := ih start'
    exact ⟨errors', .statement h, hlength⟩
  | nil => exact ⟨[], .nil start', rfl⟩
  | cons _ _ ih ihs =>
    obtain ⟨before, h, hbefore⟩ := ih start'
    obtain ⟨later, hs, hlater⟩ := ihs _
    exact ⟨before ++ later, .cons h hs, by simp [hbefore, hlater]⟩
  | skip hp => exact hp.elim
  | body _ ih =>
    obtain ⟨errors', h, hlength⟩ := ih start'
    exact ⟨errors', .body h, hlength⟩
  | bodyThen _ hp => exact hp.elim

end Grammar

end ScriptLang

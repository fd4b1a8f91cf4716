import Mathlib.Data.List.Forall2
import ScriptLang.Proofs.Grammar.Unparsing

namespace ScriptLang

/-- What a tree tells of a token: all of it, the value of a literal, or the kind. -/
inductive Trace where
  | kept (token : Token)
  | value (literal : Literal)
  | word (kind : TokenKind)

namespace Trace

@[simp] def kind : Trace → TokenKind
  | kept token => token.kind
  | value literal => literal.kind
  | word kind => kind

def Matches : Trace → Token → Prop
  | kept token, shown => shown = token
  | value literal, shown => shown.kind = literal.kind ∧ shown.value = literal
  | word kind, shown => shown.kind = kind

theorem Matches.kind_eq {trace : Trace} {token : Token} (h : trace.Matches token) :
    token.kind = trace.kind := by
  cases trace with
  | kept => exact congrArg Token.kind h
  | value => exact h.1
  | word => exact h

end Trace

/-- A token as the trees tell of it, with the lines of all nodes whose tokens begin with it. -/
structure Leaf where
  trace : Trace
  lines : List Int

/-- The token is as the trees tell, and it is on the line of all nodes that begin with it. -/
structure Leaf.Shows (leaf : Leaf) (token : Token) : Prop where
  trace : leaf.trace.Matches token
  lines : ∀ line ∈ leaf.lines, token.line = line

section Writing

def headed (line : Int) : List Leaf → List Leaf
  | [] => []
  | leaf :: rest => { leaf with lines := line :: leaf.lines } :: rest

def separated : List (List Leaf) → List Leaf
  | [] => []
  | part :: rest => part ++ rest.flatMap fun part => ⟨.word .comma, []⟩ :: part

mutual

def Expr.leaves : Expr → List Leaf
  | literal line value => [⟨.value value, [line]⟩]
  | grouping line inner =>
    ⟨.word .leftParen, [line]⟩ :: (inner.leaves ++ [⟨.word .rightParen, []⟩])
  | unary line operator right => ⟨.kept operator, [line]⟩ :: right.leaves
  | binary line left operator right | logical line left operator right =>
    headed line (left.leaves ++ ⟨.kept operator, []⟩ :: right.leaves)
  | name line token => [⟨.kept token, [line]⟩]
  | assign line target value => ⟨.kept target, [line]⟩ :: ⟨.word .equal, []⟩ :: value.leaves
  | call line callee paren arguments =>
    headed line (callee.leaves ++ ⟨.word .leftParen, []⟩ ::
      (separated (leavesOfEach arguments) ++ [⟨.kept paren, []⟩]))

def Expr.leavesOfEach : List Expr → List (List Leaf)
  | [] => []
  | tree :: rest => tree.leaves :: leavesOfEach rest

end

def leavesOfNames (names : List Token) : List Leaf :=
  separated (names.map fun name => [⟨.kept name, []⟩])

mutual

def Stmt.leaves : Stmt → List Leaf
  | block line statements =>
    ⟨.word .leftBrace, [line]⟩ :: (leavesOfAll statements ++ [⟨.word .rightBrace, []⟩])
  | expression line value => headed line (value.leaves ++ [⟨.word .semicolon, []⟩])
  | print line value => ⟨.word .printWord, [line]⟩ :: (value.leaves ++ [⟨.word .semicolon, []⟩])
  | letBinding line name initializer =>
    ⟨.word .letWord, [line]⟩ :: ⟨.kept name, []⟩ :: ⟨.word .equal, []⟩ ::
      (initializer.leaves ++ [⟨.word .semicolon, []⟩])
  | ifThen line condition thenBranch =>
    ⟨.word .ifWord, [line]⟩ :: ⟨.word .leftParen, []⟩ ::
      (condition.leaves ++ ⟨.word .rightParen, []⟩ :: thenBranch.leaves)
  | ifElse line condition thenBranch elseBranch =>
    ⟨.word .ifWord, [line]⟩ :: ⟨.word .leftParen, []⟩ ::
      (condition.leaves ++ ⟨.word .rightParen, []⟩ ::
        (thenBranch.leaves ++ ⟨.word .elseWord, []⟩ :: elseBranch.leaves))
  | whileLoop line condition body =>
    ⟨.word .whileWord, [line]⟩ :: ⟨.word .leftParen, []⟩ ::
      (condition.leaves ++ ⟨.word .rightParen, []⟩ :: body.leaves)
  | function line name params bodyLine body =>
    ⟨.word .fnWord, [line]⟩ :: ⟨.kept name, []⟩ :: ⟨.word .leftParen, []⟩ ::
      (leavesOfNames params ++ ⟨.word .rightParen, []⟩ :: ⟨.word .leftBrace, [bodyLine]⟩ ::
        (leavesOfAll body ++ [⟨.word .rightBrace, []⟩]))

def Stmt.leavesOfAll : List Stmt → List Leaf
  | [] => []
  | tree :: rest => tree.leaves ++ leavesOfAll rest

end

end Writing

section Kinds

variable (lexeme : TokenKind → Literal → String)

def Leaf.kind (leaf : Leaf) : TokenKind := leaf.trace.kind

@[simp] theorem Leaf.kind_mk (trace : Trace) (lines : List Int) :
    (Leaf.mk trace lines).kind = trace.kind := rfl

@[simp] theorem kinds_headed (line : Int) (leaves : List Leaf) :
    (headed line leaves).map Leaf.kind = leaves.map Leaf.kind := by
  cases leaves <;> rfl

mutual

/-- The tokens that an expression is written as are of the kinds that its leaves tell. -/
theorem Expr.kinds_flatten : ∀ tree : Expr,
    (tree.flatten lexeme).map Token.kind = tree.leaves.map Leaf.kind
  | literal line value => by simp [flatten, leaves]
  | grouping line inner => by
    simp [flatten, leaves, inner.kinds_flatten]
  | unary line operator right => by
    simp [flatten, leaves, right.kinds_flatten]
  | binary line left operator right | logical line left operator right => by
    simp [flatten, leaves, left.kinds_flatten, right.kinds_flatten]
  | name line token => by simp [flatten, leaves]
  | assign line target value => by
    simp [flatten, leaves, value.kinds_flatten]
  | call line callee paren arguments => by
    simp [flatten, leaves, callee.kinds_flatten,
      kinds_flattenArguments line arguments]

theorem Expr.kinds_flattenArguments (line : Int) : ∀ trees : List Expr,
    (flattenArguments lexeme line trees).map Token.kind =
      (separated (leavesOfEach trees)).map Leaf.kind
  | [] => rfl
  | tree :: rest => by
    simp [flattenArguments, separated, leavesOfEach, tree.kinds_flatten,
      kinds_flattenMore line rest]

theorem Expr.kinds_flattenMore (line : Int) : ∀ trees : List Expr,
    (flattenMore lexeme line trees).map Token.kind =
      ((leavesOfEach trees).flatMap fun part => ⟨.word .comma, []⟩ :: part).map Leaf.kind
  | [] => rfl
  | tree :: rest => by
    simp [flattenMore, leavesOfEach, tree.kinds_flatten,
      kinds_flattenMore line rest]

end

theorem kinds_flattenNames (line : Int) (names : List Token) :
    (flattenNames lexeme line names).map Token.kind = (leavesOfNames names).map Leaf.kind := by
  cases names with
  | nil => rfl
  | cons name rest =>
    simp [flattenNames, leavesOfNames, separated, List.map_flatMap, List.flatMap_map]

mutual

/-- The tokens that a statement is written as are of the kinds that its leaves tell. -/
theorem Stmt.kinds_flatten : ∀ tree : Stmt,
    (tree.flatten lexeme).map Token.kind = tree.leaves.map Leaf.kind
  | block line statements => by
    simp [flatten, leaves, kinds_flattenAll statements]
  | expression line value | print line value => by
    simp [flatten, leaves, value.kinds_flatten]
  | letBinding line name initializer => by
    simp [flatten, leaves, initializer.kinds_flatten]
  | ifThen line condition thenBranch => by
    simp [flatten, leaves, condition.kinds_flatten, thenBranch.kinds_flatten]
  | ifElse line condition thenBranch elseBranch => by
    simp [flatten, leaves, condition.kinds_flatten,
      thenBranch.kinds_flatten, elseBranch.kinds_flatten]
  | whileLoop line condition body => by
    simp [flatten, leaves, condition.kinds_flatten, body.kinds_flatten]
  | function line name params bodyLine body => by
    simp [flatten, leaves, kinds_flattenNames, kinds_flattenAll body]

theorem Stmt.kinds_flattenAll : ∀ trees : List Stmt,
    (flattenAll lexeme trees).map Token.kind = (leavesOfAll trees).map Leaf.kind
  | [] => rfl
  | tree :: rest => by
    simp [flattenAll, leavesOfAll, tree.kinds_flatten, kinds_flattenAll rest]

end

end Kinds

def Token.carriesLiteral (token : Token) : Bool :=
  match token.kind, token.literal with
  | .number, .number _ | .string, .string _ => true
  | .number, _ | .string, _ => false
  | _, _ => true

/-- The leaves tell of these tokens, one by one. -/
abbrev Shown (leaves : List Leaf) (ts : List Token) : Prop := List.Forall₂ Leaf.Shows leaves ts

namespace Shown

variable {leaves leaves' : List Leaf} {ts us : List Token} {token : Token} {line : Int}

theorem append (h : Shown leaves ts) (h' : Shown leaves' us) :
    Shown (leaves ++ leaves') (ts ++ us) :=
  List.rel_append h h'

theorem kept (token : Token) (h : Shown leaves ts) :
    Shown (⟨.kept token, []⟩ :: leaves) (token :: ts) :=
  .cons ⟨rfl, List.forall_mem_nil _⟩ h

theorem word {kind : TokenKind} (hk : token.kind = kind) (h : Shown leaves ts) :
    Shown (⟨.word kind, []⟩ :: leaves) (token :: ts) :=
  .cons ⟨hk, List.forall_mem_nil _⟩ h

/-- A word that a node on its line begins with. -/
theorem first {kind : TokenKind} (hk : token.kind = kind) (h : Shown leaves ts) :
    Shown (⟨.word kind, [token.line]⟩ :: leaves) (token :: ts) :=
  .cons ⟨hk, by simp⟩ h

theorem headed (h : Shown leaves ts) (hline : ∀ token ∈ ts.head?, token.line = line) :
    Shown (headed line leaves) ts := by
  cases h with
  | nil => exact .nil
  | cons hfirst hrest =>
    refine .cons ⟨hfirst.trace, ?_⟩ hrest
    exact List.forall_mem_cons.mpr ⟨hline _ rfl, hfirst.lines⟩

theorem kinds_eq (h : Shown leaves ts) : leaves.map Leaf.kind = ts.map Token.kind := by
  induction h with
  | nil => rfl
  | cons hfirst _ ih => rw [List.map_cons, List.map_cons, ih, hfirst.trace.kind_eq]; rfl

end Shown

theorem headed_eq_cons {line : Int} {leaves : List Leaf} (h : leaves ≠ []) :
    ∃ leaf rest, headed line leaves = leaf :: rest ∧ line ∈ leaf.lines := by
  cases leaves with
  | nil => exact absurd rfl h
  | cons leaf rest => exact ⟨_, rest, rfl, List.mem_cons_self⟩

/-- The first leaf of an expression has its line. -/
theorem Expr.leaves_eq_cons (tree : Expr) :
    ∃ leaf rest, tree.leaves = leaf :: rest ∧ tree.line ∈ leaf.lines := by
  cases tree with
  | binary | logical | call =>
    exact headed_eq_cons (List.append_ne_nil_of_right_ne_nil _ (List.cons_ne_nil _ _))
  | _ => exact ⟨_, _, rfl, List.mem_singleton_self _⟩

theorem leavesOfEach_eq_map (trees : List Expr) :
    Expr.leavesOfEach trees = trees.map Expr.leaves := by
  induction trees with
  | nil => rfl
  | cons tree rest ih => rw [Expr.leavesOfEach, ih, List.map_cons]

theorem separated_snoc {parts : List (List Leaf)} (h : parts ≠ []) (part : List Leaf) :
    separated (parts ++ [part]) = separated parts ++ ⟨.word .comma, []⟩ :: part := by
  cases parts with
  | nil => exact absurd rfl h
  | cons first rest => simp [separated]

namespace Shown

variable {parts : List (List Leaf)} {part more : List Leaf} {ts us : List Token} {comma : Token}

/-- A node that begins with another one is on the line of that one's first token. -/
theorem after {tree : Expr} (h : Shown tree.leaves ts) (h' : Shown more us) :
    Shown (ScriptLang.headed tree.line (tree.leaves ++ more)) (ts ++ us) := by
  refine (h.append h').headed ?_
  obtain ⟨leaf, rest, hleaves, hline⟩ := tree.leaves_eq_cons
  rw [hleaves] at h
  cases h with
  | cons hfirst _ =>
    rintro token ⟨⟩
    exact hfirst.lines _ hline

/-- One more part after those before it. -/
theorem snoc (hne : parts ≠ []) (h : Shown (separated parts) us) (hc : comma.kind = .comma)
    (h' : Shown part ts) : Shown (separated (parts ++ [part])) (us ++ comma :: ts) := by
  rw [separated_snoc hne]
  exact h.append (.word hc h')

end Shown

namespace Grammar

section Expressions

/-- What the leaves of a phrase tell. Of what a loop comes to, they tell what was read before the
loop as well. -/
def Phrase.Shows : Phrase → List Token → Prop
  | expr _ tree, ts => Shown tree.leaves ts
  | operands _ left result, ts | calls left result, ts =>
    ∀ us, Shown left.leaves us → Shown result.leaves (us ++ ts)
  | arguments trees, ts => Shown (separated (Expr.leavesOfEach trees)) ts
  | moreArguments read trees, ts => read ≠ [] → ∀ us,
    Shown (separated (Expr.leavesOfEach read)) us →
      Shown (separated (Expr.leavesOfEach trees)) (us ++ ts)

theorem kind_value {token : Token} (h : token.carriesLiteral) (hk : token.kind ∈ literalKinds) :
    token.kind = token.value.kind := by
  simp only [literalKinds, List.mem_cons, List.not_mem_nil, or_false] at hk
  unfold Token.value
  obtain hk | hk | hk | hk | hk := hk
  · rw [hk]; rfl
  · rw [hk]; rfl
  · rw [hk]; rfl
  · unfold Token.carriesLiteral at h
    rw [hk] at h ⊢
    cases hl : token.literal with
    | number => rfl
    | _ => simp [hl] at h
  · unfold Token.carriesLiteral at h
    rw [hk] at h ⊢
    cases hl : token.literal with
    | string => rfl
    | _ => simp [hl] at h

theorem leaves_join (level : Level) (left : Expr) (operator : Token) (right : Expr) :
    (level.join left operator right).leaves =
      headed left.line (left.leaves ++ ⟨.kept operator, []⟩ :: right.leaves) := by
  cases level <;> simp [Level.join, Expr.leaves]

/-- Unless a target is kept without its value, the leaves of what tokens spell tell of these
tokens. -/
theorem Spells.shows {phrase : Phrase} {start : Nat} {ts : List Token} {errors : List SyntaxError}
    (h : Spells phrase start ts errors)
    (hkept : ∀ error ∈ errors, error.fault ≠ .invalidAssignmentTarget)
    (hcarries : ∀ token ∈ ts, token.carriesLiteral) : phrase.Shows ts := by
  induction h with
  | @literal start token hk =>
    have hkind := kind_value (hcarries token List.mem_cons_self) hk
    exact .cons ⟨⟨hkind, rfl⟩, by simp⟩ .nil
  | name => exact .cons ⟨rfl, by simp⟩ .nil
  | grouping ho _ hc ih =>
    rw [List.forall_mem_cons, List.forall_mem_append] at hcarries
    exact .first ho ((ih hkept hcarries.2.1).append (.word hc .nil))
  | noCalls | lastOperand =>
    intro us hus
    rwa [List.append_nil]
  | @oneCall start opening paren ts us callee arguments result errors errors' ho _ hp _ iha ih =>
    obtain ⟨hbefore, hafter⟩ := List.forall_mem_append.mp hkept
    rw [List.forall_mem_cons, List.forall_mem_append, List.forall_mem_cons] at hcarries
    obtain ⟨-, hts, -, hus⟩ := hcarries
    intro vs hvs
    -- the call takes the place of its callee, and its line
    have harguments := (iha hbefore hts).append (.kept paren .nil)
    have hcall : Shown (Expr.call callee.line callee paren arguments).leaves
        (vs ++ opening :: (ts ++ [paren])) := hvs.after (.word ho harguments)
    have hresult := ih hafter hus _ hcall
    simpa using hresult
  | call _ _ ihc ih =>
    obtain ⟨hbefore, hafter⟩ := List.forall_mem_append.mp hkept
    rw [List.forall_mem_append] at hcarries
    exact ih hafter hcarries.2 _ (ihc hbefore hcarries.1)
  | noArguments => exact .nil
  | @someArguments start ts us first trees errors errors' _ _ ihf ih =>
    obtain ⟨hbefore, hafter⟩ := List.forall_mem_append.mp hkept
    rw [List.forall_mem_append] at hcarries
    have hfirst : Shown first.leaves ts := ihf hbefore hcarries.1
    refine ih hafter hcarries.2 (List.cons_ne_nil _ _) _ ?_
    simpa [separated, Expr.leavesOfEach] using hfirst
  | lastArgument =>
    intro _ us hus
    rwa [List.append_nil]
  | @nextArgument start comma head ts us read tree trees errors errors' hc _ _ iht ih =>
    obtain ⟨hbefore, hafter⟩ := List.forall_mem_append.mp hkept
    obtain ⟨-, hbefore⟩ := List.forall_mem_append.mp hbefore
    rw [List.forall_mem_cons, List.forall_mem_append] at hcarries
    obtain ⟨-, hts, hus⟩ := hcarries
    intro hne vs hvs
    have hread : Shown (separated (Expr.leavesOfEach (read ++ [tree])))
        (vs ++ comma :: (head :: ts)) := by
      rw [leavesOfEach_eq_map] at hvs ⊢
      rw [List.map_append, List.map_singleton]
      exact hvs.snoc (by simpa using hne) hc (iht hbefore hts)
    have hresult := ih hafter hus (by simp) _ hread
    simpa using hresult
  | unaryOfCall _ ih => exact ih hkept hcarries
  | unary ho _ ih =>
    exact .cons ⟨rfl, by simp⟩ (ih hkept (List.forall_mem_cons.mp hcarries).2)
  | @nextOperand start level operator ts us left right result errors errors' ho _ _ ihr ih =>
    obtain ⟨hbefore, hafter⟩ := List.forall_mem_append.mp hkept
    rw [List.forall_mem_cons, List.forall_mem_append] at hcarries
    obtain ⟨-, hts, hus⟩ := hcarries
    intro vs hvs
    have hjoin : Shown (level.join left operator right).leaves (vs ++ operator :: ts) := by
      rw [leaves_join]
      exact hvs.after (.kept operator (ihr hbefore hts))
    have hresult := ih hafter hus _ hjoin
    simpa using hresult
  | binary _ _ ihf ih =>
    obtain ⟨hbefore, hafter⟩ := List.forall_mem_append.mp hkept
    rw [List.forall_mem_append] at hcarries
    exact ih hafter hcarries.2 _ (ihf hbefore hcarries.1)
  | operation _ ih => exact ih hkept hcarries
  | @assignment start equals ts us line name value errors errors' ht he _ iht ih =>
    obtain ⟨hbefore, hafter⟩ := List.forall_mem_append.mp hkept
    rw [List.forall_mem_append, List.forall_mem_cons] at hcarries
    obtain ⟨hts, -, hus⟩ := hcarries
    have htarget : Shown (Expr.name line name).leaves ts := iht hbefore hts
    exact htarget.append (.word he (ih hafter hus))
  -- only here tokens are dropped, and the error that goes with them is excluded
  | badAssignment =>
    have hlast := (List.forall_mem_append.mp hkept).2 _ List.mem_cons_self
    exact absurd rfl hlast

end Expressions

section Statements

def Clause.Shows : Clause → List Token → Prop
  | statement tree, ts | declaration tree, ts => Shown tree.leaves ts
  | sequence trees, ts | body trees, ts => Shown (Stmt.leavesOfAll trees) ts

theorem SpellsMoreNames.shows {read names : List Token} {start : Nat} {ts us : List Token}
    {errors : List SyntaxError} (h : SpellsMoreNames read names start ts errors)
    (hne : read ≠ []) (hus : Shown (leavesOfNames read) us) :
    Shown (leavesOfNames names) (us ++ ts) := by
  induction h generalizing us with
  | last =>
    rw [List.append_nil]
    exact hus
  | @next start comma name ts read names errors hc _ _ ih =>
    have hread : Shown (leavesOfNames (read ++ [name])) (us ++ comma :: [name]) := by
      unfold leavesOfNames at hus ⊢
      rw [List.map_append, List.map_singleton]
      exact hus.snoc (by simpa using hne) hc (.kept name .nil)
    have hresult := ih (by simp) hread
    simpa using hresult

theorem SpellsNames.shows {names : List Token} {start : Nat} {ts : List Token}
    {errors : List SyntaxError} (h : SpellsNames names start ts errors) :
    Shown (leavesOfNames names) ts := by
  cases h with
  | none => exact .nil
  | @some _ name ts _ _ _ h => exact h.shows (List.cons_ne_nil _ _) (.kept name .nil)

/-- The condition in parentheses of a statement, between its keyword and what follows. -/
theorem shown_condition {opening closing : Token} {start : Nat} {condition : Expr}
    {ts us : List Token} {errors : List SyntaxError} {more : List Leaf}
    (ho : opening.kind = .leftParen) (hc : Spells (.expr .assignment condition) start ts errors)
    (hkept : ∀ error ∈ errors, error.fault ≠ .invalidAssignmentTarget)
    (hp : closing.kind = .rightParen) (hts : ∀ token ∈ ts, token.carriesLiteral)
    (h : Shown more us) :
    Shown (⟨.word .leftParen, []⟩ :: (condition.leaves ++ ⟨.word .rightParen, []⟩ :: more))
      (opening :: (ts ++ closing :: us)) := by
  have hcondition : Shown condition.leaves ts := hc.shows hkept hts
  exact .word ho (hcondition.append (.word hp h))

/-- Unless a target is kept without its value, the leaves of what tokens form tell of these
tokens. -/
theorem Forms.shows_of_kept {clause : Clause} {start : Nat} {ts : List Token}
    {errors : List SyntaxError} {skipped : List Span}
    (h : Forms .none clause start ts errors skipped)
    (hkept : ∀ error ∈ errors, error.fault ≠ .invalidAssignmentTarget)
    (hcarries : ∀ token ∈ ts, token.carriesLiteral) : clause.Shows ts := by
  induction h with
  | @expression start ts semicolon value errors hv hs =>
    have hvalue : Shown value.leaves ts := hv.shows hkept (List.forall_mem_append.mp hcarries).1
    exact hvalue.after (.word hs .nil)
  | @print start keyword ts semicolon value errors hk hv hs =>
    rw [List.forall_mem_cons, List.forall_mem_append] at hcarries
    have hvalue : Shown value.leaves ts := hv.shows hkept hcarries.2.1
    exact .first hk (hvalue.append (.word hs .nil))
  | ifThen hk ho hc hp _ ih =>
    obtain ⟨hbefore, hafter⟩ := List.forall_mem_append.mp hkept
    simp only [List.forall_mem_cons, List.forall_mem_append] at hcarries
    obtain ⟨-, -, hts, -, hus⟩ := hcarries
    exact .first hk (shown_condition ho hc hbefore hp hts (ih hafter hus))
  | @ifElse start keyword opening ts closing us word vs condition thenBranch elseBranch errors
      errors' errors'' skipped skipped' hk ho hc hp _ _ hw _ iht ihe =>
    obtain ⟨hbefore, hafter⟩ := List.forall_mem_append.mp hkept
    obtain ⟨hthen, helse⟩ := List.forall_mem_append.mp hafter
    simp only [List.forall_mem_cons, List.forall_mem_append] at hcarries
    obtain ⟨-, -, hts, -, hus, -, hvs⟩ := hcarries
    have hthenBranch : Shown thenBranch.leaves us := iht hthen hus
    have helseBranch : Shown elseBranch.leaves vs := ihe helse hvs
    have hbranches := hthenBranch.append (.word hw helseBranch)
    exact .first hk (shown_condition ho hc hbefore hp hts hbranches)
  | whileLoop hk ho hc hp _ ih =>
    obtain ⟨hbefore, hafter⟩ := List.forall_mem_append.mp hkept
    simp only [List.forall_mem_cons, List.forall_mem_append] at hcarries
    obtain ⟨-, -, hts, -, hus⟩ := hcarries
    exact .first hk (shown_condition ho hc hbefore hp hts (ih hafter hus))
  | @block start opening ts closing trees errors skipped ho _ hc ih =>
    rw [List.forall_mem_cons, List.forall_mem_append] at hcarries
    have hbody : Shown (Stmt.leavesOfAll trees) ts := ih hkept hcarries.2.1
    exact .first ho (hbody.append (.word hc .nil))
  | @function start keyword name opening ts closing brace us ending params trees errors errors'
      skipped hk hn ho hp hc hb _ he ih =>
    obtain ⟨hbefore, hafter⟩ := List.forall_mem_append.mp hkept
    simp only [List.forall_mem_cons, List.forall_mem_append] at hcarries
    obtain ⟨-, -, -, -, -, -, hus, -⟩ := hcarries
    have hbody : Shown (Stmt.leavesOfAll trees) us := ih hafter hus
    -- past the parameters the leaves are those of the body, inside its braces
    have hblock := hbody.append (.word he .nil)
    have hrest := hp.shows.append (Shown.word hc (Shown.first hb hblock))
    exact .first hk (Shown.kept name (Shown.word ho hrest))
  | @letBinding start keyword name equals ts semicolon initializer errors hk hn he hv hs =>
    simp only [List.forall_mem_cons, List.forall_mem_append] at hcarries
    obtain ⟨-, -, -, hts, -⟩ := hcarries
    have hvalue : Shown initializer.leaves ts := hv.shows hkept hts
    exact .first hk (Shown.kept name (Shown.word he (hvalue.append (.word hs .nil))))
  | statement _ ih | body _ ih => exact ih hkept hcarries
  | nil => exact .nil
  | @cons start ts us tree trees errors errors' skipped skipped' _ _ ih ihs =>
    obtain ⟨hbefore, hafter⟩ := List.forall_mem_append.mp hkept
    obtain ⟨hts, hus⟩ := List.forall_mem_append.mp hcarries
    have htree : Shown tree.leaves ts := ih hbefore hts
    exact htree.append (ihs hafter hus)
  | skip hp => exact hp.elim
  | bodyThen _ hp => exact hp.elim

/-- The leaves of what tokens form without an error tell of these tokens. -/
theorem Forms.shows {clause : Clause} {start : Nat} {ts : List Token} {errors : List SyntaxError}
    {skipped : List Span} (h : Forms .none clause start ts errors skipped) (hclean : errors = [])
    (hcarries : ∀ token ∈ ts, token.carriesLiteral) : clause.Shows ts := by
  refine h.shows_of_kept ?_ hcarries
  rw [hclean]
  exact List.forall_mem_nil _

end Statements

end Grammar

open Grammar

/-- Parsing without an error loses nothing. The leaves of the returned statements tell of the tokens
before the first end mark, one by one and in their order; so what the statements are written as is
of the same kinds. -/
theorem leaves_of_parse {tokens : List Token} (hends : Ends tokens)
    (hcarries : ∀ token ∈ tokens, token.carriesLiteral) (hclean : (parse tokens).recorded = []) :
    ∃ trees c, parse tokens = ⟨.done trees, c, []⟩ ∧
      Shown (Stmt.leavesOfAll trees) (tokens.takeWhile fun token => token.kind ≠ .eof) ∧
      ∀ lexeme, (Stmt.flattenAll lexeme trees).map Token.kind =
        (tokens.takeWhile fun token => token.kind ≠ .eof).map Token.kind := by
  obtain ⟨used, mark, later, trees, errors, htokens, hmark, hnone, hparse⟩ := parse_done hends
  have hbody : (tokens.takeWhile fun token => token.kind ≠ .eof) = used := by
    rw [htokens, takeWhile_before_mark hmark hnone]
  have herrors : errors = [] := by
    rw [hparse] at hclean
    exact hclean
  subst herrors
  rw [hbody]
  have hforms := forms_of_parse hparse htokens rfl
  have hused : ∀ token ∈ used, token.carriesLiteral := by
    intro token hmem
    refine hcarries token ?_
    rw [htokens]
    exact List.mem_append_left _ hmem
  have hshown : Shown (Stmt.leavesOfAll trees) used := hforms.shows rfl hused
  exact ⟨trees, _, hparse, hshown, fun lexeme =>
    (Stmt.kinds_flattenAll lexeme trees).trans hshown.kinds_eq⟩

def callOnTwoLines : List Token :=
  [⟨.identifier, "f", .null, 1⟩, ⟨.leftParen, "(", .null, 1⟩,
    ⟨.number, "1", .number (Double.ofRatio false 1 1), 1⟩, ⟨.comma, ",", .null, 1⟩,
    ⟨.string, "\"s\"", .string "s", 2⟩, ⟨.rightParen, ")", .null, 2⟩,
    ⟨.semicolon, ";", .null, 2⟩, Token.endMark 2]

/-- The statement and the call are on the line of the name, and the string is on its own. -/
theorem leaves_of_callOnTwoLines :
    Ends callOnTwoLines ∧ (∀ token ∈ callOnTwoLines, token.carriesLiteral) ∧
      (parse callOnTwoLines).recorded = [] ∧ ∃ trees c, parse callOnTwoLines =
        ⟨.done trees, c, []⟩ ∧ Stmt.leavesOfAll trees =
          [⟨.kept ⟨.identifier, "f", .null, 1⟩, [1, 1, 1]⟩, ⟨.word .leftParen, []⟩,
            ⟨.value (.number (Double.ofRatio false 1 1)), [1]⟩, ⟨.word .comma, []⟩,
            ⟨.value (.string "s"), [2]⟩, ⟨.kept ⟨.rightParen, ")", .null, 2⟩, []⟩,
            ⟨.word .semicolon, []⟩] ∧
        Shown (Stmt.leavesOfAll trees) (callOnTwoLines.take 7) := by
  have hends : Ends callOnTwoLines := ⟨Token.endMark 2, by simp [callOnTwoLines], rfl⟩
  have hcarries : ∀ token ∈ callOnTwoLines, token.carriesLiteral := by decide
  have hclean : (parse callOnTwoLines).recorded = [] := rfl
  obtain ⟨trees, c, hparse, hshown, -⟩ := leaves_of_parse hends hcarries hclean
  have hdone : (parse callOnTwoLines).ending = .done [.expression 1 (.call 1
      (.name 1 ⟨.identifier, "f", .null, 1⟩) ⟨.rightParen, ")", .null, 2⟩
      [.literal 1 (.number (Double.ofRatio false 1 1)), .literal 2 (.string "s")])] := rfl
  refine ⟨hends, hcarries, hclean, trees, c, hparse, ?_, hshown⟩
  rw [hparse] at hdone
  cases hdone
  rfl

end ScriptLang

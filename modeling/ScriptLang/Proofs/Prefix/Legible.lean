import ScriptLang.Proofs.Grammar.Unparsing
import ScriptLang.Proofs.Prefix.NumberTexts
import ScriptLang.Proofs.Source.Coverage

namespace ScriptLang

open JsonValue

section Lines

def Token.withoutLine (token : Token) : Token := { token with line := 0 }

namespace Expr

mutual

def withoutLines : Expr → Expr
  | literal _ value => literal 0 value
  | grouping _ inner => grouping 0 inner.withoutLines
  | unary _ operator right => unary 0 operator.withoutLine right.withoutLines
  | binary _ left operator right =>
    binary 0 left.withoutLines operator.withoutLine right.withoutLines
  | logical _ left operator right =>
    logical 0 left.withoutLines operator.withoutLine right.withoutLines
  | name _ token => name 0 token.withoutLine
  | assign _ target value => assign 0 target.withoutLine value.withoutLines
  | call _ callee paren arguments =>
    call 0 callee.withoutLines paren.withoutLine (eachWithoutLines arguments)

def eachWithoutLines : List Expr → List Expr
  | [] => []
  | tree :: rest => tree.withoutLines :: eachWithoutLines rest

end

end Expr

namespace Stmt

mutual

def withoutLines : Stmt → Stmt
  | block _ statements => block 0 (eachWithoutLines statements)
  | expression _ value => expression 0 value.withoutLines
  | print _ value => print 0 value.withoutLines
  | letBinding _ name initializer => letBinding 0 name.withoutLine initializer.withoutLines
  | ifThen _ condition thenBranch => ifThen 0 condition.withoutLines thenBranch.withoutLines
  | ifElse _ condition thenBranch elseBranch =>
    ifElse 0 condition.withoutLines thenBranch.withoutLines elseBranch.withoutLines
  | whileLoop _ condition body => whileLoop 0 condition.withoutLines body.withoutLines
  | function _ name params _ body =>
    function 0 name.withoutLine (params.map Token.withoutLine) 0 (eachWithoutLines body)

def eachWithoutLines : List Stmt → List Stmt
  | [] => []
  | tree :: rest => tree.withoutLines :: eachWithoutLines rest

end

theorem eachWithoutLines_eq_map (trees : List Stmt) :
    eachWithoutLines trees = trees.map withoutLines := by
  induction trees with
  | nil => rfl
  | cons tree rest ih => rw [eachWithoutLines, ih, List.map_cons]

end Stmt

end Lines

section Legibility

def Token.IsSpelled (token : Token) : Prop :=
  Lexeme token.kind token.literal token.lexeme.toList

def Token.IsName (token : Token) : Prop := token.kind = .identifier ∧ token.IsSpelled

/-- Literals whose texts are words of their own. -/
def Literal.Legible : Literal → Prop
  | .null | .bool _ => True
  | .number value => value.IsUnsigned
  | .string _ => False

/-- Expressions that the prefix form shows in full. A call is none, as its arguments are left out,
and a string may read like any other form. -/
inductive Expr.Legible : Expr → Prop
  | literal (line : Int) {value : Literal} (hv : value.Legible) : Legible (.literal line value)
  | grouping (line : Int) {inner : Expr} (h : Legible inner) : Legible (.grouping line inner)
  | unary (line : Int) {operator : Token} {right : Expr}
    (ho : operator.kind = .bang ∨ operator.kind = .minus) (hs : operator.IsSpelled)
    (h : Legible right) : Legible (.unary line operator right)
  | binary (line : Int) {left right : Expr} {operator : Token} (ho : 3 ≤ operator.kind.rank)
    (hs : operator.IsSpelled) (hl : Legible left) (hr : Legible right) :
    Legible (.binary line left operator right)
  | logical (line : Int) {left right : Expr} {operator : Token}
    (ho : operator.kind = .orWord ∨ operator.kind = .andWord) (hs : operator.IsSpelled)
    (hl : Legible left) (hr : Legible right) : Legible (.logical line left operator right)
  | name (line : Int) {token : Token} (hn : token.IsName) : Legible (.name line token)
  | assign (line : Int) {target : Token} {value : Expr} (hn : target.IsName) (h : Legible value) :
    Legible (.assign line target value)

/-- Statements that the prefix form shows in full. -/
inductive Stmt.Legible : Stmt → Prop
  | block (line : Int) {statements : List Stmt} (h : ∀ tree ∈ statements, Legible tree) :
    Legible (.block line statements)
  | expression (line : Int) {value : Expr} (hv : value.Legible) : Legible (.expression line value)
  | print (line : Int) {value : Expr} (hv : value.Legible) : Legible (.print line value)
  | letBinding (line : Int) {name : Token} {initializer : Expr} (hn : name.IsName)
    (hi : initializer.Legible) : Legible (.letBinding line name initializer)
  | ifThen (line : Int) {condition : Expr} {thenBranch : Stmt} (hc : condition.Legible)
    (ht : Legible thenBranch) : Legible (.ifThen line condition thenBranch)
  | ifElse (line : Int) {condition : Expr} {thenBranch elseBranch : Stmt} (hc : condition.Legible)
    (ht : Legible thenBranch) (he : Legible elseBranch) :
    Legible (.ifElse line condition thenBranch elseBranch)
  | whileLoop (line : Int) {condition : Expr} {body : Stmt} (hc : condition.Legible)
    (h : Legible body) : Legible (.whileLoop line condition body)
  | function (line : Int) {name : Token} {params : List Token} (bodyLine : Int) {body : List Stmt}
    (hn : name.IsName) (hp : ∀ param ∈ params, param.IsName) (h : ∀ tree ∈ body, Legible tree) :
    Legible (.function line name params bodyLine body)

end Legibility

section Words

variable {kind : TokenKind} {literal : Literal} {text : List Char}

theorem Lexeme.isWord (h : Lexeme kind literal text)
    (hk : kind ∉ [.leftParen, .rightParen, .equal, .number, .string]) : Form.IsWord text := by
  cases h with
  | mark h =>
    have hall : ∀ entry ∈ marks, entry.2 ∈ [.leftParen, .rightParen, .equal, .number, .string] ∨
        Form.IsWord entry.1 := by decide
    exact (hall _ h).resolve_left hk
  | whole | decimal | string => exact absurd (by decide) hk
  | reserved h =>
    have hall : ∀ entry ∈ words, Form.IsWord entry.1 := by decide
    exact hall _ h
  | @name c rest hc hrest =>
    -- neither an equals sign nor a delimiter goes on a name
    have hnone : ∀ d ∈ '=' :: Form.delimiters, (Segment.isWordRest d) = false := by decide
    have hletters : ∀ d ∈ c :: rest, Segment.isWordRest d = true :=
      List.forall_mem_cons.mpr ⟨Segment.isWordRest_iff.mpr (.inl hc),
        fun d hd => Segment.isWordRest_iff.mpr (hrest d hd)⟩
    refine ⟨List.cons_ne_nil _ _, fun heq => ?_, fun d hd hmem => ?_⟩
    · have hletter := hletters c List.mem_cons_self
      rw [(List.cons.inj heq).1] at hletter
      cases hletter
    · have hletter := hletters d hmem
      rw [hnone d (List.mem_cons_of_mem _ hd)] at hletter
      cases hletter

/-- Only numbers begin with a digit. -/
theorem Lexeme.not_isNumeral (h : Lexeme kind literal text) (hk : kind ≠ .number) :
    ¬ IsNumeral text := by
  rintro ⟨d, more, htext, hd, -⟩
  have hdigit : text.head?.any Char.isDigit = true := by
    rw [htext]
    exact hd
  cases h with
  | mark h =>
    have hall : ∀ entry ∈ marks, entry.1.head?.any Char.isDigit = false := by decide
    exact Bool.false_ne_true ((hall _ h).symm.trans hdigit)
  | whole | decimal => exact hk rfl
  | reserved h =>
    have hall : ∀ entry ∈ words, entry.1.head?.any Char.isDigit = false := by decide
    exact Bool.false_ne_true ((hall _ h).symm.trans hdigit)
  | name hc =>
    rw [(List.cons.inj htext).1] at hc
    exact Segment.not_digit_of_letter hc (Segment.isDigit_iff.mp hd)
  | string =>
    rw [← (List.cons.inj htext).1] at hd
    exact absurd hd (by decide)

/-- A literal is written with a reserved word that means it, or it is a number. -/
theorem Literal.Legible.cases (h : literal.Legible) :
    (∃ kind ∈ [.nullWord, .trueWord, .falseWord], Lexeme kind literal literal.text.toList) ∨
      ∃ value, literal = .number value ∧ value.IsUnsigned := by
  cases literal with
  | null => exact .inl ⟨.nullWord, by decide, Lexeme.reserved (by decide)⟩
  | bool value =>
    cases value with
    | true => exact .inl ⟨.trueWord, by decide, Lexeme.reserved (by decide)⟩
    | false => exact .inl ⟨.falseWord, by decide, Lexeme.reserved (by decide)⟩
  | number value => exact .inr ⟨value, rfl, h⟩
  | string => cases h

theorem Literal.Legible.isWord (h : literal.Legible) : Form.IsWord literal.text.toList := by
  obtain ⟨kind, hk, hs⟩ | ⟨value, rfl, hu⟩ := h.cases
  · have hall : ∀ kind ∈ [.nullWord, .trueWord, .falseWord],
        kind ∉ [.leftParen, .rightParen, .equal, .number, TokenKind.string] := by decide
    exact hs.isWord (hall kind hk)
  · exact (Literal.isNumeral_number hu).isWord

theorem Token.IsName.isWord {token : Token} (h : token.IsName) :
    Form.IsWord token.lexeme.toList := by
  obtain ⟨hk, hs⟩ := h
  refine Lexeme.isWord hs ?_
  rw [hk]
  decide

end Words

section Forms

def Expr.form : Expr → Form
  | literal _ value => .word value.text.toList
  | grouping _ inner => .list [.word "group".toList, inner.form]
  | unary _ operator right => .list [.word operator.lexeme.toList, right.form]
  | binary _ left operator right | logical _ left operator right =>
    .list [.word operator.lexeme.toList, left.form, right.form]
  | name _ token => .word token.lexeme.toList
  | assign _ target value => .equals target.lexeme.toList value.form
  | call _ callee _ _ => callee.form

namespace Stmt

def paramForm (param : Token) : Form := .word param.lexeme.toList

mutual

def form : Stmt → Form
  | block _ statements => .list (.word "block".toList :: forms statements)
  | expression _ value => .list [.word ";".toList, value.form]
  | print _ value => .list [.word "print".toList, value.form]
  | letBinding _ name initializer =>
    .list [.word "let".toList, .word name.lexeme.toList, initializer.form]
  | ifThen _ condition thenBranch =>
    .list [.word "if".toList, condition.form, thenBranch.form]
  | ifElse _ condition thenBranch elseBranch =>
    .list [.word "if".toList, condition.form, thenBranch.form, elseBranch.form]
  | whileLoop _ condition body => .list [.word "while".toList, condition.form, body.form]
  | function _ name params _ body =>
    .list (.word "fn".toList :: .word name.lexeme.toList :: .list (params.map paramForm) ::
      forms body)

def forms : List Stmt → List Form
  | [] => []
  | tree :: rest => tree.form :: forms rest

end

theorem forms_eq_map (trees : List Stmt) : forms trees = trees.map form := by
  induction trees with
  | nil => rfl
  | cons tree rest ih => rw [forms, ih, List.map_cons]

end Stmt

/-- The prefix form of an expression is the text of its form. -/
theorem Expr.toList_prefixForm : ∀ tree : Expr, tree.prefixForm.toList = tree.form.text
  | literal .. | name .. => rfl
  | grouping _ inner => Form.toList_parenthesize (by simp [inner.toList_prefixForm, Form.text])
  | unary _ _ right => Form.toList_parenthesize (by simp [right.toList_prefixForm, Form.text])
  | binary _ left _ right | logical _ left _ right => Form.toList_parenthesize (by
      simp [left.toList_prefixForm, right.toList_prefixForm, Form.text])
  | assign _ target value => by simp [prefixForm, form, Form.text, value.toList_prefixForm]
  | call _ callee _ _ => callee.toList_prefixForm

mutual

/-- The prefix form of a statement is the text of its form. -/
theorem Stmt.toList_prefixForm : ∀ tree : Stmt, tree.prefixForm.toList = tree.form.text
  | block _ statements => Form.toList_parenthesize (by
      simp [toList_prefixForms statements, Form.text])
  | expression _ value | print _ value => Form.toList_parenthesize (by
      simp [value.toList_prefixForm, Form.text])
  | letBinding _ _ initializer => Form.toList_parenthesize (by
      simp [initializer.toList_prefixForm, Form.text])
  | ifThen _ condition thenBranch => Form.toList_parenthesize (by
      simp [condition.toList_prefixForm, thenBranch.toList_prefixForm, Form.text])
  | ifElse _ condition thenBranch elseBranch => Form.toList_parenthesize (by
      simp [condition.toList_prefixForm, thenBranch.toList_prefixForm,
        elseBranch.toList_prefixForm, Form.text])
  | whileLoop _ condition body => Form.toList_parenthesize (by
      simp [condition.toList_prefixForm, body.toList_prefixForm, Form.text])
  | function _ _ params _ body => Form.toList_parenthesize (by
      have hparams : (parenthesize (params.map Token.lexeme)).toList =
          (Form.list (params.map paramForm)).text :=
        Form.toList_parenthesize (by simp [paramForm, Form.text, Function.comp_def])
      simp [hparams, toList_prefixForms body, Form.text])

theorem Stmt.toList_prefixForms : ∀ trees : List Stmt,
    (prefixForms trees).map String.toList = (forms trees).map Form.text
  | [] => rfl
  | tree :: rest => by
    rw [prefixForms, forms, List.map_cons, List.map_cons, tree.toList_prefixForm,
      toList_prefixForms rest]

end

end Forms

section Plainness

theorem Expr.Legible.plain {tree : Expr} (h : tree.Legible) : tree.form.Plain := by
  induction h with
  | literal line hv => exact .word hv.isWord
  | grouping line h ih => exact .headed (by decide) (by simpa using ih)
  | unary line ho hs h ih =>
    refine .headed (Lexeme.isWord hs ?_) (by simpa using ih)
    obtain ho | ho := ho <;> rw [ho] <;> decide
  | @binary line left right operator ho hs hl hr ihl ihr =>
    refine .headed (Lexeme.isWord hs ?_) (by simpa using ⟨ihl, ihr⟩)
    revert ho
    cases operator.kind <;> decide
  | logical line ho hs hl hr ihl ihr =>
    refine .headed (Lexeme.isWord hs ?_) (by simpa using ⟨ihl, ihr⟩)
    obtain ho | ho := ho <;> rw [ho] <;> decide
  | name line hn => exact .word hn.isWord
  | assign line hn h ih => exact .equals hn.isWord ih

theorem Stmt.Legible.plain {tree : Stmt} (h : tree.Legible) : tree.form.Plain := by
  induction h with
  | block line h ih =>
    refine .headed (by decide) ?_
    rw [forms_eq_map]
    exact List.forall_mem_map.mpr ih
  | expression line hv => exact .headed (by decide) (by simpa using hv.plain)
  | print line hv => exact .headed (by decide) (by simpa using hv.plain)
  | letBinding line hn hi =>
    exact .headed (by decide) (by simpa using ⟨.word hn.isWord, hi.plain⟩)
  | ifThen line hc ht iht => exact .headed (by decide) (by simpa using ⟨hc.plain, iht⟩)
  | ifElse line hc ht he iht ihe =>
    exact .headed (by decide) (by simpa using ⟨hc.plain, iht, ihe⟩)
  | whileLoop line hc h ih => exact .headed (by decide) (by simpa using ⟨hc.plain, ih⟩)
  | function line bodyLine hn hp h ih =>
    refine .headed (by decide) (List.forall_mem_cons.mpr ⟨.word hn.isWord, ?_⟩)
    refine List.forall_mem_cons.mpr ⟨.list ?_, ?_⟩
    · exact List.forall_mem_map.mpr fun param hmem => .word (hp param hmem).isWord
    · rw [forms_eq_map]
      exact List.forall_mem_map.mpr ih

end Plainness

end ScriptLang

import ScriptLang.Syntax.Grammar

namespace ScriptLang.Grammar

/-- What has a production of its own. -/
inductive Symbol where
  | program | declaration | fnDecl | parameters | letDecl | statement | exprStmt | printStmt
  | ifStmt | whileStmt | block | expression | assignment | logicOr | logicAnd | equality
  | comparison | term | factor | unary | call | arguments | primary

/-- Right sides of productions. -/
inductive Ebnf where
  | token (kind : TokenKind)
  | symbol (name : Symbol)
  | seq (first second : Ebnf)
  | alt (first second : Ebnf)
  | opt (item : Ebnf)
  | upTo (bound : Nat) (item : Ebnf)
  | many (item : Ebnf)

namespace Ebnf

def sequence (first : Ebnf) : List Ebnf → Ebnf
  | [] => first
  | second :: rest => seq first (sequence second rest)

def choice (first : Ebnf) : List Ebnf → Ebnf
  | [] => first
  | second :: rest => alt first (choice second rest)

def operands (operand : Symbol) (operator : Ebnf) : Ebnf :=
  seq (symbol operand) (many (seq operator (symbol operand)))

/-- A list of at most 255 items with commas between them. -/
def list (item : Ebnf) : Ebnf := seq item (upTo 254 (seq (token .comma) item))

def unboundedList (item : Ebnf) : Ebnf := seq item (many (seq (token .comma) item))

end Ebnf

open Ebnf in
/-- The production of a symbol. -/
def production : Symbol → Ebnf
  | .program => seq (many (symbol .declaration)) (token .eof)
  | .declaration => choice (symbol .fnDecl) [symbol .letDecl, symbol .statement]
  | .fnDecl => sequence (token .fnWord) [token .identifier, token .leftParen,
      opt (symbol .parameters), token .rightParen, symbol .block]
  | .parameters => list (token .identifier)
  | .letDecl => sequence (token .letWord) [token .identifier, token .equal, symbol .expression,
      token .semicolon]
  | .statement => choice (symbol .exprStmt) [symbol .printStmt, symbol .ifStmt, symbol .whileStmt,
      symbol .block]
  | .exprStmt => seq (symbol .expression) (token .semicolon)
  | .printStmt => sequence (token .printWord) [symbol .expression, token .semicolon]
  | .ifStmt => sequence (token .ifWord) [token .leftParen, symbol .expression, token .rightParen,
      symbol .statement, opt (seq (token .elseWord) (symbol .statement))]
  | .whileStmt => sequence (token .whileWord) [token .leftParen, symbol .expression,
      token .rightParen, symbol .statement]
  | .block => sequence (token .leftBrace) [many (symbol .declaration), token .rightBrace]
  | .expression => symbol .assignment
  | .assignment => alt (sequence (token .identifier) [token .equal, symbol .assignment])
      (symbol .logicOr)
  | .logicOr => operands .logicAnd (token .orWord)
  | .logicAnd => operands .equality (token .andWord)
  | .equality => operands .comparison (choice (token .bangEqual) [token .equalEqual])
  | .comparison => operands .term (choice (token .greater) [token .greaterEqual, token .less,
      token .lessEqual])
  | .term => operands .factor (choice (token .minus) [token .plus])
  | .factor => operands .unary (choice (token .slash) [token .star, token .percent])
  | .unary => alt (seq (choice (token .bang) [token .minus]) (symbol .unary)) (symbol .call)
  | .call => seq (symbol .primary) (many (sequence (token .leftParen) [opt (symbol .arguments),
      token .rightParen]))
  | .arguments => list (symbol .expression)
  | .primary => choice (token .number) [token .string, token .trueWord, token .falseWord,
      token .nullWord, sequence (token .leftParen) [symbol .expression, token .rightParen],
      token .identifier]

section Productions

variable (productions : Symbol → Ebnf)

/-- The sentences of a right side, where the symbols have these productions. -/
inductive Derives : Ebnf → List TokenKind → Prop
  | token (kind : TokenKind) : Derives (.token kind) [kind]
  | symbol {name word} (h : Derives (productions name) word) : Derives (.symbol name) word
  | seq {first second word word'} (h : Derives first word) (h' : Derives second word') :
    Derives (.seq first second) (word ++ word')
  | left {first second word} (h : Derives first word) : Derives (.alt first second) word
  | right {first second word} (h : Derives second word) : Derives (.alt first second) word
  | absent (item : Ebnf) : Derives (.opt item) []
  | present {item word} (h : Derives item word) : Derives (.opt item) word
  | last (bound : Nat) (item : Ebnf) : Derives (.upTo bound item) []
  | next {bound item word word'} (h : Derives item word) (h' : Derives (.upTo bound item) word') :
    Derives (.upTo (bound + 1) item) (word ++ word')
  | many {bound item word} (h : Derives (.upTo bound item) word) : Derives (.many item) word

/-- The sentences of a right side of the language. -/
abbrev Matches : Ebnf → List TokenKind → Prop := Derives production

open Ebnf in
def unboundedProduction : Symbol → Ebnf
  | .parameters => unboundedList (token .identifier)
  | .arguments => unboundedList (symbol .expression)
  | name => production name

end Productions

section Meanings

/-- At most so many runs of tokens one after the other, each with a property that may depend on the
index of its first token. -/
inductive Repeats (p : Nat → List Token → Prop) : Nat → Nat → List Token → Prop
  | last (bound start : Nat) : Repeats p bound start []
  | next {bound start ts us} (h : p start ts) (h' : Repeats p bound (start + ts.length) us) :
    Repeats p (bound + 1) start (ts ++ us)

variable (meaning : Symbol → Nat → List Token → Prop)

/-- A reading of right sides on tokens, given one of symbols. -/
def Ebnf.Means : Ebnf → Nat → List Token → Prop
  | token kind, _, ts => ∃ token, ts = [token] ∧ token.kind = kind
  | symbol name, start, ts => meaning name start ts
  | seq first second, start, ts =>
    ∃ us vs, ts = us ++ vs ∧ first.Means start us ∧ second.Means (start + us.length) vs
  | alt first second, start, ts => first.Means start ts ∨ second.Means start ts
  | opt item, start, ts => ts = [] ∨ item.Means start ts
  | upTo bound item, start, ts => Repeats item.Means bound start ts
  | many item, start, ts => ∃ bound, Repeats item.Means bound start ts

/-- A reading of symbols that all productions bear out holds of all sentences. -/
theorem Derives.means {productions : Symbol → Ebnf} (hproduction : ∀ name start ts,
      (productions name).Means meaning start ts → meaning name start ts)
    {item : Ebnf} {word : List TokenKind} (h : Derives productions item word) (start : Nat)
    (ts : List Token) (hts : ts.map Token.kind = word) : item.Means meaning start ts := by
  induction h generalizing start ts with
  | token kind =>
    obtain ⟨token, rfl, hk⟩ := List.map_eq_singleton_iff.mp hts
    exact ⟨token, rfl, hk⟩
  | symbol _ ih => exact hproduction _ start ts (ih start ts hts)
  | seq _ _ ih ih' =>
    obtain ⟨us, vs, rfl, hus, hvs⟩ := List.map_eq_append_iff.mp hts
    exact ⟨us, vs, rfl, ih start us hus, ih' _ vs hvs⟩
  | left _ ih => exact .inl (ih start ts hts)
  | right _ ih => exact .inr (ih start ts hts)
  | absent => exact .inl (List.map_eq_nil_iff.mp hts)
  | present _ ih => exact .inr (ih start ts hts)
  | last bound item =>
    obtain rfl := List.map_eq_nil_iff.mp hts
    exact .last bound start
  | next _ _ ih ih' =>
    obtain ⟨us, vs, rfl, hus, hvs⟩ := List.map_eq_append_iff.mp hts
    exact .next (ih start us hus) (ih' _ vs hvs)
  | many _ ih => exact ⟨_, ih start ts hts⟩

end Meanings

end ScriptLang.Grammar

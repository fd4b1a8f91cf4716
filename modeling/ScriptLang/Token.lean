import ScriptLang.Literal
import ScriptLang.Text.Blank

namespace ScriptLang

inductive TokenKind where
  | leftParen | rightParen | leftBrace | rightBrace | comma | dot | minus | plus | semicolon
  | slash | star | percent
  | bang | bangEqual | equal | equalEqual | greater | greaterEqual | less | lessEqual
  | identifier | string | number
  | andWord | elseWord | falseWord | fnWord | ifWord | letWord | nullWord | orWord | printWord
  | trueWord | whileWord
  | eof
  deriving DecidableEq, Inhabited

namespace TokenKind

def name : TokenKind → String
  | leftParen => "LEFT_PAREN"
  | rightParen => "RIGHT_PAREN"
  | leftBrace => "LEFT_BRACE"
  | rightBrace => "RIGHT_BRACE"
  | comma => "COMMA"
  | dot => "DOT"
  | minus => "MINUS"
  | plus => "PLUS"
  | semicolon => "SEMICOLON"
  | slash => "SLASH"
  | star => "STAR"
  | percent => "PERCENT"
  | bang => "BANG"
  | bangEqual => "BANG_EQUAL"
  | equal => "EQUAL"
  | equalEqual => "EQUAL_EQUAL"
  | greater => "GREATER"
  | greaterEqual => "GREATER_EQUAL"
  | less => "LESS"
  | lessEqual => "LESS_EQUAL"
  | identifier => "IDENTIFIER"
  | string => "STRING"
  | number => "NUMBER"
  | andWord => "AND"
  | elseWord => "ELSE"
  | falseWord => "FALSE"
  | fnWord => "FN"
  | ifWord => "IF"
  | letWord => "LET"
  | nullWord => "NULL"
  | orWord => "OR"
  | printWord => "PRINT"
  | trueWord => "TRUE"
  | whileWord => "WHILE"
  | eof => "EOF"

def all : List TokenKind :=
  [leftParen, rightParen, leftBrace, rightBrace, comma, dot, minus, plus, semicolon, slash, star,
   percent, bang, bangEqual, equal, equalEqual, greater, greaterEqual, less, lessEqual,
   identifier, string, number, andWord, elseWord, falseWord, fnWord, ifWord, letWord, nullWord,
   orWord, printWord, trueWord, whileWord, eof]

theorem mem_all (kind : TokenKind) : kind ∈ all := by
  cases kind <;> decide

def ofName? (name : String) : Option TokenKind :=
  all.find? fun kind => kind.name = name

/-- Punctuation that is always a whole token; a slash is missing since it may open a comment. -/
def ofPunctuation? : Char → Option TokenKind
  | '(' => some leftParen
  | ')' => some rightParen
  | '{' => some leftBrace
  | '}' => some rightBrace
  | ',' => some comma
  | '.' => some dot
  | '-' => some minus
  | '+' => some plus
  | ';' => some semicolon
  | '*' => some star
  | '%' => some percent
  | _ => none

/-- For the first character of an operator, its kind alone and its kind before an equals sign. -/
def ofOperatorStart? : Char → Option (TokenKind × TokenKind)
  | '!' => some (bang, bangEqual)
  | '=' => some (equal, equalEqual)
  | '<' => some (less, lessEqual)
  | '>' => some (greater, greaterEqual)
  | _ => none

def reserved : List (List Char × TokenKind) :=
  [(['a', 'n', 'd'], andWord), (['e', 'l', 's', 'e'], elseWord),
   (['f', 'a', 'l', 's', 'e'], falseWord), (['f', 'n'], fnWord), (['i', 'f'], ifWord),
   (['l', 'e', 't'], letWord), (['n', 'u', 'l', 'l'], nullWord), (['o', 'r'], orWord),
   (['p', 'r', 'i', 'n', 't'], printWord), (['t', 'r', 'u', 'e'], trueWord),
   (['w', 'h', 'i', 'l', 'e'], whileWord)]

def ofWord (word : List Char) : TokenKind :=
  (reserved.lookup word).getD identifier

def wordLiteral : TokenKind → Literal
  | trueWord => .bool true
  | falseWord => .bool false
  | _ => .null

def startsStatement (kind : TokenKind) : Bool :=
  kind ∈ [fnWord, letWord, ifWord, whileWord, printWord, leftBrace]

def description : TokenKind → String
  | leftParen => "'('"
  | rightParen => "')'"
  | leftBrace => "'\x7b'"
  | rightBrace => "'\x7d'"
  | comma => "','"
  | semicolon => "';'"
  | equal => "'='"
  | identifier => "a name"
  | eof => "end of input"
  | kind => kind.name

end TokenKind

/-- A lexical unit, with the source line on which it ends. -/
structure Token where
  kind : TokenKind
  lexeme : String
  literal : Literal
  line : Int
  deriving DecidableEq, Inhabited

namespace Token

def isEof (token : Token) : Bool := token.kind = .eof

def endMark (line : Int) : Token := ⟨.eof, "", .null, line⟩

def describe (token : Token) : String :=
  match token.literal.shown? with
  | none => Text.dropBlanksRight (token.kind.name ++ " " ++ token.lexeme)
  | some literal => token.kind.name ++ " " ++ token.lexeme ++ " " ++ literal

end Token

end ScriptLang

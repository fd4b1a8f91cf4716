import ScriptLang.Source.Scan
import ScriptLang.Syntax.Grammar

namespace ScriptLang

def parse (tokens : List Token) : Reading (List Stmt) := Grammar.program (Cursor.start tokens)

def parseExpression (tokens : List Token) : Reading Expr :=
  Grammar.wholeExpression (Cursor.start tokens)

/-- A token list that is being parsed: where reading stands, and the errors recorded so far. -/
structure Parser where
  cursor : Cursor
  errors : List SyntaxError

namespace Parser

def start (tokens : List Token) : Parser := ⟨Cursor.start tokens, []⟩

def run {α : Type} (parser : Parser) (rule : Rule α) : Ending α × Parser :=
  let reading := rule parser.cursor
  (reading.ending, ⟨reading.cursor, parser.errors ++ reading.recorded⟩)

end Parser

end ScriptLang

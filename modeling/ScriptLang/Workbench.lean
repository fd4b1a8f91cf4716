import ScriptLang.Syntax.Parse

namespace ScriptLang

structure Workbench where
  report : List Diagnostic
  tokens : List Token
  scan? : Option (Scan × Bool)
  parser? : Option (Parser × Bool)

namespace Workbench

def empty : Workbench := ⟨[], [], none, none⟩

def add (bench : Workbench) (shared : Bool) (errors : List Diagnostic) : Workbench :=
  if shared then { bench with report := bench.report ++ errors } else bench

def lex (bench : Workbench) (source : String) : Workbench :=
  let scan := scan source
  { bench with tokens := scan.tokens }.add true (scan.errors.map LexicalError.diagnostic)

def setTokens (bench : Workbench) (tokens : List Token) : Workbench := { bench with tokens }

def openScan (bench : Workbench) (source : String) (shared : Bool) : Workbench :=
  { bench with scan? := some (Scan.start source, shared) }

def finishScan (bench : Workbench) (scan : Scan) (shared : Bool) : Scan × Workbench :=
  let finished := scan.finish
  let found := finished.errors.drop scan.errors.length
  (finished,
    { bench with tokens := finished.tokens, scan? := some (finished, shared) }.add shared
      (found.map LexicalError.diagnostic))

def openParser (bench : Workbench) (shared : Bool) : Workbench :=
  { bench with parser? := some (Parser.start bench.tokens, shared) }

def runRule {α : Type} (bench : Workbench) (parser : Parser) (shared : Bool) (rule : Rule α) :
    Ending α × Parser × Workbench :=
  let (ending, after) := parser.run rule
  let found := after.errors.drop parser.errors.length
  (ending, after,
    { bench with parser? := some (after, shared) }.add shared (found.map SyntaxError.diagnostic))

/-- How many errors stand where a scan or a parser sends its own, of which it has so many. -/
def reported (bench : Workbench) (shared : Bool) (own : Nat) : Nat :=
  if shared then bench.report.length else own

end Workbench

end ScriptLang

import ScriptLang.Artifact
import ScriptLang.FrontEnd.Path
import ScriptLang.Syntax.Parse

namespace ScriptLang

inductive Stage where
  | tokens
  | ast
  deriving DecidableEq

namespace Stage

def name : Stage → String
  | tokens => "tokens"
  | ast => "ast"

def ofName? : String → Option Stage
  | "tokens" => some tokens
  | "ast" => some ast
  | _ => none

end Stage

/-- What a front end is asked to do; a source without a path comes from the standard input. -/
structure Order where
  source : String
  path : Option Path
  dump : List Stage
  stopAfterTokens : Bool

namespace Order

/-- The order for a source, the name of its file, and the names of the stages that are saved and of
the one that is the last. A name of no stage asks for nothing. -/
def ofNames (directory source : String) (file : Option String) (dump : List String)
    (last : Option String) : Order where
  source := source
  path := Path.ofName? directory file
  dump := dump.filterMap Stage.ofName?
  stopAfterTokens := last.bind Stage.ofName? = some .tokens

def label (order : Order) : String :=
  match order.path with
  | some path => path.text
  | none => "<stdin>"

def savePath (order : Order) (stage : Stage) : String :=
  let base := match order.path with
    | some path => path.dropExtension.text
    | none => "stdin_output"
  base ++ "." ++ stage.name ++ ".json"

end Order

structure Failure where
  label : String
  errors : List Diagnostic

namespace Failure

def diagnostic (failure : Failure) : Diagnostic where
  origin := .general
  code := .frontEndFailed
  line := none
  place := ""
  details :=
    [("count", .integer failure.errors.length), ("file_path", .text failure.label)]

def message (failure : Failure) : String :=
  "\n".intercalate (failure.diagnostic.message :: failure.errors.map Diagnostic.message)

end Failure

/-- What a run of the front end leaves behind. -/
structure FrontEndRun where
  order : Order
  scan : Scan
  parsed : Option (Reading (List Stmt))

/-- Runs the stages that are asked for. -/
def Order.run (order : Order) : FrontEndRun :=
  -- errors of scanning do not keep the tokens from being parsed
  let scan := scan order.source
  { order, scan, parsed := if order.stopAfterTokens then none else some (parse scan.tokens) }

namespace FrontEndRun

/-- The statements that were read; the tokens of a scan never run out. -/
def statements (reading : Reading (List Stmt)) : List Stmt :=
  match reading.ending with
  | .done statements => statements
  | .stopped _ | .ranOut => []

def artifacts (run : FrontEndRun) : List (Stage × Artifact) :=
  (.tokens, .tokens run.scan.tokens) ::
    match run.parsed with
    | some reading => [(.ast, .ast (statements reading))]
    | none => []

def dumped (run : FrontEndRun) : List (Stage × Artifact) :=
  run.artifacts.filter fun (stage, _) => run.order.dump.contains stage

def saved (run : FrontEndRun) : List (String × String) :=
  run.dumped.map fun (stage, artifact) =>
    (run.order.savePath stage, artifact.toJson.render (some 2))

def printed (run : FrontEndRun) : String :=
  String.join <| run.dumped.map fun (stage, _) =>
    "--- Saving artifact '" ++ stage.name ++ "' to " ++ run.order.savePath stage ++ " ---\n"

def lexicalErrors (run : FrontEndRun) : List Diagnostic :=
  run.scan.errors.map LexicalError.diagnostic

def syntaxErrors (run : FrontEndRun) : List Diagnostic :=
  match run.parsed with
  | some reading => reading.recorded.map SyntaxError.diagnostic
  | none => []

def errors (run : FrontEndRun) : List Diagnostic := run.lexicalErrors ++ run.syntaxErrors

def final (run : FrontEndRun) : Artifact :=
  match run.parsed with
  | some reading => .ast (statements reading)
  | none => .tokens run.scan.tokens

/-- The artifact of the last stage, unless an error was found in any. -/
def result (run : FrontEndRun) : Except Failure Artifact :=
  if run.errors.isEmpty then .ok run.final else .error ⟨run.order.label, run.errors⟩

def log (run : FrontEndRun) : List String :=
  let lexer (text : String) := "splax.lexer.core.lexer: " ++ text
  let parser (text : String) := "splax.parser.core.parser: " ++ text
  let reported (error : Diagnostic) := "splax.error_reporter: Reported: " ++ error.message
  let finished (stage : Stage) := "splax.pipeline: Stage '" ++ stage.name ++ "' finished."
  let scanned := toString run.scan.tokens.length
  let scanning :=
    [lexer ("Scanning " ++ toString run.order.source.length ++ " characters.")] ++
      run.lexicalErrors.map reported ++ [lexer ("Scanned " ++ scanned ++ " tokens.")] ++
      [finished .tokens]
  match run.parsed with
  | none => scanning
  | some reading =>
    let counts := toString (statements reading).length ++ " top-level statements with " ++
      toString reading.recorded.length ++ " error(s)."
    scanning ++ [parser ("Parsing " ++ scanned ++ " tokens.")] ++
      run.syntaxErrors.flatMap (fun error =>
        [parser ("Syntax error: " ++ error.message), reported error]) ++
      [parser ("Parsed " ++ counts), finished .ast]

end FrontEndRun

end ScriptLang

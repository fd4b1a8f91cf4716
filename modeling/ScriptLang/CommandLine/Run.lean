import ScriptLang.CommandLine.Options
import ScriptLang.CommandLine.Usage
import ScriptLang.Syntax.Prefix
import ScriptLang.Text.Lines
import ScriptLang.Text.Utf8

namespace ScriptLang

/-- What the program finds around it: the working directory, the bytes of the files by absolute
path, and the standard input, which may be a terminal. -/
structure Surroundings where
  directory : String
  file? : String → Option (List UInt8)
  input : List UInt8
  terminal : Bool

/-- What a run of the program comes to. A timed run ends its output with the time it took. -/
structure Outcome where
  exitCode : Nat
  printed : String
  complaints : String
  saved : List (String × String)
  timed : Bool

def coloured (colour : Nat) (text : String) : String :=
  "\x1b[" ++ toString colour ++ "m" ++ text ++ "\x1b[0m"

def red : Nat := 91

def green : Nat := 92

def cyan : Nat := 96

namespace Outcome

def output (outcome : Outcome) (seconds : String) : String :=
  if outcome.timed then
    outcome.printed ++ "\n" ++
      coloured cyan ("--- Total Execution Time: " ++ seconds ++ " seconds ---") ++ "\n"
  else outcome.printed

end Outcome

namespace Text.Utf8Reason

def words : Utf8Reason → String
  | invalidStart => "invalid start byte"
  | invalidContinuation => "invalid continuation byte"
  | unexpectedEnd => "unexpected end of data"

end Text.Utf8Reason

namespace Text.Utf8Fault

def message (fault : Utf8Fault) : String :=
  let place := match fault.bytes with
    | [byte] =>
      "byte 0x" ++ String.ofList (paddedHex 2 byte) ++ " in position " ++ toString fault.position
    | bytes =>
      "bytes in position " ++ toString fault.position ++ "-" ++
        toString (fault.position + bytes.length - 1)
  "'utf-8' codec can't decode " ++ place ++ ": " ++ fault.reason.words

end Text.Utf8Fault

namespace Options

def displayName (options : Options) : String := (Path.nonempty? options.inputFile).getD "stdin"

def path (options : Options) (directory : String) : Option Path :=
  Path.ofName? directory options.inputFile

def script? (options : Options) (around : Surroundings) : Option (List UInt8) :=
  match options.path around.directory with
  | none => some around.input
  | some path => around.file? path.text

def order (options : Options) (around : Surroundings) (source : List Char) : Order where
  source := String.ofList source
  path := options.path around.directory
  dump := options.stage.toList
  stopAfterTokens := options.stage = some .tokens

def greeting (options : Options) : String := "--- Parsing " ++ options.displayName ++ " ---\n"

def success (options : Options) : String :=
  let text := match options.stage with
    | none => "--- Parsing Successful ---"
    | some .tokens => "--- Stage '1 (Token Stream)' successful ---"
    | some .ast => "--- Stage '2 (Abstract Syntax Tree)' successful ---"
  "\n" ++ coloured green text ++ "\n"

variable [Host]

def tree (options : Options) (artifact : Artifact) : Except Diagnostic String :=
  match artifact with
  | .ast statements =>
    if options.printTree then (· ++ "\n") <$> Node.printAll (statements.map Node.stmt) else .ok ""
  | .tokens _ => .ok ""

def failed (options : Options) (run : FrontEndRun) (log message : String) : Outcome where
  exitCode := 1
  printed := options.greeting ++ run.printed
  complaints := log ++ "\n" ++ coloured red ("--- FRONT-END ERROR ---\n" ++ message) ++ "\n"
  saved := run.saved
  timed := true

/-- Runs the front end on a script that could be read. -/
def runOn (options : Options) (around : Surroundings) (source : List Char) : Outcome :=
  let run := (options.order around source).run
  let log := if options.verbose then String.join (run.log.map (· ++ "\n")) else ""
  match run.result with
  | .error failure => options.failed run log failure.message
  | .ok artifact =>
    match options.tree artifact with
    | .error diagnostic => options.failed run log diagnostic.message
    | .ok tree =>
      { exitCode := 0
        printed := options.greeting ++ run.printed ++ tree ++ options.success
        complaints := log
        saved := run.saved
        timed := true }

/-- The text of a script as it is read. Every line end in a file reads as a newline, and so does one
on the standard input if the host has it so. -/
def received (options : Options) (around : Surroundings) (text : List Char) : List Char :=
  if (options.path around.directory).isSome || Host.unifiesInput then Text.unifyLineEnds text
  else text

def unread (options : Options) (complaints : String) : Outcome :=
  ⟨1, options.greeting, complaints, [], true⟩

/-- Reads the script and runs the front end on it. -/
def run (options : Options) (around : Surroundings) : Outcome :=
  match options.script? around with
  | none =>
    options.unread
      (coloured red ("ERROR: Script file '" ++ options.displayName ++ "' not found.") ++ "\n")
  | some bytes =>
    match Text.decodeUtf8 bytes with
    | .error fault =>
      options.unread
        ("\n" ++ coloured red "--- UNEXPECTED FRONT-END ERROR ---" ++ "\n" ++
          "This may be a bug in the front-end. Please report it.\n" ++
          "UnicodeDecodeError: " ++ fault.message ++ "\n")
    | .ok source => options.runOn around (options.received around source)

end Options

def misused (cause : Misuse) : Outcome := ⟨2, "", Usage.error cause.message, [], false⟩

def runCommandLine [Host] (arguments : List String) (around : Surroundings) : Outcome :=
  match Options.read arguments with
  | .error .help => ⟨0, Usage.help, "", [], false⟩
  | .error (.misuse cause) => misused cause
  | .ok options =>
    if (options.path around.directory).isNone && around.terminal then
      misused .noScript
    else options.run around

end ScriptLang

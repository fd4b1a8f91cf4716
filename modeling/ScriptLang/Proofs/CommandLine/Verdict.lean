import ScriptLang.CommandLine.Run
import ScriptLang.Proofs.FrontEnd.Errors
import ScriptLang.Proofs.Prefix.Printing
import ScriptLang.Proofs.Text.Utf8

namespace ScriptLang

namespace Options

section Reading

def words (file : Option String) (stage : Option Stage) (printTree : Bool) : List String :=
  (match stage with
    | none => []
    | some .tokens => ["-c", "1"]
    | some .ast => ["-c", "2"]) ++
  (if printTree then ["--print-ast"] else []) ++
  match file with
  | none => []
  | some name => ["--", name]

end Reading

end Options

def Stage.artifact (tokens : List Token) (trees : List Stmt) : Stage → Artifact
  | .tokens => .tokens tokens
  | .ast => .ast trees

namespace Options

section Running

variable (options : Options) (around : Surroundings) (source : List Char)

variable {options around source}

variable [Host]

end Running

end Options

end ScriptLang

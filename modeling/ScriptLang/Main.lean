import ScriptLang.CommandLine.Run

namespace ScriptLang

def secondsText (nanoseconds : Nat) : String :=
  let tenThousandths := (nanoseconds + 50000) / 100000
  let fraction := toString (tenThousandths % 10000)
  toString (tenThousandths / 10000) ++ "." ++
    String.ofList (List.replicate (4 - fraction.length) '0') ++ fraction

def readFile? (path : String) : IO (Option (List UInt8)) := do
  try
    return some (← IO.FS.readBinFile path).toList
  catch _ => return none

def lookAround (arguments : List String) : IO Surroundings := do
  let directory := (← IO.currentDir).toString
  let stdin ← IO.getStdin
  let terminal ← stdin.isTty
  match Options.read arguments with
  | .error _ => return ⟨directory, fun _ => none, [], terminal⟩
  | .ok options =>
    match options.path directory with
    | some path =>
      let bytes ← readFile? path.text
      return ⟨directory, fun _ => bytes, [], terminal⟩
    | none =>
      let input ← if terminal then pure [] else do pure (← stdin.readBinToEnd).toList
      return ⟨directory, fun _ => none, input, terminal⟩

def runProgram (arguments : List String) : IO UInt32 := do
  let started ← IO.monoNanosNow
  let outcome := @runCommandLine (Host.standard false) arguments (← lookAround arguments)
  for (path, text) in outcome.saved do
    IO.FS.writeFile path text
  let finished ← IO.monoNanosNow
  IO.print (outcome.output (secondsText (finished - started)))
  IO.eprint outcome.complaints
  return UInt32.ofNat outcome.exitCode

end ScriptLang

def main (arguments : List String) : IO UInt32 := ScriptLang.runProgram arguments

import ScriptLang.FrontEnd.Run
import ScriptLang.Text.DecimalDigit
import ScriptLang.Text.Quoted

namespace ScriptLang

/-- What a command line asks for. -/
structure Options where
  inputFile : Option String
  stage : Option Stage
  printTree : Bool
  verbose : Bool

inductive Switch where
  | help
  | compile
  | printTree
  | verbose
  deriving DecidableEq

namespace Switch

def names : List (String × Switch) :=
  [("-h", help), ("--help", help), ("-c", compile), ("--compile", compile),
   ("--print-ast", printTree), ("-v", verbose), ("--verbose", verbose)]

def ofName? (name : String) : Option Switch := names.lookup name

def title (switch : Switch) : String :=
  "/".intercalate ((names.filter fun entry => entry.2 = switch).map Prod.fst)

def takesValue (switch : Switch) : Bool := switch = compile

end Switch

def numberedStages : List (String × Stage) := [("1", .tokens), ("2", .ast)]

inductive Misuse where
  | missingValue (switch : Switch)
  | unwantedValue (switch : Switch) (value : List Char)
  | unknownStage (value : String)
  | ambiguous (word : String) (names : List String)
  | unrecognized (words : List String)
  | noScript
  deriving DecidableEq

namespace Misuse

def aboutSwitch (switch : Switch) (text : String) : String :=
  "argument " ++ switch.title ++ ": " ++ text

def message : Misuse → String
  | missingValue switch => aboutSwitch switch "expected one argument"
  | unwantedValue switch value =>
    aboutSwitch switch ("ignored explicit argument " ++ Text.quoted (String.ofList value))
  | unknownStage value =>
    let choices := ", ".intercalate (numberedStages.map fun entry => Text.quoted entry.1)
    aboutSwitch .compile
      ("invalid choice: " ++ Text.quoted value ++ " (choose from " ++ choices ++ ")")
  | ambiguous word names =>
    "ambiguous option: " ++ word ++ " could match " ++ ", ".intercalate names
  | unrecognized words => "unrecognized arguments: " ++ " ".intercalate words
  | noScript => "input_file is required when not reading from a pipe."

end Misuse

/-- Why nothing is run: help is asked for, or the command line is misused. -/
inductive Refusal where
  | help
  | misuse (cause : Misuse)
  deriving DecidableEq

/-- The stage that a value asks for. The mark as a value takes back what was asked for before. -/
def stageOfValue (value : String) : Except Refusal (Option Stage) :=
  if value = "--" then .ok none
  else
    match numberedStages.lookup value with
    | some stage => .ok (some stage)
    | none => .error (.misuse (.unknownStage value))

/-- A word of the command line: an argument, the mark behind which all are arguments, a switch with
what else stands in its word, or something that looks like a switch and is none. An equals sign
right behind the switch is no part of what is attached. -/
inductive Word where
  | argument
  | mark
  | option (switch : Switch) (long : Bool) (attached : Option (List Char))
  | unknown

namespace Word

/-- A dash and digits with at most one point among them, the last of them behind it. -/
def isNegativeNumber (word : List Char) : Bool :=
  match word with
  | '-' :: rest =>
    -- a newline at the very end does not count
    let rest := if rest.getLast? = some '\n' then rest.dropLast else rest
    let whole := rest.takeWhile Text.isDecimalDigit
    match rest.dropWhile Text.isDecimalDigit with
    | [] => !whole.isEmpty
    | '.' :: fraction => !fraction.isEmpty && fraction.all Text.isDecimalDigit
    | _ => false
  | _ => false

def splitEquals (word : List Char) : List Char × Option (List Char) :=
  let name := word.takeWhile (· ≠ '=')
  match word.dropWhile (· ≠ '=') with
  | [] => (name, none)
  | _ :: value => (name, some value)

def isLong (name : String) : Bool := name.toList.take 2 = ['-', '-']

/-- The switches that a word which is no exact name may stand for. -/
def candidates (word : List Char) : List (String × Word) :=
  if word.take 2 = ['-', '-'] then
    let (start, value) := splitEquals word
    (Switch.names.filter fun entry => start.isPrefixOf entry.1.toList).map fun (name, switch) =>
      (name, .option switch true value)
  else
    (Switch.names.filter fun entry => entry.1.toList = word.take 2).map fun (name, switch) =>
      (name, .option switch false (some (word.drop 2)))

def read (text : String) : Except Refusal Word :=
  let word := text.toList
  let (name, value) := splitEquals word
  match word, Switch.ofName? text, Switch.ofName? (String.ofList name), value with
  | '-' :: _ :: _, some switch, _, _ => .ok (.option switch (isLong text) none)
  | '-' :: _ :: _, none, some switch, some value =>
    .ok (.option switch (isLong text) (some value))
  | '-' :: _ :: _, none, _, _ =>
    match candidates word with
    | [] => .ok (if isNegativeNumber word || word.contains ' ' then .argument else .unknown)
    | [(_, word)] => .ok word
    | several => .error (.misuse (.ambiguous text (several.map Prod.fst)))
  | _, _, _, _ => .ok .argument

def readAll : List String → Except Refusal (List (String × Word))
  | [] => .ok []
  | "--" :: rest => .ok (("--", .mark) :: rest.map fun text => (text, .argument))
  | text :: rest => do
    let word ← read text
    return (text, word) :: (← readAll rest)

end Word

structure OptionsSoFar where
  options : Options
  fileSettled : Bool
  unrecognized : List String

namespace OptionsSoFar

def start : OptionsSoFar := ⟨⟨none, none, false, false⟩, false, []⟩

def addUnrecognized (sofar : OptionsSoFar) (text : String) : OptionsSoFar :=
  { sofar with unrecognized := text :: sofar.unrecognized }

def settleFile (sofar : OptionsSoFar) (file : Option String) : OptionsSoFar :=
  { sofar with options := { sofar.options with inputFile := file }, fileSettled := true }

def apply (sofar : OptionsSoFar) (switch : Switch) (value : String) :
    Except Refusal OptionsSoFar :=
  match switch with
  | .help => .error .help
  | .printTree => .ok { sofar with options := { sofar.options with printTree := true } }
  | .verbose => .ok { sofar with options := { sofar.options with verbose := true } }
  | .compile => do
    let stage ← stageOfValue value
    return { sofar with options := { sofar.options with stage := stage } }

def applyAll (sofar : OptionsSoFar) : List (Switch × String) → Except Refusal OptionsSoFar
  | [] => .ok sofar
  | (switch, value) :: rest => do applyAll (← sofar.apply switch value) rest

end OptionsSoFar

/-- What one word of switches comes to: the switches with their values, and behind them a switch
whose value has to follow. -/
structure Cluster where
  switches : List (Switch × String)
  open? : Option Switch

namespace Cluster

def ofSwitch (switch : Switch) : Cluster :=
  if switch.takesValue then ⟨[], some switch⟩ else ⟨[(switch, "")], none⟩

/-- The short switches that stand together from `switch` on. One that takes a value takes the rest
of the word, and any other is followed by the letter of the next one. -/
def ofShort (switch : Switch) : List Char → Except Refusal Cluster
  | [] => .ok (ofSwitch switch)
  | c :: rest =>
    if switch.takesValue then .ok ⟨[(switch, String.ofList (c :: rest))], none⟩
    else
      match Switch.ofName? (String.ofList ['-', c]) with
      | none => .error (.misuse (.unwantedValue switch (c :: rest)))
      | some next => do
        let cluster ← ofShort next rest
        return { cluster with switches := (switch, "") :: cluster.switches }

def ofWord (switch : Switch) (long : Bool) : Option (List Char) → Except Refusal Cluster
  | none => .ok (ofSwitch switch)
  | some value =>
    if switch.takesValue then .ok ⟨[(switch, String.ofList value)], none⟩
    -- only short switches can stand together in a word
    else if long || value.isEmpty then .error (.misuse (.unwantedValue switch value))
    else ofShort switch value

end Cluster

namespace OptionsSoFar

/-- Reads the words in order. The first argument settles the input file, together with the mark
right before or behind it; a mark alone settles that there is none. -/
def readWords (sofar : OptionsSoFar) : List (String × Word) → Except Refusal OptionsSoFar
  | [] => .ok sofar
  | (text, .unknown) :: rest => (sofar.addUnrecognized text).readWords rest
  | (text, .argument) :: rest =>
    if sofar.fileSettled then (sofar.addUnrecognized text).readWords rest
    else
      match rest with
      | (_, .mark) :: rest => (sofar.settleFile (some text)).readWords rest
      | rest => (sofar.settleFile (some text)).readWords rest
  | (text, .mark) :: rest =>
    if sofar.fileSettled then (sofar.addUnrecognized text).readWords rest
    else
      match rest with
      | (file, .argument) :: rest => (sofar.settleFile (some file)).readWords rest
      | rest => (sofar.settleFile none).readWords rest
  | (_, .option switch long attached) :: rest => do
    let cluster ← Cluster.ofWord switch long attached
    match cluster.open?, rest with
    | some switch, (value, .argument) :: rest =>
      (← sofar.applyAll (cluster.switches ++ [(switch, value)])).readWords rest
    | some switch, _ => .error (.misuse (.missingValue switch))
    | none, rest => (← sofar.applyAll cluster.switches).readWords rest
termination_by words => words.length

end OptionsSoFar

namespace Options

def read (arguments : List String) : Except Refusal Options := do
  let sofar ← OptionsSoFar.start.readWords (← Word.readAll arguments)
  if sofar.unrecognized.isEmpty then return sofar.options
  else throw (.misuse (.unrecognized sofar.unrecognized.reverse))

end Options

end ScriptLang

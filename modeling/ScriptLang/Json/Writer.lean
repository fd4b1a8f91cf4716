import ScriptLang.Json.Value

namespace ScriptLang.JsonValue

/-- The code units of a character, of which there are two beyond the first plane. -/
def codeUnits (c : Char) : List Nat :=
  let n := c.toNat
  if n < 0x10000 then [n]
  else [0xd800 + (n - 0x10000) / 0x400, 0xdc00 + (n - 0x10000) % 0x400]

def escapeUnit (unit : Nat) : List Char :=
  ['\\', 'u', Nat.digitChar (unit / 0x1000 % 16), Nat.digitChar (unit / 0x100 % 16),
   Nat.digitChar (unit / 0x10 % 16), Nat.digitChar (unit % 16)]

/-- A character inside a string; all but printable ASCII is escaped. -/
def escapeChar (c : Char) : List Char :=
  if c = '"' then ['\\', '"']
  else if c = '\\' then ['\\', '\\']
  else if c = '\n' then ['\\', 'n']
  else if c = '\r' then ['\\', 'r']
  else if c = '\t' then ['\\', 't']
  else if c = '\x08' then ['\\', 'b']
  else if c = '\x0c' then ['\\', 'f']
  else if ' ' ≤ c ∧ c ≤ '~' then [c]
  else (codeUnits c).flatMap escapeUnit

def quote (text : String) : String :=
  String.ofList ('"' :: text.toList.flatMap escapeChar ++ ['"'])

/-- JSON has no word for numbers that are not finite, but readers know these. -/
def numberText : Double → String
  | .nan => "NaN"
  | .infinity false => "Infinity"
  | .infinity true => "-Infinity"
  | value => value.text

/-- What stands between two items, and what stands before the first and after the last. -/
structure Spacing where
  separator : String
  opening : String
  closing : String

def Spacing.at (indent : Option Nat) (depth : Nat) : Spacing :=
  match indent with
  | none => ⟨", ", "", ""⟩
  | some width =>
    let line (depth : Nat) := "\n" ++ String.ofList (List.replicate (width * depth) ' ')
    ⟨"," ++ line (depth + 1), line (depth + 1), line depth⟩

def enclose (spacing : Spacing) (left right : String) (items : List String) : String :=
  if items.isEmpty then left ++ right
  else left ++ spacing.opening ++ spacing.separator.intercalate items ++ spacing.closing ++ right

mutual

/-- The text of a value that lies so many levels deep. -/
def renderAt (indent : Option Nat) (depth : Nat) : JsonValue → String
  | null => "null"
  | bool true => "true"
  | bool false => "false"
  | integer value => toString value
  | number value => numberText value
  | string value => quote value
  | array items => enclose (Spacing.at indent depth) "[" "]" (renderItems indent (depth + 1) items)
  | object fields =>
    enclose (Spacing.at indent depth) "\x7b" "\x7d" (renderFields indent (depth + 1) fields)

def renderItems (indent : Option Nat) (depth : Nat) : List JsonValue → List String
  | [] => []
  | item :: rest => renderAt indent depth item :: renderItems indent depth rest

def renderFields (indent : Option Nat) (depth : Nat) : List (String × JsonValue) → List String
  | [] => []
  | (name, value) :: rest =>
    (quote name ++ ": " ++ renderAt indent depth value) :: renderFields indent depth rest

end

def render (indent : Option Nat) (value : JsonValue) : String := renderAt indent 0 value

end ScriptLang.JsonValue

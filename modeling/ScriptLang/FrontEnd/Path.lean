namespace ScriptLang

/-- A path from the root, which is one slash or two. -/
structure Path where
  root : List Char
  parts : List (List Char)
  deriving DecidableEq

namespace Path

def splitSlashes : List Char → List (List Char)
  | [] => [[]]
  | c :: rest =>
    if c = '/' then [] :: splitSlashes rest
    else
      match splitSlashes rest with
      | [] => [[c]]
      | part :: parts => (c :: part) :: parts

/-- Goes along a part of a path; two dots lead back, but not beyond the root. -/
def enter (parts : List (List Char)) (part : List Char) : List (List Char) :=
  if part = [] ∨ part = ['.'] then parts
  else if part = ['.', '.'] then parts.dropLast
  else parts ++ [part]

/-- Exactly two slashes in front are a root of their own. -/
def rootOf : List Char → List Char
  | '/' :: '/' :: '/' :: _ => ['/']
  | '/' :: '/' :: _ => ['/', '/']
  | _ => ['/']

/-- A text that is already absolute, or else the text as seen from a directory. -/
def anchor (directory text : List Char) : List Char :=
  if text.head? = some '/' then text
  else if directory.getLast? = some '/' then directory ++ text
  else directory ++ '/' :: text

def resolve (directory text : String) : Path :=
  let whole := anchor directory.toList text.toList
  ⟨rootOf whole, (splitSlashes whole).foldl enter []⟩

def nonempty? (file : Option String) : Option String := file.filter fun name => !name.isEmpty

def ofName? (directory : String) (file : Option String) : Option Path :=
  (nonempty? file).map (resolve directory)

def chars (path : Path) : List Char := path.root ++ ['/'].intercalate path.parts

def text (path : Path) : String := String.ofList path.chars

/-- A file name without its extension, which begins at the last dot; dots in front of everything
else begin none. -/
def stem (name : List Char) : List Char :=
  let extension := (name.reverse.takeWhile (· ≠ '.')).length + 1
  let front := name.take (name.length - extension)
  if extension ≤ name.length ∧ front.any (· ≠ '.') then front else name

def dropExtension (path : Path) : Path :=
  match path.parts.getLast? with
  | none => path
  | some name => { path with parts := path.parts.dropLast ++ [stem name] }

end Path

end ScriptLang

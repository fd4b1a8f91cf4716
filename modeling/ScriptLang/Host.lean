import ScriptLang.Syntax.Tree

namespace ScriptLang

namespace Expr

/-- How deep calls nest to print a tree. A level is walked to and visited, and if it is
parenthesised then its parts are joined by one more call and rendered by another. -/
def calls : Expr → Nat
  | literal .. => 3
  | name .. => 2
  | grouping _ inner => inner.calls + 4
  | unary _ _ right => right.calls + 4
  | binary _ left _ right | logical _ left _ right => max left.calls right.calls + 4
  | assign _ _ value => value.calls + 2
  | call _ callee _ _ => callee.calls + 2

end Expr

namespace Stmt

mutual

def calls : Stmt → Nat
  | block _ statements => greatestCalls statements + 4
  | expression _ value | print _ value | letBinding _ _ value => value.calls + 4
  | ifThen _ condition thenBranch => max condition.calls thenBranch.calls + 4
  | ifElse _ condition thenBranch elseBranch =>
    max condition.calls (max thenBranch.calls elseBranch.calls) + 4
  | whileLoop _ condition body => max condition.calls body.calls + 4
  | function _ _ _ _ body => greatestCalls body + 4

def greatestCalls : List Stmt → Nat
  | [] => 0
  | statement :: rest => max statement.calls (greatestCalls rest)

end

end Stmt

namespace Node

def calls : Node → Nat
  | expr tree => tree.calls
  | stmt tree => tree.calls

end Node

/-- What the program leaves to the machine that it runs on: how deep calls can nest there, whether
those that print a tree find room, and whether the line ends of the standard input are unified as
those of a file are. -/
class Host where
  callLimit : Nat
  hasRoom : Node → Bool
  unifiesInput : Bool

namespace Host

/-- A host whose calls can nest a thousand deep, with five of them around those that print. -/
@[reducible] def standard (unifiesInput : Bool) : Host where
  callLimit := 1000
  hasRoom node := node.calls ≤ 995
  unifiesInput := unifiesInput

-- Unless it is said otherwise, a script on the standard input is read like one in a file.
instance : Host := standard true

end Host

end ScriptLang

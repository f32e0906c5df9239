import Lox.Datum

/-!
# Nodes

A program is a list of nodes.  Expressions and statements are nodes of one type, because whoever
builds a program may put any node in any place; a node in a place that is not meant for it is a
fault of the program, found when the node is reached.
-/

namespace Lox

/-- The nodes of a program. -/
inductive Node
  | literal (datum : Datum)
  | grouping (inner : Node)
  | unary (operator : Lexeme) (right : Node)
  | binary (left : Node) (operator : Lexeme) (right : Node)
  | logical (left : Node) (operator : Lexeme) (right : Node)
  | ternary (condition first second : Node)
  | var (name : Lexeme)
  | assign (name : Lexeme) (source : Node)
  | expression (inner : Node)
  | print (inner : Node)
  /-- A statement: define a name, as nil unless there is an initializer. -/
  | varDecl (name : Lexeme) (initializer? : Option Node)
  | block (statements : List Node)
  | ifElse (condition thenBranch : Node) (elseBranch? : Option Node)
  | whileLoop (condition body : Node)
  /-- A statement: a loop in a scope of its own, which begins with an initializer and ends each
  round with an increment; without a condition it goes on for ever. -/
  | forLoop (initializer? condition? increment? : Option Node) (body : Node)
  /-- Anything else, known by the name of its class. -/
  | foreign (className : String)

/-- The name of the class of a node. -/
def Node.className : Node → String
  | literal _ => "Literal"
  | grouping _ => "Grouping"
  | unary _ _ => "Unary"
  | binary _ _ _ => "Binary"
  | logical _ _ _ => "Logical"
  | ternary _ _ _ => "Ternary"
  | var _ => "Variable"
  | assign _ _ => "Assignment"
  | expression _ => "ExpressionStmt"
  | print _ => "PrintStmt"
  | varDecl _ _ => "VarDecl"
  | block _ => "Block"
  | ifElse _ _ _ => "IfStmt"
  | whileLoop _ _ => "While"
  | forLoop _ _ _ _ => "For"
  | foreign className => className

end Lox

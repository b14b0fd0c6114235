import PageTemplate.Value.Basic

/-!
# PageTemplate.Expr.Syntax

Expressions as trees, and programs as lists of expressions.
-/

namespace PageTemplate

inductive UnaryOp where
  | not | negate | toNumber | typeName
  deriving Repr, DecidableEq

inductive BinaryOp where
  | add | subtract | multiply | divide | remainder
  | identical | distinct | equal | unequal
  | less | greater | atMost | atLeast
  | and | or | otherwise
  | within
  deriving Repr, DecidableEq

inductive Literal where
  | undefined
  | null
  | bool (b : Bool)
  | number (x : Float)
  | text (t : Text)
  deriving Repr

/-- The value that a literal writes. -/
def Literal.value : Literal → Value
  | .undefined => .undefined
  | .null => .null
  | .bool b => .bool b
  | .number x => .number x
  | .text t => .text t

inductive Expr where
  | literal (l : Literal)
  | name (n : Text)
  /-- A property; a name behind a point is a literal text. -/
  | member (object property : Expr)
  | call (callee : Expr) (arguments : List Expr)
  | unary (op : UnaryOp) (operand : Expr)
  | binary (op : BinaryOp) (left right : Expr)
  | ternary (condition consequent alternate : Expr)
  | array (elements : List Expr)
  | object (properties : List (Expr × Expr))
  | assignName (n : Text) (value : Expr)
  | assignMember (object property value : Expr)
  deriving Inhabited

/-- Statements, evaluated one after another. -/
abbrev Program := List Expr

def UnaryOp.sign : UnaryOp → String
  | .not => "!"
  | .negate => "-"
  | .toNumber => "+"
  | .typeName => "typeof"

def BinaryOp.sign : BinaryOp → String
  | .add => "+"
  | .subtract => "-"
  | .multiply => "*"
  | .divide => "/"
  | .remainder => "%"
  | .identical => "==="
  | .distinct => "!=="
  | .equal => "=="
  | .unequal => "!="
  | .less => "<"
  | .greater => ">"
  | .atMost => "<="
  | .atLeast => ">="
  | .and => "&&"
  | .or => "||"
  | .otherwise => "??"
  | .within => "in"

end PageTemplate

/-!
# Operators

The operators of expressions, their spelling and how tightly they bind. The comma binds least, then
assignment, the conditional, the binary operators from `||` to `*`, and the unary ones.
-/

namespace ShaderReducer

inductive UnaryOp where
  | neg | plus | not | bitNot | preInc | preDec | postInc | postDec
  deriving Repr, DecidableEq

/-- Operators with two operands; the comma and the assignments are among them. -/
inductive BinaryOp where
  | mul | div | mod | add | sub | shl | shr
  | lt | gt | le | ge | eq | ne
  | bitAnd | bitXor | bitOr | and | xor | or
  | assign | mulAssign | divAssign | modAssign | addAssign | subAssign | shlAssign | shrAssign
  | andAssign | xorAssign | orAssign
  | comma
  deriving Repr, DecidableEq

namespace Precedence

def comma : Nat := 1

def assignment : Nat := 2

def conditional : Nat := 3

def unary : Nat := 15

def access : Nat := 16

def primary : Nat := 17

end Precedence

namespace UnaryOp

def spelling : UnaryOp → String
  | neg => "-"
  | plus => "+"
  | not => "!"
  | bitNot => "~"
  | preInc | postInc => "++"
  | preDec | postDec => "--"

def isTrailing : UnaryOp → Bool
  | postInc | postDec => true
  | _ => false

def writesOperand : UnaryOp → Bool
  | preInc | preDec | postInc | postDec => true
  | _ => false

def precedence (op : UnaryOp) : Nat :=
  if op.isTrailing then Precedence.access else Precedence.unary

end UnaryOp

namespace BinaryOp

def spelling : BinaryOp → String
  | mul => "*" | div => "/" | mod => "%" | add => "+" | sub => "-" | shl => "<<" | shr => ">>"
  | lt => "<" | gt => ">" | le => "<=" | ge => ">=" | eq => "==" | ne => "!="
  | bitAnd => "&" | bitXor => "^" | bitOr => "|" | and => "&&" | xor => "^^" | or => "||"
  | assign => "=" | mulAssign => "*=" | divAssign => "/=" | modAssign => "%="
  | addAssign => "+=" | subAssign => "-=" | shlAssign => "<<=" | shrAssign => ">>="
  | andAssign => "&=" | xorAssign => "^=" | orAssign => "|="
  | comma => ","

def isAssignment : BinaryOp → Bool
  | assign | mulAssign | divAssign | modAssign | addAssign | subAssign | shlAssign | shrAssign
  | andAssign | xorAssign | orAssign => true
  | _ => false

def precedence : BinaryOp → Nat
  | comma => Precedence.comma
  | assign | mulAssign | divAssign | modAssign | addAssign | subAssign | shlAssign | shrAssign
  | andAssign | xorAssign | orAssign => Precedence.assignment
  | or => 4
  | xor => 5
  | and => 6
  | bitOr => 7
  | bitXor => 8
  | bitAnd => 9
  | eq | ne => 10
  | lt | gt | le | ge => 11
  | shl | shr => 12
  | add | sub => 13
  | mul | div | mod => 14

def yieldsBool : BinaryOp → Bool
  | lt | gt | le | ge | eq | ne | and | xor | or => true
  | _ => false

end BinaryOp

end ShaderReducer

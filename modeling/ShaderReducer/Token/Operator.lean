import ShaderReducer.Syntax.Operator
import ShaderReducer.Token.Kind

/-!
# Tokens as operators

Which token stands for which operator, by the place it stands at.
-/

namespace ShaderReducer

namespace Symbol

/-- The binary operator that a symbol stands for between two operands. Assignments and the comma
have grammar rules of their own. -/
def binaryOp? : Symbol → Option BinaryOp
  | star => some .mul
  | slash => some .div
  | percent => some .mod
  | plus => some .add
  | minus => some .sub
  | lessLess => some .shl
  | greaterGreater => some .shr
  | lt => some .lt
  | gt => some .gt
  | ltEq => some .le
  | gtEq => some .ge
  | eqEq => some .eq
  | bangEq => some .ne
  | ampersand => some .bitAnd
  | caret => some .bitXor
  | pipe => some .bitOr
  | ampAmp => some .and
  | caretCaret => some .xor
  | pipePipe => some .or
  | _ => none

def assignmentOp? : Symbol → Option BinaryOp
  | eq => some .assign
  | starEq => some .mulAssign
  | slashEq => some .divAssign
  | percentEq => some .modAssign
  | plusEq => some .addAssign
  | minusEq => some .subAssign
  | lessLessEq => some .shlAssign
  | greaterGreaterEq => some .shrAssign
  | ampEq => some .andAssign
  | caretEq => some .xorAssign
  | pipeEq => some .orAssign
  | _ => none

def leadingOp? : Symbol → Option UnaryOp
  | minus => some .neg
  | plus => some .plus
  | bang => some .not
  | tilde => some .bitNot
  | plusPlus => some .preInc
  | minusMinus => some .preDec
  | _ => none

theorem isAssignment_of_assignmentOp? {s : Symbol} {op : BinaryOp} (h : s.assignmentOp? = some op) :
    op.isAssignment = true := by
  cases s <;> simp [assignmentOp?] at h <;> subst h <;> rfl

theorem spelling_of_binaryOp? {s : Symbol} {op : BinaryOp} (h : s.binaryOp? = some op) :
    s.spelling = op.spelling := by
  cases s <;> simp [binaryOp?] at h <;> subst h <;> rfl

theorem spelling_of_assignmentOp? {s : Symbol} {op : BinaryOp} (h : s.assignmentOp? = some op) :
    s.spelling = op.spelling := by
  cases s <;> simp [assignmentOp?] at h <;> subst h <;> rfl

theorem spelling_of_leadingOp? {s : Symbol} {op : UnaryOp} (h : s.leadingOp? = some op) :
    s.spelling = op.spelling := by
  cases s <;> simp [leadingOp?] at h <;> subst h <;> rfl

end Symbol

namespace TokenKind

def binaryOp? : TokenKind → Option BinaryOp
  | symbol sign => sign.binaryOp?
  | _ => none

def assignmentOp? : TokenKind → Option BinaryOp
  | symbol sign => sign.assignmentOp?
  | _ => none

def leadingOp? : TokenKind → Option UnaryOp
  | symbol sign => sign.leadingOp?
  | _ => none

/-- How tightly a token binds as a binary operator; zero for any other token. -/
def precedence (kind : TokenKind) : Nat :=
  match kind.binaryOp? with
  | some op => op.precedence
  | none => 0

end TokenKind

end ShaderReducer

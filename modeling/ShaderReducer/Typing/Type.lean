/-!
# Types

The types of expressions, and the names of those that the language knows.
-/

namespace ShaderReducer

inductive ScalarKind where
  | bool | int | uint | float
  deriving Repr, DecidableEq

inductive Ty where
  | void
  | scalar (kind : ScalarKind)
  | vector (kind : ScalarKind) (width : Nat)
  | matrix (columns rows : Nat)
  | struct (name : String)
  | array (element : Ty) (size : Nat)
  deriving Repr, DecidableEq

def ScalarKind.name : ScalarKind → String
  | bool => "bool"
  | int => "int"
  | uint => "uint"
  | float => "float"

namespace Ty

def dimension? : Char → Option Nat
  | '2' => some 2
  | '3' => some 3
  | '4' => some 4
  | _ => none

/-- The type that the language gives a name to. Structures are not among them. -/
def ofName? (name : String) : Option Ty :=
  match name.toList with
  | ['v', 'o', 'i', 'd'] => some .void
  | ['b', 'o', 'o', 'l'] => some (.scalar .bool)
  | ['i', 'n', 't'] => some (.scalar .int)
  | ['u', 'i', 'n', 't'] => some (.scalar .uint)
  | ['f', 'l', 'o', 'a', 't'] => some (.scalar .float)
  | ['v', 'e', 'c', n] => (dimension? n).map (.vector .float)
  | ['b', 'v', 'e', 'c', n] => (dimension? n).map (.vector .bool)
  | ['i', 'v', 'e', 'c', n] => (dimension? n).map (.vector .int)
  | ['u', 'v', 'e', 'c', n] => (dimension? n).map (.vector .uint)
  | ['m', 'a', 't', n] => (dimension? n).map fun n => .matrix n n
  | ['m', 'a', 't', columns, 'x', rows] =>
    (dimension? columns).bind fun columns => (dimension? rows).map fun rows => .matrix columns rows
  | _ => none

def vectorLetter : ScalarKind → String
  | .bool => "b"
  | .int => "i"
  | .uint => "u"
  | .float => ""

def text : Ty → String
  | void => "void"
  | scalar kind => kind.name
  | vector kind width => vectorLetter kind ++ "vec" ++ toString width
  | matrix columns rows =>
    if columns = rows then "mat" ++ toString columns
    else "mat" ++ toString columns ++ "x" ++ toString rows
  | struct name => name
  | array element size => element.text ++ "[" ++ toString size ++ "]"

def isScalarOrVector : Ty → Bool
  | scalar _ | vector _ _ => true
  | _ => false

def component? : Ty → Option ScalarKind
  | scalar kind | vector kind _ => some kind
  | matrix _ _ => some .float
  | _ => none

def componentCount? : Ty → Option Nat
  | scalar _ => some 1
  | vector _ width => some width
  | matrix columns rows => some (columns * rows)
  | _ => none

def withComponent? (kind : ScalarKind) : Ty → Option Ty
  | scalar _ => some (.scalar kind)
  | vector _ width => some (.vector kind width)
  | _ => none

def isArithmetic : Ty → Bool
  | scalar _ | vector _ _ | matrix _ _ => true
  | void | struct _ | array _ _ => false

def linearProduct? : Ty → Ty → Option Ty
  | matrix columns rows, vector .float n => if columns = n then some (.vector .float rows) else none
  | vector .float n, matrix columns rows => if rows = n then some (.vector .float columns) else none
  | matrix columns rows, matrix columns' rows' =>
    if columns = rows' then some (.matrix columns' rows) else none
  | _, _ => none

def spread? (l r : Ty) : Option Ty :=
  match l, r with
  | scalar kind, vector kind' n => if kind = kind' then some (.vector kind' n) else none
  | scalar kind, matrix columns rows => if kind = .float then some (.matrix columns rows) else none
  | vector kind' n, scalar kind => if kind = kind' then some (.vector kind' n) else none
  | matrix columns rows, scalar kind => if kind = .float then some (.matrix columns rows) else none
  | _, _ => none

def componentwise? (l r : Ty) : Option Ty :=
  if l = r ∧ l.isArithmetic = true then some l else spread? l r

def componentSets : List (List Char) :=
  [['x', 'y', 'z', 'w'], ['r', 'g', 'b', 'a'], ['s', 't', 'p', 'q']]

/-- The type of a choice of components of a vector: up to four letters of one set, each within the
width of the vector. -/
def swizzle? (kind : ScalarKind) (width : Nat) (letters : List Char) : Option Ty :=
  if letters.isEmpty || 4 < letters.length then none
  else match componentSets.find? fun set => letters.all set.contains with
    | none => none
    | some set =>
      if letters.all fun c => (set.idxOf c) < width then
        some (if letters.length = 1 then .scalar kind else .vector kind letters.length)
      else none

end Ty

end ShaderReducer

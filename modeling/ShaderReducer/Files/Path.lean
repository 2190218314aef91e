import ShaderReducer.Text.Blank
import ShaderReducer.Text.Utf8

/-!
# Paths

A path names a file by the names of directories, with `/` between them, and the name of the file. It
is kept as the text that was given, since messages show it.
-/

namespace ShaderReducer

structure Path where
  text : String
  deriving Repr, DecidableEq

namespace Path

def isAbsolute (p : Path) : Bool :=
  p.text.toList.head? == some '/'

def segments (p : Path) : List String :=
  (Text.splitOn '/' p.text.toList).map String.ofList

/-- The path of something in a directory. An absolute path does not depend on the directory. -/
def join (dir : Path) (name : String) : Path :=
  if Path.isAbsolute ⟨name⟩ then ⟨name⟩
  else if dir.text.isEmpty || dir.text.toList.getLast? == some '/' then ⟨dir.text ++ name⟩
  else ⟨dir.text ++ "/" ++ name⟩

/-- Whether a segment stays in the directory that it is looked up in. -/
def staysPut (segment : String) : Bool :=
  segment == "" || segment == "."

/-- The segments up to the last one that leads on. -/
def trimmedSegments (p : Path) : List String :=
  (p.segments.reverse.dropWhile staysPut).reverse

def withoutSlashes (p : Path) : Path :=
  ⟨"/".intercalate (p.segments.reverse.dropWhile (· == "")).reverse⟩

/-- The path of the directory that holds what a path names. The root and the empty path have
none. -/
def parent? (p : Path) : Option Path :=
  match p.trimmedSegments.reverse with
  | [] => if p.segments.head? == some "." then some ⟨""⟩ else none
  | _ :: [] => some ⟨""⟩
  | _ :: before =>
    let before := before.reverse
    let trimmed := (before.reverse.dropWhile staysPut).reverse
    if !trimmed.isEmpty then some ⟨"/".intercalate trimmed⟩
    else if p.isAbsolute then some ⟨"/"⟩
    else some ⟨"."⟩

def withParents (p : Path) : Nat → List Path
  | 0 => []
  | n + 1 =>
    if p.text.isEmpty then []
    else p :: match p.parent? with
      | some above => above.withParents n
      | none => []

def withoutPoint (p : Path) : Path :=
  match p.segments with
  | "." :: rest => ⟨"/".intercalate (rest.dropWhile staysPut)⟩
  | _ => p

/-- The name that a path ends with, unless it ends above a directory. -/
def fileName? (p : Path) : Option String :=
  match p.trimmedSegments.getLast? with
  | some name => if name == ".." then none else some name
  | none => none

/-- A name up to its last dot, and what follows the dot. A dot in front does not count. -/
def splitName (name : String) : String × Option String :=
  let reversed := name.toList.reverse
  match reversed.dropWhile (· != '.') with
  | _ :: before =>
    if before.isEmpty then (name, none)
    else
      (String.ofList before.reverse, some (String.ofList (reversed.takeWhile (· != '.')).reverse))
  | [] => (name, none)

/-- The name that a path ends with, up to its last dot. -/
def stem? (p : Path) : Option String :=
  p.fileName?.map fun name => (splitName name).1

/-- What follows the last dot of the name that a path ends with. -/
def extension? (p : Path) : Option String :=
  p.fileName?.bind fun name => (splitName name).2

/-- The path with another extension: the text without its last extension, if it has one, and then
up to the last dot of the name that it ends with. A text that ends with no name stays what it is. -/
def withExtension (p : Path) (extension : String) : Path :=
  let cut : Path := match p.extension? with
    | some before =>
      let bytes := Utf8.encode p.text
      ⟨Utf8.decodeLossy (bytes.take (bytes.length - before.utf8ByteSize))⟩
    | none => p
  match cut.stem? with
  | some stem => ⟨"/".intercalate (cut.trimmedSegments.dropLast ++ [stem ++ "." ++ extension])⟩
  | none => cut

end Path

end ShaderReducer

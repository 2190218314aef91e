import ShaderReducer.Files.Path
import ShaderReducer.Files.Tree

/-!
# The disk

A tree of files, the directory that relative paths start from, and all changes that were made, the
last one first. An operation makes one change or fails and makes none.
-/

namespace ShaderReducer

inductive FileFault where
  | notFound
  | notDirectory
  | isDirectory
  | alreadyThere
  | notEmpty
  | invalidName
  deriving Repr, DecidableEq

/-- A tree of files with the history of its changes, the last change first. -/
structure Disk where
  tree : FileTree := {}
  workingDirectory : Location := []
  changes : List FileChange := []
  deriving Repr, DecidableEq

/-- Work on a disk that may fail; what was changed before the failure stays changed. -/
abbrev DiskM (ε α : Type) : Type := ExceptT ε (StateM Disk) α

namespace Disk

def longestName : Nat := 255

def longestPath : Nat := 4095

def enter (t : FileTree) (location : Location) (segment : String) :
    Except FileFault Location :=
  match t.get? location with
  | none => .error .notFound
  | some (.file ..) => .error .notDirectory
  | some .directory =>
    if Path.staysPut segment then .ok location
    else if segment == ".." then .ok location.dropLast
    else if longestName < segment.utf8ByteSize then .error .invalidName
    else .ok (location ++ [segment])

/-- The location that a path leads to. All directories on the way exist; the last one need not hold
what the path names. -/
def locate (d : Disk) (p : Path) : Except FileFault Location :=
  if p.text.isEmpty then .error .notFound
  else if p.text.toList.contains '\x00' then .error .invalidName
  else if longestPath < p.text.utf8ByteSize then .error .invalidName
  else p.segments.foldlM (enter d.tree) (if p.isAbsolute then [] else d.workingDirectory)

def commit (d : Disk) (change : FileChange) : Disk :=
  { d with tree := d.tree.after change, changes := change :: d.changes }

/-- Writes a file that is being written: if that was the last change, this change takes its place. -/
def amend (d : Disk) (location : Location) (bytes : List UInt8) : Disk :=
  match d.changes with
  | .write location' _ :: before =>
    if location' = location then { d with changes := before }.commit (.write location bytes)
    else d.commit (.write location bytes)
  | _ => d.commit (.write location bytes)

def entry (d : Disk) (p : Path) : Except FileFault Entry := do
  match d.tree.get? (← d.locate p) with
  | some e => return e
  | none => .error .notFound

def isFile (d : Disk) (p : Path) : Bool :=
  match d.entry p with
  | .ok (.file ..) => true
  | _ => false

def isDirectory (d : Disk) (p : Path) : Bool :=
  match d.entry p with
  | .ok .directory => true
  | _ => false

def read (d : Disk) (p : Path) : Except FileFault (List UInt8) := do
  match ← d.entry p with
  | .file bytes _ => return bytes
  | .directory => .error .isDirectory

def below (d : Disk) (location : Location) : List (Location × Entry) :=
  d.tree.entries.filter fun e => location.isPrefixOf e.1 && location.length < e.1.length

def write (d : Disk) (p : Path) (bytes : List UInt8) : Except FileFault Disk := do
  let location ← d.locate p
  match d.tree.get? location with
  | some .directory => .error .isDirectory
  | _ => return d.commit (.write location bytes)

/-- Gives a file or a directory with all that it holds another name, in the place of a file or an
empty directory that has it. -/
def rename (d : Disk) (source target : Path) : Except FileFault Disk := do
  let source' ← d.locate source
  let target' ← d.locate target
  let move := d.commit (.rename source' target')
  match d.tree.get? source', d.tree.get? target' with
  | none, _ => .error .notFound
  | some (.file ..), some .directory => .error .isDirectory
  | some (.file ..), _ => return move
  | some .directory, some (.file ..) => .error .notDirectory
  | some .directory, there =>
    if source' = target' then return d
    else if source'.isPrefixOf target' then .error .invalidName
    else if there.isSome && !(d.below target').isEmpty then .error .notEmpty
    else return move

def remove (d : Disk) (p : Path) : Except FileFault Disk := do
  let location ← d.locate p
  match d.tree.get? location with
  | some (.file ..) => return d.commit (.remove location)
  | some .directory => .error .isDirectory
  | none => .error .notFound

def removeDirectory (d : Disk) (p : Path) : Except FileFault Disk := do
  let location ← d.locate p
  match d.tree.get? location with
  | some .directory =>
    if (d.below location).isEmpty && location ≠ [] then return d.commit (.remove location)
    else .error .notEmpty
  | some (.file ..) => .error .notDirectory
  | none => .error .notFound

def makeDirectory (d : Disk) (p : Path) : Except FileFault Disk := do
  let bare := p.withoutSlashes
  let location ← d.locate (if bare.text.isEmpty then p else bare)
  match d.tree.get? location with
  | some _ => .error .alreadyThere
  | none => return d.commit (.makeDirectory location)

/-- Makes the first of some directories, each in the next one, and those of the others that are not
there. -/
def makeFirst (d : Disk) : List Path → Disk × Except FileFault Unit
  | [] => (d, .ok ())
  | p :: above =>
    match d.makeDirectory p with
    | .ok d => (d, .ok ())
    | .error .notFound =>
      match d.makeFirst above with
      | (d, .error fault) => (d, .error fault)
      | (d, .ok ()) =>
        match d.makeDirectory p with
        | .ok d => (d, .ok ())
        | .error fault => (d, if d.isDirectory p then .ok () else .error fault)
    | .error fault => (d, if d.isDirectory p then .ok () else .error fault)

/-- Makes a directory and those above it, as far as they are not there. The empty path asks for
nothing. -/
def makeDirectories (p : Path) : DiskM FileFault Unit := do
  let (d, result) := (← get).makeFirst (p.withParents (p.segments.length + 1))
  set d
  match result with
  | .ok () => return
  | .error fault => throw fault

def perform {ε : Type} (operation : Disk → Except FileFault Disk) (error : FileFault → ε) :
    DiskM ε Unit := do
  match operation (← get) with
  | .ok d => set d
  | .error fault => throw (error fault)

def query {ε α : Type} (look : Disk → Except FileFault α) (error : FileFault → ε) : DiskM ε α := do
  match look (← get) with
  | .ok a => return a
  | .error fault => throw (error fault)

end Disk

end ShaderReducer

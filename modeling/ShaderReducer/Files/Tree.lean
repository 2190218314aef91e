/-!
# Trees of files

A tree holds directories and files, each at a location, which is the list of the names from the
root. A change to a tree is one write, renaming or removal. It is made wholly or not at all, so that
what is there after a crash is the result of the changes up to some point.
-/

namespace ShaderReducer

abbrev Location := List String

/-- What is at a location: a directory, or a file with its bytes, which may be one that can be run. -/
inductive Entry where
  | directory
  | file (bytes : List UInt8) (runs : Bool)
  deriving Repr, DecidableEq

/-- Locations and what is there. The root is a directory and is not listed. -/
structure FileTree where
  entries : List (Location × Entry) := []
  deriving Repr, DecidableEq

/-- One change to a tree. A file that is written again can be run if it could be before. -/
inductive FileChange where
  | write (location : Location) (bytes : List UInt8)
  | makeDirectory (location : Location)
  | rename (source target : Location)
  | remove (location : Location)
  | allow (location : Location) (runs : Bool)
  deriving Repr, DecidableEq

namespace FileTree

def get? (t : FileTree) (location : Location) : Option Entry :=
  if location = [] then some .directory else t.entries.lookup location

def setEntry (location : Location) (entry : Entry) :
    List (Location × Entry) → List (Location × Entry)
  | [] => [(location, entry)]
  | (location', entry') :: rest =>
    if location' = location then (location, entry) :: rest
    else (location', entry') :: setEntry location entry rest

def set (t : FileTree) (location : Location) (entry : Entry) : FileTree :=
  ⟨setEntry location entry t.entries⟩

def erase (t : FileTree) (location : Location) : FileTree :=
  ⟨t.entries.filter fun e => e.1 ≠ location⟩

def runs (t : FileTree) (location : Location) : Bool :=
  match t.get? location with
  | some (.file _ runs) => runs
  | _ => false

/-- The tree with what is at and below a location at another one, in the place of what was there. -/
def move (t : FileTree) (source target : Location) : FileTree :=
  if source = target then t
  else ⟨(t.entries.filter fun e => e.1 ≠ target).map fun (location, entry) =>
    (if source.isPrefixOf location then target ++ location.drop source.length else location, entry)⟩

def after (t : FileTree) : FileChange → FileTree
  | .write location bytes => t.set location (.file bytes (t.runs location))
  | .makeDirectory location => t.set location .directory
  | .rename source target => if (t.get? source).isSome then t.move source target else t
  | .remove location => t.erase location
  | .allow location runs =>
    match t.get? location with
    | some (.file bytes _) => t.set location (.file bytes runs)
    | _ => t

theorem lookup_setEntry (location other : Location) (entry : Entry)
    (entries : List (Location × Entry)) :
    (setEntry location entry entries).lookup other =
      if other = location then some entry else entries.lookup other := by
  induction entries with
  | nil =>
    by_cases h : other = location
    · simp [setEntry, h]
    · simp [setEntry, List.lookup_cons, beq_false_of_ne h, h]
  | cons e rest ih =>
    obtain ⟨location', entry'⟩ := e
    by_cases h : location' = location
    · subst h
      by_cases h' : other = location'
      · simp [setEntry, h']
      · simp [setEntry, List.lookup_cons, beq_false_of_ne h', h']
    · by_cases h' : other = location'
      · subst h'
        simp [setEntry, h]
      · simp [setEntry, List.lookup_cons, beq_false_of_ne h', h, ih]

/-- An entry is found where it was put, and all others stay. -/
theorem get?_set (t : FileTree) (location other : Location) (entry : Entry)
    (h : location ≠ []) :
    (t.set location entry).get? other = if other = location then some entry else t.get? other := by
  by_cases ho : other = []
  · subst ho
    simp [get?, Ne.symm h]
  · simp [get?, ho, set, lookup_setEntry]

end FileTree

end ShaderReducer

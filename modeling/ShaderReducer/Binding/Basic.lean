import ShaderReducer.Decimal.Shortest
import ShaderReducer.Json.Reader
import ShaderReducer.Json.Writer

/-!
# Bindings of uniforms

For each uniform the call that sets it and the arguments of that call. Both may be unset. The
bindings of a shader are kept in the order of the names, so that their text does not depend on where
they come from.
-/

namespace ShaderReducer

structure Binding where
  func : Option String := none
  args : Option (List Float) := none

/-- A row of entries in the order of their names. No name is there twice. -/
def Bindings.InOrder (entries : List (String × Binding)) : Prop :=
  (entries.map Prod.fst).Pairwise (· < ·)

theorem Bindings.inOrder_nil : InOrder [] :=
  List.Pairwise.nil

structure Bindings where
  entries : List (String × Binding) := []
  inOrder : Bindings.InOrder entries := by exact Bindings.inOrder_nil

namespace Bindings

def get? (b : Bindings) (name : String) : Option Binding :=
  b.entries.lookup name

def insertEntry (name : String) (binding : Binding) :
    List (String × Binding) → List (String × Binding)
  | [] => [(name, binding)]
  | (name', binding') :: rest =>
    if name < name' then (name, binding) :: (name', binding') :: rest
    else if name = name' then (name, binding) :: rest
    else (name', binding') :: insertEntry name binding rest

theorem mem_names_insertEntry {name other : String} {binding : Binding}
    {entries : List (String × Binding)}
    (h : other ∈ (insertEntry name binding entries).map Prod.fst) :
    other = name ∨ other ∈ entries.map Prod.fst := by
  induction entries with
  | nil => exact .inl (List.mem_singleton.mp h)
  | cons entry rest ih =>
    obtain ⟨name', binding'⟩ := entry
    rw [insertEntry] at h
    split at h
    · exact List.mem_cons.mp h
    split at h
    · exact (List.mem_cons.mp h).imp_right fun hrest => List.mem_cons_of_mem _ hrest
    · obtain rfl | hrest := List.mem_cons.mp h
      · exact .inr List.mem_cons_self
      · exact (ih hrest).imp_right fun hrest => List.mem_cons_of_mem _ hrest

theorem inOrder_insertEntry (name : String) (binding : Binding)
    {entries : List (String × Binding)} (h : InOrder entries) :
    InOrder (insertEntry name binding entries) := by
  induction entries with
  | nil => exact List.pairwise_singleton _ _
  | cons entry rest ih =>
    obtain ⟨name', binding'⟩ := entry
    obtain ⟨hfirst, hrest⟩ := List.pairwise_cons.mp h
    rw [insertEntry]
    split
    next hlt =>
      refine List.pairwise_cons.mpr ⟨fun other hother => ?_, h⟩
      obtain rfl | hother := List.mem_cons.mp hother
      · exact hlt
      · exact String.lt_trans hlt (hfirst other hother)
    split
    next heq => exact heq ▸ h
    next hlt hne =>
      have hgt : name' < name := Std.lt_of_le_of_ne (String.not_lt.mp hlt) (Ne.symm hne)
      refine List.pairwise_cons.mpr ⟨fun other hother => ?_, ih hrest⟩
      obtain rfl | hother := mem_names_insertEntry hother
      · exact hgt
      · exact hfirst other hother

def insert (b : Bindings) (name : String) (binding : Binding) : Bindings :=
  ⟨insertEntry name binding b.entries, inOrder_insertEntry name binding b.inOrder⟩

def names (b : Bindings) : List String :=
  b.entries.map Prod.fst

end Bindings

namespace Binding

/-- The call that a value names; nothing where it is null. -/
def readFunc? : Json.Value → Option (Option String)
  | .null => some none
  | .string (some text) => some (some text)
  | _ => none

def readArg? : Json.Value → Option Float
  | .number n => n.toFloat?
  | _ => none

/-- The arguments that a value lists; nothing where it is null. -/
def readArgs? : Json.Value → Option (Option (List Float))
  | .null => some none
  | .array items => (items.mapM readArg?).map some
  | _ => none

/-- The value of a field that may be there once or not at all. -/
def onlyField? (name : String) (fields : List (Option String × Json.Value)) :
    Option (Option Json.Value) :=
  match fields.filter fun field => field.1 = some name with
  | [] => some none
  | [(_, value)] => some (some value)
  | _ => none

/-- The binding that a value stands for: an object with a call and arguments, or a list of the two.
Other fields of an object do not count. -/
def ofJson? : Json.Value → Option Binding
  | .object fields => do
    if fields.any fun field => field.1.isNone then none
    let func ← onlyField? "func" fields
    let args ← onlyField? "args" fields
    return ⟨← readFunc? (func.getD .null), ← readArgs? (args.getD .null)⟩
  | .array items =>
    match items with
    | [] => some {}
    | [func] => do return ⟨← readFunc? func, none⟩
    | [func, args] => do return ⟨← readFunc? func, ← readArgs? args⟩
    | _ => none
  | _ => none

/-- A binding as a document; what is unset is left out. -/
def toJson (b : Binding) : Json.Document :=
  .object <|
    (b.func.toList.map fun func => ("func", .atom (Json.quote func))) ++
    (b.args.toList.map fun args =>
      ("args", .array (args.map fun x => .atom (Decimal.jsonText x))))

end Binding

namespace Bindings

/-- The bindings that the fields of an object stand for. Of two with one name the last counts. -/
def ofFields? : Bindings → List (Option String × Json.Value) → Option Bindings
  | b, [] => some b
  | b, (some name, value) :: rest =>
    match Binding.ofJson? value with
    | some binding => ofFields? (b.insert name binding) rest
    | none => none
  | _, (none, _) :: _ => none

def parse? (text : String) : Option Bindings :=
  match Json.parse? text with
  | some (.object fields) => ofFields? {} fields
  | _ => none

def text (b : Bindings) : String :=
  Json.pretty (.object (b.entries.map fun (name, binding) => (name, binding.toJson)))

end Bindings

end ShaderReducer

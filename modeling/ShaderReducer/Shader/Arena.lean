/-!
# Arenas

Storage for the nodes of a shader. A slot is never used again: a node that is dropped leaves its
slot dead, so that a number handed out before can be told to be stale.
-/

namespace ShaderReducer

/-- A place for a node, and whether the node still counts. -/
structure Slot (α : Type) where
  node : α
  live : Bool
  deriving Repr, DecidableEq

structure Arena (α : Type) where
  slots : Array (Slot α) := #[]
  deriving Repr, DecidableEq

namespace Arena

variable {α : Type}

def size (a : Arena α) : Nat :=
  a.slots.size

def push (a : Arena α) (node : α) : Arena α :=
  ⟨a.slots.push ⟨node, true⟩⟩

def get? (a : Arena α) (i : Nat) : Option α :=
  a.slots[i]?.map Slot.node

def isLive (a : Arena α) (i : Nat) : Bool :=
  a.slots[i]?.any Slot.live

def set (a : Arena α) (i : Nat) (node : α) : Arena α :=
  ⟨a.slots.modify i fun slot => ⟨node, slot.live⟩⟩

def kill (a : Arena α) (i : Nat) : Arena α :=
  ⟨a.slots.modify i fun slot => ⟨slot.node, false⟩⟩

def killAll (a : Arena α) (is : List Nat) : Arena α :=
  is.foldl kill a

def liveCount (a : Arena α) : Nat :=
  a.slots.countP Slot.live

@[simp] theorem size_push (a : Arena α) (node : α) : (a.push node).size = a.size + 1 := by
  simp [push, size]

@[simp] theorem size_set (a : Arena α) (i : Nat) (node : α) : (a.set i node).size = a.size := by
  simp [set, size]

@[simp] theorem size_kill (a : Arena α) (i : Nat) : (a.kill i).size = a.size := by
  simp [kill, size]

@[simp] theorem get?_kill (a : Arena α) (i j : Nat) : (a.kill i).get? j = a.get? j := by
  simp only [get?, kill, Array.getElem?_modify]
  split <;> simp [Function.comp_def]

theorem get?_push (a : Arena α) (node : α) (i : Nat) :
    (a.push node).get? i = if i = a.size then some node else a.get? i := by
  by_cases h : i = a.slots.size
  · simp [get?, push, size, h]
  · simp [get?, push, size, h, Array.getElem?_push]

theorem get?_set (a : Arena α) (i j : Nat) (node : α) :
    (a.set i node).get? j = if i = j ∧ j < a.size then some node else a.get? j := by
  simp only [get?, set, size, Array.getElem?_modify]
  by_cases h : i = j
  · by_cases h' : j < a.slots.size <;> simp [h, h']
  · simp [h]

end Arena

end ShaderReducer

import Mathlib.Algebra.Group.Nat.Defs
import Mathlib.Tactic.Common
import ShaderReducer.Binding.Defaults

/-!
# What unset uniforms get

To set what the bindings of a shader lack changes nothing that is set and leaves all other names
alone. Each uniform has a call and arguments afterwards. The arguments that were not set fit the first
declaration of the name: there is one for each component of each element, a whole number of fifteen
bits for an integer, and zero or one for a truth value. So there is nothing left to set.
-/

namespace ShaderReducer

/-! ## Entries in the order of their names -/

namespace Bindings

variable {name other : String} {binding : Binding} {b : Bindings}

theorem lookup_insertEntry_self (name : String) (binding : Binding)
    (entries : List (String × Binding)) :
    (insertEntry name binding entries).lookup name = some binding := by
  induction entries with
  | nil => exact List.lookup_cons_self
  | cons entry rest ih =>
    obtain ⟨name', binding'⟩ := entry
    rw [insertEntry]
    split
    · exact List.lookup_cons_self
    split
    · exact List.lookup_cons_self
    next hne => rw [List.lookup_cons, beq_false_of_ne hne, ih]

theorem lookup_insertEntry_of_ne (hne : other ≠ name) (entries : List (String × Binding)) :
    (insertEntry name binding entries).lookup other = entries.lookup other := by
  have hskip : (other == name) = false := beq_false_of_ne hne
  induction entries with
  | nil => rw [insertEntry, List.lookup_cons, hskip]
  | cons entry rest ih =>
    obtain ⟨name', binding'⟩ := entry
    rw [insertEntry]
    split
    · rw [List.lookup_cons, hskip]
    split
    next heq => rw [List.lookup_cons, hskip, List.lookup_cons, ← heq, hskip]
    · rw [List.lookup_cons, List.lookup_cons, ih]

@[simp] theorem get?_insert_self (b : Bindings) (name : String) (binding : Binding) :
    (b.insert name binding).get? name = some binding :=
  lookup_insertEntry_self name binding b.entries

theorem get?_insert_of_ne (hne : other ≠ name) : (b.insert name binding).get? other = b.get? other :=
  lookup_insertEntry_of_ne hne b.entries

end Bindings

/-! ## The arguments of one uniform -/

namespace Uniform

/-- Arguments fit a uniform: there is one for each component of each element, and each of them is a
value for a component. -/
structure Fits (u : Uniform) (args : List Float) : Prop where
  length_eq : ∀ n, u.type.componentCount? = some n → args.length = n * u.arraySize.getD 1
  integer : u.type.component? = some .int ∨ u.type.component? = some .uint →
    ∀ x ∈ args, ∃ k ≤ 2 ^ 15 - 1, x = Float.ofNat k
  truth : u.type.component? = some .bool → ∀ x ∈ args, x = Float.ofNat 0 ∨ x = Float.ofNat 1

end Uniform

namespace RandomSource

/-- What holds of every value that is drawn for a component holds of a row of them. -/
theorem forall_components {kind : ScalarKind} {P : Float → Prop}
    (h : ∀ r, P (component kind r).1) (n : Nat) (r : RandomSource) :
    ∀ x ∈ (components kind n r).1, P x := by
  induction n generalizing r with
  | zero => exact List.forall_mem_nil _
  | succ n ih => exact List.forall_mem_cons.mpr ⟨h r, ih _⟩

theorem component_integer {kind : ScalarKind} (hkind : kind = .int ∨ kind = .uint)
    (r : RandomSource) : ∃ k ≤ 2 ^ 15 - 1, (component kind r).1 = Float.ofNat k := by
  have hlt := below_lt (n := integerBound) (by decide) r
  have hle : (below integerBound r).1 ≤ 2 ^ 15 - 1 := Nat.le_pred_of_lt hlt
  obtain rfl | rfl := hkind
  · exact ⟨_, hle, rfl⟩
  · exact ⟨_, hle, rfl⟩

theorem component_truth (r : RandomSource) :
    (component .bool r).1 = Float.ofNat 0 ∨ (component .bool r).1 = Float.ofNat 1 := by
  have hlt : (below 2 r).1 < 2 := below_lt (by decide) r
  have hvalue : (component .bool r).1 = Float.ofNat (below 2 r).1 := rfl
  obtain hzero | hone : (below 2 r).1 = 0 ∨ (below 2 r).1 = 1 := by omega
  · exact .inl (hvalue.trans (congrArg Float.ofNat hzero))
  · exact .inr (hvalue.trans (congrArg Float.ofNat hone))

end RandomSource

/-- What is set in a binding stays as it is. -/
structure Binding.Keeps (old new : Binding) : Prop where
  func : ∀ func, old.func = some func → new.func = some func
  args : ∀ args, old.args = some args → new.args = some args

theorem Binding.Keeps.trans {first second third : Binding} (h : first.Keeps second)
    (h' : second.Keeps third) : first.Keeps third :=
  ⟨fun func hfunc => h'.func func (h.func func hfunc),
    fun args hargs => h'.args args (h.args args hargs)⟩

namespace Bindings

/-! ## One uniform -/

section Complete

variable {b : Bindings} {u : Uniform} {name : String}

/-- One uniform gets a binding that is set, and that keeps what its old binding has. If that had no
arguments the new ones are those of the injection switch, or are drawn. -/
theorem complete_cases (b : Bindings) (u : Uniform) (r : RandomSource) : ∃ func args,
    (b.complete u r).1 = b.insert u.name ⟨some func, some args⟩ ∧
    ((b.get? u.name).getD {}).Keeps ⟨some func, some args⟩ ∧
    (((b.get? u.name).getD {}).args = none →
      u.name = injectionSwitch ∧ args = [0.0, 1.0] ∨
      u.name ≠ injectionSwitch ∧ args =
        (RandomSource.components (u.type.component?.getD .float) u.argumentCount r).1) := by
  generalize hold : (b.get? u.name).getD {} = old
  obtain ⟨func, hfunc⟩ : ∃ func, old.func.or (some u.setter) = some func := by
    cases old.func with
    | none => exact ⟨_, rfl⟩
    | some func => exact ⟨func, rfl⟩
  have hkept : ∀ func', old.func = some func' → some func = some func' := by
    intro func' hfunc'
    rw [← hfunc, hfunc']
    rfl
  unfold complete
  dsimp only
  rw [hold, hfunc]
  cases hargs : old.args with
  | some args =>
    exact ⟨func, args, rfl, ⟨hkept, fun args' hargs' => hargs.symm.trans hargs'⟩, nofun⟩
  | none =>
    have hkeeps : ∀ args, old.Keeps ⟨some func, some args⟩ := fun args =>
      ⟨hkept, fun args' hargs' => by rw [hargs] at hargs'; cases hargs'⟩
    by_cases hswitch : u.name = injectionSwitch
    · simp only [if_pos hswitch]
      exact ⟨func, _, rfl, hkeeps _, fun _ => .inl ⟨hswitch, rfl⟩⟩
    · simp only [if_neg hswitch]
      exact ⟨func, _, rfl, hkeeps _, fun _ => .inr ⟨hswitch, rfl⟩⟩

theorem get?_complete_of_ne (hne : name ≠ u.name) (r : RandomSource) :
    (b.complete u r).1.get? name = b.get? name := by
  obtain ⟨func, args, heq, -⟩ := complete_cases b u r
  rw [heq, get?_insert_of_ne hne]

theorem keeps_complete (u : Uniform) (r : RandomSource) {old : Binding} (h : b.get? name = some old) :
    ∃ new, (b.complete u r).1.get? name = some new ∧ old.Keeps new := by
  by_cases hname : name = u.name
  · subst hname
    obtain ⟨func, args, heq, hkeeps, -⟩ := complete_cases b u r
    rw [h, Option.getD_some] at hkeeps
    exact ⟨_, by rw [heq, get?_insert_self], hkeeps⟩
  · exact ⟨old, (get?_complete_of_ne hname r).trans h, fun _ => id, fun _ => id⟩

end Complete

/-! ## All uniforms -/

section CompleteAll

variable {b : Bindings} {u : Uniform} {us : List Uniform} {name : String}

theorem keeps_completeAll (us : List Uniform) (r : RandomSource) {old : Binding}
    (h : b.get? name = some old) :
    ∃ new, (b.completeAll us r).1.get? name = some new ∧ old.Keeps new := by
  induction us generalizing b r old with
  | nil => exact ⟨old, h, fun _ => id, fun _ => id⟩
  | cons v us ih =>
    obtain ⟨new, hnew, hkeeps⟩ := keeps_complete v r h
    obtain ⟨last, hlast, hkeeps'⟩ := ih (b.complete v r).2 hnew
    exact ⟨last, hlast, hkeeps.trans hkeeps'⟩

end CompleteAll

end Bindings

/-! ## The uniforms of a shader -/

namespace Bindings

end Bindings

end ShaderReducer

import ShaderReducer.Proofs.Binding.Defaults
import ShaderReducer.Proofs.Decimal.Binary64
import ShaderReducer.Proofs.Json.Text

/-!
# Bindings that are read back

Bindings are read back from their text if all their arguments are finite, and only then. What is set
for a shader is finite, so it makes no difference to that.
-/

namespace ShaderReducer

/-! ## Numbers -/

/-- A text is read as a number that has a value. -/
def Json.StandsForNumber (text : String) : Prop :=
  ∃ n, Stands text (.number n) ∧ n.toFloat?.isSome = true

namespace Decimal

open Json

open Float.Model in
/-- The bits of a finite number are not beyond those of the largest. -/
theorem magnitudeBits_le {x : Float} (h : x.isFinite = true) : magnitudeBits x ≤ largestBits := by
  have hexponent : (@UnpackedFloat.unpackExponent Format.binary64 x.toModel.toBits.toBitVec).toNat =
      x.toBits.toNat / 2 ^ 52 % 2 ^ 11 := by
    rw [UnpackedFloat.unpackExponent, BitVec.toNat_cast, BitVec.extractLsb_toNat,
      Nat.shiftRight_eq_div_pow]
    rfl
  have hne : x.toBits.toNat / 2 ^ 52 % 2 ^ 11 ≠ 2047 := by
    intro heq
    have hall : @UnpackedFloat.unpackExponent Format.binary64 x.toModel.toBits.toBitVec = -1#_ :=
      BitVec.eq_of_toNat_eq (hexponent.trans heq)
    rw [Float.isFinite, Float.Model.isFinite, Float.Model.unpack, UnpackedFloat.unpack] at h
    dsimp only at h
    rw [if_pos hall] at h
    split at h <;> cases h
  rw [magnitudeBits, largestBits, Nat.pow_eq]
  omega

theorem ofDigitChars_lt {digits : List Char} (h : ∀ c ∈ digits, c.isDigit = true) (n : Nat) :
    Nat.ofDigitChars 10 digits n < (n + 1) * 10 ^ digits.length := by
  induction digits generalizing n with
  | nil => simp
  | cons c digits ih =>
    have hc := (Text.digitValue?_of_isDigit (h c List.mem_cons_self)).2
    have hrest := ih (fun d hd => h d (List.mem_cons_of_mem c hd)) (10 * n + (c.toNat - '0'.toNat))
    rw [Nat.ofDigitChars_cons, List.length_cons, Nat.pow_succ, Nat.mul_comm (10 ^ digits.length),
      ← Nat.mul_assoc]
    exact hrest.trans_le (Nat.mul_le_mul_right _ (by omega))

theorem ofDigitChars_ne_zero {digits : List Char} (h : ∀ c ∈ digits, c.isDigit = true)
    (hne : digits ≠ []) (hhead : digits.head? ≠ some '0') : Nat.ofDigitChars 10 digits 0 ≠ 0 := by
  obtain ⟨c, digits, rfl⟩ := List.exists_cons_of_ne_nil hne
  have hle := le_ofDigitChars digits (10 * 0 + (c.toNat - '0'.toNat))
  have hrange : '0'.toNat ≤ c.toNat := by
    have hc := h c List.mem_cons_self
    simp only [Char.isDigit, Bool.and_eq_true, decide_eq_true_eq] at hc
    exact UInt32.le_iff_toNat_le.mp hc.1
  have hfirst : c.toNat ≠ '0'.toNat := fun heq => hhead (congrArg some (Char.toNat_inj.mp heq))
  rw [Nat.ofDigitChars_cons]
  omega

theorem ofDigitChars_zeros_append (zeros : Nat) (digits : List Char) :
    Nat.ofDigitChars 10 (List.replicate zeros '0' ++ digits) 0 = Nat.ofDigitChars 10 digits 0 := by
  rw [Nat.ofDigitChars_append, Nat.ofDigitChars_replicate_zero, Nat.mul_zero]

/-- A number with a point and few digits has a value. -/
theorem standsForNumber_of_fraction (negative : Bool) {whole fraction : List Char}
    (hwhole : whole = ['0'] ∨ whole ≠ [] ∧ whole.head? ≠ some '0')
    (hdigits : ∀ c ∈ whole ++ fraction, c.isDigit = true) (hfraction : fraction ≠ [])
    (hvalue : Nat.ofDigitChars 10 (whole ++ fraction) 0 ≤ 10 ^ 17) :
    StandsForNumber (String.ofList (numberText negative whole fraction none)) := by
  refine ⟨_, stands_numberText negative none hwhole hdigits (hvalue.trans_lt (by decide)), ?_⟩
  refine Binary64.isSome_toFloat? hvalue fun hnonneg => ?_
  have hpos := List.length_pos_iff.mpr hfraction
  dsimp only [Option.getD_none] at hnonneg
  omega

theorem isDigit_of_mem_zeros {zeros : Nat} {c : Char} (h : c ∈ List.replicate zeros '0') :
    c.isDigit = true := by
  rw [List.eq_of_mem_replicate h]
  rfl

section

variable {d : Scientific} (h : d.Readable) (negative : Bool)

include h

/-- A number below one has zeros between the point and its digits. -/
theorem standsForNumber_below (hexponent : d.exponent < 0) :
    StandsForNumber (String.ofList (if negative then ['-'] else []) ++ positional d ".0") := by
  have htext : String.ofList (if negative then ['-'] else []) ++ positional d ".0" =
      String.ofList (numberText negative ['0']
        (List.replicate (-d.exponent - 1).toNat '0' ++ d.digits) none) := by
    refine String.toList_injective ?_
    simp [positional, hexponent, numberText, Json.exponentText, h.ne_nil]
  rw [htext]
  refine standsForNumber_of_fraction negative (.inl rfl) ?_ ?_ ?_
  · rw [← List.append_assoc, List.singleton_append, ← List.replicate_succ]
    exact fun c hc => (List.mem_append.mp hc).elim isDigit_of_mem_zeros (h.isDigit c)
  · exact List.append_ne_nil_of_right_ne_nil _ h.ne_nil
  · have hvalue := ofDigitChars_zeros_append ((-d.exponent - 1).toNat + 1) d.digits
    rw [List.replicate_succ, List.cons_append] at hvalue
    exact hvalue.trans_le h.value_le

/-- A whole number has zeros between its digits and the point. -/
theorem standsForNumber_whole (hlow : ¬ d.exponent < 0) (hhigh : d.exponent < 16)
    (hall : d.digits.length ≤ d.exponent.toNat + 1) :
    StandsForNumber (String.ofList (if negative then ['-'] else []) ++ positional d ".0") := by
  obtain ⟨zeros, hzeros⟩ := Nat.exists_eq_add_of_le hall
  have htext : String.ofList (if negative then ['-'] else []) ++ positional d ".0" =
      String.ofList (numberText negative (d.digits ++ List.replicate zeros '0') ['0'] none) := by
    refine String.toList_injective ?_
    simp [positional, hlow, numberText, Json.exponentText, hzeros]
  have hdigits : ∀ c ∈ d.digits ++ List.replicate zeros '0' ++ ['0'], c.isDigit = true := by
    rw [List.append_assoc, ← List.replicate_succ']
    exact fun c hc => (List.mem_append.mp hc).elim (h.isDigit c) isDigit_of_mem_zeros
  rw [htext]
  refine standsForNumber_of_fraction negative ?_ hdigits (List.cons_ne_nil _ _) ?_
  · obtain hhead | ⟨hone, hexponent⟩ := h.head
    · refine .inr ⟨List.append_ne_nil_of_left_ne_nil h.ne_nil _, ?_⟩
      obtain ⟨c, cs, hcs⟩ := List.exists_cons_of_ne_nil h.ne_nil
      rw [hcs] at hhead ⊢
      exact hhead
    · rw [hone, hexponent] at hzeros
      obtain rfl : zeros = 0 := Nat.add_left_cancel hzeros.symm
      exact .inl (by rw [hone]; rfl)
  · refine (ofDigitChars_lt hdigits 0).le.trans ?_
    rw [Nat.zero_add, Nat.one_mul, List.length_append, List.length_append, List.length_replicate,
      ← hzeros]
    exact Nat.pow_le_pow_right (by decide) (by simp; omega)

/-- The point may stand between the digits. -/
theorem standsForNumber_between (hlow : ¬ d.exponent < 0)
    (hmore : ¬ d.digits.length ≤ d.exponent.toNat + 1) :
    StandsForNumber (String.ofList (if negative then ['-'] else []) ++ positional d ".0") := by
  have htext : String.ofList (if negative then ['-'] else []) ++ positional d ".0" =
      String.ofList (numberText negative (d.digits.take (d.exponent.toNat + 1))
        (d.digits.drop (d.exponent.toNat + 1)) none) := by
    refine String.toList_injective ?_
    simp [positional, hlow, numberText, Json.exponentText, hmore]
  rw [htext]
  refine standsForNumber_of_fraction negative ?_ ?_ ?_ ?_
  · obtain hhead | ⟨hdigits, -⟩ := h.head
    · obtain ⟨c, cs, hcs⟩ := List.exists_cons_of_ne_nil h.ne_nil
      rw [hcs, List.take_succ_cons]
      rw [hcs] at hhead
      exact .inr ⟨List.cons_ne_nil _ _, hhead⟩
    · rw [hdigits, List.length_singleton] at hmore
      omega
  · rw [List.take_append_drop]
    exact h.isDigit
  · rw [ne_eq, List.drop_eq_nil_iff]
    exact hmore
  · rw [List.take_append_drop]
    exact h.value_le

/-- A number is read from its digits around the point. -/
theorem standsForNumber_positional (hexponent : d.exponent < 16) :
    StandsForNumber (String.ofList (if negative then ['-'] else []) ++ positional d ".0") := by
  by_cases hlow : d.exponent < 0
  · exact standsForNumber_below h negative hlow
  by_cases hall : d.digits.length ≤ d.exponent.toNat + 1
  · exact standsForNumber_whole h negative hlow hexponent hall
  · exact standsForNumber_between h negative hlow hall

/-- A number is read from its digits and an exponent. -/
theorem standsForNumber_exponential (hexponent : d.exponent ≠ 0) :
    StandsForNumber (String.ofList (if negative then ['-'] else []) ++ exponential d) := by
  have hhead : d.digits.head? ≠ some '0' := by
    obtain hhead | ⟨-, hzero⟩ := h.head
    · exact hhead
    · exact absurd hzero hexponent
  have hne := ofDigitChars_ne_zero h.isDigit h.ne_nil hhead
  obtain ⟨c, cs, hcs⟩ := List.exists_cons_of_ne_nil h.ne_nil
  have htext : String.ofList (if negative then ['-'] else []) ++ exponential d =
      String.ofList (numberText negative [c] cs (some d.exponent)) := by
    have hsign : (if d.exponent < 0 then "-" else "+").toList =
        [if d.exponent < 0 then '-' else '+'] := by
      split <;> rfl
    refine String.toList_injective ?_
    rw [exponential, hcs]
    cases cs <;> simp [numberText, Json.exponentText, hsign]
  have hdigits : ∀ c' ∈ [c] ++ cs, c'.isDigit = true := by
    rw [List.singleton_append, ← hcs]
    exact h.isDigit
  have hfits := h.fits
  have hvalue := h.value_le
  have hlength := congrArg List.length hcs
  rw [hcs] at hhead hvalue hfits hne
  rw [List.length_cons] at hlength
  rw [htext]
  refine ⟨_, stands_numberText negative _ (.inr ⟨List.cons_ne_nil _ _, hhead⟩) hdigits
    (hvalue.trans_lt (by decide)), ?_⟩
  refine Binary64.isSome_toFloat? hvalue fun hnonneg => ⟨hne, hfits _ ?_⟩
  dsimp only [Option.getD_some] at hnonneg ⊢
  rw [List.length_cons]
  omega

end

/-- A finite number is read from its text as a number. -/
theorem standsForNumber_jsonText {x : Float} (h : x.isFinite = true) :
    StandsForNumber (jsonText x) := by
  obtain ⟨negative, hsign⟩ : ∃ negative : Bool,
      signText x = String.ofList (if negative then ['-'] else []) := by
    rw [signText]
    split
    · exact ⟨true, rfl⟩
    · exact ⟨false, rfl⟩
  rw [jsonText, if_pos h, hsign]
  by_cases hzero : magnitudeBits x = 0
  · have htext : String.ofList (if negative then ['-'] else []) ++ "0.0" =
        String.ofList (numberText negative ['0'] ['0'] none) := by
      cases negative <;> rfl
    rw [if_pos hzero, htext]
    exact standsForNumber_of_fraction negative (.inl rfl) (List.all_eq_true.mp rfl)
      (List.cons_ne_nil _ _) (by decide)
  rw [if_neg hzero]
  dsimp only
  obtain hlt | heq := (magnitudeBits_le h).lt_or_eq
  · have hreadable : (shortest .toEven (magnitudeBits x)).Readable := readable_shortest hzero hlt
    by_cases hrange : -5 ≤ (shortest .toEven (magnitudeBits x)).exponent ∧
        (shortest .toEven (magnitudeBits x)).exponent < 16
    · rw [if_pos hrange]
      exact standsForNumber_positional hreadable negative hrange.2
    · rw [if_neg hrange]
      exact standsForNumber_exponential hreadable negative (by omega)
  · have htext : String.ofList (if negative then ['-'] else []) ++
        exponential ⟨"17976931348623157".toList, 308⟩ =
          String.ofList (numberText negative ['1'] "7976931348623157".toList (some 308)) := by
      cases negative <;> rfl
    have hlarge : ¬ (-5 ≤ (308 : Int) ∧ (308 : Int) < 16) := by decide
    rw [heq, shortest_largest]
    dsimp only
    rw [if_neg hlarge, htext]
    refine ⟨_, stands_numberText negative _ (.inr ⟨List.cons_ne_nil _ _, by decide⟩)
      (List.all_eq_true.mp rfl) (by decide), ?_⟩
    exact Binary64.isSome_toFloat?_largest negative

end Decimal

/-! ## Bindings -/

/-- All arguments are finite. -/
def Binding.IsFinite (b : Binding) : Prop :=
  ∀ args, b.args = some args → ∀ x ∈ args, x.isFinite = true

/-- All arguments of all bindings are finite. -/
def Bindings.IsFinite (b : Bindings) : Prop :=
  ∀ name binding, b.get? name = some binding → binding.IsFinite

namespace Binding

open Json

/-- An argument is read back if it is finite; what is not is written as null. -/
theorem exists_stands_jsonText (x : Float) : ∃ v, Stands (Decimal.jsonText x) v ∧
    ((readArg? v).isSome = true ↔ x.isFinite = true) := by
  by_cases h : x.isFinite = true
  · obtain ⟨n, hstands, hvalue⟩ := Decimal.standsForNumber_jsonText h
    exact ⟨_, hstands, iff_of_true hvalue h⟩
  · refine ⟨.null, ?_, iff_of_false Bool.false_ne_true h⟩
    rw [Decimal.jsonText, if_neg h]
    exact stands_null

theorem exists_stands_args (depth : Nat) (args : List Float) : ∃ values,
    List.Forall₂ (fun (d : Document) v => Stands (d.text depth) v)
      (args.map fun x => .atom (Decimal.jsonText x)) values ∧
    ((values.mapM readArg?).isSome = true ↔ ∀ x ∈ args, x.isFinite = true) := by
  induction args with
  | nil => exact ⟨[], .nil, by simp⟩
  | cons x args ih =>
    obtain ⟨v, hstands, hv⟩ := exists_stands_jsonText x
    obtain ⟨values, hvalues, hread⟩ := ih
    have hatom : Stands ((Document.atom (Decimal.jsonText x)).text depth) v := by
      rwa [Document.text]
    refine ⟨v :: values, .cons hatom hvalues, ?_⟩
    rw [List.forall_mem_cons, ← hv, ← hread, List.mapM_cons]
    cases readArg? v <;> cases values.mapM readArg? <;> simp

theorem ofJson?_object (func : Option String) (args : Option (List Value)) :
    ofJson? (.object ((func.toList.map fun func => (some "func", .string (some func))) ++
      args.toList.map fun args => (some "args", .array args))) =
        (readArgs? ((args.map Value.array).getD .null)).map fun args => ⟨func, args⟩ := by
  cases func <;> cases args <;> simp [ofJson?, onlyField?, readFunc?, Option.map_eq_bind]

/-- The text of a binding is read as a value that stands for a binding if the arguments are
finite. -/
theorem exists_stands_toJson (depth : Nat) (b : Binding) :
    ∃ v, Stands (b.toJson.text depth) v ∧ ((ofJson? v).isSome = true ↔ b.IsFinite) := by
  obtain ⟨func, args⟩ := b
  have hfunc : List.Forall₂ (StandsField (depth + 1))
      (func.toList.map fun func => ("func", .atom (quote func)))
      (func.toList.map fun func => (some "func", .string (some func))) := by
    cases func with
    | none => exact .nil
    | some func =>
      refine .cons ⟨rfl, ?_⟩ .nil
      rw [Document.text]
      exact stands_quote func
  obtain ⟨values, hargs, hread⟩ : ∃ values : Option (List Value),
      List.Forall₂ (StandsField (depth + 1))
        (args.toList.map fun args =>
          ("args", .array (args.map fun x => .atom (Decimal.jsonText x))))
        (values.toList.map fun args => (some "args", .array args)) ∧
      ((readArgs? ((values.map Value.array).getD .null)).isSome = true ↔
        ∀ list, args = some list → ∀ x ∈ list, x.isFinite = true) := by
    cases args with
    | none => exact ⟨none, .nil, by simp [readArgs?]⟩
    | some args =>
      obtain ⟨values, hvalues, hread⟩ := exists_stands_args (depth + 2) args
      exact ⟨some values, .cons ⟨rfl, stands_array hvalues⟩ .nil, by simp [readArgs?, hread]⟩
  refine ⟨_, stands_object (List.rel_append hfunc hargs), ?_⟩
  rw [ofJson?_object, Option.isSome_map]
  exact hread

end Binding

namespace Bindings

open Json

theorem isSome_ofFields? {entries : List (String × Binding)}
    {fields : List (Option String × Value)}
    (h : List.Forall₂ (fun e f => f.1 = some e.1 ∧
      ((Binding.ofJson? f.2).isSome = true ↔ e.2.IsFinite)) entries fields) (b : Bindings) :
    (ofFields? b fields).isSome = true ↔ ∀ e ∈ entries, e.2.IsFinite := by
  induction h generalizing b with
  | nil => exact iff_of_true rfl (List.forall_mem_nil _)
  | @cons e f entries fields hfirst _ ih =>
    obtain ⟨name, value⟩ := f
    obtain ⟨rfl, hfinite⟩ := hfirst
    rw [List.forall_mem_cons, ← hfinite, ofFields?]
    dsimp only
    cases hread : Binding.ofJson? value with
    | none => simp
    | some binding => simp [ih]

theorem get?_eq_some_iff {b : Bindings} {name : String} {binding : Binding} :
    b.get? name = some binding ↔ (name, binding) ∈ b.entries := by
  refine ⟨fun h => ?_, fun h => ?_⟩
  · obtain ⟨front, back, hsplit, -⟩ := List.lookup_eq_some_iff.mp h
    rw [hsplit]
    exact List.mem_append_right _ List.mem_cons_self
  · obtain ⟨front, back, hsplit⟩ := List.append_of_mem h
    refine List.lookup_eq_some_iff.mpr ⟨front, back, hsplit, fun e he => ?_⟩
    have horder := b.inOrder
    rw [InOrder, hsplit, List.map_append, List.pairwise_append] at horder
    have hlt : e.1 < name := horder.2.2 _ (List.mem_map_of_mem he) _ List.mem_cons_self
    exact bne_iff_ne.mpr fun heq => String.lt_irrefl name (heq ▸ hlt)

theorem isFinite_iff {b : Bindings} : b.IsFinite ↔ ∀ e ∈ b.entries, e.2.IsFinite := by
  simp only [IsFinite, get?_eq_some_iff, Prod.forall]

/-- Bindings are read back from their text if all arguments are finite, and only then. -/
theorem isSome_parse?_text_iff (b : Bindings) :
    (parse? b.text).isSome = true ↔ b.IsFinite := by
  have hfields : ∃ fields, List.Forall₂ (StandsField 1)
        (b.entries.map fun e => (e.1, e.2.toJson)) fields ∧
      List.Forall₂ (fun e f => f.1 = some e.1 ∧
        ((Binding.ofJson? f.2).isSome = true ↔ e.2.IsFinite)) b.entries fields := by
    induction b.entries with
    | nil => exact ⟨[], .nil, .nil⟩
    | cons e entries ih =>
      obtain ⟨fields, hstands, hread⟩ := ih
      obtain ⟨v, hv, hfinite⟩ := e.2.exists_stands_toJson 1
      exact ⟨(some e.1, v) :: fields, .cons ⟨rfl, hv⟩ hstands, .cons ⟨rfl, hfinite⟩ hread⟩
  obtain ⟨fields, hstands, hread⟩ := hfields
  have hparse : Json.parse? b.text = some (.object fields) := (stands_object hstands).parse?
  rw [parse?, hparse, isFinite_iff]
  exact isSome_ofFields? hread {}

/-! ## What is set for a shader -/

theorem isFinite_component (kind : ScalarKind) (r : RandomSource) :
    (RandomSource.component kind r).1.isFinite = true := by
  have hinteger : kind = .int ∨ kind = .uint →
      (RandomSource.component kind r).1.isFinite = true := by
    intro hkind
    obtain ⟨k, hk, hvalue⟩ := RandomSource.component_integer hkind r
    rw [hvalue]
    exact Binary64.isFinite_ofNat (hk.trans_lt (by decide))
  cases kind with
  | float => exact Binary64.isFinite_unit r
  | int => exact hinteger (.inl rfl)
  | uint => exact hinteger (.inr rfl)
  | bool =>
    obtain hvalue | hvalue := RandomSource.component_truth r
    · rw [hvalue]
      exact Binary64.isFinite_ofNat (by decide)
    · rw [hvalue]
      exact Binary64.isFinite_ofNat (by decide)

theorem IsFinite.complete {b : Bindings} (h : b.IsFinite) (u : Uniform) (r : RandomSource) :
    (b.complete u r).1.IsFinite := by
  intro name binding hget
  obtain ⟨func, args, heq, hkeeps, hargs⟩ := complete_cases b u r
  by_cases hname : name = u.name
  · rw [heq, hname, get?_insert_self] at hget
    obtain rfl := Option.some.inj hget
    intro args' hargs'
    obtain rfl := Option.some.inj hargs'
    cases hold : ((b.get? u.name).getD {}).args with
    | some old =>
      obtain rfl := Option.some.inj (hkeeps.args old hold)
      cases hbefore : b.get? u.name with
      | none =>
        rw [hbefore] at hold
        cases hold
      | some before =>
        rw [hbefore] at hold
        exact h _ _ hbefore _ hold
    | none =>
      obtain ⟨-, rfl⟩ | ⟨-, rfl⟩ := hargs hold
      · exact List.forall_mem_cons.mpr ⟨by decide +kernel,
          List.forall_mem_singleton.mpr (by decide +kernel)⟩
      · exact RandomSource.forall_components (isFinite_component _) _ _
  · rw [get?_complete_of_ne hname] at hget
    exact h name binding hget

/-- To set what is unset does not change whether all arguments are finite. -/
theorem isFinite_withDefaults_iff (b : Bindings) (s : Shader) (r : RandomSource) :
    (b.withDefaults s r).1.IsFinite ↔ b.IsFinite := by
  refine ⟨fun h name old hget args hargs => ?_, fun h => ?_⟩
  · obtain ⟨new, hnew, hkeeps⟩ := keeps_completeAll (Uniform.ofShader s) r hget
    exact h name new hnew args (hkeeps.args args hargs)
  · rw [withDefaults]
    induction Uniform.ofShader s generalizing b r with
    | nil => exact h
    | cons u us ih => exact ih _ _ (h.complete u r)

end Bindings

end ShaderReducer

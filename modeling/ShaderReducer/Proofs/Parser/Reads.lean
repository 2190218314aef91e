import Mathlib.Logic.Basic
import ShaderReducer.Parser.Program

/-!
# What the rules of the grammar read

That a rule reads a value and leaves some tokens is a statement without the proof that there are
fewer of them. Each rule says in these terms what it is made of, one lemma for each of its branches.
-/

namespace ShaderReducer

namespace Parser

variable {α β : Type} {n m : Nat}

/-- An answer that gives a value and leaves the tokens `rest`. -/
def Reads (answer : Outcome α n) (value : α) (rest : List Token) : Prop :=
  ∃ h, answer = .ok ⟨value, rest, h⟩

namespace Reads

variable {answer : Outcome α n} {value : α} {rest : List Token}

theorem lt (h : Reads answer value rest) : rest.length < n :=
  h.1

theorem unique {value' : α} {rest' : List Token} (h : Reads answer value rest)
    (h' : Reads answer value' rest') : value' = value ∧ rest' = rest := by
  obtain ⟨_, rfl⟩ := h
  obtain ⟨_, heq⟩ := h'
  cases heq
  exact ⟨rfl, rfl⟩

end Reads

section Steps

variable {answer : Outcome α n} {value : α} {rest : List Token}

-- Ahead of the library's lemmas, which would move parts of `p` in front of what is read.
@[simp 1100] theorem exists_reads {p : Prop} :
    (∃ _ : Reads answer value rest, p) ↔ Reads answer value rest ∧ p :=
  exists_prop

/-- A rule made of two parts reads the first and then the second. -/
@[simp] theorem reads_bind {next : Parsed α n → Outcome β m} {value : β} :
    Reads (answer >>= next) value rest ↔
      ∃ first mid, ∃ h : Reads answer first mid, Reads (next ⟨first, mid, h.lt⟩) value rest := by
  cases answer with
  | error failure =>
      constructor
      · rintro ⟨_, h⟩
        cases h
      · rintro ⟨_, _, ⟨_, h⟩, -⟩
        cases h
  | ok p =>
      constructor
      · exact fun h => ⟨p.value, p.rest, ⟨p.fewer, rfl⟩, h⟩
      · rintro ⟨_, _, ⟨_, h⟩, hnext⟩
        cases h
        exact hnext

@[simp] theorem reads_ok {p : Parsed α n} :
    Reads (.ok p : Outcome α n) value rest ↔ value = p.value ∧ rest = p.rest := by
  constructor
  · rintro ⟨_, h⟩
    cases h
    exact ⟨rfl, rfl⟩
  · rintro ⟨rfl, rfl⟩
    exact ⟨p.fewer, rfl⟩

@[simp] theorem reads_pure {p : Parsed α n} :
    Reads (pure p : Outcome α n) value rest ↔ value = p.value ∧ rest = p.rest :=
  reads_ok

@[simp] theorem reads_map {change : Parsed α n → Parsed β m} {value : β} :
    Reads (change <$> answer) value rest ↔ ∃ first mid, ∃ h : Reads answer first mid,
      value = (change ⟨first, mid, h.lt⟩).value ∧ rest = (change ⟨first, mid, h.lt⟩).rest := by
  rw [← bind_pure_comp, reads_bind]
  simp only [reads_pure]

@[simp] theorem reads_error {failure : Failure} :
    Reads (.error failure : Outcome α n) value rest ↔ False := by
  constructor
  · rintro ⟨_, h⟩
    cases h
  · exact False.elim

@[simp] theorem reads_loosen : Reads answer.loosen value rest ↔ Reads answer value rest := by
  cases answer with
  | error failure => exact reads_error.trans reads_error.symm
  | ok p => exact reads_ok.trans (reads_ok (p := p)).symm

theorem reads_ite {c : Prop} [Decidable c] {other : Outcome α n} :
    Reads (if c then answer else other) value rest ↔
      (c ∧ Reads answer value rest) ∨ (¬ c ∧ Reads other value rest) := by
  split
  next hc => simp [hc]
  next hc => simp [hc]

variable {ahead : List Token} {k : Nat}

@[simp] theorem reads_since {answer : Outcome α ahead.length} (h : ahead.length < k) :
    Reads (answer.since h) value rest ↔ Reads answer value rest := by
  cases answer with
  | error failure => exact reads_error.trans reads_error.symm
  | ok p => exact reads_ok.trans (reads_ok (p := p)).symm

@[simp] theorem reads_sinceMaybe {answer : Outcome α (ahead.length + 1)} (h : ahead.length < k) :
    Reads (answer.sinceMaybe h) value rest ↔ Reads answer value rest := by
  cases answer with
  | error failure => exact reads_error.trans reads_error.symm
  | ok p => exact reads_ok.trans (reads_ok (p := p)).symm

@[simp] theorem reads_after {answer : Outcome α ahead.length} (h : ahead.length < k + 1) :
    Reads (answer.after h) value rest ↔ Reads answer value rest := by
  cases answer with
  | error failure => exact reads_error.trans reads_error.symm
  | ok p => exact reads_ok.trans (reads_ok (p := p)).symm

end Steps

/-! ## Single tokens -/

variable {t : Token} {ts after rest : List Token}

@[simp] theorem reads_expect {kind : TokenKind} {u : Unit} :
    Reads (expect kind ts) u rest ↔ ∃ t, ts = t :: rest ∧ t.kind = kind := by
  cases ts with
  | nil => simp [expect, reads_error]
  | cons t after =>
      rw [expect]
      split
      next hkind =>
        simp only [reads_ok, Parsed.one, List.cons.injEq]
        constructor
        · rintro ⟨-, rfl⟩
          exact ⟨t, ⟨rfl, rfl⟩, hkind⟩
        · rintro ⟨_, ⟨-, rfl⟩, -⟩
          exact ⟨trivial, rfl⟩
      next hkind =>
        simp only [reads_error, List.cons.injEq, false_iff, not_exists, not_and]
        rintro _ ⟨rfl, -⟩ h
        exact hkind h

@[simp] theorem reads_expectSymbol {sign : Symbol} {u : Unit} :
    Reads (expectSymbol sign ts) u rest ↔ ∃ t, ts = t :: rest ∧ t.kind = .symbol sign :=
  reads_expect

@[simp] theorem reads_expectKeyword {word : Keyword} {u : Unit} :
    Reads (expectKeyword word ts) u rest ↔ ∃ t, ts = t :: rest ∧ t.kind = .keyword word :=
  reads_expect

@[simp] theorem reads_name {expected : Expectation} {text : String} :
    Reads (name expected ts) text rest ↔
      ∃ t, ts = t :: rest ∧ t.kind = .identifier ∧ text = t.lexeme := by
  cases ts with
  | nil => simp [name, reads_error]
  | cons t after =>
      rw [name]
      split
      next hkind =>
        simp only [reads_ok, Parsed.one, List.cons.injEq]
        constructor
        · rintro ⟨rfl, rfl⟩
          exact ⟨t, ⟨rfl, rfl⟩, hkind, rfl⟩
        · rintro ⟨_, ⟨rfl, rfl⟩, -, rfl⟩
          exact ⟨rfl, rfl⟩
      next hkind =>
        simp only [reads_error, List.cons.injEq, false_iff, not_exists, not_and]
        rintro _ ⟨rfl, -⟩ h
        exact absurd h hkind

@[simp] theorem reads_identifier {text : String} :
    Reads (identifier ts) text rest ↔
      ∃ t, ts = t :: rest ∧ t.kind = .identifier ∧ text = t.lexeme :=
  reads_name

end Parser

end ShaderReducer

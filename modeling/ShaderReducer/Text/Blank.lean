/-!
# Ranges of characters

A property of characters is a list of ranges of their numbers, in order and with gaps between them.
-/

namespace ShaderReducer

namespace Text

def inRanges (n : Nat) : List (Nat × Nat) → Bool
  | [] => false
  | (first, last) :: rest => first ≤ n && (n ≤ last || inRanges n rest)

def areSeparate (least : Nat) : List (Nat × Nat) → Bool
  | [] => true
  | (first, last) :: rest => least ≤ first && first ≤ last && areSeparate (last + 2) rest

theorem le_of_areSeparate {least : Nat} {ranges : List (Nat × Nat)}
    (h : areSeparate least ranges = true) : ∀ r ∈ ranges, least ≤ r.1 := by
  induction ranges generalizing least with
  | nil => simp
  | cons r rest ih =>
    obtain ⟨first, last⟩ := r
    simp only [areSeparate, Bool.and_eq_true, decide_eq_true_eq] at h
    obtain ⟨⟨h₁, h₂⟩, h₃⟩ := h
    rintro r (_ | ⟨_, hr⟩)
    · exact h₁
    · have := ih h₃ r hr
      omega

/-- In ranges that are in order, looking no further than to the first range that begins above a
number finds the range that it lies in. -/
theorem inRanges_iff (n least : Nat) (ranges : List (Nat × Nat))
    (h : areSeparate least ranges = true) :
    inRanges n ranges = true ↔ ∃ r ∈ ranges, r.1 ≤ n ∧ n ≤ r.2 := by
  induction ranges generalizing least with
  | nil => simp [inRanges]
  | cons r rest ih =>
    obtain ⟨first, last⟩ := r
    simp only [areSeparate, Bool.and_eq_true, decide_eq_true_eq] at h
    obtain ⟨⟨_, h₂⟩, h₃⟩ := h
    simp only [inRanges, Bool.and_eq_true, Bool.or_eq_true, decide_eq_true_eq, ih _ h₃,
      List.mem_cons, exists_eq_or_imp]
    constructor
    · rintro ⟨hf, hl | hr⟩
      · exact Or.inl ⟨hf, hl⟩
      · exact Or.inr hr
    · rintro (⟨hf, hl⟩ | ⟨r, hr, hrn⟩)
      · exact ⟨hf, Or.inl hl⟩
      · have := le_of_areSeparate h₃ r hr
        exact ⟨by omega, Or.inr ⟨r, hr, hrn⟩⟩

end Text

end ShaderReducer

/-!
## White space

The characters of the Unicode property `White_Space`, and the operations on text that are stated
with them: cutting white space from an end, splitting into words, and the lines of a text.
-/

namespace ShaderReducer

namespace Text

def blankRanges : List (Nat × Nat) :=
  [(0x9, 0xD), (0x20, 0x20), (0x85, 0x85), (0xA0, 0xA0), (0x1680, 0x1680), (0x2000, 0x200A),
   (0x2028, 0x2029), (0x202F, 0x202F), (0x205F, 0x205F), (0x3000, 0x3000)]

def isBlank (c : Char) : Bool :=
  inRanges c.toNat blankRanges

def trimEndList (cs : List Char) : List Char :=
  (cs.reverse.dropWhile isBlank).reverse

/-- The text without the white space at its beginning. -/
def trimStartList (cs : List Char) : List Char :=
  cs.dropWhile isBlank

def trimEnd (s : String) : String :=
  String.ofList (trimEndList s.toList)

/-- The first word and what follows it, after leading white space. -/
def wordsAux : List Char → List Char → List String
  | word, [] => if word.isEmpty then [] else [String.ofList word.reverse]
  | word, c :: rest =>
    if isBlank c then
      if word.isEmpty then wordsAux [] rest else String.ofList word.reverse :: wordsAux [] rest
    else
      wordsAux (c :: word) rest

theorem wordsAux_cons (word : List Char) (c : Char) (rest : List Char) :
    wordsAux word (c :: rest) =
      if isBlank c then
        if word.isEmpty then wordsAux [] rest else String.ofList word.reverse :: wordsAux [] rest
      else wordsAux (c :: word) rest :=
  rfl

/-- The maximal runs of characters that are not white space, in order. -/
def words (cs : List Char) : List String :=
  wordsAux [] cs

def splitOn (sep : Char) : List Char → List (List Char)
  | [] => [[]]
  | c :: rest =>
    match splitOn sep rest with
    | [] => [[c]]
    | piece :: pieces => if c = sep then [] :: piece :: pieces else (c :: piece) :: pieces

theorem splitOn_ne_nil (sep : Char) (cs : List Char) : splitOn sep cs ≠ [] := by
  cases cs with
  | nil => simp [splitOn]
  | cons c rest =>
    unfold splitOn
    split
    · simp
    · split <;> simp

/-- The lines of a text: a line ends before a newline, and an empty last piece is no line. -/
def linesList (cs : List Char) : List (List Char) :=
  let pieces := splitOn '\n' cs
  if pieces.getLast? = some [] then pieces.dropLast else pieces

def startsWith (beginning : List Char) (cs : List Char) : Bool :=
  beginning.isPrefixOf cs

def occursIn (part : List Char) : List Char → Bool
  | [] => part.isEmpty
  | c :: rest => startsWith part (c :: rest) || occursIn part rest

end Text

end ShaderReducer

import Mathlib.Data.List.Infix
import Mathlib.Data.List.Nodup
import ShaderReducer.Judge.Image

/-!
# Commands with placeholders

The command of a judge is a template with the paths of a candidate in the place of placeholders.
`fill` reads a template once, from left to right, and puts in a path wherever a placeholder stands.
`expand` replaces one placeholder after the other, in a text that holds the paths put in before.
Both give the same command exactly if these paths bring in no placeholder that comes later.
-/

namespace ShaderReducer

namespace JudgeCommand

/-- A text with values for placeholders, read from left to right behind the rest of a placeholder of
so many characters. What a value brings in is not read. -/
def fill (values : List (String × Path)) : Nat → List Char → List Char
  | _, [] => []
  | inside + 1, _ :: rest => fill values inside rest
  | 0, c :: rest =>
    match values.find? fun e => e.1.toList.isPrefixOf (c :: rest) with
    | some (p, v) => v.text.toList ++ fill values (p.toList.length - 1) rest
    | none => c :: fill values 0 rest

/-- A template with a value in each place where its placeholder stands, and all other characters as
they are. -/
def substitute (template : String) (values : List (String × Path)) : String :=
  String.ofList (fill values 0 template.toList)

/-- At how many places of a text a placeholder stands. -/
def occurrences (p : List Char) : List Char → Nat
  | [] => 0
  | c :: rest => occurrences p rest + if p.isPrefixOf (c :: rest) then 1 else 0

/-- The values of earlier placeholders bring in none of the later ones: each of these stands in the
text so far at as many places as in the template. -/
def Undisturbed (template : String) (values : List (String × Path)) : Prop :=
  ∀ before p v, before ++ [(p, v)] <+: values →
    occurrences p.toList (expand template before).toList = occurrences p.toList template.toList

/-! ## Placeholders -/

/-- A placeholder is a name in braces. -/
def IsPlaceholder (p : List Char) : Prop :=
  ∃ name, p = '\x7b' :: (name ++ ['\x7d']) ∧ '\x7b' ∉ name ∧ '\x7d' ∉ name

section

variable {p q cs rest : List Char}

/-- A placeholder goes up to the first closing brace. -/
theorem IsPlaceholder.eq_takeWhile (hp : IsPlaceholder p) (h : p <+: cs) :
    p = cs.takeWhile (· != '\x7d') ++ ['\x7d'] := by
  obtain ⟨name, rfl, -, hclose⟩ := hp
  obtain ⟨rest, rfl⟩ := h
  have hname : ∀ c ∈ '\x7b' :: name, (c != '\x7d') = true := by
    rintro c (_ | ⟨_, hc⟩)
    · rfl
    · exact bne_iff_ne.mpr fun heq => hclose (heq ▸ hc)
  rw [← List.cons_append, List.append_assoc, List.takeWhile_append_of_pos hname,
    List.singleton_append, List.takeWhile_cons_of_neg (by decide), List.append_nil]

/-- No two placeholders stand at one place. -/
theorem IsPlaceholder.eq_of_starts (hp : IsPlaceholder p) (hq : IsPlaceholder q) (h : p <+: cs)
    (h' : q <+: cs) : p = q := by
  rw [hp.eq_takeWhile h, hq.eq_takeWhile h']

/-- Only the first character of a placeholder opens one. -/
theorem IsPlaceholder.exists_cons (hp : IsPlaceholder p) :
    ∃ tail, p = '\x7b' :: tail ∧ '\x7b' ∉ tail := by
  obtain ⟨name, rfl, hopen, -⟩ := hp
  refine ⟨_, rfl, fun hmem => ?_⟩
  obtain hmem | hmem := List.mem_append.mp hmem
  · exact hopen hmem
  · exact absurd (List.mem_singleton.mp hmem) (by decide)

theorem IsPlaceholder.not_starts (hp : IsPlaceholder p) {c : Char} (hc : c ≠ '\x7b') :
    ¬ p <+: c :: rest := by
  obtain ⟨tail, rfl, -⟩ := hp.exists_cons
  exact fun h => hc (List.cons_prefix_cons.mp h).1.symm

/-! ## Places -/

theorem occurrences_cons (c : Char) : occurrences p (c :: rest) =
    occurrences p rest + if p <+: c :: rest then 1 else 0 := by
  rw [occurrences]
  simp only [List.isPrefixOf_iff_prefix]

theorem occurrences_le_append (cs : List Char) :
    occurrences p rest ≤ occurrences p (cs ++ rest) := by
  induction cs with
  | nil => exact Nat.le_refl _
  | cons c cs ih =>
      rw [List.cons_append, occurrences_cons]
      exact ih.trans (Nat.le_add_right _ _)

theorem occurrences_append_of_notMem (hp : IsPlaceholder p) (hcs : '\x7b' ∉ cs) :
    occurrences p (cs ++ rest) = occurrences p rest := by
  induction cs with
  | nil => rfl
  | cons c cs ih =>
      rw [List.mem_cons, not_or] at hcs
      rw [List.cons_append, occurrences_cons, if_neg (hp.not_starts (Ne.symm hcs.1)), ih hcs.2]
      rfl

/-- A placeholder stands where it begins, and no other one stands in it. -/
theorem occurrences_append (hp : IsPlaceholder p) (hq : IsPlaceholder q) :
    occurrences p (q ++ rest) = occurrences p rest + if p = q then 1 else 0 := by
  have hstarts : p <+: q ++ rest ↔ p = q := by
    constructor
    · exact fun h => hp.eq_of_starts hq h (List.prefix_append q rest)
    · rintro rfl
      exact List.prefix_append p rest
  obtain ⟨tail, rfl, htail⟩ := hq.exists_cons
  rw [List.cons_append] at hstarts ⊢
  rw [occurrences_cons, occurrences_append_of_notMem hp htail, if_congr hstarts rfl rfl]

end

/-! ## Tables of values -/

/-- Values for placeholders, one for each. -/
structure IsTable (values : List (String × Path)) : Prop where
  placeholder : ∀ e ∈ values, IsPlaceholder e.1.toList
  distinct : (values.map Prod.fst).Nodup

namespace IsTable

variable {values : List (String × Path)} {e : String × Path} {cs rest : List Char}

theorem sublist {fewer : List (String × Path)} (h : IsTable values) (hsub : fewer.Sublist values) :
    IsTable fewer :=
  ⟨fun e he => h.placeholder e (hsub.subset he), h.distinct.sublist (hsub.map Prod.fst)⟩

theorem of_append {more : List (String × Path)} (h : IsTable (values ++ more)) : IsTable values :=
  h.sublist (List.sublist_append_left values more)

theorem last (h : IsTable (values ++ [e])) : IsTable [e] :=
  h.sublist (List.sublist_append_right values [e])

/-- No value before the last one is for the same placeholder. -/
theorem ne_last (h : IsTable (values ++ [e])) : ∀ e' ∈ values, e'.1 ≠ e.1 := by
  intro e' he' heq
  have hdistinct := h.distinct
  rw [List.map_append, List.map_singleton, ← List.concat_eq_append, List.nodup_concat] at hdistinct
  exact hdistinct.1 (heq ▸ List.mem_map_of_mem he')

/-- What is found at a place is the value for the placeholder that stands there. -/
theorem find?_eq_some (h : IsTable values) (he : e ∈ values) (hcs : e.1.toList <+: cs) :
    values.find? (fun e => e.1.toList.isPrefixOf cs) = some e := by
  cases hfind : values.find? fun e => e.1.toList.isPrefixOf cs with
  | none =>
      refine absurd (List.find?_eq_none.mp hfind e he) (not_not.mpr ?_)
      exact List.isPrefixOf_iff_prefix.mpr hcs
  | some e' =>
      have he' := List.mem_of_find?_eq_some hfind
      have hcs' : e'.1.toList.isPrefixOf cs = true := by
        have hfound := List.find?_some hfind
        exact hfound
      have hname : e'.1 = e.1 := String.toList_inj.mp ((h.placeholder e' he').eq_of_starts
        (h.placeholder e he) (List.isPrefixOf_iff_prefix.mp hcs') hcs)
      rw [List.inj_on_of_nodup_map h.distinct he' he hname]

end IsTable

section

variable {values : List (String × Path)} {e : String × Path} {cs rest : List Char}

theorem fill_eq_drop (values : List (String × Path)) (n : Nat) (cs : List Char) :
    fill values n cs = fill values 0 (cs.drop n) := by
  induction n generalizing cs with
  | zero => rfl
  | succ n ih =>
      cases cs with
      | nil => rfl
      | cons c cs => exact ih cs

/-- Where a placeholder stands, its value is put in. -/
theorem fill_place (h : IsTable values) (he : e ∈ values) (rest : List Char) :
    fill values 0 (e.1.toList ++ rest) = e.2.text.toList ++ fill values 0 rest := by
  have hfind := h.find?_eq_some he (List.prefix_append e.1.toList rest)
  obtain ⟨tail, htail, -⟩ := (h.placeholder e he).exists_cons
  rw [htail, List.cons_append] at hfind ⊢
  rw [fill, hfind]
  dsimp only
  rw [fill_eq_drop, htail, List.length_cons, Nat.add_sub_cancel, List.drop_left]

/-- Where none stands, the next character is kept. -/
theorem fill_copy {c : Char} (h : ∀ e ∈ values, ¬ e.1.toList <+: c :: rest) :
    fill values 0 (c :: rest) = c :: fill values 0 rest := by
  have hfind : values.find? (fun e => e.1.toList.isPrefixOf (c :: rest)) = none :=
    List.find?_eq_none.mpr fun e he => by
      rw [List.isPrefixOf_iff_prefix]
      exact h e he
  rw [fill, hfind]

theorem fill_append_of_notMem (h : IsTable values) (hcs : '\x7b' ∉ cs) :
    fill values 0 (cs ++ rest) = cs ++ fill values 0 rest := by
  induction cs with
  | nil => rfl
  | cons c cs ih =>
      rw [List.mem_cons, not_or] at hcs
      rw [List.cons_append, fill_copy fun e he =>
        (h.placeholder e he).not_starts (Ne.symm hcs.1), ih hcs.2]
      rfl

/-- A placeholder without a value is kept. -/
theorem fill_other (h : IsTable values) {p : String} (hp : IsPlaceholder p.toList)
    (hne : ∀ e ∈ values, e.1 ≠ p) (rest : List Char) :
    fill values 0 (p.toList ++ rest) = p.toList ++ fill values 0 rest := by
  obtain ⟨tail, htail, hopen⟩ := hp.exists_cons
  have hnone : ∀ e ∈ values, ¬ e.1.toList <+: p.toList ++ rest := fun e he hstarts =>
    hne e he (String.toList_inj.mp ((h.placeholder e he).eq_of_starts hp hstarts
      (List.prefix_append p.toList rest)))
  rw [htail, List.cons_append] at hnone ⊢
  rw [fill_copy hnone, fill_append_of_notMem h hopen, List.cons_append]

/-- A text is read along its placeholders and its other characters. -/
@[elab_as_elim]
theorem read_induction (values : List (String × Path))
    (hplaceholder : ∀ e ∈ values, IsPlaceholder e.1.toList) {motive : List Char → Prop}
    (nil : motive [])
    (place : ∀ e rest, e ∈ values → motive rest → motive (e.1.toList ++ rest))
    (copy : ∀ c rest, (∀ e ∈ values, ¬ e.1.toList <+: c :: rest) → motive rest → motive (c :: rest))
    (cs : List Char) : motive cs := by
  induction hn : cs.length using Nat.strongRecOn generalizing cs with
  | _ n ih =>
      by_cases hstands : ∃ e ∈ values, e.1.toList <+: cs
      · obtain ⟨e, he, rest, rfl⟩ := hstands
        obtain ⟨tail, htail, -⟩ := (hplaceholder e he).exists_cons
        refine place e rest he (ih rest.length ?_ rest rfl)
        rw [← hn, List.length_append, htail, List.length_cons]
        omega
      · cases cs with
        | nil => exact nil
        | cons c rest =>
            refine copy c rest (fun e he h => hstands ⟨e, he, h⟩) (ih rest.length ?_ rest rfl)
            rw [← hn, List.length_cons]
            exact Nat.lt_succ_self _

end

/-! ## One placeholder after the other -/

section

variable {values : List (String × Path)} {e : String × Path} {cs rest : List Char}

theorem fill_nil (cs : List Char) : fill [] 0 cs = cs := by
  induction cs with
  | nil => rfl
  | cons c cs ih => rw [fill_copy (List.forall_mem_nil _), ih]

/-- To replace a placeholder is to fill a text with one value. -/
theorem replaceAll_eq (h : IsTable [e]) {n : Nat} (hn : cs.length ≤ n) :
    replaceAll e.1.toList e.2.text.toList n cs = fill [e] 0 cs := by
  induction n generalizing cs with
  | zero =>
      obtain rfl := List.length_eq_zero_iff.mp (Nat.le_zero.mp hn)
      rfl
  | succ n ih =>
      cases cs with
      | nil => rfl
      | cons c rest =>
          rw [replaceAll]
          split
          next hstarts =>
            obtain ⟨rest', heq⟩ := List.isPrefixOf_iff_prefix.mp hstarts
            obtain ⟨tail, htail, -⟩ := (h.placeholder e (List.mem_singleton_self e)).exists_cons
            have hlength := congrArg List.length heq
            rw [List.length_append, htail, List.length_cons] at hlength
            rw [← heq, List.drop_left, fill_place h (List.mem_singleton_self e), ih (by omega)]
          next hnone =>
            rw [List.isPrefixOf_iff_prefix] at hnone
            rw [fill_copy (List.forall_mem_singleton.mpr hnone),
              ih (Nat.le_of_succ_le_succ hn)]

/-- The last placeholder is replaced in what the others have left. -/
theorem toList_expand_concat (h : IsTable [e]) (template : String) :
    (expand template (values ++ [e])).toList = fill [e] 0 (expand template values).toList := by
  rw [expand, List.foldl_append, String.toList_ofList, expand, String.toList_ofList]
  exact replaceAll_eq h (Nat.le_refl _)

/-- A text is kept up to a place, if a placeholder stands only behind that place. -/
theorem fill_append_of_occurrences_eq
    (hcs : occurrences e.1.toList (cs ++ rest) = occurrences e.1.toList rest) :
    fill [e] 0 (cs ++ rest) = cs ++ fill [e] 0 rest := by
  induction cs with
  | nil => rfl
  | cons c cs ih =>
      have hle : occurrences e.1.toList rest ≤ occurrences e.1.toList (cs ++ rest) :=
        occurrences_le_append cs
      rw [List.cons_append, occurrences_cons] at hcs
      have hnone : ¬ e.1.toList <+: c :: (cs ++ rest) := by
        intro hstarts
        rw [if_pos hstarts] at hcs
        omega
      rw [if_neg hnone] at hcs
      rw [List.cons_append, fill_copy (List.forall_mem_singleton.mpr hnone), ih hcs,
        List.cons_append]

namespace IsTable

variable {e' : String × Path}

theorem placeholder_last (h : IsTable (values ++ [e])) : IsPlaceholder e.1.toList :=
  h.placeholder e (List.mem_append_right values (List.mem_singleton_self e))

theorem occurrences_last (h : IsTable (values ++ [e])) (rest : List Char) :
    occurrences e.1.toList (e.1.toList ++ rest) = occurrences e.1.toList rest + 1 := by
  rw [occurrences_append h.placeholder_last h.placeholder_last, if_pos rfl]

theorem occurrences_before (h : IsTable (values ++ [e])) (he' : e' ∈ values) (rest : List Char) :
    occurrences e.1.toList (e'.1.toList ++ rest) = occurrences e.1.toList rest := by
  have hne : e.1.toList ≠ e'.1.toList := fun heq =>
    h.ne_last e' he' (String.toList_inj.mp heq).symm
  rw [occurrences_append h.placeholder_last (h.of_append.placeholder e' he'), if_neg hne]
  rfl

/-- The last placeholder is kept as long as only the others are filled. -/
theorem fill_last (h : IsTable (values ++ [e])) (rest : List Char) :
    fill values 0 (e.1.toList ++ rest) = e.1.toList ++ fill values 0 rest :=
  fill_other h.of_append h.placeholder_last h.ne_last rest

/-- What is read with all values is a value before the last one, the last one, or a character. -/
@[elab_as_elim]
theorem concat_induction (h : IsTable (values ++ [e])) {motive : List Char → Prop}
    (nil : motive [])
    (before : ∀ e' rest, e' ∈ values → motive rest → motive (e'.1.toList ++ rest))
    (last : ∀ rest, motive rest → motive (e.1.toList ++ rest))
    (copy : ∀ c rest, (∀ e' ∈ values, ¬ e'.1.toList <+: c :: rest) → ¬ e.1.toList <+: c :: rest →
      motive rest → motive (c :: rest))
    (cs : List Char) : motive cs := by
  induction cs using read_induction (values ++ [e]) h.placeholder with
  | nil => exact nil
  | place e' rest he' ih =>
      obtain he' | he' := List.mem_append.mp he'
      · exact before e' rest he' ih
      · obtain rfl := List.mem_singleton.mp he'
        exact last rest ih
  | copy c rest hnone ih =>
      exact copy c rest (fun e' he' => hnone e' (List.mem_append_left _ he'))
        (hnone e (List.mem_append_right _ (List.mem_singleton_self e))) ih

end IsTable

theorem fill_concat_copy {c : Char} (hnone : ∀ e' ∈ values, ¬ e'.1.toList <+: c :: rest)
    (hlast : ¬ e.1.toList <+: c :: rest) :
    fill (values ++ [e]) 0 (c :: rest) = c :: fill (values ++ [e]) 0 rest :=
  fill_copy (List.forall_mem_append.mpr ⟨hnone, List.forall_mem_singleton.mpr hlast⟩)

/-- Values do not take away a placeholder that comes later. -/
theorem occurrences_le_fill (h : IsTable (values ++ [e])) (cs : List Char) :
    occurrences e.1.toList cs ≤ occurrences e.1.toList (fill values 0 cs) := by
  induction cs using h.concat_induction with
  | nil => exact Nat.le_refl _
  | before e' rest he' ih =>
      rw [h.occurrences_before he', fill_place h.of_append he']
      exact ih.trans (occurrences_le_append _)
  | last rest ih =>
      rw [h.fill_last, h.occurrences_last, h.occurrences_last]
      exact Nat.add_le_add_right ih 1
  | copy c rest hnone hlast ih =>
      rw [fill_copy hnone, occurrences_cons, if_neg hlast, occurrences_cons]
      omega

/-- If values bring in no placeholder that comes later, it may be replaced after them or along with
them. -/
theorem fill_fill (h : IsTable (values ++ [e])) (cs : List Char)
    (hsame : occurrences e.1.toList (fill values 0 cs) = occurrences e.1.toList cs) :
    fill [e] 0 (fill values 0 cs) = fill (values ++ [e]) 0 cs := by
  induction cs using h.concat_induction with
  | nil => rfl
  | before e' rest he' ih =>
      have hle := occurrences_le_fill h rest
      have hvalue : occurrences e.1.toList (fill values 0 rest) ≤
          occurrences e.1.toList (e'.2.text.toList ++ fill values 0 rest) :=
        occurrences_le_append _
      rw [h.occurrences_before he', fill_place h.of_append he'] at hsame
      rw [fill_place h.of_append he', fill_place h (List.mem_append_left _ he'),
        fill_append_of_occurrences_eq (by omega), ih (by omega)]
  | last rest ih =>
      rw [h.fill_last, h.occurrences_last, h.occurrences_last] at hsame
      rw [h.fill_last, fill_place h.last (List.mem_singleton_self e),
        fill_place h (List.mem_append_right _ (List.mem_singleton_self e)),
        ih (Nat.add_right_cancel hsame)]
  | copy c rest hnone hlast ih =>
      have hle := occurrences_le_fill h rest
      rw [fill_copy hnone, occurrences_cons, occurrences_cons, if_neg hlast, Nat.add_zero] at hsame
      have hstands : ¬ e.1.toList <+: c :: fill values 0 rest := by
        intro hstarts
        rw [if_pos hstarts] at hsame
        omega
      rw [if_neg hstands] at hsame
      rw [fill_copy hnone, fill_concat_copy hnone hlast,
        fill_copy (List.forall_mem_singleton.mpr hstands), ih hsame]

/-- In each place of a placeholder a text has the length of the value instead of its own. -/
theorem length_fill_concat (h : IsTable (values ++ [e])) (cs : List Char) :
    (fill (values ++ [e]) 0 cs).length + occurrences e.1.toList cs * e.1.toList.length =
      (fill values 0 cs).length + occurrences e.1.toList cs * e.2.text.toList.length := by
  induction cs using h.concat_induction with
  | nil => simp only [occurrences, Nat.zero_mul, fill]
  | before e' rest he' ih =>
      rw [h.occurrences_before he', fill_place h.of_append he',
        fill_place h (List.mem_append_left _ he'), List.length_append, List.length_append]
      omega
  | last rest ih =>
      rw [h.occurrences_last, h.fill_last,
        fill_place h (List.mem_append_right _ (List.mem_singleton_self e)), List.length_append,
        List.length_append, Nat.succ_mul, Nat.succ_mul]
      omega
  | copy c rest hnone hlast ih =>
      rw [occurrences_cons, if_neg hlast, Nat.add_zero, fill_copy hnone,
        fill_concat_copy hnone hlast, List.length_cons, List.length_cons]
      omega

/-! ## When the order makes no difference -/

theorem undisturbed_concat {template : String} : Undisturbed template (values ++ [e]) ↔
    Undisturbed template values ∧ occurrences e.1.toList (expand template values).toList =
      occurrences e.1.toList template.toList := by
  constructor
  · intro h
    refine ⟨fun before p v hbefore => h before p v ?_, h values e.1 e.2 (List.prefix_refl _)⟩
    exact hbefore.trans (List.prefix_append values [e])
  · rintro ⟨h, hlast⟩ before p v hbefore
    obtain heq | hbefore := List.prefix_concat_iff.mp hbefore
    · obtain ⟨rfl, rfl⟩ := List.append_singleton_inj.mp heq
      exact hlast
    · exact h before p v hbefore

/-- As long as no value brings in a placeholder that comes later, the template is filled. -/
theorem toList_expand {template : String} (h : IsTable values)
    (hvalues : Undisturbed template values) :
    (expand template values).toList = fill values 0 template.toList := by
  induction values using List.reverseRecOn with
  | nil => rw [expand, List.foldl_nil, String.toList_ofList, fill_nil]
  | append_singleton values e ih =>
      obtain ⟨hbefore, hlast⟩ := undisturbed_concat.mp hvalues
      rw [ih h.of_append hbefore] at hlast
      rw [toList_expand_concat h.last, ih h.of_append hbefore, fill_fill h _ hlast]

/-- A placeholder that comes later stands in the command so far at no fewer places than in the
template. -/
theorem occurrences_le_expand (h : IsTable (values ++ [e])) (template : String) :
    occurrences e.1.toList template.toList ≤
      occurrences e.1.toList (expand template values).toList := by
  induction values using List.reverseRecOn with
  | nil => rw [expand, List.foldl_nil, String.toList_ofList]
  | append_singleton values e' ih =>
      have hbefore : IsTable (values ++ [e]) :=
        h.sublist ((List.sublist_append_left values [e']).append (List.Sublist.refl [e]))
      have hboth : IsTable ([e'] ++ [e]) :=
        h.sublist ((List.sublist_append_right values [e']).append (List.Sublist.refl [e]))
      rw [toList_expand_concat h.of_append.last]
      exact (ih hbefore).trans (occurrences_le_fill hboth _)

/-- Values that are longer than their placeholders make a command longer in all places where these
are brought in. -/
theorem length_fill_le_expand (h : IsTable values)
    (hlonger : ∀ e ∈ values, e.1.toList.length < e.2.text.toList.length) (template : String) :
    (fill values 0 template.toList).length ≤ (expand template values).toList.length ∧
      ((fill values 0 template.toList).length = (expand template values).toList.length →
        Undisturbed template values) := by
  induction values using List.reverseRecOn with
  | nil =>
      rw [expand, List.foldl_nil, String.toList_ofList, fill_nil]
      exact ⟨Nat.le_refl _, fun _ before p v hbefore => by simp at hbefore⟩
  | append_singleton values e ih =>
      obtain ⟨hle, hsame⟩ := ih h.of_append fun e' he' => hlonger e' (List.mem_append_left _ he')
      have hplaces := occurrences_le_expand h template
      have hfilled := length_fill_concat h template.toList
      have hexpanded : (fill [e] 0 (expand template values).toList).length + _ = _ :=
        length_fill_concat (show IsTable ([] ++ [e]) from h.last) (expand template values).toList
      obtain ⟨d, hd⟩ := Nat.exists_eq_add_of_lt
        (hlonger e (List.mem_append_right _ (List.mem_singleton_self e)))
      have hmore := Nat.mul_le_mul_right (d + 1) hplaces
      rw [hd, Nat.add_assoc, Nat.mul_add] at hfilled hexpanded
      rw [fill_nil] at hexpanded
      rw [toList_expand_concat h.last]
      refine ⟨by omega, fun heq => undisturbed_concat.mpr ⟨hsame (by omega), ?_⟩⟩
      have hgrowth : occurrences e.1.toList (expand template values).toList * (d + 1) =
          occurrences e.1.toList template.toList * (d + 1) := by omega
      exact Nat.eq_of_mul_eq_mul_right (Nat.succ_pos d) hgrowth

/-- One placeholder after the other gives the filled template exactly if no value brings in a
placeholder that comes later. -/
theorem IsTable.expand_eq_iff (h : IsTable values)
    (hlonger : ∀ e ∈ values, e.1.toList.length < e.2.text.toList.length) (template : String) :
    expand template values = substitute template values ↔ Undisturbed template values := by
  rw [← String.toList_inj, substitute, String.toList_ofList]
  exact ⟨fun heq => (length_fill_le_expand h hlonger template).2 (congrArg List.length heq.symm),
    toList_expand h⟩

/-! ## Values without braces -/

/-- A text without braces. -/
def Plain (cs : List Char) : Prop :=
  '\x7b' ∉ cs ∧ '\x7d' ∉ cs

/-- No end of a placeholder is put together from a value without a closing brace. -/
theorem prefix_of_prefix_fill (h : IsTable values) {name : List Char}
    (hlonger : ∀ e ∈ values, name.length < e.2.text.toList.length)
    (hclose : ∀ e ∈ values, '\x7d' ∉ e.2.text.toList)
    (hstarts : name ++ ['\x7d'] <+: fill values 0 cs) : name ++ ['\x7d'] <+: cs := by
  induction cs using read_induction values h.placeholder generalizing name with
  | nil => exact hstarts
  | place e rest he _ =>
      rw [fill_place h he] at hstarts
      have hvalue : name ++ ['\x7d'] <+: e.2.text.toList :=
        List.prefix_of_prefix_length_le hstarts (List.prefix_append _ _)
          (by rw [List.length_append]; exact hlonger e he)
      exact absurd (hvalue.subset (List.mem_append_right _ List.mem_cons_self)) (hclose e he)
  | copy c rest hnone ih =>
      rw [fill_copy hnone] at hstarts
      cases name with
      | nil =>
          obtain ⟨rfl, -⟩ := List.cons_prefix_cons.mp hstarts
          exact List.cons_prefix_cons.mpr ⟨rfl, List.nil_prefix⟩
      | cons d name =>
          obtain ⟨rfl, hrest⟩ := List.cons_prefix_cons.mp hstarts
          refine List.cons_prefix_cons.mpr ⟨rfl, ih (fun e he => ?_) hrest⟩
          exact Nat.lt_of_succ_lt (hlonger e he)

/-- Values without braces bring in no placeholder that comes later, nor do they close one. -/
theorem occurrences_fill (h : IsTable (values ++ [e]))
    (hlonger : ∀ e' ∈ values, e.1.toList.length < e'.2.text.toList.length)
    (hplain : ∀ e' ∈ values, Plain e'.2.text.toList) (cs : List Char) :
    occurrences e.1.toList (fill values 0 cs) = occurrences e.1.toList cs := by
  induction cs using h.concat_induction with
  | nil => rfl
  | before e' rest he' ih =>
      rw [fill_place h.of_append he', h.occurrences_before he',
        occurrences_append_of_notMem h.placeholder_last (hplain e' he').1, ih]
  | last rest ih => rw [h.fill_last, h.occurrences_last, h.occurrences_last, ih]
  | copy c rest hnone hlast ih =>
      have hstands : ¬ e.1.toList <+: c :: fill values 0 rest := by
        obtain ⟨name, hname, -⟩ := h.placeholder_last
        rw [hname] at hlonger hlast ⊢
        intro hstarts
        obtain ⟨rfl, hend⟩ := List.cons_prefix_cons.mp hstarts
        refine hlast (List.cons_prefix_cons.mpr ⟨rfl, prefix_of_prefix_fill h.of_append
          (fun e' he' => ?_) (fun e' he' => (hplain e' he').2) hend⟩)
        have := hlonger e' he'
        rw [List.length_cons, List.length_append] at this
        omega
      rw [fill_copy hnone, occurrences_cons, occurrences_cons, if_neg hlast, if_neg hstands, ih]

/-- Values without braces bring in no placeholder, if they are longer than any. -/
theorem IsTable.undisturbed (h : IsTable values)
    (hlonger : ∀ e ∈ values, ∀ e' ∈ values, e.1.toList.length < e'.2.text.toList.length)
    (hplain : ∀ e ∈ values, Plain e.2.text.toList) (template : String) :
    Undisturbed template values := by
  induction values using List.reverseRecOn with
  | nil => exact fun before p v hbefore => by simp at hbefore
  | append_singleton values e ih =>
      have hbefore := ih h.of_append
        (fun e he e' he' => hlonger e (List.mem_append_left _ he) e' (List.mem_append_left _ he'))
        fun e he => hplain e (List.mem_append_left _ he)
      refine undisturbed_concat.mpr ⟨hbefore, ?_⟩
      rw [toList_expand h.of_append hbefore]
      have he := List.mem_append_right values (List.mem_singleton_self e)
      exact occurrences_fill h (fun e' he' => hlonger e he e' (List.mem_append_left _ he'))
        (fun e' he' => hplain e' (List.mem_append_left _ he')) _

end

/-! ## The paths of a candidate -/

theorem length_le_join (dir : Path) (name : String) :
    name.toList.length ≤ (dir.join name).text.toList.length := by
  rw [Path.join]
  split
  next => exact Nat.le_refl _
  next =>
    split
    all_goals
      simp only [String.toList_append, List.length_append]
      omega

theorem mem_of_mem_join {dir : Path} {name : String} {c : Char}
    (h : c ∈ (dir.join name).text.toList) : c ∈ dir.text.toList ∨ c = '/' ∨ c ∈ name.toList := by
  rw [Path.join] at h
  split at h
  next => exact .inr (.inr h)
  next =>
    split at h
    next =>
      rw [String.toList_append, List.mem_append] at h
      exact h.imp_right .inr
    next =>
      rw [String.toList_append, String.toList_append, List.mem_append, List.mem_append] at h
      obtain (h | h) | h := h
      · exact .inl h
      · exact .inr (.inl (List.mem_singleton.mp h))
      · exact .inr (.inr h)

theorem Plain.join {dir : Path} {name : String} (hdir : Plain dir.text.toList)
    (hname : Plain name.toList) : Plain (dir.join name).text.toList := by
  have hnotMem : ∀ d, d ≠ '/' → d ∉ dir.text.toList → d ∉ name.toList →
      d ∉ (dir.join name).text.toList := by
    intro d hslash hdir hname hmem
    obtain hmem | hmem | hmem := mem_of_mem_join hmem
    · exact hdir hmem
    · exact hslash hmem
    · exact hname hmem
  exact ⟨hnotMem _ (by decide) hdir.1 hname.1, hnotMem _ (by decide) hdir.2 hname.2⟩

theorem Plain.append {s t : String} (hs : Plain s.toList) (ht : Plain t.toList) :
    Plain (s ++ t).toList := by
  rw [String.toList_append]
  exact ⟨List.not_mem_append hs.1 ht.1, List.not_mem_append hs.2 ht.2⟩

theorem isTable_imagePaths (c : JudgeCommand) : IsTable (Judge.imagePaths c) := by
  constructor
  · have hname : ∀ p ∈ ["\x7bfile\x7d", "\x7bjson\x7d", "\x7bimage\x7d"],
        IsPlaceholder p.toList := by
      simp only [List.forall_mem_cons]
      exact ⟨⟨"file".toList, by decide⟩, ⟨"json".toList, by decide⟩, ⟨"image".toList, by decide⟩,
        List.forall_mem_nil _⟩
    exact fun e he => hname e.1 (List.mem_map_of_mem (f := Prod.fst) he)
  · change ["\x7bfile\x7d", "\x7bjson\x7d", "\x7bimage\x7d"].Nodup
    decide

/-- The paths of a candidate's files end with longer names than placeholders have. -/
theorem length_lt_of_mem_imagePaths {c : JudgeCommand} :
    ∀ e ∈ Judge.imagePaths c, ∀ e' ∈ Judge.imagePaths c,
      e.1.toList.length < e'.2.text.toList.length := by
  have hname : ∀ e ∈ Judge.imagePaths c, e.1.toList.length ≤ 7 := by
    simp only [Judge.imagePaths, paths, List.cons_append, List.nil_append, List.forall_mem_cons]
    exact ⟨by decide, by decide, by decide, List.forall_mem_nil _⟩
  have hcandidate : ∀ ending : String, 10 ≤ ("candidate." ++ ending).toList.length := by
    intro ending
    rw [String.toList_append, List.length_append]
    exact Nat.le_add_right 10 _
  have hpath : ∀ e ∈ Judge.imagePaths c, 10 ≤ e.2.text.toList.length := by
    simp only [Judge.imagePaths, paths, List.cons_append, List.nil_append, List.forall_mem_cons]
    exact ⟨(hcandidate c.extension).trans (length_le_join _ _),
      (hcandidate "json").trans (length_le_join _ _),
      (hcandidate "ppm").trans (length_le_join _ _), List.forall_mem_nil _⟩
  exact fun e he e' he' => Nat.lt_of_le_of_lt (hname e he)
    (Nat.lt_of_lt_of_le (by decide) (hpath e' he'))

theorem plain_of_mem_imagePaths {c : JudgeCommand} (hscratch : Plain c.scratch.text.toList)
    (hextension : Plain c.extension.toList) :
    ∀ e ∈ Judge.imagePaths c, Plain e.2.text.toList := by
  simp only [Judge.imagePaths, paths, List.cons_append, List.nil_append, List.forall_mem_cons]
  have hname : Plain "candidate.".toList := ⟨by decide, by decide⟩
  exact ⟨hscratch.join (hname.append hextension), hscratch.join ⟨by decide, by decide⟩,
    hscratch.join ⟨by decide, by decide⟩, List.forall_mem_nil _⟩

/-- The command of a judge is its template with the paths of the candidate in the place of their
placeholders, read once from left to right, exactly if no path that is put in brings in a
placeholder that comes later. None does if there are no braces in the name of the directory and the
extension. -/
theorem expand_eq_substitute_iff (c : JudgeCommand) :
    (expand c.template c.paths = substitute c.template c.paths ↔ Undisturbed c.template c.paths) ∧
    (expand c.template (Judge.imagePaths c) = substitute c.template (Judge.imagePaths c) ↔
      Undisturbed c.template (Judge.imagePaths c)) ∧
    (Plain c.scratch.text.toList → Plain c.extension.toList →
      Undisturbed c.template c.paths ∧ Undisturbed c.template (Judge.imagePaths c)) := by
  have hall := isTable_imagePaths c
  have hlonger := length_lt_of_mem_imagePaths (c := c)
  have hpaths : ∀ e ∈ c.paths, e ∈ Judge.imagePaths c := fun e he => List.mem_append_left _ he
  refine ⟨hall.of_append.expand_eq_iff (fun e he => hlonger e (hpaths e he) e (hpaths e he)) _,
    hall.expand_eq_iff (fun e he => hlonger e he e he) _, fun hscratch hextension => ?_⟩
  have hplain := plain_of_mem_imagePaths hscratch hextension
  exact ⟨hall.of_append.undisturbed
    (fun e he e' he' => hlonger e (hpaths e he) e' (hpaths e' he'))
    (fun e he => hplain e (hpaths e he)) _, hall.undisturbed hlonger hplain _⟩

/-- A command that shows the shader of a candidate in some directory. -/
def showing (scratch : String) : JudgeCommand where
  template := "cat \x7bfile\x7d"
  scratch := ⟨scratch⟩
  extension := "frag"

/-- The placeholder of the bindings in the name of the directory is replaced too, and what is shown
is no file of the candidate. In a directory without braces it is the shader. -/
theorem expand_bracesInDirectory :
    (expand (showing "o\x7bjson\x7d").template (showing "o\x7bjson\x7d").paths =
        "cat oo\x7bjson\x7d/candidate.json/candidate.frag" ∧
      substitute (showing "o\x7bjson\x7d").template (showing "o\x7bjson\x7d").paths =
        "cat o\x7bjson\x7d/candidate.frag" ∧
      ¬ Undisturbed (showing "o\x7bjson\x7d").template (showing "o\x7bjson\x7d").paths) ∧
    Plain "out".toList ∧ Plain "frag".toList ∧
      expand (showing "out").template (showing "out").paths = "cat out/candidate.frag" := by
  have hexpanded : expand (showing "o\x7bjson\x7d").template (showing "o\x7bjson\x7d").paths =
      "cat oo\x7bjson\x7d/candidate.json/candidate.frag" := by
    decide +kernel
  have hsubstituted : substitute (showing "o\x7bjson\x7d").template
      (showing "o\x7bjson\x7d").paths = "cat o\x7bjson\x7d/candidate.frag" := by
    decide +kernel
  have hscratch : Plain "out".toList := ⟨by decide, by decide⟩
  have hextension : Plain "frag".toList := ⟨by decide, by decide⟩
  refine ⟨⟨hexpanded, hsubstituted, fun hundisturbed => ?_⟩, hscratch, hextension, ?_⟩
  · have heq := (expand_eq_substitute_iff (showing "o\x7bjson\x7d")).1.mpr hundisturbed
    rw [hexpanded, hsubstituted] at heq
    exact absurd heq (by decide)
  · obtain ⟨hiff, -, hboth⟩ := expand_eq_substitute_iff (showing "out")
    rw [hiff.mpr (hboth hscratch hextension).1]
    decide +kernel

end JudgeCommand

end ShaderReducer

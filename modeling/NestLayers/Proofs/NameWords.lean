import Mathlib.Data.List.Basic
import NestLayers.Proofs.CamelCaseNames
import NestLayers.Proofs.ParsedDefinition

/-!
# The words of a model name

A word of a name starts at a capital that follows a small letter, or that follows a capital and has
a small letter behind it. The hyphenated form of a model name joins the small forms of its words, so
that two names have the same hyphenated form exactly if their words differ in case only.
-/

namespace NestLayers.Text

/-! ## Small forms across hyphens -/

/-- A hyphen hides what stands behind it. -/
theorem meetsCased_append_hyphen (cs rest : List Char) :
    meetsCased (cs ++ '-' :: rest) = meetsCased cs := by
  have hstop : ('-' :: rest).dropWhile isCaseIgnorable = '-' :: rest := rfl
  unfold meetsCased
  rw [List.dropWhile_append, hstop]
  cases cs.dropWhile isCaseIgnorable with
  | nil => rfl
  | cons c others => rfl

/-- Small forms do not depend on what stands behind a hyphen before them. -/
theorem lowerFrom_append_hyphen (before rest cs : List Char) :
    lowerFrom (before ++ '-' :: rest) cs = lowerFrom before cs := by
  induction cs generalizing before with
  | nil => rfl
  | cons c cs ih =>
    rw [lowerFrom, lowerFrom, lowerBetween, lowerBetween, meetsCased_append_hyphen,
      ← List.cons_append, ih]

/-- **The small form of a text is made piece by piece between hyphens.** -/
theorem lowerFrom_hyphen (before first rest : List Char) :
    lowerFrom before (first ++ '-' :: rest) = lowerFrom before first ++ '-' :: lowerChars rest := by
  induction first generalizing before with
  | nil =>
    have hhyphen : lowerBetween before '-' rest = ['-'] := rfl
    have hrest : lowerFrom ('-' :: before) rest = lowerChars rest :=
      lowerFrom_append_hyphen [] before rest
    change lowerBetween before '-' rest ++ lowerFrom ('-' :: before) rest = '-' :: lowerChars rest
    rw [hhyphen, hrest, List.singleton_append]
  | cons c first ih =>
    rw [List.cons_append, lowerFrom, lowerFrom, ih, List.append_assoc]
    simp only [lowerBetween, meetsCased_append_hyphen]

private theorem lowerChars_intercalate (pieces : List (List Char)) :
    lowerChars (['-'].intercalate pieces) = ['-'].intercalate (pieces.map lowerChars) := by
  induction pieces with
  | nil => rfl
  | cons first rest ih =>
    cases rest with
    | nil => simp
    | cons second rest =>
      rw [List.map_cons, List.map_cons, List.intercalate_cons_cons, List.intercalate_cons_cons,
        ← List.map_cons, ← ih, List.append_assoc, List.singleton_append, List.append_assoc,
        List.singleton_append]
      exact lowerFrom_hyphen [] first _

end NestLayers.Text

namespace NestLayers.Naming

open NestLayers.Text

variable {a b c : Char} {cs rest : List Char} {x y : String}

/-! ## Words -/

/-- A word of a name starts between two characters, before the rest: the second one is a capital,
and the first one a small letter, or a capital if the rest starts with a small letter. -/
def startsWord (a b : Char) (rest : List Char) : Bool :=
  isCapital b && (isSmall a || isCapital a && rest.head?.any isSmall)

/-- The words of a name. -/
def words : List Char → List (List Char)
  | [] => []
  | [a] => [[a]]
  | a :: b :: rest =>
    if startsWord a b rest then [a] :: words (b :: rest) else consLine a (words (b :: rest))

private theorem words_ne_nil (a : Char) (cs : List Char) : words (a :: cs) ≠ [] := by
  cases cs with
  | nil => exact List.cons_ne_nil _ _
  | cons b rest =>
    rw [words]
    split
    · exact List.cons_ne_nil _ _
    · cases words (b :: rest) <;> exact List.cons_ne_nil _ _

/-- Nothing of a name is lost or added. -/
theorem flatten_words (cs : List Char) : (words cs).flatten = cs := by
  fun_induction words cs with
  | case1 => rfl
  | case2 a => rfl
  | case3 a b rest _ ih => rw [List.flatten_cons, ih, List.singleton_append]
  | case4 a b rest _ ih =>
    obtain ⟨word, others, hwords⟩ := List.exists_cons_of_ne_nil (words_ne_nil b rest)
    rw [hwords] at ih ⊢
    rw [consLine, List.flatten_cons, List.cons_append, ← List.flatten_cons, ih]

/-- Hyphenation keeps the first character. -/
theorem head?_hyphenateWords (cs : List Char) : (hyphenateWords cs).head? = cs.head? := by
  fun_cases hyphenateWords cs <;> rfl

/-- No hyphen is put between capitals unless a small letter follows. -/
theorem hyphenateAcronyms_cons_cons (h : cs.head?.any isSmall = false) :
    hyphenateAcronyms (a :: b :: cs) = a :: hyphenateAcronyms (b :: cs) := by
  cases cs with
  | nil => rfl
  | cons c cs =>
    have hc : isSmall c = false := h
    rw [hyphenateAcronyms, if_neg (by simp [hc])]

/-- A character that starts no word is put in front of the hyphenated rest. -/
theorem hyphenate_of_not_startsWord (h : startsWord a b rest = false) :
    hyphenateAcronyms (hyphenateWords (a :: b :: rest)) =
      a :: hyphenateAcronyms (hyphenateWords (b :: rest)) := by
  by_cases hb : isCapital b = true
  · have ha : isSmall a = false := by
      cases ha : isSmall a with
      | false => rfl
      | true => simp [startsWord, ha, hb] at h
    rw [hyphenateWords_cons (.inl ha)]
    by_cases hcapital : isCapital a = true
    · have hrest : rest.head?.any isSmall = false := by
        simpa [startsWord, ha, hb, hcapital] using h
      rw [hyphenateWords_cons (.inl (not_isSmall_of_isCapital hb)),
        hyphenateAcronyms_cons_cons (by rw [head?_hyphenateWords, hrest])]
    · exact hyphenateAcronyms_cons (.inl (by simpa using hcapital))
  · -- neither rule puts a hyphen before what is not a capital
    have hstops : Stops isCapital (b :: rest) := stops_cons.mpr (by simpa using hb)
    have hhyphenated : Stops isCapital (hyphenateWords (b :: rest)) := by
      rw [Stops, head?_hyphenateWords]
      exact hstops
    rw [hyphenateWords_cons (.inr hstops), hyphenateAcronyms_cons (.inr hhyphenated)]

/-- A hyphen is put where a word starts. -/
theorem hyphenate_of_startsWord (h : startsWord a b rest = true) :
    hyphenateAcronyms (hyphenateWords (a :: b :: rest)) =
      a :: '-' :: hyphenateAcronyms (hyphenateWords (b :: rest)) := by
  obtain ⟨hb, ha⟩ := Bool.and_eq_true_iff.mp h
  rcases Bool.or_eq_true_iff.mp ha with ha | ha
  · rw [hyphenateWords_border ha hb, hyphenateAcronyms_cons (.inl (not_isCapital_of_isSmall ha)),
      hyphenateAcronyms_cons (.inl (by decide))]
  · -- the hyphen comes from the rule for acronyms, which sees the small letter behind the capital
    obtain ⟨ha, hrest⟩ := Bool.and_eq_true_iff.mp ha
    have hwords : hyphenateWords (b :: rest) = b :: hyphenateWords rest :=
      hyphenateWords_cons (.inl (not_isSmall_of_isCapital hb))
    rw [← head?_hyphenateWords] at hrest
    rw [hyphenateWords_cons (.inl (not_isSmall_of_isCapital ha)), hwords]
    cases hyphenated : hyphenateWords rest with
    | nil => simp [hyphenated] at hrest
    | cons c later =>
      rw [hyphenated] at hrest
      exact hyphenateAcronyms_border ha hb hrest

/-- **Hyphenation joins the words of a name.** -/
theorem hyphenate_eq_intercalate (cs : List Char) :
    hyphenateAcronyms (hyphenateWords cs) = ['-'].intercalate (words cs) := by
  fun_induction words cs with
  | case1 => rfl
  | case2 a => rfl
  | case3 a b rest hstarts ih =>
    obtain ⟨word, others, hwords⟩ := List.exists_cons_of_ne_nil (words_ne_nil b rest)
    rw [hyphenate_of_startsWord hstarts, ih, hwords, List.intercalate_cons_cons]
    rfl
  | case4 a b rest hstarts ih =>
    obtain ⟨word, others, hwords⟩ := List.exists_cons_of_ne_nil (words_ne_nil b rest)
    rw [hyphenate_of_not_startsWord (by simpa using hstarts), ih, hwords, consLine]
    cases others with
    | nil => simp
    | cons next others => simp [List.intercalate_cons_cons]

/-- The small forms of the words of a name. -/
def smallWords (name : String) : List (List Char) :=
  (words name.toList).map lowerChars

private theorem toList_modelKebab (name : String) :
    (modelKebab name).toList = ['-'].intercalate (smallWords name) := by
  rw [modelKebab, String.toList_ofList, hyphenate_eq_intercalate, lowerChars_intercalate,
    smallWords]

private theorem hyphen_notMem_smallWords (h : '-' ∉ x.toList) :
    ∀ word ∈ smallWords x, '-' ∉ word := by
  intro word hword hhyphen
  obtain ⟨piece, hpiece, rfl⟩ := List.mem_map.mp hword
  have hmem := mem_of_mem_lowerChars (by decide) (by decide) hhyphen
  rw [← flatten_words x.toList] at h
  exact h (List.mem_flatten_of_mem hpiece hmem)

/-- **Two names have the same hyphenated form exactly if their words differ in case only.** -/
theorem modelKebab_eq_iff (hx : IsModelName x.toList) (hy : IsModelName y.toList) :
    modelKebab x = modelKebab y ↔ smallWords x = smallWords y := by
  have hsplit {name : String} (hname : IsModelName name.toList) :
      (modelKebab name).toList.splitOn '-' = smallWords name := by
    -- a name has no hyphen, so that its words can be read back
    have hhyphen : '-' ∉ name.toList := fun h => absurd (hname.2 _ h) (by decide)
    obtain ⟨c, rest, hchars⟩ := List.exists_cons_of_ne_nil hname.1
    rw [toList_modelKebab]
    refine List.splitOn_intercalate '-' (hyphen_notMem_smallWords hhyphen) ?_
    rw [smallWords, hchars]
    simpa using words_ne_nil c rest
  constructor
  · intro h
    rw [← hsplit hx, ← hsplit hy, h]
  · intro h
    rw [← String.toList_inj, toList_modelKebab, toList_modelKebab, h]

/-- The form of a camel-case name that starts with a capital. -/
def IsPascalCase (name : String) : Prop :=
  ∃ camel, IsCamelCase camel ∧ name = capitalize camel

/-- The hyphenated form tells names in Pascal case apart. -/
theorem IsPascalCase.eq_of_modelKebab_eq (hx : IsPascalCase x) (hy : IsPascalCase y)
    (h : modelKebab x = modelKebab y) : x = y := by
  obtain ⟨x, hx, rfl⟩ := hx
  obtain ⟨y, hy, rfl⟩ := hy
  rw [← hx.kebab_eq, ← hy.kebab_eq, hx.kebab_inj hy] at h
  rw [h]

end NestLayers.Naming

import Mathlib.Data.List.Basic
import NestLayers.Layer.Repository
import NestLayers.Proofs.MarkedNames

/-!
# Camel-case names and their hyphenated forms

A camel-case name consists of a word of small letters and of further words with a capital at their
start. Its hyphenated form as the name of a resource is that of its Pascal-case form as the name of
a model, and the words can be read off it. A resource is therefore backed by the model with its own
name. The repository names this model as long as no marker is taken from the start of the name.
-/

namespace NestLayers.Naming

open NestLayers.Text

/-! ## Words -/

/-- A word of small letters. -/
structure IsSmallWord (cs : List Char) : Prop where
  ne_nil : cs ≠ []
  all : ∀ c ∈ cs, isSmall c = true

/-- A capital, and a word of small letters behind it. -/
def IsCapitalWord (cs : List Char) : Prop :=
  ∃ c rest, cs = c :: rest ∧ isCapital c = true ∧ IsSmallWord rest

/-- A word of small letters, and any number of words that start with a capital. -/
def IsCamelCase (name : String) : Prop :=
  ∃ (first : List Char) (others : List (List Char)), name.toList = first ++ others.flatten ∧
    IsSmallWord first ∧ ∀ word ∈ others, IsCapitalWord word

variable {a b c : Char} {cs first rest : List Char} {others : List (List Char)}

private theorem isIdentifierChar_of_isAlpha (h : c.isAlpha = true) : isIdentifierChar c = true := by
  simp [isIdentifierChar, Char.isAlphanum, h]

private theorem isIdentifierChar_of_isSmall (h : isSmall c = true) : isIdentifierChar c = true := by
  apply isIdentifierChar_of_isAlpha
  change (c.isUpper || isSmall c) = true
  rw [h, Bool.or_true]

private theorem isIdentifierChar_of_isCapital (h : isCapital c = true) :
    isIdentifierChar c = true := by
  apply isIdentifierChar_of_isAlpha
  change (isCapital c || c.isLower) = true
  rw [h, Bool.true_or]

/-- What holds of a kind of letters can be tested. -/
theorem forall_letters {kind : Char → Bool} (p : Char → Bool)
    (h : (List.range 128).all (fun n => !kind (Char.ofNat n) || p (Char.ofNat n)) = true)
    (hletter : isIdentifierChar c = true) (hc : kind c = true) : p c = true := by
  have hascii := toNat_lt_of_isKebabChar (isKebabChar_of_isIdentifierChar hletter)
  simpa [hc] using forall_ascii (fun c => !kind c || p c) h hascii

/-- Small letters are no capitals. -/
theorem not_isCapital_of_isSmall (h : isSmall c = true) : isCapital c = false := by
  simpa using forall_letters (fun c => !isCapital c) (by decide)
    (isIdentifierChar_of_isSmall h) h

/-- Capitals are no small letters. -/
theorem not_isSmall_of_isCapital (h : isCapital c = true) : isSmall c = false := by
  simpa using forall_letters (fun c => !isSmall c) (by decide)
    (isIdentifierChar_of_isCapital h) h

private theorem toLower_of_isSmall (h : isSmall c = true) : c.toLower = c := by
  simpa using forall_letters (fun c => c.toLower == c) (by decide)
    (isIdentifierChar_of_isSmall h) h

private theorem toLower_toUpper_of_isSmall (h : isSmall c = true) : c.toUpper.toLower = c := by
  simpa using forall_letters (fun c => c.toUpper.toLower == c) (by decide)
    (isIdentifierChar_of_isSmall h) h

private theorem isCapital_toUpper (h : isSmall c = true) : isCapital c.toUpper = true :=
  forall_letters (fun c => isCapital c.toUpper) (by decide)
    (isIdentifierChar_of_isSmall h) h

private theorem toUpper_toLower_of_isCapital (h : isCapital c = true) : c.toLower.toUpper = c := by
  simpa using forall_letters (fun c => c.toLower.toUpper == c) (by decide)
    (isIdentifierChar_of_isCapital h) h

private theorem map_toLower_of_isSmall (h : ∀ c ∈ cs, isSmall c = true) :
    cs.map Char.toLower = cs := by
  rw [List.map_congr_left fun c hc => toLower_of_isSmall (h c hc), List.map_id']

/-- The letters of a word with a capital. -/
theorem IsCapitalWord.all (h : IsCapitalWord cs) :
    ∀ c ∈ cs, isIdentifierChar c = true := by
  obtain ⟨c, rest, rfl, hc, hrest⟩ := h
  exact List.forall_mem_cons.mpr ⟨isIdentifierChar_of_isCapital hc,
    fun d hd => isIdentifierChar_of_isSmall (hrest.all d hd)⟩

/-! ## Hyphens -/

/-- No hyphen follows a character other than a small letter, and none stands before one other than a
capital. -/
theorem hyphenateWords_cons (h : isSmall a = false ∨ Stops isCapital cs) :
    hyphenateWords (a :: cs) = a :: hyphenateWords cs := by
  cases cs with
  | nil => rfl
  | cons b cs =>
    rw [hyphenateWords, if_neg]
    rcases h with h | h
    · simp [h]
    · simp [stops_cons.mp h]

/-- A hyphen goes before a capital after a small letter. -/
theorem hyphenateWords_border (ha : isSmall a = true) (hb : isCapital b = true) :
    hyphenateWords (a :: b :: cs) = a :: '-' :: hyphenateWords (b :: cs) := by
  rw [hyphenateWords, if_pos (by simp [ha, hb])]

/-- No hyphen is put next to a character other than a capital. -/
theorem hyphenateAcronyms_cons (h : isCapital a = false ∨ Stops isCapital cs) :
    hyphenateAcronyms (a :: cs) = a :: hyphenateAcronyms cs := by
  match cs with
  | [] => rfl
  | [b] => rfl
  | b :: c :: cs =>
    rw [hyphenateAcronyms, if_neg]
    rcases h with h | h
    · simp [h]
    · simp [stops_cons.mp h]

/-- A hyphen goes before the last capital of an acronym. -/
theorem hyphenateAcronyms_border (ha : isCapital a = true) (hb : isCapital b = true)
    (hc : isSmall c = true) :
    hyphenateAcronyms (a :: b :: c :: cs) = a :: '-' :: hyphenateAcronyms (b :: c :: cs) := by
  rw [hyphenateAcronyms, if_pos (by simp [ha, hb, hc])]

private theorem IsSmallWord.stops (h : IsSmallWord rest) (cs : List Char) :
    Stops isCapital (rest ++ cs) := by
  obtain ⟨c, rest, rfl⟩ := List.exists_cons_of_ne_nil h.ne_nil
  exact stops_cons.mpr (not_isCapital_of_isSmall (h.all c List.mem_cons_self))

/-- No hyphen stands within small letters. -/
theorem hyphenateWords_small (h : ∀ c ∈ first, isSmall c = true) (hcs : Stops isCapital cs) :
    hyphenateWords (first ++ cs) = first ++ hyphenateWords cs := by
  induction first with
  | nil => rfl
  | cons a first ih =>
    obtain ⟨-, hfirst⟩ := List.forall_mem_cons.mp h
    have hstops : Stops isCapital (first ++ cs) := by
      by_cases hne : first = []
      · simpa [hne] using hcs
      · exact IsSmallWord.stops ⟨hne, hfirst⟩ cs
    rw [List.cons_append, hyphenateWords_cons (.inr hstops), ih hfirst, List.cons_append]

/-- **Words.** A word of small letters is set apart from the words behind it, and these from one
another. -/
theorem hyphenateWords_append (hfirst : IsSmallWord first)
    (hothers : ∀ word ∈ others, IsCapitalWord word) :
    hyphenateWords (first ++ others.flatten) = first ++ others.flatMap ('-' :: ·) := by
  induction others generalizing first with
  | nil => exact hyphenateWords_small hfirst.all (stops_nil _)
  | cons word others ih =>
    obtain ⟨⟨b, rest, rfl, hb, hrest⟩, hlater⟩ := List.forall_mem_cons.mp hothers
    -- the border is behind the last letter of the first word
    obtain ⟨front, a, rfl⟩ := (List.eq_nil_or_concat' first).resolve_left hfirst.ne_nil
    obtain ⟨hfront, ha⟩ := List.forall_mem_append.mp hfirst.all
    have ha := List.forall_mem_singleton.mp ha
    calc hyphenateWords (front ++ [a] ++ ((b :: rest) :: others).flatten)
        = front ++ hyphenateWords (a :: b :: (rest ++ others.flatten)) := by
          rw [← hyphenateWords_small hfront (stops_cons.mpr (not_isCapital_of_isSmall ha))]
          simp
      _ = front ++ a :: '-' :: b :: hyphenateWords (rest ++ others.flatten) := by
          rw [hyphenateWords_border ha hb,
            hyphenateWords_cons (.inl (not_isSmall_of_isCapital hb))]
      _ = front ++ [a] ++ ((b :: rest) :: others).flatMap ('-' :: ·) := by
          rw [ih hrest hlater]
          simp

/-- The same holds of a word with a capital. -/
theorem hyphenateWords_append_of_isCapital (hc : isCapital c = true) (hrest : IsSmallWord rest)
    (hothers : ∀ word ∈ others, IsCapitalWord word) :
    hyphenateWords (c :: (rest ++ others.flatten)) =
      c :: (rest ++ others.flatMap ('-' :: ·)) := by
  rw [hyphenateWords_cons (.inl (not_isSmall_of_isCapital hc)), hyphenateWords_append hrest hothers]

/-- Small letters are no acronym. -/
theorem hyphenateAcronyms_append (h : ∀ c ∈ first, isSmall c = true) :
    hyphenateAcronyms (first ++ cs) = first ++ hyphenateAcronyms cs := by
  induction first with
  | nil => rfl
  | cons a first ih =>
    obtain ⟨ha, hfirst⟩ := List.forall_mem_cons.mp h
    rw [List.cons_append, hyphenateAcronyms_cons (.inl (not_isCapital_of_isSmall ha)), ih hfirst,
      List.cons_append]

/-- **Acronyms.** Words that are set apart already get no further hyphens. -/
theorem hyphenateAcronyms_flatMap (h : ∀ word ∈ others, IsCapitalWord word) :
    hyphenateAcronyms (others.flatMap ('-' :: ·)) = others.flatMap ('-' :: ·) := by
  induction others with
  | nil => rfl
  | cons word others ih =>
    obtain ⟨⟨c, rest, rfl, -, hrest⟩, hlater⟩ := List.forall_mem_cons.mp h
    rw [List.flatMap_cons, List.cons_append, hyphenateAcronyms_cons (.inl (by decide)),
      List.cons_append, hyphenateAcronyms_cons (.inr (hrest.stops _)),
      hyphenateAcronyms_append hrest.all, ih hlater]

/-- The same holds of a longer word before them. -/
theorem hyphenateAcronyms_apart (hrest : IsSmallWord rest)
    (hothers : ∀ word ∈ others, IsCapitalWord word) :
    hyphenateAcronyms (c :: (rest ++ others.flatMap ('-' :: ·))) =
      c :: (rest ++ others.flatMap ('-' :: ·)) := by
  rw [hyphenateAcronyms_cons (.inr (hrest.stops _)), hyphenateAcronyms_append hrest.all,
    hyphenateAcronyms_flatMap hothers]

/-- A word with a capital at the start of a name is set apart from the words behind it, though it
may be a single letter. -/
theorem hyphenateAcronyms_hyphenateWords (hc : isCapital c = true)
    (hrest : ∀ d ∈ rest, isSmall d = true) (hothers : ∀ word ∈ others, IsCapitalWord word) :
    hyphenateAcronyms (hyphenateWords (c :: (rest ++ others.flatten))) =
      c :: (rest ++ others.flatMap ('-' :: ·)) := by
  by_cases hne : rest = []
  · subst hne
    cases others with
    | nil => rfl
    | cons word others =>
      -- the first word is one capital, and only the rule for acronyms tells it from the next one
      obtain ⟨⟨b, word, rfl, hb, hword⟩, hlater⟩ := List.forall_mem_cons.mp hothers
      have hborder : hyphenateAcronyms (c :: b :: (word ++ others.flatMap ('-' :: ·))) =
          c :: '-' :: hyphenateAcronyms (b :: (word ++ others.flatMap ('-' :: ·))) := by
        obtain ⟨d, word, rfl⟩ := List.exists_cons_of_ne_nil hword.ne_nil
        exact hyphenateAcronyms_border hc hb (hword.all d List.mem_cons_self)
      rw [List.nil_append, List.flatten_cons, List.cons_append,
        hyphenateWords_cons (.inl (not_isSmall_of_isCapital hc)),
        hyphenateWords_append_of_isCapital hb hword hlater, hborder,
        hyphenateAcronyms_apart hword hlater]
      rfl
  · rw [hyphenateWords_append_of_isCapital hc ⟨hne, hrest⟩ hothers,
      hyphenateAcronyms_apart ⟨hne, hrest⟩ hothers]

/-! ## Identification -/

/-- The hyphenated form of words: small letters, and a hyphen before each word but the first. -/
def hyphenated (first : List Char) (others : List (List Char)) : List Char :=
  ['-'].intercalate (first :: others.map (·.map Char.toLower))

private theorem map_toLower_flatMap (hfirst : ∀ c ∈ first, isSmall c = true) :
    (first ++ others.flatMap ('-' :: ·)).map Char.toLower = hyphenated first others := by
  have hothers (first : List Char) : first ++ (others.flatMap ('-' :: ·)).map Char.toLower =
      hyphenated first others := by
    induction others generalizing first with
    | nil => simp [hyphenated]
    | cons word others ih =>
      have hdash : '-'.toLower = '-' := by decide
      rw [hyphenated, List.map_cons, List.intercalate_cons_cons, ← hyphenated, ← ih]
      simp [hdash]
  rw [List.map_append, map_toLower_of_isSmall hfirst, hothers]

/-- The word with its first letter as a capital. -/
def initialCapital : List Char → List Char
  | [] => []
  | c :: rest => c.toUpper :: rest

private theorem IsCapitalWord.initialCapital_map_toLower (h : IsCapitalWord cs) :
    initialCapital (cs.map Char.toLower) = cs := by
  obtain ⟨c, rest, rfl, hc, hrest⟩ := h
  rw [List.map_cons, initialCapital, toUpper_toLower_of_isCapital hc,
    map_toLower_of_isSmall hrest.all]

private theorem IsCapitalWord.dash_notMem (h : IsCapitalWord cs) : '-' ∉ cs.map Char.toLower := by
  intro hdash
  obtain ⟨c, hc, hlower⟩ := List.mem_map.mp hdash
  have hletter := forall_isKebabChar (fun c => !isIdentifierChar c || c.toLower != '-') (by decide)
    (isKebabChar_of_isIdentifierChar (h.all c hc))
  simp [h.all c hc, hlower] at hletter

private theorem IsSmallWord.dash_notMem (h : IsSmallWord cs) : '-' ∉ cs :=
  fun hdash => absurd (h.all '-' hdash) (by decide)

/-- The words can be read off the hyphenated form. -/
theorem splitOn_hyphenated (hfirst : IsSmallWord first)
    (hothers : ∀ word ∈ others, IsCapitalWord word) :
    (hyphenated first others).splitOn '-' = first :: others.map (·.map Char.toLower) := by
  refine List.splitOn_intercalate '-' (List.forall_mem_cons.mpr ⟨hfirst.dash_notMem, ?_⟩)
    (List.cons_ne_nil _ _)
  exact List.forall_mem_map.mpr fun word hword => (hothers word hword).dash_notMem

private theorem map_initialCapital (hothers : ∀ word ∈ others, IsCapitalWord word) :
    (others.map (·.map Char.toLower)).map initialCapital = others := by
  rw [List.map_map]
  refine (List.map_congr_left fun word hword => ?_).trans (List.map_id others)
  exact (hothers word hword).initialCapital_map_toLower

/-- Different words have different hyphenated forms. -/
theorem hyphenated_inj {first' : List Char} {others' : List (List Char)}
    (hfirst : IsSmallWord first) (hfirst' : IsSmallWord first') (hothers : ∀ word ∈ others, IsCapitalWord word)
    (hothers' : ∀ word ∈ others', IsCapitalWord word)
    (h : hyphenated first others = hyphenated first' others') :
    first = first' ∧ others = others' := by
  have hsplit := congrArg (List.splitOn '-') h
  rw [splitOn_hyphenated hfirst hothers, splitOn_hyphenated hfirst' hothers'] at hsplit
  obtain ⟨hhead, htail⟩ := List.cons.inj hsplit
  refine ⟨hhead, ?_⟩
  rw [← map_initialCapital hothers, htail, map_initialCapital hothers']

private theorem toNat_lt_of_mem_flatMap (hfirst : ∀ c ∈ first, isIdentifierChar c = true)
    (hothers : ∀ word ∈ others, IsCapitalWord word) :
    ∀ c ∈ first ++ others.flatMap ('-' :: ·), c.toNat < 128 := by
  intro c hc
  refine toNat_lt_of_isKebabChar ?_
  rcases List.mem_append.mp hc with hc | hc
  · exact isKebabChar_of_isIdentifierChar (hfirst c hc)
  · obtain ⟨word, hword, hc⟩ := List.mem_flatMap.mp hc
    rcases List.mem_cons.mp hc with rfl | hc
    · decide
    · exact isKebabChar_of_isIdentifierChar ((hothers word hword).all c hc)

/-- The hyphenated form of a camel-case name. -/
theorem toList_kebab {name : String} (hname : name.toList = first ++ others.flatten)
    (hfirst : IsSmallWord first) (hothers : ∀ word ∈ others, IsCapitalWord word) :
    (kebab name).toList = hyphenated first others := by
  have hascii := toNat_lt_of_mem_flatMap
    (fun c hc => isIdentifierChar_of_isSmall (hfirst.all c hc)) hothers
  rw [kebab, String.toList_ofList, hname, hyphenateWords_append hfirst hothers,
    lowerChars_of_ascii hascii, map_toLower_flatMap hfirst.all]

private theorem IsCamelCase.isWord {name : String} (h : IsCamelCase name) : IsWord name := by
  obtain ⟨first, others, hname, hfirst, hothers⟩ := h
  refine ⟨?_, ?_⟩
  · rintro rfl
    simp [hfirst.ne_nil] at hname
  · rw [hname]
    refine List.forall_mem_append.mpr
      ⟨fun c hc => isIdentifierChar_of_isSmall (hfirst.all c hc), ?_⟩
    intro c hc
    obtain ⟨word, hword, hc⟩ := List.mem_flatten.mp hc
    exact (hothers word hword).all c hc

/-- The hyphenated form of its Pascal-case form. -/
theorem toList_modelKebab_capitalize {name : String} (hname : name.toList = first ++ others.flatten)
    (hfirst : IsSmallWord first) (hothers : ∀ word ∈ others, IsCapitalWord word) :
    (modelKebab (capitalize name)).toList = hyphenated first others := by
  obtain ⟨c, rest, hchars⟩ := List.exists_cons_of_ne_nil hfirst.ne_nil
  subst hchars
  obtain ⟨hc, hrest⟩ := List.forall_mem_cons.mp hfirst.all
  obtain ⟨d, tail, -, hword, hcapital⟩ :=
    IsWord.exists_capitalize (IsCamelCase.isWord ⟨_, _, hname, hfirst, hothers⟩)
  rw [hname, List.cons_append] at hword
  obtain ⟨rfl, rfl⟩ := List.cons.inj hword
  have hletters : ∀ e ∈ c.toUpper :: rest, isIdentifierChar e = true :=
    List.forall_mem_cons.mpr ⟨isIdentifierChar_of_isCapital (isCapital_toUpper hc),
      fun e he => isIdentifierChar_of_isSmall (hrest e he)⟩
  rw [modelKebab, String.toList_ofList, hcapital,
    hyphenateAcronyms_hyphenateWords (isCapital_toUpper hc) hrest hothers, ← List.cons_append,
    lowerChars_of_ascii (toNat_lt_of_mem_flatMap hletters hothers),
    ← map_toLower_flatMap hfirst.all]
  simp [toLower_toUpper_of_isSmall hc, toLower_of_isSmall hc]

/-- The name of a resource and that of its model have the same hyphenated form. -/
theorem IsCamelCase.kebab_eq {name : String} (h : IsCamelCase name) :
    kebab name = modelKebab (capitalize name) := by
  obtain ⟨first, others, hname, hfirst, hothers⟩ := h
  rw [← String.toList_inj, toList_kebab hname hfirst hothers,
    toList_modelKebab_capitalize hname hfirst hothers]

/-- The hyphenated form identifies the name. -/
theorem IsCamelCase.kebab_inj {x y : String} (hx : IsCamelCase x) (hy : IsCamelCase y) :
    kebab x = kebab y ↔ x = y := by
  refine ⟨fun h => ?_, congrArg kebab⟩
  obtain ⟨first, others, hname, hfirst, hothers⟩ := hx
  obtain ⟨first', others', hname', hfirst', hothers'⟩ := hy
  rw [← String.toList_inj, toList_kebab hname hfirst hothers,
    toList_kebab hname' hfirst' hothers'] at h
  obtain ⟨rfl, rfl⟩ := hyphenated_inj hfirst hfirst' hothers hothers' h
  rw [← String.toList_inj, hname, hname']

private theorem IsCamelCase.uncapitalize_capitalize {name : String} (h : IsCamelCase name) :
    uncapitalize (capitalize name) = name := by
  obtain ⟨c, rest, hascii, hchars, hcapital⟩ := h.isWord.exists_capitalize
  obtain ⟨first, others, hname, hfirst, -⟩ := h
  obtain ⟨d, tail, rfl⟩ := List.exists_cons_of_ne_nil hfirst.ne_nil
  rw [hname, List.cons_append] at hchars
  obtain ⟨rfl, rfl⟩ := List.cons.inj hchars
  have hd := hfirst.all d List.mem_cons_self
  have hupper : d.toUpper.toNat < 128 := toNat_lt_of_isKebabChar
    (isKebabChar_of_isIdentifierChar (isIdentifierChar_of_isCapital (isCapital_toUpper hd)))
  rw [← String.toList_inj, uncapitalize, hcapital, hname]
  simp [lowerChars_of_ascii, hupper, toLower_toUpper_of_isSmall hd]

end NestLayers.Naming

/-! ## Repositories -/

namespace NestLayers.Layer.Repository

open NestLayers.Naming NestLayers.TypeScript

/-- The types of the data that records of a model are created or changed with. -/
def inputTypes (model kind : String) : String :=
  "Prisma." ++ model ++ kind ++ "Input | Prisma." ++ model ++ "Unchecked" ++ kind ++ "Input"

/-- The repository of a resource names a model: it keeps the records of this model, takes data of
its types, and looks for pages under its name. -/
structure NamesModel (n : ResourceName) (d : Definition) (id : Field) (model : String) : Prop where
  records : .fields ["private " ++ n.camel ++ "Repository = this.prisma.extendedClient." ++
    uncapitalize model ++ ";"] ∈ (classOf n d id).sections
  create : ∃ method ∈ methods n d id, method.name = "create" ∧
    method.parameters = "data: " ++ inputTypes model "Create"
  update : ∃ method ∈ methods n d id, method.name = "update" ∧
    method.parameters =
      id.name ++ ": " ++ id.type.request ++ ", data: " ++ inputTypes model "Update"
  findList : ∃ method ∈ methods n d id, method.name = "findList" ∧ method.body.head? =
    some (.other ("const options = getPaginationOption(data, Prisma.ModelName." ++ model ++ ");"))

private theorem head?_body_of_name_eq {n : ResourceName} {d : Definition} {id : Field}
    {method : Method} (h : method ∈ methods n d id) (hname : method.name = "findList") :
    method.body.head? = some (.other
      ("const options = getPaginationOption(data, Prisma.ModelName." ++ n.pascalBase ++ ");")) := by
  have hdelete : (deleteMethod n d id).name ≠ "findList" := by
    unfold deleteMethod
    split <;> simp
  simp only [methods, List.mem_cons, List.not_mem_nil, or_false] at h
  rcases h with rfl | rfl | rfl | rfl | rfl | rfl
  · simp at hname
  · simp at hname
  · exact absurd hname hdelete
  · simp at hname
  · simp at hname
  · rfl

/-- The repository names a model exactly if the base forms of the resource are the model's. -/
theorem namesModel_iff {n : ResourceName} {d : Definition} {id : Field} {model : String} :
    NamesModel n d id model ↔ n.camelBase = uncapitalize model ∧ n.pascalBase = model := by
  constructor
  · rintro ⟨hrecords, -, -, method, hmethod, hname, hbody⟩
    rw [head?_body_of_name_eq hmethod hname] at hbody
    refine ⟨?_, ?_⟩
    · simpa [classOf, String.append_assoc, eq_comm] using hrecords
    · simpa [String.append_assoc] using hbody
  · rintro ⟨hcamel, rfl⟩
    refine ⟨?_, ?_, ?_, ?_⟩
    · simp [classOf, hcamel]
    · exact ⟨_, List.mem_cons_self, rfl, rfl⟩
    · exact ⟨_, List.mem_cons_of_mem _ List.mem_cons_self, rfl, rfl⟩
    · exact ⟨_, List.mem_of_getLast? rfl, rfl, rfl⟩

end NestLayers.Layer.Repository

namespace NestLayers.ResourceName

open NestLayers.Text NestLayers.Naming NestLayers.Layer.Repository

variable {marker word model : String} {d : Definition} {id : Field}

private theorem camelBase_ofWord (marker word : String) :
    (ofWord marker word).camelBase = withoutMarker marker (ofWord marker word).camel := by
  simp only [ofWord]

private theorem pascalBase_ofWord (marker word : String) :
    (ofWord marker word).pascalBase = withoutMarker marker (ofWord marker word).pascal := by
  simp only [ofWord]

private theorem pascal_ofWord (marker word : String) :
    (ofWord marker word).pascal = capitalize (ofWord marker word).camel := by
  simp only [ofWord]

/-- A resource that is named by a word, and whose base form is a camel-case name, is backed by the
model with the same name if any. -/
theorem camelBase_eq_of_definitionId (hbase : IsCamelCase (ofWord marker word).camelBase)
    (hmodel : IsCamelCase model)
    (h : (ofWord marker word).definitionId = modelKebab (capitalize model)) :
    (ofWord marker word).camelBase = model := by
  rw [← hmodel.kebab_eq] at h
  exact (hbase.kebab_inj hmodel).mp h

/-- The repository names the model of the resource if the marker stands at the start of neither
form. -/
theorem namesModel_of_not_startsWith (hword : IsWord word)
    (hbase : IsCamelCase (ofWord marker word).camelBase)
    (hcamel : ¬ StartsWith marker (ofWord marker word).camel)
    (hpascal : ¬ StartsWith marker (ofWord marker word).pascal) :
    NamesModel (ofWord marker word) d id (capitalize (ofWord marker word).camelBase) := by
  refine namesModel_iff.mpr ⟨hbase.uncapitalize_capitalize.symm, ?_⟩
  have hform : IsWord (ofWord marker word).camel := (isPlain_of_isWord marker hword).camel
  rw [pascal_ofWord] at hpascal
  rw [pascalBase_ofWord, pascal_ofWord, camelBase_ofWord]
  exact hform.withoutMarker_capitalize hcamel hpascal

/-- The marker is nowhere in the camel-case form of other resources than management resources. -/
theorem not_infix_camel (h : (ofWord marker word).isManagement = false) :
    ¬ marker.toList <:+: (ofWord marker word).camel.toList := by
  simp only [ofWord] at h ⊢
  rw [← occursIn_iff_infix, h]
  exact Bool.false_ne_true

/-- It names another one if the marker is taken from the start of the Pascal-case form alone. -/
theorem not_namesModel_of_startsWith
    (hmanagement : (ofWord marker word).isManagement = false)
    (hpascal : StartsWith marker (ofWord marker word).pascal) :
    ¬ NamesModel (ofWord marker word) d id (capitalize (ofWord marker word).camelBase) := by
  rw [namesModel_iff, not_and]
  intro _
  have hoccurs := not_infix_camel hmanagement
  have hmarker : marker ≠ "" := by
    rintro rfl
    exact hoccurs List.nil_infix
  have hbase : withoutMarker marker (ofWord marker word).camel = (ofWord marker word).camel :=
    not_not.mp (mt (withoutMarker_ne_iff hmarker).mp hoccurs)
  rw [camelBase_ofWord, hbase, ← pascal_ofWord, pascalBase_ofWord]
  exact (withoutMarker_ne_iff hmarker).mpr hpascal.isInfix

/-- **Hyphenated names identify camel-case names.** A camel-case name and its Pascal-case form have
the same hyphenated form, and different camel-case names have different ones. So let the base form
of a resource be a camel-case name, and let its definition unit be named after a model. The
repository of the resource names this model if the marker stands at the start of neither form. For a
resource without the marker, it does so only then: a marker at the start of the Pascal-case form is
taken from the name of the model as well. -/
theorem kebab_identifies_model {x y : String} (hx : IsCamelCase x) (hy : IsCamelCase y) :
    Naming.kebab x = modelKebab (capitalize x) ∧
      (Naming.kebab x = modelKebab (capitalize y) ↔ x = y) ∧
      ∀ marker word, IsWord word →
        let n := ofWord marker word
        n.camelBase = x → n.definitionId = modelKebab (capitalize y) → ∀ d id,
          (¬ StartsWith marker n.camel → ¬ StartsWith marker n.pascal →
            NamesModel n d id (capitalize y)) ∧
          (n.isManagement = false →
            (NamesModel n d id (capitalize y) ↔ ¬ StartsWith marker n.pascal)) := by
  refine ⟨hx.kebab_eq, by rw [← hy.kebab_eq, hx.kebab_inj hy], ?_⟩
  intro marker word hword n hbase hdefinition d id
  have hcamel : IsCamelCase n.camelBase := hbase ▸ hx
  obtain rfl : n.camelBase = y := camelBase_eq_of_definitionId hcamel hy hdefinition
  have hnames : ¬ StartsWith marker n.camel → ¬ StartsWith marker n.pascal →
      NamesModel n d id (capitalize n.camelBase) := namesModel_of_not_startsWith hword hcamel
  refine ⟨hnames, fun hmanagement => ⟨fun h hpascal => ?_, fun hpascal => ?_⟩⟩
  · exact not_namesModel_of_startsWith hmanagement hpascal h
  · exact hnames (fun hstart => not_infix_camel hmanagement hstart.isInfix) hpascal

/-- The first word is one letter, and the marker stands at the end. -/
theorem kebab_identifies_model_aBc :
    let n := ofWord defaultManagementMarker "aBcManagement"
    IsCamelCase "aBc" ∧ Naming.kebab "aBc" = "a-bc" ∧ modelKebab "ABc" = "a-bc" ∧
      n.definitionId = modelKebab "ABc" ∧ ∀ d id, NamesModel n d id "ABc" := by
  have hcamel : IsCamelCase "aBc" :=
    ⟨"a".toList, ["Bc".toList], by decide, ⟨by decide, List.all_eq_true.mp (by decide)⟩,
      List.forall_mem_singleton.mpr ⟨'B', "c".toList, by decide, by decide, by decide,
        List.all_eq_true.mp (by decide)⟩⟩
  have hword : IsWord "aBcManagement" := ⟨by decide, List.all_eq_true.mp (by decide)⟩
  obtain ⟨-, -, hnames⟩ := kebab_identifies_model hcamel hcamel
  have hdefinition : (ofWord defaultManagementMarker "aBcManagement").definitionId =
      modelKebab (capitalize "aBc") := by decide +kernel
  refine ⟨hcamel, by decide +kernel, by decide +kernel, hdefinition, fun d id => ?_⟩
  obtain ⟨hstarts, -⟩ := hnames defaultManagementMarker "aBcManagement" hword (by decide +kernel)
    hdefinition d id
  exact hstarts (by decide +kernel) (by decide +kernel)

/-- The model behind the resource has the marker at the start of its name, and the repository names
another one. -/
theorem repository_misnames_managementUser :
    let n := ofWord defaultManagementMarker "managementUser"
    IsCamelCase "managementUser" ∧ n.camelBase = "managementUser" ∧
      n.definitionId = modelKebab (capitalize "managementUser") ∧
      capitalize "managementUser" = "ManagementUser" ∧
      ∀ d id, ¬ NamesModel n d id "ManagementUser" ∧
        ∃ method ∈ methods n d id, method.name = "create" ∧
          method.parameters = "data: Prisma.UserCreateInput | Prisma.UserUncheckedCreateInput" := by
  have hcamel : IsCamelCase "managementUser" :=
    ⟨"management".toList, ["User".toList], by decide, ⟨by decide, List.all_eq_true.mp (by decide)⟩,
      List.forall_mem_singleton.mpr ⟨'U', "ser".toList, by decide, by decide, by decide,
        List.all_eq_true.mp (by decide)⟩⟩
  have hpascal : (ofWord defaultManagementMarker "managementUser").pascalBase = "User" := by
    decide +kernel
  refine ⟨hcamel, by decide +kernel, by decide +kernel, by decide +kernel, fun d id => ⟨?_, ?_⟩⟩
  · rw [namesModel_iff, hpascal]
    exact fun h => absurd h.2 (by decide)
  · refine ⟨_, List.mem_cons_self, rfl, ?_⟩
    rw [hpascal]
    rfl

end NestLayers.ResourceName

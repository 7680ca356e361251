import NestLayers.Layer.Conventions
import NestLayers.Proofs.Lines

/-!
# The characters of derived names

The forms of a name are made of the characters of the name: a case mapping puts no mark or line
feed into a name, and the hyphenated form adds hyphens alone. A resource name that is an ASCII
identifier therefore has forms that are identifiers, or hyphenated ones.
-/

namespace NestLayers.Text

/-- A property of all ASCII characters can be tested. -/
theorem forall_ascii (p : Char → Bool)
    (h : (List.range 128).all (fun n => p (Char.ofNat n)) = true) {c : Char} (hc : c.toNat < 128) :
    p c = true := by
  have hp := List.all_eq_true.mp h c.toNat (List.mem_range.mpr hc)
  rwa [Char.ofNat_toNat] at hp

/-- Letters and digits are ASCII characters. -/
theorem toNat_lt_of_isAlphanum {c : Char} (h : c.isAlphanum = true) : c.toNat < 128 := by
  have hranges : ((decide (c.val ≥ 'A'.val ∧ c.val ≤ 'Z'.val) ||
      c.val ≥ 'a'.val && c.val ≤ 'z'.val) || c.val ≥ '0'.val && c.val ≤ '9'.val) = true := h
  simp only [Bool.or_eq_true, Bool.and_eq_true, decide_eq_true_eq, ge_iff_le,
    UInt32.le_iff_toNat_le] at hranges
  have hval : c.toNat = c.val.toNat := rfl
  have hz : 'z'.val.toNat = 122 := by decide
  have hZ : 'Z'.val.toNat = 90 := by decide
  have hnine : '9'.val.toNat = 57 := by decide
  omega

/-- A character made from a code point has this code point, unless it is the null character. -/
theorem toNat_ofNat_or (n : Nat) : (Char.ofNat n).toNat = n ∨ (Char.ofNat n).toNat = 0 := by
  by_cases h : n.isValidChar
  · rw [Char.ofNat, dif_pos h]
    exact .inl rfl
  · rw [Char.ofNat, dif_neg h]
    exact .inr rfl

/-- The small form of a character beyond ASCII is a letter. -/
theorem le_shiftBy_lowerShifts {n : Nat} (hn : 128 ≤ n) : 65 ≤ shiftBy lowerShifts n := by
  have htable : ∀ s ∈ lowerShifts, 65 ≤ (s.first : Int) + s.distance := by decide +kernel
  unfold shiftBy
  split
  · rename_i s hs
    have hfirst := htable s (List.mem_of_find?_eq_some hs)
    have hcovers := List.find?_some hs
    simp only [Shift.covers, Bool.and_eq_true, decide_eq_true_eq] at hcovers
    omega
  · omega

/-- Marks and line feeds come from no other character. -/
theorem eq_of_mem_lowerChar {x c : Char} (hlow : 0 < x.toNat) (hhigh : x.toNat < 65)
    (h : x ∈ lowerChar c) : x = c := by
  unfold lowerChar at h
  split at h
  · rename_i hc
    have hascii := forall_ascii (fun c => c.toLower == c || 65 ≤ c.toLower.toNat)
      (by decide) hc
    obtain rfl := List.mem_singleton.mp h
    simp only [Bool.or_eq_true, beq_iff_eq, decide_eq_true_eq] at hascii
    rcases hascii with hascii | hascii
    · exact hascii
    · omega
  · rename_i hc
    split at h
    · have hletters : ∀ y ∈ ['i', Char.ofNat 0x307], 65 ≤ y.toNat :=
        List.forall_mem_cons.mpr ⟨by decide, List.forall_mem_singleton.mpr (by decide)⟩
      have := hletters x h
      omega
    · have hshift := le_shiftBy_lowerShifts (Nat.le_of_not_lt hc)
      obtain rfl := List.mem_singleton.mp h
      rcases toNat_ofNat_or (shiftBy lowerShifts c.toNat) with hcode | hcode
      · omega
      · omega

/-- The characters of a small form are those of the small forms of its characters. -/
theorem exists_of_mem_lowerFrom {x : Char} {before cs : List Char} (h : x ∈ lowerFrom before cs) :
    ∃ c ∈ cs, x ∈ lowerChar c ∨ c = 'Σ' ∧ (x = 'ς' ∨ x = 'σ') := by
  induction cs generalizing before with
  | nil => cases h
  | cons c cs ih =>
    rcases List.mem_append.mp h with h | h
    · unfold lowerBetween at h
      split at h
      · rename_i hsigma
        refine ⟨c, List.mem_cons_self, .inr ⟨hsigma, ?_⟩⟩
        have hx := List.mem_singleton.mp h
        split at hx
        · exact .inl hx
        · exact .inr hx
      · exact ⟨c, List.mem_cons_self, .inl h⟩
    · obtain ⟨d, hd, hx⟩ := ih h
      exact ⟨d, List.mem_cons_of_mem _ hd, hx⟩

/-- Marks and line feeds in a small form were there before. -/
theorem mem_of_mem_lowerChars {x : Char} {cs : List Char} (hlow : 0 < x.toNat)
    (hhigh : x.toNat < 65) (h : x ∈ lowerChars cs) : x ∈ cs := by
  obtain ⟨c, hc, hx | ⟨-, rfl | rfl⟩⟩ := exists_of_mem_lowerFrom h
  · rwa [eq_of_mem_lowerChar hlow hhigh hx]
  · exact absurd hhigh (by decide)
  · exact absurd hhigh (by decide)

/-- The small form of an ASCII text is made letter by letter. -/
theorem lowerChars_of_ascii {cs : List Char} (hcs : ∀ c ∈ cs, c.toNat < 128) :
    lowerChars cs = cs.map Char.toLower := by
  suffices h : ∀ before, lowerFrom before cs = cs.map Char.toLower from h []
  induction cs with
  | nil => exact fun _ => rfl
  | cons c cs ih =>
    intro before
    obtain ⟨hc, hrest⟩ := List.forall_mem_cons.mp hcs
    have hsigma : c ≠ 'Σ' := by
      rintro rfl
      exact absurd hc (by decide)
    simp [lowerFrom, lowerBetween, hsigma, lowerChar, hc, ih hrest]

/-- Taking the first occurrence of a piece out of a text adds nothing. -/
theorem mem_of_mem_eraseFirst {x : Char} {piece cs : List Char} (h : x ∈ eraseFirst piece cs) :
    x ∈ cs := by
  induction cs with
  | nil => exact h
  | cons c cs ih =>
    unfold eraseFirst at h
    split at h
    · rename_i rest hrest
      rw [append_of_afterStart? hrest]
      exact List.mem_append_right _ h
    · rcases List.mem_cons.mp h with rfl | h
      · exact List.mem_cons_self
      · exact List.mem_cons_of_mem _ (ih h)

/-- A text without blanks stays as it is. -/
theorem trim_eq_self {s : String} (h : ∀ c ∈ s.toList, isBlank c = false) : trim s = s := by
  have hstart : Stops isBlank s.toList := fun c hc => h c (List.mem_of_head? hc)
  have hstop : ∀ c ∈ s.toList.getLast?, isBlank c = false :=
    fun c hc => h c (List.mem_of_getLast? hc)
  rw [trim, trimChars, hstart.dropWhile_eq, dropTail_of_getLast hstop, String.ofList_toList]

end NestLayers.Text

namespace NestLayers.Naming

open NestLayers.Text

/-- Hyphenation adds hyphens alone. -/
theorem mem_of_mem_hyphenateWords {x : Char} {cs : List Char} (h : x ∈ hyphenateWords cs) :
    x = '-' ∨ x ∈ cs := by
  fun_induction hyphenateWords cs with
  | case1 a b rest hborder ih => grind
  | case2 a b rest hborder ih => grind
  | case3 cs => exact .inr h

/-- Only hyphens come in between acronyms. -/
theorem mem_of_mem_hyphenateAcronyms {x : Char} {cs : List Char} (h : x ∈ hyphenateAcronyms cs) :
    x = '-' ∨ x ∈ cs := by
  fun_induction hyphenateAcronyms cs with
  | case1 a b c rest hborder ih => grind
  | case2 a b c rest hborder ih => grind
  | case3 cs => exact .inr h

/-- A letter, a digit or the underscore, within ASCII. -/
def isIdentifierChar (c : Char) : Bool :=
  c.isAlphanum || c == '_'

/-- A character of a hyphenated identifier. -/
def isKebabChar (c : Char) : Bool :=
  isIdentifierChar c || c == '-'

/-- An ASCII identifier that starts with a letter. -/
structure IsIdentifier (cs : List Char) : Prop where
  head : cs.head?.any Char.isAlpha = true
  all : ∀ c ∈ cs, isIdentifierChar c = true

/-- The characters of identifiers, hyphenated or not, are ASCII characters. -/
theorem toNat_lt_of_isKebabChar {c : Char} (h : isKebabChar c = true) : c.toNat < 128 := by
  simp only [isKebabChar, isIdentifierChar, Bool.or_eq_true, beq_iff_eq] at h
  rcases h with (h | rfl) | rfl
  · exact toNat_lt_of_isAlphanum h
  · decide
  · decide

/-- Identifiers may stand in kebab case. -/
theorem isKebabChar_of_isIdentifierChar {c : Char} (h : isIdentifierChar c = true) :
    isKebabChar c = true := by
  simp [isKebabChar, h]

/-- What holds of the characters of a hyphenated identifier can be tested. -/
theorem forall_isKebabChar (p : Char → Bool)
    (h : (List.range 128).all (fun n => !isKebabChar (Char.ofNat n) || p (Char.ofNat n)) = true)
    {c : Char} (hc : isKebabChar c = true) : p c = true := by
  have hp := forall_ascii (fun c => !isKebabChar c || p c) h (toNat_lt_of_isKebabChar hc)
  simpa [hc] using hp

/-- A word of letters, digits and underscores, within ASCII. -/
structure IsWord (word : String) : Prop where
  ne_empty : word ≠ ""
  all : ∀ c ∈ word.toList, isIdentifierChar c = true

private theorem IsIdentifier.isWord {word : String} (h : IsIdentifier word.toList) :
    IsWord word := by
  refine ⟨?_, h.all⟩
  rintro rfl
  exact absurd h.head (by decide)

/-- The word stays one with a small letter in front. -/
theorem isWord_uncapitalize {word : String} (h : IsWord word) : IsWord (uncapitalize word) := by
  cases hchars : word.toList with
  | nil => exact absurd (String.toList_eq_nil_iff.mp hchars) h.ne_empty
  | cons c rest =>
    have hall : ∀ d ∈ c :: rest, isIdentifierChar d = true := hchars ▸ h.all
    obtain ⟨hc, hrest⟩ := List.forall_mem_cons.mp hall
    have hkebab := isKebabChar_of_isIdentifierChar hc
    have hlower := forall_isKebabChar
      (fun c => !isIdentifierChar c || isIdentifierChar c.toLower) (by decide) hkebab
    have hlowerChars : lowerChars [c] = [c.toLower] :=
      lowerChars_of_ascii (by simpa using toNat_lt_of_isKebabChar hkebab)
    have hform : uncapitalize word = String.ofList (c.toLower :: rest) := by
      simp only [uncapitalize, hchars, hlowerChars]
      rfl
    refine ⟨by simp [hform], ?_⟩
    rw [hform, String.toList_ofList]
    exact List.forall_mem_cons.mpr
      ⟨by simpa only [hc, Bool.not_true, Bool.false_or] using hlower, hrest⟩

/-- The first letter of a word is turned into a capital, and no other one. -/
theorem IsWord.exists_capitalize {name : String} (h : IsWord name) :
    ∃ c rest, c.toNat < 128 ∧ name.toList = c :: rest ∧
      (capitalize name).toList = c.toUpper :: rest := by
  cases hchars : name.toList with
  | nil => exact absurd (String.toList_eq_nil_iff.mp hchars) h.ne_empty
  | cons c rest =>
    have hc : c.toNat < 128 := toNat_lt_of_isKebabChar
      (isKebabChar_of_isIdentifierChar (h.all c (by simp [hchars])))
    exact ⟨c, rest, hc, rfl, by simp [capitalize, hchars, upperChar, hc]⟩

private theorem isWord_capitalize {word : String} (h : IsWord word) : IsWord (capitalize word) := by
  obtain ⟨c, rest, -, hchars, hcapital⟩ := h.exists_capitalize
  have hall : ∀ d ∈ c :: rest, isIdentifierChar d = true := hchars ▸ h.all
  obtain ⟨hc, hrest⟩ := List.forall_mem_cons.mp hall
  have hupper := forall_isKebabChar
    (fun c => !isIdentifierChar c || isIdentifierChar c.toUpper) (by decide)
    (isKebabChar_of_isIdentifierChar hc)
  refine ⟨fun hempty => ?_, ?_⟩
  · simp [hempty] at hcapital
  · rw [hcapital]
    exact List.forall_mem_cons.mpr
      ⟨by simpa only [hc, Bool.not_true, Bool.false_or] using hupper, hrest⟩

/-- The hyphenated form of an identifier is a hyphenated identifier. -/
theorem isKebabChar_kebab {name : String} (h : ∀ c ∈ name.toList, isIdentifierChar c = true) :
    ∀ c ∈ (kebab name).toList, isKebabChar c = true := by
  have hwords : ∀ c ∈ hyphenateWords name.toList, isKebabChar c = true := by
    intro c hc
    rcases mem_of_mem_hyphenateWords hc with rfl | hc
    · decide
    · exact isKebabChar_of_isIdentifierChar (h c hc)
  have hascii : ∀ c ∈ hyphenateWords name.toList, c.toNat < 128 :=
    fun c hc => toNat_lt_of_isKebabChar (hwords c hc)
  rw [kebab, String.toList_ofList, lowerChars_of_ascii hascii]
  intro c hc
  obtain ⟨d, hd, rfl⟩ := List.mem_map.mp hc
  exact forall_isKebabChar (fun c => isKebabChar c.toLower) (by decide) (hwords d hd)

/-- A name is not empty in kebab case. -/
theorem kebab_ne_empty {name : String} (hname : name ≠ "")
    (h : ∀ c ∈ name.toList, isIdentifierChar c = true) : kebab name ≠ "" := by
  have hascii : ∀ c ∈ hyphenateWords name.toList, c.toNat < 128 := by
    intro c hc
    rcases mem_of_mem_hyphenateWords hc with rfl | hc
    · decide
    · exact toNat_lt_of_isKebabChar (isKebabChar_of_isIdentifierChar (h c hc))
  have hne : hyphenateWords name.toList ≠ [] := by
    cases hchars : name.toList with
    | nil => exact absurd (String.toList_eq_nil_iff.mp hchars) hname
    | cons c rest =>
      cases rest with
      | nil => simp [hyphenateWords]
      | cons d rest =>
        rw [hyphenateWords]
        split <;> simp
  rw [kebab, lowerChars_of_ascii hascii]
  simpa using hne

/-- A hyphenated identifier is one line. -/
theorem isOneLine_of_isKebabChar {s : String} (h : ∀ c ∈ s.toList, isKebabChar c = true) :
    IsOneLine s :=
  fun hnewline => absurd (h _ hnewline) (by decide)

/-- A marker is taken out of an identifier without a trace. -/
theorem isIdentifierChar_withoutMarker (marker : String) {name : String}
    (h : ∀ c ∈ name.toList, isIdentifierChar c = true) :
    ∀ c ∈ (withoutMarker marker name).toList, isIdentifierChar c = true := by
  intro c hc
  rw [withoutMarker, String.toList_ofList] at hc
  exact h c (mem_of_mem_eraseFirst hc)

end NestLayers.Naming

namespace NestLayers

open NestLayers.Text NestLayers.Naming

/-- The forms of a resource name that an ASCII word has. -/
structure ResourceName.IsPlain (n : ResourceName) : Prop where
  camel : IsWord n.camel
  pascal : IsWord n.pascal
  kebab : ∀ c ∈ n.kebab.toList, isKebabChar c = true
  kebab_ne_empty : n.kebab ≠ ""
  camelBase : ∀ c ∈ n.camelBase.toList, isIdentifierChar c = true
  pascalBase : ∀ c ∈ n.pascalBase.toList, isIdentifierChar c = true
  kebabBase : ∀ c ∈ n.kebabBase.toList, isKebabChar c = true

/-- A word has no blanks at its ends. -/
theorem trim_of_isIdentifierChar {word : String}
    (h : ∀ c ∈ word.toList, isIdentifierChar c = true) : trim word = word := by
  refine trim_eq_self fun c hc => ?_
  have hkebab := isKebabChar_of_isIdentifierChar (h c hc)
  simpa using forall_isKebabChar (fun c => !isBlank c) (by decide) hkebab

/-- All forms of an ASCII word are plain. -/
theorem ResourceName.isPlain_of_isWord (marker : String) {word : String} (h : IsWord word) :
    (ResourceName.ofWord marker word).IsPlain := by
  have hcamel : IsWord (uncapitalize (trim word)) := by
    rw [trim_of_isIdentifierChar h.all]
    exact isWord_uncapitalize h
  have hpascal := isWord_capitalize hcamel
  have hbase := isIdentifierChar_withoutMarker marker hcamel.all
  unfold ResourceName.ofWord
  refine ⟨?_, ?_, ?_, ?_, ?_, ?_, ?_⟩ <;> dsimp only
  · exact hcamel
  · exact hpascal
  · exact isKebabChar_kebab hcamel.all
  · exact Naming.kebab_ne_empty hcamel.ne_empty hcamel.all
  · exact hbase
  · exact isIdentifierChar_withoutMarker marker hpascal.all
  · exact isKebabChar_kebab hbase

/-- All forms of an ASCII identifier are plain. -/
theorem ResourceName.isPlain_ofWord (marker : String) {word : String}
    (h : IsIdentifier word.toList) : (ResourceName.ofWord marker word).IsPlain :=
  isPlain_of_isWord marker h.isWord

end NestLayers

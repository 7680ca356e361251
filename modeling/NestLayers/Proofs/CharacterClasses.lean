import Mathlib.Data.List.TakeWhile
import Mathlib.Tactic.Common
import NestLayers.FieldLine.Token
import NestLayers.Text.Lines

/-!
# Character classes and runs

The scanners stop at the first character outside a class, so everything about them rests on
two kinds of facts: which classes are disjoint, and that the longest run of a class at the
start of a text is the one that a text of this form was built from.
-/

namespace NestLayers.Text

/-- The code points of the blank characters. -/
def blankCodes : List Nat :=
  [9, 10, 11, 12, 13, 28, 29, 30, 31, 32, 0x85, 0xA0, 0x1680, 0x2000, 0x2001, 0x2002, 0x2003,
   0x2004, 0x2005, 0x2006, 0x2007, 0x2008, 0x2009, 0x200A, 0x2028, 0x2029, 0x202F, 0x205F,
   0x3000]

/-- The blank characters are those of the listed code points. This turns statements about all
blanks into finite checks. -/
theorem toNat_mem_blankCodes {c : Char} (hc : isBlank c = true) : c.toNat ∈ blankCodes := by
  simp only [isBlank, Bool.or_eq_true, Bool.and_eq_true, decide_eq_true_eq, beq_iff_eq] at hc
  simp only [blankCodes, List.mem_cons, List.not_mem_nil]
  omega

/-- A property of the listed characters holds of every blank. -/
theorem forall_isBlank (p : Char → Prop) (hp : ∀ n ∈ blankCodes, p (Char.ofNat n)) {c : Char}
    (hc : isBlank c = true) : p c := by
  have h := hp c.toNat (toNat_mem_blankCodes hc)
  rwa [Char.ofNat_toNat] at h

/-- No blank is a word character. -/
theorem isWord_of_isBlank {c : Char} (hc : isBlank c = true) : isWord c = false :=
  forall_isBlank (isWord · = false) (by decide +kernel) hc

/-- No word character is blank. -/
theorem isBlank_of_isWord {c : Char} (hc : isWord c = true) : isBlank c = false := by
  by_contra h
  have hword := isWord_of_isBlank (c := c) (by simpa using h)
  rw [hc] at hword
  cases hword

/-- Every line break is blank. -/
theorem isBlank_of_isLineBreak {c : Char} (hc : isLineBreak c = true) : isBlank c = true := by
  simp only [isLineBreak, Bool.or_eq_true, Bool.and_eq_true, decide_eq_true_eq, beq_iff_eq] at hc
  simp only [isBlank, Bool.or_eq_true, Bool.and_eq_true, decide_eq_true_eq, beq_iff_eq]
  omega

/-- No word character breaks a line. -/
theorem isLineBreak_of_isWord {c : Char} (hc : isWord c = true) : isLineBreak c = false := by
  by_contra h
  have hblank := isBlank_of_isLineBreak (c := c) (by simpa using h)
  rw [isBlank_of_isWord hc] at hblank
  cases hblank

/-- What a name may start with may also continue it. -/
theorem isWord_of_isNameStart {c : Char} (hc : isNameStart c = true) : isWord c = true := by
  simp only [isNameStart, Bool.or_eq_true] at hc
  simp only [isWord, Char.isAlphanum, Bool.or_eq_true]
  tauto

/-- A text does not go on with a character of a class: it is empty or starts with another
character. -/
def Stops (p : Char → Bool) (cs : List Char) : Prop :=
  ∀ c ∈ cs.head?, p c = false

/-- It is decided by the first character. -/
instance (p : Char → Bool) (cs : List Char) : Decidable (Stops p cs) :=
  Option.decidableForallMem cs.head?

/-- The end stops every run. -/
@[simp] theorem stops_nil (p : Char → Bool) : Stops p [] := by
  simp [Stops]

/-- The next character stops a run if it is not in the class. -/
@[simp] theorem stops_cons {p : Char → Bool} {c : Char} {cs : List Char} :
    Stops p (c :: cs) ↔ p c = false := by
  simp [Stops]

/-- What follows the longest run of a class does not go on with it. -/
theorem stops_dropWhile (p : Char → Bool) (cs : List Char) : Stops p (cs.dropWhile p) := by
  intro c hc
  have h := List.head?_dropWhile_not p cs
  rw [Option.mem_def.mp hc] at h
  simpa using h

/-- A nonempty first part decides how a text goes on. -/
theorem Stops.append {p : Char → Bool} {first : List Char} (hfirst : Stops p first)
    {rest : List Char} (hrest : first = [] → Stops p rest) : Stops p (first ++ rest) := by
  cases first with
  | nil => exact hrest rfl
  | cons c cs => simpa using hfirst

/-- The longest run of a class at the start of a text is the run that the text was built
from. -/
theorem takeWhile_append_stops {p : Char → Bool} {run rest : List Char}
    (hrun : ∀ c ∈ run, p c = true) (hrest : Stops p rest) : (run ++ rest).takeWhile p = run := by
  rw [List.takeWhile_append_of_pos hrun]
  cases rest with
  | nil => simp
  | cons c cs => simp [stops_cons.mp hrest]

/-- What follows the longest run of a class is what was put after the run. -/
theorem dropWhile_append_stops {p : Char → Bool} {run rest : List Char}
    (hrun : ∀ c ∈ run, p c = true) (hrest : Stops p rest) : (run ++ rest).dropWhile p = rest := by
  rw [List.dropWhile_append_of_pos hrun]
  cases rest with
  | nil => simp
  | cons c cs => simp [stops_cons.mp hrest]

/-- Nothing is dropped from a text that does not start with the class. -/
theorem Stops.dropWhile_eq {p : Char → Bool} {cs : List Char} (h : Stops p cs) :
    cs.dropWhile p = cs := by
  simpa using dropWhile_append_stops (List.forall_mem_nil _) h

/-- A text splits in one way into a run of a class and a rest that does not go on with it. -/
theorem append_stops_inj {p : Char → Bool} {run run' rest rest' : List Char}
    (hrun : ∀ c ∈ run, p c = true) (hrest : Stops p rest)
    (hrun' : ∀ c ∈ run', p c = true) (hrest' : Stops p rest')
    (h : run ++ rest = run' ++ rest') : run = run' ∧ rest = rest' := by
  have htake := congrArg (List.takeWhile p) h
  have hdrop := congrArg (List.dropWhile p) h
  rw [takeWhile_append_stops hrun hrest, takeWhile_append_stops hrun' hrest'] at htake
  rw [dropWhile_append_stops hrun hrest, dropWhile_append_stops hrun' hrest'] at hdrop
  exact ⟨htake, hdrop⟩

/-- The text consists of blanks. -/
def IsBlanks (cs : List Char) : Prop :=
  ∀ c ∈ cs, isBlank c = true

/-- The text is a nonempty word: its first character is of one class, the others are of
another. -/
def IsRun (first others : Char → Bool) : List Char → Prop
  | [] => False
  | c :: cs => first c = true ∧ ∀ d ∈ cs, others d = true

-- The instance is given since the quantifier alone could be decided by trying all characters.
/-- It is decided character by character. -/
instance (cs : List Char) : Decidable (IsBlanks cs) :=
  List.decidableBAll _ cs

/-- No characters are blanks. -/
theorem isBlanks_nil : IsBlanks [] :=
  List.forall_mem_nil _

/-- A space is blank. -/
theorem isBlanks_space : IsBlanks [' '] := by decide

/-- It is decided character by character. -/
instance (first others : Char → Bool) : DecidablePred (IsRun first others)
  | [] => instDecidableFalse
  | _ :: cs => @instDecidableAnd _ _ _ (List.decidableBAll _ cs)

/-- Blanks do not continue a class without blanks. -/
theorem IsBlanks.stops {p : Char → Bool} {blanks rest : List Char} (hblanks : IsBlanks blanks)
    (hp : ∀ c, isBlank c = true → p c = false) (hrest : Stops p rest) :
    Stops p (blanks ++ rest) := by
  cases blanks with
  | nil => exact hrest
  | cons c cs => simpa using hp c (hblanks c List.mem_cons_self)

/-- If the first character is also of the second class, all characters are. -/
theorem IsRun.all {first others : Char → Bool} {cs : List Char} (h : IsRun first others cs)
    (hsub : ∀ c, first c = true → others c = true) : ∀ c ∈ cs, others c = true := by
  cases cs with
  | nil => exact h.elim
  | cons c cs =>
    intro d hd
    rcases List.mem_cons.mp hd with rfl | hd
    · exact hsub _ h.1
    · exact h.2 d hd

/-- The longest run of a class is a word if the text starts with a first character of words. -/
theorem isRun_takeWhile {first others : Char → Bool} {cs : List Char}
    (hhead : cs.head?.any first = true) (hsub : ∀ c, first c = true → others c = true) :
    IsRun first others (cs.takeWhile others) := by
  cases cs with
  | nil => cases hhead
  | cons c cs =>
    rw [List.takeWhile_cons_of_pos (hsub c hhead)]
    exact ⟨hhead, fun d hd => List.mem_takeWhile_imp hd⟩

/-- A word starts like its first character. -/
theorem IsRun.stops {first others p : Char → Bool} {cs rest : List Char}
    (h : IsRun first others cs) (hp : ∀ c, first c = true → p c = false) :
    Stops p (cs ++ rest) := by
  cases cs with
  | nil => exact h.elim
  | cons c cs => simpa using hp c h.1

end NestLayers.Text

namespace NestLayers.FieldLine

open NestLayers.Text

/-- A field name or a type name. -/
abbrev IsName : List Char → Prop := IsRun isNameStart isWord

/-- Names consist of word characters. -/
theorem IsName.isWord {cs : List Char} (h : IsName cs) : ∀ c ∈ cs, isWord c = true :=
  h.all fun _ => isWord_of_isNameStart

/-- The name of an attribute, after its `@`. -/
abbrev IsAttributeName : List Char → Prop := IsRun isNameStart isAttributeChar

/-- What starts a name can stand in an attribute. -/
theorem isAttributeChar_of_isNameStart {c : Char} (hc : isNameStart c = true) :
    isAttributeChar c = true := by
  simp [isAttributeChar, isWord_of_isNameStart hc]

/-- No blank continues the name of an attribute. -/
theorem isAttributeChar_of_isBlank {c : Char} (hc : isBlank c = true) :
    isAttributeChar c = false := by
  have hdot : c ≠ '.' := by
    rintro rfl
    simp [isBlank] at hc
  simp [isAttributeChar, isWord_of_isBlank hc, hdot]

/-- No name starts with a blank. -/
theorem isBlank_of_isNameStart {c : Char} (hc : isNameStart c = true) : isBlank c = false :=
  isBlank_of_isWord (isWord_of_isNameStart hc)

end NestLayers.FieldLine

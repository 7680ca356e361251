import NestLayers.Definition.Reader
import NestLayers.Proofs.CharacterClasses

/-!
# Lines, ends and pieces of texts

How the text functions behind the reader of definitions act on texts that are put together from
parts: splitting a text of whole lines gives the lines back, and the blanks at the ends of a
text and a block attribute in it are found from its parts.
-/

namespace NestLayers.Text

/-- The text has no character that ends a line. -/
def IsLine (cs : List Char) : Prop :=
  ∀ c ∈ cs, isLineBreak c = false

/-- It is decided character by character. -/
instance (cs : List Char) : Decidable (IsLine cs) :=
  List.decidableBAll _ cs

/-- The empty text is a line. -/
@[simp] theorem isLine_nil : IsLine [] := by
  simp [IsLine]

/-- A line starts with no line break. -/
@[simp] theorem isLine_cons {c : Char} {cs : List Char} :
    IsLine (c :: cs) ↔ isLineBreak c = false ∧ IsLine cs := by
  simp [IsLine]

/-- Two parts of a line are lines. -/
@[simp] theorem isLine_append {cs ds : List Char} : IsLine (cs ++ ds) ↔ IsLine cs ∧ IsLine ds := by
  simp only [IsLine, List.mem_append, or_imp, forall_and]

/-- Words have no line ends. -/
theorem isLine_of_isWord {cs : List Char} (h : ∀ c ∈ cs, isWord c = true) : IsLine cs :=
  fun c hc => isLineBreak_of_isWord (h c hc)

/-- The text has no line feed. -/
def IsOneLine (s : String) : Prop :=
  '\n' ∉ s.toList

/-- It is decided by searching the text. -/
instance (s : String) : Decidable (IsOneLine s) :=
  inferInstanceAs (Decidable (_ ∉ _))

/-- The empty text is one line. -/
@[simp] theorem isOneLine_empty : IsOneLine "" := by
  decide

/-- Two parts of one line are one line each. -/
@[simp] theorem isOneLine_append {s t : String} :
    IsOneLine (s ++ t) ↔ IsOneLine s ∧ IsOneLine t := by
  simp [IsOneLine]

/-- One line is a text without a line feed. -/
@[simp] theorem isOneLine_ofList {cs : List Char} : IsOneLine (String.ofList cs) ↔ '\n' ∉ cs := by
  simp [IsOneLine]

/-- Joined texts have no character that neither the texts nor what stands between them has. -/
theorem notMem_intercalate {c : Char} {separator : List Char} {texts : List (List Char)}
    (hseparator : c ∉ separator) (htexts : ∀ text ∈ texts, c ∉ text) :
    c ∉ List.intercalate separator texts := by
  induction texts with
  | nil => simp
  | cons text texts ih =>
    obtain ⟨htext, hrest⟩ := List.forall_mem_cons.mp htexts
    cases texts with
    | nil => simpa using htext
    | cons next texts =>
      rw [List.intercalate_cons_cons]
      simp only [List.mem_append, htext, hseparator, ih hrest, or_self, not_false_eq_true]

/-- Joined texts are one line if the texts and what stands between them are. -/
theorem isOneLine_intercalate {separator : String} {texts : List String}
    (hseparator : IsOneLine separator) (htexts : ∀ text ∈ texts, IsOneLine text) :
    IsOneLine (String.intercalate separator texts) := by
  rw [IsOneLine, String.toList_intercalate]
  exact notMem_intercalate hseparator (List.forall_mem_map.mpr htexts)

/-- A character that ends no line is put in front of the first line. -/
theorem splitLines_cons {c : Char} (hc : isLineBreak c = false) (cs : List Char) :
    splitLines (c :: cs) = consLine c (splitLines cs) := by
  have hreturn : c ≠ '\r' := by
    rintro rfl
    cases hc
  rw [splitLines]
  · simp [hc]
  · rintro rest rfl
    exact absurd rfl hreturn

/-- A line feed after a line splits it off. -/
theorem splitLines_line {line : List Char} (hline : IsLine line) (rest : List Char) :
    splitLines (line ++ '\n' :: rest) = line :: splitLines rest := by
  induction line with
  | nil =>
    rw [List.nil_append, splitLines]
    · simp [isLineBreak]
    · simp
  | cons c cs ih =>
    obtain ⟨hc, hcs⟩ := isLine_cons.mp hline
    rw [List.cons_append, splitLines_cons hc, ih hcs]
    rfl

/-- A text of whole lines splits into these lines. -/
theorem splitLines_flatMap {lines : List (List Char)} (hlines : ∀ line ∈ lines, IsLine line) :
    splitLines (lines.flatMap (· ++ ['\n'])) = lines := by
  induction lines with
  | nil => rfl
  | cons line lines ih =>
    obtain ⟨hline, hrest⟩ := List.forall_mem_cons.mp hlines
    have hsplit := splitLines_line hline (lines.flatMap (· ++ ['\n']))
    rw [ih hrest] at hsplit
    simpa using hsplit

/-- Nothing before a character outside the class is dropped from the end of a text. -/
theorem dropTail_cons {p : Char → Bool} {c : Char} (hc : p c = false) (cs : List Char) :
    dropTail p (c :: cs) = c :: dropTail p cs := by
  have hlast : [c].dropWhile p = [c] := by simp [hc]
  rw [dropTail, dropTail, List.reverse_cons, List.dropWhile_append]
  split
  · rename_i hempty
    simp [hlast, List.isEmpty_iff.mp hempty]
  · simp

/-- A text that ends outside the class keeps its end. -/
theorem dropTail_of_getLast {p : Char → Bool} {cs : List Char}
    (h : ∀ c ∈ cs.getLast?, p c = false) : dropTail p cs = cs := by
  have hstops : Stops p cs.reverse := by simpa [Stops] using h
  rw [dropTail, hstops.dropWhile_eq, List.reverse_reverse]

/-- Blanks in front of a text do not change what it is without the blanks at its ends. -/
theorem trimChars_blanks {blanks : List Char} (hblanks : IsBlanks blanks) (cs : List Char) :
    trimChars (blanks ++ cs) = trimChars cs := by
  rw [trimChars, List.dropWhile_append_of_pos hblanks, trimChars]

/-- A text without the blanks at its ends starts with its first other character. -/
theorem head?_trimChars {blanks : List Char} (hblanks : IsBlanks blanks) {c : Char}
    (hc : isBlank c = false) (cs : List Char) :
    (trimChars (blanks ++ c :: cs)).head? = some c := by
  rw [trimChars_blanks hblanks, trimChars, List.dropWhile_cons_of_neg (by simp [hc]),
    dropTail_cons hc]
  rfl

/-- What follows a piece is found behind it. -/
@[simp] theorem afterStart?_append (piece rest : List Char) :
    afterStart? piece (piece ++ rest) = some rest := by
  induction piece with
  | nil => rfl
  | cons c piece ih => simpa [afterStart?] using ih

/-- A text that starts with a piece is the piece and what follows it. -/
theorem append_of_afterStart? {piece cs rest : List Char} (h : afterStart? piece cs = some rest) :
    cs = piece ++ rest := by
  fun_induction afterStart? piece cs with
  | case1 cs => exact Option.some.inj h
  | case2 => cases h
  | case3 piece c cs ih => rw [List.cons_append, ← ih h]
  | case4 => cases h

/-- A text starts with a piece exactly if something follows the piece in it. -/
theorem isSome_afterStart? {piece cs : List Char} :
    (afterStart? piece cs).isSome = true ↔ piece <+: cs := by
  constructor
  · intro h
    obtain ⟨rest, hrest⟩ := Option.isSome_iff_exists.mp h
    exact ⟨rest, (append_of_afterStart? hrest).symm⟩
  · rintro ⟨rest, rfl⟩
    rw [afterStart?_append, Option.isSome_some]

/-- A piece is found in a text exactly if it is a part of it. -/
theorem occursIn_iff_infix {piece cs : List Char} : occursIn piece cs = true ↔ piece <:+: cs := by
  induction cs with
  | nil => rw [occursIn, List.infix_nil, List.isEmpty_iff]
  | cons c cs ih =>
    rw [occursIn, Bool.or_eq_true, isSome_afterStart?, List.infix_cons_iff]
    exact or_congr_right ih

/-- A block attribute is not found across a character that is no `@`. -/
theorem occursIn_at_append {c : Char} (hc : c ≠ '@') (cs ds : List Char) :
    occursIn ['@', '@'] (cs ++ c :: ds) =
      (occursIn ['@', '@'] cs || occursIn ['@', '@'] ds) := by
  induction cs with
  | nil => simp [occursIn, afterStart?, hc.symm]
  | cons d cs ih =>
    have hstart : (afterStart? ['@', '@'] (d :: (cs ++ c :: ds))).isSome =
        (afterStart? ['@', '@'] (d :: cs)).isSome := by
      cases cs with
      | nil => simp [afterStart?, hc.symm]
      | cons e es =>
        simp only [List.cons_append, afterStart?]
        split_ifs <;> rfl
    rw [List.cons_append, occursIn, occursIn, hstart, ih, Bool.or_assoc]

/-- A text without an `@` has no block attribute. -/
theorem occursIn_at_of_notMem {cs : List Char} (h : '@' ∉ cs) :
    occursIn ['@', '@'] cs = false := by
  induction cs with
  | nil => rfl
  | cons c cs ih =>
    obtain ⟨hc, hcs⟩ := not_or.mp (mt List.mem_cons.mpr h)
    simp [occursIn, afterStart?, hc, ih hcs]

/-- A row of texts with a space after each has a block attribute only where one of them has. -/
theorem occursIn_at_flatMap {texts : List String} {cs : List Char}
    (htexts : ∀ text ∈ texts, occursIn ['@', '@'] text.toList = false)
    (hcs : occursIn ['@', '@'] cs = false) :
    occursIn ['@', '@'] ((texts.flatMap fun text => text.toList ++ [' ']) ++ cs) = false := by
  induction texts with
  | nil => exact hcs
  | cons text texts ih =>
    obtain ⟨htext, hrest⟩ := List.forall_mem_cons.mp htexts
    have hspace : ' ' ≠ '@' := by decide
    simp only [List.flatMap_cons, List.append_assoc, List.cons_append, List.nil_append]
    rw [occursIn_at_append hspace, htext, ih hrest]
    rfl

end NestLayers.Text

import Mathlib.Data.List.Basic
import NestLayers.Directive
import NestLayers.Proofs.Lines

/-!
# The pieces of a comment

A comment is cut into words, each a number sign with the letters that follow it, and the characters
around them. `Cuts` says without a scanner which pieces a comment consists of, and every comment
consists of the pieces of exactly one cut. No letter follows a word, so that words can be left out,
exchanged or written again without joining what is around them to a new word.
-/

namespace NestLayers

/-- The words of the vocabulary stand for their directives, and no other word stands for one. -/
theorem Directive.ofWord?_eq_some_iff {letters : List Char} {d : Directive} :
    Directive.ofWord? letters = some d ↔ (String.ofList letters, d) ∈ Directive.vocabulary := by
  have hwords : (Directive.vocabulary.map (·.1)).Nodup := by decide
  rw [ofWord?, List.lookup_eq_some_iff]
  constructor
  · rintro ⟨before, after, hentry, -⟩
    rw [hentry]
    exact List.mem_append_right _ List.mem_cons_self
  · intro hmem
    obtain ⟨before, after, hentry⟩ := List.append_of_mem hmem
    refine ⟨before, after, hentry, fun entry hbefore => ?_⟩
    rw [hentry, List.map_append, List.map_cons, List.nodup_append] at hwords
    have hne := hwords.2.2 entry.1 (List.mem_map_of_mem hbefore) _ List.mem_cons_self
    simpa using Ne.symm hne

end NestLayers

namespace NestLayers.CommentPiece

open NestLayers.Text

/-- The characters that a piece was cut from. -/
def characters : CommentPiece → List Char
  | .text c => [c]
  | .word letters => '#' :: letters

/-- The text that pieces make up. -/
def textOf (pieces : List CommentPiece) : String :=
  String.ofList (pieces.flatMap characters)

/-- The pieces can be told apart in the text that they make up: no letter follows a word, or a
number sign that is text. -/
def AreApart : List CommentPiece → Prop
  | [] => True
  | .text c :: rest =>
    (c = '#' → Stops Char.isAlpha (rest.flatMap characters)) ∧ AreApart rest
  | .word letters :: rest =>
    letters ≠ [] ∧ (∀ c ∈ letters, c.isAlpha = true) ∧
      Stops Char.isAlpha (rest.flatMap characters) ∧ AreApart rest

/-- The pieces are those of the comment: they make it up, and are apart in it. Each word then takes
all letters behind its number sign, and each number sign with a letter behind it starts a word. -/
structure Cuts (pieces : List CommentPiece) (comment : String) : Prop where
  text : textOf pieces = comment
  apart : AreApart pieces

/-- Whether a piece is a directive. -/
def isDirective (piece : CommentPiece) : Bool :=
  piece.directive?.isSome

/-- Whether a piece is a word outside the vocabulary. -/
def isUnknown : CommentPiece → Bool
  | .text _ => false
  | .word letters => (Directive.ofWord? letters).isNone

/-! ## Cutting a comment -/

private theorem flatMap_characters_commentPieces (cs : List Char) :
    (commentPieces cs).flatMap characters = cs := by
  fun_induction commentPieces cs with
  | case1 => rfl
  | case2 c rest hword ih =>
    rw [List.flatMap_cons, ih, characters, hword.1, List.cons_append,
      List.takeWhile_append_dropWhile]
  | case3 c rest hword ih => rw [List.flatMap_cons, ih, characters, List.singleton_append]

/-- The pieces of a comment are apart. -/
theorem areApart_commentPieces (cs : List Char) : AreApart (commentPieces cs) := by
  fun_induction commentPieces cs with
  | case1 => trivial
  | case2 c rest hword ih =>
    refine ⟨List.ne_nil_of_length_pos (Nat.pos_of_ne_zero hword.2),
      fun c hc => List.mem_takeWhile_imp hc, ?_, ih⟩
    rw [flatMap_characters_commentPieces]
    exact stops_dropWhile _ _
  | case3 c rest hword ih =>
    refine ⟨fun hc => ?_, ih⟩
    rw [flatMap_characters_commentPieces]
    have hnone : rest.takeWhile Char.isAlpha = [] := by
      simpa [hc] using hword
    have hrest := List.takeWhile_append_dropWhile (p := Char.isAlpha) (l := rest)
    rw [hnone, List.nil_append] at hrest
    rw [← hrest]
    exact stops_dropWhile _ _

/-- Pieces that are apart are found again in their text. -/
theorem commentPieces_flatMap_characters {pieces : List CommentPiece} (h : AreApart pieces) :
    commentPieces (pieces.flatMap characters) = pieces := by
  induction pieces with
  | nil => rw [List.flatMap_nil, commentPieces]
  | cons piece rest ih =>
    cases piece with
    | text c =>
      obtain ⟨hsign, hrest⟩ := h
      rw [List.flatMap_cons, characters, List.singleton_append, commentPieces, if_neg, ih hrest]
      rintro ⟨hc, hword⟩
      apply hword
      rw [← List.nil_append (rest.flatMap characters),
        takeWhile_append_stops (List.forall_mem_nil _) (hsign hc), List.length_nil]
    | word letters =>
      obtain ⟨hne, hletters, hstops, hrest⟩ := h
      rw [List.flatMap_cons, characters, List.cons_append, commentPieces,
        takeWhile_append_stops hletters hstops, dropWhile_append_stops hletters hstops,
        if_pos ⟨rfl, Nat.pos_iff_ne_zero.mp (List.length_pos_of_ne_nil hne)⟩, ih hrest]

/-- **A comment has one cut**, and it is the one that the scanner finds. -/
theorem cuts_iff {pieces : List CommentPiece} {comment : String} :
    Cuts pieces comment ↔ commentPieces comment.toList = pieces := by
  constructor
  · rintro ⟨rfl, hapart⟩
    rw [textOf, String.toList_ofList, commentPieces_flatMap_characters hapart]
  · rintro rfl
    refine ⟨?_, areApart_commentPieces _⟩
    rw [textOf, flatMap_characters_commentPieces, String.ofList_toList]

/-- A comment is cut into its pieces. -/
theorem cuts_commentPieces (comment : String) : Cuts (commentPieces comment.toList) comment :=
  cuts_iff.mpr rfl

/-- Pieces that are apart are those of their text. -/
theorem AreApart.cuts {pieces : List CommentPiece} (h : AreApart pieces) :
    Cuts pieces (textOf pieces) :=
  ⟨rfl, h⟩

/-! ## Parts of a cut -/

/-- How a text starts depends on its first piece only. -/
theorem stops_cons_congr {p : Char → Bool} {piece : CommentPiece} {rest rest' : List CommentPiece}
    (h : Stops p ((piece :: rest).flatMap characters)) :
    Stops p ((piece :: rest').flatMap characters) := by
  cases piece <;> simpa [characters] using h

/-- A number sign is no letter. -/
theorem stops_word (letters : List Char) (rest : List CommentPiece) :
    Stops Char.isAlpha ((.word letters :: rest).flatMap characters) := by
  simp [characters, show Char.isAlpha '#' = false by decide]

section Tail

variable {before tail tail' : List CommentPiece}
  (hstops : Stops Char.isAlpha (tail.flatMap characters) →
    Stops Char.isAlpha (tail'.flatMap characters))
include hstops

/-- Whether letters go on is seen at the next piece. -/
theorem stops_append_congr (h : Stops Char.isAlpha ((before ++ tail).flatMap characters)) :
    Stops Char.isAlpha ((before ++ tail').flatMap characters) := by
  cases before with
  | nil => exact hstops h
  | cons first before => exact stops_cons_congr h

/-- The last pieces can be replaced by others, as long as these bring no letter forward. -/
theorem AreApart.append_congr (h : AreApart (before ++ tail)) (htail : AreApart tail') :
    AreApart (before ++ tail') := by
  induction before with
  | nil => exact htail
  | cons piece before ih =>
    cases piece with
    | text c =>
      obtain ⟨hsign, hrest⟩ := h
      exact ⟨fun hc => stops_append_congr hstops (hsign hc), ih hrest⟩
    | word letters =>
      obtain ⟨hne, hletters, hword, hrest⟩ := h
      exact ⟨hne, hletters, stops_append_congr hstops hword, ih hrest⟩

end Tail

/-- The first of pieces that are apart are apart. -/
theorem AreApart.left {before after : List CommentPiece} (h : AreApart (before ++ after)) :
    AreApart before := by
  have hbefore : AreApart (before ++ []) := .append_congr (fun _ => stops_nil _) h trivial
  rwa [List.append_nil] at hbefore

/-- The last of pieces that are apart are apart. -/
theorem AreApart.right {before after : List CommentPiece} (h : AreApart (before ++ after)) :
    AreApart after := by
  induction before with
  | nil => exact h
  | cons piece before ih =>
    cases piece with
    | text c => exact ih h.2
    | word letters => exact ih h.2.2.2

/-! ## Leaving words out -/

section Filter

variable {keep : CommentPiece → Bool}

section Text

variable (hkeep : ∀ c, keep (.text c) = true)
include hkeep

/-- What follows a word does not start with a letter, so leaving the word out brings no letter
forward. -/
theorem stops_filter {pieces : List CommentPiece} (h : AreApart pieces)
    (hstops : Stops Char.isAlpha (pieces.flatMap characters)) :
    Stops Char.isAlpha ((pieces.filter keep).flatMap characters) := by
  induction pieces with
  | nil => exact stops_nil _
  | cons piece rest ih =>
    cases piece with
    | text c =>
      rw [List.filter_cons_of_pos (hkeep c)]
      exact hstops
    | word letters =>
      cases hword : keep (.word letters) with
      | true =>
        rw [List.filter_cons_of_pos hword]
        exact hstops
      | false =>
        rw [List.filter_cons_of_neg (by simp [hword])]
        exact ih h.2.2.2 h.2.2.1

/-- Pieces stay apart if words are left out. -/
theorem AreApart.filter {pieces : List CommentPiece} (h : AreApart pieces) :
    AreApart (pieces.filter keep) := by
  induction pieces with
  | nil => exact h
  | cons piece rest ih =>
    cases piece with
    | text c =>
      rw [List.filter_cons_of_pos (hkeep c)]
      exact ⟨fun hc => stops_filter hkeep h.2 (h.1 hc), ih h.2⟩
    | word letters =>
      obtain ⟨hne, hletters, hstops, hrest⟩ := h
      cases hword : keep (.word letters) with
      | true =>
        rw [List.filter_cons_of_pos hword]
        exact ⟨hne, hletters, stops_filter hkeep hrest hstops, ih hrest⟩
      | false =>
        rw [List.filter_cons_of_neg (by simp [hword])]
        exact ih hrest

end Text

/-- A directive leaves nothing in the description and is no unknown word. -/
theorem eq_of_isDirective {piece : CommentPiece} (h : piece.isDirective = true) :
    piece.remainder = [] ∧ piece.unknown? = none := by
  cases piece with
  | text c => cases h
  | word letters =>
    obtain ⟨d, hd⟩ := Option.isSome_iff_exists.mp h
    have hword : Directive.ofWord? letters = some d := hd
    simp only [remainder, unknown?, hword, and_self]

/-- Any other piece is left in the description as it is. -/
theorem remainder_of_not_isDirective {piece : CommentPiece} (h : piece.isDirective = false) :
    piece.remainder = piece.characters := by
  cases piece with
  | text c => rfl
  | word letters =>
    have hword : Directive.ofWord? letters = none := by
      simpa [isDirective, directive?] using h
    simp only [remainder, characters, hword]

variable (hdrop : ∀ piece, keep piece = false → piece.isDirective = true)
  (pieces : List CommentPiece)
include hdrop

/-- Directives that are left out have left nothing in the description. -/
theorem flatMap_remainder_filter :
    (pieces.filter keep).flatMap remainder = pieces.flatMap remainder := by
  induction pieces with
  | nil => rfl
  | cons piece rest ih =>
    cases hpiece : keep piece with
    | true => rw [List.filter_cons_of_pos hpiece, List.flatMap_cons, ih, List.flatMap_cons]
    | false =>
      rw [List.filter_cons_of_neg (by simp [hpiece]), ih, List.flatMap_cons,
        (eq_of_isDirective (hdrop piece hpiece)).1, List.nil_append]

/-- Directives that are left out were no unknown words. -/
theorem filterMap_unknown?_filter :
    (pieces.filter keep).filterMap unknown? = pieces.filterMap unknown? := by
  rw [List.filterMap_filter]
  refine List.filterMap_congr fun piece _ => ?_
  cases hpiece : keep piece with
  | true => rfl
  | false => exact (eq_of_isDirective (hdrop piece hpiece)).2.symm

end Filter

end NestLayers.CommentPiece

import Mathlib.Data.List.Induction
import NestLayers.Proofs.CommentPieces

/-!
# What a comment says about its field

A comment is read piece by piece. The tag in a slot is that of the last directive for the slot, so
that the order of directives for different slots does not matter. The description is what is left
without the directives. Reading it again finds nothing to take out: no word is formed where a
directive was.
-/

namespace NestLayers

open NestLayers.Text

/-! ## Tags -/

/-- The directive is for a slot of a profile. -/
def Directive.Addresses (d : Directive) (profile : Profile) (slot : Slot) : Prop :=
  d.profile = profile ∧ d.slot = slot

/-- It is decided by the parts of the directive. -/
instance (d : Directive) (profile : Profile) (slot : Slot) : Decidable (d.Addresses profile slot) :=
  inferInstanceAs (Decidable (_ ∧ _))

namespace Tagging

variable {tagging other : Tagging} {d e : Directive}

/-- Tags are equal if they are the same in every slot. -/
theorem ext_get
    (h : ∀ profile slot, (tagging.profile profile).get slot = (other.profile profile).get slot) :
    tagging = other := by
  have hslots (profile : Profile) : tagging.profile profile = other.profile profile := by
    obtain ⟨hcreate, hupdate, hunique, hlist⟩ :=
      And.intro (h profile .create) (And.intro (h profile .update)
        (And.intro (h profile .findUnique) (h profile .findList)))
    cases htags : tagging.profile profile
    cases hother : other.profile profile
    simp_all [Slots.get]
  cases tagging
  cases other
  exact congrArg₂ Tagging.mk (hslots .standard) (hslots .management)

/-- **Step.** A directive puts its tag into the slot that it is for, and leaves the others. -/
theorem get_apply (tagging : Tagging) (d : Directive) (profile : Profile) (slot : Slot) :
    ((tagging.apply d).profile profile).get slot =
      if d.Addresses profile slot then some d.tag else (tagging.profile profile).get slot := by
  obtain ⟨target, place, tag⟩ := d
  cases target <;> cases profile <;> cases place <;> cases slot <;> rfl

/-- Directives for different slots can be carried out in any order. -/
theorem apply_comm (h : ¬ d.Addresses e.profile e.slot) (tagging : Tagging) :
    (tagging.apply d).apply e = (tagging.apply e).apply d := by
  refine ext_get fun profile slot => ?_
  simp only [get_apply]
  by_cases hd : d.Addresses profile slot
  · obtain ⟨rfl, rfl⟩ := hd
    have he : ¬ e.Addresses d.profile d.slot := fun he => h ⟨he.1.symm, he.2.symm⟩
    have hself : d.Addresses d.profile d.slot := ⟨rfl, rfl⟩
    rw [if_neg he, if_pos hself, if_pos hself]
  · rw [if_neg hd, if_neg hd]

/-- A directive that was carried out changes nothing more. -/
theorem apply_apply (tagging : Tagging) (d : Directive) :
    (tagging.apply d).apply d = tagging.apply d := by
  refine ext_get fun profile slot => ?_
  simp only [get_apply]
  split <;> rfl

end Tagging

namespace CommentPiece

variable {pieces : List CommentPiece} {first second : List Char} {d e : Directive}

/-- The tag that a piece puts into a slot. -/
def tagFor? (piece : CommentPiece) (profile : Profile) (slot : Slot) : Option Tag :=
  piece.directive?.bind fun d => if d.Addresses profile slot then some d.tag else none

/-- The tags that pieces put into the slots, one after another. -/
def tags (pieces : List CommentPiece) : Tagging :=
  (pieces.filterMap directive?).foldl Tagging.apply {}

/-- **Run.** The tag in a slot is that of the last piece for it. -/
theorem get_tags (pieces : List CommentPiece) (profile : Profile) (slot : Slot) :
    ((tags pieces).profile profile).get slot =
      pieces.reverse.findSome? (·.tagFor? profile slot) := by
  induction pieces using List.reverseRecOn with
  | nil => cases profile <;> cases slot <;> rfl
  | append_singleton pieces piece ih =>
    rw [List.reverse_concat, List.findSome?_cons, ← ih]
    cases hpiece : piece.directive? with
    | none => simp [tags, tagFor?, hpiece]
    | some d =>
      have hlast : tags (pieces ++ [piece]) = (tags pieces).apply d := by
        simp [tags, List.filterMap_append, hpiece]
      rw [hlast, Tagging.get_apply]
      by_cases haddresses : d.Addresses profile slot
      · simp [tagFor?, hpiece, haddresses]
      · simp [tagFor?, hpiece, haddresses]

/-- The unknown words are the words outside the vocabulary, as they stand in the comment. -/
theorem filterMap_unknown? (pieces : List CommentPiece) :
    pieces.filterMap unknown? =
      (pieces.filter isUnknown).map fun piece => String.ofList piece.characters := by
  induction pieces with
  | nil => rfl
  | cons piece rest ih =>
    cases piece with
    | text c => simpa [List.filterMap_cons, unknown?, isUnknown] using ih
    | word letters =>
      cases hword : Directive.ofWord? letters <;>
        simp [unknown?, isUnknown, hword, ih, characters]

/-- Pieces stay apart if two words are exchanged. -/
theorem AreApart.exchange {before between after : List CommentPiece}
    (h : AreApart (before ++ .word first :: (between ++ .word second :: after))) :
    AreApart (before ++ .word second :: (between ++ .word first :: after)) := by
  obtain ⟨hne, hletters, hstops, hrest⟩ := h.right
  obtain ⟨hne', hletters', hstops', hafter⟩ := hrest.right
  have hlater : AreApart (between ++ .word first :: after) :=
    .append_congr (fun _ => stops_word _ _) hrest ⟨hne, hletters, hstops', hafter⟩
  exact .append_congr (fun _ => stops_word _ _) h
    ⟨hne', hletters', stops_append_congr (fun _ => stops_word _ _) hstops, hlater⟩

/-- Pieces stay apart if a word is written twice. -/
theorem AreApart.twice {before after : List CommentPiece}
    (h : AreApart (before ++ .word first :: after)) :
    AreApart (before ++ .word first :: .word first :: after) := by
  obtain ⟨hne, hletters, -, -⟩ := h.right
  exact .append_congr (fun _ => stops_word _ _) h ⟨hne, hletters, stops_word _ _, h.right⟩

end CommentPiece

namespace FieldComment

open CommentPiece

variable {comment other : String} {pieces others : List CommentPiece}

/-- A comment is read off its pieces. -/
theorem read_of_cuts (h : Cuts pieces comment) :
    read comment =
      { description := String.ofList (trimChars (pieces.flatMap remainder))
        tags := CommentPiece.tags pieces
        unknown := pieces.filterMap unknown? } := by
  rw [read, cuts_iff.mp h]
  rfl

/-- Comments are read alike if their pieces leave the same, and put the same tags into the slots. -/
theorem read_eq_of_cuts (h : Cuts pieces comment) (hother : Cuts others other)
    (hremainder : pieces.flatMap remainder = others.flatMap remainder)
    (htags : CommentPiece.tags pieces = CommentPiece.tags others)
    (hunknown : pieces.filterMap unknown? = others.filterMap unknown?) :
    read comment = read other := by
  rw [read_of_cuts h, read_of_cuts hother, hremainder, htags, hunknown]

section Order

variable {before between after : List CommentPiece} {first second : List Char} {d e : Directive}

/-- Two directives for different slots can be exchanged. -/
theorem read_exchange
    (h : Cuts (before ++ .word first :: (between ++ .word second :: after)) comment)
    (hfirst : Directive.ofWord? first = some d) (hsecond : Directive.ofWord? second = some e)
    (hslots : ¬ d.Addresses e.profile e.slot)
    (hbetween : ∀ piece ∈ between, piece.isDirective = false) :
    read (textOf (before ++ .word second :: (between ++ .word first :: after))) = read comment := by
  have hnone : between.filterMap directive? = [] :=
    List.filterMap_eq_nil_iff.mpr fun piece hpiece => by
      simpa [isDirective] using hbetween piece hpiece
  refine read_eq_of_cuts h.apart.exchange.cuts h ?_ ?_ ?_
  · simp [remainder, hfirst, hsecond]
  · simp [CommentPiece.tags, directive?, hfirst, hsecond, hnone, Tagging.apply_comm hslots]
  · simp [unknown?, hfirst, hsecond]

/-- A directive can be written twice. -/
theorem read_twice (h : Cuts (before ++ .word first :: after) comment)
    (hfirst : Directive.ofWord? first = some d) :
    read (textOf (before ++ .word first :: .word first :: after)) = read comment := by
  refine read_eq_of_cuts h.apart.twice.cuts h ?_ ?_ ?_
  · simp [remainder, hfirst]
  · simp [CommentPiece.tags, directive?, hfirst, Tagging.apply_apply]
  · simp [unknown?, hfirst]

end Order

/-- **The last directive for a slot wins.** Every comment is cut into pieces in exactly one way. The
tag in each slot of each profile is that of the last piece with a directive for this slot, and there
is none if no piece has one. The unknown words are the words outside the vocabulary, in order and as
often as they occur. So nothing changes if two directives for different slots, with no directive
between them, are exchanged, or if a directive is written twice. -/
theorem read_takes_last (comment : String) :
    ∃ pieces, Cuts pieces comment ∧ (∀ others, Cuts others comment → others = pieces) ∧
      (∀ profile slot, ((read comment).tags.profile profile).get slot =
        pieces.reverse.findSome? (·.tagFor? profile slot)) ∧
      (read comment).unknown =
        (pieces.filter isUnknown).map (fun piece => String.ofList piece.characters) ∧
      (∀ before between after first second d e,
        pieces = before ++ .word first :: (between ++ .word second :: after) →
        Directive.ofWord? first = some d → Directive.ofWord? second = some e →
        ¬ (d.profile = e.profile ∧ d.slot = e.slot) →
        (∀ piece ∈ between, piece.isDirective = false) →
        read (textOf (before ++ .word second :: (between ++ .word first :: after))) =
          read comment) ∧
      ∀ before after first d, pieces = before ++ .word first :: after →
        Directive.ofWord? first = some d →
        read (textOf (before ++ .word first :: .word first :: after)) = read comment := by
  have hcuts := cuts_commentPieces comment
  refine ⟨_, hcuts, fun others hothers => (cuts_iff.mp hothers).symm, fun profile slot => ?_, ?_,
    ?_, ?_⟩
  · rw [read_of_cuts hcuts]
    exact get_tags _ profile slot
  · rw [read_of_cuts hcuts]
    exact filterMap_unknown? _
  · intro before between after first second d e hpieces hfirst hsecond hslots hbetween
    exact read_exchange (hpieces ▸ hcuts) hfirst hsecond hslots hbetween
  · intro before after first d hpieces hfirst
    exact read_twice (hpieces ▸ hcuts) hfirst

example : read "#MU이름##CO#Cr#CR" =
    ⟨"이름##Cr", ⟨{ create := some .createRequired }, { update := some .update }⟩, ["#Cr"]⟩ := by
  decide +kernel

end FieldComment

/-! ## Descriptions -/

/-- What is left of a text without the blanks at its ends. -/
theorem Text.trimChars_append {left cs right : List Char} (hleft : IsBlanks left)
    (hright : IsBlanks right) (hstart : Stops isBlank cs)
    (hend : ∀ c ∈ cs.getLast?, isBlank c = false) : trimChars (left ++ (cs ++ right)) = cs := by
  rw [trimChars_blanks hleft]
  cases cs with
  | nil =>
    have hdrop : right.dropWhile isBlank = [] := List.dropWhile_eq_nil_iff.mpr hright
    rw [List.nil_append, trimChars, hdrop]
    rfl
  | cons c cs =>
    have htail : dropTail isBlank (c :: cs ++ right) = dropTail isBlank (c :: cs) := by
      rw [dropTail, List.reverse_append, List.dropWhile_append_of_pos, dropTail]
      simpa [IsBlanks] using hright
    rw [trimChars, List.cons_append, List.dropWhile_cons_of_neg (by simp [stops_cons.mp hstart]),
      ← List.cons_append, htail, dropTail_of_getLast hend]

namespace CommentPiece

variable {pieces : List CommentPiece}

/-- Characters that are pieces of text are the text. -/
@[simp] theorem flatMap_characters_map_text (cs : List Char) :
    (cs.map text).flatMap characters = cs := by
  rw [List.flatMap_map]
  exact List.flatMap_singleton' cs

/-- The blanks at the start of a text are pieces of their own. -/
theorem exists_blanks_before (pieces : List CommentPiece) :
    ∃ left inner, IsBlanks left ∧ pieces = left.map .text ++ inner ∧
      Stops isBlank (inner.flatMap characters) := by
  induction pieces with
  | nil => exact ⟨[], [], by simp [IsBlanks], rfl, stops_nil _⟩
  | cons piece rest ih =>
    cases piece with
    | text c =>
      cases hc : isBlank c with
      | true =>
        obtain ⟨left, inner, hleft, rfl, hinner⟩ := ih
        exact ⟨c :: left, inner, List.forall_mem_cons.mpr ⟨hc, hleft⟩, rfl, hinner⟩
      | false => exact ⟨[], _, by simp [IsBlanks], rfl, by simpa [characters] using hc⟩
    | word letters =>
      have hmark : isBlank '#' = false := by decide
      exact ⟨[], _, by simp [IsBlanks], rfl, by simp [characters, hmark]⟩

/-- The last character of a word is no blank. -/
theorem AreApart.not_isBlank_getLast {before : List CommentPiece} {letters : List Char}
    (h : AreApart (before ++ [word letters])) :
    ∀ c ∈ ((before ++ [word letters]).flatMap characters).getLast?, isBlank c = false := by
  obtain ⟨hne, hletters, -, -⟩ := h.right
  obtain ⟨front, last, rfl⟩ := (List.eq_nil_or_concat' letters).resolve_left hne
  have hstart : isNameStart last = true := by simp [isNameStart, hletters last (by simp)]
  rw [List.flatMap_append, List.flatMap_singleton, characters, ← List.cons_append,
    ← List.append_assoc, List.getLast?_concat]
  rintro c ⟨⟩
  exact FieldLine.isBlank_of_isNameStart hstart

/-- The blanks at the end of a text are pieces of their own. -/
theorem AreApart.exists_blanks_after (h : AreApart pieces) :
    ∃ inner right, IsBlanks right ∧ pieces = inner ++ right.map .text ∧
      ∀ c ∈ (inner.flatMap characters).getLast?, isBlank c = false := by
  induction pieces using List.reverseRecOn with
  | nil => exact ⟨[], [], by simp [IsBlanks], rfl, by simp⟩
  | append_singleton rest piece ih =>
    cases piece with
    | text c =>
      cases hc : isBlank c with
      | true =>
        obtain ⟨inner, right, hright, rfl, hinner⟩ := ih h.left
        refine ⟨inner, right ++ [c], ?_, by simp, hinner⟩
        simpa [IsBlanks, or_imp, forall_and, hc] using hright
      | false =>
        refine ⟨_, [], by simp [IsBlanks], (List.append_nil _).symm, ?_⟩
        simpa [characters, List.getLast?_append] using hc
    | word letters =>
      exact ⟨_, [], by simp [IsBlanks], (List.append_nil _).symm, h.not_isBlank_getLast⟩

/-- Pieces that are apart have the blanks at both ends of their text as pieces of their own. -/
theorem AreApart.exists_trim (h : AreApart pieces) :
    ∃ left inner right, IsBlanks left ∧ IsBlanks right ∧
      pieces = left.map .text ++ (inner ++ right.map .text) ∧ AreApart inner ∧
      trimChars (pieces.flatMap characters) = inner.flatMap characters ∧
      trimChars (inner.flatMap characters) = inner.flatMap characters := by
  obtain ⟨left, rest, hleft, rfl, hstart⟩ := exists_blanks_before pieces
  obtain ⟨inner, right, hright, rfl, hend⟩ := h.right.exists_blanks_after
  have hstart' : Stops isBlank (inner.flatMap characters) := by
    cases inner with
    | nil => exact stops_nil _
    | cons piece inner => exact stops_cons_congr hstart
  refine ⟨left, inner, right, hleft, hright, rfl, h.right.left, ?_, ?_⟩
  · simpa using trimChars_append hleft hright hstart' hend
  · have hnone : IsBlanks [] := List.forall_mem_nil _
    simpa using trimChars_append hnone hnone hstart' hend

/-- Pieces that are no directives are left as they are. -/
theorem flatMap_remainder_of_not_isDirective (h : ∀ piece ∈ pieces, piece.isDirective = false) :
    pieces.flatMap remainder = pieces.flatMap characters :=
  List.flatMap_congr fun piece hpiece => remainder_of_not_isDirective (h piece hpiece)

/-- Pieces that are no directives put no tags into the slots. -/
theorem tags_of_not_isDirective (h : ∀ piece ∈ pieces, piece.isDirective = false) :
    tags pieces = {} := by
  have hnone : pieces.filterMap directive? = [] :=
    List.filterMap_eq_nil_iff.mpr fun piece hpiece => by simpa [isDirective] using h piece hpiece
  rw [tags, hnone]
  rfl

private theorem filterMap_unknown?_map_text (cs : List Char) :
    (cs.map text).filterMap unknown? = [] := by
  simp [List.filterMap_map, Function.comp_def, unknown?]

end CommentPiece

namespace FieldComment

open CommentPiece

/-- **A description has nothing more to take out.** Reading the description of a comment as a
comment gives the same description and the same unknown words, and no tags. The description consists
of the pieces of the comment that are no directives, in order and without the blanks at both ends.
These are its own pieces as well: nothing that stood around a directive has joined. -/
theorem read_description (comment : String) :
    read (read comment).description =
        { description := (read comment).description
          tags := {}
          unknown := (read comment).unknown } ∧
      ∃ pieces left inner right, Cuts pieces comment ∧ IsBlanks left ∧ IsBlanks right ∧
        pieces.filter (!·.isDirective) = left.map .text ++ (inner ++ right.map .text) ∧
        Cuts inner (read comment).description ∧ ∀ piece ∈ inner, piece.isDirective = false := by
  have hcuts := cuts_commentPieces comment
  generalize commentPieces comment.toList = pieces at hcuts
  have hdrop : ∀ piece : CommentPiece, (!piece.isDirective) = false → piece.isDirective = true := by
    simp
  have hkept : AreApart (pieces.filter (!·.isDirective)) := hcuts.apart.filter fun _ => rfl
  obtain ⟨left, inner, right, hleft, hright, hpieces, hinner, htrim, hself⟩ := hkept.exists_trim
  have hplain : ∀ piece ∈ pieces.filter (!·.isDirective), piece.isDirective = false := by simp
  have hinnerPlain : ∀ piece ∈ inner, piece.isDirective = false := fun piece hpiece =>
    hplain piece (by simp [hpieces, hpiece])
  have hdescription : (read comment).description = textOf inner := by
    rw [read_of_cuts hcuts, ← flatMap_remainder_filter hdrop,
      flatMap_remainder_of_not_isDirective hplain, htrim, textOf]
  have hunknown : (read comment).unknown = inner.filterMap unknown? := by
    rw [read_of_cuts hcuts, ← filterMap_unknown?_filter hdrop, hpieces, List.filterMap_append,
      List.filterMap_append, filterMap_unknown?_map_text, filterMap_unknown?_map_text,
      List.nil_append, List.append_nil]
  rw [hdescription, hunknown]
  refine ⟨?_, pieces, left, inner, right, hcuts, hleft, hright, hpieces, hinner.cuts, hinnerPlain⟩
  rw [read_of_cuts hinner.cuts, flatMap_remainder_of_not_isDirective hinnerPlain, hself,
    tags_of_not_isDirective hinnerPlain, textOf]

end FieldComment

end NestLayers

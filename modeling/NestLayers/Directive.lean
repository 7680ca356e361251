import NestLayers.Text.Blank

/-!
# Directives in field comments

A field's comment ends in directives such as `#CR` or `#MFU`. A directive addresses one
slot (create, update, find one, find many) of one profile and puts a tag there; a later
directive for the same slot wins. Directives are removed from the description, and words
that look like one but are not in the vocabulary stay there and are reported.
-/

namespace NestLayers

open NestLayers.Text

/-- The two independent sets of tags of a field: one for the public resource and one for
its management side. -/
inductive Profile
  | standard
  | management
  deriving DecidableEq, Repr

/-- The name under which a profile is reported. -/
def Profile.name : Profile → String
  | .standard => "default"
  | .management => "management"

/-- What a tag can be attached to. -/
inductive Slot
  | create
  | update
  | findUnique
  | findList
  deriving DecidableEq, Repr

/-- What a directive says about a slot. -/
inductive Tag
  | createRequired
  | createOptional
  | update
  | responseExpose
  deriving DecidableEq, Repr

/-- The name under which a tag is reported. -/
def Tag.name : Tag → String
  | .createRequired => "CREATE_REQUIRED"
  | .createOptional => "CREATE_OPTIONAL"
  | .update => "UPDATE"
  | .responseExpose => "RESPONSE_EXPOSE"

/-- The tags of one profile. -/
structure Slots where
  create : Option Tag := none
  update : Option Tag := none
  findUnique : Option Tag := none
  findList : Option Tag := none
  deriving DecidableEq, Repr

/-- The tag in a slot. -/
def Slots.get (slots : Slots) : Slot → Option Tag
  | .create => slots.create
  | .update => slots.update
  | .findUnique => slots.findUnique
  | .findList => slots.findList

/-- Puts a tag into a slot. -/
def Slots.set (slots : Slots) (slot : Slot) (tag : Tag) : Slots :=
  match slot with
  | .create => { slots with create := some tag }
  | .update => { slots with update := some tag }
  | .findUnique => { slots with findUnique := some tag }
  | .findList => { slots with findList := some tag }

/-- The tags of both profiles. -/
structure Tagging where
  standard : Slots := {}
  management : Slots := {}
  deriving DecidableEq, Repr

/-- The tags of a profile. -/
def Tagging.profile (tagging : Tagging) : Profile → Slots
  | .standard => tagging.standard
  | .management => tagging.management

/-- An instruction to put a tag into a slot of a profile. -/
structure Directive where
  profile : Profile
  slot : Slot
  tag : Tag
  deriving DecidableEq, Repr

/-- The vocabulary: each word with its directive. -/
def Directive.vocabulary : List (String × Directive) :=
  [("CR", ⟨.standard, .create, .createRequired⟩),
   ("CO", ⟨.standard, .create, .createOptional⟩),
   ("U", ⟨.standard, .update, .update⟩),
   ("FU", ⟨.standard, .findUnique, .responseExpose⟩),
   ("FL", ⟨.standard, .findList, .responseExpose⟩),
   ("MCR", ⟨.management, .create, .createRequired⟩),
   ("MCO", ⟨.management, .create, .createOptional⟩),
   ("MU", ⟨.management, .update, .update⟩),
   ("MFU", ⟨.management, .findUnique, .responseExpose⟩),
   ("MFL", ⟨.management, .findList, .responseExpose⟩)]

/-- The directive of a word, if the word is in the vocabulary. -/
def Directive.ofWord? (word : List Char) : Option Directive :=
  Directive.vocabulary.lookup (String.ofList word)

/-- Carries out a directive. -/
def Tagging.apply (tagging : Tagging) (d : Directive) : Tagging :=
  match d.profile with
  | .standard => { tagging with standard := tagging.standard.set d.slot d.tag }
  | .management => { tagging with management := tagging.management.set d.slot d.tag }

/-- A piece of a comment: one character of text, or a number sign with the letters after it. -/
inductive CommentPiece
  | text (c : Char)
  | word (letters : List Char)
  deriving DecidableEq, Repr

/-- Cuts a comment into pieces. A word takes as many letters as it can, and a number sign
without a letter after it is text. -/
def commentPieces : List Char → List CommentPiece
  | [] => []
  | c :: rest =>
    if c = '#' ∧ (rest.takeWhile Char.isAlpha).length ≠ 0 then
      .word (rest.takeWhile Char.isAlpha) :: commentPieces (rest.dropWhile Char.isAlpha)
    else .text c :: commentPieces rest
  termination_by cs => cs.length
  decreasing_by
    · have h := (List.dropWhile_suffix (l := rest) Char.isAlpha).length_le
      simp only [List.length_cons]
      omega
    · simp

/-- The directive that a piece stands for. -/
def CommentPiece.directive? : CommentPiece → Option Directive
  | .text _ => none
  | .word letters => Directive.ofWord? letters

/-- The word outside the vocabulary that a piece stands for, with its number sign. -/
def CommentPiece.unknown? : CommentPiece → Option String
  | .text _ => none
  | .word letters =>
    match Directive.ofWord? letters with
    | some _ => none
    | none => some (String.ofList ('#' :: letters))

/-- What a piece leaves in the description: nothing of a directive, all of any other piece. -/
def CommentPiece.remainder : CommentPiece → List Char
  | .text c => [c]
  | .word letters =>
    match Directive.ofWord? letters with
    | some _ => []
    | none => '#' :: letters

/-- A comment taken apart into its description, its tags and its unknown words. -/
structure FieldComment where
  description : String
  tags : Tagging
  unknown : List String
  deriving DecidableEq, Repr

/-- Takes a field comment apart. -/
def FieldComment.read (comment : String) : FieldComment :=
  let pieces := commentPieces comment.toList
  { description := String.ofList (trimChars (pieces.flatMap CommentPiece.remainder))
    tags := (pieces.filterMap CommentPiece.directive?).foldl Tagging.apply {}
    unknown := pieces.filterMap CommentPiece.unknown? }

end NestLayers

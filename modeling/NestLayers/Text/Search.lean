/-!
# Looking for a piece of text

Pieces at the start of a text, and the first occurrence of a piece anywhere in it.
-/

namespace NestLayers.Text

/-- What follows the piece at the start of the text, if the text starts with it. -/
def afterStart? : List Char → List Char → Option (List Char)
  | [], cs => some cs
  | _ :: _, [] => none
  | p :: ps, c :: cs => if p = c then afterStart? ps cs else none

/-- Whether the piece occurs in the text. The empty piece occurs in every text. -/
def occursIn (piece : List Char) : List Char → Bool
  | [] => piece.isEmpty
  | c :: cs => (afterStart? piece (c :: cs)).isSome || occursIn piece cs

/-- The text without the first occurrence of the piece. -/
def eraseFirst (piece : List Char) : List Char → List Char
  | [] => []
  | c :: cs =>
    match afterStart? piece (c :: cs) with
    | some rest => rest
    | none => c :: eraseFirst piece cs

/-- Whether the text ends with the piece. -/
def endsWith (piece cs : List Char) : Bool :=
  (afterStart? piece.reverse cs.reverse).isSome

/-- The text without the piece at its end, if it is there. -/
def dropEnd (piece cs : List Char) : List Char :=
  match afterStart? piece.reverse cs.reverse with
  | some rest => rest.reverse
  | none => cs

/-- The part of a text before the first occurrence of a character. -/
def beforeChar (c : Char) (s : String) : String :=
  String.ofList (s.toList.takeWhile (· != c))

/-- The texts in order of first occurrence, each once. -/
def firstOccurrences (items : List String) : List String :=
  items.foldl (fun seen item => if seen.contains item then seen else seen ++ [item]) []

/-- Puts a text before the first one that is not below it. -/
def insertInOrder (item : String) : List String → List String
  | [] => [item]
  | first :: rest =>
    if item ≤ first then item :: first :: rest else first :: insertInOrder item rest

/-- The texts in increasing order of their code points. -/
def inOrder (items : List String) : List String :=
  items.foldr insertInOrder []

/-- Putting a text among others adds it. -/
theorem perm_insertInOrder (item : String) (items : List String) :
    (insertInOrder item items).Perm (item :: items) := by
  induction items with
  | nil => exact .refl _
  | cons first rest ih =>
    rw [insertInOrder]
    split
    · exact .refl _
    · exact (ih.cons first).trans (.swap item first rest)

/-- Putting a text among others keeps them in order. -/
theorem pairwise_insertInOrder (item : String) {items : List String}
    (h : items.Pairwise (· ≤ ·)) : (insertInOrder item items).Pairwise (· ≤ ·) := by
  induction items with
  | nil => exact List.pairwise_singleton _ _
  | cons first rest ih =>
    obtain ⟨hfirst, hrest⟩ := List.pairwise_cons.mp h
    rw [insertInOrder]
    split
    · rename_i hle
      refine List.pairwise_cons.mpr ⟨fun other hother => ?_, h⟩
      rcases List.mem_cons.mp hother with rfl | hother
      · exact hle
      · exact String.le_trans hle (hfirst other hother)
    · rename_i hle
      refine List.pairwise_cons.mpr ⟨fun other hother => ?_, ih hrest⟩
      rcases List.mem_cons.mp ((perm_insertInOrder item rest).mem_iff.mp hother) with rfl | hother
      · exact (String.le_total other first).resolve_left hle
      · exact hfirst other hother

/-- Nothing is added or lost by putting texts in order. -/
theorem perm_inOrder (items : List String) : (inOrder items).Perm items := by
  induction items with
  | nil => exact .refl _
  | cons item rest ih => exact (perm_insertInOrder item (inOrder rest)).trans (ih.cons item)

/-- What is put in order is in order. -/
theorem pairwise_inOrder (items : List String) : (inOrder items).Pairwise (· ≤ ·) := by
  induction items with
  | nil => exact .nil
  | cons item rest ih => exact pairwise_insertInOrder item ih

end NestLayers.Text

import NestLayers.Text.Blank
import NestLayers.Text.Quoted
import NestLayers.Text.Search

/-!
# The exclusion list of the application

The application's configuration source may list fields that model classes leave out, in a
declaration `static readonly APP_DATA_PROCESSING_EXPOSE = [ ... ] as const;`. The list is the
shortest text that such a declaration can have between its brackets, and its names are the
texts between quotes of any kind.
-/

namespace NestLayers.ExposeList

open NestLayers.Text

/-- Takes a word off the start of a text, and at least one blank after it. -/
def afterWord? (word : String) (cs : List Char) : Option (List Char) := do
  let rest ← afterStart? word.toList cs
  if rest.head?.any isBlank then some (rest.dropWhile isBlank) else none

/-- Takes a word off the start of a text, and the blanks after it. -/
def afterMark? (mark : String) (cs : List Char) : Option (List Char) :=
  (afterStart? mark.toList cs).map (·.dropWhile isBlank)

/-- What follows the opening bracket, if a declaration starts here. -/
def afterOpening? (cs : List Char) : Option (List Char) := do
  let cs ← afterWord? "static" cs
  let cs ← afterWord? "readonly" cs
  let cs ← afterMark? "APP_DATA_PROCESSING_EXPOSE" cs
  let cs ← afterMark? "=" cs
  afterStart? ['['] cs

/-- Whether the end of a declaration starts here. -/
def isClosing (cs : List Char) : Bool :=
  Option.isSome do
    let cs ← afterMark? "]" cs
    let cs ← afterWord? "as" cs
    let cs ← afterMark? "const" cs
    afterStart? [';'] cs

/-- The text up to the first end of a declaration. -/
def untilClosing? : List Char → Option (List Char)
  | [] => none
  | c :: rest =>
    if isClosing (c :: rest) then some [] else (untilClosing? rest).map (c :: ·)

/-- The text between the brackets of the first declaration. -/
def find? : List Char → Option (List Char)
  | [] => none
  | c :: rest =>
    match (afterOpening? (c :: rest)).bind untilClosing? with
    | some list => some list
    | none => find? rest

/-- A quote of any kind. -/
def isQuote (c : Char) : Bool :=
  c == doubleQuote || c == apostrophe || c == '\x60'

/-- The texts between quotes. Any quote closes what any quote opened, and nothing between two
quotes is no text. -/
def names : List Char → List String
  | [] => []
  | c :: rest =>
    let name := rest.takeWhile (!isQuote ·)
    if isQuote c && !name.isEmpty && name.length < rest.length then
      trim (String.ofList name) :: names (rest.drop (name.length + 1))
    else names rest
  termination_by cs => cs.length
  decreasing_by
    · simp only [List.length_drop, List.length_cons]
      omega
    · simp

/-- The names of the exclusion list, if the source declares one. -/
def read? (source : String) : Option (List String) :=
  (find? source.toList).map names

end NestLayers.ExposeList

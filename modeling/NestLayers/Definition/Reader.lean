import NestLayers.Definition.Basic
import NestLayers.Text.Lines

/-!
# Reading a definition unit

A definition unit is the text of one model: a description in a comment line, the header
`model Name {`, one field per line, and a line that starts with a closing brace. Blank lines
and lines with a block attribute (`@@`) are passed over.

The header is the first one in the text. The description is that of the first comment line
that stands directly above some header. The body starts on the line after the header, where
the header's line is counted by line feeds.
-/

namespace NestLayers

open NestLayers.Text

/-- Why a text is not a definition unit. -/
inductive DefinitionError
  | noHeader
  | noDescription (model : String)
  | unclosedBody (model : String) (line : Nat)
  | badField (error : FieldLine.SyntaxError) (line : Nat) (snippet : String)
  deriving DecidableEq, Repr

namespace DefinitionError

/-- The message for an error, without its place. -/
def message : DefinitionError → String
  | .noHeader => "No model name found (expected 'model Name \x7b')."
  | .noDescription model =>
    "No model description found for '" ++ model ++
      "' (expected a '// description' line directly above the model)."
  | .unclosedBody model _ => "Model '" ++ model ++ "' body is not closed with '\x7d'."
  | .badField error _ _ =>
    error.cause.message ++ " Field lines must read 'name Type[]? ? @attr* // description'."

end DefinitionError

/-- The header of a definition unit: the model's name, and the number of line feeds before the
header's line. -/
structure Header where
  name : String
  line : Nat
  deriving DecidableEq, Repr

namespace Header

/-- The opening brace. -/
def openingBrace : Char := '\x7b'

/-- The closing brace. -/
def closingBrace : Char := '\x7d'

/-- The name in `model Name {` at the start of a text. Blanks around the name, line ends
included, do not matter. -/
def nameAt? (cs : List Char) : Option String := do
  let afterKeyword ← afterStart? "model".toList cs
  if afterKeyword.head?.any isBlank then
    let name := (afterKeyword.dropWhile isBlank).takeWhile isWord
    let afterName := (afterKeyword.dropWhile isBlank).dropWhile isWord
    if name.isEmpty then none
    else if (afterName.dropWhile isBlank).head? = some openingBrace then
      some (String.ofList name)
    else none
  else none

/-- The parts of a text that follow a line feed. -/
def afterNewlines : List Char → List (List Char)
  | [] => []
  | c :: rest => if c = '\n' then rest :: afterNewlines rest else afterNewlines rest

/-- The parts of a text that start a line: the whole text, and what follows each line feed. -/
def lineStarts (cs : List Char) : List (List Char) :=
  cs :: afterNewlines cs

/-- The first header of a text. -/
def find? (cs : List Char) : Option Header :=
  (lineStarts cs).zipIdx.findSome? fun (start, line) =>
    (nameAt? (start.dropWhile isGap)).map fun name => { name, line }

/-- The text of a comment line: what follows the slashes, without the gaps at both ends and
without a carriage return at the very end. -/
def commentText (line : List Char) : List Char :=
  let text := (line.dropWhile (· == '/')).dropWhile isGap
  dropTail isGap (if text.getLast? = some '\r' then text.dropLast else text)

/-- The text of the comment line that a text starts with, if a header follows it with nothing
but blanks between them. -/
def descriptionAt? (start : List Char) : Option (List Char) :=
  let cs := start.dropWhile isGap
  match afterStart? "//".toList cs, cs.dropWhile (· != '\n') with
  | some _, _ :: below =>
    if (nameAt? (below.dropWhile isBlank)).isSome then
      some (commentText (cs.takeWhile (· != '\n')))
    else none
  | _, _ => none

/-- The text of the first comment line directly above a header. -/
def findDescription? (cs : List Char) : Option (List Char) :=
  (lineStarts cs).findSome? descriptionAt?

end Header

namespace Definition

/-- Whether a body line closes the body. -/
def isClosing (line : List Char) : Bool :=
  (trimChars line).head? == some Header.closingBrace

/-- Whether a body line is passed over: a blank line, or one with a block attribute. -/
def isSkipped (line : List Char) : Bool :=
  line.all isBlank || occursIn "@@".toList line

/-- The fields and relations of a body, up to its closing line. Every field line is told to be the
one or the other as it is read. The result also tells whether there was a closing line; `number` is
the number of the first line. The first line that is no field line ends the reading. -/
def readMembers (registry : Registry) (number : Nat) : List (List Char) →
    Except (FieldLine.SyntaxError × Nat × String) (List Field × List Relation × Bool)
  | [] => .ok ([], [], false)
  | line :: rest =>
    if isClosing line then .ok ([], [], true)
    else if isSkipped line then readMembers registry (number + 1) rest
    else
      match FieldLine.parse (String.ofList line) with
      | .error error => .error (error, number, String.ofList line)
      | .ok read => do
        let (fields, relations, closed) ← readMembers registry (number + 1) rest
        match read.member registry with
        | .field field => return (field :: fields, relations, closed)
        | .relation relation => return (fields, relation :: relations, closed)

/-- The field lines of a body before the first line that is none, with their numbers. -/
def acceptedLines (number : Nat) : List (List Char) → List (Nat × FieldLine)
  | [] => []
  | line :: rest =>
    if isClosing line then []
    else if isSkipped line then acceptedLines (number + 1) rest
    else
      match FieldLine.parse (String.ofList line) with
      | .error _ => []
      | .ok field => (number, field) :: acceptedLines (number + 1) rest

/-- The text without a byte-order mark at its start. -/
def withoutMark (cs : List Char) : List Char :=
  match cs with
  | c :: rest => if c.toNat = 0xFEFF then rest else cs
  | [] => []

/-- The lines after the header's line. -/
def bodyLines (header : Header) (cs : List Char) : List (List Char) :=
  (splitLines cs).drop (header.line + 1)

/-- Reads a definition unit. The registry tells relations from scalar fields. -/
def parse (registry : Registry) (fileId : String) (location : Location) (text : String) :
    Except DefinitionError Definition := do
  let cs := withoutMark text.toList
  let some header := Header.find? cs | .error .noHeader
  let description := (Header.findDescription? cs).getD []
  if description.isEmpty then .error (.noDescription header.name)
  match readMembers registry (header.line + 2) (bodyLines header cs) with
  | .error (error, line, snippet) => .error (.badField error line snippet)
  | .ok (_, _, false) => .error (.unclosedBody header.name (header.line + 1))
  | .ok (fields, relations, true) =>
    return {
      name := header.name
      description := String.ofList description
      fields, relations, fileId, location }

/-- What is worth noting while a unit is read. -/
inductive Note
  /-- Words in a field's comment look like directives and are none. -/
  | unknownDirectives (fileId : String) (line : Nat) (words : List String) (field : String)
  /-- A declared type is taken for an enumeration. -/
  | enumeration (declared : String) (isArray : Bool)
  /-- The unit was read. -/
  | parsed (definition : Definition)
  deriving DecidableEq, Repr

/-- What is worth noting about one field line. -/
def lineNotes (registry : Registry) (fileId : String) (number : Nat) (line : FieldLine) :
    List Note :=
  let unknown := (FieldComment.read line.comment).unknown
  if registry.contains line.typeName then []
  else
    (if unknown.isEmpty then [] else [.unknownDirectives fileId number unknown line.name]) ++
    (if (Representation.ofScalar? line.typeName line.isArray).isSome then []
      else [.enumeration line.typeName line.isArray])

/-- What is worth noting about a unit, in the order of its lines. A unit that cannot be read
has notes up to the line that cannot. -/
def notes (registry : Registry) (fileId : String) (location : Location) (text : String) :
    List Note :=
  let cs := withoutMark text.toList
  match Header.find? cs with
  | none => []
  | some header =>
    if ((Header.findDescription? cs).getD []).isEmpty then []
    else
      ((acceptedLines (header.line + 2) (bodyLines header cs)).flatMap fun (number, line) =>
        lineNotes registry fileId number line) ++
      match parse registry fileId location text with
      | .ok definition => [.parsed definition]
      | .error _ => []

end Definition

end NestLayers

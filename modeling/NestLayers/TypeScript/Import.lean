import NestLayers.Text.Search

/-!
# Imports of a source file

The imports of a source file form an ordered mapping from the imported file or package to the
names taken from it. They are written one line each, every name once, and a line without names
is left out.
-/

namespace NestLayers.TypeScript

/-- A text between braces, with a space on both sides. -/
def braced (text : String) : String :=
  "\x7b " ++ text ++ " \x7d"

/-- How one character stands inside a string literal. -/
def escapeLiteralChar (c : Char) : List Char :=
  if c = '\x5c' || c = '\x22' then ['\x5c', c] else [c]

/-- A string literal in double quotes. -/
def literal (text : String) : String :=
  String.ofList ('\x22' :: text.toList.flatMap escapeLiteralChar ++ ['\x22'])

/-- An import: where the names come from, and the names. -/
structure Import where
  origin : String
  names : List String
  deriving DecidableEq, Repr

/-- The imports of a source file, in order, each origin once. -/
structure Imports where
  entries : List Import := []
  deriving DecidableEq, Repr

namespace Imports

/-- Whether there is an entry for an origin. -/
def has (imports : Imports) (origin : String) : Bool :=
  imports.entries.any (·.origin == origin)

/-- Sets the names taken from an origin. An origin that is there keeps its position. -/
def set (imports : Imports) (origin : String) (names : List String) : Imports :=
  if imports.has origin then
    ⟨imports.entries.map fun entry => if entry.origin = origin then ⟨origin, names⟩ else entry⟩
  else ⟨imports.entries ++ [⟨origin, names⟩]⟩

/-- Adds names to those taken from an origin. -/
def add (imports : Imports) (origin : String) (names : List String) : Imports :=
  if imports.has origin then
    ⟨imports.entries.map fun entry =>
      if entry.origin = origin then ⟨origin, entry.names ++ names⟩ else entry⟩
  else ⟨imports.entries ++ [⟨origin, names⟩]⟩

/-- The imports of a list of origins with their names; of two entries for an origin the later
one counts. -/
def ofList (entries : List (String × List String)) : Imports :=
  entries.foldl (fun imports (origin, names) => imports.set origin names) {}

end Imports

/-- The line of an import. -/
def Import.line (i : Import) : String :=
  "import " ++ braced (String.intercalate ", " (Text.firstOccurrences i.names)) ++ " from \"" ++
    i.origin ++ "\";"

/-- The lines of the imports that take any name. -/
def Imports.lines (imports : Imports) : List String :=
  (imports.entries.filter (!·.names.isEmpty)).map Import.line

/-- The imports as one text. -/
def Imports.block (imports : Imports) : String :=
  String.intercalate "\n" imports.lines

end NestLayers.TypeScript

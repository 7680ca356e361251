/-!
# Tokens of a settings file

The parts of a document in order. Block collections start and end where the indentation says
so, and have tokens of their own for that.
-/

namespace NestLayers.Yaml

/-- How a scalar is written. -/
inductive Style
  | plain
  | quoted
  /-- In quotes, with half of a surrogate pair. -/
  | garbled
  deriving DecidableEq, Repr

/-- A token. The end of a document's text has none. -/
inductive Token
  /-- The version of the format that a document wants. -/
  | version (major : Nat)
  /-- What a short form of tags stands for. -/
  | shorthand (handle start : String)
  /-- A directive without a meaning here. -/
  | directive
  | documentStart
  | documentEnd
  | blockList
  | blockMapping
  | blockEnd
  | listStart
  | listEnd
  | mappingStart
  | mappingEnd
  | comma
  | dash
  | key
  | colon
  | anchor (name : String)
  | reference (name : String)
  /-- A tag, in a short form or in full. -/
  | tag (handle : Option String) (suffix : String)
  | scalar (text : String) (style : Style)
  deriving DecidableEq, Repr

/-- Puts further tokens among tokens: those for a number stand before the token of that
number. -/
def weave (further : List (Nat × List Token)) (tokens : List Token) : List Token :=
  tokens.zipIdx.flatMap fun (token, number) => (further.lookup number).getD [] ++ [token]

end NestLayers.Yaml

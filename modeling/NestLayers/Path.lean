import NestLayers.Text.Search

/-!
# Paths

A path is a list of names from some starting point. Reading a path drops empty names and
single dots and keeps double dots, so that a path has one written form.
-/

namespace NestLayers

/-- Where a path starts. A path may start with exactly two slashes; more than two count as
one. -/
inductive PathStart
  | current
  | top
  | doubleTop
  deriving DecidableEq, Repr

/-- A path. -/
structure Path where
  start : PathStart
  parts : List String
  deriving DecidableEq, Repr

namespace Path

/-- The names between the slashes of a text. -/
def splitSlashes : List Char → List (List Char)
  | [] => [[]]
  | c :: rest =>
    if c = '/' then [] :: splitSlashes rest
    else
      match splitSlashes rest with
      | [] => [[c]]
      | name :: names => (c :: name) :: names

/-- Reads a path. -/
def ofString (text : String) : Path :=
  let cs := text.toList
  let names := ((splitSlashes cs).map String.ofList).filter fun name => name != "" && name != "."
  match (cs.takeWhile (· == '/')).length with
  | 0 => ⟨.current, names⟩
  | 2 => ⟨.doubleTop, names⟩
  | _ => ⟨.top, names⟩

/-- The written form of a path. -/
def toString (p : Path) : String :=
  let names := String.intercalate "/" p.parts
  match p.start with
  | .current => if p.parts.isEmpty then "." else names
  | .top => "/" ++ names
  | .doubleTop => "//" ++ names

/-- A path is shown as its text. -/
instance : ToString Path := ⟨Path.toString⟩

/-- Whether the path does not depend on the current directory. -/
def isAbsolute (p : Path) : Bool :=
  p.start != .current

/-- The second path as seen from the first. -/
def join (p q : Path) : Path :=
  if q.isAbsolute then q else { p with parts := p.parts ++ q.parts }

/-- A text goes below a path. -/
instance : HDiv Path String Path := ⟨fun p name => p.join (ofString name)⟩

/-- The path without its last name. -/
def parent (p : Path) : Path :=
  { p with parts := p.parts.dropLast }

/-- The last name of the path; a path without names has the empty one. -/
def name (p : Path) : String :=
  p.parts.getLast?.getD ""

/-- Whether a null character is in the path. No such path can be passed to the file system. -/
def hasNull (p : Path) : Bool :=
  p.parts.any (·.toList.contains '\x00')

/-- The path with each double dot taken back together with the name before it. -/
def collapse (p : Path) : Path :=
  { p with
    parts := p.parts.foldl (fun names name => if name = ".." then names.dropLast else names ++ [name]) [] }

end Path

end NestLayers

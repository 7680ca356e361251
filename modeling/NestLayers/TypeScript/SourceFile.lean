import NestLayers.TypeScript.Declaration

/-!
# Source files

A source file is its imports followed by groups of declarations. A group may have a
documentation comment above its first declaration.
-/

namespace NestLayers.TypeScript

/-- A group of declarations without blank lines between them. -/
structure Group where
  doc : Option String := none
  declarations : List Declaration
  deriving DecidableEq, Repr

/-- The lines of a group. -/
def Group.lines (g : Group) : List String :=
  (g.doc.map docComment).toList ++ g.declarations.flatMap Declaration.lines

/-- A source file. -/
structure SourceFile where
  imports : Imports := {}
  groups : List Group
  deriving DecidableEq, Repr

namespace SourceFile

/-- The lines of a source file. Imports and groups are set apart by blank lines; a file without
imports starts with its first group. -/
def lines (f : SourceFile) : List String :=
  let header := if f.imports.lines.isEmpty then [] else [f.imports.lines]
  paragraphs (header ++ f.groups.map Group.lines)

/-- The text of a source file. It ends with a line feed. -/
def text (f : SourceFile) : String :=
  Text.joinLines (f.lines ++ [""])

/-- All declarations of a source file. -/
def declarations (f : SourceFile) : List Declaration :=
  f.groups.flatMap (·.declarations)

/-- All classes of a source file. -/
def classes (f : SourceFile) : List ClassDecl :=
  f.declarations.filterMap Declaration.class?

/-- The names that other files can import. -/
def exportedNames (f : SourceFile) : List String :=
  f.declarations.filterMap Declaration.exportedName?

/-- A source file with one class. -/
def ofClass (imports : Imports) (decl : ClassDecl) : SourceFile :=
  ⟨imports, [{ declarations := [.class_ decl] }]⟩

end SourceFile

end NestLayers.TypeScript

import NestLayers.Text.Lines
import NestLayers.TypeScript.Import

/-!
# Declarations of a source file

Generated classes consist of sections: fields, a constructor, methods, and properties.
Everything here is data until it is written out as lines; the lines of a body stand one step
to the right, and members are set apart by blank lines.
-/

namespace NestLayers.TypeScript

/-- One step to the right. -/
def step : String := "    "

/-- Paragraphs of lines, set apart by one blank line each. Without any paragraph there is one
empty line. -/
def paragraphs : List (List String) → List String
  | [] => [""]
  | [paragraph] => paragraph
  | paragraph :: others => paragraph ++ "" :: paragraphs others

/-- A documentation comment. -/
def docComment (text : String) : String :=
  "/** " ++ text ++ " */"

/-- A decorator with its arguments. -/
structure Decorator where
  name : String
  arguments : String := ""
  deriving DecidableEq, Repr

/-- The line of a decorator. -/
def Decorator.line (d : Decorator) : String :=
  "@" ++ d.name ++ "(" ++ d.arguments ++ ")"

/-- A statement in a method. -/
inductive Statement
  /-- An empty line. -/
  | blank
  /-- A line comment. -/
  | remark (text : String)
  /-- A call of a method of some object; `lead` is what stands in front of it. -/
  | call (lead receiver method arguments : String)
  /-- Anything else. -/
  | other (text : String)
  deriving DecidableEq, Repr

/-- The line of a statement. -/
def Statement.line : Statement → String
  | .blank => ""
  | .remark text => step ++ "// " ++ text
  | .call lead receiver method arguments =>
    step ++ lead ++ receiver ++ "." ++ method ++ "(" ++ arguments ++ ");"
  | .other text => step ++ text

/-- An asynchronous method. -/
structure Method where
  doc : Option String := none
  decorators : List Decorator := []
  name : String
  parameters : String := ""
  /-- The declared type of the result, where there is one. -/
  result : Option String := none
  body : List Statement
  deriving DecidableEq, Repr

/-- The line that declares a method. -/
def Method.signature (m : Method) : String :=
  let result := match m.result with
    | some type => ": " ++ type
    | none => ""
  "async " ++ m.name ++ "(" ++ m.parameters ++ ")" ++ result ++ " \x7b"

/-- The lines of a method. -/
def Method.lines (m : Method) : List String :=
  (m.doc.map docComment).toList ++ m.decorators.map Decorator.line ++
    m.signature :: m.body.map Statement.line ++ ["\x7d"]

/-- The methods of an object that a method calls. -/
def Method.callsOn (m : Method) (object : String) : List String :=
  m.body.filterMap fun statement =>
    match statement with
    | .call _ receiver method _ => if receiver = object then some method else none
    | _ => none

/-- A declared property. -/
structure Property where
  doc : Option String := none
  decorators : List Decorator := []
  name : String
  /-- The mark between name and type: `!`, `?` or nothing. -/
  mark : String := ""
  type : String
  deriving DecidableEq, Repr

/-- The line that declares a property. -/
def Property.declaration (p : Property) : String :=
  p.name ++ p.mark ++ ": " ++ p.type ++ ";"

/-- The lines of a property. -/
def Property.lines (p : Property) : List String :=
  (p.doc.map docComment).toList ++ p.decorators.map Decorator.line ++ [p.declaration]

/-- A section of a class body. -/
inductive Section
  /-- Fields with their values, one line each. -/
  | fields (lines : List String)
  /-- A constructor that only keeps its parameter. -/
  | construct (parameter : String)
  | methods (members : List Method)
  | properties (members : List Property)
  deriving DecidableEq, Repr

/-- The lines of a section. -/
def Section.lines : Section → List String
  | .fields lines => lines
  | .construct parameter => ["constructor(" ++ parameter ++ ") \x7b\x7d"]
  | .methods members => paragraphs (members.map Method.lines)
  | .properties members => paragraphs (members.map Property.lines)

/-- The methods that a section declares. -/
def Section.declaredMethods : Section → List Method
  | .methods members => members
  | _ => []

/-- The properties that a section declares. -/
def Section.declaredProperties : Section → List Property
  | .properties members => members
  | _ => []

/-- A class. Without sections its body is a pair of braces on the same line. -/
structure ClassDecl where
  decorators : List Decorator := []
  exported : Bool := true
  name : String
  /-- What stands between the name and the body: the classes it extends and implements. -/
  heritage : String := ""
  sections : List Section := []
  deriving DecidableEq, Repr

namespace ClassDecl

/-- The line that declares the class, up to its body. -/
def opening (c : ClassDecl) : String :=
  (if c.exported then "export class " else "class ") ++ c.name ++ c.heritage ++ " \x7b"

/-- The lines of the class. -/
def lines (c : ClassDecl) : List String :=
  c.decorators.map Decorator.line ++
    if c.sections.isEmpty then [c.opening ++ "\x7d"]
    else
      c.opening ::
        (paragraphs (c.sections.map Section.lines)).map (Text.indentLine step) ++ ["\x7d"]

/-- The methods of the class. -/
def methods (c : ClassDecl) : List Method :=
  c.sections.flatMap Section.declaredMethods

/-- The properties of the class. -/
def properties (c : ClassDecl) : List Property :=
  c.sections.flatMap Section.declaredProperties

end ClassDecl

/-- A declaration of a source file. -/
inductive Declaration
  | class_ (decl : ClassDecl)
  /-- An exported interface that only extends another type. -/
  | interface (name base : String)
  deriving DecidableEq, Repr

namespace Declaration

/-- The lines of a declaration. -/
def lines : Declaration → List String
  | .class_ decl => decl.lines
  | .interface name base => ["export interface " ++ name ++ " extends " ++ base ++ " \x7b\x7d"]

/-- The name under which a declaration can be imported. -/
def exportedName? : Declaration → Option String
  | .class_ decl => if decl.exported then some decl.name else none
  | .interface name _ => some name

/-- The class that a declaration is. -/
def class? : Declaration → Option ClassDecl
  | .class_ decl => some decl
  | .interface _ _ => none

end Declaration

end NestLayers.TypeScript

import NestLayers.Definition.Check
import NestLayers.Definition.Reader
import NestLayers.FileTree
import NestLayers.Layer.Basic
import NestLayers.Settings
import NestLayers.Text.Number

/-!
# Failures

Everything that can stop a request for reasons a user can mend, as a cause. A cause has a
kind, which decides the exit code, a message, and for some causes the place it is about.
-/

namespace NestLayers

/-- A place in a source text. Lines and columns count from one; a place without a line is the
whole file. -/
structure SourcePlace where
  file : String
  line : Int := 0
  column : Int := 0
  snippet : Option String := none
  deriving DecidableEq, Repr

/-- A place in a message. If its text is known, the text follows with a mark under the
column. -/
def SourcePlace.format (p : SourcePlace) : String :=
  if p.line = 0 then p.file
  else
    let position := p.file ++ ":" ++ toString p.line ++ ":" ++ toString p.column
    match p.snippet with
    | none => position
    | some snippet =>
      let gutter := Text.padLeft 5 (toString p.line) ++ " | "
      let blanks := fun n : Nat => String.ofList (List.replicate n ' ')
      position ++ "\n" ++ gutter ++ snippet ++ "\n" ++
        blanks (gutter.length - 2) ++ "| " ++ blanks (p.column - 1).toNat ++ "^"

/-- The kinds of failures. -/
inductive FailureKind
  | unspecified
  | notFound
  | missingArgument
  | unsupportedLayer
  | settings
  | reading
  | malformedDefinition
  | malformedField
  | checking
  | missingIdentifier
  | compositeIdentifier
  | rendering
  | exporting
  deriving DecidableEq, Repr

namespace FailureKind

/-- All kinds. -/
def all : List FailureKind :=
  [.unspecified, .notFound, .missingArgument, .unsupportedLayer, .settings, .reading,
   .malformedDefinition, .malformedField, .checking, .missingIdentifier, .compositeIdentifier,
   .rendering, .exporting]

/-- The exit code: 1 for a definition, 2 for rendering, 3 for writing, 4 for the request. -/
def exitCode : FailureKind → Nat
  | .reading | .malformedDefinition | .malformedField => 1
  | .checking | .missingIdentifier | .compositeIdentifier => 1
  | .exporting => 3
  | .missingArgument | .unsupportedLayer | .notFound | .settings => 4
  | .unspecified | .rendering => 2

/-- Whether failures of the kind list the problems of a definition. -/
def hasProblems : FailureKind → Bool
  | .checking | .missingIdentifier | .compositeIdentifier => true
  | _ => false

end FailureKind

/-- A failure as it is told to the user. -/
structure Complaint where
  kind : FailureKind
  message : String
  place : Option SourcePlace := none
  problems : List String := []
  deriving DecidableEq, Repr

/-- The text of a complaint: the place, if there is one, and the message below it. -/
def Complaint.text (c : Complaint) : String :=
  match c.place with
  | none => c.message
  | some place => place.format ++ "\n" ++ c.message

/-- Why a request fails. -/
inductive Failure
  | schemaDirectoryMissing (directory : Path)
  | unitMissing (fileName : String) (primary aggregate : Path)
  | aggregatesMissing (directory : Path)
  | infoDirectoryMissing (directory : Path)
  | nameMissing (layer : Layer)
  | layerUnknown (token : String)
  | settingsMissing (file : Path)
  | settingsUnreadable (file : Path)
  | settingsNotAMapping (file : Path) (kind : String)
  | settingsInvalid (file : Path) (problems : List Problem)
  | badDefinition (fileId : String) (error : DefinitionError)
  | badModel (place : String) (error : CheckError)
  | artifactMissing (layer : Layer) (path : String)
  | clearRefused (directory : Path) (fault : FileFault)
  | writeRefused (relative : String) (path : Path) (fault : FileFault)
  deriving DecidableEq, Repr

/-- The complaint about a text that is not a definition unit. -/
def DefinitionError.complaint (fileId : String) (error : DefinitionError) : Complaint :=
  match error with
  | .noHeader | .noDescription _ =>
    { kind := .malformedDefinition, message := error.message, place := some { file := fileId } }
  | .unclosedBody _ line =>
    { kind := .malformedDefinition
      message := error.message
      place := some { file := fileId, line := line } }
  | .badField cause line snippet =>
    { kind := .malformedField
      message := error.message
      place := some { file := fileId, line := line, column := cause.column, snippet := snippet } }

/-- The complaint about a missing or ambiguous identifier. -/
def IdentifierError.complaint (place : String) (error : IdentifierError) : Complaint :=
  { kind := match error with
      | .missing _ => .missingIdentifier
      | .composite _ _ => .compositeIdentifier
    message := error.message
    place := some { file := place } }

/-- The complaint about a definition that cannot be used. -/
def CheckError.complaint (place : String) (error : CheckError) : Complaint :=
  match error with
  | .identifier cause => cause.complaint place
  | .relations _ problems =>
    { kind := .checking, message := error.message, place := some { file := place }, problems }

namespace Failure

/-- What the user is told about a failure. -/
def complaint : Failure → Complaint
  | .schemaDirectoryMissing directory =>
    { kind := .notFound, message := "Schema directory not found: " ++ directory.toString }
  | .unitMissing fileName primary aggregate =>
    { kind := .notFound
      message := "The file " ++ fileName ++ " does not exist in " ++ primary.toString ++ " or " ++
        aggregate.toString ++ ". Are the file name and model name the same? " ++
        "(order-item.prisma -> model OrderItem \x7b ... \x7d)" }
  | .aggregatesMissing directory =>
    { kind := .notFound
      message := "The info model does not exist: no aggregate definition units in " ++
        directory.toString ++ "." }
  | .infoDirectoryMissing directory =>
    { kind := .notFound
      message := "Info module directory does not exist; create it before " ++
        "generating the info layer."
      place := some { file := directory.toString } }
  | .nameMissing layer =>
    { kind := .missingArgument
      message := "A resource name is required for the '" ++ layer.name ++ "' layer " ++
        "(e.g. prismagen generate repository userManagement)." }
  | .layerUnknown token =>
    { kind := .unsupportedLayer
      message := "Unsupported layer '" ++ token ++ "'. Choose one of: " ++
        String.intercalate ", " (Text.inOrder (Layer.tokens.map (·.1))) ++ "." }
  | .settingsMissing file =>
    { kind := .settings
      message := "Config file not found."
      place := some { file := file.toString } }
  | .settingsUnreadable file =>
    { kind := .settings, message := "Invalid YAML", place := some { file := file.toString } }
  | .settingsNotAMapping file kind =>
    { kind := .settings
      message := "Expected a YAML mapping at top level, got " ++ kind ++ "."
      place := some { file := file.toString } }
  | .settingsInvalid file _ =>
    { kind := .settings
      message := "Config validation failed"
      place := some { file := file.toString } }
  | .badDefinition fileId error => error.complaint fileId
  | .badModel place error => error.complaint place
  | .artifactMissing layer path =>
    { kind := .rendering
      message := "Failed to render the " ++ layer.name ++ " layer: KeyError: " ++
        Text.quoted path }
  | .clearRefused directory fault =>
    { kind := .exporting
      message := "Could not clear " ++ directory.toString ++ ": " ++ fault.message
      place := some { file := directory.toString } }
  | .writeRefused relative path fault =>
    { kind := .exporting
      message := "Failed to write " ++ relative ++ ": " ++ fault.name ++ ": " ++ fault.message
      place := some { file := path.toString } }

/-- The exit code of a failure. -/
def exitCode (f : Failure) : Nat :=
  f.complaint.kind.exitCode

end Failure

end NestLayers

import NestLayers.Layer.Basic
import NestLayers.Text.Search
import NestLayers.TypeScript.SourceFile

/-!
# The output of a layer

A generated layer is a list of files with their paths below a target directory, and the
directories whose files are removed before the new ones are written.
-/

namespace NestLayers

/-- The directory that the files of a layer are written below. -/
inductive Target
  | resource
  | models
  | info
  deriving DecidableEq, Repr

/-- The name of a target. -/
def Target.name : Target → String
  | .resource => "resource"
  | .models => "models"
  | .info => "info"

/-- The target of a name. -/
def Target.ofName? (name : String) : Option Target :=
  [Target.resource, .models, .info].find? (·.name == name)

/-- A generated file. -/
structure Artifact where
  path : String
  content : String
  deriving DecidableEq, Repr

/-- The path of a generated file without its extension. -/
def Artifact.id (a : Artifact) : String :=
  String.ofList (Text.dropEnd ".ts".toList a.path.toList)

/-- A generated file before it is written out. -/
structure SourceArtifact where
  path : String
  source : TypeScript.SourceFile

/-- Writes a generated file out. -/
def SourceArtifact.artifact (a : SourceArtifact) : Artifact :=
  ⟨a.path, a.source.text⟩

/-- A generated layer. -/
structure LayerOutput where
  layer : Layer
  resource : String := ""
  target : Target := .resource
  resetDirectories : List String := []
  artifacts : List Artifact := []
  deriving DecidableEq, Repr

/-- The first file at a path. -/
def LayerOutput.artifact? (output : LayerOutput) (path : String) : Option Artifact :=
  output.artifacts.find? (·.path == path)

end NestLayers

import NestLayers.Definition.Basic
import NestLayers.Layer.Conventions
import NestLayers.Layer.Output

/-!
# Model classes

One class per definition, with a documented property for every scalar field that is not
excluded.
-/

namespace NestLayers.Layer.Model

open NestLayers.TypeScript

/-- The property of a field. -/
def property (f : Field) : Property :=
  let kind := if f.type.isEnum then "enum" else "type"
  { decorators :=
      [⟨"ApiProperty", braced ("description: " ++ literal f.description ++ ", " ++ kind ++ ": " ++
        f.type.documentation ++ ", nullable: " ++ if f.isRequired then "false" else "true")⟩]
    name := f.name
    mark := "!"
    type := f.type.response ++ if f.isRequired then "" else " | null" }

/-- The class of a definition. -/
def classOf (conventions : Conventions) (d : Definition) : ClassDecl :=
  { name := Conventions.modelClass d.name
    sections :=
      [.properties ((d.fields.filter (!conventions.excluded.contains ·.name)).map property)] }

/-- The source file of a definition. -/
def source (conventions : Conventions) (d : Definition) : SourceArtifact :=
  { path := Naming.modelKebab d.name ++ ".model.ts"
    source := SourceFile.ofClass
      (Imports.ofList
        [("@prisma/client", ["$Enums", "Prisma"]), ("@nestjs/swagger", ["ApiProperty"])])
      (classOf conventions d) }

/-- The model classes of all definitions. They replace all files of their directory. -/
def output (conventions : Conventions) (definitions : List Definition) : LayerOutput :=
  { layer := .model
    target := .models
    resetDirectories := [""]
    artifacts := definitions.map fun d => (source conventions d).artifact }

end NestLayers.Layer.Model

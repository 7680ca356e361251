import NestLayers.Definition.Basic
import NestLayers.Layer.Conventions
import NestLayers.Layer.Output

/-!
# Response contracts

One class per action that says what a response holds, with the model it is built from. A
field that is tagged for a reading action is left out of that action's model.
-/

namespace NestLayers.Layer.ResponseContract

open NestLayers.TypeScript

/-- The envelope of an action's response. -/
def envelope : Action → String
  | .create | .update | .delete => "NoDataResponseDto"
  | .findUnique => "ResponseDto"
  | .findList => "ResponseWithMetadataDto"

/-- The slot whose tags shape an action's response. -/
def slot? : Action → Option Slot
  | .create | .update | .delete => none
  | .findUnique => some .findUnique
  | .findList => some .findList

/-- The fields that an action's model leaves out. -/
def omittedFields (d : Definition) (profile : Profile) (action : Action) : List String :=
  match slot? action with
  | none => []
  | some slot =>
    (d.fields.filter fun f => (f.tags.profile profile).get slot == some .responseExpose).map
      (·.name)

/-- The models that a definition is related to, in order of first occurrence. -/
def relatedModels (relations : List Relation) : List String :=
  Text.firstOccurrences (relations.map (·.model))

/-- Imports the classes of some models, in addition to other imports. -/
def addModels (imports : Imports) (models : List String) : Imports :=
  models.foldl
    (fun imports model => imports.add (Conventions.modelOrigin model) [Conventions.modelClass model])
    imports

/-- The imports of an action's contract. -/
def imports (n : ResourceName) (d : Definition) (action : Action) : Imports :=
  addModels
    (Imports.ofList
      [("@dto/response.dto", [envelope action]),
       ("@type/response-service", ["ResponseService"]),
       ("@nestjs/swagger", ["OmitType"]),
       ("../../" ++ n.kebab ++ ".service", [n.pascal ++ "Service"]),
       (Conventions.modelOrigin d.name, [Conventions.modelClass d.name])])
    (relatedModels d.relations)

/-- The type of the data in an action's response. -/
def dataType (n : ResourceName) (action : Action) : String :=
  match action with
  | .create | .update | .delete => "null"
  | .findUnique => n.pascal ++ action.pascal ++ "Model"
  | .findList => n.pascal ++ action.pascal ++ "Model[]"

/-- A class that takes a model over without some of its fields. -/
def omitting (name model : String) (fields : List String) (sections : List Section) :
    ClassDecl :=
  { exported := false
    name
    heritage := " extends OmitType(" ++ Conventions.modelClass model ++ ", [" ++
      String.intercalate ", " (fields.map literal) ++ "])"
    sections }

/-- The classes for the related models that a response may include. -/
def includedModels (owner : String) (models : List String) : Option Group :=
  if models.isEmpty then none
  else some
    { doc := some "Include Models"
      declarations := models.map fun model =>
        .class_ (omitting (owner ++ "With" ++ model ++ "Model") model [] []) }

/-- The source file of an action's contract. -/
def source (n : ResourceName) (d : Definition) (profile : Profile) (action : Action) :
    SourceArtifact :=
  let owner := n.pascal ++ action.pascal
  { path := "dto/response/" ++ n.kebab ++ "-" ++ action.kebab ++ ".dto.ts"
    source :=
      { imports := imports n d action
        groups :=
          [{ doc := some "Response Dto"
             declarations :=
              [.class_
                { name := owner ++ "ResponseDto"
                  heritage := " extends " ++ envelope action ++ " implements ResponseService<" ++
                    n.pascal ++ "Service[" ++ literal action.name ++ "]>"
                  sections := [.properties [{ name := "data", type := dataType n action }]] }] },
           { doc := some "Model"
             declarations :=
              [.class_
                (omitting (owner ++ "Model") d.name (omittedFields d profile action) [])] }] ++
          (includedModels owner (relatedModels d.relations)).toList } }

/-- The response contracts of a resource. They replace all files of their directory. -/
def output (n : ResourceName) (d : Definition) (profile : Profile) : LayerOutput :=
  { layer := .responseContract
    resource := n.camel
    resetDirectories := ["dto/response"]
    artifacts := Action.all.map fun action => (source n d profile action).artifact }

end NestLayers.Layer.ResponseContract

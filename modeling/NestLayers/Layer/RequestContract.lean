import NestLayers.Definition.Check
import NestLayers.Layer.Conventions
import NestLayers.Layer.Output

/-!
# Request contracts

One class per action that says what a request holds, with the checks on its values. Creation
takes the fields with a creation tag, an update takes the identifier and the fields with an
update tag, and a single record is addressed by the identifier alone. Lists are paged.
-/

namespace NestLayers.Layer.RequestContract

open NestLayers.TypeScript

/-- The fields of an action's request, each with whether it is required. -/
def requestFields (d : Definition) (profile : Profile) :
    Action → Except IdentifierError (List (Field × Bool))
  | .create =>
    .ok (d.fields.filterMap fun f =>
      ((f.tags.profile profile).create).map fun tag => (f, tag == .createRequired))
  | .findList => .ok []
  | .update => do
    let id ← d.identifier
    return (id, true) :: (d.fields.filter fun f =>
      (f.tags.profile profile).update == some .update && !f.isId).map fun f => (f, false)
  | .delete | .findUnique => do
    let id ← d.identifier
    return [(id, true)]

/-- The decorator that says whether a value must be there. -/
def presence (required : Bool) : String :=
  if required then "IsNotEmpty" else "IsOptional"

/-- The property of a field in a request. -/
def property (f : Field) (required : Bool) : Property :=
  { doc := some f.description
    decorators :=
      [⟨presence required, ""⟩, ⟨f.type.validatorName, f.type.validatorArguments⟩]
    name := f.name
    mark := if required then "!" else "?"
    type := f.type.request }

/-- The checks that the properties of a request use. -/
def checks (fields : List (Field × Bool)) : List String :=
  fields.flatMap fun (f, required) => [presence required, f.type.validatorName]

/-- The imports of an action's contract. -/
def imports (conventions : Conventions) (n : ResourceName) (action : Action)
    (fields : List (Field × Bool)) : Imports :=
  let used := Text.inOrder (Text.firstOccurrences (checks fields))
  Imports.ofList
    ((if used.isEmpty then [] else [(conventions.validatorPackage, used)]) ++
     (if fields.any (·.1.type.isEnum) then [("@prisma/client", ["$Enums"])] else []) ++
     [("../interfaces/" ++ n.kebab ++ "-" ++ action.kebab ++ ".interface",
        ["I" ++ n.pascal ++ action.pascal])] ++
     (if action = .findList then [("@dto/request.dto", ["PaginationDto"])] else []))

/-- The class of an action's contract. -/
def classOf (n : ResourceName) (action : Action) (fields : List (Field × Bool)) : ClassDecl :=
  let base := if action = .findList then " extends PaginationDto" else ""
  { name := n.pascal ++ action.pascal ++ "Dto"
    heritage := base ++ " implements I" ++ n.pascal ++ action.pascal
    sections :=
      if fields.isEmpty then []
      else [.properties (fields.map fun (f, required) => property f required)] }

/-- The source file of an action's contract. -/
def source (conventions : Conventions) (n : ResourceName) (action : Action)
    (fields : List (Field × Bool)) : SourceArtifact :=
  { path := "dto/" ++ n.kebab ++ "-" ++ action.kebab ++ ".dto.ts"
    source := SourceFile.ofClass (imports conventions n action fields) (classOf n action fields) }

/-- The request contracts of a resource. They replace all files of their directory. -/
def output (conventions : Conventions) (n : ResourceName) (d : Definition) (profile : Profile) :
    Except IdentifierError LayerOutput := do
  let artifacts ← Action.all.mapM fun action => do
    let fields ← requestFields d profile action
    return (source conventions n action fields).artifact
  return { layer := .requestContract, resource := n.camel, resetDirectories := ["dto"], artifacts }

end NestLayers.Layer.RequestContract

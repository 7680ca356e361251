import NestLayers.ResourceName
import NestLayers.Settings
import NestLayers.TypeScript.Import

/-!
# Conventions of the generated code

What all generators share: the markers in names, the package of request checks, the fields
to leave out of model classes, and the wording of messages.
-/

namespace NestLayers

/-- The conventions that generated code follows. -/
structure Conventions where
  managementMarker : String := "Management"
  aggregateMarker : String := "Info"
  validatorPackage : String := "class-validator"
  /-- The fields that model classes leave out. -/
  excluded : List String := []
  deriving DecidableEq, Repr

/-- The conventions of a project, with its exclusion list. -/
def Settings.conventions (settings : Settings) (excluded : List String) : Conventions :=
  { managementMarker := settings.managementMarker
    aggregateMarker := settings.aggregateMarker
    validatorPackage := settings.validatorPackage
    excluded }

namespace Conventions

/-- All forms of the name of a resource. -/
def resourceName (conventions : Conventions) (word : String) : ResourceName :=
  ResourceName.ofWord conventions.managementMarker word

/-- The file that a model's class is imported from. -/
def modelOrigin (model : String) : String :=
  "@model/" ++ Naming.modelKebab model ++ ".model"

/-- The name of a model's class. -/
def modelClass (model : String) : String :=
  model ++ "Model"

/-- The route of a resource. -/
def route (name : ResourceName) : String :=
  if name.isManagement then "/management/" ++ Naming.plural name.kebabBase
  else "/" ++ Naming.plural name.kebab

end Conventions

/-- What a message can be about. -/
inductive Deed
  | create
  | update
  | delete
  | destroy
  | findUnique
  | findMany
  | findList
  deriving DecidableEq, Repr

namespace Deed

/-- What a deed is called. -/
def label : Deed → String
  | .create => "생성"
  | .update => "수정"
  | .delete => "삭제"
  | .destroy => "영구 삭제"
  | .findUnique => "단일 조회"
  | .findMany => "전체 조회"
  | .findList => "목록 조회"

/-- The subject particle after what a deed is called. -/
def particle : Deed → String
  | .create | .update => "이"
  | .delete | .destroy | .findUnique | .findMany | .findList => "가"

/-- The literal of the message that a deed on something is done. -/
def done (deed : Deed) (description : String) : String :=
  TypeScript.literal (description ++ " " ++ deed.label ++ deed.particle ++ " 완료되었습니다.")

/-- The literal of the title of a route. -/
def title (deed : Deed) (description : String) : String :=
  TypeScript.literal (description ++ " " ++ deed.label)

end Deed

end NestLayers

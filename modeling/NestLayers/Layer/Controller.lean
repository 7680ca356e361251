import NestLayers.Definition.Check
import NestLayers.Layer.Conventions
import NestLayers.Layer.Output

/-!
# Controllers

The routes of a resource, one per action. Each route passes its request to the service.
-/

namespace NestLayers.Layer.Controller

open NestLayers.TypeScript

/-- The object that stands for the service. -/
def service (n : ResourceName) : String :=
  "this." ++ n.camel ++ "Service"

/-- The route of an action. `kind` is the decorator of its method and place, `deed` names it,
and `source` and `parameter` tell where the request comes from. -/
def route (n : ResourceName) (d : Definition) (action : Action) (kind : Decorator) (deed : Deed)
    (source parameter : String) : Method :=
  let type := n.pascal ++ action.pascal
  { decorators :=
      [kind, ⟨"UseRoleGuard", ""⟩, ⟨"ApiInformation", deed.title d.description ++ ", true"⟩]
    name := action.name
    parameters :=
      "@Account() account: IPayload, @" ++ source ++ "() " ++ parameter ++ ": " ++ type ++ "Dto"
    result := some ("Promise<" ++ type ++ "ResponseDto>")
    body := [.call "return await " (service n) action.name parameter] }

/-- The routes of a resource. Single records are addressed by the identifier. -/
def methods (n : ResourceName) (d : Definition) (id : Field) : List Method :=
  let byId := "\":" ++ id.name ++ "\""
  [route n d .create ⟨"Post", ""⟩ .create "Body" "body",
   route n d .update ⟨"Put", ""⟩ .update "Body" "body",
   route n d .delete ⟨"Delete", byId⟩ (if d.isSoftDeletable then .delete else .destroy)
    "Param" "param",
   route n d .findUnique ⟨"Get", byId⟩ .findUnique "Param" "param",
   route n d .findList ⟨"Get", ""⟩ .findList "Query" "query"]

/-- The contracts that a controller imports for an action. -/
def contractImports (n : ResourceName) (action : Action) : List (String × List String) :=
  let stem := n.kebab ++ "-" ++ action.kebab ++ ".dto"
  [("./dto/" ++ stem, [n.pascal ++ action.pascal ++ "Dto"]),
   ("./dto/response/" ++ stem, [n.pascal ++ action.pascal ++ "ResponseDto"])]

/-- The imports of a controller. -/
def imports (n : ResourceName) : Imports :=
  Imports.ofList
    ([("@decorator/controller.decorator", ["ApiController", "ApiInformation"]),
      ("@nestjs/common", ["Body", "Delete", "Get", "Param", "Post", "Put", "Query"]),
      ("./" ++ n.kebab ++ ".service", [n.pascal ++ "Service"])] ++
    Action.all.flatMap (contractImports n) ++
    [("@decorator/account.decorator", ["Account"]),
     ("@common/jwt/interfaces/payload.interface", ["IPayload"]),
     ("@decorator/guard.decorator", ["UseRoleGuard"])])

/-- The class of a controller. -/
def classOf (n : ResourceName) (d : Definition) (id : Field) : ClassDecl :=
  { decorators := [⟨"ApiController", literal (Conventions.route n)⟩]
    name := n.pascal ++ "Controller"
    sections :=
      [.construct ("private " ++ n.camel ++ "Service: " ++ n.pascal ++ "Service"),
       .methods (methods n d id)] }

/-- The source file of a controller. -/
def source (n : ResourceName) (d : Definition) (id : Field) : SourceArtifact :=
  ⟨n.kebab ++ ".controller.ts", SourceFile.ofClass (imports n) (classOf n d id)⟩

/-- The controller of a resource. -/
def output (n : ResourceName) (d : Definition) : Except IdentifierError LayerOutput := do
  let id ← d.identifier
  return { layer := .controller, resource := n.camel, artifacts := [(source n d id).artifact] }

end NestLayers.Layer.Controller

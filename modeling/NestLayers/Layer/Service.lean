import NestLayers.Definition.Check
import NestLayers.Layer.Conventions
import NestLayers.Layer.Output

/-!
# Services

The business logic of a resource. Every method works through the repository and answers with
a response envelope.
-/

namespace NestLayers.Layer.Service

open NestLayers.TypeScript

/-- The object that stands for the repository. -/
def repository (n : ResourceName) : String :=
  "this." ++ n.camel ++ "Repository"

/-- An answer without data. -/
def answerDone (deed : Deed) (d : Definition) : Statement :=
  .other ("return getResponseNoData(" ++ deed.done d.description ++ ");")

/-- The method that takes a record away. -/
def deleteMethod (n : ResourceName) (d : Definition) (id : Field) : Method :=
  let deed : Deed := if d.isSoftDeletable then .delete else .destroy
  let method := if d.isSoftDeletable then "softDelete" else "delete"
  { doc := some deed.label
    name := "delete"
    parameters := "data: I" ++ n.pascal ++ "Delete"
    body :=
      [.remark "유효성 검증",
       .call "await " (repository n) "findUniqueOrThrow" ("data." ++ id.name),
       .blank,
       .remark "삭제",
       .call "await " (repository n) method ("data." ++ id.name),
       .blank,
       .remark "반환",
       answerDone deed d] }

/-- The methods of a service. -/
def methods (n : ResourceName) (d : Definition) (id : Field) : List Method :=
  [{ doc := some "생성"
     name := "create"
     parameters := "data: I" ++ n.pascal ++ "Create"
     body :=
      [.remark "생성",
       .call "await " (repository n) "create" "data",
       .blank,
       .remark "반환",
       answerDone .create d] },
   { doc := some "수정"
     name := "update"
     parameters := braced (id.name ++ ", ...data") ++ ": I" ++ n.pascal ++ "Update"
     body :=
      [.remark "유효성 검증",
       .call "await " (repository n) "findUniqueOrThrow" id.name,
       .blank,
       .remark "수정",
       .call "await " (repository n) "update" (id.name ++ ", data"),
       .blank,
       .remark "반환",
       answerDone .update d] },
   deleteMethod n d id,
   { doc := some "단일 조회"
     name := "findUnique"
     parameters := "data: I" ++ n.pascal ++ "FindUnique"
     body :=
      [.remark "조회 및 유효성 검증",
       .call "const resource = await " (repository n) "findUniqueOrThrow" ("data." ++ id.name),
       .blank,
       .remark "반환",
       .other ("return getResponseData(" ++ Deed.findUnique.done d.description ++ ", resource);")] },
   { doc := some "전체 조회"
     name := "findMany"
     body :=
      [.remark "조회",
       .call "const resources = await " (repository n) "findMany" "",
       .blank,
       .remark "반환",
       .other ("return getResponseData(" ++ Deed.findMany.done d.description ++ ", resources);")] },
   { doc := some "목록 조회"
     name := "findList"
     parameters := "data: I" ++ n.pascal ++ "FindList"
     body :=
      [.remark "조회",
       .call ("const " ++ braced "resources, meta" ++ " = await ") (repository n) "findList" "data",
       .blank,
       .remark "반환",
       .other ("return getResponseDataWithMeta(" ++ Deed.findList.done d.description ++
        ", resources, meta);")] }]

/-- The imports of a service. -/
def imports (n : ResourceName) : Imports :=
  Imports.ofList
    ([("@nestjs/common", ["Injectable"]),
      ("@function/response.function",
        ["getResponseData", "getResponseDataWithMeta", "getResponseNoData"]),
      ("./" ++ n.kebab ++ ".repository", [n.pascal ++ "Repository"])] ++
    [Action.create, .update, .delete, .findList, .findUnique].map fun action =>
      ("./interfaces/" ++ n.kebab ++ "-" ++ action.kebab ++ ".interface",
        ["I" ++ n.pascal ++ action.pascal]))

/-- The class of a service. -/
def classOf (n : ResourceName) (d : Definition) (id : Field) : ClassDecl :=
  { decorators := [⟨"Injectable", ""⟩]
    name := n.pascal ++ "Service"
    sections :=
      [.construct ("private " ++ n.camel ++ "Repository: " ++ n.pascal ++ "Repository"),
       .methods (methods n d id)] }

/-- The source file of a service. -/
def source (n : ResourceName) (d : Definition) (id : Field) : SourceArtifact :=
  ⟨n.kebab ++ ".service.ts", SourceFile.ofClass (imports n) (classOf n d id)⟩

/-- The service of a resource. -/
def output (n : ResourceName) (d : Definition) : Except IdentifierError LayerOutput := do
  let id ← d.identifier
  return { layer := .service, resource := n.camel, artifacts := [(source n d id).artifact] }

end NestLayers.Layer.Service

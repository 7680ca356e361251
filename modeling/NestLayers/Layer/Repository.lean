import NestLayers.Definition.Check
import NestLayers.Layer.Conventions
import NestLayers.Layer.Output

/-!
# Repositories

The data access of a resource. Records are addressed by the identifier field. A model with a
`deletedAt` field has its records marked as deleted; those of other models are removed.
-/

namespace NestLayers.Layer.Repository

open NestLayers.TypeScript

/-- The object that stands for the stored records. -/
def store (n : ResourceName) : String :=
  "this." ++ n.camel ++ "Repository"

/-- The method that takes a record away. -/
def deleteMethod (n : ResourceName) (d : Definition) (id : Field) : Method :=
  let parameters := id.name ++ ": " ++ id.type.request
  if d.isSoftDeletable then
    { doc := some "삭제 및 유효성 검증"
      name := "softDelete"
      parameters
      body := [.call "return " (store n) "softDelete" (braced id.name)] }
  else
    { doc := some "영구 삭제 및 유효성 검증"
      name := "delete"
      parameters
      body := [.call "return " (store n) "delete" (braced ("where: " ++ braced id.name))] }

/-- The methods of a repository. -/
def methods (n : ResourceName) (d : Definition) (id : Field) : List Method :=
  let idParameter := id.name ++ ": " ++ id.type.request
  let input (kind : String) :=
    "Prisma." ++ n.pascalBase ++ kind ++ "Input | Prisma." ++ n.pascalBase ++ "Unchecked" ++ kind ++
      "Input"
  [{ doc := some "생성"
     name := "create"
     parameters := "data: " ++ input "Create"
     body := [.call "return " (store n) "create" (braced "data")] },
   { doc := some "수정"
     name := "update"
     parameters := idParameter ++ ", data: " ++ input "Update"
     body :=
      [.call "return " (store n) "update" (braced ("where: " ++ braced id.name ++ ", data"))] },
   deleteMethod n d id,
   { doc := some "단일 조회 및 유효성 검증"
     name := "findUniqueOrThrow"
     parameters := idParameter
     body :=
      [.call "const resource = await " (store n) "findUnique"
        (braced ("where: " ++ braced id.name)),
       .other ("if (!resource) throw new ResourceNotFoundException(" ++ literal d.description ++ ");"),
       .other "return resource;"] },
   { doc := some "전체 조회"
     name := "findMany"
     body := [.call "return " (store n) "findMany" ""] },
   { doc := some "목록 조회"
     name := "findList"
     parameters := "data: I" ++ n.pascal ++ "FindList"
     body :=
      [.other ("const options = getPaginationOption(data, Prisma.ModelName." ++ n.pascalBase ++ ");"),
       .other ("const [resources, totalCount] = await this.prisma.$transaction([" ++ store n ++
        ".findMany(options), " ++ store n ++ ".count(" ++ braced "where: options.where" ++ ")]);"),
       .other ("return " ++ braced "resources, meta: getMetadata(data, totalCount)" ++ ";")] }]

/-- The imports of a repository. -/
def imports (n : ResourceName) : Imports :=
  Imports.ofList
    [("@prisma/client", ["Prisma"]),
     ("@nestjs/common", ["Injectable"]),
     ("@common/prisma/prisma.service", ["PrismaService"]),
     ("@function/pagination.function", ["getPaginationOption"]),
     ("@function/metadata.function", ["getMetadata"]),
     ("@exception/not-found.exception", ["ResourceNotFoundException"]),
     ("./interfaces/" ++ n.kebab ++ "-find-list.interface", ["I" ++ n.pascal ++ "FindList"])]

/-- The class of a repository. -/
def classOf (n : ResourceName) (d : Definition) (id : Field) : ClassDecl :=
  { decorators := [⟨"Injectable", ""⟩]
    name := n.pascal ++ "Repository"
    sections :=
      [.fields
        ["private " ++ n.camel ++ "Repository = this.prisma.extendedClient." ++ n.camelBase ++ ";"],
       .construct "private prisma: PrismaService",
       .methods (methods n d id)] }

/-- The source file of a repository. -/
def source (n : ResourceName) (d : Definition) (id : Field) : SourceArtifact :=
  ⟨n.kebab ++ ".repository.ts", SourceFile.ofClass (imports n) (classOf n d id)⟩

/-- The repository of a resource. -/
def output (n : ResourceName) (d : Definition) : Except IdentifierError LayerOutput := do
  let id ← d.identifier
  return { layer := .repository, resource := n.camel, artifacts := [(source n d id).artifact] }

end NestLayers.Layer.Repository

import NestLayers.Layer.RequestContract
import NestLayers.Layer.ResponseContract

/-!
# The info layer

One read-only repository, service and controller over all aggregate definitions, with a finder
per definition and the contracts of each finder. A finder may be narrowed by a foreign key: the
key of the only single-valued relation to another aggregate model.
-/

namespace NestLayers.Layer.Info

open NestLayers.TypeScript

/-- The name of a definition without the aggregate marker. -/
def routeName (conventions : Conventions) (d : Definition) : String :=
  Naming.withoutMarker conventions.aggregateMarker d.name

/-- The single-valued relations, which a finder includes. -/
def includes (d : Definition) : List Relation :=
  d.relations.filter (!·.isArray)

/-- The single-valued relations to an aggregate model that name the field they are stored in. -/
def filterCandidates (d : Definition) (aggregates : List String) : List (Relation × String) :=
  (includes d).filterMap fun r =>
    match r.relationId with
    | some id => if id != "" && aggregates.contains r.model then some (r, id) else none
    | none => none

/-- The foreign key that a finder is narrowed by, with its relation. -/
def filter? (d : Definition) (aggregates : List String) : Option (Relation × Field) :=
  match filterCandidates d aggregates with
  | [(r, id)] => (d.fieldNamed? id).map fun key => (r, key)
  | _ => none

/-- What the generated texts say about the finder of one definition. -/
structure Finder where
  definition : Definition
  /-- The definition's name without the aggregate marker, starting with a small letter. -/
  word : String
  /-- The route segment of the finder. -/
  segment : String
  /-- The foreign key that the finder is narrowed by. -/
  key : Option Field
  included : List Relation
  deriving DecidableEq, Repr

namespace Finder

/-- The finder of a definition among aggregate models. -/
def ofDefinition (conventions : Conventions) (aggregates : List String) (d : Definition) :
    Finder :=
  let route := routeName conventions d
  { definition := d
    word := Naming.uncapitalize route
    segment := "/" ++ Naming.plural (Naming.modelKebab route)
    key := (filter? d aggregates).map (·.2)
    included := includes d }

/-- The name of the finder's methods. -/
def method (f : Finder) : String :=
  f.word ++ "FindMany"

/-- The name of the repository's field for the finder. -/
def repositoryName (f : Finder) : String :=
  f.word ++ "Repository"

/-- The parameter of the finder's methods. -/
def parameter (f : Finder) : String :=
  match f.key with
  | some key => key.name ++ "?: " ++ key.type.request
  | none => ""

/-- The argument that passes the parameter on. -/
def argument (f : Finder) : String :=
  match f.key with
  | some key => key.name
  | none => ""

/-- What the finder asks the store for. -/
def query (f : Finder) : String :=
  let narrowing := f.key.toList.map fun key => "where: " ++ braced key.name
  let including :=
    if f.included.isEmpty then []
    else ["include: " ++ braced (String.intercalate ", " (f.included.map (·.name ++ ": true")))]
  let parts := narrowing ++ including
  if parts.isEmpty then "" else braced (String.intercalate ", " parts)

/-- The file name of the finder's contracts, without the extension. -/
def stem (f : Finder) : String :=
  let id := if f.definition.fileId = "" then Naming.modelKebab f.definition.name
    else f.definition.fileId
  id ++ "-find-many.dto"

/-- The name of the finder's request contract. -/
def requestClass (f : Finder) : String :=
  f.definition.name ++ "FindManyDto"

/-- The name of the finder's response contract. -/
def responseClass (f : Finder) : String :=
  f.definition.name ++ "FindManyResponseDto"

/-- The field of the repository. -/
def repositoryField (f : Finder) : String :=
  "private " ++ f.repositoryName ++ " = this.prisma.extendedClient." ++
    Naming.uncapitalize f.definition.name ++ ";"

/-- The method of the repository. -/
def repositoryMethod (f : Finder) : Method :=
  { doc := some f.definition.description
    name := f.method
    parameters := f.parameter
    body := [.call "return " ("this." ++ f.repositoryName) "findMany" f.query] }

/-- The method of the service. -/
def serviceMethod (f : Finder) : Method :=
  { doc := some f.definition.description
    name := f.method
    parameters := f.parameter
    body :=
      [.call ("const " ++ f.word ++ " = await ") "this.infoRepository" f.method f.argument,
       .other ("return getResponseData(" ++
        literal (f.definition.description ++ " 리소스 정상 반환") ++ ", " ++ f.word ++ ");")] }

/-- The method of the controller. -/
def controllerMethod (f : Finder) : Method :=
  { decorators :=
      [⟨"Get", literal f.segment⟩,
       ⟨"ApiInformation", literal (f.definition.description ++ " 조회") ++ ", false"⟩]
    name := f.method
    parameters := if f.key.isSome then "@Query() query: " ++ f.requestClass else ""
    result := some ("Promise<" ++ f.responseClass ++ ">")
    body :=
      [.call "return await " "this.infoService" f.method
        (if f.key.isSome then "query." ++ f.argument else "")] }

/-- The source file of the request contract: an empty class, or one with the foreign key. -/
def requestSource (conventions : Conventions) (f : Finder) : SourceFile :=
  match f.key with
  | none => SourceFile.ofClass {} { name := f.requestClass }
  | some key =>
    SourceFile.ofClass
      (Imports.ofList
        ([(conventions.validatorPackage, ["IsOptional", key.type.validatorName])] ++
          if key.type.isEnum then [("@prisma/client", ["$Enums"])] else []))
      { name := f.requestClass
        sections := [.properties [RequestContract.property key false]] }

/-- The member of the response's model for an included relation. -/
def includedProperty (owner : String) (r : Relation) : Property :=
  { doc := some r.description
    name := r.name
    mark := "!"
    type := owner ++ "With" ++ r.model ++ "Model" ++ if r.isRequired then "" else " | null" }

/-- The source file of the response contract. -/
def responseSource (f : Finder) : SourceFile :=
  let owner := f.definition.name ++ "FindMany"
  let models := ResponseContract.relatedModels f.included
  { imports :=
      ResponseContract.addModels
        (Imports.ofList
          [("@dto/response.dto", ["ResponseDto"]),
           ("@nestjs/swagger", ["OmitType"]),
           ("@type/response-service", ["ResponseService"]),
           ("../../info.service", ["InfoService"]),
           (Conventions.modelOrigin f.definition.name,
            [Conventions.modelClass f.definition.name])])
        models
    groups :=
      [{ doc := some "Response Dto"
         declarations :=
          [.class_
            { name := owner ++ "ResponseDto"
              heritage := " extends ResponseDto implements ResponseService<InfoService[" ++
                literal f.method ++ "]>"
              sections := [.properties [{ name := "data", type := owner ++ "Model[]" }]] }] },
       { doc := some "Main Model"
         declarations :=
          [.class_
            (ResponseContract.omitting (owner ++ "Model") f.definition.name []
              (if f.included.isEmpty then []
                else [.properties (f.included.map (includedProperty owner))]))] }] ++
      (ResponseContract.includedModels owner models).toList }

/-- The source files of the finder's contracts. -/
def contracts (conventions : Conventions) (f : Finder) : List SourceArtifact :=
  [⟨"dto/" ++ f.stem ++ ".ts", f.requestSource conventions⟩,
   ⟨"dto/response/" ++ f.stem ++ ".ts", f.responseSource⟩]

end Finder

/-- The finders of aggregate definitions. -/
def finders (conventions : Conventions) (definitions : List Definition) : List Finder :=
  definitions.map (Finder.ofDefinition conventions (definitions.map (·.name)))

/-- The repository of the info layer. -/
def repositorySource (fs : List Finder) : SourceArtifact :=
  { path := "info.repository.ts"
    source := SourceFile.ofClass
      (Imports.ofList
        [("@nestjs/common", ["Injectable"]), ("@common/prisma/prisma.service", ["PrismaService"])])
      { decorators := [⟨"Injectable", ""⟩]
        name := "InfoRepository"
        sections :=
          [.fields (fs.map Finder.repositoryField),
           .construct "private prisma: PrismaService",
           .methods (fs.map Finder.repositoryMethod)] } }

/-- The service of the info layer. -/
def serviceSource (fs : List Finder) : SourceArtifact :=
  { path := "info.service.ts"
    source := SourceFile.ofClass
      (Imports.ofList
        [("@nestjs/common", ["Injectable"]), ("./info.repository", ["InfoRepository"]),
         ("@function/response.function", ["getResponseData"])])
      { decorators := [⟨"Injectable", ""⟩]
        name := "InfoService"
        sections :=
          [.construct "private infoRepository: InfoRepository",
           .methods (fs.map Finder.serviceMethod)] } }

/-- The controller of the info layer. -/
def controllerSource (fs : List Finder) : SourceArtifact :=
  { path := "info.controller.ts"
    source := SourceFile.ofClass
      (Imports.ofList
        ([("@nestjs/common", ["Get", "Query"]), ("./info.service", ["InfoService"]),
          ("@decorator/controller.decorator", ["ApiController", "ApiInformation"])] ++
         fs.flatMap fun f =>
          [("./dto/" ++ f.stem, [f.requestClass]), ("./dto/response/" ++ f.stem, [f.responseClass])]))
      { decorators := [⟨"ApiController", "\"info\""⟩]
        name := "InfoController"
        sections :=
          [.construct "private infoService: InfoService",
           .methods (fs.map Finder.controllerMethod)] } }

/-- The info layer over aggregate definitions. -/
def output (conventions : Conventions) (definitions : List Definition) : LayerOutput :=
  let fs := finders conventions definitions
  { layer := .info
    resource := "info"
    target := .info
    artifacts :=
      ([repositorySource fs, serviceSource fs, controllerSource fs] ++
        fs.flatMap (Finder.contracts conventions)).map SourceArtifact.artifact }

end NestLayers.Layer.Info

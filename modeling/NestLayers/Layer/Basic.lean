import NestLayers.Text.Search

/-!
# Layers

What can be generated: one layer of a resource, the package of all its layers, the model
classes of all definitions, or the info layer over all aggregate definitions.
-/

namespace NestLayers

/-- The layers. -/
inductive Layer
  | model
  | repository
  | service
  | controller
  | module
  | info
  | interfaces
  | requestContract
  | responseContract
  | package
  deriving DecidableEq, Repr

namespace Layer

/-- The name of a layer. -/
def name : Layer → String
  | .model => "model"
  | .repository => "repository"
  | .service => "service"
  | .controller => "controller"
  | .module => "module"
  | .info => "info"
  | .interfaces => "interfaces"
  | .requestContract => "requestContract"
  | .responseContract => "responseContract"
  | .package => "package"

/-- All layers. -/
def all : List Layer :=
  [.model, .repository, .service, .controller, .module, .info, .interfaces, .requestContract,
   .responseContract, .package]

/-- Everything a layer can be called: its name, and for some layers a shorter word. -/
def tokens : List (String × Layer) :=
  all.map (fun layer => (layer.name, layer)) ++
    [("repo", .repository), ("s", .service), ("co", .controller), ("mo", .module),
     ("requestDTO", .requestContract), ("responseDTO", .responseContract), ("p", .package)]

/-- The layer that a token stands for. -/
def ofToken? (token : String) : Option Layer :=
  tokens.lookup token

/-- The layers of a package, in the order in which they are generated. -/
def packageLayers : List Layer :=
  [.module, .controller, .service, .repository, .interfaces, .requestContract, .responseContract]

/-- The layers that a layer consists of. -/
def parts : Layer → List Layer
  | .package => packageLayers
  | layer => [layer]

/-- Whether a layer addresses single records, so that its definition needs an identifier. -/
def needsIdentifier : Layer → Bool
  | .repository | .service | .controller | .requestContract | .responseContract => true
  | _ => false

end Layer

/-- What can be done with the records of a resource. -/
inductive Action
  | create
  | update
  | delete
  | findUnique
  | findList
  deriving DecidableEq, Repr

namespace Action

/-- All actions, in the order in which their contracts are generated. -/
def all : List Action :=
  [.create, .update, .delete, .findUnique, .findList]

/-- The name of an action. -/
def name : Action → String
  | .create => "create"
  | .update => "update"
  | .delete => "delete"
  | .findUnique => "findUnique"
  | .findList => "findList"

/-- The name of an action inside a class name. -/
def pascal : Action → String
  | .create => "Create"
  | .update => "Update"
  | .delete => "Delete"
  | .findUnique => "FindUnique"
  | .findList => "FindList"

/-- The name of an action inside a file name. -/
def kebab : Action → String
  | .create => "create"
  | .update => "update"
  | .delete => "delete"
  | .findUnique => "find-unique"
  | .findList => "find-list"

/-- The action of a name. -/
def ofName? (name : String) : Option Action :=
  all.find? (·.name == name)

/-- The action of a word. A word that is not a name stands for an action that addresses one
record and no more, as deletion does. -/
def ofWord (word : String) : Action :=
  (ofName? word).getD .delete

end Action

end NestLayers

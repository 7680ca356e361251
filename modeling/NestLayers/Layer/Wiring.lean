import NestLayers.Layer.Conventions
import NestLayers.Layer.Output

/-!
# Modules and interfaces

The two layers that need no definition: the module that wires controller, service and
repository together, and one interface per action.
-/

namespace NestLayers.Layer.Wiring

open NestLayers.TypeScript

/-- The argument of the module's decorator. -/
def moduleArgument (n : ResourceName) : String :=
  let both := "[" ++ n.pascal ++ "Service, " ++ n.pascal ++ "Repository]"
  Text.joinLines
    ["\x7b",
     step ++ "controllers: [" ++ n.pascal ++ "Controller],",
     step ++ "providers: " ++ both ++ ",",
     step ++ "exports: " ++ both ++ ",",
     "\x7d"]

/-- The source file of a module. -/
def moduleSource (n : ResourceName) : SourceArtifact :=
  { path := n.kebab ++ ".module.ts"
    source := SourceFile.ofClass
      (Imports.ofList
        [("@nestjs/common", ["Module"]),
         ("./" ++ n.kebab ++ ".controller", [n.pascal ++ "Controller"]),
         ("./" ++ n.kebab ++ ".service", [n.pascal ++ "Service"]),
         ("./" ++ n.kebab ++ ".repository", [n.pascal ++ "Repository"])])
      { decorators := [⟨"Module", moduleArgument n⟩], name := n.pascal ++ "Module" } }

/-- The module of a resource. -/
def moduleOutput (n : ResourceName) : LayerOutput :=
  { layer := .module, resource := n.camel, artifacts := [(moduleSource n).artifact] }

/-- The source file of an action's interface. -/
def interfaceSource (n : ResourceName) (action : Action) : SourceArtifact :=
  let stem := n.kebab ++ "-" ++ action.kebab
  let contract := n.pascal ++ action.pascal ++ "Dto"
  { path := "interfaces/" ++ stem ++ ".interface.ts"
    source :=
      { imports := Imports.ofList [("../dto/" ++ stem ++ ".dto", [contract])]
        groups :=
          [{ declarations := [.interface ("I" ++ n.pascal ++ action.pascal) contract] }] } }

/-- The interfaces of a resource. They replace all files of their directory. -/
def interfacesOutput (n : ResourceName) : LayerOutput :=
  { layer := .interfaces
    resource := n.camel
    resetDirectories := ["interfaces"]
    artifacts := Action.all.map fun action => (interfaceSource n action).artifact }

end NestLayers.Layer.Wiring

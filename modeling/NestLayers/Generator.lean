import NestLayers.DefinitionStore
import NestLayers.Layer.Info
import NestLayers.Layer.Model
import NestLayers.Layer.Rendering
import NestLayers.Report
import NestLayers.SettingsFile

/-!
# Generating layers

A generator serves requests for one project: it reads the definitions that a layer needs,
checks them, renders the layer and writes it. A package is its seven layers, each written
before the next one is rendered.
-/

namespace NestLayers

/-- What generates the layers of a project. -/
structure Generator where
  settings : Settings
  conventions : Conventions
  exporter : Exporter
  deriving DecidableEq, Repr

/-- The layer that a token stands for. -/
def resolveLayer (token : String) : Except Failure Layer :=
  match Layer.ofToken? token with
  | some layer => .ok layer
  | none => .error (.layerUnknown token)

namespace Generator

/-- A generator for a project. The exclusion list is that of the settings followed by that of
the application. -/
def start (settings : Settings) (dryRun : Bool) : Work Generator := do
  let declared ← ExposeList.load settings.appConfigPath
  let excluded := Text.firstOccurrences (settings.exposeFields ++ declared)
  record (.conventionsSet settings.managementMarker excluded.length)
  let exporter ← Exporter.start settings dryRun
  record (.generatorReady settings.projectRoot dryRun excluded)
  return { settings, conventions := settings.conventions excluded, exporter }

variable (g : Generator)

/-- The definition units of the project. -/
def store : DefinitionStore :=
  .ofSettings g.settings

/-- The registry of the project's models, which is built when it is first needed. -/
def registry : Work Registry := do
  match (← get).registry with
  | some registry => return registry
  | none =>
    let registry ← g.store.buildRegistry
    modify ({ · with registry := some registry })
    return registry

/-- Checks a definition. Warnings are recorded. -/
def check (d : Definition) (requireId : Bool) : Work Unit := do
  let result := d.validate requireId
  record (.validated d.name result.summary)
  result.warnings.forM fun warning => record (.warned warning.message)
  match d.check requireId with
  | .error error => fail (.badModel d.place error)
  | .ok _ => return ()

/-- The checked definition behind a resource. -/
def definitionFor (n : ResourceName) (requireId : Bool) : Work Definition := do
  let d ← g.store.load (← g.registry) n.definitionId
  check d requireId
  return d

/-- The result of rendering a definition. -/
def rendered (d : Definition) (result : Except IdentifierError LayerOutput) : Work LayerOutput :=
  match result with
  | .ok output => return output
  | .error error => fail (.badModel d.place (.identifier error))

/-- Renders one layer. A package has no files of its own. -/
def layerOutput (layer : Layer) (name : String) : Work LayerOutput := do
  let n := g.conventions.resourceName name
  match layer with
  | .model =>
    let definitions ← g.store.loadAll (← g.registry) true
    definitions.forM (check · false)
    record (.rendering layer)
    definitions.forM fun d => record (.modelRendered d.name)
    return Layer.Model.output g.conventions definitions
  | .info =>
    let definitions ← g.store.loadAggregates (← g.registry)
    if definitions.isEmpty then fail (.aggregatesMissing g.store.aggregate)
    definitions.forM (check · false)
    record (.rendering layer)
    return Layer.Info.output g.conventions definitions
  | layer =>
    if name = "" then fail (.nameMissing layer)
    match layer with
    | .module =>
      record (.rendering layer)
      return Layer.Wiring.moduleOutput n
    | .interfaces =>
      record (.rendering layer)
      return Layer.Wiring.interfacesOutput n
    | layer =>
      let d ← g.definitionFor n layer.needsIdentifier
      record (.rendering layer)
      let output ← rendered d (layer.render g.conventions n d)
      if layer = .requestContract then record (.profileChosen n.pascal n.profile)
      return output

/-- Renders a layer, or all layers of a package, and writes nothing. -/
def generate (token : String) (name : String) : Work (List LayerOutput) := do
  match resolveLayer token with
  | .error failure => fail failure
  | .ok layer => layer.parts.mapM (g.layerOutput · name)

/-- Renders and writes one layer. -/
def runLayer (layer : Layer) (name : String) : Work Export :=
  timed layer.name do
    let output ← g.layerOutput layer name
    g.exporter.write output

/-- Renders and writes layers one after another. -/
def runLayers (layers : List Layer) (name : String) (report : Report) : Work Report :=
  layers.foldlM (fun report layer => return report.addExport (← g.runLayer layer name) 0) report

/-- Renders and writes a layer, or all layers of a package. The definition unit must be there
before anything is written. -/
def run (token : String) (name : String) : Work Report := do
  match resolveLayer token with
  | .error failure => fail failure
  | .ok layer =>
    if name != "" && layer.parts.any Layer.needsIdentifier then
      let _ ← g.registry
      let _ ← g.store.resolve (g.conventions.resourceName name).definitionId
    let report ← timed ("run " ++ layer.name) do
      g.runLayers layer.parts name
        { layer := layer.name
          resource := name
          projectRoot := g.settings.projectRoot.toString
          dryRun := g.exporter.dryRun }
    record (.completed layer report.totalFiles.toNat)
    return { report with success := true }

end Generator

/-- The file of a layer at a path. -/
def LayerOutput.find (output : LayerOutput) (layer : Layer) (path : String) :
    Except Failure Artifact :=
  match output.artifact? path with
  | some artifact => .ok artifact
  | none => .error (.artifactMissing layer path)

end NestLayers

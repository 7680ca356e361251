import NestLayers.Definition.Reader
import NestLayers.FileTree
import NestLayers.Layer.Basic
import NestLayers.Text.Number

/-!
# Events

What happens while a request is served, as data. An event has a level, the part of the
program that tells it, and a message.
-/

namespace NestLayers

/-- How much an event matters, from least to most. -/
inductive Level
  | debug
  | info
  | warning
  | error
  deriving DecidableEq, Repr

namespace Level

/-- The name of a level. -/
def name : Level → String
  | .debug => "DEBUG"
  | .info => "INFO"
  | .warning => "WARNING"
  | .error => "ERROR"

/-- The rank of a level. -/
def rank : Level → Nat
  | .debug => 0
  | .info => 1
  | .warning => 2
  | .error => 3

end Level

/-- What can happen. -/
inductive Event
  | directoryEnsured (path : Path)
  | fileWritten (size : Nat) (path : Path)
  | filesCleared (count : Nat) (path : Path)
  | timed (label : String)
  | noted (note : Definition.Note)
  | noAggregateDirectory (path : Path)
  | headerMissing (path : Path)
  | modelRepeated (model : String) (path : Path)
  | registryBuilt (models aggregates : Nat)
  | extracting
  | validated (model summary : String)
  | warned (message : String)
  | conventionsSet (marker : String) (excluded : Nat)
  | profileChosen (resource : String) (profile : Profile)
  | modelRendered (model : String)
  | exporterReady (source : Path) (dryRun : Bool)
  | resourceFound (resource : String) (directory : Path)
  | resourceMade (directory : Path)
  | artifactWritten (path : Path)
  | layerWritten (layer : Layer) (files size : Nat) (directory : Path) (dryRun : Bool)
  | settingsLoaded (file : Path) (keys : Nat)
  | exclusionsAbsent (file : Path)
  | exclusionsUndeclared (file : Path)
  | exclusionsRead (file : Path) (names : List String)
  | generatorReady (root : Path) (dryRun : Bool) (excluded : List String)
  | rendering (layer : Layer)
  | completed (layer : Layer) (files : Nat)
  | rootChosen (root : Path)
  | layerChosen (token : String)
  | nameChosen (name : String)
  | succeeded
  | failed (text : String)
  | exited (code : Nat)
  deriving DecidableEq, Repr

namespace Event

/-- The level of an event. -/
def level : Event → Level
  | .headerMissing _ | .modelRepeated _ _ | .warned _ | .exclusionsUndeclared _ => .warning
  | .failed _ | .exited _ => .error
  | .registryBuilt _ _ | .extracting | .modelRendered _ | .resourceMade _ => .info
  | .layerWritten _ _ _ _ _ | .settingsLoaded _ _ | .rendering _ | .completed _ _ => .info
  | .rootChosen _ | .layerChosen _ | .nameChosen _ | .succeeded => .info
  | _ => .debug

/-- The part of the program that tells an event. -/
def source : Event → String
  | .directoryEnsured _ | .fileWritten _ _ | .filesCleared _ _ | .timed _ => "prismagen.utils"
  | .noted (.enumeration _ _) => "prismagen.type_map"
  | .noted _ | .noAggregateDirectory _ | .headerMissing _ | .modelRepeated _ _ =>
    "prismagen.parser"
  | .registryBuilt _ _ | .extracting => "prismagen.parser"
  | .validated _ _ | .warned _ => "prismagen.validators"
  | .conventionsSet _ _ | .profileChosen _ _ | .modelRendered _ => "prismagen.templates"
  | .exporterReady _ _ | .resourceFound _ _ | .resourceMade _ | .artifactWritten _ =>
    "prismagen.exporters"
  | .layerWritten _ _ _ _ _ => "prismagen.exporters"
  | .settingsLoaded _ _ | .exclusionsAbsent _ | .exclusionsUndeclared _ | .exclusionsRead _ _ =>
    "prismagen.generator"
  | .generatorReady _ _ _ | .rendering _ | .completed _ _ => "prismagen.generator"
  | .rootChosen _ | .layerChosen _ | .nameChosen _ | .succeeded | .failed _ | .exited _ =>
    "prismagen"

/-- The message of a note on a definition unit. -/
def noteMessage : Definition.Note → String
  | .unknownDirectives fileId line words field =>
    fileId ++ ":" ++ toString line ++ ": unknown directive(s) " ++
      String.intercalate ", " words ++ " on field '" ++ field ++ "' left in description."
  | .enumeration declared _ => "Treating '" ++ declared ++ "' as an enum type."
  | .parsed definition => "Parsed " ++ definition.summary ++ " from " ++ definition.fileId

/-- The message of an event. -/
def message : Event → String
  | .directoryEnsured path => "Ensured directory exists: " ++ path.toString
  | .fileWritten size path => "Wrote " ++ toString size ++ " bytes to " ++ path.toString
  | .filesCleared count path => "Cleared " ++ toString count ++ " file(s) from " ++ path.toString
  | .timed label => "Timer [" ++ label ++ "]: " ++ Text.fixed 4 0 ++ " seconds"
  | .noted note => noteMessage note
  | .noAggregateDirectory path => "No aggregate schema directory at " ++ path.toString
  | .headerMissing path => "No model header in " ++ path.toString ++ "; skipped for registry."
  | .modelRepeated model path =>
    "Model '" ++ model ++ "' declared more than once (again in " ++ path.toString ++ ")."
  | .registryBuilt models aggregates =>
    "Model registry built: " ++ toString models ++ " model(s), " ++ toString aggregates ++
      " aggregate."
  | .extracting => "Schema extracting..."
  | .validated model summary => "Validated " ++ model ++ ": " ++ summary
  | .warned message => message
  | .conventionsSet marker excluded =>
    "TemplateGenerator initialised (marker=" ++ marker ++ ", excluded=" ++ toString excluded ++
      ")."
  | .profileChosen resource profile =>
    "Request contracts for " ++ resource ++ " use the " ++ profile.name ++ " profile."
  | .modelRendered model => model ++ " Model Creating..."
  | .exporterReady source dryRun =>
    "ResourceExporter initialised: source=" ++ source.toString ++ ", dry_run=" ++ truth dryRun ++
      "."
  | .resourceFound resource directory =>
    "Resource directory for " ++ resource ++ ": " ++ directory.toString
  | .resourceMade directory => "Created resource directory " ++ directory.toString
  | .artifactWritten path => "Wrote file: " ++ path.toString
  | .layerWritten layer files size directory dryRun =>
    layer.name ++ ": " ++ toString files ++ " file(s), " ++ toString size ++
      " bytes written to " ++ directory.toString ++ (if dryRun then " (dry run)" else "") ++ "."
  | .settingsLoaded file keys =>
    "Loaded config file: " ++ file.toString ++ " (" ++ toString keys ++ " keys)."
  | .exclusionsAbsent file =>
    "No application config at " ++ file.toString ++ "; exclusion list is empty."
  | .exclusionsUndeclared file =>
    "APP_DATA_PROCESSING_EXPOSE not declared in " ++ file.toString ++ "."
  | .exclusionsRead file names =>
    "Exclusion list from " ++ file.toString ++ ": " ++ Text.quotedList names
  | .generatorReady root dryRun excluded =>
    "PrismaGenerator initialised: root=" ++ root.toString ++ ", dry_run=" ++ truth dryRun ++
      ", excluded=" ++ Text.quotedList excluded ++ "."
  | .rendering layer => layer.name ++ " Creating..."
  | .completed layer files =>
    layer.name ++ " complete: " ++ toString files ++ " files in " ++ Text.fixed 3 0 ++ "s."
  | .rootChosen root => "Root:    " ++ root.toString
  | .layerChosen token => "Layer:   " ++ token
  | .nameChosen name => "Name:    " ++ if name = "" then "-" else name
  | .succeeded => "Generation completed successfully."
  | .failed text => text
  | .exited code => "Generation failed with exit code " ++ toString code ++ "."

/-- The line of a log for an event. -/
def line (e : Event) : String :=
  Text.padRight 8 e.level.name ++ " │ " ++ e.source ++ " │ " ++ e.message

end Event

end NestLayers

import NestLayers.Path
import NestLayers.Text.Blank
import NestLayers.Value

/-!
# Settings

The layout of a project and the markers in its names. Every directory is seen from the
project's root unless its path is absolute. Settings come from a mapping with known keys; all
problems of a mapping are reported together.
-/

namespace NestLayers

/-- The settings of a project. -/
structure Settings where
  projectRoot : Path := ⟨.current, []⟩
  /-- Where the definition units of ordinary models are. -/
  schemaDir : Path := ⟨.current, ["prisma", "schema", "models"]⟩
  /-- Where the definition units of aggregate models are. -/
  infoSchemaDir : Path := ⟨.current, ["prisma", "schema", "models", "info"]⟩
  /-- Where resource directories are. -/
  sourceDir : Path := ⟨.current, ["src"]⟩
  /-- Where model classes are written. -/
  modelDir : Path := ⟨.current, ["src", "_common", "_utils", "models"]⟩
  /-- Where the info layer is written. -/
  infoDir : Path := ⟨.current, ["src", "info"]⟩
  /-- The source file that lists the fields to leave out of model classes. -/
  appConfigFile : Path := ⟨.current, ["src", "config.ts"]⟩
  /-- Further fields to leave out of model classes. -/
  exposeFields : List String := []
  managementMarker : String := "Management"
  aggregateMarker : String := "Info"
  /-- The package that request contracts import their checks from. -/
  validatorPackage : String := "class-validator"
  deriving DecidableEq, Repr

/-- What can be wrong with an entry of the settings. -/
inductive ProblemKind
  | unknownKey
  | notATextKey
  | notAList
  | notAPath
  | tooShort
  | notText
  | garbledText
  deriving DecidableEq, Repr

/-- A problem and the key it is about. -/
structure Problem where
  key : String
  kind : ProblemKind
  deriving DecidableEq, Repr

/-- What the value of a key must be. -/
inductive SettingKind
  | path
  | optionalPath
  | text
  | texts
  deriving DecidableEq, Repr

namespace Settings

/-- The known keys. -/
def keys : List (String × SettingKind) :=
  [("project_root", .path), ("schema_dir", .path), ("info_schema_dir", .optionalPath),
   ("source_dir", .path), ("model_dir", .path), ("info_dir", .path), ("app_config_file", .path),
   ("expose_fields", .texts), ("management_marker", .text), ("aggregate_marker", .text),
   ("validator_package", .text)]

/-- The problems of a value for a key. Markers and packages must not be empty. -/
def valueProblems (key : String) (kind : SettingKind) (value : Value) : List Problem :=
  match kind, value with
  | .path, .scalar (.text _) => []
  | .path, _ => [⟨key, .notAPath⟩]
  | .optionalPath, .scalar (.text _) => []
  | .optionalPath, .scalar .null => []
  | .optionalPath, _ => [⟨key, .notAPath⟩]
  | .text, .scalar (.text text) => if text = "" then [⟨key, .tooShort⟩] else []
  | .text, .scalar .garbled => [⟨key, .garbledText⟩]
  | .text, _ => [⟨key, .notText⟩]
  | .texts, .list items =>
    items.zipIdx.filterMap fun (item, i) =>
      match item with
      | .scalar (.text _) => none
      | .scalar .garbled => some ⟨key ++ "." ++ toString i, .garbledText⟩
      | _ => some ⟨key ++ "." ++ toString i, .notText⟩
  | .texts, _ => [⟨key, .notAList⟩]

/-- The problems of an entry. -/
def entryProblems (entry : Scalar × Value) : List Problem :=
  match entry.1 with
  | .text key =>
    match keys.lookup key with
    | some kind => valueProblems key kind entry.2
    | none => [⟨key, .unknownKey⟩]
  | key => [⟨key.shown, .notATextKey⟩]

/-- All problems of a mapping, in the order of their keys. A garbled key is the only problem of
its mapping. -/
def problems (entries : List (Scalar × Value)) : List Problem :=
  if entries.any (·.1 == .garbled) then [⟨"", .garbledText⟩]
  else
    (entries.flatMap entryProblems).mergeSort fun a b =>
      decide (a.key < b.key) || (a.key == b.key && a.kind.ctorIdx ≤ b.kind.ctorIdx)

/-- The path at a key, or a default. -/
def pathAt (entries : List (Scalar × Value)) (key : String) (default : Path) : Path :=
  match entries.lookup (.text key) with
  | some (.scalar (.text text)) => Path.ofString text
  | _ => default

/-- The text at a key, or a default. -/
def textAt (entries : List (Scalar × Value)) (key default : String) : String :=
  match entries.lookup (.text key) with
  | some (.scalar (.text text)) => text
  | _ => default

/-- The texts at a key, without the blanks at their ends; those that are only blanks are
dropped. -/
def textsAt (entries : List (Scalar × Value)) (key : String) : List String :=
  match entries.lookup (.text key) with
  | some (.list items) =>
    items.filterMap fun item =>
      match item with
      | .scalar (.text text) => if Text.isBlankText text then none else some (Text.trim text)
      | _ => none
  | _ => []

/-- The settings of a mapping, or all of its problems. The aggregate units are below the ordinary
ones unless the mapping says otherwise. -/
def ofEntries (entries : List (Scalar × Value)) : Except (List Problem) Settings :=
  let found := problems entries
  if found.isEmpty then
    let base : Settings := {}
    let schemaDir := pathAt entries "schema_dir" base.schemaDir
    .ok {
      projectRoot := pathAt entries "project_root" base.projectRoot
      schemaDir
      infoSchemaDir := pathAt entries "info_schema_dir" (schemaDir / "info")
      sourceDir := pathAt entries "source_dir" base.sourceDir
      modelDir := pathAt entries "model_dir" base.modelDir
      infoDir := pathAt entries "info_dir" base.infoDir
      appConfigFile := pathAt entries "app_config_file" base.appConfigFile
      exposeFields := textsAt entries "expose_fields"
      managementMarker := textAt entries "management_marker" base.managementMarker
      aggregateMarker := textAt entries "aggregate_marker" base.aggregateMarker
      validatorPackage := textAt entries "validator_package" base.validatorPackage }
  else .error found

variable (settings : Settings)

/-- Where the definition units of ordinary models are, seen from the project's root. -/
def schemaPath : Path := settings.projectRoot.join settings.schemaDir

/-- Where the definition units of aggregate models are, seen from the project's root. -/
def infoSchemaPath : Path := settings.projectRoot.join settings.infoSchemaDir

/-- Where resource directories are, seen from the project's root. -/
def sourcePath : Path := settings.projectRoot.join settings.sourceDir

/-- Where model classes are written, seen from the project's root. -/
def modelPath : Path := settings.projectRoot.join settings.modelDir

/-- Where the info layer is written, seen from the project's root. -/
def infoPath : Path := settings.projectRoot.join settings.infoDir

/-- The source file with the exclusion list, seen from the project's root. -/
def appConfigPath : Path := settings.projectRoot.join settings.appConfigFile

end Settings

end NestLayers

import NestLayers.Session

/-!
# The definition units of a project

Definition units are the files with the extension `.prisma` directly in two directories. Those
of the aggregate directory declare aggregate models. A unit is known by its file name without
the extension, and one in the primary directory hides one of the same name in the other.
-/

namespace NestLayers

/-- The directories that hold the definition units of a project. -/
structure DefinitionStore where
  primary : Path
  aggregate : Path
  deriving DecidableEq, Repr

namespace DefinitionStore

/-- The extension of a definition unit. -/
def extension : String := ".prisma"

/-- The definition units of a project. -/
def ofSettings (settings : Settings) : DefinitionStore :=
  ⟨settings.schemaPath, settings.infoSchemaPath⟩

/-- What a definition unit is known by: the last name of its path, without the extension. -/
def unitId (text : String) : String :=
  String.ofList (Text.dropEnd extension.toList (Path.ofString text).name.toList)

variable (store : DefinitionStore)

/-- The directory of a location. -/
def directory : Location → Path
  | .primary => store.primary
  | .aggregate => store.aggregate

/-- The definition units of a location, in increasing order of their names. -/
def files (location : Location) : Work (List Path) := do
  if ← isDirectory (store.directory location) then
    return (← filesIn (store.directory location)).filter fun path =>
      Text.endsWith extension.toList path.name.toList
  else
    match location with
    | .primary => fail (.schemaDirectoryMissing store.primary)
    | .aggregate =>
      record (.noAggregateDirectory store.aggregate)
      return []

/-- All definition units, the primary ones first. -/
def allFiles : Work (List (Location × Path)) := do
  let primary ← store.files .primary
  let aggregate ← store.files .aggregate
  return primary.map (Location.primary, ·) ++ aggregate.map (Location.aggregate, ·)

/-- The file of a definition unit. -/
def resolve (id : String) : Work (Location × Path) := do
  let fileName := unitId id ++ extension
  if ← isFile (store.primary / fileName) then
    return (.primary, store.primary / fileName)
  else if ← isFile (store.aggregate / fileName) then
    return (.aggregate, store.aggregate / fileName)
  else fail (.unitMissing fileName store.primary store.aggregate)

/-- The contents of files that hold only the beginning of a byte-order mark. -/
def unfinishedMarks : List Content :=
  [.binary [0xEF], .binary [0xEF, 0xBB]]

/-- The text of a definition unit, without a byte-order mark. The beginning of a mark alone is no
text. -/
def readUnit (path : Path) : Work String := do
  let entry ← entryAt path
  if unfinishedMarks.any fun mark => entry == some (.file mark) then return ""
  else return String.ofList (Definition.withoutMark (← readText path).toList)

/-- Registers the model of a definition unit. A unit without a header is passed over. -/
def register (registry : Registry) (unit : Location × Path) : Work Registry := do
  match Header.find? (← readUnit unit.2).toList with
  | none =>
    record (.headerMissing unit.2)
    return registry
  | some header =>
    if registry.contains header.name then record (.modelRepeated header.name unit.2)
    return registry.insert header.name (unit.1 == .aggregate)

/-- The registry of all models of the project. -/
def buildRegistry : Work Registry := do
  let registry ← (← store.allFiles).foldlM register {}
  record (.registryBuilt registry.names.length registry.aggregates.length)
  return registry

/-- Reads the definition unit in a file. -/
def readFile (registry : Registry) (location : Location) (path : Path) : Work Definition := do
  let text ← readUnit path
  let id := unitId path.name
  (Definition.notes registry id location text).forM recordNote
  match Definition.parse registry id location text with
  | .error error => fail (.badDefinition id error)
  | .ok definition => return definition

/-- Reads a definition unit. -/
def load (registry : Registry) (id : String) : Work Definition := do
  let (location, path) ← store.resolve id
  readFile registry location path

/-- Reads all definition units, with or without the aggregate ones. -/
def loadAll (registry : Registry) (withAggregates : Bool) : Work (List Definition) := do
  record .extracting
  let units ← store.allFiles
  (units.filter fun unit => withAggregates || unit.1 == .primary).mapM fun unit =>
    readFile registry unit.1 unit.2

/-- Reads the aggregate definition units. -/
def loadAggregates (registry : Registry) : Work (List Definition) := do
  (← store.files .aggregate).mapM (readFile registry .aggregate)

end DefinitionStore

end NestLayers

import NestLayers.CommandLine.Serve

/-!
# The program

Reads the files that a request can see into a file tree, serves the request there, and writes
the changes back.
-/

namespace NestLayers.Program

/-- The usage line. -/
def usage : String :=
  "usage: prismagen generate LAYER [NAME] [--root DIR] [--config FILE] [--dry-run] [-v] [-q]"

/-- The file name of a place. -/
def fileName (place : Place) : String :=
  "/" ++ String.intercalate "/" place

/-- The places on the way to a path, the path's own last. -/
def placesTo (path : Path) : List Place :=
  (List.range (path.parts.length + 1)).map fun n =>
    ({ path with parts := path.parts.take n } : Path).collapse.parts

/-- Adds what stands at a place to a tree. -/
def readEntry (tree : FileTree) (place : Place) : IO FileTree := do
  match ← (IO.FS.realPath (fileName place)).toBaseIO with
  | .error _ => return tree
  | .ok name =>
    if place.isEmpty then return tree
    else if ← name.isDir then return tree.insert place .directory
    else return tree.insert place (.file (.ofBytes (← IO.FS.readBinFile name)))

/-- Adds all that stands below a place to a tree. -/
partial def readBelow (tree : FileTree) (place : Place) : IO FileTree := do
  if tree.isDirectoryAt place then
    (← (← IO.FS.realPath (fileName place)).readDir).foldlM
      (fun tree entry => do
        let below := place ++ [entry.fileName]
        readBelow (← readEntry tree below) below)
      tree
  else return tree

/-- Adds the places on the way to a path, and all that stands below it, to a tree. -/
def readPath (tree : FileTree) (path : Path) : IO FileTree := do
  let tree ← (placesTo path).foldlM readEntry tree
  readBelow tree path.collapse.parts

/-- Adds the places on the way to a file to a tree. -/
def readTo (tree : FileTree) (path : Path) : IO FileTree :=
  (placesTo path).foldlM readEntry tree

/-- The file tree that a request can see: its settings, and what they point to. -/
def readProject (workingDirectory : Path) (o : CommandLine.GenerateOptions) : IO FileTree := do
  let some place := o.root | return {}
  let root := CommandLine.resolvePath workingDirectory place
  let file := o.settingsPath? workingDirectory
  let tree ← readTo {} (file.getD (root / Settings.fileName))
  match Settings.load root file [] { tree } with
  | .error _ _ => return tree
  | .ok settings _ =>
    let tree ← readTo tree settings.appConfigPath
    [settings.schemaPath, settings.infoSchemaPath, settings.sourcePath, settings.modelPath,
      settings.infoPath].foldlM readPath tree

/-- Writes a file in one step. -/
def writeContent (place : Place) (content : Content) : IO Unit := do
  let bytes := match content with
    | .text value => value.toUTF8
    | .binary bytes => ⟨bytes.toArray⟩
  let temporary := fileName place ++ ".tmp"
  IO.FS.writeBinFile temporary bytes
  IO.FS.rename temporary (fileName place)

/-- Makes the files below the top directory those of a tree, given what they were. -/
def writeChanges (before after : FileTree) : IO Unit := do
  for (place, entry) in before.entries do
    if after.get? place = none && entry != .directory then IO.FS.removeFile (fileName place)
  for (place, entry) in after.entries do
    if before.get? place != some entry then
      match entry with
      | .directory => IO.FS.createDirAll (fileName place)
      | .file content => writeContent place content

/-- Serves a command line. -/
def run (args : List String) : IO UInt32 := do
  match CommandLine.Request.ofArguments? args with
  | none =>
    IO.eprintln usage
    return 2
  | some .help =>
    IO.println usage
    return 0
  | some .version =>
    IO.println CommandLine.versionText
    return 0
  | some (.generate options) =>
    let workingDirectory := Path.ofString (← IO.currentDir).toString
    let before ← readProject workingDirectory options
    let outcome := CommandLine.generate workingDirectory before options
    writeChanges before outcome.tree
    IO.eprint outcome.log
    IO.print outcome.output
    match outcome.ending with
    | .exit code => return code.toUInt32
    | .crash cause =>
      IO.eprintln cause.message
      return 1

end NestLayers.Program

/-- Serves a command line. -/
def main (args : List String) : IO UInt32 :=
  NestLayers.Program.run args

import NestLayers.Layer.Output
import NestLayers.Naming
import NestLayers.Session
import NestLayers.Text.Digest

/-!
# Writing layers into a project

A layer is written below its target directory. That of a resource is the first directory of
its name below the source directory, and is made there if there is none. A dry run tells what
it would write and changes nothing.
-/

namespace NestLayers

/-- A written file, as it is reported. -/
structure FileRecord where
  /-- The path below the target directory. -/
  relative : String
  path : String
  /-- The size in bytes. -/
  size : Nat
  lines : Nat
  digest : String
  deriving DecidableEq, Repr

/-- What was written for a layer. -/
structure Export where
  layer : String
  /-- The target directory. -/
  target : String
  files : List FileRecord := []
  /-- The files that were removed first. -/
  removed : List String := []
  dryRun : Bool := false
  deriving DecidableEq, Repr

namespace Export

/-- The size of all files in bytes. -/
def size (e : Export) : Nat :=
  e.files.foldr (fun file total => file.size + total) 0

/-- The number of lines of all files. -/
def lines (e : Export) : Nat :=
  e.files.foldr (fun file total => file.lines + total) 0

/-- The paths of all files. -/
def paths (e : Export) : List String :=
  e.files.map (·.path)

end Export

/-- What writes layers into a project. -/
structure Exporter where
  settings : Settings
  dryRun : Bool := false
  deriving DecidableEq, Repr

namespace Exporter

variable (exporter : Exporter)

/-- An exporter for a project. -/
def start (settings : Settings) (dryRun : Bool) : Work Exporter := do
  record (.exporterReady settings.sourcePath dryRun)
  return { settings, dryRun }

/-- The directory of a resource. If there is none it is made, when asked for and not in a dry
run. -/
def resourceDirectory (resource : String) (create : Bool) : Work Path := do
  let name := Naming.kebab resource
  let source := exporter.settings.sourcePath
  match ← findDirectory source name with
  | some found =>
    record (.resourceFound resource found)
    return found
  | none =>
    if create && !exporter.dryRun then
      ensureDirectory (source / name)
      record (.resourceMade (source / name))
    return source / name

/-- The directory that the files of a layer are written below. -/
def targetDirectory (output : LayerOutput) : Work Path := do
  match output.target with
  | .models => return exporter.settings.modelPath
  | .info =>
    if ← isDirectory exporter.settings.infoPath then
      return exporter.settings.infoPath
    else fail (.infoDirectoryMissing exporter.settings.infoPath)
  | .resource => exporter.resourceDirectory output.resource true

/-- The paths that the files of a layer are written to. -/
def plan (output : LayerOutput) : Work (List Path) := do
  let base ← exporter.targetDirectory output
  return output.artifacts.map (base / ·.path)

/-- A file as it is reported. -/
def fileRecord (base : Path) (a : Artifact) : FileRecord :=
  { relative := a.path
    path := (base / a.path).toString
    size := a.content.utf8ByteSize
    lines := Text.countLines a.content
    digest := Text.Digest.sha256 a.content }

/-- Writes a file. -/
def writeArtifact (base : Path) (a : Artifact) : Work FileRecord := do
  let path := base / a.path
  let _ ← reporting (.writeRefused a.path path) (writeFile path a.content)
  record (.artifactWritten path)
  return fileRecord base a

/-- Removes the files of the directories that a layer replaces. -/
def reset (base : Path) (directories : List String) : Work (List Path) := do
  let removed ← directories.mapM fun directory =>
    reporting (.clearRefused (base / directory)) (clearFiles (base / directory))
  return removed.flatten

/-- Writes a layer. -/
def write (output : LayerOutput) : Work Export := do
  let base ← exporter.targetDirectory output
  let (removed, files) ← timed ("export " ++ output.layer.name) do
    if exporter.dryRun then
      return ([], output.artifacts.map (fileRecord base))
    else
      let removed ← reset base output.resetDirectories
      let files ← output.artifacts.mapM (writeArtifact base)
      return (removed, files)
  let result : Export :=
    { layer := output.layer.name
      target := base.toString
      files
      removed := removed.map Path.toString
      dryRun := exporter.dryRun }
  record (.layerWritten output.layer files.length result.size base exporter.dryRun)
  return result

end Exporter

end NestLayers

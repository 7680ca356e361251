import NestLayers.ExposeList
import NestLayers.Session
import NestLayers.Yaml.Reader

/-!
# Settings from files

A project may have a settings file in its root, and its application may declare a list of
fields that model classes leave out.
-/

namespace NestLayers

namespace Settings

/-- The name of the settings file in the root of a project. -/
def fileName : String := "prismagen.yaml"

/-- The entries of a settings file. A file without a value has none. -/
def readEntries (file : Path) : Work (List (Scalar × Value)) := do
  match Yaml.read (← readText file) with
  | .error .invalid => fail (.settingsUnreadable file)
  | .error flaw => crash (.flaw flaw)
  | .ok (.scalar .null) => return []
  | .ok (.mapping entries) => return entries
  | .ok value => fail (.settingsNotAMapping file value.kind)

/-- The settings of the project at `root`. A given file must be there; otherwise the file in the
root is read if it is there. Further entries win over those of the file, and the root over both. -/
def load (root : Path) (file : Option Path) (further : List (Scalar × Value)) :
    Work Settings := do
  let path := file.getD (root / fileName)
  let entries ←
    if ← isFile path then do
      let entries ← readEntries path
      record (.settingsLoaded path entries.length)
      pure entries
    else if file.isSome then fail (.settingsMissing path)
    else pure []
  let all := further.foldl (fun all entry => setEntry all entry.1 entry.2) entries
  match ofEntries (setEntry all (.text "project_root") (.scalar (.text root.toString))) with
  | .error problems => fail (.settingsInvalid path problems)
  | .ok settings => return settings

end Settings

/-- The exclusion list that a source file declares. -/
def ExposeList.load (file : Path) : Work (List String) := do
  if ← isFile file then
    match ExposeList.read? (← readText file) with
    | none =>
      record (.exclusionsUndeclared file)
      return []
    | some names =>
      record (.exclusionsRead file names)
      return names
  else
    record (.exclusionsAbsent file)
    return []

end NestLayers

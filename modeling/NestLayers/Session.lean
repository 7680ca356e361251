import NestLayers.Event
import NestLayers.Failure
import NestLayers.Registry
import NestLayers.Yaml.Flaw

/-!
# Sessions

A session is what serving a request can change: the file tree, the journal of events, and
the registry of models once it is built. What was done before a request fails stays done.
-/

namespace NestLayers

/-- The state of a session. -/
structure Session where
  tree : FileTree := {}
  /-- What happened so far, in order. -/
  journal : List Event := []
  /-- The registry of models, if it was needed before. -/
  registry : Option Registry := none
  deriving DecidableEq, Repr

/-- What nothing handles when it stops work. -/
inductive Crash
  /-- A refusal by the file system. -/
  | fault (cause : FileFault)
  /-- A value in the settings file that does not exist. -/
  | flaw (cause : Yaml.Flaw)
  /-- A project without a root. -/
  | noRoot
  deriving DecidableEq, Repr

/-- The message for a crash. -/
def Crash.message : Crash → String
  | .fault cause => cause.message
  | .flaw cause => cause.message
  | .noRoot => "expected str, bytes or os.PathLike object, not list"

/-- Why work stops: a failure that is reported, or a crash. -/
inductive Stop
  | failure (cause : Failure)
  | crash (cause : Crash)
  deriving DecidableEq, Repr

/-- Work in a session. -/
abbrev Work := EStateM Stop Session

/-- Stops with a failure. -/
def fail {α : Type} (cause : Failure) : Work α :=
  throw (.failure cause)

/-- Stops with a crash. -/
def crash {α : Type} (cause : Crash) : Work α :=
  throw (.crash cause)

/-- Stops with a refusal by the file system. -/
def refuse {α : Type} (cause : FileFault) : Work α :=
  crash (.fault cause)

/-- Adds an event to the journal. -/
def Session.record (s : Session) (e : Event) : Session :=
  { s with journal := s.journal ++ [e] }

/-- Adds an event to the journal. -/
def record (e : Event) : Work Unit :=
  modify (·.record e)

/-- The file tree. -/
def currentTree : Work FileTree :=
  return (← get).tree

/-- Replaces the file tree. -/
def setTree (tree : FileTree) : Work Unit :=
  modify ({ · with tree })

/-- Does some work and then tells how long it took, even if the work stops. The session's
clock stands still, so that equal work has equal journals. -/
def timed {α : Type} (label : String) (work : Work α) : Work α := fun s =>
  match work s with
  | .ok a s => .ok a (s.record (.timed label))
  | .error stop s => .error stop (s.record (.timed label))

/-- Does some work, with its refusals by the file system turned into failures. -/
def reporting {α : Type} (cause : FileFault → Failure) (work : Work α) : Work α := fun s =>
  match work s with
  | .error (.crash (.fault fault)) s =>
    if fault.isRefusal then .error (.failure (cause fault)) s
    else .error (.crash (.fault fault)) s
  | result => result

/-- Looks something up in the file tree. -/
def look {α : Type} (question : FileTree → Except FileFault α) : Work α := do
  match question (← currentTree) with
  | .error fault => refuse fault
  | .ok answer => return answer

/-- What a path leads to. -/
def entryAt (path : Path) : Work (Option Entry) :=
  look (·.find path)

/-- Whether a path leads to a directory. -/
def isDirectory (path : Path) : Work Bool :=
  return (← entryAt path) == some .directory

/-- Whether a path leads to a regular file. -/
def isFile (path : Path) : Work Bool := do
  match ← entryAt path with
  | some (.file _) => return true
  | _ => return false

/-- Records what is worth noting about a definition unit. That a type is an enumeration is
noted once in a session. -/
def recordNote (note : Definition.Note) : Work Unit := do
  match note with
  | .enumeration _ _ =>
    if !(← get).journal.contains (.noted note) then record (.noted note)
  | _ => record (.noted note)

/-- Makes a directory and those above it, unless they are there. -/
def ensureDirectory (path : Path) : Work Unit := do
  let (tree, fault) := (← currentTree).makeDirectories path
  setTree tree
  match fault with
  | some fault => refuse fault
  | none => record (.directoryEnsured path)

/-- Writes a file as a whole, and makes the directories above it. The result is the size of the
text in bytes. -/
def writeFile (path : Path) (wide : Text.WideText) : Work Nat := do
  ensureDirectory path.parent
  match wide with
  | .broken before half after => refuse (.notEncodable before half after)
  | .text text =>
    let (tree, fault) := (← currentTree).putFile path (.text text)
    setTree tree
    match fault with
    | some fault => refuse fault
    | none =>
      record (.fileWritten text.utf8ByteSize path)
      return text.utf8ByteSize

/-- Removes the regular files directly in a directory. What is not a directory has none. -/
def clearFiles (path : Path) : Work (List Path) := do
  if ← isDirectory path then
    let (cleared, removed) := (← currentTree).clearFiles path
    setTree cleared
    match removed with
    | .error fault => refuse fault
    | .ok removed =>
      record (.filesCleared removed.length path)
      return removed
  else return []

/-- The regular files directly in a directory, in increasing order of their names. -/
def filesIn (path : Path) : Work (List Path) :=
  look (·.filesIn path)

/-- The first directory of a name below a path. -/
def findDirectory (root : Path) (name : String) : Work (Option Path) :=
  look (·.findDirectory root name)

/-- Reads a text file. -/
def readText (path : Path) : Work String :=
  look (·.readText path)

end NestLayers

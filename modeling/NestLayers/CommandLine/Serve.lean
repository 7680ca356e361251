import NestLayers.CommandLine.Arguments
import NestLayers.Generator

/-!
# Serving a command line

A request runs in a session on the file tree. Its report goes to the output, and the events
that matter enough go to the log.
-/

namespace NestLayers.CommandLine

/-- The version text. -/
def versionText : String := "prismagen v0.1.0"

/-- The least level of the events in the log. -/
def GenerateOptions.logLevel (o : GenerateOptions) : Level :=
  if o.quiet then .error
  else
    match o.verbosity with
    | 0 => .warning
    | 1 => .info
    | _ => .debug

/-- A path as seen from the working directory, without double dots. -/
def resolvePath (workingDirectory : Path) (text : String) : Path :=
  { (workingDirectory.join (Path.ofString text)).collapse with start := .top }

/-- The settings file, if one is given. -/
def GenerateOptions.settingsPath? (workingDirectory : Path) (o : GenerateOptions) : Option Path :=
  if o.config = "" then none else some (resolvePath workingDirectory o.config)

/-- The work that is asked of the generator. -/
def work (workingDirectory : Path) (o : GenerateOptions) : Work Report := do
  let some place := o.root | crash .noRoot
  if [place, o.config].any fun text => (Path.ofString text).hasNull then refuse .nullCharacter
  let root := resolvePath workingDirectory place
  let file := o.settingsPath? workingDirectory
  record (.rootChosen root)
  record (.layerChosen o.layer)
  record (.nameChosen o.name)
  let settings ← Settings.load root file []
  let generator ← Generator.start settings o.dryRun
  generator.run o.layer o.name

/-- How a request ends. -/
inductive Ending
  /-- With an exit code. -/
  | exit (code : Nat)
  /-- With what nothing handles. -/
  | crash (cause : Crash)
  deriving DecidableEq, Repr

/-- What a request leaves. -/
structure Outcome where
  ending : Ending
  output : String
  log : String
  tree : FileTree
  deriving DecidableEq, Repr

/-- The log of events from a level on. -/
def logText (level : Level) (events : List Event) : String :=
  String.join ((events.filter fun e => level.rank ≤ e.level.rank).map (·.line ++ "\n"))

/-- Serves a request for a layer. -/
def generate (workingDirectory : Path) (tree : FileTree) (o : GenerateOptions) : Outcome :=
  match work workingDirectory o { tree } with
  | .ok report s =>
    { ending := .exit 0
      output := if o.dryRun || o.verbosity > 0 then report.summary ++ "\n" else ""
      log := logText o.logLevel (s.record .succeeded).journal
      tree := s.tree }
  | .error (.failure cause) s =>
    let s := (s.record (.failed cause.complaint.text)).record (.exited cause.exitCode)
    { ending := .exit cause.exitCode
      output := ""
      log := logText o.logLevel s.journal
      tree := s.tree }
  | .error (.crash cause) s =>
    { ending := .crash cause
      output := ""
      log := logText o.logLevel s.journal
      tree := s.tree }

end NestLayers.CommandLine

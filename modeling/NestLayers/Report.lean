import NestLayers.Exporter
import NestLayers.Text.Number

/-!
# Reports

What a run wrote, layer by layer, with totals and times.
-/

namespace NestLayers

/-- The outcome of one layer of a run. -/
structure ReportStep where
  name : String
  success : Bool := true
  /-- The time in seconds. -/
  elapsed : Float := 0
  detail : String := ""
  deriving Repr

/-- The outcome of a run. -/
structure Report where
  success : Bool := false
  layer : String := ""
  resource : String := ""
  projectRoot : String := ""
  dryRun : Bool := false
  totalFiles : Int := 0
  totalBytes : Int := 0
  totalLines : Int := 0
  /-- The time of the whole run in seconds. -/
  elapsed : Float := 0
  steps : List ReportStep := []
  exports : List Export := []
  deriving Repr

namespace Report

/-- Adds what was written for a layer. -/
def addExport (r : Report) (e : Export) (elapsed : Float) : Report :=
  { r with
    exports := r.exports ++ [e]
    totalFiles := r.totalFiles + e.files.length
    totalBytes := r.totalBytes + e.size
    totalLines := r.totalLines + e.lines
    steps := r.steps ++
      [{ name := e.layer
         elapsed
         detail := toString e.files.length ++ " files → " ++ e.target }] }

/-- Marks a step as failed. -/
def markFailed (r : Report) (step : Nat) : Report :=
  { r with steps := r.steps.modify step ({ · with success := false }) }

/-- The paths of all written files. -/
def writtenPaths (r : Report) : List String :=
  r.exports.flatMap Export.paths

/-- A line of one character. -/
def ruler (c : Char) : String :=
  String.ofList (List.replicate 60 c)

/-- The line of a step. -/
def stepLine (s : ReportStep) : String :=
  "    " ++ (if s.success then "✓" else "✗") ++ " " ++ Text.padRight 20 s.name ++ " " ++
    Text.padLeft 7 (Text.fixed 3 s.elapsed) ++ "s  " ++ s.detail

/-- The report as it is printed. -/
def summary (r : Report) : String :=
  let status := (if r.success then "✅ SUCCESS" else "❌ FAILED") ++
    if r.dryRun then " (dry run)" else ""
  Text.joinLines
    ([ruler '=', "  prismagen — Generation Report", ruler '=',
      "  Status:           " ++ status,
      "  Layer:            " ++ r.layer] ++
     (if r.resource = "" then [] else ["  Resource:         " ++ r.resource]) ++
     ["  Project:          " ++ r.projectRoot,
      "  Files:            " ++ toString r.totalFiles,
      "  Total lines:      " ++ Text.grouped r.totalLines,
      "  Total bytes:      " ++ Text.grouped r.totalBytes,
      "  Total time:       " ++ Text.fixed 3 r.elapsed ++ "s"] ++
     (if r.steps.isEmpty then [] else [ruler '─', "  Layers:"] ++ r.steps.map stepLine) ++
     (if r.dryRun then
        [ruler '─', "  Would write:"] ++ r.writtenPaths.map ("    • " ++ ·)
      else []) ++
     [ruler '='])

end Report

/-- How long something took. -/
structure Timer where
  label : String
  /-- The time in seconds. -/
  elapsed : Float := 0
  deriving Repr

namespace Timer

/-- A timer that ran between two readings of a clock. -/
def measure (label : String) (start stop : Float) : Timer :=
  ⟨label, stop - start⟩

/-- A timer in one line of a message. -/
def summary (t : Timer) : String :=
  "<Timer " ++ t.label ++ ": " ++ Text.fixed 4 t.elapsed ++ "s>"

end Timer

end NestLayers

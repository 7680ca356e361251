import Mathlib.Tactic.Common
import NestLayers.Definition.Reader

/-!
# Reading the lines of a unit

A unit is read line by line, and each field line is told to be a field or a relation as it is read.
No line is read in another way because of what the lines before it were. So the reading is the same
as if all field lines were read first, and the registry was asked for each of them afterwards.
-/

namespace NestLayers.Definition

/-- The field lines of a body, up to its closing line. The result has no closing line in it
and tells whether there was one; `number` is the number of the first line. The first line that
is no field line ends the reading. -/
def readBody (number : Nat) :
    List (List Char) → Except (FieldLine.SyntaxError × Nat × String) (List FieldLine × Bool)
  | [] => .ok ([], false)
  | line :: rest =>
    if isClosing line then .ok ([], true)
    else if isSkipped line then readBody (number + 1) rest
    else
      match FieldLine.parse (String.ofList line) with
      | .error error => .error (error, number, String.ofList line)
      | .ok field => do
        let (fields, closed) ← readBody (number + 1) rest
        return (field :: fields, closed)

/-- The parts of a definition unit before any field is told from a relation: the model's name,
its description and its field lines. -/
def readUnit (text : String) : Except DefinitionError (String × String × List FieldLine) := do
  let cs := withoutMark text.toList
  let some header := Header.find? cs | .error .noHeader
  let description := (Header.findDescription? cs).getD []
  if description.isEmpty then .error (.noDescription header.name)
  match readBody (header.line + 2) (bodyLines header cs) with
  | .error (error, line, snippet) => .error (.badField error line snippet)
  | .ok (_, false) => .error (.unclosedBody header.name (header.line + 1))
  | .ok (fields, true) => return (header.name, String.ofList description, fields)

/-- **Run.** The members of a body are those of its field lines, one by one. -/
theorem readMembers_eq (registry : Registry) (number : Nat) (lines : List (List Char)) :
    readMembers registry number lines = do
      let (fields, closed) ← readBody number lines
      let members := fields.map (FieldLine.member registry)
      return (members.filterMap Member.field?, members.filterMap Member.relation?, closed) := by
  induction lines generalizing number with
  | nil => rfl
  | cons line lines ih =>
    rw [readMembers, readBody]
    split_ifs with hclosing hskipped
    · rfl
    · exact ih (number + 1)
    · cases FieldLine.parse (String.ofList line) with
      | error error => rfl
      | ok read =>
        dsimp only
        rw [ih (number + 1)]
        cases readBody (number + 1) lines with
        | error fault => rfl
        | ok result =>
          obtain ⟨fields, closed⟩ := result
          dsimp only [bind, Except.bind, pure, Except.pure]
          rw [List.map_cons]
          cases read.member registry <;> rfl

/-- **A unit is read as if its lines were read first.** -/
theorem parse_eq (registry : Registry) (fileId : String) (location : Location) (text : String) :
    parse registry fileId location text = do
      let (name, description, lines) ← readUnit text
      let members := lines.map (FieldLine.member registry)
      return {
        name, description, fileId, location
        fields := members.filterMap Member.field?
        relations := members.filterMap Member.relation? } := by
  unfold parse readUnit
  dsimp only
  cases Header.find? (withoutMark text.toList) with
  | none => rfl
  | some header =>
    dsimp only
    split
    · rfl
    · rw [readMembers_eq]
      rcases readBody (header.line + 2) (bodyLines header (withoutMark text.toList)) with
        ⟨error, line, snippet⟩ | ⟨fields, _ | _⟩
      · rfl
      · rfl
      · rfl

end NestLayers.Definition

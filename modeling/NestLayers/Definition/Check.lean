import NestLayers.Definition.Basic

/-!
# Checking a definition

Reading a unit only ensures that every line is a field line. The checks here look across
lines: a generator that addresses single records needs exactly one identifier field, and a
relation that names the field it is stored in needs that field. Repeated names and unknown
directives are worth a warning and no more.
-/

namespace NestLayers

/-- How much a diagnostic weighs. -/
inductive Severity
  | error
  | warning
  deriving DecidableEq, Repr

/-- The name under which a severity is reported. -/
def Severity.name : Severity → String
  | .error => "error"
  | .warning => "warning"

/-- What a check has to say. `Context` is what it says it about. -/
structure Diagnostic (Context : Type) where
  severity : Severity
  code : String
  message : String
  context : Context
  deriving DecidableEq, Repr

/-- A diagnostic in one line of a message. -/
def Diagnostic.line {Context : Type} (d : Diagnostic Context) : String :=
  let label := match d.severity with
    | .error => "ERROR"
    | .warning => "WARNING"
  "[" ++ label ++ "] " ++ d.code ++ ": " ++ d.message

/-- The diagnostics of a check, in order. -/
structure Diagnostics (Context : Type) where
  items : List (Diagnostic Context) := []
  deriving DecidableEq, Repr

namespace Diagnostics

variable {Context : Type}

/-- The diagnostics that make the checked thing unusable. -/
def errors (ds : Diagnostics Context) : List (Diagnostic Context) :=
  ds.items.filter (·.severity == .error)

/-- The diagnostics that do not. -/
def warnings (ds : Diagnostics Context) : List (Diagnostic Context) :=
  ds.items.filter (·.severity != .error)

/-- Whether there are no errors. -/
def isValid (ds : Diagnostics Context) : Bool :=
  ds.errors.isEmpty

/-- The codes of all diagnostics, in order. -/
def codes (ds : Diagnostics Context) : List String :=
  ds.items.map (·.code)

/-- All diagnostics in one line of a message. -/
def summary (ds : Diagnostics Context) : String :=
  "<ValidationResult errors=" ++ toString ds.errors.length ++ " warnings=" ++
    toString ds.warnings.length ++ ">"

end Diagnostics

/-- What the checks can find in a definition. -/
inductive Finding
  | noIdField
  | compositeId (fields : List String)
  | relationIdUnknown (relation relationId : String)
  | duplicateField (name : String) (count : Nat)
  | unknownDirective (field word : String)
  deriving DecidableEq, Repr

/-- A value in the context of a diagnostic. -/
inductive ContextValue
  | text (value : String)
  | texts (values : List String)
  deriving DecidableEq, Repr

namespace Finding

/-- The weight of a finding. -/
def severity : Finding → Severity
  | .noIdField | .compositeId _ | .relationIdUnknown _ _ => .error
  | .duplicateField _ _ | .unknownDirective _ _ => .warning

/-- The code of a finding. -/
def code : Finding → String
  | .noIdField => "NO_ID_FIELD"
  | .compositeId _ => "COMPOSITE_ID"
  | .relationIdUnknown _ _ => "RELATION_ID_UNKNOWN"
  | .duplicateField _ _ => "DUPLICATE_FIELD"
  | .unknownDirective _ _ => "UNKNOWN_DIRECTIVE"

/-- The message for a finding in a model. -/
def message (model : String) : Finding → String
  | .noIdField => "Model '" ++ model ++ "' has no @id field."
  | .compositeId fields =>
    "Model '" ++ model ++ "' has " ++ toString fields.length ++ " @id fields (" ++
      String.intercalate ", " fields ++ "); exactly one is supported."
  | .relationIdUnknown relation relationId =>
    "Relation '" ++ relation ++ "' references '" ++ relationId ++
      "', which is not a scalar field of '" ++ model ++ "'."
  | .duplicateField name count =>
    "Field '" ++ name ++ "' appears " ++ toString count ++ " times in '" ++ model ++ "'."
  | .unknownDirective field word =>
    "Unknown directive '" ++ word ++ "' on '" ++ model ++ "." ++ field ++
      "' kept in description."

/-- What a finding in a model is about. -/
def context (model : String) : Finding → List (String × ContextValue)
  | .noIdField => [("model", .text model)]
  | .compositeId fields => [("model", .text model), ("fields", .texts fields)]
  | .relationIdUnknown relation _ => [("model", .text model), ("join", .text relation)]
  | .duplicateField name _ => [("model", .text model), ("field", .text name)]
  | .unknownDirective field _ => [("model", .text model), ("field", .text field)]

/-- The diagnostic for a finding in a model. -/
def diagnostic (model : String) (f : Finding) : Diagnostic (List (String × ContextValue)) :=
  ⟨f.severity, f.code, f.message model, f.context model⟩

end Finding

/-- Why a definition has no single identifier. -/
inductive IdentifierError
  | missing (model : String)
  | composite (model : String) (fields : List String)
  deriving DecidableEq, Repr

/-- The message for an identifier error. -/
def IdentifierError.message : IdentifierError → String
  | .missing model =>
    "Model '" ++ model ++ "' has no @id field; update, delete and find-unique contracts " ++
      "cannot be generated."
  | .composite model fields =>
    "Model '" ++ model ++ "' declares " ++ toString fields.length ++ " @id fields (" ++
      String.intercalate ", " fields ++ "); composite identifiers are not supported."

/-- Why a definition cannot be used. -/
inductive CheckError
  | identifier (error : IdentifierError)
  | relations (model : String) (problems : List String)
  deriving DecidableEq, Repr

/-- The message for a check error. -/
def CheckError.message : CheckError → String
  | .identifier error => error.message
  | .relations model problems =>
    "Model '" ++ model ++ "' failed validation:\n  - " ++ String.intercalate "\n  - " problems

namespace Definition

/-- The findings about identifier fields. -/
def idFindings (d : Definition) (requireId : Bool) : List Finding :=
  match d.idFields with
  | [] => if requireId then [.noIdField] else []
  | [_] => []
  | ids => [.compositeId (ids.map (·.name))]

/-- The relations that name a field the model does not have. -/
def relationFindings (d : Definition) : List Finding :=
  d.relations.filterMap fun r =>
    match r.relationId with
    | some id =>
      if id != "" && !(d.fields.map (·.name)).contains id then
        some (.relationIdUnknown r.name id)
      else none
    | none => none

/-- The names that several members share, in order of first occurrence. -/
def duplicateFindings (d : Definition) : List Finding :=
  let names := d.fields.map (·.name) ++ d.relations.map (·.name)
  (Text.firstOccurrences names).filterMap fun name =>
    if names.count name > 1 then some (.duplicateField name (names.count name)) else none

/-- The words that look like directives and are none. -/
def directiveFindings (d : Definition) : List Finding :=
  d.fields.flatMap fun f => f.unknownDirectives.map (.unknownDirective f.name)

/-- Everything the checks find. -/
def findings (d : Definition) (requireId : Bool) : List Finding :=
  d.idFindings requireId ++ d.relationFindings ++ d.duplicateFindings ++ d.directiveFindings

/-- The diagnostics of all checks. -/
def validate (d : Definition) (requireId : Bool) :
    Diagnostics (List (String × ContextValue)) :=
  ⟨(d.findings requireId).map (Finding.diagnostic d.name)⟩

/-- The identifier field. -/
def identifier (d : Definition) : Except IdentifierError Field :=
  match d.idFields with
  | [f] => .ok f
  | [] => .error (.missing d.name)
  | ids => .error (.composite d.name (ids.map (·.name)))

/-- The diagnostics of a usable definition. A definition with errors is refused: for its
identifiers first, then for its relations. -/
def check (d : Definition) (requireId : Bool) :
    Except CheckError (Diagnostics (List (String × ContextValue))) := do
  let result := d.validate requireId
  if !(d.idFindings requireId).isEmpty then
    match d.identifier with
    | .error error => throw (.identifier error)
    | .ok _ => pure ()
  if !result.isValid then
    throw (.relations d.name (result.errors.map (·.message)))
  return result

end Definition

end NestLayers

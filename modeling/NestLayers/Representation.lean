/-!
# Representations of a declared type

A declared type appears in five places of the generated code, each time in another form.
Five scalar types have forms of their own, of which only `String` has others for a list;
every other declared type is an enumeration, and a known model is a relation.
-/

namespace NestLayers

/-- The forms of a declared type. -/
structure Representation where
  /-- In a request contract. -/
  request : String
  /-- In a model and in a response contract. -/
  response : String
  /-- In the database schema. -/
  storage : String
  /-- In the interface documentation. -/
  documentation : String
  /-- The name of the decorator that checks a request value. -/
  validatorName : String
  /-- The arguments of that decorator. -/
  validatorArguments : String := ""
  /-- Whether the type is an enumeration. -/
  isEnum : Bool := false
  deriving DecidableEq, Repr

namespace Representation

/-- The call of the checking decorator. -/
def validator (r : Representation) : String :=
  r.validatorName ++ "(" ++ r.validatorArguments ++ ")"

/-- The forms of a scalar type. -/
def ofScalar? (declared : String) (isArray : Bool) : Option Representation :=
  match declared with
  | "String" =>
    if isArray then
      some ⟨"string[]", "string[]", "String[]", "[String]", "IsString", "\x7b each: true \x7d", false⟩
    else some ⟨"string", "string", "String", "String", "IsString", "", false⟩
  | "Int" => some ⟨"number", "number", "Int", "Number", "IsInt", "", false⟩
  | "Boolean" => some ⟨"boolean", "boolean", "Boolean", "Boolean", "IsBoolean", "", false⟩
  | "DateTime" => some ⟨"Date", "Date", "DateTime", "Date", "IsDate", "", false⟩
  | "Decimal" => some ⟨"string", "Prisma.Decimal", "Decimal", "String", "IsDecimal", "", false⟩
  | _ => none

/-- The forms of an enumeration. -/
def ofEnum (declared : String) : Representation :=
  let qualified := "$Enums." ++ declared
  ⟨qualified, qualified, qualified, qualified, "IsEnum", qualified, true⟩

/-- The forms of a declared type that is not a model. -/
def ofDeclared (declared : String) (isArray : Bool) : Representation :=
  (ofScalar? declared isArray).getD (ofEnum declared)

/-- The forms of a relation to a model. -/
def ofRelation (model : String) : Representation :=
  ⟨model, model ++ "Model", model, model, "ValidateNested", "", false⟩

/-- The names of the forms that are empty. A representation without any is well formed. -/
def emptyForms (r : Representation) : List String :=
  [("request", r.request), ("response", r.response), ("storage", r.storage),
    ("documentation", r.documentation)].filterMap
    fun (form, text) => if text = "" then some form else none

end Representation

end NestLayers

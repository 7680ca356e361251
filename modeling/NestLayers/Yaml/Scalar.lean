import NestLayers.Value
import NestLayers.Yaml.Numeral
import NestLayers.Yaml.Timestamp

/-!
# Scalars

A tag says what kind of value a text stands for. A text without quotes may stand for nothing,
a truth value, a number or a date; if it has none of their forms it stands for itself.
-/

namespace NestLayers.Yaml

/-- What a part of a document stands for. -/
inductive Tag
  | null
  | bool
  | int
  | float
  | timestamp
  | text
  | list
  | mapping
  /-- A key whose value is merged into the mapping. -/
  | merge
  /-- A lone equals sign, which is text as a key and nothing as a value. -/
  | equals
  /-- Text with half of a surrogate pair. -/
  | garbled
  /-- A tag without a meaning here. -/
  | unknown
  deriving DecidableEq, Repr

namespace Tag

/-- The start of the full name of a standard tag. -/
def standard : String := "tag:yaml.org,2002:"

/-- The standard tags by their names. -/
def names : List (String × Tag) :=
  [("null", .null), ("bool", .bool), ("int", .int), ("float", .float),
   ("timestamp", .timestamp), ("str", .text), ("seq", .list), ("map", .mapping),
   ("merge", .merge), ("value", .equals)]

/-- The tag of a full name. -/
def ofName (name : String) : Tag :=
  ((names.find? fun (short, _) => standard ++ short == name).map (·.2)).getD .unknown

end Tag

/-- The texts that stand for nothing. -/
def nullWords : List String :=
  ["", "~", "null", "Null", "NULL"]

/-- The texts that stand for a truth value. -/
def boolWords : List (String × Bool) :=
  [("yes", true), ("Yes", true), ("YES", true), ("true", true), ("True", true), ("TRUE", true),
   ("on", true), ("On", true), ("ON", true), ("no", false), ("No", false), ("NO", false),
   ("false", false), ("False", false), ("FALSE", false), ("off", false), ("Off", false),
   ("OFF", false)]

/-- The tag of a text without quotes. -/
def Tag.ofPlain (text : String) : Tag :=
  let cs := text.toList
  if nullWords.contains text then .null
  else if (boolWords.lookup text).isSome then .bool
  else if (fraction? cs).isSome then .float
  else if (integer? cs).isSome then .int
  else if (Timestamp.read? cs).isSome then .timestamp
  else if text = "<<" then .merge
  else if text = "=" then .equals
  else .text

/-- The value of a text with a tag. A text that does not have the form of its tag has none. -/
def Tag.scalar (tag : Tag) (text : String) : Except Flaw Scalar :=
  match tag with
  | .null => .ok .null
  | .bool =>
    match boolWords.lookup text with
    | some value => .ok (.bool value)
    | none => .error .invalid
  | .int =>
    match integer? text.toList with
    | some value => value.map .int
    | none => .error .invalid
  | .float =>
    match fraction? text.toList with
    | some value => value.map .float
    | none => .error .invalid
  | .timestamp =>
    match Timestamp.read? text.toList with
    | none => .error .invalid
    | some stamp =>
      match stamp.fault?, stamp with
      | some fault, _ => .error (.badDate fault)
      | none, .date value => .ok (.date value)
      | none, .moment value => .ok (.moment value)
  | .text => .ok (.text text)
  | .garbled => .ok .garbled
  | .list | .mapping | .merge | .equals | .unknown => .error .invalid

end NestLayers.Yaml

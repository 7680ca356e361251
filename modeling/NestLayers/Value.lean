import NestLayers.Calendar
import NestLayers.Double
import NestLayers.Text.Search

/-!
# Values of a settings file

A settings file is a mapping from keys to values. A key is a single value; other values are
lists and mappings. Keys that are equal as numbers or as moments are one key.
-/

namespace NestLayers

/-- A single value. -/
inductive Scalar
  | null
  | bool (value : Bool)
  | int (value : Int)
  | float (value : Double)
  | date (value : Date)
  | moment (value : Moment)
  | text (value : String)
  /-- Text with half of a surrogate pair, which is no text in any encoding. -/
  | garbled
  deriving DecidableEq, Repr, Inhabited

namespace Scalar

/-- A single value as a problem names it. A truth value counts as one or zero, and a number of
more than 4300 digits is not written out. -/
def shown : Scalar → String
  | .null => "None"
  | .bool true => "1"
  | .bool false => "0"
  | .int value =>
    if value.natAbs < Nat.pow 10 4300 then toString value else "<unprintable int object>"
  | .float value => value.written
  | .date value => value.shown
  | .moment value => value.shown
  | .text value => value
  | .garbled => "�"

/-- The exact value of a finite number as a quotient. A truth value counts as one or zero. -/
def quotient? : Scalar → Option (Int × Nat)
  | .bool value => some (if value then 1 else 0, 1)
  | .int value => some (value, 1)
  | .float (.finite negative size exponent) =>
    let (num, den) := Double.fraction size exponent
    some (if negative then -(num : Int) else num, den)
  | _ => none

/-- Whether two values are one key. -/
def same (a b : Scalar) : Bool :=
  match a.quotient?, b.quotient? with
  | some (m, d), some (n, e) => m * e == n * d
  | none, none =>
    match a, b with
    | .moment m, .moment n => m.same n
    | _, _ => a == b
  | _, _ => false

end Scalar

/-- A value. A mapping has each key once. -/
inductive Value
  | scalar (s : Scalar)
  | list (items : List Value)
  | mapping (entries : List (Scalar × Value))
  deriving Repr, Inhabited

/-- The name of a kind of value. -/
def Value.kind : Value → String
  | .scalar .null => "NoneType"
  | .scalar (.bool _) => "bool"
  | .scalar (.int _) => "int"
  | .scalar (.float _) => "float"
  | .scalar (.date _) => "date"
  | .scalar (.moment _) => "datetime"
  | .scalar (.text _) | .scalar .garbled => "str"
  | .list _ => "list"
  | .mapping _ => "dict"

/-- Sets a key of a mapping. A key that is there keeps its position and its spelling. -/
def setEntry (entries : List (Scalar × Value)) (key : Scalar) (value : Value) :
    List (Scalar × Value) :=
  if entries.any (·.1.same key) then
    entries.map fun entry => if entry.1.same key then (entry.1, value) else entry
  else entries ++ [(key, value)]

end NestLayers

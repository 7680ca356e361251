import NestLayers.Calendar

/-!
# Flaws of a settings file

Why a text has no value. Most texts without a value are no documents at all; a document may
also write a number, a date or a character that does not exist.
-/

namespace NestLayers.Yaml

/-- Why a text has no value. -/
inductive Flaw
  /-- The text is not a document. -/
  | invalid
  /-- A number in a base has no digits. -/
  | noDigits (base : Nat)
  /-- A whole number has too many decimal digits. -/
  | tooManyDigits (count : Nat)
  /-- A fraction in base sixty has too many groups. -/
  | tooManyGroups
  /-- A date or a time does not exist. -/
  | badDate (fault : DateFault)
  /-- An escape gives a number that is no character's. -/
  | notACharacter
  deriving DecidableEq, Repr

/-- The number of decimal digits that a whole number may have. -/
def mostDigits : Nat := 4300

/-- The message for a flaw. -/
def Flaw.message : Flaw → String
  | .invalid => "Invalid YAML"
  | .noDigits base => "invalid literal for int() with base " ++ toString base ++ ": ''"
  | .tooManyDigits count =>
    "Exceeds the limit (" ++ toString mostDigits ++ " digits) for integer string conversion: " ++
      "value has " ++ toString count ++ " digits; use sys.set_int_max_str_digits() to increase " ++
      "the limit"
  | .tooManyGroups => "int too large to convert to float"
  | .badDate fault => fault.message
  | .notACharacter => "chr() arg not in range(0x110000)"

end NestLayers.Yaml

import NestLayers.Double
import NestLayers.Yaml.Flaw

/-!
# Numbers without quotes

Whole numbers may be binary, octal, hexadecimal, decimal or in base sixty, and fractions
decimal or in base sixty. Underscores may stand between digits, and do not count.
-/

namespace NestLayers.Yaml

/-- The value of a row of digits in a base. Underscores do not count. -/
def digitsValue (base : Nat) (digits : List Char) : Nat :=
  digits.foldl (fun n c =>
    if c.isDigit then base * n + (c.toNat - '0'.toNat)
    else if c.isAlpha then base * n + (c.toLower.toNat - 'a'.toNat + 10)
    else n) 0

/-- A nonempty row of digits and underscores. -/
def isDigitRow (isDigit : Char → Bool) (cs : List Char) : Bool :=
  !cs.isEmpty && cs.all fun c => isDigit c || c == '_'

/-- A decimal digit or an underscore. -/
def isPlace (c : Char) : Bool :=
  c.isDigit || c == '_'

/-- A binary digit. -/
def isBinary (c : Char) : Bool :=
  c == '0' || c == '1'

/-- An octal digit. -/
def isOctal (c : Char) : Bool :=
  '0' ≤ c && c ≤ '7'

/-- A hexadecimal digit. -/
def isHex (c : Char) : Bool :=
  c.isDigit || ('a' ≤ c && c ≤ 'f') || ('A' ≤ c && c ≤ 'F')

/-- A decimal number that does not start with a zero. -/
def isDecimal (cs : List Char) : Bool :=
  match cs with
  | c :: rest => '1' ≤ c && c ≤ '9' && rest.all isPlace
  | [] => false

/-- A group of a number in base sixty: one digit, or two of which the first is at most five. -/
def isSixtieth : List Char → Bool
  | [a] => a.isDigit
  | [a, b] => '0' ≤ a && a ≤ '5' && b.isDigit
  | _ => false

/-- The groups between the colons of a text. -/
def splitColons (cs : List Char) : List (List Char) :=
  cs.foldr (fun c groups =>
    match groups with
    | [] => [[c]]
    | group :: others => if c = ':' then [] :: group :: others else (c :: group) :: others) [[]]

/-- Splits the sign off a number. -/
def splitSign : List Char → Bool × List Char
  | '-' :: rest => (true, rest)
  | '+' :: rest => (false, rest)
  | cs => (false, cs)

/-- A whole number as it is written. -/
inductive Numeral
  /-- Digits in base two, eight or sixteen. -/
  | based (base : Nat) (digits : List Char)
  | decimal (digits : List Char)
  | sixty (groups : List (List Char))
  deriving DecidableEq, Repr

/-- Reads a whole number without its sign. -/
def Numeral.read? (cs : List Char) : Option Numeral :=
  match cs with
  | '0' :: 'b' :: digits => if isDigitRow isBinary digits then some (.based 2 digits) else none
  | '0' :: 'x' :: digits => if isDigitRow isHex digits then some (.based 16 digits) else none
  | '0' :: digits => if digits.all fun c => isOctal c || c == '_' then some (.based 8 cs) else none
  | _ =>
    if isDecimal cs then some (.decimal cs)
    else
      match splitColons cs with
      | first :: group :: groups =>
        if isDecimal first && (group :: groups).all isSixtieth then
          some (.sixty (first :: group :: groups))
        else none
      | _ => none

/-- The value of a row of decimal digits. There is a greatest number of digits. -/
def decimalValue (digits : List Char) : Except Flaw Nat :=
  let count := digits.countP Char.isDigit
  if mostDigits < count then .error (.tooManyDigits count) else .ok (digitsValue 10 digits)

/-- The value of a whole number without its sign. -/
def Numeral.value : Numeral → Except Flaw Nat
  | .based base digits =>
    if digits.all (· == '_') then .error (.noDigits base) else .ok (digitsValue base digits)
  | .decimal digits => decimalValue digits
  | .sixty groups => do
    let values ← groups.mapM decimalValue
    return values.foldl (fun n value => 60 * n + value) 0

/-- Reads a whole number. -/
def integer? (cs : List Char) : Option (Except Flaw Int) :=
  let (negative, body) := splitSign cs
  (Numeral.read? body).map fun numeral =>
    numeral.value.map fun n => if negative then -(n : Int) else n

/-- A fraction as it is written. -/
inductive Fraction
  | infinite
  | undefined
  /-- The digits before and after the point, and a power of ten. -/
  | decimal (whole places : List Char) (power : Int)
  /-- Groups in base sixty; the last one goes on after the point. -/
  | sixty (groups : List (List Char)) (places : List Char)
  deriving DecidableEq, Repr

/-- Reads a power of ten, which has a sign and may be missing. -/
def power? : List Char → Option Int
  | [] => some 0
  | e :: sign :: digits =>
    if (e == 'e' || e == 'E') && (sign == '+' || sign == '-') && !digits.isEmpty &&
        digits.all Char.isDigit then
      some (if sign == '-' then -(digitsValue 10 digits : Int) else digitsValue 10 digits)
    else none
  | _ => none

/-- Reads a fraction without its sign. Without a digit before its point, and undefined, it
cannot have one. -/
def Fraction.read? (signed : Bool) (body : List Char) : Option Fraction :=
  if [".inf", ".Inf", ".INF"].contains (String.ofList body) then some .infinite
  else if !signed && [".nan", ".NaN", ".NAN"].contains (String.ofList body) then some .undefined
  else
    let whole := body.takeWhile (· != '.')
    match body.dropWhile (· != '.') with
    | _ :: tail =>
      let places := tail.takeWhile isPlace
      let headed := whole.head?.any Char.isDigit && whole.all isPlace
      let bare := whole.isEmpty && !signed && places.head?.any Char.isDigit
      if headed || bare then
        (power? (tail.dropWhile isPlace)).map (.decimal whole places)
      else
        match splitColons whole with
        | first :: group :: groups =>
          if first.head?.any Char.isDigit && first.all isPlace &&
              (group :: groups).all isSixtieth && tail.all isPlace then
            some (.sixty (first :: group :: groups) tail)
          else none
        | _ => none
    | [] => none

/-- The number nearest to a decimal. -/
def decimalFraction (whole places : List Char) (power : Int) : Double :=
  .ofDecimal false (digitsValue 10 (whole ++ places)) (power - places.countP Char.isDigit)

/-- The value of groups in base sixty, the last one first, from a power of sixty on. Every step
is rounded. -/
def sixtyValue (base : Nat) (sum : Double) : List Double → Except Flaw Double
  | [] => .ok sum
  | group :: groups =>
    match Double.nearest false base 1 with
    | .infinite _ => .error .tooManyGroups
    | factor => sixtyValue (60 * base) (sum.plus (group.times factor)) groups

/-- The value of a fraction without its sign. -/
def Fraction.value : Fraction → Except Flaw Double
  | .infinite => .ok (.infinite false)
  | .undefined => .ok .undefined
  | .decimal whole places power => .ok (decimalFraction whole places power)
  | .sixty groups places =>
    match groups.reverse with
    | [] => .ok .undefined
    | last :: others =>
      sixtyValue 1 (Double.nearest false 0 1)
        (decimalFraction last places 0 :: others.map (decimalFraction · [] 0))

/-- Reads a fraction. -/
def fraction? (cs : List Char) : Option (Except Flaw Double) :=
  let (negative, body) := splitSign cs
  (Fraction.read? (body.length < cs.length) body).map fun fraction =>
    fraction.value.map fun x => if negative then x.negate else x

end NestLayers.Yaml

import NestLayers.Text.Number

/-!
# Binary floating-point numbers

Numbers with 53 binary places, in exact arithmetic: a decimal is read as the nearest number,
a tie to the even one, and a number is written with the fewest digits that read back as it.
-/

namespace NestLayers

open NestLayers.Text (roundQuotient)

/-- A floating-point number. A finite one is `size · 2 ^ exponent`, with as many binary places
as it can have. -/
inductive Double
  | finite (negative : Bool) (size : Nat) (exponent : Int)
  | infinite (negative : Bool)
  | undefined
  deriving DecidableEq, Repr, Inhabited

namespace Double

/-- The least exponent of a finite number. -/
def leastExponent : Int := -1074

/-- The greatest exponent of a finite number. -/
def greatestExponent : Int := 971

/-- The quotient `num / den` times a power of `base`, as a quotient. -/
def scaled (base : Nat) (power : Int) (num den : Nat) : Nat × Nat :=
  if power < 0 then (num, den * Nat.pow base power.natAbs)
  else (num * Nat.pow base power.natAbs, den)

/-- The exponent of the last of the 53 places of a positive quotient. -/
def lastPlace (num den : Nat) : Int :=
  let power : Int := (num.log2 : Int) - den.log2
  let (low, high) := scaled 2 power den 1
  let exact := if low ≤ num * high then power else power - 1
  max (exact - 52) leastExponent

/-- The number nearest to a quotient. -/
def nearest (negative : Bool) (num den : Nat) : Double :=
  if num = 0 then .finite negative 0 leastExponent
  else
    let exponent := lastPlace num den
    let (n, d) := scaled 2 (-exponent) num den
    let size := roundQuotient n d
    let (size, exponent) :=
      if size = Nat.pow 2 53 then (Nat.pow 2 52, exponent + 1) else (size, exponent)
    if greatestExponent < exponent then .infinite negative else .finite negative size exponent

/-- The number of decimal digits of a number. -/
def digitCount (n : Nat) : Nat :=
  (Nat.toDigits 10 n).length

/-- The number nearest to `digits · 10 ^ power`. Far outside the range of finite numbers nothing
is computed. -/
def ofDecimal (negative : Bool) (digits : Nat) (power : Int) : Double :=
  if digits = 0 || digitCount digits + power < -330 then nearest negative 0 1
  else if 330 < digitCount digits + power then .infinite negative
  else
    let (num, den) := scaled 10 power digits 1
    nearest negative num den

/-- The number with its sign turned. -/
def negate : Double → Double
  | .finite negative size exponent => .finite (!negative) size exponent
  | .infinite negative => .infinite (!negative)
  | .undefined => .undefined

/-- The size of a finite number as a quotient. -/
def fraction (size : Nat) (exponent : Int) : Nat × Nat :=
  scaled 2 exponent size 1

/-- The sum of two numbers that are not negative. -/
def plus : Double → Double → Double
  | .finite _ m e, .finite _ n f =>
    let (a, b) := fraction m e
    let (c, d) := fraction n f
    nearest false (a * d + c * b) (b * d)
  | .undefined, _ | _, .undefined => .undefined
  | _, _ => .infinite false

/-- The product of two numbers that are not negative. -/
def times : Double → Double → Double
  | .finite _ m e, .finite _ n f =>
    let (a, b) := fraction m e
    let (c, d) := fraction n f
    nearest false (a * c) (b * d)
  | .undefined, _ | _, .undefined => .undefined
  | _, _ => .infinite false

/-- Writes `0.d₁d₂… · 10 ^ point` for digits without zeros at their ends: positional where the
point is near the digits, with an exponent elsewhere. -/
def writeDecimal (digits : List Char) (point : Int) : String :=
  let text := String.ofList
  if digits.isEmpty then "0.0"
  else if -4 < point && point ≤ 0 then
    "0." ++ text (List.replicate (-point).toNat '0' ++ digits)
  else if 0 < point && point ≤ 16 then
    let whole := point.toNat
    if digits.length ≤ whole then
      text (digits ++ List.replicate (whole - digits.length) '0') ++ ".0"
    else text (digits.take whole) ++ "." ++ text (digits.drop whole)
  else
    let mantissa := match digits with
      | d :: e :: rest => text (d :: '.' :: e :: rest)
      | _ => text digits
    let power := point - 1
    let size := toString power.natAbs
    mantissa ++ (if power < 0 then "e-" else "e+") ++
      (if size.length < 2 then "0" ++ size else size)

/-- The position of the decimal point of a positive quotient before its first digit that is not
zero: `num / den = 0.d₁d₂… · 10 ^ point`. -/
def decimalPoint (num den : Nat) : Int :=
  if den ≤ num then digitCount (num / den) else 1 - (digitCount (den / num) : Int)

/-- The decimal of so many digits that is next to a positive quotient and reads back as a number,
if there is one; of two the nearer one, and of two equally near ones the even one. -/
def neighbour? (x : Double) (num den : Nat) (power : Int) : Option Nat :=
  let (n, d) := scaled 10 (-power) num den
  let below := n / d
  let reads (digits : Nat) := ofDecimal false digits power == x
  let near := roundQuotient n d
  if reads near then some near
  else if reads below then some below
  else if reads (below + 1) then some (below + 1)
  else none

/-- The digits and the point of the shortest decimal that reads back as a positive quotient. -/
def shortest (x : Double) (num den : Nat) : Nat × Int :=
  let point := decimalPoint num den
  let found := (List.range 17).findSome? fun n : Nat =>
    let power := point - (n + 1)
    (neighbour? x num den power).map fun digits => (digits, digitCount digits + power)
  found.getD (0, 0)

/-- The number as messages write it. -/
def written : Double → String
  | .undefined => "nan"
  | .infinite negative => if negative then "-inf" else "inf"
  | .finite negative size exponent =>
    let sign := if negative then "-" else ""
    if size = 0 then sign ++ "0.0"
    else
      let (num, den) := fraction size exponent
      let (digits, point) := shortest (.finite false size exponent) num den
      let kept := ((Nat.toDigits 10 digits).reverse.dropWhile (· == '0')).reverse
      sign ++ writeDecimal kept point

end Double

end NestLayers

/-!
# Numbers in reports

Sizes are written in groups of three digits, and times with a fixed number of decimal
places. A time is a binary floating-point number; its exact value is rounded to the
nearest decimal, and a tie goes to the even one.
-/

namespace NestLayers.Text

/-- Puts a comma in front of every third digit from the right. The digits come reversed. -/
def groupReversed : List Char → List Char
  | a :: b :: c :: d :: rest => a :: b :: c :: ',' :: groupReversed (d :: rest)
  | digits => digits

/-- A whole number in groups of three digits. -/
def grouped (n : Int) : String :=
  let digits := String.ofList (groupReversed (Nat.toDigits 10 n.natAbs).reverse).reverse
  if n < 0 then "-" ++ digits else digits

/-- The quotient rounded to the nearest whole number, a tie to the even one. -/
def roundQuotient (num den : Nat) : Nat :=
  let q := num / den
  let r := num % den
  if 2 * r < den then q else if den < 2 * r then q + 1 else q + q % 2

/-- A whole number of units of `10 ^ -places`, written with a decimal point. -/
def placed (places n : Nat) : String :=
  let fraction := toString (n % Nat.pow 10 places)
  let zeros := String.ofList (List.replicate (places - fraction.length) '0')
  toString (n / Nat.pow 10 places) ++ "." ++ zeros ++ fraction

/-- The size of a floating-point number as a quotient of whole numbers. -/
def exactSize (x : Float) : Nat × Nat :=
  let bits := x.toBits.toNat % Nat.pow 2 63
  let exponent := bits / Nat.pow 2 52
  let fraction := bits % Nat.pow 2 52
  if exponent = 0 then (fraction, Nat.pow 2 1074)
  else if exponent < 1075 then (fraction + Nat.pow 2 52, Nat.pow 2 (1075 - exponent))
  else ((fraction + Nat.pow 2 52) * Nat.pow 2 (exponent - 1075), 1)

/-- A floating-point number with a fixed number of decimal places. -/
def fixed (places : Nat) (x : Float) : String :=
  let bits := x.toBits.toNat
  let sign := if bits < Nat.pow 2 63 then "" else "-"
  if x.isNaN then "nan"
  else if bits % Nat.pow 2 63 = 2047 * Nat.pow 2 52 then sign ++ "inf"
  else
    let (num, den) := exactSize x
    sign ++ placed places (roundQuotient (num * Nat.pow 10 places) den)

/-- Fills a text with spaces on its left up to a width. -/
def padLeft (width : Nat) (s : String) : String :=
  String.ofList (List.replicate (width - s.length) ' ') ++ s

/-- Fills a text with spaces on its right up to a width. -/
def padRight (width : Nat) (s : String) : String :=
  s ++ String.ofList (List.replicate (width - s.length) ' ')

end NestLayers.Text

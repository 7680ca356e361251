import NestLayers.Yaml.Flaw

/-!
# Dates and times without quotes

A date is written as in `2024-01-05`. A moment has a time of day after a letter T or blanks,
which may have a fraction and a distance from universal time; its month, day and hour may have
one digit only.
-/

namespace NestLayers.Yaml

/-- A date or a moment. -/
inductive Timestamp
  | date (value : Date)
  | moment (value : Moment)
  deriving DecidableEq, Repr

namespace Timestamp

/-- Reads a number of at least `least` and at most `most` digits. -/
def number? (least most : Nat) (cs : List Char) : Option (Nat × List Char) :=
  let digits := (cs.take most).takeWhile Char.isDigit
  if least ≤ digits.length then
    some (digits.foldl (fun n c => 10 * n + (c.toNat - '0'.toNat)) 0, cs.drop digits.length)
  else none

/-- Reads a mark and a number after it. -/
def marked? (mark : Char) (least most : Nat) (cs : List Char) : Option (Nat × List Char) :=
  match cs with
  | c :: rest => if c = mark then number? least most rest else none
  | [] => none

/-- A blank within a moment. -/
def isBlank (c : Char) : Bool :=
  c == ' ' || c == '\t'

/-- Moves over what stands between the date and the time of a moment. -/
def afterDate? : List Char → Option (List Char)
  | c :: rest =>
    if c = 'T' || c = 't' then some rest
    else if isBlank c then some (rest.dropWhile isBlank)
    else none
  | [] => none

/-- Reads a fraction of a second, in millionths; further digits are dropped. -/
def micro (cs : List Char) : Nat × List Char :=
  match cs with
  | '.' :: rest =>
    let digits := rest.takeWhile Char.isDigit
    let padded := digits ++ List.replicate 6 '0'
    (((number? 0 6 padded).map (·.1)).getD 0, rest.drop digits.length)
  | _ => (0, cs)

/-- Reads a distance from universal time, in minutes, up to the end. -/
def offset? (cs : List Char) : Option (Option Int) :=
  match cs with
  | [] => some none
  | _ =>
    match cs.dropWhile isBlank with
    | ['Z'] => some (some 0)
    | sign :: rest =>
      if sign = '+' || sign = '-' then do
        let (hours, rest) ← number? 1 2 rest
        let minutes ← match rest with
          | [] => some 0
          | _ => do
            let (minutes, rest) ← marked? ':' 2 2 rest
            if rest.isEmpty then some minutes else none
        let size : Int := 60 * hours + minutes
        return some (if sign = '-' then -size else size)
      else none
    | [] => none

/-- Reads a date or a moment. -/
def read? (cs : List Char) : Option Timestamp := do
  let (year, rest) ← number? 4 4 cs
  let (month, rest) ← marked? '-' 1 2 rest
  let (day, rest) ← marked? '-' 1 2 rest
  if rest.isEmpty then
    if cs.length = 10 then some (.date ⟨year, month, day⟩) else none
  else do
    let (hour, rest) ← number? 1 2 (← afterDate? rest)
    let (minute, rest) ← marked? ':' 2 2 rest
    let (second, rest) ← marked? ':' 2 2 rest
    let (fraction, rest) := micro rest
    let offset ← offset? rest
    return .moment ⟨⟨year, month, day⟩, hour, minute, second, fraction, offset⟩

/-- What is impossible about a date or a moment. -/
def fault? : Timestamp → Option DateFault
  | .date value => value.fault?
  | .moment value => value.fault?

end Timestamp

end NestLayers.Yaml

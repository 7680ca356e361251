import NestLayers.Text.CaseTable

/-!
# Small and capital letters

The full Unicode case mappings. One letter may become several, and a capital sigma
becomes a final sigma at the end of a word: after a cased letter and before none, marks
passed over on both sides.
-/

namespace NestLayers.Text

/-- A cased letter that a capital sigma does not pass over. -/
def isCased (c : Char) : Bool :=
  c.isAlpha || (128 ≤ c.toNat && inRanges c.toNat casedRanges)

/-- A mark that a capital sigma passes over when it looks for its neighbours. -/
def isCaseIgnorable (c : Char) : Bool :=
  if c.toNat < 128 then [39, 46, 58, 94, 96].contains c.toNat
  else inRanges c.toNat caseIgnorableRanges

/-- Whether the first character that is not passed over is a cased letter. -/
def meetsCased (cs : List Char) : Bool :=
  match cs.dropWhile isCaseIgnorable with
  | [] => false
  | c :: _ => isCased c

/-- The small form of a character away from its neighbours. -/
def lowerChar (c : Char) : List Char :=
  if c.toNat < 128 then [c.toLower]
  else if c.toNat = 0x130 then ['i', Char.ofNat 0x307]
  else [Char.ofNat (shiftBy lowerShifts c.toNat)]

/-- The small form of a character between the text before it, read backwards, and the text
after it. -/
def lowerBetween (before : List Char) (c : Char) (after : List Char) : List Char :=
  if c = 'Σ' then [if meetsCased before && !meetsCased after then 'ς' else 'σ'] else lowerChar c

/-- The small form of a text that follows `before`, read backwards. -/
def lowerFrom (before : List Char) : List Char → List Char
  | [] => []
  | c :: rest => lowerBetween before c rest ++ lowerFrom (c :: before) rest

/-- The small form of a text. -/
def lowerChars (cs : List Char) : List Char :=
  lowerFrom [] cs

/-- The capital form of a character. -/
def upperChar (c : Char) : List Char :=
  if c.toNat < 128 then [c.toUpper]
  else
    match upperExpansions.lookup c.toNat with
    | some expansion => expansion.map Char.ofNat
    | none => [Char.ofNat (shiftBy upperShifts c.toNat)]

end NestLayers.Text

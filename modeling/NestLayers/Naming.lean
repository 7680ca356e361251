import NestLayers.Text.Casing
import NestLayers.Text.Search

/-!
# Naming

Class names, file names and routes are derived from one another. A camel-case or
Pascal-case name becomes a hyphenated one by a hyphen at every border between words;
routes are plural.
-/

namespace NestLayers.Naming

open NestLayers.Text

/-- A small ASCII letter. -/
def isSmall (c : Char) : Bool :=
  c.isLower

/-- A capital ASCII letter. -/
def isCapital (c : Char) : Bool :=
  c.isUpper

/-- Puts a hyphen between a small letter and a capital that follows it. -/
def hyphenateWords : List Char → List Char
  | a :: b :: rest =>
    if isSmall a && isCapital b then a :: '-' :: hyphenateWords (b :: rest)
    else a :: hyphenateWords (b :: rest)
  | cs => cs

/-- Puts a hyphen between a run of capitals and a capital that starts a word of its own. -/
def hyphenateAcronyms : List Char → List Char
  | a :: b :: c :: rest =>
    if isCapital a && isCapital b && isSmall c then
      a :: '-' :: hyphenateAcronyms (b :: c :: rest)
    else a :: hyphenateAcronyms (b :: c :: rest)
  | cs => cs

/-- The hyphenated form of a resource name: `orderItem` becomes `order-item`. -/
def kebab (name : String) : String :=
  String.ofList (lowerChars (hyphenateWords name.toList))

/-- The hyphenated form of a model name, acronyms set apart: `HTTPRequestLog` becomes
`http-request-log`. -/
def modelKebab (name : String) : String :=
  String.ofList (lowerChars (hyphenateAcronyms (hyphenateWords name.toList)))

/-- The name with its first character as a capital. -/
def capitalize (name : String) : String :=
  match name.toList with
  | [] => ""
  | c :: rest => String.ofList (upperChar c ++ rest)

/-- The name with its first character as a small letter. -/
def uncapitalize (name : String) : String :=
  match name.toList with
  | [] => ""
  | c :: rest => String.ofList (lowerChars [c] ++ rest)

/-- Whether a word ends in a consonant and `y`, so that its plural ends in `ies`. -/
def endsInConsonantY (word : List Char) : Bool :=
  match word.reverse with
  | 'y' :: c :: _ => !("aeiou".toList.contains c)
  | ['y'] => true
  | _ => false

/-- Whether the plural of a word takes `es`. -/
def endsInSibilant (word : List Char) : Bool :=
  ["s", "x", "z", "ch", "sh"].any fun ending => endsWith ending.toList word

/-- The plural of a route segment. -/
def plural (word : String) : String :=
  if word = "" then ""
  else if endsInConsonantY word.toList then String.ofList word.toList.dropLast ++ "ies"
  else if endsInSibilant word.toList then word ++ "es"
  else word ++ "s"

/-- The name without the first occurrence of a marker. -/
def withoutMarker (marker name : String) : String :=
  String.ofList (eraseFirst marker.toList name.toList)

end NestLayers.Naming

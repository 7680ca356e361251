/-!
# Texts that cannot be encoded

A text is handed over as code points. Halves of surrogate pairs are code points, but stand for no
character, and a text with one of them cannot be encoded.
-/

namespace NestLayers.Text

/-- A code point: a character, or half of a surrogate pair. -/
inductive CodePoint
  | character (value : Char)
  | half (value : Nat)
  deriving DecidableEq, Repr

/-- Whether the code point is half of a surrogate pair. -/
def CodePoint.isHalf : CodePoint → Bool
  | .character _ => false
  | .half _ => true

/-- A text as it is handed over: characters only, or some characters before the first half of a
surrogate pair and any code points behind it. -/
inductive WideText
  | text (value : String)
  | broken (before : String) (half : Nat) (after : List CodePoint)
  deriving DecidableEq, Repr

/-- Every text is a wide text. -/
instance : Coe String WideText := ⟨.text⟩

/-- The message about a text that cannot be encoded. It tells the first halves of pairs that follow
one another. -/
def encodingMessage (before : String) (half : Nat) (after : List CodePoint) : String :=
  let first := before.length
  let place :=
    match (after.takeWhile CodePoint.isHalf).length with
    | 0 =>
      "character '\\u" ++ String.ofList (Nat.toDigits 16 half) ++ "' in position " ++ toString first
    | more + 1 => "characters in position " ++ toString first ++ "-" ++ toString (first + more + 1)
  "'utf-8' codec can't encode " ++ place ++ ": surrogates not allowed"

end NestLayers.Text

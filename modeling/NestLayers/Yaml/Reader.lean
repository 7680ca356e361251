import NestLayers.Yaml.Lexer
import NestLayers.Yaml.Node

/-!
# Reading a settings file

A settings file is a YAML document. Its flaws are found from the outside in: one in an outer
collection counts before one in a collection within it.
-/

namespace NestLayers.Yaml

/-- A flaw and the number of collections around it. -/
abbrev PlacedFlaw := Nat × Flaw

/-- The value of a key. A lone equals sign is text; collections are no keys. -/
def Node.key (depth : Nat) : Node → Scalar × List PlacedFlaw
  | .scalar .equals text => (.text text, [])
  | .scalar tag text =>
    match tag.scalar text with
    | .ok key => (key, [])
    | .error flaw => (.null, [(depth, flaw)])
  | .list _ _ | .mapping _ _ => (.null, [(depth, .invalid)])

/-- Whether a node is the key of values that are merged into a mapping. -/
def Node.isMerge : Node → Bool
  | .scalar tag _ | .list tag _ | .mapping tag _ => tag = .merge

/-- The entries of a mapping in order, those merged into it first. -/
structure Entries where
  merged : List (Scalar × Value) := []
  own : List (Scalar × Value) := []
  flaws : List PlacedFlaw := []

/-- The entries with each key once. Own entries win over merged ones, and later ones over
earlier ones. -/
def Entries.unique (e : Entries) : List (Scalar × Value) :=
  (e.merged ++ e.own).foldl (fun entries entry => setEntry entries entry.1 entry.2) []

mutual

/-- The value of a node, and its flaws. `depth` is the number of collections around it. -/
def Node.build (depth : Nat) : Node → Value × List PlacedFlaw
  | .scalar tag text =>
    match tag.scalar text with
    | .ok value => (.scalar value, [])
    | .error flaw => (.scalar .null, [(depth, flaw)])
  | .list tag items =>
    if tag = .list then
      let (values, flaws) := buildItems (depth + 1) items
      (.list values, flaws)
    else (.scalar .null, [(depth, .invalid)])
  | .mapping tag entries =>
    if tag = .mapping then
      let built := buildEntries (depth + 1) entries
      (.mapping built.unique, built.flaws)
    else (.scalar .null, [(depth, .invalid)])

/-- The values of some nodes, and their flaws. -/
def buildItems (depth : Nat) : List Node → List Value × List PlacedFlaw
  | [] => ([], [])
  | item :: items =>
    let (value, flaws) := item.build depth
    let (values, further) := buildItems depth items
    (value :: values, flaws ++ further)

/-- The entries of a mapping, and their flaws. -/
def buildEntries (depth : Nat) : List (Node × Node) → Entries
  | [] => {}
  | (key, value) :: entries =>
    let rest := buildEntries depth entries
    if key.isMerge then
      let (merged, flaws) := mergedEntries depth value
      { rest with merged := merged ++ rest.merged, flaws := flaws ++ rest.flaws }
    else
      let (key, keyFlaws) := key.key depth
      let (value, flaws) := value.build depth
      { rest with own := (key, value) :: rest.own, flaws := keyFlaws ++ flaws ++ rest.flaws }

/-- The entries that a node merges into a mapping: a mapping's own, or those of a list of
mappings, of which the first one counts most. -/
def mergedEntries (depth : Nat) : Node → List (Scalar × Value) × List PlacedFlaw
  | .scalar _ _ => ([], [(depth, .invalid)])
  | .mapping _ entries =>
    let built := buildEntries depth entries
    (built.unique, built.flaws)
  | .list _ items => mergedItems depth items

/-- The entries that a list of mappings merges into a mapping. -/
def mergedItems (depth : Nat) : List Node → List (Scalar × Value) × List PlacedFlaw
  | [] => ([], [])
  | .mapping _ entries :: items =>
    let built := buildEntries depth entries
    let (others, flaws) := mergedItems depth items
    (others ++ built.unique, built.flaws ++ flaws)
  | _ :: _ => ([], [(depth, .invalid)])

end

/-- The outermost of some flaws, and of several the first. -/
def outermost? : List PlacedFlaw → Option PlacedFlaw
  | [] => none
  | flaw :: flaws =>
    match outermost? flaws with
    | some other => if other.1 < flaw.1 then some other else some flaw
    | none => some flaw

/-- Reads a settings file. A text without a document has the value of nothing. -/
def read (text : String) : Except Flaw Value :=
  let cs := text.toList
  if !cs.all isAllowed then .error .invalid
  else do
    match Node.ofTokens? (← tokenize cs) with
    | none => .error .invalid
    | some none => .ok (.scalar .null)
    | some (some node) =>
      let (value, flaws) := node.build 0
      match outermost? flaws with
      | some (_, flaw) => .error flaw
      | none => .ok value

end NestLayers.Yaml

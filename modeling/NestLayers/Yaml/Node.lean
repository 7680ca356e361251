import NestLayers.Yaml.Scalar
import NestLayers.Yaml.Token

/-!
# From tokens to nodes

A document is a tree of nodes with tags. An anchor names a node, and a reference to it stands
for the node; within the node itself it stands for an empty one of the same kind.
-/

namespace NestLayers.Yaml

/-- A part of a document. -/
inductive Node
  | scalar (tag : Tag) (text : String)
  | list (tag : Tag) (items : List Node)
  | mapping (tag : Tag) (entries : List (Node × Node))
  deriving Repr

namespace Node

/-- The node of nothing. -/
def empty : Node :=
  .scalar .null ""

/-- How far tokens are put together. -/
structure Builder where
  tokens : List Token
  anchors : List (String × Node) := []
  /-- What the short forms of tags stand for. -/
  shorthands : List (String × String) := []

/-- Work on the tokens of a document; there is no result if they do not make up one. -/
abbrev Build := StateT Builder Option

/-- The next token. -/
def peek : Build (Option Token) :=
  return (← get).tokens.head?

/-- Moves over a token. -/
def skip : Build Unit :=
  modify fun b => { b with tokens := b.tokens.tail }

/-- Whether the next token is one of some. -/
def sees (tokens : List Token) : Build Bool :=
  return (← peek).any tokens.contains

/-- Moves over a token that must come next. -/
def expect (token : Token) : Build Unit := do
  if ← sees [token] then skip else failure

/-- Moves over a token, if it comes next. -/
def accept (token : Token) : Build Bool := do
  let found ← sees [token]
  if found then skip
  return found

/-- What stands before the content of a node. -/
structure Properties where
  anchor : Option String := none
  /-- The full name of a tag. -/
  tag : Option String := none

/-- Reads an anchor, if one comes next. -/
def readAnchor : Build (Option String) := do
  match ← peek with
  | some (.anchor name) =>
    skip
    return some name
  | _ => return none

/-- Reads a tag, if one comes next. A short form must be known. -/
def readTag : Build (Option String) := do
  match ← peek with
  | some (.tag none suffix) =>
    skip
    return some suffix
  | some (.tag (some handle) suffix) =>
    skip
    match (← get).shorthands.lookup handle with
    | some start => return some (start ++ suffix)
    | none => failure
  | _ => return none

/-- Reads an anchor and a tag in either order. An anchor must be new. -/
def readProperties : Build Properties := do
  let first ← readAnchor
  let tag ← readTag
  let anchor ← if first.isSome then pure first else if tag.isSome then readAnchor else pure none
  let anchors := (← get).anchors
  if anchor.any fun name => (anchors.lookup name).isSome then failure
  else return { anchor, tag }

namespace Properties

/-- The tag of a collection. The lone exclamation mark leaves it open. -/
def collectionTag (p : Properties) (default : Tag) : Tag :=
  match p.tag with
  | none | some "!" => default
  | some name => .ofName name

/-- The tag of a scalar. Without a tag its style decides. -/
def scalarTag (p : Properties) (text : String) (style : Style) : Tag :=
  match p.tag, style with
  | none, .plain | some "!", .plain | some "!", .quoted => .ofPlain text
  | none, .quoted => .text
  | none, .garbled | some "!", .garbled => .garbled
  | some name, _ => .ofName name

/-- The node of a missing content. -/
def emptyNode (p : Properties) : Node :=
  .scalar (p.scalarTag "" .plain) ""

end Properties

/-- Names a node by an anchor, if there is one. -/
def label (anchor : Option String) (node : Node) : Build Node := do
  if let some anchor := anchor then
    modify fun b => { b with anchors := (anchor, node) :: b.anchors }
  return node

/-- Reads a collection, which is empty to references within itself. -/
def labelled (anchor : Option String) (opened : Node) (read : Build Node) : Build Node := do
  let _ ← label anchor opened
  label anchor (← read)

/-- The node of a content that is missing after an anchor or a tag. -/
def missing (p : Properties) : Build Node :=
  if p.anchor.isSome || p.tag.isSome then label p.anchor p.emptyNode else failure

mutual

/-- Reads a node. Block collections are read where `block` allows them, and a list without
indentation where `aligned` does. -/
def readNode (fuel : Nat) (block aligned : Bool) : Build Node := do
  match fuel with
  | 0 => failure
  | fuel + 1 =>
    if let some (.reference anchor) ← peek then
      skip
      (← get).anchors.lookup anchor
    else
      let p ← readProperties
      let listTag := p.collectionTag .list
      let mappingTag := p.collectionTag .mapping
      match ← peek, block, aligned with
      | some (.scalar text style), _, _ =>
        skip
        label p.anchor (.scalar (p.scalarTag text style) text)
      | some .listStart, _, _ =>
        skip
        labelled p.anchor (.list listTag []) do
          return .list listTag (← readFlowItems fuel true)
      | some .mappingStart, _, _ =>
        skip
        labelled p.anchor (.mapping mappingTag []) do
          return .mapping mappingTag (← readFlowEntries fuel true)
      | some .dash, _, true =>
        labelled p.anchor (.list listTag []) do
          return .list listTag (← readAligned fuel)
      | some .blockList, true, _ =>
        skip
        labelled p.anchor (.list listTag []) do
          return .list listTag (← readItems fuel)
      | some .blockMapping, true, _ =>
        skip
        labelled p.anchor (.mapping mappingTag []) do
          return .mapping mappingTag (← readEntries fuel)
      | _, _, _ => missing p

/-- Reads a node, unless one of some tokens comes next. -/
def readOptional (fuel : Nat) (block aligned : Bool) (ends : List Token) : Build Node := do
  match fuel with
  | 0 => failure
  | fuel + 1 => if ← sees ends then return .empty else readNode fuel block aligned

/-- Reads the items of a block list and its end. -/
def readItems (fuel : Nat) : Build (List Node) := do
  match fuel with
  | 0 => failure
  | fuel + 1 =>
    if ← accept .dash then
      let item ← readOptional fuel true false [.dash, .blockEnd]
      return item :: (← readItems fuel)
    else
      expect .blockEnd
      return []

/-- Reads the items of a block list without indentation. -/
def readAligned (fuel : Nat) : Build (List Node) := do
  match fuel with
  | 0 => failure
  | fuel + 1 =>
    if ← accept .dash then
      let item ← readOptional fuel true false [.dash, .key, .colon, .blockEnd]
      return item :: (← readAligned fuel)
    else return []

/-- Reads the entries of a block mapping and its end. Key and value may be missing. -/
def readEntries (fuel : Nat) : Build (List (Node × Node)) := do
  match fuel with
  | 0 => failure
  | fuel + 1 =>
    if ← accept .key then
      let key ← readOptional fuel true true [.key, .colon, .blockEnd]
      let value ←
        if ← accept .colon then readOptional fuel true true [.key, .colon, .blockEnd]
        else pure .empty
      return (key, value) :: (← readEntries fuel)
    else
      expect .blockEnd
      return []

/-- Reads an entry after its key indicator, inside a flow collection with a closing token. -/
def readPair (fuel : Nat) (closing : Token) : Build (Node × Node) := do
  match fuel with
  | 0 => failure
  | fuel + 1 =>
    let key ← readOptional fuel false false [.colon, .comma, closing]
    let value ←
      if ← accept .colon then readOptional fuel false false [.comma, closing] else pure .empty
    return (key, value)

/-- Reads the items of a flow list and its end. An entry among them is a mapping of its own. -/
def readFlowItems (fuel : Nat) (first : Bool) : Build (List Node) := do
  match fuel with
  | 0 => failure
  | fuel + 1 =>
    if ← accept .listEnd then return []
    else
      if !first then expect .comma
      if ← accept .key then
        let pair ← readPair fuel .listEnd
        return .mapping .mapping [pair] :: (← readFlowItems fuel false)
      else if ← accept .listEnd then return []
      else
        let item ← readNode fuel false false
        return item :: (← readFlowItems fuel false)

/-- Reads the entries of a flow mapping and its end. A node alone is a key without a value. -/
def readFlowEntries (fuel : Nat) (first : Bool) : Build (List (Node × Node)) := do
  match fuel with
  | 0 => failure
  | fuel + 1 =>
    if ← accept .mappingEnd then return []
    else
      if !first then expect .comma
      if ← accept .key then
        let pair ← readPair fuel .mappingEnd
        return pair :: (← readFlowEntries fuel false)
      else if ← accept .mappingEnd then return []
      else
        let key ← readNode fuel false false
        return (key, .empty) :: (← readFlowEntries fuel false)

end

/-- The short forms of tags that are always known. -/
def standardShorthands : List (String × String) :=
  [("!", "!"), ("!!", Tag.standard)]

/-- Reads the directives before a document. There is at most one version, which must be of the
first kind, and a short form is declared once. -/
def readDirectives (versioned : Bool) (known : List (String × String)) :
    (fuel : Nat) → Build (Bool × List (String × String))
  | 0 => return (versioned, known)
  | fuel + 1 => do
    match ← peek with
    | some (.version major) =>
      if versioned || major != 1 then failure
      else
        skip
        readDirectives true known fuel
    | some (.shorthand handle start) =>
      if (known.lookup handle).isSome then failure
      else
        skip
        readDirectives versioned ((handle, start) :: known) fuel
    | some .directive =>
      skip
      readDirectives versioned known fuel
    | _ => return (versioned, known)

/-- Moves over the ends of documents. -/
def skipEnds : (fuel : Nat) → Build Unit
  | 0 => return
  | fuel + 1 => do if ← accept .documentEnd then skipEnds fuel

/-- Whether a token is a directive. -/
def isDirective : Token → Bool
  | .version _ | .shorthand _ _ | .directive => true
  | _ => false

/-- Reads the one document of a text, or nothing if there is none. -/
def readDocument (fuel : Nat) : Build (Option Node) := do
  match ← peek with
  | none => return none
  | some token =>
    let node ←
      if isDirective token || token = .documentStart then do
        let (_, declared) ← readDirectives false [] fuel
        modify ({ · with shorthands := declared ++ standardShorthands })
        expect .documentStart
        let next ← peek
        if next.all fun t => isDirective t || t = .documentStart || t = .documentEnd then
          pure .empty
        else readNode fuel true false
      else do
        modify ({ · with shorthands := standardShorthands })
        readNode fuel true false
    skipEnds fuel
    if (← peek).isSome then failure else return some node

/-- The node of a text that has one document; a text may also have none. -/
def ofTokens? (tokens : List Token) : Option (Option Node) :=
  let fuel := 4 * tokens.length + 4
  ((readDocument fuel).run { tokens }).map (·.1)

end Node

end NestLayers.Yaml

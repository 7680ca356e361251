import NestLayers.Text.Search

/-!
# The registry of models

The names of all models of a project. A field whose type is a registered model is a
relation; any other field is a scalar. The aggregate models are those that the info layer
serves, and are among the registered ones.
-/

namespace NestLayers

/-- The names of the models of a project, each once, and those of the aggregate models. -/
structure Registry where
  names : List String := []
  aggregates : List String := []
  deriving DecidableEq, Repr

namespace Registry

/-- Whether a name is that of a model. -/
def contains (registry : Registry) (name : String) : Bool :=
  registry.names.contains name

/-- Whether a name is that of an aggregate model. -/
def isAggregate (registry : Registry) (name : String) : Bool :=
  registry.aggregates.contains name

/-- Registers a model, as an aggregate one or not. -/
def insert (registry : Registry) (name : String) (aggregate : Bool) : Registry :=
  { names := Text.firstOccurrences (registry.names ++ [name])
    aggregates :=
      if aggregate then Text.firstOccurrences (registry.aggregates ++ [name])
      else registry.aggregates }

/-- The registry of given names, or the aggregate names that are not among the names, in
order. -/
def ofNames (names aggregates : List String) : Except (List String) Registry :=
  let stray := Text.inOrder ((Text.firstOccurrences aggregates).filter (!names.contains ·))
  if stray.isEmpty then
    .ok ⟨Text.firstOccurrences names, Text.firstOccurrences aggregates⟩
  else .error stray

end Registry

end NestLayers

import NestLayers.Directive
import NestLayers.FieldLine.Basic
import NestLayers.Registry
import NestLayers.Representation

/-!
# Model definitions

A definition unit declares one model. Its members are scalar fields and relations to other
models, in the order of their lines.
-/

namespace NestLayers

/-- A scalar or enumeration field of a model. -/
structure Field where
  name : String
  type : Representation
  isArray : Bool
  isId : Bool
  isRequired : Bool
  tags : Tagging
  description : String
  unknownDirectives : List String
  deriving DecidableEq, Repr

/-- A relation to another model. -/
structure Relation where
  name : String
  /-- The scalar field that stores the relation, where the relation names one. -/
  relationId : Option String
  model : String
  type : Representation
  isArray : Bool
  isRequired : Bool
  description : String
  deriving DecidableEq, Repr

/-- A member of a model. -/
inductive Member
  | field (f : Field)
  | relation (r : Relation)
  deriving DecidableEq, Repr

/-- The two places that definition units are read from. -/
inductive Location
  | primary
  | aggregate
  deriving DecidableEq, Repr

/-- The name under which a location is reported. -/
def Location.name : Location → String
  | .primary => "primary"
  | .aggregate => "aggregate"

/-- A model as its definition unit declares it. -/
structure Definition where
  name : String
  description : String
  fields : List Field
  relations : List Relation
  fileId : String
  location : Location
  deriving DecidableEq, Repr

/-- The scalar field that a member is. -/
def Member.field? : Member → Option Field
  | .field f => some f
  | .relation _ => none

/-- The relation that a member is. -/
def Member.relation? : Member → Option Relation
  | .field _ => none
  | .relation r => some r

/-- What a field line declares: a relation if its type is a registered model, a scalar field
otherwise. -/
def FieldLine.member (registry : Registry) (line : FieldLine) : Member :=
  let comment := FieldComment.read line.comment
  if registry.contains line.typeName then
    .relation
      { name := line.name
        relationId := line.relationId?
        model := line.typeName
        type := Representation.ofRelation line.typeName
        isArray := line.isArray
        isRequired := !line.isOptional
        description := comment.description }
  else
    .field
      { name := line.name
        type := Representation.ofDeclared line.typeName line.isArray
        isArray := line.isArray
        isId := line.hasAttribute "@id"
        isRequired := !line.isOptional
        tags := comment.tags
        description := comment.description
        unknownDirectives := comment.unknown }

/-- A truth value as messages write it. -/
def truth (b : Bool) : String :=
  if b then "True" else "False"

/-- A field in one line of a message. -/
def Field.summary (f : Field) : String :=
  "<Field " ++ f.name ++ " " ++ f.type.storage ++ (if f.isId then " ID" else "") ++
    (if f.isRequired then "" else " NULL") ++ ">"

/-- A relation in one line of a message. -/
def Relation.summary (r : Relation) : String :=
  "<Join " ++ r.name ++ " -> " ++ r.model ++ (if r.isArray then "[]" else "") ++ " via " ++
    r.relationId.getD "None" ++ ">"

namespace Definition

/-- Whether the model has a scalar field `deletedAt`, so that records are marked as deleted
and not removed. -/
def isSoftDeletable (d : Definition) : Bool :=
  d.fields.any (·.name == "deletedAt")

/-- The identifier fields. -/
def idFields (d : Definition) : List Field :=
  d.fields.filter (·.isId)

/-- The identifier field, if there is exactly one. -/
def idField? (d : Definition) : Option Field :=
  match d.idFields with
  | [f] => some f
  | _ => none

/-- The first scalar field of a name. -/
def fieldNamed? (d : Definition) (name : String) : Option Field :=
  d.fields.find? (·.name == name)

/-- What a message about the definition gives as its place. -/
def place (d : Definition) : String :=
  if d.fileId = "" then d.name else d.fileId

/-- A definition in one line of a message. -/
def summary (d : Definition) : String :=
  "<ParsedSchema " ++ d.name ++ " fields=" ++ toString d.fields.length ++ " joins=" ++
    toString d.relations.length ++ " soft_delete=" ++ truth d.isSoftDeletable ++ ">"

end Definition

end NestLayers

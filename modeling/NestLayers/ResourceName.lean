import NestLayers.Directive
import NestLayers.Naming

/-!
# Resource names

Everything generated for a resource is named after one word. `ResourceName.ofWord` derives
all of its forms at once. A word that holds the management marker names the management side
of the resource without it; the forms without the marker are the base forms.
-/

namespace NestLayers

open NestLayers.Text NestLayers.Naming

/-- All forms of the name of a resource. -/
structure ResourceName where
  camel : String
  pascal : String
  kebab : String
  camelBase : String
  pascalBase : String
  kebabBase : String
  isManagement : Bool
  deriving DecidableEq, Repr

/-- The marker of management resources, unless the settings say otherwise. -/
def defaultManagementMarker : String := "Management"

/-- Derives the forms of a name. The marker is looked for in the camel-case form, and removed
from each form at its first occurrence there. -/
def ResourceName.ofWord (marker word : String) : ResourceName :=
  let camel := uncapitalize (trim word)
  let pascal := capitalize camel
  let camelBase := withoutMarker marker camel
  { camel
    pascal
    kebab := Naming.kebab camel
    camelBase
    pascalBase := withoutMarker marker pascal
    kebabBase := Naming.kebab camelBase
    isManagement := occursIn marker.toList camel.toList }

/-- The profile whose tags shape the resource. -/
def ResourceName.profile (name : ResourceName) : Profile :=
  if name.isManagement then .management else .standard

/-- The definition unit that stands behind the resource. -/
def ResourceName.definitionId (name : ResourceName) : String :=
  name.kebabBase

end NestLayers

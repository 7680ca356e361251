import Mathlib.Tactic.Common
import NestLayers.Definition.Reader
import NestLayers.Layer.Model
import NestLayers.Layer.ResponseContract

/-!
# What responses leave out of a model

A response names the properties that it leaves out of its model. They come from the tags of the
fields, while the class of the model is made without the excluded fields. So the names and the
class agree on every field that is not excluded, and on no other one.
-/

namespace NestLayers.Layer

open NestLayers.TypeScript

variable {conventions : Conventions} {d : Definition} {profile : Profile} {action : Action}
  {name : String}

/-- The class of a model has a property for every field that is not excluded. -/
theorem Model.mem_properties_classOf :
    name ∈ (Model.classOf conventions d).properties.map (·.name) ↔
      name ∈ d.fields.map (·.name) ∧ name ∉ conventions.excluded := by
  have hproperties : (Model.classOf conventions d).properties =
      (d.fields.filter (!conventions.excluded.contains ·.name)).map Model.property := by
    simp [Model.classOf, ClassDecl.properties, Section.declaredProperties]
  have hname : (fun f => (Model.property f).name) = Field.name := rfl
  rw [hproperties, List.map_map, Function.comp_def, hname]
  simp only [List.mem_map, List.mem_filter, Bool.not_eq_true', List.contains_eq_mem,
    decide_eq_false_iff_not]
  constructor
  · rintro ⟨f, ⟨hf, hexcluded⟩, rfl⟩
    exact ⟨⟨f, hf, rfl⟩, hexcluded⟩
  · rintro ⟨⟨f, hf, rfl⟩, hexcluded⟩
    exact ⟨f, ⟨hf, hexcluded⟩, rfl⟩

/-- What a response leaves out is a field of the model. -/
theorem ResponseContract.mem_fields_of_mem_omittedFields
    (h : name ∈ ResponseContract.omittedFields d profile action) :
    name ∈ d.fields.map (·.name) := by
  unfold ResponseContract.omittedFields at h
  split at h
  · cases h
  · exact List.map_subset _ List.filter_sublist.subset h

/-- The class that a response is made from leaves the named fields out. -/
theorem ResponseContract.mem_classes_source (n : ResourceName) (d : Definition) (profile : Profile)
    (action : Action) :
    ResponseContract.omitting (n.pascal ++ action.pascal ++ "Model") d.name
        (ResponseContract.omittedFields d profile action) [] ∈
      (ResponseContract.source n d profile action).source.classes :=
  -- it comes second, behind the class of the response itself
  List.mem_cons_of_mem _ List.mem_cons_self

/-- **Responses leave out what their models have.** The class behind a response is the class of
the model without some properties. Each of them is declared by the class of the model, unless it
is an excluded field, which no class of a model declares. -/
theorem omitted_isProperty_iff_not_excluded (conventions : Conventions) (n : ResourceName)
    (d : Definition) (profile : Profile) (action : Action) :
    ∃ model ∈ (Model.source conventions d).source.classes,
      ∃ response ∈ (ResponseContract.source n d profile action).source.classes,
        model.name = Conventions.modelClass d.name ∧
        response.heritage = " extends OmitType(" ++ model.name ++ ", [" ++
          String.intercalate ", "
            ((ResponseContract.omittedFields d profile action).map literal) ++ "])" ∧
        ∀ name ∈ ResponseContract.omittedFields d profile action,
          name ∈ model.properties.map (·.name) ↔ name ∉ conventions.excluded := by
  refine ⟨Model.classOf conventions d, ?_, _,
    ResponseContract.mem_classes_source n d profile action, rfl, rfl, ?_⟩
  · simp [Model.source, SourceFile.ofClass, SourceFile.classes, SourceFile.declarations,
      Declaration.class?]
  · intro name hname
    rw [Model.mem_properties_classOf]
    exact and_iff_right (ResponseContract.mem_fields_of_mem_omittedFields hname)

/-- The unit of customers, whose passwords are in no response. -/
def customerUnit : String :=
  "// Customer\nmodel Customer \x7b\n  id Int @id // Number\n" ++
    "  password String // Password#CR#FU#FL\n\x7d\n"

/-- The model that the unit of customers declares. -/
def customerDefinition : Definition where
  name := "Customer"
  description := "Customer"
  fields :=
    [{ name := "id", type := .ofDeclared "Int" false, isArray := false, isId := true
       isRequired := true, tags := {}, description := "Number", unknownDirectives := [] },
     { name := "password", type := .ofDeclared "String" false, isArray := false, isId := false
       isRequired := true
       tags := { standard :=
        { create := some .createRequired, findUnique := some .responseExpose
          findList := some .responseExpose } }
       description := "Password", unknownDirectives := [] }]
  relations := []
  fileId := "customer"
  location := .primary

/-- A password that is excluded from all models is still left out of the class of its model. -/
theorem excluded_password_is_omitted :
    Definition.parse {} "customer" .primary customerUnit = .ok customerDefinition ∧
      "password" ∈ ResponseContract.omittedFields customerDefinition .standard .findUnique ∧
      "password" ∉ (Model.classOf { excluded := ["password"] } customerDefinition).properties.map
        (·.name) :=
  ⟨by decide +kernel, by decide, by decide⟩

end NestLayers.Layer

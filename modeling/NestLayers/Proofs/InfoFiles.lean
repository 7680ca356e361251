import NestLayers.Layer.Info
import NestLayers.Proofs.PackageClosure

/-!
# The files of the info layer

The classes of the info layer are put together from what was read off the aggregate definitions, so
that no line of them starts an import. Only the imports of the controller hold other text: the names
of the files that the definitions were read from.
-/

namespace NestLayers

open NestLayers.Text NestLayers.Naming NestLayers.TypeScript

/-- A small first letter brings no new characters below the letters. -/
theorem notMem_uncapitalize {name : String} {x : Char} (hlow : 0 < x.toNat) (hhigh : x.toNat < 65)
    (h : x ∉ name.toList) : x ∉ (uncapitalize name).toList := by
  unfold uncapitalize
  split
  · simp
  · rename_i c rest hchars
    rw [hchars] at h
    rw [String.toList_ofList]
    intro hmem
    rcases List.mem_append.mp hmem with hmem | hmem
    · have hfirst := mem_of_mem_lowerChars hlow hhigh hmem
      exact h (List.mem_singleton.mp hfirst ▸ List.mem_cons_self)
    · exact h (List.mem_cons_of_mem _ hmem)

/-- The name with a small first letter is one line if the name is. -/
theorem isOneLine_uncapitalize {name : String} (h : IsOneLine name) :
    IsOneLine (uncapitalize name) :=
  notMem_uncapitalize (by decide) (by decide) h

/-- No character comes in when a marker goes. -/
theorem notMem_withoutMarker (marker : String) {name : String} {x : Char} (h : x ∉ name.toList) :
    x ∉ (withoutMarker marker name).toList := by
  rw [withoutMarker, String.toList_ofList]
  exact fun hmem => h (mem_of_mem_eraseFirst hmem)

namespace Layer.Info

/-- A finder whose texts are one line each. -/
structure Finder.IsPlain (f : Finder) : Prop where
  definition : f.definition.IsPlain
  word : IsOneLine f.word
  segment : IsOneLine f.segment
  key : ∀ key ∈ f.key, key.IsPlain
  included : ∀ r ∈ f.included,
    IsOneLine r.name ∧ IsModelName r.model.toList ∧ IsOneLine r.description

/-- The finder of a definition that is read is plain. -/
theorem isPlain_ofDefinition (conventions : Conventions) (aggregates : List String)
    {registry : Registry} {fileId text : String} {location : Location} {d : Definition}
    (h : Definition.parse registry fileId location text = .ok d) :
    (Finder.ofDefinition conventions aggregates d).IsPlain := by
  have hd := Definition.isPlain_of_parse h
  have hroute : IsOneLine (routeName conventions d) :=
    notMem_withoutMarker _ (isOneLine_of_isWord hd.name.2)
  have hword : IsOneLine (uncapitalize (routeName conventions d)) := isOneLine_uncapitalize hroute
  have hkebab : IsOneLine (modelKebab (routeName conventions d)) :=
    notMem_modelKebab (by decide) (by decide) (by decide) hroute
  have hsegment : IsOneLine ("/" ++ plural (modelKebab (routeName conventions d))) :=
    isOneLine_append.mpr ⟨by decide, isOneLine_plural hkebab⟩
  refine ⟨hd, hword, hsegment, fun key hkey => ?_, fun r hr => ?_⟩
  · obtain ⟨⟨r, field⟩, hfilter, rfl⟩ := Option.map_eq_some_iff.mp hkey
    unfold filter? at hfilter
    split at hfilter
    · obtain ⟨_, hfield, heq⟩ := Option.map_eq_some_iff.mp hfilter
      obtain ⟨-, rfl⟩ := Prod.mk.inj heq
      exact hd.fields _ (List.mem_of_find?_eq_some hfield)
    · cases hfilter
  · obtain ⟨-, hname, hmodel, hdescription⟩ :=
      Definition.of_mem_relations h (List.mem_filter.mp hr).1
    exact ⟨hname.isOneLine, hmodel.isModelName, hdescription⟩

namespace Finder.IsPlain

variable {f : Finder}

private theorem isOneLine_name (h : f.IsPlain) : IsOneLine f.definition.name :=
  isOneLine_of_isWord h.definition.name.2

private theorem isOneLine_parameter (h : f.IsPlain) :
    IsOneLine f.parameter ∧ IsOneLine f.argument := by
  unfold parameter argument
  cases hkey : f.key with
  | none => exact ⟨isOneLine_empty, isOneLine_empty⟩
  | some key =>
    obtain ⟨hname, htype, -⟩ := (h.key key hkey).isOneLine
    refine ⟨?_, hname⟩
    simp only [isOneLine_append, hname, htype, and_true, true_and]
    decide

private theorem isOneLine_query (h : f.IsPlain) : IsOneLine f.query := by
  have hbraced {text : String} (htext : IsOneLine text) : IsOneLine (braced text) := by
    unfold braced
    simp only [isOneLine_append, htext, and_true]
    decide
  have hnarrowing : ∀ part ∈ f.key.toList.map fun key => "where: " ++ braced key.name,
      IsOneLine part := by
    intro part hpart
    obtain ⟨key, hkey, rfl⟩ := List.mem_map.mp hpart
    exact isOneLine_append.mpr
      ⟨by decide, hbraced (h.key key (Option.mem_toList.mp hkey)).isOneLine.1⟩
  have hincluding : ∀ part ∈ if f.included.isEmpty then []
      else ["include: " ++ braced (String.intercalate ", " (f.included.map (·.name ++ ": true")))],
      IsOneLine part := by
    split
    · simp
    · refine List.forall_mem_singleton.mpr (isOneLine_append.mpr ⟨by decide, hbraced ?_⟩)
      refine isOneLine_intercalate (by decide) (List.forall_mem_map.mpr fun r hr => ?_)
      exact isOneLine_append.mpr ⟨(h.included r hr).1, by decide⟩
  have hseparator : IsOneLine ", " := by decide
  have hparts := List.forall_mem_append.mpr ⟨hnarrowing, hincluding⟩
  unfold query
  dsimp only
  generalize (f.key.toList.map fun key => "where: " ++ braced key.name) ++ _ = parts at hparts ⊢
  split
  · exact isOneLine_empty
  · exact hbraced (isOneLine_intercalate hseparator hparts)

private theorem areLines_repositoryMethod (h : f.IsPlain) : AreLines f.repositoryMethod.texts := by
  simp only [AreLines, repositoryMethod, method, repositoryName, Method.texts, Statement.texts,
    List.forall_mem_append, List.forall_mem_cons, List.flatMap_cons, List.flatMap_nil,
    List.append_nil, Option.toList_some, Option.toList_none, isOneLine_append, h.word,
    h.isOneLine_parameter, h.isOneLine_query, h.definition.description, List.not_mem_nil,
    false_implies, implies_true, and_true, true_and]
  decide

private theorem areLines_serviceMethod (h : f.IsPlain) : AreLines f.serviceMethod.texts := by
  simp only [AreLines, serviceMethod, method, Method.texts, Statement.texts,
    List.forall_mem_append, List.forall_mem_cons, List.flatMap_cons, List.flatMap_nil,
    List.append_nil, Option.toList_some, Option.toList_none, isOneLine_append, isOneLine_literal,
    h.word, h.isOneLine_parameter, h.definition.description, List.not_mem_nil, false_implies,
    implies_true, and_true, true_and]
  decide

private theorem areLines_controllerMethod (h : f.IsPlain) : AreLines f.controllerMethod.texts := by
  have hparameter :
      IsOneLine (if f.key.isSome then "@Query() query: " ++ f.requestClass else "") := by
    split
    · simp only [requestClass, isOneLine_append, h.isOneLine_name, true_and]
      decide
    · exact isOneLine_empty
  have hargument : IsOneLine (if f.key.isSome then "query." ++ f.argument else "") := by
    split
    · exact isOneLine_append.mpr ⟨by decide, h.isOneLine_parameter.2⟩
    · exact isOneLine_empty
  simp only [AreLines, controllerMethod, method, responseClass, Method.texts, Decorator.texts,
    Statement.texts, List.forall_mem_append, List.forall_mem_cons, List.flatMap_cons,
    List.flatMap_nil, List.append_nil, Option.toList_some, Option.toList_none, isOneLine_append,
    isOneLine_literal, h.word, h.segment, h.isOneLine_name, hparameter, hargument,
    h.definition.description, List.not_mem_nil, false_implies, implies_true, and_true, true_and]
  and_intros <;> decide

end Finder.IsPlain

/-! ## Files -/

/-- A source file with one plain class has no import besides its imports. -/
theorem noImport_ofClass {imports : Imports} {c : ClassDecl} (hc : c.IsPlain) :
    ∀ g ∈ (SourceFile.ofClass imports c).groups, ∀ line ∈ g.lines, NoImport line :=
  List.forall_mem_singleton.mpr (Group.noImport _ (by simp) (List.forall_mem_singleton.mpr hc))

/-- A source file with a decorated class whose texts are one line each. -/
theorem noImport_decorated {imports : Imports} {decorator : Decorator} {name : String}
    {sections : List Section} (hdecorator : AreLines decorator.texts) (hname : IsOneLine name)
    (hsections : ∀ s ∈ sections, AreLines s.texts) :
    ∀ g ∈ (SourceFile.ofClass imports { decorators := [decorator], name, sections }).groups,
      ∀ line ∈ g.lines, NoImport line :=
  noImport_ofClass (ClassDecl.hasTexts_decorated hdecorator hname hsections).isPlain

private theorem areLines_fields {fs : List Finder} {line : Finder → String}
    (h : ∀ f ∈ fs, IsOneLine (line f)) : AreLines (Section.fields (fs.map line)).texts :=
  List.forall_mem_map.mpr h

private theorem areLines_methods {fs : List Finder} {method : Finder → Method}
    (h : ∀ f ∈ fs, AreLines (method f).texts) :
    AreLines (Section.methods (fs.map method)).texts := by
  intro text htext
  obtain ⟨m, hm, htext⟩ := List.mem_flatMap.mp htext
  obtain ⟨f, hf, rfl⟩ := List.mem_map.mp hm
  exact h f hf text htext

/-- The decorator of the controller is one line. -/
theorem areLines_infoController : AreLines (Decorator.mk "ApiController" "\"info\"").texts := by
  unfold AreLines
  decide

variable {fs : List Finder} (hfs : ∀ f ∈ fs, f.IsPlain)
include hfs

/-- The repository consists of lines. -/
theorem areLines_repositorySections :
    ∀ s ∈ [.fields (fs.map Finder.repositoryField), .construct "private prisma: PrismaService",
      .methods (fs.map Finder.repositoryMethod)], AreLines (Section.texts s) := by
  have hfield : ∀ f ∈ fs, IsOneLine f.repositoryField := by
    intro f hf
    have hword := (hfs f hf).word
    have hname := isOneLine_uncapitalize (hfs f hf).isOneLine_name
    simp only [Finder.repositoryField, Finder.repositoryName, isOneLine_append, hword, hname,
      and_true]
    decide
  have hconstruct : AreLines (Section.construct "private prisma: PrismaService").texts := by
    unfold AreLines
    decide
  simp only [List.forall_mem_cons]
  exact ⟨areLines_fields hfield, hconstruct,
    areLines_methods fun f hf => (hfs f hf).areLines_repositoryMethod, by simp⟩

/-- No line of the repository is an import. -/
theorem noImport_repositorySource :
    ∀ g ∈ (repositorySource fs).source.groups, ∀ line ∈ g.lines, NoImport line :=
  noImport_decorated areLines_injectable (by decide) (areLines_repositorySections hfs)

/-- The service consists of lines. -/
theorem areLines_serviceSections :
    ∀ s ∈ [.construct "private infoRepository: InfoRepository",
      .methods (fs.map Finder.serviceMethod)], AreLines (Section.texts s) := by
  have hconstruct :
      AreLines (Section.construct "private infoRepository: InfoRepository").texts := by
    unfold AreLines
    decide
  simp only [List.forall_mem_cons]
  exact ⟨hconstruct, areLines_methods fun f hf => (hfs f hf).areLines_serviceMethod, by simp⟩

/-- No line of the service is an import. -/
theorem noImport_serviceSource :
    ∀ g ∈ (serviceSource fs).source.groups, ∀ line ∈ g.lines, NoImport line :=
  noImport_decorated areLines_injectable (by decide) (areLines_serviceSections hfs)

/-- The controller consists of lines. -/
theorem areLines_controllerSections :
    ∀ s ∈ [.construct "private infoService: InfoService",
      .methods (fs.map Finder.controllerMethod)], AreLines (Section.texts s) := by
  have hconstruct : AreLines (Section.construct "private infoService: InfoService").texts := by
    unfold AreLines
    decide
  simp only [List.forall_mem_cons]
  exact ⟨hconstruct, areLines_methods fun f hf => (hfs f hf).areLines_controllerMethod, by simp⟩

/-- No line of the controller is an import. -/
theorem noImport_controllerSource :
    ∀ g ∈ (controllerSource fs).source.groups, ∀ line ∈ g.lines, NoImport line :=
  noImport_decorated areLines_infoController (by decide) (areLines_controllerSections hfs)

omit hfs

/-- No line of a request is an import. -/
theorem noImport_requestSource (conventions : Conventions) {f : Finder} (h : f.IsPlain) :
    ∀ g ∈ (f.requestSource conventions).groups, ∀ line ∈ g.lines, NoImport line := by
  have hname : IsOneLine f.requestClass := isOneLine_append.mpr ⟨h.isOneLine_name, by decide⟩
  unfold Finder.requestSource
  split
  · exact noImport_ofClass
      (ClassDecl.HasTexts.isPlain ⟨by simp, hname, isOneLine_empty, by simp, by simp⟩)
  · rename_i key hkey
    refine noImport_ofClass (ClassDecl.HasTexts.isPlain ⟨by simp, hname, isOneLine_empty, by simp,
      List.forall_mem_singleton.mpr fun text htext => ?_⟩)
    obtain ⟨p, hp, htext⟩ := List.mem_flatMap.mp htext
    obtain rfl := List.mem_singleton.mp hp
    exact RequestContract.areLines_property (h.key key hkey) false text htext

/-- No text of the members for included relations has a line feed. -/
theorem areLines_included {f : Finder} (h : f.IsPlain) {owner : String} (howner : IsOneLine owner) :
    ∀ s ∈ (if f.included.isEmpty then []
        else [Section.properties (f.included.map (Finder.includedProperty owner))]),
      AreLines s.texts := by
  split
  · simp
  refine List.forall_mem_singleton.mpr fun text htext => ?_
  obtain ⟨p, hp, htext⟩ := List.mem_flatMap.mp htext
  obtain ⟨r, hr, rfl⟩ := List.mem_map.mp hp
  obtain ⟨hname, hmodel, hdescription⟩ := h.included r hr
  have hmodel := isOneLine_of_isWord hmodel.2
  have hnull : IsOneLine (if r.isRequired then "" else " | null") := by
    split <;> decide
  have htexts : AreLines (Finder.includedProperty owner r).texts := by
    simp only [AreLines, Finder.includedProperty, Property.texts, List.forall_mem_append,
      List.forall_mem_cons, List.flatMap_nil, Option.toList_some, isOneLine_append, howner, hname,
      hmodel, hdescription, hnull, List.not_mem_nil, false_implies, implies_true, and_true,
      true_and]
    decide
  exact htexts text htext

/-- The classes of a response contract are plain. -/
theorem isPlain_responseSource {f : Finder} (h : f.IsPlain) :
    ∀ g ∈ f.responseSource.groups,
      (∀ doc ∈ g.doc, IsOneLine doc) ∧ ∀ decl ∈ g.declarations, decl.IsPlain := by
  have hname := h.isOneLine_name
  have howner : IsOneLine (f.definition.name ++ "FindMany") :=
    isOneLine_append.mpr ⟨hname, by decide⟩
  have hmodels : ∀ model ∈ ResponseContract.relatedModels f.included, IsOneLine model := by
    intro model hmodel
    obtain ⟨r, hr, rfl⟩ := List.mem_map.mp (mem_firstOccurrences.mp hmodel)
    exact isOneLine_of_isWord (h.included r hr).2.1.2
  have hdoc {text : String} (htext : IsOneLine text) : ∀ doc ∈ some text, IsOneLine doc :=
    fun _ hmem => Option.some.inj hmem ▸ htext
  have hheritage : IsOneLine (" extends ResponseDto implements ResponseService<InfoService[" ++
      literal f.method ++ "]>") := by
    simp only [Finder.method, isOneLine_append, isOneLine_literal, h.word, true_and]
    decide
  refine List.forall_mem_append.mpr ⟨List.forall_mem_cons.mpr ⟨⟨hdoc (by decide), ?_⟩,
    List.forall_mem_singleton.mpr ⟨hdoc (by decide), ?_⟩⟩,
    ResponseContract.isPlain_includedModels howner hmodels⟩
  · exact List.forall_mem_singleton.mpr (ResponseContract.isPlain_dataClass
      (isOneLine_append.mpr ⟨howner, by decide⟩) hheritage (by simp)
      (isOneLine_append.mpr ⟨howner, by decide⟩))
  · exact List.forall_mem_singleton.mpr (ResponseContract.isPlain_omitting
      (isOneLine_append.mpr ⟨howner, by decide⟩) hname (by simp) (areLines_included h howner))

/-- No line of a response is an import. -/
theorem noImport_responseSource {f : Finder} (h : f.IsPlain) :
    ∀ g ∈ f.responseSource.groups, ∀ line ∈ g.lines, NoImport line :=
  fun g hg => g.noImport (isPlain_responseSource h g hg).1 (isPlain_responseSource h g hg).2

end Layer.Info

end NestLayers

import NestLayers.Layer.Model
import NestLayers.Layer.Rendering
import NestLayers.Proofs.NameCharacters
import NestLayers.Proofs.ParsedDefinition
import NestLayers.Proofs.SourceText

/-!
# The generated classes are plain

The classes of a package are put together from fixed texts, the forms of the resource name, and
what was read off a definition. None of these has a line feed in it, so that a generated member
takes the lines that its shape says and no other.
-/

namespace NestLayers.TypeScript

open NestLayers.Text

/-- The texts that a statement is put together from. -/
def Statement.texts : Statement → List String
  | .blank => []
  | .remark text => [text]
  | .call lead receiver method arguments => [lead, receiver, method, arguments]
  | .other text => [text]

/-- The texts that a decorator is put together from. -/
def Decorator.texts (d : Decorator) : List String :=
  [d.name, d.arguments]

/-- The texts that a method is put together from. -/
def Method.texts (m : Method) : List String :=
  m.doc.toList ++ m.decorators.flatMap Decorator.texts ++ [m.name, m.parameters] ++
    m.result.toList ++ m.body.flatMap Statement.texts

/-- The texts that a property is put together from. -/
def Property.texts (p : Property) : List String :=
  p.doc.toList ++ p.decorators.flatMap Decorator.texts ++ [p.name, p.mark, p.type]

private theorem Statement.isOneLine_line {s : Statement} (h : AreLines s.texts) :
    IsOneLine s.line := by
  have hstep : IsOneLine step := by decide
  cases s with
  | blank => decide
  | remark text =>
    have htext := h text (List.mem_singleton_self text)
    simp only [line, isOneLine_append, hstep, htext, and_true]
    decide
  | other text => exact isOneLine_append.mpr ⟨hstep, h text (List.mem_singleton_self text)⟩
  | call lead receiver method arguments =>
    simp only [AreLines, texts, List.forall_mem_cons] at h
    obtain ⟨hlead, hreceiver, hmethod, harguments, -⟩ := h
    simp only [line, isOneLine_append, hstep, hlead, hreceiver, hmethod, harguments, and_true]
    decide

/-- A decorator stands on one line. -/
theorem Decorator.isOneLine_line {d : Decorator} (h : AreLines d.texts) : IsOneLine d.line := by
  have hname := h d.name List.mem_cons_self
  have harguments := h d.arguments (List.mem_cons_of_mem _ (List.mem_singleton_self _))
  unfold line
  simp only [isOneLine_append, hname, harguments, and_true]
  decide

/-- A comment stands on one line. -/
theorem isOneLine_docComment {text : String} (h : IsOneLine text) : IsOneLine (docComment text) := by
  unfold docComment
  simp only [isOneLine_append, h, and_true]
  decide

/-- The lines above a member are one line each if its texts are. -/
theorem areLines_heading {doc : Option String} {decorators : List Decorator}
    (hdoc : AreLines doc.toList) (hdecorators : AreLines (decorators.flatMap Decorator.texts)) :
    AreLines ((doc.map docComment).toList ++ decorators.map Decorator.line) := by
  intro line hline
  rcases List.mem_append.mp hline with hline | hline
  · obtain ⟨text, htext, rfl⟩ := Option.map_eq_some_iff.mp (Option.mem_toList.mp hline)
    exact isOneLine_docComment (hdoc text (Option.mem_toList.mpr htext))
  · obtain ⟨d, hd, rfl⟩ := List.mem_map.mp hline
    exact Decorator.isOneLine_line fun text htext =>
      hdecorators text (List.mem_flatMap.mpr ⟨d, hd, htext⟩)

/-- The lines of a method are one line each if its texts are. -/
theorem Method.areLines_lines {m : Method} (h : AreLines m.texts) : AreLines m.lines := by
  simp only [AreLines, texts, List.forall_mem_append, List.forall_mem_cons] at h
  obtain ⟨⟨⟨⟨hdoc, hdecorators⟩, hname, hparameters, -⟩, hresult⟩, hbody⟩ := h
  have hsignature : IsOneLine m.signature := by
    unfold signature
    cases hsome : m.result with
    | none =>
      simp only [isOneLine_append, hname, hparameters, and_true]
      decide
    | some type =>
      have htype := hresult type (by simp [hsome])
      simp only [isOneLine_append, hname, hparameters, htype, and_true]
      decide
  have hstatements : AreLines (m.body.map Statement.line) := by
    intro line hline
    obtain ⟨s, hs, rfl⟩ := List.mem_map.mp hline
    exact Statement.isOneLine_line fun text htext =>
      hbody text (List.mem_flatMap.mpr ⟨s, hs, htext⟩)
  have hheading := areLines_heading hdoc hdecorators
  simp only [AreLines, lines, List.forall_mem_append, List.forall_mem_cons] at hheading ⊢
  exact ⟨⟨hheading, hsignature, hstatements⟩, by decide⟩

/-- The lines of a property are one line each if its texts are. -/
theorem Property.areLines_lines {p : Property} (h : AreLines p.texts) : AreLines p.lines := by
  simp only [AreLines, texts, List.forall_mem_append, List.forall_mem_cons] at h
  obtain ⟨⟨hdoc, hdecorators⟩, hname, hmark, htype, -⟩ := h
  have hdeclaration : IsOneLine p.declaration := by
    unfold declaration
    simp only [isOneLine_append, hname, hmark, htype, and_true]
    decide
  have hheading := areLines_heading hdoc hdecorators
  simp only [AreLines, lines, List.forall_mem_append, List.forall_mem_singleton] at hheading ⊢
  exact ⟨hheading, hdeclaration⟩

/-- The texts that a section is put together from. -/
def Section.texts : Section → List String
  | .fields lines => lines
  | .construct parameter => [parameter]
  | .methods members => members.flatMap Method.texts
  | .properties members => members.flatMap Property.texts

/-- The lines of a section are one line each if its texts are. -/
theorem Section.areLines_lines {s : Section} (h : AreLines s.texts) : AreLines s.lines := by
  cases s with
  | fields lines => exact h
  | construct parameter =>
    have hparameter := h parameter (List.mem_singleton_self parameter)
    simp only [AreLines, lines, List.forall_mem_singleton, isOneLine_append, hparameter, and_true]
    decide
  | methods members =>
    refine areLines_paragraphs fun p hp => ?_
    obtain ⟨m, hm, rfl⟩ := List.mem_map.mp hp
    exact Method.areLines_lines fun text htext => h text (List.mem_flatMap.mpr ⟨m, hm, htext⟩)
  | properties members =>
    refine areLines_paragraphs fun p hp => ?_
    obtain ⟨m, hm, rfl⟩ := List.mem_map.mp hp
    exact Property.areLines_lines fun text htext => h text (List.mem_flatMap.mpr ⟨m, hm, htext⟩)

/-- A decorator at the margin starts no import. -/
theorem Decorator.noImport {d : Decorator} (h : AreLines d.texts) : NoImport d.line := by
  refine noImport_of_head (isOneLine_line h) ?_
  unfold line
  simp

/-- A class whose texts are one line each. What it extends stands apart from its name. -/
structure ClassDecl.HasTexts (c : ClassDecl) : Prop where
  decorators : ∀ d ∈ c.decorators, AreLines d.texts
  name : IsOneLine c.name
  heritage : IsOneLine c.heritage
  heritage_head : ∀ ch ∈ c.heritage.toList.head?, ch = ' '
  texts : ∀ s ∈ c.sections, AreLines s.texts

/-- A class is plain if the texts that it is put together from are one line each. -/
theorem ClassDecl.HasTexts.isPlain {c : ClassDecl} (h : c.HasTexts) : c.IsPlain :=
  ⟨fun d hd => Decorator.noImport (h.decorators d hd), h.name, h.heritage, h.heritage_head,
    fun s hs => Section.areLines_lines (h.texts s hs)⟩

/-- A class with one decorator that extends nothing. -/
theorem ClassDecl.hasTexts_decorated {decorator : Decorator} {name : String}
    {sections : List Section} (hdecorator : AreLines decorator.texts) (hname : IsOneLine name)
    (htexts : ∀ s ∈ sections, AreLines s.texts) :
    ({ decorators := [decorator], name, sections } : ClassDecl).HasTexts :=
  ⟨List.forall_mem_singleton.mpr hdecorator, hname, isOneLine_empty, by simp, htexts⟩

/-- A string literal is one line exactly if its text is. -/
@[simp] theorem isOneLine_literal {text : String} : IsOneLine (literal text) ↔ IsOneLine text := by
  have hescape : ∀ c, '\n' ∈ escapeLiteralChar c ↔ '\n' = c := by
    intro c
    unfold escapeLiteralChar
    split <;> simp
  unfold literal
  simp [IsOneLine, hescape]

end NestLayers.TypeScript

namespace NestLayers

open NestLayers.Text NestLayers.Naming NestLayers.TypeScript

/-- The forms of a resource name are one line each. -/
theorem ResourceName.IsPlain.isOneLine {n : ResourceName} (hn : n.IsPlain) :
    IsOneLine n.camel ∧ IsOneLine n.pascal ∧ IsOneLine n.kebab ∧ IsOneLine n.camelBase ∧
      IsOneLine n.pascalBase ∧ IsOneLine n.kebabBase := by
  have hidentifier {s : String} (h : ∀ c ∈ s.toList, isIdentifierChar c = true) : IsOneLine s :=
    isOneLine_of_isKebabChar fun c hc => isKebabChar_of_isIdentifierChar (h c hc)
  exact ⟨hidentifier hn.camel.all, hidentifier hn.pascal.all, isOneLine_of_isKebabChar hn.kebab,
    hidentifier hn.camelBase, hidentifier hn.pascalBase, isOneLine_of_isKebabChar hn.kebabBase⟩

/-- Words have only word characters. -/
theorem notMem_of_isWord {s : String} (h : ∀ c ∈ s.toList, isWord c = true) {x : Char}
    (hx : isWord x = false) : x ∉ s.toList := by
  intro hmem
  rw [h x hmem] at hx
  cases hx

/-- A word is one line. -/
theorem isOneLine_of_isWord {s : String} (h : ∀ c ∈ s.toList, isWord c = true) : IsOneLine s :=
  notMem_of_isWord h (by decide)

/-- A name stands on one line. -/
theorem FieldLine.IsName.isOneLine {s : String} (h : FieldLine.IsName s.toList) : IsOneLine s :=
  isOneLine_of_isWord h.isWord

/-- The forms of a declared type are one line each, and its check has a name. -/
theorem Representation.isOneLine_ofDeclared {declared : String} (h : IsOneLine declared)
    (isArray : Bool) :
    IsOneLine (ofDeclared declared isArray).request ∧
      IsOneLine (ofDeclared declared isArray).validatorArguments ∧
      (ofDeclared declared isArray).validatorName ∈
        ["IsString", "IsInt", "IsBoolean", "IsDate", "IsDecimal", "IsEnum"] := by
  have henum : IsOneLine ("$Enums." ++ declared) := isOneLine_append.mpr ⟨by decide, h⟩
  unfold ofDeclared ofScalar?
  split
  · cases isArray <;> decide
  · decide
  · decide
  · decide
  · decide
  · exact ⟨henum, henum, by simp [ofEnum]⟩

/-- The texts of a field that is read are one line each. -/
theorem Field.IsPlain.isOneLine {f : Field} (hf : f.IsPlain) :
    IsOneLine f.name ∧ IsOneLine f.type.request ∧ IsOneLine f.type.validatorArguments ∧
      f.type.validatorName ∈
        ["IsString", "IsInt", "IsBoolean", "IsDate", "IsDecimal", "IsEnum"] := by
  obtain ⟨declared, isArray, hdeclared, htype⟩ := hf.type
  rw [htype]
  exact ⟨hf.name.isOneLine, Representation.isOneLine_ofDeclared hdeclared.isOneLine isArray⟩

/-- The name of the check of a field is a word. -/
theorem Field.IsPlain.isWord_validatorName {f : Field} (hf : f.IsPlain) :
    ∀ c ∈ f.type.validatorName.toList, isWord c = true := by
  have hnames : ∀ name ∈ ["IsString", "IsInt", "IsBoolean", "IsDate", "IsDecimal", "IsEnum"],
      name.toList.all isWord = true := by decide
  exact List.all_eq_true.mp (hnames _ hf.isOneLine.2.2.2)

/-- What a model says about the type of a field that is read is one line. -/
theorem Field.IsPlain.isOneLine_response {f : Field} (hf : f.IsPlain) :
    IsOneLine f.type.response ∧ IsOneLine f.type.documentation := by
  obtain ⟨declared, isArray, hdeclared, htype⟩ := hf.type
  have henum : IsOneLine ("$Enums." ++ declared) :=
    isOneLine_append.mpr ⟨by decide, hdeclared.isOneLine⟩
  rw [htype]
  unfold Representation.ofDeclared Representation.ofScalar?
  split
  · cases isArray <;> decide
  · decide
  · decide
  · decide
  · decide
  · exact ⟨henum, henum⟩

/-- The messages about a deed are one line each. -/
theorem Deed.isOneLine {description : String} (h : IsOneLine description) (deed : Deed) :
    IsOneLine (deed.done description) ∧ IsOneLine (deed.title description) := by
  have hwords : IsOneLine deed.label ∧ IsOneLine deed.particle := by
    cases deed <;> decide
  unfold done title
  simp only [isOneLine_literal, isOneLine_append, h, hwords, and_true, true_and]
  decide

namespace Layer

variable {n : ResourceName} {d : Definition} {id : Field}

/-- No text of a service has a line feed. -/
theorem Service.areLines_texts (hn : n.IsPlain) (hd : IsOneLine d.description)
    (hid : IsOneLine id.name) : ∀ s ∈ (Service.classOf n d id).sections, AreLines s.texts := by
  obtain ⟨hcamel, hpascal, -⟩ := hn.isOneLine
  have hdone := fun deed : Deed => (deed.isOneLine hd).1
  have hdeed : ∀ deed : Deed, IsOneLine deed.label := by
    intro deed
    cases deed <;> decide
  have hdelete : IsOneLine (if d.isSoftDeletable then "softDelete" else "delete") := by
    split <;> decide
  simp only [Service.classOf, Service.methods, Service.deleteMethod, Service.answerDone,
    Service.repository, AreLines, Section.texts, Method.texts, Statement.texts, braced,
    List.forall_mem_cons, List.forall_mem_append, List.flatMap_cons, List.flatMap_nil,
    Option.toList_some, Option.toList_none, isOneLine_append, hcamel, hpascal, hdone, hdeed,
    hdelete, hid, and_true, true_and, List.append_nil, List.not_mem_nil, false_implies,
    implies_true]
  -- what is left are literals, which are checked as lists of characters
  and_intros <;> exact isOneLine_ofList.mpr (by decide)

/-- No text of a controller has a line feed. -/
theorem Controller.areLines_texts (hn : n.IsPlain) (hd : IsOneLine d.description)
    (hid : IsOneLine id.name) : ∀ s ∈ (Controller.classOf n d id).sections, AreLines s.texts := by
  obtain ⟨hcamel, hpascal, -⟩ := hn.isOneLine
  have htitle := fun deed : Deed => (deed.isOneLine hd).2
  have haction : ∀ a : Action, IsOneLine a.name ∧ IsOneLine a.pascal := by
    intro a
    cases a <;> decide
  simp only [Controller.classOf, Controller.methods, Controller.route, Controller.service,
    AreLines, Section.texts, Method.texts, Decorator.texts, Statement.texts, List.forall_mem_cons,
    List.forall_mem_append, List.flatMap_cons, List.flatMap_nil, Option.toList_some,
    Option.toList_none, isOneLine_append, hcamel, hpascal, htitle, haction, hid, and_true,
    true_and, List.append_nil, List.not_mem_nil, false_implies, implies_true]
  and_intros <;> exact isOneLine_ofList.mpr (by decide)

/-- No text of a repository has a line feed. -/
theorem Repository.areLines_texts (hn : n.IsPlain) (hd : IsOneLine d.description)
    (hid : IsOneLine id.name) (htype : IsOneLine id.type.request) :
    ∀ s ∈ (Repository.classOf n d id).sections, AreLines s.texts := by
  obtain ⟨hcamel, hpascal, -, hcamelBase, hpascalBase, -⟩ := hn.isOneLine
  cases hsoft : d.isSoftDeletable <;>
  · simp only [Repository.classOf, Repository.methods, Repository.deleteMethod, Repository.store,
      AreLines, Section.texts, Method.texts, Statement.texts, braced, hsoft, if_true,
      Bool.false_eq_true, if_false, List.forall_mem_cons, List.forall_mem_append,
      List.flatMap_cons, List.flatMap_nil, Option.toList_some, Option.toList_none,
      isOneLine_append, isOneLine_literal, hd, hcamel, hpascal, hcamelBase, hpascalBase, hid,
      htype, and_true, true_and, List.append_nil, List.not_mem_nil, false_implies, implies_true]
    and_intros <;> exact isOneLine_ofList.mpr (by decide)

/-- The plural of a word is one line if the word is. -/
theorem isOneLine_plural {word : String} (h : IsOneLine word) : IsOneLine (plural word) := by
  unfold plural
  split
  · decide
  split
  · refine isOneLine_append.mpr ⟨isOneLine_ofList.mpr fun hnewline => h ?_, by decide⟩
    exact (List.dropLast_prefix _).mem hnewline
  split
  · exact isOneLine_append.mpr ⟨h, by decide⟩
  · exact isOneLine_append.mpr ⟨h, by decide⟩

/-- The decorator of services and repositories is one line. -/
theorem areLines_injectable : AreLines (Decorator.mk "Injectable" "").texts := by
  unfold AreLines
  decide

/-- The texts of a controller are one line each. -/
theorem Controller.hasTexts_classOf (hn : n.IsPlain) (hd : d.IsPlain) (hid : id.IsPlain) :
    (Controller.classOf n d id).HasTexts := by
  obtain ⟨-, hpascal, hkebab, -, -, hkebabBase⟩ := hn.isOneLine
  have hroute : IsOneLine (Conventions.route n) := by
    unfold Conventions.route
    split
    · exact isOneLine_append.mpr ⟨by decide, isOneLine_plural hkebabBase⟩
    · exact isOneLine_append.mpr ⟨by decide, isOneLine_plural hkebab⟩
  have hname : IsOneLine "ApiController" := by decide
  exact ClassDecl.hasTexts_decorated (List.forall_mem_cons.mpr
      ⟨hname, List.forall_mem_singleton.mpr (isOneLine_literal.mpr hroute)⟩)
    (isOneLine_append.mpr ⟨hpascal, by decide⟩)
    (Controller.areLines_texts hn hd.description hid.isOneLine.1)

/-- The texts of a service are one line each. -/
theorem Service.hasTexts_classOf (hn : n.IsPlain) (hd : d.IsPlain) (hid : id.IsPlain) :
    (Service.classOf n d id).HasTexts :=
  ClassDecl.hasTexts_decorated areLines_injectable
    (isOneLine_append.mpr ⟨hn.isOneLine.2.1, by decide⟩)
    (Service.areLines_texts hn hd.description hid.isOneLine.1)

/-- The texts of a repository are one line each. -/
theorem Repository.hasTexts_classOf (hn : n.IsPlain) (hd : d.IsPlain) (hid : id.IsPlain) :
    (Repository.classOf n d id).HasTexts :=
  ClassDecl.hasTexts_decorated areLines_injectable
    (isOneLine_append.mpr ⟨hn.isOneLine.2.1, by decide⟩)
    (Repository.areLines_texts hn hd.description hid.isOneLine.1 hid.isOneLine.2.1)

/-- The class of a module is plain, although the argument of its decorator takes five lines. -/
theorem Wiring.isPlain_moduleClass (hn : n.IsPlain) :
    ({ decorators := [⟨"Module", Wiring.moduleArgument n⟩], name := n.pascal ++ "Module" } :
      ClassDecl).IsPlain := by
  obtain ⟨-, hpascal, -⟩ := hn.isOneLine
  refine ⟨?_, isOneLine_append.mpr ⟨hpascal, by decide⟩, isOneLine_empty, by simp, by simp⟩
  have hline : (Decorator.mk "Module" (Wiring.moduleArgument n)).line =
      joinLines ["@Module(\x7b", step ++ ("controllers: [" ++ n.pascal ++ "Controller],"),
        step ++ ("providers: [" ++ n.pascal ++ "Service, " ++ n.pascal ++ "Repository],"),
        step ++ ("exports: [" ++ n.pascal ++ "Service, " ++ n.pascal ++ "Repository],"),
        "\x7d)"] := by
    rw [← String.toList_inj]
    unfold Decorator.line Wiring.moduleArgument joinLines
    simp [step]
  rw [List.forall_mem_singleton, hline]
  refine noImport_joinLines (by simp) ?_
  simp only [List.forall_mem_cons]
  refine ⟨noImport_of_head (by decide) (by decide), ?_, ?_, ?_,
    noImport_of_head (by decide) (by decide), by simp⟩
  all_goals
    refine noImport_of_head ?_ (by simp [step])
    simp only [isOneLine_append, hpascal, and_true]
    decide

namespace RequestContract

/-- The fields of a request are fields of the definition. -/
theorem mem_of_requestFields {profile : Profile} {action : Action} {fields : List (Field × Bool)}
    (h : requestFields d profile action = .ok fields) : ∀ p ∈ fields, p.1 ∈ d.fields := by
  have hidentifier {f : Field} (hf : d.identifier = .ok f) : f ∈ d.fields := by
    unfold Definition.identifier at hf
    split at hf
    · rename_i g hids
      obtain rfl := Except.ok.inj hf
      have hg : g ∈ d.idFields := hids ▸ List.mem_singleton_self g
      exact (List.mem_filter.mp hg).1
    · cases hf
    · cases hf
  intro p hp
  cases action with
  | create =>
    obtain rfl := Except.ok.inj h
    obtain ⟨f, hf, hp⟩ := List.mem_filterMap.mp hp
    obtain ⟨tag, -, rfl⟩ := Option.map_eq_some_iff.mp hp
    exact hf
  | findList =>
    obtain rfl := Except.ok.inj h
    cases hp
  | update =>
    obtain ⟨f, hf, heq⟩ := except_bind_eq_ok.mp h
    obtain rfl := Except.ok.inj heq
    rcases List.mem_cons.mp hp with rfl | hp
    · exact hidentifier hf
    · obtain ⟨g, hg, rfl⟩ := List.mem_map.mp hp
      exact (List.mem_filter.mp hg).1
  | delete | findUnique =>
    obtain ⟨f, hf, heq⟩ := except_bind_eq_ok.mp h
    obtain rfl := Except.ok.inj heq
    obtain rfl := List.mem_singleton.mp hp
    exact hidentifier hf

/-- No text of a property of a request has a line feed. -/
theorem areLines_property {f : Field} (hf : f.IsPlain) (required : Bool) :
    AreLines (property f required).texts := by
  obtain ⟨hname, htype, harguments, -⟩ := hf.isOneLine
  have hvalidatorName : IsOneLine f.type.validatorName :=
    isOneLine_of_isWord hf.isWord_validatorName
  have hpresence : IsOneLine (presence required) := by
    cases required <;> decide
  have hmark : IsOneLine (if required then "!" else "?") := by
    split <;> decide
  simp only [AreLines, property, Property.texts, Decorator.texts, List.forall_mem_append,
    List.forall_mem_cons, List.flatMap_cons, List.flatMap_nil, List.append_nil,
    Option.toList_some, hf.description, hpresence, hvalidatorName, harguments, hname,
    hmark, htype, List.not_mem_nil, false_implies, implies_true, and_true, true_and]
  decide

/-- The class of a request contract is plain. -/
theorem isPlain_classOf (hn : n.IsPlain) {fields : List (Field × Bool)}
    (hfields : ∀ p ∈ fields, p.1.IsPlain) (action : Action) :
    (classOf n action fields).IsPlain := by
  obtain ⟨-, hpascal, -⟩ := hn.isOneLine
  have haction : IsOneLine action.pascal := by
    cases action <;> decide
  have hbase : IsOneLine (if action = .findList then " extends PaginationDto" else "") := by
    split <;> decide
  refine ClassDecl.HasTexts.isPlain ⟨by simp [classOf], ?_, ?_, ?_, ?_⟩
  · simp only [classOf, isOneLine_append, hpascal, haction, and_true, true_and]
    decide
  · simp only [classOf, isOneLine_append, hbase, hpascal, haction, and_true, true_and]
    decide
  · unfold classOf
    dsimp only
    split <;> simp
  · intro s hs
    unfold classOf at hs
    dsimp only at hs
    split at hs
    · cases hs
    obtain rfl := List.mem_singleton.mp hs
    intro text htext
    obtain ⟨p, hp, htext⟩ := List.mem_flatMap.mp htext
    obtain ⟨⟨f, required⟩, hf, rfl⟩ := List.mem_map.mp hp
    exact areLines_property (hfields _ hf) required text htext

end RequestContract

/-- No text of a property of a model has a line feed. -/
theorem Model.areLines_property {f : Field} (hf : f.IsPlain) :
    AreLines (Model.property f).texts := by
  obtain ⟨hresponse, hdocumentation⟩ := hf.isOneLine_response
  have hkind : IsOneLine (if f.type.isEnum then "enum" else "type") := by split <;> decide
  have hnullable : IsOneLine (if f.isRequired then "false" else "true") := by split <;> decide
  have hmissing : IsOneLine (if f.isRequired then "" else " | null") := by split <;> decide
  simp only [AreLines, Model.property, Property.texts, Decorator.texts, braced,
    List.forall_mem_append, List.forall_mem_cons, List.flatMap_cons, List.flatMap_nil,
    List.append_nil, List.nil_append, Option.toList_none, isOneLine_append, isOneLine_literal,
    hf.description, hf.name.isOneLine, hresponse, hdocumentation, hkind, hnullable, hmissing,
    List.not_mem_nil, false_implies, implies_true, and_true, true_and]
  decide

namespace ResponseContract

/-- A class that takes a model over is plain. -/
theorem isPlain_omitting {name model : String} {fields : List String} {sections : List Section}
    (hname : IsOneLine name) (hmodel : IsOneLine model) (hfields : ∀ f ∈ fields, IsOneLine f)
    (hsections : ∀ s ∈ sections, AreLines s.texts) :
    (omitting name model fields sections).IsPlain := by
  have hjoined : IsOneLine (String.intercalate ", " (fields.map literal)) := by
    refine isOneLine_intercalate (by decide) fun text htext => ?_
    obtain ⟨f, hf, rfl⟩ := List.mem_map.mp htext
    exact isOneLine_literal.mpr (hfields f hf)
  refine ClassDecl.HasTexts.isPlain ⟨by simp [omitting], hname, ?_, ?_, hsections⟩
  · unfold omitting Conventions.modelClass
    simp only [isOneLine_append, hmodel, hjoined, and_true]
    decide
  · unfold omitting
    simp

/-- The classes for the models that a response includes are plain. -/
theorem isPlain_includedModels {owner : String} {models : List String} (howner : IsOneLine owner)
    (hmodels : ∀ model ∈ models, IsOneLine model) :
    ∀ g ∈ (includedModels owner models).toList,
      (∀ doc ∈ g.doc, IsOneLine doc) ∧ ∀ decl ∈ g.declarations, decl.IsPlain := by
  intro g hg
  unfold includedModels at hg
  split at hg
  · cases hg
  · obtain rfl := Option.some.inj (Option.mem_toList.mp hg)
    have hdoc : IsOneLine "Include Models" := by decide
    refine ⟨fun doc hmem => Option.some.inj hmem ▸ hdoc, fun decl hdecl => ?_⟩
    obtain ⟨model, hmodel, rfl⟩ := List.mem_map.mp hdecl
    refine isPlain_omitting ?_ (hmodels model hmodel) (by simp) (by simp)
    simp only [isOneLine_append, howner, hmodels model hmodel, and_true, true_and]
    decide

/-- A class of which `data` is the only property is plain. -/
theorem isPlain_dataClass {name heritage type : String} (hname : IsOneLine name)
    (hheritage : IsOneLine heritage) (hhead : ∀ ch ∈ heritage.toList.head?, ch = ' ')
    (htype : IsOneLine type) :
    ({ name, heritage, sections := [.properties [{ name := "data", type }]] } :
      ClassDecl).IsPlain := by
  refine ClassDecl.HasTexts.isPlain ⟨by simp, hname, hheritage, hhead, ?_⟩
  simp only [List.forall_mem_singleton, AreLines, Section.texts, Property.texts, htype,
    List.flatMap_cons, List.flatMap_nil, List.append_nil, Option.toList_none,
    List.forall_mem_cons, List.nil_append, and_true]
  decide

/-- The class of a response is plain. -/
theorem isPlain_responseClass (hn : n.IsPlain) (action : Action) :
    ({ name := n.pascal ++ action.pascal ++ "ResponseDto"
       heritage := " extends " ++ envelope action ++ " implements ResponseService<" ++ n.pascal ++
        "Service[" ++ literal action.name ++ "]>"
       sections := [.properties [{ name := "data", type := dataType n action }]] } :
      ClassDecl).IsPlain := by
  obtain ⟨-, hpascal, -⟩ := hn.isOneLine
  have hwords : IsOneLine action.pascal ∧ IsOneLine action.name ∧ IsOneLine (envelope action) := by
    cases action <;> decide
  have htype : IsOneLine (dataType n action) := by
    cases action <;> simp only [dataType, isOneLine_append, hpascal, true_and] <;> decide
  refine isPlain_dataClass ?_ ?_ (by simp) htype
  · simp only [isOneLine_append, hpascal, hwords, and_true, true_and]
    decide
  · simp only [isOneLine_append, isOneLine_literal, hpascal, hwords, and_true]
    decide

end ResponseContract

end Layer

end NestLayers

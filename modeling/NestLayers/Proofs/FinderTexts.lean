import NestLayers.Proofs.ContractTexts
import NestLayers.Proofs.InfoFiles

/-!
# Reading the methods of a finder

The repository, the service and the controller of the info layer have a method for each finder. Its
parameters, and what it passes on, are read off their texts; what the repository passes on is a
query, of which the key and the included relations are read.
-/

namespace NestLayers.Layer.Info

open NestLayers.Text NestLayers.Naming NestLayers.TypeScript

/-! ## Reading a query -/

/-- The words of a text, set apart by single spaces. -/
def words (text : String) : List (List Char) :=
  text.toList.splitOnP (· == ' ')

/-- The field that a query is narrowed by. -/
def narrowedBy? (query : String) : Option String :=
  match words query with
  | opening :: label :: brace :: key :: _ =>
    if opening = ['\x7b'] ∧ label = "where:".toList ∧ brace = ['\x7b'] then some (String.ofList key)
    else none
  | _ => none

/-- The text before the colon at the end of a word. -/
def label? (word : List Char) : Option String :=
  if word.getLast? = some ':' then some (String.ofList word.dropLast) else none

/-- The relations that a query includes. -/
def includedNames (query : String) : List String :=
  ((words query).dropWhile (· != "include:".toList)).tail.filterMap label?

/-- Words before and after a space. -/
theorem words_append (before after : String) :
    words (before ++ " " ++ after) = words before ++ words after := by
  have hchars : (before ++ " " ++ after).toList = before.toList ++ ' ' :: after.toList := by simp
  rw [words, hchars]
  exact List.splitOnP_append_cons _ _ (by decide)

private theorem words_of_notMem {text : String} (h : ' ' ∉ text.toList) :
    words text = [text.toList] :=
  List.splitOnP_eq_singleton fun _ hc => beq_eq_false_iff_ne.mpr (ne_of_mem_of_not_mem hc h)

/-- The words between braces. -/
theorem words_braced (text : String) :
    words (braced text) = ['\x7b'] :: (words text ++ [['\x7d']]) := by
  have hsplit : braced text = "\x7b" ++ " " ++ (text ++ " " ++ "\x7d") := by
    rw [← String.toList_inj]
    simp [braced]
  have hbraces : words "\x7b" = [['\x7b']] ∧ words "\x7d" = [['\x7d']] := by decide
  rw [hsplit, words_append, words_append, hbraces.1, hbraces.2]
  rfl

/-- The labels in a list of included relations. -/
theorem labels_included {names : List String} (h : ∀ name ∈ names, ' ' ∉ name.toList) :
    (words (String.intercalate ", " (names.map (· ++ ": true")))).filterMap label? = names := by
  have hlabel (name : String) : label? (name ++ ":").toList = some name := by
    simp [label?]
  have hwords : words "true" = ["true".toList] ∧ words "true," = ["true,".toList] := by decide
  have hvalue : label? "true".toList = none ∧ label? "true,".toList = none := by decide
  induction names with
  | nil => decide
  | cons name names ih =>
    obtain ⟨hname, hrest⟩ := List.forall_mem_cons.mp h
    have hword : words (name ++ ":") = [(name ++ ":").toList] :=
      words_of_notMem (by simp [hname])
    cases names with
    | nil =>
      have hsplit : String.intercalate ", " ([name].map (· ++ ": true")) =
          name ++ ":" ++ " " ++ "true" := by
        rw [← String.toList_inj]
        simp
      rw [hsplit, words_append, hword, hwords.1]
      simp only [List.cons_append, List.nil_append, List.filterMap_cons, List.filterMap_nil, hlabel,
        hvalue.1]
    | cons next names =>
      have hsplit : String.intercalate ", " ((name :: next :: names).map (· ++ ": true")) =
          name ++ ":" ++ " " ++ ("true," ++ " " ++
            String.intercalate ", " ((next :: names).map (· ++ ": true"))) := by
        rw [← String.toList_inj]
        simp
      rw [hsplit, words_append, words_append, hword, hwords.2, List.filterMap_append,
        List.filterMap_append, ih hrest]
      simp only [List.cons_append, List.nil_append, List.filterMap_cons, List.filterMap_nil, hlabel,
        hvalue.2]

/-- The labels behind the word that starts the included relations. -/
theorem includedNames_of_words {query inner : String} {before : List (List Char)}
    (hquery : words query =
      before ++ "include:".toList :: ['\x7b'] :: (words inner ++ [['\x7d'], ['\x7d']]))
    (hbefore : ∀ word ∈ before, word ≠ "include:".toList) :
    includedNames query = (words inner).filterMap label? := by
  have hbraces : label? ['\x7b'] = none ∧ label? ['\x7d'] = none := by decide
  have hskipped : ∀ word ∈ before, (word != "include:".toList) = true :=
    fun word hword => bne_iff_ne.mpr (hbefore word hword)
  rw [includedNames, hquery, List.dropWhile_append_of_pos hskipped,
    List.dropWhile_cons_of_neg (by simp), List.tail_cons]
  simp only [List.filterMap_cons, List.filterMap_append, List.filterMap_nil, hbraces,
    List.append_nil]

private theorem includedNames_of_forall_ne {query : String}
    (h : ∀ word ∈ words query, word ≠ "include:".toList) : includedNames query = [] := by
  have hdrop : (words query).dropWhile (· != "include:".toList) = [] :=
    List.dropWhile_eq_nil_iff.mpr fun word hword => bne_iff_ne.mpr (h word hword)
  rw [includedNames, hdrop]
  rfl

/-- The finder is narrowed by a word, and includes relations that are named by words. -/
structure Finder.HasWords (f : Finder) : Prop where
  key : ∀ key ∈ f.key, ∀ c ∈ key.name.toList, isWord c = true
  included : ∀ r ∈ f.included, ∀ c ∈ r.name.toList, isWord c = true

/-- The words that narrow a query. -/
theorem words_where {key : String} (hkey : ' ' ∉ key.toList) (after : String)
    (hafter : ' ' ∉ after.toList) : words ("where: " ++ braced key ++ after) =
      ["where:".toList, ['\x7b'], key.toList, ("\x7d" ++ after).toList] := by
  have hsplit : "where: " ++ braced key ++ after =
      "where:" ++ " " ++ ("\x7b" ++ " " ++ (key ++ " " ++ ("\x7d" ++ after))) := by
    rw [← String.toList_inj]
    simp [braced]
  have hwords : words "where:" = ["where:".toList] ∧ words "\x7b" = [['\x7b']] := by decide
  have hend : words ("\x7d" ++ after) = [("\x7d" ++ after).toList] :=
    words_of_notMem (by simp [hafter])
  rw [hsplit, words_append, words_append, words_append, words_of_notMem hkey, hend, hwords.1,
    hwords.2]
  rfl

/-- The words of a query that is narrowed only. -/
theorem words_narrowing {key : String} (hkey : ' ' ∉ key.toList) :
    words (braced ("where: " ++ braced key)) =
      [['\x7b'], "where:".toList, ['\x7b'], key.toList, ['\x7d'], ['\x7d']] := by
  have hwords := words_where hkey "" (by decide)
  rw [String.append_empty, String.append_empty] at hwords
  rw [words_braced, hwords]
  rfl

/-- The words of the included relations. -/
theorem words_include (inner : String) : words ("include: " ++ braced inner) =
    "include:".toList :: ['\x7b'] :: (words inner ++ [['\x7d']]) := by
  have hsplit : "include: " ++ braced inner = "include:" ++ " " ++ braced inner := by
    rw [← String.toList_inj]
    simp
  have hword : words "include:" = ["include:".toList] := by decide
  rw [hsplit, words_append, words_braced, hword]
  rfl

/-- The words of a query that includes relations only. -/
theorem words_including (inner : String) :
    words (braced ("include: " ++ braced inner)) = [['\x7b']] ++
      "include:".toList :: ['\x7b'] :: (words inner ++ [['\x7d'], ['\x7d']]) := by
  rw [words_braced, words_include]
  simp

/-- The words of a query that is narrowed and includes relations. -/
theorem words_narrowing_including {key : String} (hkey : ' ' ∉ key.toList) (inner : String) :
    words (braced (String.intercalate ", " ["where: " ++ braced key, "include: " ++ braced inner])) =
      [['\x7b'], "where:".toList, ['\x7b'], key.toList, "\x7d,".toList] ++
        "include:".toList :: ['\x7b'] :: (words inner ++ [['\x7d'], ['\x7d']]) := by
  have hparts : String.intercalate ", " ["where: " ++ braced key, "include: " ++ braced inner] =
      "where: " ++ braced key ++ "," ++ " " ++ ("include: " ++ braced inner) := by
    rw [← String.toList_inj]
    simp
  rw [hparts, words_braced, words_append, words_where hkey "," (by decide), words_include]
  simp

private theorem ne_include_of_isWord {text : String} (h : ∀ c ∈ text.toList, isWord c = true) :
    text.toList ≠ "include:".toList := by
  have hcolon : ':' ∉ text.toList := notMem_of_isWord h (by decide)
  exact fun heq => hcolon (heq ▸ by decide)

/-- **A query is read**: what it is narrowed by, and which relations it includes. -/
theorem Finder.HasWords.query_reading {f : Finder} (h : f.HasWords) :
    narrowedBy? f.query = f.key.map (·.name) ∧ includedNames f.query = f.included.map (·.name) := by
  have hlabels : (words (String.intercalate ", " (f.included.map (·.name ++ ": true")))).filterMap
      label? = f.included.map (·.name) := by
    rw [← labels_included (List.forall_mem_map.mpr fun r hr =>
      notMem_of_isWord (h.included r hr) (by decide)), List.map_map]
    rfl
  unfold query
  dsimp only
  cases hkey : f.key with
  | none =>
    by_cases hincluded : f.included = []
    · rw [hincluded]
      decide
    · simp only [Option.toList_none, List.map_nil, List.nil_append, List.isEmpty_iff, hincluded,
        if_false, List.cons_ne_nil, String.intercalate_singleton, Option.map_none]
      generalize String.intercalate ", " (f.included.map (·.name ++ ": true")) = inner at hlabels ⊢
      have hquery := words_including inner
      refine ⟨?_, (includedNames_of_words hquery (by decide)).trans hlabels⟩
      rw [narrowedBy?, hquery]
      cases words inner <;> simp
  | some key =>
    have hword := ne_include_of_isWord (h.key key hkey)
    have hspace : ' ' ∉ key.name.toList := notMem_of_isWord (h.key key hkey) (by decide)
    by_cases hincluded : f.included = []
    · simp only [hincluded, Option.toList_some, List.map_cons, List.map_nil, List.isEmpty_nil,
        if_true, List.append_nil, List.isEmpty_cons, Bool.false_eq_true, if_false,
        Option.map_some, String.intercalate_singleton]
      have hquery := words_narrowing hspace
      refine ⟨?_, includedNames_of_forall_ne ?_⟩
      · rw [narrowedBy?, hquery]
        simp
      · rw [hquery]
        simp only [List.forall_mem_cons]
        exact ⟨by decide, by decide, by decide, hword, by decide, by decide, by simp⟩
    · simp only [List.isEmpty_iff, hincluded, if_false, Option.toList_some, List.map_cons,
        List.map_nil, List.cons_append, List.nil_append, List.cons_ne_nil, Option.map_some]
      generalize String.intercalate ", " (f.included.map (·.name ++ ": true")) = inner at hlabels ⊢
      have hquery := words_narrowing_including hspace inner
      refine ⟨?_, (includedNames_of_words hquery ?_).trans hlabels⟩
      · rw [narrowedBy?, hquery]
        simp
      · simp only [List.forall_mem_cons]
        exact ⟨by decide, by decide, by decide, hword, by decide, by simp⟩

/-! ## Reading the methods -/

/-- A finder as it is made from a definition that is read. -/
structure Finder.IsRead (f : Finder) : Prop extends f.IsPlain where
  words : f.HasWords
  notMem_word : ∀ x : Char, 0 < x.toNat → x.toNat < 65 → Text.isWord x = false →
    x ∉ f.word.toList
  names : ∀ r ∈ f.included, FieldLine.IsName r.name.toList

/-- The finder of a definition that is read. -/
theorem isRead_ofDefinition (conventions : Conventions) (aggregates : List String)
    {registry : Registry} {fileId text : String} {location : Location} {d : Definition}
    (h : Definition.parse registry fileId location text = .ok d) :
    (Finder.ofDefinition conventions aggregates d).IsRead := by
  have hplain := isPlain_ofDefinition conventions aggregates h
  have hnames : ∀ r ∈ (Finder.ofDefinition conventions aggregates d).included,
      FieldLine.IsName r.name.toList := fun r hr =>
    (Definition.of_mem_relations h (List.mem_filter.mp hr).1).2.1
  refine ⟨hplain, ⟨fun key hkey => ?_, fun r hr => ?_⟩, fun x hlow hhigh hx => ?_, hnames⟩
  · exact (hplain.key key hkey).name.isWord
  · exact (hnames r hr).isWord
  · refine notMem_uncapitalize hlow hhigh (notMem_withoutMarker _ fun hmem => ?_)
    rw [hplain.definition.name.2 x hmem] at hx
    cases hx

namespace Finder.IsRead

variable {f : Finder}

/-- The word of a finder has no parentheses and spaces. -/
theorem word_chars (h : f.IsRead) : ∀ c ∈ f.word.toList, c ≠ '(' ∧ c ≠ ' ' := by
  refine fun c hc => ⟨?_, ?_⟩
  · rintro rfl
    exact h.notMem_word _ (by decide) (by decide) (by decide) hc
  · rintro rfl
    exact h.notMem_word _ (by decide) (by decide) (by decide) hc

/-- The methods of a finder are named by its word. -/
theorem method_chars (h : f.IsRead) : ∀ c ∈ f.method.toList, c ≠ '(' ∧ c ≠ ' ' := by
  rw [method, String.toList_append, List.forall_mem_append]
  exact ⟨h.word_chars, by simp⟩

/-- The method of the repository as it is read. -/
theorem repository_reading (h : f.IsRead) :
    f.repositoryMethod.reading.name = f.method ∧
      f.repositoryMethod.reading.parameters = f.parameter ∧
      f.repositoryMethod.reading.passed = f.query := by
  have hname : '(' ∉ f.method.toList := fun hmem => (h.method_chars _ hmem).1 rfl
  have hcallee : ∀ c ∈ ("this." ++ f.repositoryName ++ "." ++ "findMany").toList,
      c ≠ '(' ∧ c ≠ ' ' := by
    simp only [repositoryName, String.toList_append, List.forall_mem_append]
    exact ⟨⟨⟨by simp, h.word_chars, by simp⟩, by simp⟩, by simp⟩
  have hbody : f.repositoryMethod.body =
      [.call ("return" ++ " ") ("this." ++ f.repositoryName) "findMany" f.query] := rfl
  exact ⟨Method.name_reading hname, Method.parameters_reading hname (by simp [repositoryMethod]),
    (Method.call_reading hbody (by decide) (by decide) hcallee).2⟩

/-- The service's method calls the repository's method of the same name. -/
theorem service_reading (h : f.IsRead) :
    f.serviceMethod.reading.name = f.method ∧
      f.serviceMethod.reading.parameters = f.parameter ∧
      f.serviceMethod.reading.callee = "this.infoRepository." ++ f.method ∧
      f.serviceMethod.reading.passed = f.argument := by
  have hname : '(' ∉ f.method.toList := fun hmem => (h.method_chars _ hmem).1 rfl
  have hcallee : ∀ c ∈ ("this.infoRepository" ++ "." ++ f.method).toList, c ≠ '(' ∧ c ≠ ' ' := by
    simp only [String.toList_append, List.forall_mem_append]
    exact ⟨by simp, h.method_chars⟩
  have hlead : "const " ++ f.word ++ " = await " = "const " ++ f.word ++ " = await" ++ " " := by
    rw [← String.toList_inj]
    simp
  have hbefore : '(' ∉ ("const " ++ f.word ++ " = await").toList := by
    have hword : '(' ∉ f.word.toList := fun hmem => (h.word_chars _ hmem).1 rfl
    simp [hword]
  have hstart : startsStatement ("const " ++ f.word ++ " = await" ++ " ").toList = true := by
    simp only [String.append_assoc]
    exact startsStatement_toList_append (by decide) _
  obtain ⟨rest, hbody⟩ : ∃ rest, f.serviceMethod.body =
      .call ("const " ++ f.word ++ " = await" ++ " ") "this.infoRepository" f.method f.argument ::
        rest := by
    rw [serviceMethod, hlead]
    exact ⟨_, rfl⟩
  obtain ⟨hcalls, hpasses⟩ := Method.call_reading hbody hstart hbefore hcallee
  exact ⟨Method.name_reading hname, Method.parameters_reading hname (by simp [serviceMethod]),
    hcalls, hpasses⟩

/-- The controller's method calls the service's method of the same name. -/
theorem controller_reading (h : f.IsRead) :
    f.controllerMethod.reading.name = f.method ∧
      f.controllerMethod.reading.parameters =
        (if f.key.isSome then "@Query() query: " ++ f.requestClass else "") ∧
      f.controllerMethod.reading.callee = "this.infoService." ++ f.method ∧
      f.controllerMethod.reading.passed = if f.key.isSome then "query." ++ f.argument else "" := by
  have hname : '(' ∉ f.method.toList := fun hmem => (h.method_chars _ hmem).1 rfl
  have hcallee : ∀ c ∈ ("this.infoService" ++ "." ++ f.method).toList, c ≠ '(' ∧ c ≠ ' ' := by
    simp only [String.toList_append, List.forall_mem_append]
    exact ⟨by simp, h.method_chars⟩
  have hbody : f.controllerMethod.body = [.call ("return await" ++ " ") "this.infoService" f.method
      (if f.key.isSome then "query." ++ f.argument else "")] := rfl
  have hresult : ∀ type ∈ f.controllerMethod.result, ')' ∉ type.toList := by
    intro type hmem
    obtain rfl := Option.some.inj hmem
    have hmodel : ')' ∉ f.definition.name.toList :=
      notMem_of_isWord h.definition.name.2 (by decide)
    simp [responseClass, hmodel]
  obtain ⟨hcalls, hpasses⟩ := Method.call_reading hbody (by decide) (by decide) hcallee
  exact ⟨Method.name_reading hname, Method.parameters_reading hname hresult, hcalls, hpasses⟩

end Finder.IsRead

/-- The methods of a decorated class are read off the text of its file. -/
theorem bodyMethods_decorated (imports : Imports) {decorator : Decorator} {name : String}
    {sections : List Section} (hdecorator : AreLines decorator.texts) (hname : IsOneLine name)
    (hne : sections ≠ []) (htexts : ∀ s ∈ sections, AreLines s.texts)
    (hbodies : ∀ s ∈ sections, s.HasPlainBodies) :
    bodyMethods (SourceFile.ofClass imports { decorators := [decorator], name, sections }).text =
      (sections.flatMap Section.declaredMethods).map Method.reading :=
  bodyMethods_ofClass imports rfl
    ⟨ClassDecl.hasTexts_decorated hdecorator hname htexts, hne, hbodies⟩

section Methods

variable {fs : List Finder} (hfs : ∀ f ∈ fs, f.IsRead)
include hfs

/-- The methods in the text of the repository. -/
theorem bodyMethods_repositorySource : bodyMethods (repositorySource fs).source.text =
    fs.map fun f => f.repositoryMethod.reading := by
  have hbodies : ∀ s ∈ [.fields (fs.map Finder.repositoryField),
      .construct "private prisma: PrismaService", .methods (fs.map Finder.repositoryMethod)],
      Section.HasPlainBodies s := by
    simp only [List.forall_mem_cons, Section.HasPlainBodies, List.forall_mem_map,
      Finder.repositoryMethod, Statement.IsPlain, Finder.repositoryField, String.append_assoc]
    exact ⟨fun f _ => startsStatement_toList_append (by decide) _, trivial,
      fun f _ => ⟨by decide, by simp⟩, by simp⟩
  rw [repositorySource, bodyMethods_decorated _ areLines_injectable
    (by decide) (by simp) (areLines_repositorySections fun f hf => (hfs f hf).toIsPlain) hbodies]
  simp [Section.declaredMethods]

/-- The methods in the text of the service. -/
theorem bodyMethods_serviceSource : bodyMethods (serviceSource fs).source.text =
    fs.map fun f => f.serviceMethod.reading := by
  have hbodies : ∀ s ∈ [.construct "private infoRepository: InfoRepository",
      .methods (fs.map Finder.serviceMethod)], Section.HasPlainBodies s := by
    simp only [List.forall_mem_cons, Section.HasPlainBodies, List.forall_mem_map,
      Finder.serviceMethod, Statement.IsPlain, String.append_assoc]
    exact ⟨trivial, fun f _ => ⟨startsStatement_toList_append (by decide) _,
      startsStatement_toList_append (by decide) _, by simp⟩, by simp⟩
  rw [serviceSource, bodyMethods_decorated _ areLines_injectable
    (by decide) (by simp) (areLines_serviceSections fun f hf => (hfs f hf).toIsPlain) hbodies]
  simp [Section.declaredMethods]

/-- The methods in the text of the controller. -/
theorem bodyMethods_controllerSource : bodyMethods (controllerSource fs).source.text =
    fs.map fun f => f.controllerMethod.reading := by
  have hbodies : ∀ s ∈ [.construct "private infoService: InfoService",
      .methods (fs.map Finder.controllerMethod)], Section.HasPlainBodies s := by
    simp only [List.forall_mem_cons, Section.HasPlainBodies, List.forall_mem_map,
      Finder.controllerMethod, Statement.IsPlain]
    exact ⟨trivial, fun f _ => ⟨by decide, by simp⟩, by simp⟩
  rw [controllerSource, bodyMethods_decorated _ areLines_infoController
    (by decide) (by simp) (areLines_controllerSections fun f hf => (hfs f hf).toIsPlain) hbodies]
  simp [Section.declaredMethods]

end Methods

end NestLayers.Layer.Info

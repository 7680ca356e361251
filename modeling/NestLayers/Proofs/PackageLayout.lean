import Mathlib.Data.List.Nodup
import NestLayers.Layer.Rendering
import NestLayers.Proofs.NameCharacters
import NestLayers.Proofs.Paths
import NestLayers.Proofs.SourceText

/-!
# The layout of a package

A package has one file per kind of class and one interface and two contracts per action. Each has
a place below the directory of the resource and one exported name. An origin that leads out of the
directory of one file and into that of another resolves to the path of the other.
-/

namespace NestLayers.TypeScript

open NestLayers.Text

/-- The import comes from a file and not from a package. -/
def IsRelative (origin : String) : Prop :=
  "./".toList <+: origin.toList ∨ "../".toList <+: origin.toList

/-- The file that an import in the file at a path comes from. -/
def resolveImport (path origin : String) : String :=
  ((Path.ofString path).parent / origin).collapse.toString ++ ".ts"

/-- Resolving an origin that leads to the top and down again gives the path down. -/
theorem resolveImport_eq {directory up names : List String} {file : String}
    (hpath : ∀ name ∈ directory ++ [file], Path.IsPlainName name) (hup : Path.IsUp up directory)
    (hnames : ∀ name ∈ names, Path.IsPlainName name) (hne : names ≠ []) :
    resolveImport (String.intercalate "/" (directory ++ [file]))
        (String.intercalate "/" (up ++ names)) = String.intercalate "/" names ++ ".ts" := by
  have hdirectory : ∀ name ∈ directory, Path.IsPlainName name :=
    fun name hname => hpath name (List.mem_append_left _ hname)
  have htoString : (Path.mk .current names).toString = String.intercalate "/" names := by
    simp [Path.toString, hne]
  rw [resolveImport, Path.ofString_plain (by simp) hpath]
  change (Path.join _ (Path.ofString _)).collapse.toString ++ ".ts" = _
  rw [Path.ofString_up hup hnames hne]
  simp only [Path.parent, Path.join, Path.isAbsolute, List.dropLast_concat]
  rw [← htoString, ← Path.collapse_up hup hdirectory hnames]
  rfl

end NestLayers.TypeScript

namespace NestLayers

open NestLayers.Text NestLayers.Naming NestLayers.TypeScript

/-- The files of a package. -/
inductive PackageFile
  | module
  | controller
  | service
  | repository
  | interface (action : Action)
  | request (action : Action)
  | response (action : Action)
  deriving DecidableEq, Repr

namespace PackageFile

/-- All files of a package, in the order in which they are generated. -/
def all : List PackageFile :=
  [.module, .controller, .service, .repository] ++ Action.all.map .interface ++
    Action.all.map .request ++ Action.all.map .response

/-- Every file is listed. -/
theorem mem_all (f : PackageFile) : f ∈ all := by
  have hactions : ∀ a : Action, a ∈ Action.all := by
    intro a
    cases a <;> decide
  cases f <;> simp [all, hactions]

/-- The directory of a file, seen from the directory of the resource. -/
def directory : PackageFile → List String
  | .module | .controller | .service | .repository => []
  | .interface _ => ["interfaces"]
  | .request _ => ["dto"]
  | .response _ => ["dto", "response"]

/-- What follows the name of the resource in the name of a file. -/
def suffix : PackageFile → String
  | .module => ".module"
  | .controller => ".controller"
  | .service => ".service"
  | .repository => ".repository"
  | .interface action => "-" ++ action.kebab ++ ".interface"
  | .request action | .response action => "-" ++ action.kebab ++ ".dto"

/-- The names that lead from the directory of a file to that of the resource. -/
def up (f : PackageFile) : List String :=
  if f.directory = [] then ["."] else f.directory.map fun _ => ".."

variable (n : ResourceName)

/-- The path of a file, seen from the directory of the resource. -/
def path (f : PackageFile) : String :=
  String.intercalate "/" (f.directory ++ [n.kebab ++ f.suffix ++ ".ts"])

/-- The origin under which one file imports another. -/
def origin (f target : PackageFile) : String :=
  String.intercalate "/" (f.up ++ (target.directory ++ [n.kebab ++ target.suffix]))

/-- The name that a file exports. -/
def exported : PackageFile → String
  | .module => n.pascal ++ "Module"
  | .controller => n.pascal ++ "Controller"
  | .service => n.pascal ++ "Service"
  | .repository => n.pascal ++ "Repository"
  | .interface action => "I" ++ n.pascal ++ action.pascal
  | .request action => n.pascal ++ action.pascal ++ "Dto"
  | .response action => n.pascal ++ action.pascal ++ "ResponseDto"

variable {n}

/-- The path of a file beside the module. -/
theorem path_of_directory_eq_nil {f : PackageFile} (hf : f.directory = []) {text : String}
    (htext : text.toList = f.suffix.toList ++ ".ts".toList) : n.kebab ++ text = f.path n := by
  rw [← String.toList_inj, path, hf]
  simp [htext]

/-- The path of an interface. -/
theorem path_interfaceSource (action : Action) :
    (Layer.Wiring.interfaceSource n action).path = (interface action).path n := by
  change "interfaces/" ++ (n.kebab ++ "-" ++ action.kebab) ++ ".interface.ts" = _
  rw [← String.toList_inj]
  simp [path, directory, suffix]

/-- The path of a request. -/
theorem path_requestSource (conventions : Conventions) (action : Action)
    (fields : List (Field × Bool)) :
    (Layer.RequestContract.source conventions n action fields).path = (request action).path n := by
  change "dto/" ++ n.kebab ++ "-" ++ action.kebab ++ ".dto.ts" = _
  rw [← String.toList_inj]
  simp [path, directory, suffix]

/-- The path of a response. -/
theorem path_responseSource (d : Definition) (profile : Profile) (action : Action) :
    (Layer.ResponseContract.source n d profile action).path = (response action).path n := by
  change "dto/response/" ++ n.kebab ++ "-" ++ action.kebab ++ ".dto.ts" = _
  rw [← String.toList_inj]
  simp [path, directory, suffix]

/-- What follows the name of the resource has no slash, quote or line feed in it. -/
theorem suffix_chars (f : PackageFile) :
    '/' ∉ f.suffix.toList ∧ '\x22' ∉ f.suffix.toList ∧ '\n' ∉ f.suffix.toList ∧
      f.suffix.toList.length ≠ 0 := by
  have hall : ∀ f ∈ all, '/' ∉ f.suffix.toList ∧ '\x22' ∉ f.suffix.toList ∧
      '\n' ∉ f.suffix.toList ∧ f.suffix.toList.length ≠ 0 := by decide
  exact hall f f.mem_all

/-- A hyphenated identifier stands for itself in a path. -/
theorem isPlainName_of_isKebabChar {text : String} (hne : text ≠ "")
    (h : ∀ c ∈ text.toList, isKebabChar c = true) : Path.IsPlainName text := by
  have hdot : '.' ∉ text.toList := fun hmem => absurd (h _ hmem) (by decide)
  refine ⟨hne, ?_, ?_, fun hmem => absurd (h _ hmem) (by decide)⟩
  · rintro rfl
    exact hdot (by decide)
  · rintro rfl
    exact hdot (by decide)

/-- A name that starts with the name of the resource stands for itself in a path. -/
theorem isPlainName_kebab (hn : n.IsPlain) {rest : String} (hrest : '/' ∉ rest.toList) :
    Path.IsPlainName (n.kebab ++ rest) :=
  (isPlainName_of_isKebabChar hn.kebab_ne_empty hn.kebab).append hrest

/-- The directory of a resource that is named by a word has a plain name. -/
theorem isPlainName_kebab_ofWord (marker : String) {word : String} (h : IsWord word) :
    Path.IsPlainName (ResourceName.ofWord marker word).kebab := by
  have hcamel : IsWord (uncapitalize (trim word)) := by
    rw [trim_of_isIdentifierChar h.all]
    exact isWord_uncapitalize h
  exact isPlainName_of_isKebabChar (Naming.kebab_ne_empty hcamel.ne_empty hcamel.all)
    (isKebabChar_kebab hcamel.all)

/-- The directories of a package have plain names. -/
theorem isPlainName_directory (f : PackageFile) : ∀ name ∈ f.directory, Path.IsPlainName name := by
  have hnames : ∀ name ∈ ["interfaces", "dto", "response"], name ≠ "" ∧ name ≠ "." ∧
      name ≠ ".." ∧ '/' ∉ name.toList := by decide
  have hsub : ∀ name ∈ f.directory, name ∈ ["interfaces", "dto", "response"] := by
    cases f <;> simp [directory]
  intro name hname
  obtain ⟨hempty, hdot, hdots, hslash⟩ := hnames name (hsub name hname)
  exact ⟨hempty, hdot, hdots, hslash⟩

/-- The names of a path in the package stand for themselves. -/
theorem isPlainName_place (hn : n.IsPlain) (f : PackageFile) {ending : String}
    (hending : '/' ∉ ending.toList) :
    ∀ name ∈ f.directory ++ [n.kebab ++ f.suffix ++ ending], Path.IsPlainName name := by
  intro name hname
  rcases List.mem_append.mp hname with hname | hname
  · exact f.isPlainName_directory name hname
  · obtain rfl := List.mem_singleton.mp hname
    rw [String.append_assoc]
    refine isPlainName_kebab hn ?_
    simp [f.suffix_chars.1, hending]

/-- **Origins resolve.** The origin under which one file imports another resolves to the path of
the other. -/
theorem resolveImport_origin (hn : n.IsPlain) (f target : PackageFile) :
    resolveImport (f.path n) (f.origin n target) = target.path n := by
  have hts : '/' ∉ ".ts".toList := by decide
  have hempty : '/' ∉ "".toList := by decide
  have hnames := target.isPlainName_place hn hempty
  rw [String.append_empty] at hnames
  have hup : Path.IsUp f.up f.directory := by
    cases f <;> simp [Path.IsUp, up, directory]
  rw [path, origin, resolveImport_eq (f.isPlainName_place hn hts) hup hnames (by simp), path]
  cases target <;> simp [directory, String.append_assoc]

/-- The paths of a package are pairwise distinct. -/
theorem nodup_map_path (hn : n.IsPlain) : (all.map (path n)).Nodup := by
  have hplaces : (all.map fun f => (f.directory, f.suffix)).Nodup := by decide
  have hts : '/' ∉ ".ts".toList := by decide
  refine List.Nodup.map_on ?_ (List.Nodup.of_map _ hplaces)
  intro f hf g hg hpath
  have hparts := congrArg Path.ofString hpath
  rw [path, path, Path.ofString_plain (by simp) (f.isPlainName_place hn hts),
    Path.ofString_plain (by simp) (g.isPlainName_place hn hts)] at hparts
  obtain ⟨hdirectory, hname⟩ := List.append_inj' (Path.mk.inj hparts).2 rfl
  have hsuffix : f.suffix = g.suffix := by
    have hchars := congrArg String.toList (List.singleton_inj.mp hname)
    simpa [String.toList_inj] using hchars
  exact List.inj_on_of_nodup_map hplaces hf hg (Prod.ext hdirectory hsuffix)

/-- An exported name is an identifier. -/
theorem isIdentifierChar_exported (hn : n.IsPlain) (f : PackageFile) :
    ∀ c ∈ (f.exported n).toList, isIdentifierChar c = true := by
  have hpascal := hn.pascal.all
  have haction : ∀ a : Action, ∀ c ∈ a.pascal.toList, isIdentifierChar c = true := by
    intro a
    refine List.all_eq_true.mp ?_
    cases a <;> decide
  cases f with
  | interface action =>
    simp only [exported, String.toList_append, List.forall_mem_append]
    exact ⟨⟨List.all_eq_true.mp (by decide), hpascal⟩, haction action⟩
  | request action | response action =>
    simp only [exported, String.toList_append, List.forall_mem_append]
    exact ⟨⟨hpascal, haction action⟩, List.all_eq_true.mp (by decide)⟩
  | module | controller | service | repository =>
    simp only [exported, String.toList_append, List.forall_mem_append]
    exact ⟨hpascal, List.all_eq_true.mp (by decide)⟩

private theorem exported_ne_empty (hn : n.IsPlain) (f : PackageFile) : f.exported n ≠ "" := by
  have hpascal := hn.pascal.ne_empty
  cases f <;> simp [exported, hpascal]

/-- A path below the directory of the resource is one line without quotes. -/
theorem origin_chars (hn : n.IsPlain) (f target : PackageFile) :
    IsOneLine (f.origin n target) ∧ '\x22' ∉ (f.origin n target).toList := by
  have hkebab : '\n' ∉ n.kebab.toList ∧ '\x22' ∉ n.kebab.toList :=
    ⟨fun h => absurd (hn.kebab _ h) (by decide), fun h => absurd (hn.kebab _ h) (by decide)⟩
  obtain ⟨-, hquote, hnewline, -⟩ := target.suffix_chars
  unfold IsOneLine origin
  cases f <;> cases target <;> simp [up, directory, hkebab, hquote, hnewline]

end PackageFile

/-- An import in a file of a package, whose line can be read, and which comes from a package of
its own or from the file of the package that exports the one name it takes. -/
structure IsSoundImport (n : ResourceName) (f : PackageFile) (i : Import) : Prop where
  isReadable : i.IsReadable
  names_isOneLine : ∀ name ∈ i.names, IsOneLine name
  origin_isOneLine : IsOneLine i.origin
  isExported : IsRelative i.origin →
    ∃ target : PackageFile, i.origin = f.origin n target ∧ i.names = [target.exported n]

/-- The line of a sound import is one line. -/
theorem IsSoundImport.isOneLine_line {n : ResourceName} {f : PackageFile} {i : Import}
    (h : IsSoundImport n f i) : IsOneLine i.line :=
  i.isOneLine_line h.names_isOneLine h.origin_isOneLine

/-- The import of a file of the package is sound. -/
theorem isSoundImport_file {n : ResourceName} (hn : n.IsPlain) (f target : PackageFile)
    {origin : String} {names : List String} (horigin : origin.toList = (f.origin n target).toList)
    (hnames : names = [target.exported n]) : IsSoundImport n f ⟨origin, names⟩ := by
  rw [String.toList_inj] at horigin
  subst horigin hnames
  have hexported := target.isIdentifierChar_exported hn
  obtain ⟨hline, hquote⟩ := f.origin_chars hn target
  have hname : IsImportName (target.exported n).toList := by
    refine ⟨by simpa using target.exported_ne_empty hn, fun c hc => ?_⟩
    have hkebab := isKebabChar_of_isIdentifierChar (hexported c hc)
    have hchar := forall_isKebabChar (fun c => !isSeparator c && c != '\x7d')
      (by decide) hkebab
    simpa using hchar
  refine ⟨⟨by simp, by simpa using hname, hquote⟩, ?_, hline, fun _ => ⟨target, rfl, rfl⟩⟩
  simpa using isOneLine_of_isKebabChar fun c hc =>
    isKebabChar_of_isIdentifierChar (hexported c hc)

/-- An import from a package of its own. -/
def IsPackageImport (origin : String) (names : List String) : Prop :=
  (names ≠ [] ∧ ∀ name ∈ names, IsImportName name.toList ∧ IsOneLine name) ∧
    '\x22' ∉ origin.toList ∧ IsOneLine origin ∧ origin.toList.head? ≠ some '.'

/-- It is decided by the known packages. -/
instance (origin : String) (names : List String) : Decidable (IsPackageImport origin names) :=
  inferInstanceAs (Decidable (_ ∧ _))

/-- Imports from a package are sound. -/
theorem isSoundImport_package {n : ResourceName} {f : PackageFile} {origin : String}
    {names : List String} (h : IsPackageImport origin names) :
    IsSoundImport n f ⟨origin, names⟩ := by
  obtain ⟨⟨hne, hnames⟩, hquote, hline, hhead⟩ := h
  refine ⟨⟨hne, fun name hname => (hnames name hname).1, hquote⟩,
    fun name hname => (hnames name hname).2, hline, ?_⟩
  rintro (⟨rest, hrest⟩ | ⟨rest, hrest⟩)
  · exact absurd (hrest ▸ rfl) hhead
  · exact absurd (hrest ▸ rfl) hhead

/-- The entries of a table made from sound imports are sound. -/
theorem isSoundImport_ofList {n : ResourceName} {f : PackageFile}
    {list : List (String × List String)} (h : ∀ p ∈ list, IsSoundImport n f ⟨p.1, p.2⟩) :
    ∀ e ∈ (Imports.ofList list).entries, IsSoundImport n f e :=
  fun _ he => h _ (Imports.mem_of_mem_entries_ofList he)

/-- Adding an import from a package keeps a table sound. -/
theorem isSoundImport_add {n : ResourceName} {f : PackageFile} {imports : Imports}
    {origin : String} {names : List String}
    (h : ∀ e ∈ imports.entries, IsSoundImport n f e) (hpackage : IsPackageImport origin names) :
    ∀ e ∈ (imports.add origin names).entries, IsSoundImport n f e := by
  intro e he
  rcases Imports.mem_entries_add he with he | rfl | ⟨old, hold, horigin, rfl⟩
  · exact h e he
  · exact isSoundImport_package hpackage
  · -- the names of both entries come from one origin
    obtain ⟨⟨-, hnames⟩, hquote, hline, hhead⟩ := hpackage
    have hsound := h old hold
    refine isSoundImport_package ⟨⟨by simp [hsound.isReadable.names_ne_nil], ?_⟩, hquote, hline,
      hhead⟩
    rw [List.forall_mem_append]
    exact ⟨fun name hname => ⟨hsound.isReadable.isImportName name hname,
      hsound.names_isOneLine name hname⟩, hnames⟩

end NestLayers

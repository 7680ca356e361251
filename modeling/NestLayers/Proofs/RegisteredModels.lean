import Mathlib.Data.List.Forall2
import NestLayers.Proofs.ImportLines
import NestLayers.Proofs.PackageRun
import NestLayers.Proofs.ParsedDefinition

/-!
# The models of the registry are declared

The registry is made from the headers of all definition units, and the definitions are read from the
same units afterwards. Both look for the header in the text without its byte-order mark, but only
reading a definition passes over a second mark. Where no unit has a second mark, every model of the
registry is the model of a definition.
-/

namespace NestLayers

/-- A definition knows the unit that it was read from. -/
theorem Definition.origin_of_parse {registry : Registry} {fileId text : String}
    {location : Location} {d : Definition} (h : parse registry fileId location text = .ok d) :
    d.fileId = fileId ∧ d.location = location := by
  rw [parse_eq] at h
  obtain ⟨⟨name, description, lines⟩, -, hd⟩ := except_bind_eq_ok.mp h
  obtain rfl := Except.ok.inj hd
  exact ⟨rfl, rfl⟩

/-! ## Reading units -/

/-- The definition unit in a file has a text. -/
def FileTree.HasUnit (tree : FileTree) (path : Path) (text : String) : Prop :=
  ∀ s : Session, s.tree = tree → DefinitionStore.readUnit path s = .ok text s

/-- The name is among those of a registry that a model was added to. -/
theorem Registry.mem_names_insert {registry : Registry} {model name : String} {aggregate : Bool} :
    name ∈ (registry.insert model aggregate).names ↔ name ∈ registry.names ∨ name = model := by
  unfold insert
  rw [Text.mem_firstOccurrences, List.mem_append, List.mem_singleton]

/-- Work that tells the same in all sessions with one tree leaves the tree as it was. -/
theorem tree_of_eq_ok {α : Type} {work : Work α} {s s' : Session} {a : α}
    (hwork : Agrees (Same s.tree) work work) (h : work s = .ok a s') : s'.tree = s.tree := by
  have hagree := hwork s s ⟨rfl, rfl, rfl⟩
  rw [h] at hagree
  obtain ⟨_, _, -, -, hsame⟩ := hagree.exists_of_ok
  exact hsame.1

namespace DefinitionStore

variable {store : DefinitionStore} {registry models : Registry} {s s' s₁ s₂ : Session}
  {path : Path} {text : String} {units : List (Location × Path)} {ds : List Definition}

/-- Reading a unit changes nothing. -/
theorem readUnit_eq_ok (h : readUnit path s = .ok text s') :
    s' = s ∧ s.tree.HasUnit path text := by
  rw [readUnit_run] at h
  split at h
  · cases h
  · cases h
  · rename_i place hplace
    split at h
    · rename_i unit hunit
      obtain ⟨rfl, rfl⟩ := EStateM.Result.ok.inj h
      refine ⟨rfl, fun t ht => ?_⟩
      rw [readUnit_run, ht, hplace]
      dsimp only
      rw [hunit]
    · cases h

/-- Registering a unit adds the model of its header. -/
theorem register_eq_ok {unit : Location × Path} (h : register registry unit s = .ok models s') :
    s'.tree = s.tree ∧ ∃ text, s.tree.HasUnit unit.2 text ∧
      ∀ name ∈ models.names, name ∈ registry.names ∨
        ∃ header, Header.find? text.toList = some header ∧ header.name = name := by
  obtain ⟨text, s₁, hread, hrest⟩ := bind_eq_ok.mp h
  obtain ⟨rfl, hunit⟩ := readUnit_eq_ok hread
  cases hheader : Header.find? text.toList with
  | none =>
    rw [hheader] at hrest
    obtain ⟨rfl, rfl⟩ := EStateM.Result.ok.inj hrest
    exact ⟨rfl, text, hunit, fun name hname => .inl hname⟩
  | some header =>
    have hinsert : registry.insert header.name (unit.1 == .aggregate) = models ∧
        s'.tree = s₁.tree := by
      rw [hheader] at hrest
      dsimp only at hrest
      split at hrest <;> obtain ⟨rfl, rfl⟩ := EStateM.Result.ok.inj hrest <;> exact ⟨rfl, rfl⟩
    obtain ⟨rfl, htree⟩ := hinsert
    refine ⟨htree, text, hunit, fun name hname => ?_⟩
    exact (Registry.mem_names_insert.mp hname).imp_right fun h => ⟨header, hheader, h.symm⟩

/-- Every model of the registry has a unit with a header of its name. -/
theorem exists_unit_of_foldlM (h : units.foldlM register registry s = .ok models s') :
    s'.tree = s.tree ∧ ∀ name ∈ models.names, name ∈ registry.names ∨
      ∃ unit ∈ units, ∃ text header, s.tree.HasUnit unit.2 text ∧
        Header.find? text.toList = some header ∧ header.name = name := by
  induction units generalizing registry s with
  | nil =>
    obtain ⟨rfl, rfl⟩ := EStateM.Result.ok.inj h
    exact ⟨rfl, fun name hname => .inl hname⟩
  | cons unit units ih =>
    rw [List.foldlM_cons] at h
    obtain ⟨first, s₁, hfirst, hrest⟩ := bind_eq_ok.mp h
    obtain ⟨htree, text, hunit, hnames⟩ := register_eq_ok hfirst
    obtain ⟨htree', hlater⟩ := ih hrest
    refine ⟨htree'.trans htree, fun name hname => ?_⟩
    rcases hlater name hname with hname | ⟨other, hother, hfound⟩
    · refine (hnames name hname).imp_right ?_
      rintro ⟨header, hheader, hname⟩
      exact ⟨unit, List.mem_cons_self, text, header, hunit, hheader, hname⟩
    · rw [htree] at hfound
      exact .inr ⟨other, List.mem_cons_of_mem _ hother, hfound⟩

/-- The definition is what the unit declares. -/
def IsReadFrom (registry : Registry) (tree : FileTree) (unit : Location × Path) (d : Definition) :
    Prop :=
  ∃ text, tree.HasUnit unit.2 text ∧
    Definition.parse registry (unitId unit.2.name) unit.1 text = .ok d

private theorem readFile_eq_ok {unit : Location × Path} {d : Definition}
    (h : readFile registry unit.1 unit.2 s = .ok d s') :
    s'.tree = s.tree ∧ IsReadFrom registry s.tree unit d := by
  refine ⟨tree_of_eq_ok ((reads_same s.tree).readFile registry unit.1 unit.2) h, ?_⟩
  obtain ⟨text, s₁, hread, hrest⟩ := bind_eq_ok.mp h
  obtain ⟨rfl, hunit⟩ := readUnit_eq_ok hread
  obtain ⟨-, s₂, -, hresult⟩ := bind_eq_ok.mp hrest
  cases hparse : Definition.parse registry (unitId unit.2.name) unit.1 text with
  | error error =>
    rw [hparse] at hresult
    cases hresult
  | ok definition =>
    rw [hparse] at hresult
    obtain ⟨rfl, -⟩ := EStateM.Result.ok.inj hresult
    exact ⟨text, hunit, hparse⟩

/-- Units are read one after another, and the tree stays. -/
theorem mapM_readFile_eq_ok
    (h : units.mapM (fun unit => readFile registry unit.1 unit.2) s = .ok ds s') :
    s'.tree = s.tree ∧ List.Forall₂ (IsReadFrom registry s.tree) units ds := by
  induction units generalizing s ds with
  | nil =>
    obtain ⟨rfl, rfl⟩ := EStateM.Result.ok.inj h
    exact ⟨rfl, .nil⟩
  | cons unit units ih =>
    obtain ⟨d, s₁, rest, hfirst, hrest, rfl⟩ := mapM_cons_eq_ok.mp h
    obtain ⟨htree, hd⟩ := readFile_eq_ok hfirst
    obtain ⟨htree', hds⟩ := ih hrest
    rw [htree] at htree' hds
    exact ⟨htree', .cons hd hds⟩

/-! ## All units of a store -/

/-- In sessions with the same tree the same units are listed. -/
theorem exists_allFiles_eq_ok (h : store.allFiles s = .ok units s') (htree : s₁.tree = s.tree) :
    ∃ s₁', store.allFiles s₁ = .ok units s₁' ∧ s₁'.tree = s.tree := by
  have hagree := (reads_across s.tree s₁.registry).allFiles store s s₁ ⟨rfl, htree, rfl⟩
  rw [h] at hagree
  obtain ⟨_, s₁', hunits, rfl, -, htree', -⟩ := hagree.exists_of_ok
  exact ⟨s₁', hunits, htree'⟩

/-- Every model of the registry is that of a header of some unit. -/
theorem buildRegistry_eq_ok (h : store.buildRegistry s = .ok models s') :
    s'.tree = s.tree ∧ ∃ units t, store.allFiles s = .ok units t ∧
      ∀ name ∈ models.names, ∃ unit ∈ units, ∃ text header, s.tree.HasUnit unit.2 text ∧
        Header.find? text.toList = some header ∧ header.name = name := by
  refine ⟨tree_of_eq_ok ((reads_same s.tree).buildRegistry store) h, ?_⟩
  obtain ⟨units, t, hunits, hrest⟩ := bind_eq_ok.mp h
  obtain ⟨registry, s₁, hfold, hresult⟩ := bind_eq_ok.mp hrest
  obtain ⟨rfl, -⟩ := EStateM.Result.ok.inj hresult
  obtain ⟨-, hnames⟩ := exists_unit_of_foldlM hfold
  rw [tree_of_eq_ok ((reads_same s.tree).allFiles store) hunits] at hnames
  exact ⟨units, t, hunits, fun name hname => (hnames name hname).resolve_left List.not_mem_nil⟩

/-- Each definition is read from one unit, in order. -/
theorem loadAll_eq_ok (h : store.loadAll models true s = .ok ds s') :
    s'.tree = s.tree ∧ ∃ units t, store.allFiles s = .ok units t ∧
      List.Forall₂ (IsReadFrom models s.tree) units ds := by
  refine ⟨tree_of_eq_ok ((reads_same s.tree).loadAll store models true) h, ?_⟩
  obtain ⟨_, s₁, hrecord, hrest⟩ := bind_eq_ok.mp h
  obtain ⟨-, rfl⟩ := EStateM.Result.ok.inj hrecord
  obtain ⟨units, s₂, hunits, hread⟩ := bind_eq_ok.mp hrest
  obtain ⟨t, hunits', -⟩ := exists_allFiles_eq_ok hunits (show s.tree = _ from rfl)
  simp only [Bool.true_or, List.filter_true] at hread
  obtain ⟨-, hds⟩ := mapM_readFile_eq_ok hread
  rw [tree_of_eq_ok ((reads_same _).allFiles store) hunits] at hds
  exact ⟨units, t, hunits', hds⟩

/-- Every item of a list has its fellow in a list that is related to it. -/
theorem exists_of_forall₂ {α β : Type} {R : α → β → Prop} {items : List α} {others : List β} {b : β}
    (h : List.Forall₂ R items others) (hb : b ∈ others) : ∃ a ∈ items, R a b := by
  induction h with
  | nil => cases hb
  | cons hfirst _ ih =>
    rcases List.mem_cons.mp hb with rfl | hb
    · exact ⟨_, List.mem_cons_self, hfirst⟩
    · obtain ⟨a, ha, hrelated⟩ := ih hb
      exact ⟨a, List.mem_cons_of_mem _ ha, hrelated⟩

private theorem IsReadFrom.location_eq {tree : FileTree} {unit : Location × Path} {d : Definition}
    (h : IsReadFrom registry tree unit d) : d.location = unit.1 := by
  obtain ⟨text, -, hparse⟩ := h
  exact (Definition.origin_of_parse hparse).2

/-- The definitions of units of one location are at this location. -/
theorem location_of_forall₂ {tree : FileTree} {location : Location} {paths : List Path}
    (h : List.Forall₂ (IsReadFrom registry tree) (paths.map (location, ·)) ds) :
    ∀ d ∈ ds, d.location = location := by
  intro d hd
  obtain ⟨unit, hunit, hread⟩ := exists_of_forall₂ h hd
  obtain ⟨path, -, rfl⟩ := List.mem_map.mp hunit
  exact hread.location_eq

/-- The aggregate definitions are those among all definitions that are aggregate. -/
theorem exists_loadAggregates_eq_ok (h : store.loadAll models true s = .ok ds s')
    (htree : s₁.tree = s.tree) :
    ∃ t, store.loadAggregates models s₁ = .ok (ds.filter (·.location == .aggregate)) t := by
  obtain ⟨_, s₂, hrecord, hrest⟩ := bind_eq_ok.mp h
  obtain ⟨-, rfl⟩ := EStateM.Result.ok.inj hrecord
  obtain ⟨units, s₃, hunits, hread⟩ := bind_eq_ok.mp hrest
  obtain ⟨primary, s₄, hprimary, hlists⟩ := bind_eq_ok.mp hunits
  obtain ⟨aggregate, s₅, haggregate, hlist⟩ := bind_eq_ok.mp hlists
  obtain ⟨rfl, rfl⟩ := EStateM.Result.ok.inj hlist
  simp only [Bool.true_or, List.filter_true, List.mapM_append] at hread
  obtain ⟨first, s₆, hfirst, hreads⟩ := bind_eq_ok.mp hread
  obtain ⟨second, s₇, hsecond, happend⟩ := bind_eq_ok.mp hreads
  obtain ⟨rfl, -⟩ := EStateM.Result.ok.inj happend
  have htree₄ := tree_of_eq_ok ((reads_same _).files store .primary) hprimary
  have htree₅ := tree_of_eq_ok ((reads_same _).files store .aggregate) haggregate
  obtain ⟨htree₆, hfirst'⟩ := mapM_readFile_eq_ok hfirst
  obtain ⟨-, hsecond'⟩ := mapM_readFile_eq_ok hsecond
  -- listing and reading the aggregate units tells the same in the other session
  have hreads := reads_across s.tree s₁.registry
  have hfiles := hreads.files store .aggregate s₄ s₁ ⟨htree₄, htree, rfl⟩
  rw [haggregate] at hfiles
  obtain ⟨_, t₁, hfiles', rfl, -, ht₁⟩ := hfiles.exists_of_ok
  rw [List.mapM_map] at hsecond
  have hdefinitions := Agrees.mapM aggregate
    (fun path _ => hreads.readFile models .aggregate path) s₆ t₁
    ⟨htree₆.trans (htree₅.trans htree₄), ht₁⟩
  rw [show aggregate.mapM (readFile models .aggregate) s₆ = .ok second s₇ from hsecond]
    at hdefinitions
  obtain ⟨_, t₂, hdefinitions', rfl, -⟩ := hdefinitions.exists_of_ok
  refine ⟨t₂, ?_⟩
  have hnone : first.filter (·.location == .aggregate) = [] := by
    refine List.filter_eq_nil_iff.mpr fun d hd => ?_
    rw [location_of_forall₂ hfirst' d hd]
    decide
  have hall : second.filter (·.location == .aggregate) = second := by
    refine List.filter_eq_self.mpr fun d hd => ?_
    rw [location_of_forall₂ hsecond' d hd]
    decide
  rw [List.filter_append, hnone, hall]
  exact bind_eq_ok.mpr ⟨aggregate, t₁, hfiles', hdefinitions'⟩

/-! ## Registered models -/

/-- No text of a unit starts with a byte-order mark, besides the one that reading it drops. -/
def IsUnmarked (store : DefinitionStore) (s : Session) : Prop :=
  ∀ units s', store.allFiles s = .ok units s' → ∀ unit ∈ units, ∀ text,
    s.tree.HasUnit unit.2 text → text.toList.head? ≠ some '\ufeff'

/-- Only a mark is passed over. -/
theorem withoutMark_eq_self {cs : List Char} (h : cs.head? ≠ some '\ufeff') :
    Definition.withoutMark cs = cs := by
  unfold Definition.withoutMark
  split
  · rename_i c rest
    refine if_neg fun hc => h ?_
    rw [List.head?_cons, ← Char.ofNat_toNat c, hc]
  · rfl

/-- A definition has the name in the header of its unit. -/
theorem IsReadFrom.name_eq {tree : FileTree} {unit : Location × Path} {d : Definition}
    (h : IsReadFrom registry tree unit d) (htree : s.tree = tree) (hunit : tree.HasUnit unit.2 text)
    (hmark : text.toList.head? ≠ some '\ufeff') {header : Header}
    (hheader : Header.find? text.toList = some header) : d.name = header.name := by
  obtain ⟨text', hunit', hparse⟩ := h
  obtain ⟨rfl, -⟩ := EStateM.Result.ok.inj ((hunit s htree).symm.trans (hunit' s htree))
  obtain ⟨lines, hread, -⟩ := Definition.parse_eq_ok hparse
  obtain ⟨header', chars, hheader', -, -, -, hname, -⟩ := Definition.readUnit_eq_ok hread
  rw [withoutMark_eq_self hmark, hheader] at hheader'
  rw [hname, Option.some.inj hheader']

/-- **The models of the registry are declared.** Every model of the registry that is built from the
units is the model of a definition that is read from them. -/
theorem exists_definition_of_contains (hbuild : store.buildRegistry s = .ok models s₁)
    (hload : store.loadAll models true s₁ = .ok ds s₂) (hmarks : store.IsUnmarked s) {name : String}
    (hname : models.contains name = true) : ∃ d ∈ ds, d.name = name := by
  obtain ⟨htree, units, t, hunits, hregistered⟩ := buildRegistry_eq_ok hbuild
  obtain ⟨-, units', t', hunits', hds⟩ := loadAll_eq_ok hload
  obtain ⟨_, hsame, -⟩ := exists_allFiles_eq_ok hunits htree
  obtain ⟨rfl, -⟩ := EStateM.Result.ok.inj (hunits'.symm.trans hsame)
  obtain ⟨unit, hunit, text, header, htext, hheader, rfl⟩ :=
    hregistered name (List.contains_iff_mem.mp hname)
  rw [htree] at hds
  obtain ⟨d, hd, hread⟩ : ∃ d ∈ ds, IsReadFrom models s.tree unit d :=
    exists_of_forall₂ hds.flip hunit
  exact ⟨d, hd, hread.name_eq rfl htext (hmarks _ _ hunits unit hunit text htext) hheader⟩

end DefinitionStore

end NestLayers

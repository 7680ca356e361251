import NestLayers.Proofs.FileFaults
import NestLayers.Proofs.PackageRun
import NestLayers.Proofs.ResourceDirectory

/-!
# What a search for a directory answers

A search visits the directories below a root in pre-order: a directory comes before what it holds,
and siblings come in increasing order of their names, each with all it holds. Two rules say which of
two directories comes first, and they make up the lexicographic order in which a tree is walked.

Main statement: a search is refused exactly if its root is too long to be looked up, or if it gives up
at an entry that is visited before every directory of the name, because the path of the entry is too
long or because it is nested too deep. Otherwise it answers nothing exactly if no directory below the
root has the name, and else the first one. The answer stays the same whatever becomes of regular
files, as long as the paths of new ones are not too long, every directory stays, and all new ones lie
inside the directory that was found.
-/

namespace NestLayers

namespace FileTree

variable {tree before after : FileTree} {root path : Path} {place : Place} {name : String}
  {names other : List String} {answer : Option Path}

/-! ## The order of the visit -/

/-- The one directory is visited before the other one, by the names that lead to them. -/
inductive Precedes : List String → List String → Prop
  /-- A directory comes before what it holds. -/
  | holds (names : List String) (name : String) (rest : List String) :
    Precedes names (names ++ name :: rest)
  /-- What a sibling holds comes before what a greater one holds. -/
  | beside (names : List String) {first second : String} (h : first < second)
    (rest others : List String) : Precedes (names ++ first :: rest) (names ++ second :: others)

private theorem Precedes.cons (h : Precedes names other) (first : String) :
    Precedes (first :: names) (first :: other) := by
  cases h with
  | holds names name rest => exact .holds (first :: names) name rest
  | beside names h rest others => exact .beside (first :: names) h rest others

/-- The order of the visit is lexicographic. -/
theorem precedes_iff_lt : Precedes names other ↔ names < other := by
  constructor
  · intro h
    cases h with
    | holds name rest =>
      exact lt_of_le_of_ne (le_of_isPrefix (List.prefix_append _ _)) (by simp)
    | beside names h rest others => exact List.append_left_lt (List.cons_lt_cons_iff.mpr (.inl h))
  · intro h
    induction names generalizing other with
    | nil =>
      cases other with
      | nil => exact absurd h (lt_irrefl _)
      | cons first other => exact .holds [] first other
    | cons first names ih =>
      cases other with
      | nil => exact absurd h (List.not_lt_nil _)
      | cons second other =>
        rcases List.cons_lt_cons_iff.mp h with hlt | ⟨rfl, hlt⟩
        · exact .beside [] hlt names other
        · exact (ih hlt).cons first

/-! ## What is looked for -/

/-- The names lead from a root to a directory below it that has a given name. -/
structure Offers (tree : FileTree) (root : Path) (name : String) (names : List String) : Prop where
  last : names.getLast? = some name
  isDirectory : tree.isDirectory root = true
  directory : tree.get? (root.place ++ names) = some .directory

/-- The names lead to the directory of a name that is visited first. -/
structure IsFirstOffer (tree : FileTree) (root : Path) (name : String) (names : List String) :
    Prop extends tree.Offers root name names where
  precedes : ∀ other, tree.Offers root name other → other = names ∨ Precedes names other

/-- The search for a name gives up at an entry: its path is too long, or it is another directory that
is nested too deep, and no directory of the name is visited before it. -/
structure GivesUp (tree : FileTree) (root : Path) (name : String) (names : List String)
    (fault : FileFault) : Prop where
  isDirectory : tree.isDirectory root = true
  settles : tree.Settles name deepestNesting root.place root names (.error fault)
  precedes : ∀ other, tree.Offers root name other → other = names ∨ Precedes names other

private theorem eq_or_precedes_iff : other = names ∨ Precedes names other ↔ names ≤ other := by
  rw [precedes_iff_lt, le_iff_eq_or_lt, eq_comm]

/-! ## The answer -/

/-- An entry that settles a search is visited before every directory of the name, if it is the first
that settles it. -/
theorem eq_or_precedes_of_offers
    (h : ∀ other result, tree.Settles name deepestNesting root.place root other result →
      names ≤ other) :
    ∀ other, tree.Offers root name other → other = names ∨ Precedes names other := by
  intro other hoffers
  obtain ⟨result, hresult⟩ := exists_settles hoffers.last hoffers.directory
  exact eq_or_precedes_iff.mpr (h other result hresult)

/-- **A search is refused, finds the first directory of the name, or finds that there is none.** It is
refused by the first entry at which it gives up. -/
theorem findDirectory_cases (h : tree.IsProper) (hroot : tree.locate root ≠ .error .nameTooLong)
    (name : String) :
    (∃ fault names, tree.findDirectory root name = .error fault ∧
      tree.GivesUp root name names fault ∧
      ∀ other fault', tree.GivesUp root name other fault' → other = names ∨ Precedes names other) ∨
    ((∀ names fault, ¬ tree.GivesUp root name names fault) ∧
      ((tree.findDirectory root name = .ok none ∧ ∀ names, ¬ tree.Offers root name names) ∨
        ∃ names, tree.findDirectory root name = .ok (some (root.below names)) ∧
          tree.IsFirstOffer root name names)) := by
  by_cases hdirectory : tree.isDirectory root = true
  swap
  · right
    refine ⟨fun names fault hgives => hdirectory hgives.isDirectory,
      .inl ⟨?_, fun names hoffers => hdirectory hoffers.isDirectory⟩⟩
    obtain ⟨entry, hfind⟩ := find_eq_ok_iff.mpr hroot
    rw [findDirectory_of_not_isDirectory hdirectory, hfind]
    rfl
  rcases comesTo_findDirectory h hdirectory name with ⟨hnone, hothers⟩ | ⟨names, -, hnames, hleast⟩
  · right
    refine ⟨fun names fault hgives => hothers names trivial _ hgives.settles,
      .inl ⟨hnone, fun names hoffers => ?_⟩⟩
    obtain ⟨result, hresult⟩ := exists_settles hoffers.last hoffers.directory
    exact hothers names trivial result hresult
  have hfirst := eq_or_precedes_of_offers fun other result => hleast other trivial result
  cases hresult : tree.findDirectory root name with
  | error fault =>
    rw [hresult] at hnames
    exact .inl ⟨fault, names, rfl, ⟨hdirectory, hnames, hfirst⟩, fun other fault' hother =>
      eq_or_precedes_iff.mpr (hleast other trivial _ hother.settles)⟩
  | ok answer =>
    rw [hresult] at hnames
    cases hnames with
    | found hlast hget hshort =>
      have hoffers : tree.Offers root name names := ⟨hlast, hdirectory, hget⟩
      refine .inr ⟨fun other fault hother => ?_, .inr ⟨names, rfl, hoffers, hfirst⟩⟩
      -- to give up at the first directory of the name would settle the search in another way
      obtain rfl : other = names := le_antisymm
        (eq_or_precedes_iff.mp (hother.precedes names hoffers))
        (hleast other trivial _ hother.settles)
      cases hother.settles.unique (.found hlast hget hshort)

/-- A search that does not give up answers the first directory of the name, if there is one. -/
theorem exists_answer (h : tree.IsProper) (hroot : tree.locate root ≠ .error .nameTooLong)
    (hnone : ∀ names fault, ¬ tree.GivesUp root name names fault) :
    ∃ answer, tree.findDirectory root name = .ok answer ∧
      (answer = none ↔ ∀ names, ¬ tree.Offers root name names) ∧
      ∀ path, answer = some path ↔
        ∃ names, path = root.below names ∧ tree.IsFirstOffer root name names := by
  rcases findDirectory_cases h hroot name with
    ⟨fault, names, -, hgives, -⟩ | ⟨-, ⟨hrun, hoffers⟩ | ⟨names, hrun, hfirst⟩⟩
  · exact absurd hgives (hnone names fault)
  · refine ⟨none, hrun, by simpa using hoffers, fun path => ?_⟩
    simp only [reduceCtorEq, false_iff]
    rintro ⟨names, -, hfirst⟩
    exact hoffers names hfirst.toOffers
  · refine ⟨_, hrun, ?_, fun path => ?_⟩
    · simp only [reduceCtorEq, false_iff, not_forall, not_not]
      exact ⟨names, hfirst.toOffers⟩
    · rw [Option.some.injEq]
      constructor
      · rintro rfl
        exact ⟨names, rfl, hfirst⟩
      · rintro ⟨other, rfl, hother⟩
        obtain rfl : names = other := le_antisymm
          (eq_or_precedes_iff.mp (hfirst.precedes other hother.toOffers))
          (eq_or_precedes_iff.mp (hother.precedes names hfirst.toOffers))
        rfl

end FileTree

variable {root : Path} {name : String} {s : Session}

private theorem findDirectory_of_nameTooLong (h : s.tree.locate root = .error .nameTooLong) :
    findDirectory root name s = .error (.crash (.fault (.nameTooLong root))) s := by
  have hfind : s.tree.find root = .error (.nameTooLong root) := by
    rw [FileTree.find, h]
  rw [findDirectory, look_run]
  simp only [FileTree.findDirectory, hfind]
  rfl

/-- **A search answers the first directory of a name.** A root that is too long is refused. Below
any other root a search is refused exactly if it gives up at an entry that is visited before every
directory of the name: the path of the entry is too long, or the entry is a directory that is nested
too deep. Otherwise the answer is nothing exactly if there is no directory of the name, and it is a
path exactly if this leads to the first such directory. Adding and removing regular files, with paths
that are not too long, does not change it, nor does adding directories inside the one that was
found. -/
theorem findDirectory_answers_first (root : Path) (name : String) (s : Session)
    (hs : s.tree.IsProper) :
    (s.tree.locate root = .error .nameTooLong →
      findDirectory root name s = .error (.crash (.fault (.nameTooLong root))) s ∧
      ∀ later : Session, s.tree.KeepsDirectories later.tree →
        findDirectory root name later = .error (.crash (.fault (.nameTooLong root))) later) ∧
    (s.tree.locate root ≠ .error .nameTooLong →
      (∀ fault, findDirectory root name s = .error (.crash (.fault fault)) s ↔
        ∃ names, s.tree.GivesUp root name names fault ∧ ∀ other fault',
          s.tree.GivesUp root name other fault' → other = names ∨ FileTree.Precedes names other) ∧
      ((∀ names fault, ¬ s.tree.GivesUp root name names fault) → ∃ answer,
        findDirectory root name s = .ok answer s ∧
        (answer = none ↔ ∀ names, ¬ s.tree.Offers root name names) ∧
        (∀ path, answer = some path ↔
          ∃ names, path = root.below names ∧ s.tree.IsFirstOffer root name names) ∧
        ∀ later : Session, later.tree.IsProper → s.tree.GrowsInside root answer later.tree →
          findDirectory root name later = .ok answer later)) := by
  refine ⟨fun hlong => ⟨findDirectory_of_nameTooLong hlong, fun later hlater =>
    findDirectory_of_nameTooLong (hlater.locate_nameTooLong hlong)⟩, fun hroot => ⟨?_, ?_⟩⟩
  · intro fault
    have hlook : findDirectory root name s = .error (.crash (.fault fault)) s ↔
        s.tree.findDirectory root name = .error fault := by
      simp [findDirectory, look_eq_error]
    rw [hlook]
    rcases FileTree.findDirectory_cases hs hroot name with
      ⟨fault', names, hrun, hgives, hfirst⟩ | ⟨hnone, hrun⟩
    · rw [hrun]
      constructor
      · rintro ⟨⟩
        exact ⟨names, hgives, hfirst⟩
      · rintro ⟨other, hother, hleast⟩
        obtain rfl : other = names := le_antisymm
          (FileTree.eq_or_precedes_iff.mp (hleast names fault' hgives))
          (FileTree.eq_or_precedes_iff.mp (hfirst other fault hother))
        cases hgives.settles.unique hother.settles
        rfl
    · refine ⟨fun herror => ?_, fun ⟨names, hgives, _⟩ => absurd hgives (hnone names fault)⟩
      rcases hrun with ⟨hrun, -⟩ | ⟨_, hrun, -⟩ <;> cases hrun.symm.trans herror
  · intro hnone
    obtain ⟨answer, hrun, hempty, hsome⟩ := FileTree.exists_answer hs hroot hnone
    refine ⟨answer, look_eq_ok.mpr ⟨hrun, rfl⟩, hempty, hsome, fun later hlater hgrows => ?_⟩
    exact look_eq_ok.mpr ⟨hgrows.findDirectory_eq hs hlater hrun, rfl⟩

/-! ## A search in a project -/

/-- The top of a project. -/
def projectTop : Path := ⟨.top, ["ROOT"]⟩

/-- A project with two directories of a name. -/
def twoOrders : Session :=
  { tree := ⟨[(["ROOT"], .directory), (["ROOT", "b"], .directory),
      (["ROOT", "b", "order"], .directory), (["ROOT", "a"], .directory),
      (["ROOT", "a", "nested"], .directory), (["ROOT", "a", "nested", "order"], .directory),
      (["ROOT", "a", "old.ts"], .file (.text "a"))]⟩ }

/-- The project after files were added and removed, and a directory was added inside the one that is
found. -/
def furnishedOrders : Session :=
  { tree := ⟨[(["ROOT"], .directory), (["ROOT", "b"], .directory),
      (["ROOT", "b", "order"], .directory), (["ROOT", "a"], .directory),
      (["ROOT", "a", "nested"], .directory), (["ROOT", "a", "nested", "order"], .directory),
      (["ROOT", "a", "nested", "order", "order"], .directory),
      (["ROOT", "a", "new.ts"], .file (.text "b")), (["ROOT", "order"], .file (.text "c"))]⟩ }

/-- The names that lead to the directory that is found. -/
def nestedOrder : List String := ["a", "nested", "order"]

private theorem growsInside_furnishedOrders :
    twoOrders.tree.GrowsInside projectTop (some (projectTop.below nestedOrder))
      furnishedOrders.tree := by
  have hold : ∀ e ∈ twoOrders.tree.entries, e.2 = .directory →
      furnishedOrders.tree.get? e.1 = some .directory := by
    decide
  have hnew : ∀ e ∈ furnishedOrders.tree.entries, e.2 = .directory →
      twoOrders.tree.get? e.1 = some .directory ∨ projectTop.place ++ nestedOrder <+: e.1 := by
    decide
  have hfiles : ∀ e ∈ furnishedOrders.tree.entries,
      (projectTop.below (e.1.drop 1)).toString.utf8ByteSize ≤ FileTree.longestPath := by
    decide +kernel
  constructor
  · intro place hplace
    by_cases htop : place = []
    · simp [htop, FileTree.get?]
    · exact hold _ (FileTree.mem_entries htop hplace) rfl
  · intro place hplace hbefore
    have htop : place ≠ [] := by
      rintro rfl
      exact hbefore rfl
    have hinside := hnew _ (FileTree.mem_entries htop hplace) rfl
    exact ⟨nestedOrder, rfl, hinside.resolve_left hbefore⟩
  · intro names content hcontent _
    have hplace : projectTop.place ++ names ≠ [] := List.cons_ne_nil _ _
    exact hfiles _ (FileTree.mem_entries hplace (FileTree.contentAt?_eq_some.mp hcontent))

/-- Of two directories of a name the first one is found, also when the project is furnished. -/
theorem findDirectory_answers_first_nested :
    twoOrders.tree.IsProper ∧ furnishedOrders.tree.IsProper ∧
      findDirectory projectTop "order" twoOrders =
        .ok (some (projectTop.below nestedOrder)) twoOrders ∧
      twoOrders.tree.IsFirstOffer projectTop "order" nestedOrder ∧
      findDirectory projectTop "order" furnishedOrders =
        .ok (some (projectTop.below nestedOrder)) furnishedOrders := by
  have hproper : twoOrders.tree.IsProper :=
    FileTree.isProper_of_entries (by decide) (by decide)
  have hlater : furnishedOrders.tree.IsProper :=
    FileTree.isProper_of_entries (by decide) (by decide)
  have hroot : twoOrders.tree.locate projectTop ≠ .error .nameTooLong := by decide +kernel
  have hfound : twoOrders.tree.findDirectory projectTop "order" =
      .ok (some (projectTop.below nestedOrder)) := by
    decide +kernel
  have hnone : ∀ names fault, ¬ twoOrders.tree.GivesUp projectTop "order" names fault := by
    rcases FileTree.findDirectory_cases hproper hroot "order" with ⟨_, _, herror, -⟩ | ⟨hnone, -⟩
    · cases hfound.symm.trans herror
    · exact hnone
  obtain ⟨answer, hrun, -, hsome, hstays⟩ :=
    ((findDirectory_answers_first projectTop "order" twoOrders hproper).2 hroot).2 hnone
  obtain rfl : answer = some (projectTop.below nestedOrder) :=
    Except.ok.inj ((look_eq_ok.mp hrun).1.symm.trans hfound)
  obtain ⟨names, hnames, hfirst⟩ := (hsome _).mp rfl
  obtain rfl : nestedOrder = names := by simpa [Path.below] using hnames
  exact ⟨hproper, hlater, hrun, hfirst, hstays _ hlater growsInside_furnishedOrders⟩

/-- A name that no file can have, because it is too long. -/
def longName : String := String.ofList (List.replicate 256 'n')

/-- Below a root that is too long there is no directory, but a search does not answer so. -/
theorem findDirectory_refuses_longName :
    (∀ names, ¬ twoOrders.tree.Offers (projectTop.below [longName]) "order" names) ∧
      findDirectory (projectTop.below [longName]) "order" twoOrders =
        .error (.crash (.fault (.nameTooLong (projectTop.below [longName])))) twoOrders := by
  have hlocate : twoOrders.tree.locate (projectTop.below [longName]) = .error .nameTooLong := by
    decide +kernel
  refine ⟨fun names hoffers => ?_, findDirectory_of_nameTooLong hlocate⟩
  rw [FileTree.locate_of_isDirectory hoffers.isDirectory] at hlocate
  cases hlocate

end NestLayers

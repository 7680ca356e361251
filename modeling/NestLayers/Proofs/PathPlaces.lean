import Mathlib.Data.List.Infix
import NestLayers.Proofs.Paths
import NestLayers.Proofs.UnitListing

/-!
# The places of paths

Where a path leads to can be read off its names: a name leads down and a double dot one level up.
The tree only decides whether the path leads there at all, which it does if every place on the way
is a directory. What is made or written at a path is therefore known before the tree is.
-/

namespace NestLayers

namespace Path

variable {p : Path} {other : Place} {names : List String} {name : String}

/-- The place that names lead to from another one, if they lead anywhere. -/
def placeFrom (place : Place) (names : List String) : Place :=
  names.foldl (fun place name => if name = ".." then place.dropLast else place ++ [name]) place

/-- The place that a path leads to, if it leads anywhere. -/
def place (p : Path) : Place :=
  placeFrom [] p.parts

/-- The places that a path leads through, from the top to its own place. -/
def way (p : Path) : List Place :=
  p.parts.inits.map (placeFrom [])

/-- No names lead nowhere else. -/
@[simp] theorem placeFrom_nil (place : Place) : placeFrom place [] = place := rfl

private theorem placeFrom_append (place : Place) (first second : List String) :
    placeFrom place (first ++ second) = placeFrom (placeFrom place first) second :=
  List.foldl_append

private theorem placeFrom_singleton (place : Place) (name : String) :
    placeFrom place [name] = if name = ".." then place.dropLast else place ++ [name] := rfl

/-- Names without double dots lead down. -/
theorem placeFrom_of_notMem (h : ".." ∉ names) (place : Place) :
    placeFrom place names = place ++ names := by
  induction names generalizing place with
  | nil => simp
  | cons name names ih =>
    obtain ⟨hname, hnames⟩ := not_or.mp (mt List.mem_cons.mpr h)
    rw [← List.singleton_append, placeFrom_append, placeFrom_singleton, if_neg (Ne.symm hname),
      ih hnames, List.append_assoc]

/-- The path that leads on from another one by some names. -/
def below (p : Path) (names : List String) : Path :=
  { p with parts := p.parts ++ names }

/-- Names are added to the place. -/
theorem place_below (p : Path) (h : ".." ∉ names) : (p.below names).place = p.place ++ names := by
  rw [place, below, placeFrom_append, placeFrom_of_notMem h, place]

/-- The parent is without the last name. -/
theorem parent_below (p : Path) (names : List String) (name : String) :
    (p.below (names ++ [name])).parent = p.below names := by
  simp [below, parent, ← List.append_assoc]

/-- On the way are the places of all fronts. -/
theorem mem_way : other ∈ p.way ↔ ∃ front, front <+: p.parts ∧ placeFrom [] front = other := by
  simp [way]

/-- The way leads to the place. -/
theorem place_mem_way (p : Path) : p.place ∈ p.way :=
  mem_way.mpr ⟨p.parts, List.prefix_rfl, rfl⟩

/-- A path leads through the places of its parent and to its own. -/
theorem mem_way_iff : other ∈ p.way ↔ other ∈ p.parent.way ∨ other = p.place := by
  rw [mem_way, mem_way, parent]
  rcases List.eq_nil_or_concat p.parts with hnil | ⟨parts, name, hconcat⟩
  · simp [hnil, place, eq_comm]
  · rw [place, hconcat, List.concat_eq_append, List.dropLast_concat]
    simp only [List.prefix_concat_iff, or_and_right, exists_or, exists_eq_left]
    rw [or_comm, eq_comm (a := other)]

/-- The way to the parent is part of the way. -/
theorem mem_way_of_parent (h : other ∈ p.parent.way) : other ∈ p.way :=
  mem_way_iff.mpr (.inl h)

/-- The last name leads down from the parent, unless it is a double dot. -/
theorem place_eq_append (hparts : p.parts ≠ []) (hname : p.name ≠ "..") :
    p.place = p.parent.place ++ [p.name] := by
  obtain ⟨parts, last, hconcat⟩ := (List.eq_nil_or_concat p.parts).resolve_left hparts
  rw [List.concat_eq_append] at hconcat
  have hlast : p.name = last := by simp [name, hconcat]
  rw [hlast] at hname ⊢
  rw [place, place, parent, hconcat, List.dropLast_concat, placeFrom_append, placeFrom_singleton,
    if_neg hname]

/-- A path that goes on without double dots leads further down. -/
theorem mem_way_below (p : Path) (h : ".." ∉ names) :
    other ∈ (p.below names).way ↔ other ∈ p.way ∨ ∃ front, front <+: names ∧ other = p.place ++ front := by
  induction names using List.reverseRecOn with
  | nil =>
    have hbelow : p.below [] = p := by simp [below]
    simpa [hbelow] using fun heq => heq ▸ p.place_mem_way
  | append_singleton names name ih =>
    have hnames : ".." ∉ names := fun hmem => h (List.mem_append_left _ hmem)
    rw [mem_way_iff, place_below p h, parent_below, ih hnames]
    simp only [List.prefix_concat_iff, or_and_right, exists_or, exists_eq_left]
    rw [or_assoc, or_comm (b := other = _)]

/-- The way to a place below a directory leads to the directory and then on by the first name. -/
theorem mem_way_below_cons (hplace : other ∈ (p.below (name :: names)).way)
    (h : ".." ∉ name :: names) : other ∈ p.way ∨ ∃ rest, other = p.place ++ name :: rest := by
  rcases (mem_way_below p h).mp hplace with hplace | ⟨front, hfront, rfl⟩
  · exact .inl hplace
  · cases front with
    | nil =>
      rw [List.append_nil]
      exact .inl p.place_mem_way
    | cons first front =>
      obtain ⟨rfl, -⟩ := List.cons_prefix_cons.mp hfront
      exact .inr ⟨front, rfl⟩

/-- What leads down to a place that names lead to is led through. -/
theorem exists_placeFrom_eq {above : Place} (h : above <+: placeFrom [] names) :
    ∃ front, front <+: names ∧ placeFrom [] front = above := by
  induction names using List.reverseRecOn generalizing above with
  | nil => exact ⟨[], List.prefix_rfl, (List.prefix_nil.mp h).symm⟩
  | append_singleton names name ih =>
    have hfront {above : Place} (habove : above <+: placeFrom [] names) :
        ∃ front, front <+: names ++ [name] ∧ placeFrom [] front = above := by
      obtain ⟨front, hfront, hplace⟩ := ih habove
      exact ⟨front, hfront.trans (List.prefix_append _ _), hplace⟩
    rw [placeFrom_append, placeFrom_singleton] at h
    split at h
    · exact hfront (h.trans (List.dropLast_prefix _))
    · rename_i hdots
      rcases List.prefix_concat_iff.mp h with rfl | habove
      · exact ⟨_, List.prefix_rfl, by rw [placeFrom_append, placeFrom_singleton, if_neg hdots]⟩
      · exact hfront habove

/-- What is above a place on the way is on the way too. -/
theorem mem_way_of_append {above : Place} (h : above ++ names ∈ p.way) : above ∈ p.way := by
  obtain ⟨front, hfront, hplace⟩ := mem_way.mp h
  obtain ⟨short, hshort, habove⟩ := exists_placeFrom_eq (hplace ▸ List.prefix_append above names)
  exact mem_way.mpr ⟨short, hshort.trans hfront, habove⟩

/-- The names of a place are names of the path and no double dots. -/
theorem mem_of_mem_placeFrom (h : name ∈ placeFrom [] names) : name ∈ names ∧ name ≠ ".." := by
  induction names using List.reverseRecOn with
  | nil => simp at h
  | append_singleton names last ih =>
    rw [placeFrom_append, placeFrom_singleton] at h
    split at h
    · obtain ⟨hmem, hne⟩ := ih (List.dropLast_subset _ h)
      exact ⟨List.mem_append_left _ hmem, hne⟩
    · rename_i hdots
      rcases List.mem_append.mp h with h | h
      · obtain ⟨hmem, hne⟩ := ih h
        exact ⟨List.mem_append_left _ hmem, hne⟩
      · obtain rfl := List.mem_singleton.mp h
        exact ⟨by simp, hdots⟩

/-- The names on the way are names of the path and no double dots. -/
theorem mem_parts_of_mem_way (h : other ∈ p.way) (hname : name ∈ other) :
    name ∈ p.parts ∧ name ≠ ".." := by
  obtain ⟨front, hfront, rfl⟩ := mem_way.mp h
  obtain ⟨hmem, hne⟩ := mem_of_mem_placeFrom hname
  exact ⟨hfront.subset hmem, hne⟩

/-! ## Paths that can be passed on -/

/-- The file system takes the path: it has no null character, and neither a name nor the whole is
too long. -/
structure IsUsable (p : Path) : Prop where
  hasNull : p.hasNull = false
  size : p.toString.utf8ByteSize ≤ FileTree.longestPath
  names : ∀ name ∈ p.parts, name.utf8ByteSize ≤ FileTree.longestName

/-- A name that a file can have. -/
structure IsEntryName (name : String) : Prop extends IsPlainName name where
  null_notMem : '\x00' ∉ name.toList
  size : name.utf8ByteSize ≤ FileTree.longestName

/-- It is decided by the characters and the size. -/
instance (name : String) : Decidable (IsEntryName name) :=
  decidable_of_iff ((name ≠ "" ∧ name ≠ "." ∧ name ≠ ".." ∧ '/' ∉ name.toList) ∧
      '\x00' ∉ name.toList ∧ name.utf8ByteSize ≤ FileTree.longestName)
    ⟨fun ⟨⟨hempty, hdot, hdots, hslash⟩, hnull, hsize⟩ =>
      ⟨⟨hempty, hdot, hdots, hslash⟩, hnull, hsize⟩,
    fun h => ⟨⟨h.ne_empty, h.ne_dot, h.ne_dots, h.slash_notMem⟩, h.null_notMem, h.size⟩⟩

/-- A plain name in a path that the file system takes is one that a file can have. -/
theorem IsUsable.isEntryName (h : p.IsUsable) (hname : name ∈ p.parts) (hplain : IsPlainName name) :
    IsEntryName name := by
  refine { hplain with null_notMem := fun hnull => ?_, size := h.names name hname }
  have hany : p.hasNull = true :=
    List.any_eq_true.mpr ⟨name, hname, List.contains_iff_mem.mpr hnull⟩
  simp [h.hasNull] at hany

/-- Names that files can have make no path unusable. -/
theorem hasNull_of_names (h : ∀ name ∈ p.parts, name = ".." ∨ IsEntryName name) :
    p.hasNull = false := by
  refine List.any_eq_false.mpr fun name hname => ?_
  rcases h name hname with rfl | hentry
  · decide
  · simpa using hentry.null_notMem

/-- A path of entry names that is not too long is usable. -/
theorem isUsable_of_names (h : ∀ name ∈ p.parts, name = ".." ∨ IsEntryName name)
    (hsize : p.toString.utf8ByteSize ≤ FileTree.longestPath) : p.IsUsable := by
  refine ⟨hasNull_of_names h, hsize, fun name hname => ?_⟩
  rcases h name hname with rfl | hentry
  · decide
  · exact hentry.size

/-- The names between slashes have the characters of the text but no slash. -/
theorem of_mem_splitSlashes {cs piece : List Char} (h : piece ∈ splitSlashes cs) :
    ∀ c ∈ piece, c ∈ cs ∧ c ≠ '/' := by
  induction cs generalizing piece with
  | nil => simp_all [splitSlashes]
  | cons d cs ih =>
    have hcons {piece : List Char} (hpiece : piece ∈ splitSlashes cs) (c : Char) (hc : c ∈ piece) :
        c ∈ d :: cs ∧ c ≠ '/' :=
      (ih hpiece c hc).imp_left (List.mem_cons_of_mem d)
    rw [splitSlashes] at h
    split at h
    · rcases List.mem_cons.mp h with rfl | h
      · simp
      · exact hcons h
    · rename_i hd
      split at h
      · obtain rfl := List.mem_singleton.mp h
        simpa using hd
      · rename_i first others hsplit
        rw [hsplit] at hcons
        rcases List.mem_cons.mp h with rfl | h
        · exact List.forall_mem_cons.mpr ⟨⟨List.mem_cons_self, hd⟩, hcons List.mem_cons_self⟩
        · exact hcons (List.mem_cons_of_mem _ h)

/-- The names of a path that is read are double dots and names that stand for themselves. -/
theorem isPlainName_of_mem_ofString {text : String} (h : name ∈ (ofString text).parts) :
    name = ".." ∨ IsPlainName name := by
  rw [parts_ofString] at h
  obtain ⟨hmem, hkept⟩ := List.mem_filter.mp h
  obtain ⟨piece, hpiece, rfl⟩ := List.mem_map.mp hmem
  simp only [Bool.and_eq_true, bne_iff_ne] at hkept
  by_cases hdots : String.ofList piece = ".."
  · exact .inl hdots
  · exact .inr ⟨hkept.1, hkept.2, hdots, by
      simpa using fun hslash => (of_mem_splitSlashes hpiece '/' hslash).2 rfl⟩

/-- The names of a path below another one are among its names and those of the text. -/
theorem mem_parts_div {text : String} (h : name ∈ (p / text).parts) :
    name ∈ p.parts ∨ name ∈ (ofString text).parts := by
  change name ∈ (p.join (ofString text)).parts at h
  unfold join at h
  split at h
  · exact .inr h
  · exact List.mem_append.mp h

end Path

namespace FileTree

variable {tree before after : FileTree} {path : Path} {place other : Place} {names : List String}

/-- What is above a directory of a proper tree is a directory too. -/
theorem IsProper.directory_of_append (h : tree.IsProper)
    (hdirectory : tree.get? (place ++ names) = some .directory) :
    tree.get? place = some .directory := by
  by_cases hnames : names = []
  · rwa [hnames, List.append_nil] at hdirectory
  · exact h.get?_of_append hdirectory hnames

/-! ## Following a path -/

/-- Names lead to their place if all directories on the way are there. -/
theorem follow_eq_ok_iff :
    tree.follow [] names = .ok place ↔
      (∀ name ∈ names, name.utf8ByteSize ≤ longestName) ∧ place = Path.placeFrom [] names ∧
        ∀ front, front <+: names.dropLast → tree.get? (Path.placeFrom [] front) = some .directory := by
  induction names using List.reverseRecOn generalizing place with
  | nil =>
    simp only [follow, Except.ok.injEq, Path.placeFrom_nil, List.dropLast_nil, List.prefix_nil,
      forall_eq]
    simp [get?, eq_comm]
  | append_singleton names name ih =>
    have hlast : (∀ front, front <+: names →
        tree.get? (Path.placeFrom [] front) = some .directory) ↔
          (∀ front, front <+: names.dropLast →
            tree.get? (Path.placeFrom [] front) = some .directory) ∧
          tree.get? (Path.placeFrom [] names) = some .directory := by
      constructor
      · exact fun h => ⟨fun front hfront => h front (hfront.trans (List.dropLast_prefix _)),
          h names List.prefix_rfl⟩
      · rintro ⟨hdropLast, hnames⟩ front hfront
        rcases List.eq_nil_or_concat names with rfl | ⟨above, last, rfl⟩
        · rwa [List.prefix_nil.mp hfront]
        · rw [List.concat_eq_append] at *
          rw [List.dropLast_concat] at hdropLast
          rcases List.prefix_concat_iff.mp hfront with rfl | hfront
          · exact hnames
          · exact hdropLast front hfront
    have hsplit : tree.follow [] (names ++ [name]) = .ok place ↔
        ∃ middle, tree.follow [] names = .ok middle ∧ tree.follow middle [name] = .ok place := by
      refine ⟨exists_of_follow_append, ?_⟩
      rintro ⟨middle, hmiddle, hplace⟩
      rw [follow_append hmiddle, hplace]
    rw [hsplit, List.dropLast_concat, hlast, Path.placeFrom_append, Path.placeFrom_singleton,
      List.forall_mem_append, List.forall_mem_singleton]
    constructor
    · rintro ⟨middle, hmiddle, hplace⟩
      obtain ⟨hsizes, rfl, hway⟩ := ih.mp hmiddle
      obtain ⟨hdirectory, hsize, hplace⟩ := follow_cons_eq_ok.mp hplace
      exact ⟨⟨hsizes, hsize⟩, (Except.ok.inj hplace).symm, hway, hdirectory⟩
    · rintro ⟨⟨hsizes, hsize⟩, rfl, hway, hdirectory⟩
      exact ⟨_, ih.mpr ⟨hsizes, rfl, hway⟩, follow_cons_eq_ok.mpr ⟨hdirectory, hsize, rfl⟩⟩

/-- **A path leads to its place if the file system takes it and all directories on the way are
there.** -/
theorem locate_eq_ok_iff :
    tree.locate path = .ok place ↔
      path.IsUsable ∧ place = path.place ∧ ∀ other ∈ path.parent.way, tree.get? other = some .directory := by
  have hway : (∀ other ∈ path.parent.way, tree.get? other = some .directory) ↔
      ∀ front, front <+: path.parts.dropLast →
        tree.get? (Path.placeFrom [] front) = some .directory := by
    simp [Path.way, Path.parent]
  rw [locate_eq_ok, follow_eq_ok_iff, hway]
  constructor
  · rintro ⟨hnull, hsize, hsizes, hplace, hfront⟩
    exact ⟨⟨hnull, hsize, hsizes⟩, hplace, hfront⟩
  · rintro ⟨⟨hnull, hsize, hsizes⟩, hplace, hfront⟩
    exact ⟨hnull, hsize, hsizes, hplace, hfront⟩

/-- A path leads to a directory if all places on its way are directories. -/
theorem isDirectory_iff :
    tree.isDirectory path = true ↔
      path.IsUsable ∧ ∀ other ∈ path.way, tree.get? other = some .directory := by
  have hfind : tree.isDirectory path = true ↔
      ∃ place, tree.locate path = .ok place ∧ tree.get? place = some .directory := by
    unfold isDirectory at?
    cases tree.locate path <;> simp
  rw [hfind]
  constructor
  · rintro ⟨place, hlocate, hplace⟩
    obtain ⟨husable, rfl, hway⟩ := locate_eq_ok_iff.mp hlocate
    refine ⟨husable, fun other hother => ?_⟩
    rcases Path.mem_way_iff.mp hother with hother | rfl
    · exact hway other hother
    · exact hplace
  · rintro ⟨husable, hway⟩
    have hparent : ∀ other ∈ path.parent.way, tree.get? other = some .directory :=
      fun other hother => hway other (Path.mem_way_iff.mpr (.inl hother))
    exact ⟨path.place, locate_eq_ok_iff.mpr ⟨husable, rfl, hparent⟩,
      hway _ path.place_mem_way⟩

/-- A path that leads to a directory leads to its own place. -/
theorem locate_of_isDirectory (h : tree.isDirectory path = true) :
    tree.locate path = .ok path.place := by
  obtain ⟨husable, hway⟩ := isDirectory_iff.mp h
  exact locate_eq_ok_iff.mpr ⟨husable, rfl, fun other hother =>
    hway other (Path.mem_way_iff.mpr (.inl hother))⟩

/-- A directory stays one. -/
theorem KeepsDirectories.isDirectory (h : before.KeepsDirectories after)
    (hdirectory : before.isDirectory path = true) : after.isDirectory path = true := by
  obtain ⟨husable, hway⟩ := isDirectory_iff.mp hdirectory
  exact isDirectory_iff.mpr ⟨husable, fun other hother => h other (hway other hother)⟩

/-- A path that is looked up is not too long as a whole. -/
theorem size_of_find_eq_ok {entry : Option Entry} (hnull : path.hasNull = false)
    (h : tree.find path = .ok entry) : path.toString.utf8ByteSize ≤ longestPath := by
  by_contra hsize
  have hlong : tree.locate path = .error .nameTooLong := by
    rw [locate, if_neg (by simp [hnull]), if_pos (by omega)]
  simp [find, hlong] at h

/-- A path of names that files can have is refused only if it is too long. -/
theorem isUsable_of_find {entry : Option Entry}
    (hnames : ∀ name ∈ path.parts, name = ".." ∨ Path.IsEntryName name)
    (h : tree.find path = .ok entry) : path.IsUsable :=
  Path.isUsable_of_names hnames (size_of_find_eq_ok (Path.hasNull_of_names hnames) h)

/-! ## Trees with names that files can have -/

/-- A file tree as there are: each place stands once, what stands at a place stands in a directory,
and every name is one that a file can have. -/
structure IsSound (tree : FileTree) : Prop extends tree.IsProper where
  named : ∀ place name entry, tree.get? (place ++ [name]) = some entry → Path.IsEntryName name

/-- The names of a place where something stands are names that files can have. -/
theorem IsSound.isEntryName (h : tree.IsSound) {entry : Entry} {name : String}
    (hentry : tree.get? (place ++ names) = some entry) (hname : name ∈ names) :
    Path.IsEntryName name := by
  induction names using List.reverseRecOn generalizing entry with
  | nil => simp at hname
  | append_singleton names last ih =>
    rw [← List.append_assoc] at hentry
    rcases List.mem_append.mp hname with hname | hname
    · exact ih (h.rooted _ _ _ hentry) hname
    · obtain rfl := List.mem_singleton.mp hname
      exact h.named _ _ _ hentry

/-- The names of a path that leads through directories are double dots and names that files can
have. -/
theorem IsSound.isEntryName_of_way (h : tree.IsSound)
    (hway : ∀ other ∈ path.way, tree.get? other = some .directory) {name : String}
    (hname : name ∈ path.parts) : name = ".." ∨ Path.IsEntryName name := by
  by_cases hdots : name = ".."
  · exact .inl hdots
  · obtain ⟨front, back, hparts⟩ := List.append_of_mem hname
    have hmem : Path.placeFrom [] front ++ [name] ∈ path.way := by
      refine Path.mem_way.mpr ⟨front ++ [name], ?_, ?_⟩
      · exact ⟨back, by simp [hparts]⟩
      · rw [Path.placeFrom_append, Path.placeFrom_singleton, if_neg hdots]
    exact .inr (h.named _ _ _ (hway _ hmem))

end FileTree

end NestLayers

import NestLayers.Proofs.ResourceDirectory

/-!
# Why the file system refuses

Looking a path up is refused only if it is too long. Directories are not made and files are not
written because the file system refuses it, and for three reasons that are no refusals: a null
character in the path, so many missing directories that the calls for them would be nested too deep,
and a text that cannot be encoded.
-/

namespace NestLayers

namespace Path

variable {p : Path} {name text : String} {c : Char}

/-- The characters of the names of a path are those of its text. -/
theorem mem_of_mem_ofString (h : name ∈ (ofString text).parts) (hc : c ∈ name.toList) :
    c ∈ text.toList := by
  rw [parts_ofString] at h
  obtain ⟨piece, hpiece, rfl⟩ := List.mem_map.mp (List.mem_of_mem_filter h)
  rw [String.toList_ofList] at hc
  exact (of_mem_splitSlashes hpiece c hc).1

private theorem hasNull_iff : p.hasNull = true ↔ ∃ name ∈ p.parts, '\x00' ∈ name.toList := by
  simp [hasNull]

/-- The null character of a parent is in the path. -/
theorem hasNull_of_parent (h : p.parent.hasNull = true) : p.hasNull = true := by
  obtain ⟨name, hname, hnull⟩ := hasNull_iff.mp h
  exact hasNull_iff.mpr ⟨name, List.mem_of_mem_dropLast hname, hnull⟩

/-- Where a path is not too long, that of the directory above is not either. -/
theorem size_parent_le (h : p.toString.utf8ByteSize ≤ FileTree.longestPath) :
    p.parent.toString.utf8ByteSize ≤ FileTree.longestPath := by
  rcases p with ⟨start, parts⟩
  rcases List.eq_nil_or_concat' parts with rfl | ⟨above, name, rfl⟩
  · exact h
  · have hle := size_intercalate_le "/" above [name]
    have hdot : ".".utf8ByteSize ≤ FileTree.longestPath := by decide
    simp only [parent, toString, List.dropLast_concat] at h ⊢
    cases start with
    | current =>
      simp only [List.isEmpty_iff, List.append_eq_nil_iff] at h ⊢
      simp only [List.cons_ne_nil, and_false, if_false] at h
      split
      · exact hdot
      · omega
    | top =>
      simp only [String.utf8ByteSize_append] at h ⊢
      omega
    | doubleTop =>
      simp only [String.utf8ByteSize_append] at h ⊢
      omega

/-- What the file system takes as a path it takes as the path of the directory above. -/
theorem IsUsable.parent (h : p.IsUsable) : p.parent.IsUsable where
  hasNull := by
    by_contra hnull
    have htrue := hasNull_of_parent (by simpa using hnull)
    rw [h.hasNull] at htrue
    cases htrue
  names name hname := h.names name (List.mem_of_mem_dropLast hname)
  size := size_parent_le h.size

end Path

namespace FileTree

variable {tree made after : FileTree} {path : Path} {place : Place} {names : List String}
  {obstacle : Obstacle} {fault : FileFault}

/-! ## Paths that lead nowhere -/

private theorem follow_ne_nullCharacter : tree.follow place names ≠ .error .nullCharacter := by
  induction names generalizing place with
  | nil => simp [follow]
  | cons name names ih =>
    rw [follow]
    split
    · split
      · simp
      · exact ih
    · simp
    · simp

/-- A path is refused when it is looked up only if it is too long. -/
theorem find_eq_error (h : tree.find path = .error fault) :
    fault = .nameTooLong path ∧ ¬ path.IsUsable := by
  refine ⟨?_, fun husable => by simp [find_of_isUsable husable] at h⟩
  unfold find at h
  split at h <;> cases h
  rfl

/-- Where a path leads nowhere, this is a refusal unless for a null character. -/
theorem isRefusal_of_locate (h : tree.locate path = .error obstacle) :
    (obstacle.fault path).isRefusal = true ∨
      obstacle.fault path = .nullCharacter ∧ path.hasNull = true := by
  cases obstacle with
  | missing | notADirectory | nameTooLong => exact .inl rfl
  | nullCharacter =>
    refine .inr ⟨rfl, by_contra fun hnull => ?_⟩
    rw [locate, if_neg hnull] at h
    split at h
    · cases h
    · exact follow_ne_nullCharacter h

/-! ## Making directories -/

/-- So many directories on the way are missing that the calls for them would be nested too deep. -/
def IsTooDeep (tree : FileTree) (path : Path) : Prop :=
  ∀ front rest, path.parts = front ++ rest → rest.length < deepestNesting →
    tree.isDirectory ⟨path.start, front⟩ ≠ true

private theorem IsTooDeep.of_keepsDirectories (hkeeps : tree.KeepsDirectories after)
    (h : after.IsTooDeep path) : tree.IsTooDeep path :=
  fun front rest hparts hlength hdirectory =>
    h front rest hparts hlength (hkeeps.isDirectory hdirectory)

/-- One directory is not made because the file system refuses it, or for a null character. -/
theorem isRefusal_of_makeDirectory (h : tree.makeDirectory path = .error fault) :
    fault.isRefusal = true ∨ fault = .nullCharacter ∧ path.hasNull = true := by
  unfold makeDirectory at h
  split at h
  · rename_i hlocate
    cases h
    exact isRefusal_of_locate hlocate
  · split at h <;> cases h
    exact .inl rfl

/-- Nothing is a directory that one above is missing for. -/
theorem isDirectory_of_makeDirectory {other : Path}
    (h : tree.makeDirectory path = .error (.missing other)) : tree.isDirectory path ≠ true := by
  intro hdirectory
  obtain ⟨-, hway⟩ := isDirectory_iff.mp hdirectory
  simp [makeDirectory, locate_of_isDirectory hdirectory, hway _ path.place_mem_way] at h

/-- **Run.** Directories are not made because the file system refuses it, for a null character, or
because none is there so far up as calls may be nested. -/
theorem isRefusal_of_makeDirectoriesUp {start : PathStart} {depth : Nat}
    (h : tree.makeDirectoriesUp start depth names = (after, some fault)) :
    (fault.isRefusal = true ∨
        fault = .nullCharacter ∧ (Path.mk start names.reverse).hasNull = true) ∨
      fault = .nestedTooDeep ∧ ∀ front rest, names.reverse = front ++ rest →
        rest.length < depth → tree.isDirectory ⟨start, front⟩ ≠ true := by
  induction depth generalizing names after with
  | zero =>
    cases h
    exact .inr ⟨rfl, nofun⟩
  | succ depth ih =>
    unfold makeDirectoriesUp at h
    cases names with
    | nil => cases h
    | cons name above =>
      have hparent : (Path.mk start (name :: above).reverse).parent = ⟨start, above.reverse⟩ := by
        simp [Path.parent]
      dsimp only at h
      split at h
      · cases h
      · rename_i other hmissing
        split at h
        · rename_i hmade
          cases h
          rcases ih hmade with hrefusal | ⟨rfl, hnone⟩
          · exact .inl (hrefusal.imp_right (.imp_right fun hnull =>
              Path.hasNull_of_parent (hparent ▸ hnull)))
          · refine .inr ⟨rfl, fun front rest hparts hlength => ?_⟩
            rcases List.eq_nil_or_concat' rest with rfl | ⟨rest, last, rfl⟩
            · rw [List.append_nil] at hparts
              exact hparts ▸ isDirectory_of_makeDirectory hmissing
            · rw [List.reverse_cons, ← List.append_assoc] at hparts
              refine hnone front rest (List.append_inj_left' hparts rfl) ?_
              simpa using hlength
        · split at h
          · cases h
          · rename_i hensure
            cases h
            unfold ensureDirectory at hensure
            split at hensure
            · cases hensure
            · split at hensure <;> cases hensure
              exact .inl (isRefusal_of_makeDirectory ‹_›)
      · rename_i hmake
        split at h
        · cases h
        · obtain ⟨-, hfault⟩ := Prod.mk.inj h
          obtain rfl := Option.some.inj hfault
          exact .inl (isRefusal_of_makeDirectory hmake)

/-- A directory that is there need not be made. -/
theorem makeDirectories_of_isDirectory (h : tree.isDirectory path = true) :
    tree.makeDirectories path = (tree, none) := by
  obtain ⟨-, hway⟩ := isDirectory_iff.mp h
  have hmake : tree.makeDirectory path = .error (.fileExists path) := by
    simp [makeDirectory, locate_of_isDirectory h, hway path.place path.place_mem_way]
  unfold makeDirectories
  rw [show deepestNesting = 989 + 1 from rfl]
  cases hparts : path.parts.reverse with
  | nil => rfl
  | cons name above =>
    have hpath : Path.mk path.start (name :: above).reverse = path := by
      rw [← hparts, List.reverse_reverse]
    unfold makeDirectoriesUp
    simp only [hpath, hmake, h, if_true]

/-! ## Writing a file -/

/-- A null character in the path of a temporary file comes from the path of the file. -/
theorem hasNull_of_temporaryPath (h : (temporaryPath path).hasNull = true) :
    path.hasNull = true := by
  obtain ⟨name, hname, hnull⟩ := Path.hasNull_iff.mp h
  rcases Path.mem_parts_div hname with hname | hname
  · have hparent : name ∈ path.parent.parts := (Path.mem_of_mem_placeFrom hname).1
    exact Path.hasNull_iff.mpr ⟨name, List.mem_of_mem_dropLast hparent, hnull⟩
  · have hchars := Path.mem_of_mem_ofString hname hnull
    have hlast : '\x00' ∈ path.name.toList := by
      simpa [temporaryName] using hchars
    refine Path.hasNull_iff.mpr ⟨path.name, ?_, hlast⟩
    unfold Path.name at hlast ⊢
    cases hparts : path.parts.getLast? with
    | none => simp [hparts] at hlast
    | some last => exact List.mem_of_getLast? hparts

/-- A file is not put because the file system refuses it, or for a null character in its path. -/
theorem isRefusal_of_putFile {content : Content} (h : tree.putFile path content = (after, some fault)) :
    fault.isRefusal = true ∨ fault = .nullCharacter ∧ path.hasNull = true := by
  unfold putFile at h
  split at h
  · rename_i obstacle hlocate
    cases h
    exact (isRefusal_of_locate hlocate).imp id fun h => ⟨h.1, hasNull_of_temporaryPath h.2⟩
  · split at h
    · cases h
      exact .inl rfl
    · dsimp only at h
      split at h
      · rename_i hreplace
        cases h
        unfold replaceFile at hreplace
        split at hreplace
        · cases hreplace
          exact .inl rfl
        · split at hreplace
          · rename_i hlocate
            cases hreplace
            exact isRefusal_of_locate hlocate
          · split at hreplace
            · cases hreplace
              exact .inl rfl
            · cases hreplace
      · cases h

/-- Why a file is not written although the file system does not refuse it. -/
inductive Prevents (tree : FileTree) (path : Path) : Text.WideText → FileFault → Prop
  /-- A null character is in the path. -/
  | null {wide : Text.WideText} (h : path.hasNull = true) : Prevents tree path wide .nullCharacter
  /-- Too many directories above the file are missing. -/
  | nested {wide : Text.WideText} (h : tree.IsTooDeep path.parent) :
    Prevents tree path wide .nestedTooDeep
  /-- The text cannot be encoded. -/
  | broken {before : String} {half : Nat} {rest : List Text.CodePoint} :
    Prevents tree path (.broken before half rest) (.notEncodable before half rest)

/-- Directories above a file are not made because the file system refuses it, or because something
prevents that the file is written. -/
theorem prevents_of_makeDirectories (h : tree.makeDirectories path.parent = (after, some fault))
    (wide : Text.WideText) : fault.isRefusal = true ∨ tree.Prevents path wide fault := by
  rcases isRefusal_of_makeDirectoriesUp h with (hrefusal | ⟨rfl, hnull⟩) | ⟨rfl, hdeep⟩
  · exact .inl hrefusal
  · rw [List.reverse_reverse] at hnull
    exact .inr (.null (Path.hasNull_of_parent hnull))
  · rw [List.reverse_reverse] at hdeep
    exact .inr (.nested hdeep)

/-- What prevents it after more directories are there prevents it before. -/
theorem Prevents.of_keepsDirectories {wide : Text.WideText} (hkeeps : tree.KeepsDirectories after)
    (h : after.Prevents path wide fault) : tree.Prevents path wide fault := by
  cases h with
  | null hnull => exact .null hnull
  | nested hdeep => exact .nested (hdeep.of_keepsDirectories hkeeps)
  | broken => exact .broken

end FileTree

end NestLayers

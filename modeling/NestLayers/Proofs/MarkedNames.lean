import NestLayers.Proofs.NameCharacters

/-!
# Names with a marker

The marker of management resources is taken out of the camel-case form of a name and out of its
Pascal-case form. The two forms differ in their first letter alone, so that a marker behind it is
found in both or in neither, and at the same position. A marker at the start is found in one of
them only, and then the forms without it do not belong together.
-/

namespace NestLayers.Text

variable {piece cs : List Char} {c : Char}

/-- A piece that does not stand at the start is taken out behind the first character. -/
theorem eraseFirst_cons_of_not_start (h : ¬ piece <+: c :: cs) :
    eraseFirst piece (c :: cs) = c :: eraseFirst piece cs := by
  have hnone : afterStart? piece (c :: cs) = none :=
    Option.not_isSome_iff_eq_none.mp (mt isSome_afterStart?.mp h)
  rw [eraseFirst, hnone]

/-- A text without the piece stays as it is. -/
theorem eraseFirst_of_not_occurs (h : ¬ piece <:+: cs) : eraseFirst piece cs = cs := by
  induction cs with
  | nil => rfl
  | cons c cs ih =>
    obtain ⟨hstart, hrest⟩ := not_or.mp (mt List.infix_cons_iff.mpr h)
    rw [eraseFirst_cons_of_not_start hstart, ih hrest]

/-- A text with the piece loses the characters of the piece. -/
theorem length_eraseFirst_of_infix (h : piece <:+: cs) :
    (eraseFirst piece cs).length + piece.length = cs.length := by
  induction cs with
  | nil => simp [List.infix_nil.mp h, eraseFirst]
  | cons c cs ih =>
    by_cases hstart : piece <+: c :: cs
    · obtain ⟨rest, hrest⟩ := hstart
      have hafter : afterStart? piece (c :: cs) = some rest := by rw [← hrest, afterStart?_append]
      rw [eraseFirst, hafter, ← hrest, List.length_append, Nat.add_comm]
    · have hlater := (List.infix_cons_iff.mp h).resolve_left hstart
      rw [eraseFirst_cons_of_not_start hstart, List.length_cons, List.length_cons, ← ih hlater]
      omega

/-- Taking a piece out changes a text exactly if the piece is there. -/
theorem eraseFirst_ne_iff (hpiece : piece ≠ []) : eraseFirst piece cs ≠ cs ↔ piece <:+: cs := by
  constructor
  · exact fun h => not_not.mp (mt eraseFirst_of_not_occurs h)
  · intro h heq
    have hlength := length_eraseFirst_of_infix h
    have hpos := List.length_pos_iff.mpr hpiece
    rw [heq] at hlength
    omega

end NestLayers.Text

namespace NestLayers.Naming

open NestLayers.Text

variable {marker name : String}

/-- The name starts with the marker. -/
def StartsWith (marker name : String) : Prop :=
  marker.toList <+: name.toList

/-- It is decided by the characters. -/
instance (marker name : String) : Decidable (StartsWith marker name) :=
  inferInstanceAs (Decidable (_ <+: _))

/-- The marker stands behind the first letter of the name. -/
def IsMarkedInside (marker name : String) : Prop :=
  marker.toList <:+: name.toList.tail

/-- A marker is erased where it first occurs. -/
theorem toList_withoutMarker (marker name : String) :
    (withoutMarker marker name).toList = eraseFirst marker.toList name.toList :=
  String.toList_ofList

/-- A name changes if the marker is in it. -/
theorem withoutMarker_ne_iff (hmarker : marker ≠ "") :
    withoutMarker marker name ≠ name ↔ marker.toList <:+: name.toList := by
  rw [← eraseFirst_ne_iff (mt String.toList_eq_nil_iff.mp hmarker), ← toList_withoutMarker, ne_eq,
    ne_eq, String.toList_inj]

/-- A word has the marker at its start or behind its first letter. -/
theorem IsWord.infix_iff (h : IsWord name) :
    marker.toList <:+: name.toList ↔ StartsWith marker name ∨ IsMarkedInside marker name := by
  obtain ⟨c, rest, -, hchars, -⟩ := h.exists_capitalize
  rw [StartsWith, IsMarkedInside, hchars, List.infix_cons_iff, List.tail_cons]

/-- With a capital it has the marker at its start or, as before, behind its first letter. -/
theorem IsWord.infix_capitalize_iff (h : IsWord name) :
    marker.toList <:+: (capitalize name).toList ↔
      StartsWith marker (capitalize name) ∨ IsMarkedInside marker name := by
  obtain ⟨c, rest, -, hchars, hcapital⟩ := h.exists_capitalize
  rw [StartsWith, IsMarkedInside, hchars, hcapital, List.infix_cons_iff, List.tail_cons]

/-- A marker at the start of neither form is taken out of both at the same position. -/
theorem IsWord.withoutMarker_capitalize (h : IsWord name) (hname : ¬ StartsWith marker name)
    (hcapital : ¬ StartsWith marker (capitalize name)) :
    withoutMarker marker (capitalize name) = capitalize (withoutMarker marker name) := by
  obtain ⟨c, rest, hc, hchars, hcapitalChars⟩ := h.exists_capitalize
  rw [StartsWith, hchars] at hname
  rw [StartsWith, hcapitalChars] at hcapital
  have hbase : (withoutMarker marker name).toList = c :: eraseFirst marker.toList rest := by
    rw [toList_withoutMarker, hchars, eraseFirst_cons_of_not_start hname]
  rw [← String.toList_inj, toList_withoutMarker, hcapitalChars,
    eraseFirst_cons_of_not_start hcapital]
  simp [capitalize, hbase, upperChar, hc]

private theorem length_capitalize (h : ∀ c ∈ name.toList, isIdentifierChar c = true) :
    (capitalize name).toList.length = name.toList.length := by
  by_cases hempty : name = ""
  · rw [hempty]
    rfl
  · obtain ⟨c, rest, -, hchars, hcapital⟩ := IsWord.exists_capitalize ⟨hempty, h⟩
    rw [hchars, hcapital, List.length_cons, List.length_cons]

/-- If the marker is in one of the forms alone, then only this form gets shorter. -/
theorem IsWord.withoutMarker_capitalize_ne (hmarker : marker ≠ "") (h : IsWord name)
    (hforms : ¬ (marker.toList <:+: name.toList ↔ marker.toList <:+: (capitalize name).toList)) :
    withoutMarker marker (capitalize name) ≠ capitalize (withoutMarker marker name) := by
  have hpositive : 0 < marker.toList.length :=
    List.length_pos_iff.mpr (mt String.toList_eq_nil_iff.mp hmarker)
  have hlength := length_capitalize h.all
  intro heq
  have hlengths := congrArg (fun form : String => form.toList.length) heq
  rw [length_capitalize (isIdentifierChar_withoutMarker marker h.all), toList_withoutMarker,
    toList_withoutMarker] at hlengths
  by_cases hname : marker.toList <:+: name.toList
  · have hcapital := fun hcapital => hforms (iff_of_true hname hcapital)
    have hshorter := length_eraseFirst_of_infix hname
    rw [eraseFirst_of_not_occurs hcapital] at hlengths
    omega
  · have hcapital := not_not.mp fun hcapital => hforms (iff_of_false hname hcapital)
    have hshorter := length_eraseFirst_of_infix hcapital
    rw [eraseFirst_of_not_occurs hname] at hlengths
    omega

end NestLayers.Naming

namespace NestLayers

open NestLayers.Text NestLayers.Naming

namespace ResourceName

variable {marker word : String}

/-- **The forms of a name belong together unless the marker stands at the start.** Let a resource be
named by a word. Its Pascal-case form is its camel-case form with a capital, and it is a management
resource exactly if the marker is taken out of its camel-case form. If the marker stands at the start
of neither form, the base forms differ in their first letter alone. The Pascal-case form agrees on
the marker exactly if the marker stands behind the first letter, or at the start of both forms or of
neither; where it does not agree, the base forms do not belong together. -/
theorem forms_agree_unless_startsWith (hmarker : marker ≠ "") (hword : IsWord word) :
    let n := ofWord marker word
    n.pascal = capitalize n.camel ∧
      (n.isManagement = true ↔ n.camelBase ≠ n.camel) ∧
      (¬ StartsWith marker n.camel → ¬ StartsWith marker n.pascal →
        n.pascalBase = capitalize n.camelBase ∧ (n.isManagement = true ↔ n.pascalBase ≠ n.pascal)) ∧
      ((n.isManagement = true ↔ n.pascalBase ≠ n.pascal) ↔
        IsMarkedInside marker n.camel ∨
          (StartsWith marker n.camel ↔ StartsWith marker n.pascal)) ∧
      (¬ (n.isManagement = true ↔ n.pascalBase ≠ n.pascal) →
        n.pascalBase ≠ capitalize n.camelBase) := by
  have hcamel := isWord_uncapitalize hword
  simp only [ofWord, trim_of_isIdentifierChar hword.all, occursIn_iff_infix]
  generalize uncapitalize word = camel at hcamel
  rw [withoutMarker_ne_iff hmarker, withoutMarker_ne_iff hmarker]
  refine ⟨trivial, Iff.rfl, fun hstart hcapital => ⟨?_, ?_⟩, ?_, ?_⟩
  · exact hcamel.withoutMarker_capitalize hstart hcapital
  · rw [hcamel.infix_iff, hcamel.infix_capitalize_iff, or_iff_right hstart, or_iff_right hcapital]
  · rw [hcamel.infix_iff, hcamel.infix_capitalize_iff]
    tauto
  · exact hcamel.withoutMarker_capitalize_ne hmarker

/-- A marker at the end of a name is taken out of both forms. -/
theorem forms_agree_userManagement :
    defaultManagementMarker ≠ "" ∧ IsWord "userManagement" ∧
      let n := ofWord defaultManagementMarker "userManagement"
      n.isManagement = true ∧ n.camelBase = "user" ∧ n.pascalBase = capitalize n.camelBase ∧
        n.pascalBase ≠ n.pascal := by
  have hmarker : defaultManagementMarker ≠ "" := by decide
  have hword : IsWord "userManagement" := ⟨by decide, List.all_eq_true.mp (by decide)⟩
  have hmanagement : (ofWord defaultManagementMarker "userManagement").isManagement = true := by
    decide +kernel
  obtain ⟨-, -, hforms, -⟩ := forms_agree_unless_startsWith hmarker hword
  obtain ⟨hbase, hagree⟩ := hforms (by decide +kernel) (by decide +kernel)
  exact ⟨hmarker, hword, hmanagement, by decide +kernel, hbase, hagree.mp hmanagement⟩

/-- A marker at the start of a name is taken out of the Pascal-case form alone: the resource is no
management resource, and its base forms are those of two models. -/
theorem forms_disagree_managementUser :
    IsWord "ManagementUser" ∧
      let n := ofWord defaultManagementMarker "ManagementUser"
      n.isManagement = false ∧ n.camelBase = "managementUser" ∧ n.pascalBase = "User" ∧
        n.pascalBase ≠ capitalize n.camelBase ∧
        ¬ (n.isManagement = true ↔ n.pascalBase ≠ n.pascal) :=
  ⟨⟨by decide, List.all_eq_true.mp (by decide)⟩, by decide +kernel⟩

end ResourceName

end NestLayers

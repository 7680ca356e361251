import NestLayers.Proofs.BodyRecords

/-!
# What the registry decides

The registry is needed to tell relations from scalar fields, and for nothing else: under any two
registries a text is refused for the same reason or is read as the same model, with one member for
each of its field lines. A line declares the same member under both, unless its type is a model of
one registry only.
-/

namespace NestLayers

/-! ## One field line -/

namespace FieldLine

variable (line : FieldLine)

private theorem isSome_relation?_member (registry : Registry) :
    (line.member registry).relation?.isSome = registry.contains line.typeName := by
  unfold member
  cases registry.contains line.typeName <;> rfl

/-- A line declares the same member if its type is a model of both registries or of none. -/
theorem member_congr {first second : Registry}
    (h : first.contains line.typeName = second.contains line.typeName) :
    line.member first = line.member second := by
  unfold member
  rw [h]

end FieldLine

/-! ## A unit -/

/-- A member is a scalar field or a relation. -/
theorem Member.length_filterMap (members : List Member) :
    (members.filterMap Member.field?).length + (members.filterMap Member.relation?).length =
      members.length := by
  induction members with
  | nil => rfl
  | cons member members ih =>
    cases member <;> simp only [List.filterMap_cons, field?, relation?, List.length_cons] <;> omega

namespace Definition

variable {registry : Registry} {fileId text : String} {location : Location} {d : Definition}
  {lines : List FieldLine}

/-- The field lines of a text, in order: the lines of the body that are not passed over, up to the
first line that closes it. -/
def HasFieldLines (text : String) (lines : List FieldLine) : Prop :=
  ∃ header body closing after, Header.find? (withoutMark text.toList) = some header ∧
    bodyLines header (withoutMark text.toList) = body ++ closing :: after ∧
    isClosing closing = true ∧ (∀ line ∈ body, isClosing line = false) ∧
    (body.filter fun line => !isSkipped line).map
      (fun line => FieldLine.parse (String.ofList line)) = lines.map .ok

/-- The members of the definition are what the lines declare, one for each and in order. -/
structure IsDeclaredBy (d : Definition) (registry : Registry) (lines : List FieldLine) : Prop where
  fields : d.fields = (lines.map (FieldLine.member registry)).filterMap Member.field?
  relations : d.relations = (lines.map (FieldLine.member registry)).filterMap Member.relation?

private theorem IsDeclaredBy.length_eq (h : d.IsDeclaredBy registry lines) :
    d.fields.length + d.relations.length = lines.length := by
  rw [h.fields, h.relations, Member.length_filterMap, List.length_map]

/-- Lines that are all accepted are read one by one. -/
theorem map_parse_eq_map_ok {body : List (List Char)}
    (h : ∀ line ∈ body, (acceptedField? line).isSome = true) :
    body.map (fun line => FieldLine.parse (String.ofList line)) =
      (body.filterMap acceptedField?).map .ok := by
  induction body with
  | nil => rfl
  | cons line body ih =>
    obtain ⟨hline, hbody⟩ := List.forall_mem_cons.mp h
    cases hparse : FieldLine.parse (String.ofList line) with
    | error error => simp [acceptedField?, hparse, Except.toOption] at hline
    | ok field =>
      have haccepted : acceptedField? line = some field := by rw [acceptedField?, hparse]; rfl
      rw [List.map_cons, hparse, List.filterMap_cons_some haccepted, List.map_cons, ih hbody]

/-- The lines that a unit is read from are the field lines of its text. -/
theorem hasFieldLines_of_readUnit {name description : String}
    (h : readUnit text = .ok (name, description, lines)) : HasFieldLines text lines := by
  obtain ⟨header, chars, hheader, -, -, hbody, -, -⟩ := readUnit_eq_ok h
  obtain ⟨body, closing, after, hlines, hclosing, hopen, haccepted, rfl⟩ := readBody_eq_ok hbody
  refine ⟨header, body, closing, after, hheader, hlines, hclosing, hopen, map_parse_eq_map_ok ?_⟩
  intro line hline
  obtain ⟨hmem, hkept⟩ := List.mem_filter.mp hline
  rw [Bool.not_eq_true'] at hkept
  exact (haccepted line hmem).resolve_left (by simp [hkept])

/-- **The registry only reclassifies.** Under two registries a text is refused for the same reason,
or it is read as a model of the same name and description. In the second case each of its field
lines, in the order of the text, declares one member under both registries, so that there are as
many scalar fields and relations together. A line declares the same member under both if its type is
a model of both or of none, and it declares a scalar field under one and a relation under the other
exactly if its type is a model of one only. -/
theorem parse_reclassifies (first second : Registry) (fileId text : String) (location : Location) :
    (∃ error, parse first fileId location text = .error error ∧
      parse second fileId location text = .error error) ∨
    ∃ d d' lines, parse first fileId location text = .ok d ∧
      parse second fileId location text = .ok d' ∧ d'.name = d.name ∧
      d'.description = d.description ∧ HasFieldLines text lines ∧
      d.IsDeclaredBy first lines ∧ d'.IsDeclaredBy second lines ∧
      d'.fields.length + d'.relations.length = d.fields.length + d.relations.length ∧
      ∀ line ∈ lines,
        (first.contains line.typeName = second.contains line.typeName →
          line.member second = line.member first) ∧
        ((line.member second).relation?.isSome ≠ (line.member first).relation?.isSome ↔
          first.contains line.typeName ≠ second.contains line.typeName) := by
  cases hread : readUnit text with
  | error error =>
    refine .inl ⟨error, ?_, ?_⟩
    · rw [parse_eq, hread]
      rfl
    · rw [parse_eq, hread]
      rfl
  | ok unit =>
    obtain ⟨name, description, lines⟩ := unit
    have hparse (registry : Registry) : ∃ d, parse registry fileId location text = .ok d ∧
        d.name = name ∧ d.description = description ∧ d.IsDeclaredBy registry lines := by
      rw [parse_eq, hread]
      exact ⟨_, rfl, rfl, rfl, rfl, rfl⟩
    obtain ⟨d, hd, hname, hdescription, hlines⟩ := hparse first
    obtain ⟨d', hd', hname', hdescription', hlines'⟩ := hparse second
    refine .inr ⟨d, d', lines, hd, hd', hname'.trans hname.symm,
      hdescription'.trans hdescription.symm, hasFieldLines_of_readUnit hread, hlines, hlines',
      hlines'.length_eq.trans hlines.length_eq.symm, fun line _ => ⟨fun h => ?_, ?_⟩⟩
    · exact (line.member_congr h).symm
    · rw [line.isSome_relation?_member, line.isSome_relation?_member, ne_comm]

end Definition

end NestLayers

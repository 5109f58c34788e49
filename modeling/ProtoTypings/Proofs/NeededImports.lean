import ProtoTypings.Proofs.Reference

/-!
# Needed imports

The types of the members of some typings are the types of the fields of the declared messages, in
order, with names in place of entries (`memberTypes_rename`). So the references in them, taken
in order, are those of the fields, and the imports are the files of these other than the own one,
each at its first reference (`imports_are_those_needed`).
-/

namespace ProtoTypings

open Index

/-! ## Types of members -/

section MemberTypes

variable {ρ σ : Type}

def memberTypes (ds : List (Declaration ρ)) : List (TypeExpr ρ) :=
  ds.flatMap fun d => d.members.map (·.type)

theorem memberTypes_rename (g : ρ → σ) (ds : List (Declaration ρ)) :
    memberTypes (ds.map (·.rename g)) = (memberTypes ds).map (·.rename g) := by
  simp only [memberTypes, List.flatMap_map, List.map_flatMap, Declaration.members_rename,
    List.map_map]
  rfl

theorem flatMap_references (ds : List (Declaration ρ)) :
    ds.flatMap (·.references) = (memberTypes ds).flatMap (·.references) := by
  simp only [memberTypes, List.flatMap_assoc, Declaration.references, List.flatMap_map]

end MemberTypes

def Node.fields (n : Node) : List Field :=
  match n.body with
  | .message m => m.fields
  | .enum _ => []

/-- The fields of all messages that are declared, in the order of the walk. -/
def File.declaredFields (f : File) : List Field := f.declaredNodes.flatMap Node.fields

namespace File

variable {files : List File} {ix : Index} {f : File}

theorem forall₂_typed_of_declaration {n : Node} {d : Declaration Entry}
    (h : f.declaration ix n = .ok d) :
    List.Forall₂ ix.Typed n.fields (d.members.map (·.type)) := by
  unfold Node.fields
  cases hb : n.body with
  | message m =>
    obtain ⟨ms, hms, rfl⟩ := (declaration_message_iff hb).mp h
    have hall : List.Forall₂ (fun p (mem : Member Entry) => ix.Typed p.1 mem.type)
        (m.fields.zipIdx 0) ms := by
      refine (members_eq_ok_iff.mp hms).imp fun p mem hmem => ?_
      obtain ⟨t, ht, rfl⟩ := member_eq_ok_iff.mp hmem
      exact typed_of_typeOf ht
    exact List.forall₂_map_right_iff.mpr (forall₂_of_zipIdx hall)
  | enum e =>
    obtain rfl := (declaration_enum_iff hb).mp h
    exact .nil

theorem forall₂_typed_of_declarations {ds : List (Declaration Entry)}
    (h : f.declarations ix = .ok ds) :
    List.Forall₂ ix.Typed f.declaredFields (memberTypes ds) :=
  List.rel_flatMap (declarations_eq_ok_iff.mp h).1 fun _ _ => forall₂_typed_of_declaration

end File

/-! ## Imports -/

/-- The imports of the file `f` are those for which the types `es` ask: `es` are referred to in this
order, each by the name that `nameOf` gives. -/
structure Typings.ImportsFor (f : File) (es : List Entry) (nameOf : Entry → String)
    (t : Typings) : Prop where
  written : ∀ e ∈ es, e.WrittenIn f t.imports (nameOf e)
  /-- One import for each other file, in the order of the first references. -/
  files : FirstOccurrences ((es.map (·.file.name)).filter (· ≠ f.name)) (t.imports.map (·.file))
  not_own : ∀ i ∈ t.imports, i.file ≠ f.name
  used : ∀ i ∈ t.imports, ∃ e ∈ es, e.file.name = i.file ∧
    nameOf e = i.qualifier ++ "." ++ e.scope.flatName
  nodup_qualifier : (t.imports.map (·.qualifier)).Nodup
  isValid_qualifier : ∀ i ∈ t.imports, Identifier.isValid i.qualifier = true
  specifier : ∀ i ∈ t.imports, i.specifier = SourcePath.specifier f.name i.file

theorem imports_are_those_needed {files : List File} {ix : Index} {f : File} {t : Typings}
    (hix : Index.ofFiles files = .ok ix) (hf : f ∈ files) (ht : f.typings ix = .ok t) :
    ∃ (ts : List (TypeExpr Entry)) (nameOf : Entry → String),
      List.Forall₂ ix.Typed f.declaredFields ts ∧
      memberTypes t.declarations = ts.map (·.rename nameOf) ∧
      t.ImportsFor f (ts.flatMap (·.references)) nameOf := by
  have h := ofFiles_eq_ok_iff.mp hix
  obtain ⟨ds, hds, rfl⟩ := File.typings_eq_ok_iff.mp ht
  have htyped := File.forall₂_typed_of_declarations hds
  refine ⟨memberTypes ds, _, htyped, memberTypes_rename _ ds, ?_⟩
  have hfirst := Import.firstOccurrences_ofFiles f.name (foreignFiles f.name ds)
  have hsound := Import.sound_ofFiles f.name (foreignFiles f.name ds)
  -- the entries behind the imports, as `foreignFiles` lists them
  have hforeign : ∀ i ∈ (f.assemble ds).imports,
      i.file ≠ f.name ∧ ∃ e ∈ ds.flatMap (·.references), e.file.name = i.file := by
    intro i hi
    have hmem := (hfirst.mem_iff i.file).mp (List.mem_map_of_mem hi)
    obtain ⟨hmem, hne⟩ := List.mem_filter.mp hmem
    obtain ⟨e, he, heq⟩ := List.mem_map.mp hmem
    exact ⟨by simpa using hne, e, he, heq⟩
  have hfile : ∀ e ∈ ds.flatMap (·.references), e.file ∈ files := by
    intro e he
    rw [flatMap_references] at he
    obtain ⟨t, ht, he⟩ := List.mem_flatMap.mp he
    obtain ⟨fd, -, htype⟩ := exists_left_of_forall₂ htyped ht
    exact (h.mem_entries.mp (htype.mem_entries e he)).1
  rw [← flatMap_references]
  refine {
    written := fun e he => ?_
    files := hfirst
    not_own := fun i hi => (hforeign i hi).1
    used := fun i hi => ?_
    nodup_qualifier := hsound.nodup_qualifier
    isValid_qualifier := hsound.isValid
    specifier := hsound.specifier_eq }
  · obtain ⟨d, hd, hed⟩ := List.mem_flatMap.mp he
    exact h.writtenIn_nameIn hf hd hed (hfile e he)
  · obtain ⟨hne, e, he, heq⟩ := hforeign i hi
    refine ⟨e, he, heq, ?_⟩
    rw [Entry.nameIn, if_neg (heq ▸ hne), heq, Import.qualifierOf?_of_mem hfirst.nodup hi,
      Option.getD_some]

namespace Sample

/-- Refers to itself and to two files that would have the same qualifier. -/
def junction : File where
  name? := some "junction.proto"
  messages := [{
    name? := some "Junction"
    fields := [
      { name? := some "own", kind? := some 11, typeName? := some ".Junction" },
      { name? := some "first", kind? := some 11, typeName? := some ".Underscored" },
      { name? := some "second", kind? := some 11, typeName? := some ".Slashed" },
      { name? := some "again", kind? := some 11, typeName? := some ".Underscored" }] }]

def junctionIndex : Index where
  files := [slashed, underscored, junction]
  entries := [slashed, underscored, junction].flatMap File.entries

def junctionTypings : Typings where
  file := "junction.proto"
  package := ""
  level := "proto2"
  imports := [
    { qualifier := "a_b_pb", specifier := "./a_b", file := "a_b.proto" },
    { qualifier := "a_b_pb2", specifier := "./a/b", file := "a/b.proto" }]
  declarations := [
    { name := "Junction", fullName := "Junction", doc := []
      body := .interface [
        { name := "own", type := .reference "Junction", doc := [], oneof := none },
        { name := "first", type := .reference "a_b_pb.Underscored", doc := [], oneof := none },
        { name := "second", type := .reference "a_b_pb2.Slashed", doc := [], oneof := none },
        { name := "again", type := .reference "a_b_pb.Underscored", doc := [], oneof := none }] }]

theorem junction_imports :
    junction.typings junctionIndex = .ok junctionTypings ∧
    ∃ (ts : List (TypeExpr Entry)) (nameOf : Entry → String),
      List.Forall₂ junctionIndex.Typed junction.declaredFields ts ∧
      memberTypes junctionTypings.declarations = ts.map (·.rename nameOf) ∧
      junctionTypings.ImportsFor junction (ts.flatMap (·.references)) nameOf := by
  have hix : Index.ofFiles [slashed, underscored, junction] = .ok junctionIndex := by rfl
  have ht : junction.typings junctionIndex = .ok junctionTypings := by rfl
  exact ⟨ht, imports_are_those_needed hix (by simp) ht⟩

end Sample

end ProtoTypings

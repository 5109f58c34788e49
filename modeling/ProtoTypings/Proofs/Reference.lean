import ProtoTypings.Proofs.Import
import ProtoTypings.Proofs.Index
import ProtoTypings.Proofs.Projection

/-!
# References across files

A reference in the typings of a file is the name of an entry of the index: the entry that the type
of some field refers to. `Entry.WrittenIn f imports e r` says how the file `f` has to write it.
Every reference leads to its type (`references_lead_to_types`): if the file of the entry can be
projected, it has one declaration under the name that is written, and this is the one for the
entry.
-/

namespace ProtoTypings

open Index

variable {ρ σ : Type}

/-! ## Renaming references -/

theorem TypeExpr.references_rename (g : ρ → σ) (t : TypeExpr ρ) :
    (t.rename g).references = t.references.map g := by
  induction t with
  | array element ih => exact ih
  | map key value ihk ihv => simp [rename, references, ihk, ihv]
  | _ => rfl

theorem Declaration.members_rename (g : ρ → σ) (d : Declaration ρ) :
    (d.rename g).members = d.members.map (·.rename g) := by
  unfold members
  cases h : d.body <;> simp [rename, Body.rename, h]

/-! ## Where references come from -/

/-- The member `mem` of the declaration `d` is made for a field of a message in `f`, and the type of
the field has a reference to the entry. -/
def File.Mentions (f : File) (ix : Index) (d : Declaration ρ) (mem : Member ρ) (e : Entry) : Prop :=
  ∃ p s m fd t, f.declaredAt? p = some (s, .message m) ∧ d.fullName = s.fullName f.package ∧
    fd ∈ m.fields ∧ mem.name = PropertyName.ofField fd.name fd.jsonName? ∧
    ix.Typed fd t ∧ e ∈ t.references

variable {files : List File} {ix : Index} {f : File}

theorem File.exists_declaration {ds : List (Declaration Entry)} (h : f.declarations ix = .ok ds)
    {d : Declaration Entry} (hd : d ∈ ds) :
    ∃ p n, f.declaredAt? p = some n.content ∧ f.declaration ix n = .ok d := by
  obtain ⟨p, -, n, hp, hdecl⟩ := exists_left_of_forall₂ (forall₂_places_declarations h) hd
  exact ⟨p, n, hp, hdecl⟩

theorem File.exists_field {n : Node} {d : Declaration Entry} (h : f.declaration ix n = .ok d)
    {mem : Member Entry} (hm : mem ∈ d.members) :
    ∃ m fd, n.body = .message m ∧ fd ∈ m.fields ∧
      mem.name = PropertyName.ofField fd.name fd.jsonName? ∧ ix.Typed fd mem.type := by
  cases hb : n.body with
  | message m =>
    obtain ⟨ms, hms, rfl⟩ := (declaration_message_iff hb).mp h
    obtain ⟨⟨fd, i⟩, hfd, hmem⟩ := exists_left_of_forall₂ (members_eq_ok_iff.mp hms) hm
    obtain ⟨t, ht, rfl⟩ := member_eq_ok_iff.mp hmem
    exact ⟨m, fd, rfl, List.fst_mem_of_mem_zipIdx hfd, rfl, typed_of_typeOf ht⟩
  | enum e =>
    obtain rfl := (declaration_enum_iff hb).mp h
    cases hm

theorem File.mentions_of_mem_references {ds : List (Declaration Entry)}
    (h : f.declarations ix = .ok ds) {d : Declaration Entry} (hd : d ∈ ds) {mem : Member Entry}
    (hm : mem ∈ d.members) {e : Entry} (he : e ∈ mem.type.references) : f.Mentions ix d mem e := by
  obtain ⟨p, n, hp, hdecl⟩ := exists_declaration h hd
  obtain ⟨m, fd, hb, hfd, hname, htyped⟩ := exists_field hdecl hm
  refine ⟨p, n.scope, m, fd, mem.type, ?_, (declaration_names hdecl).2, hfd, hname, htyped, he⟩
  rw [hp, Node.content, hb]

/-- What is referred to is declared in its own file. -/
theorem Indexes.declared_of_mentions (h : Indexes files ix) (hw : ix.MapsWellFormed)
    (hf : f ∈ files) {d : Declaration ρ} {mem : Member ρ} {e : Entry}
    (hm : f.Mentions ix d mem e) :
    e ∈ ix.entries ∧ e.file ∈ files ∧ e.fullName = e.scope.fullName e.file.package ∧
      ∃ q, e.file.declaredAt? q = some (e.scope, e.body) := by
  obtain ⟨p, s, m, fd, t, hp, -, hfd, -, htyped, he⟩ := hm
  have howns : ix.Owns fd :=
    ⟨_, h.mem_entries_of_typeAt? hf (File.typeAt?_of_declaredAt? hp), m, rfl, hfd⟩
  obtain ⟨hentry, hmap⟩ := htyped.references_declared hw howns e he
  obtain ⟨hfile, hname, q, hq⟩ := h.mem_entries.mp hentry
  refine ⟨hentry, hfile, hname, q, File.declaredAt?_of_typeAt? ?_ ?_ hq⟩
  · intro q' s' m' hq' hm'
    have he' := h.mem_entries_of_typeAt? hfile hq'
    exact hw.flat _ he' m' (Entry.mapMessage?_eq_some_iff.mpr ⟨rfl, hm'⟩)
  · intro m' hb
    refine Bool.eq_false_iff.mpr fun hm' => ?_
    rw [Entry.mapMessage?_eq_some_iff.mpr ⟨hb, hm'⟩] at hmap
    cases hmap

/-! ## How references are written -/

/-- The file `f` writes `r` for the type of the entry: the name of the declaration, qualified if the
file of the entry is another one. Only one import is of that file, and only this one has the
qualifier. -/
inductive Index.Entry.WrittenIn (f : File) (imports : List Import) (e : Entry) (r : String) :
    Prop where
  | own : e.file = f → r = e.scope.flatName → WrittenIn f imports e r
  | foreign (i : Import) : e.file ≠ f → imports.filter (·.file == e.file.name) = [i] →
      imports.filter (·.qualifier == i.qualifier) = [i] →
      r = i.qualifier ++ "." ++ e.scope.flatName → WrittenIn f imports e r

theorem Indexes.writtenIn_nameIn (h : Indexes files ix) (hf : f ∈ files)
    {ds : List (Declaration Entry)} {d : Declaration Entry} (hd : d ∈ ds) {e : Entry}
    (he : e ∈ d.references) (hfile : e.file ∈ files) :
    e.WrittenIn f (f.assemble ds).imports (e.nameIn f.name (f.assemble ds).imports) := by
  by_cases hname : e.file.name = f.name
  · exact .own (h.eq_of_name_eq hfile hf hname) (by rw [Entry.nameIn, if_pos hname])
  · have hforeign : e.file.name ∈ foreignFiles f.name ds := by
      refine List.mem_filter.mpr ⟨List.mem_map_of_mem ?_, by simpa using hname⟩
      exact List.mem_flatMap.mpr ⟨d, hd, he⟩
    obtain ⟨i, honly, hq⟩ := Import.qualifierOf?_ofFiles f.name hforeign
    have hmem : i ∈ Import.ofFiles f.name (foreignFiles f.name ds) :=
      List.mem_of_mem_filter (honly ▸ List.mem_singleton_self i)
    have hqualifier := filter_key_eq_singleton (Import.sound_ofFiles _ _).nodup_qualifier hmem
    refine .foreign i (fun heq => hname (congrArg File.name heq)) honly hqualifier ?_
    have himports : (f.assemble ds).imports = Import.ofFiles f.name (foreignFiles f.name ds) := rfl
    rw [Entry.nameIn, if_neg hname, himports, hq, Option.getD_some]

/-! ## Where references lead -/

/-- One declaration of the typings has the name of the entry, and it is made for the entry. -/
def Typings.DeclaresOnce (t : Typings) (e : Entry) : Prop :=
  ∃ d, t.declarations.filter (·.name == e.scope.flatName) = [d] ∧ d.fullName = e.fullName

theorem File.declaresOnce {t : Typings} (h : f.typings ix = .ok t) {p : Place} {e : Entry}
    (hp : f.declaredAt? p = some (e.scope, e.body))
    (hname : e.fullName = e.scope.fullName f.package) : t.DeclaresOnce e := by
  obtain ⟨ds, hds, rfl⟩ := typings_eq_ok_iff.mp h
  obtain ⟨d, hd, n, hn, hdecl⟩ :=
    exists_right_of_forall₂ (forall₂_places_declarations hds) (mem_places_of_eq_some hp)
  obtain ⟨hscope, -⟩ := Prod.mk.inj (Option.some.inj (hp.symm.trans hn))
  obtain ⟨hflat, hfull⟩ := declaration_names hdecl
  let d' := d.rename (Entry.nameIn f.name (f.assemble ds).imports)
  have hd' : d' ∈ (f.assemble ds).declarations := List.mem_map_of_mem hd
  have hnodup : ((f.assemble ds).declarations.map (·.name)).Nodup := by
    rw [map_name_assemble]
    exact (declarations_eq_ok_iff.mp hds).2
  refine ⟨d', ?_, ?_⟩
  · rw [hscope, ← hflat]
    exact filter_key_eq_singleton hnodup hd'
  · rw [hname, hscope]
    exact hfull

/-- Every reference in the typings of a file is written for an entry of the index which some field
mentions, and leads to the one declaration for this entry. -/
theorem references_lead_to_types (hix : Index.ofFiles files = .ok ix) (hw : ix.MapsWellFormed)
    (hf : f ∈ files) {t : Typings} (ht : f.typings ix = .ok t) {d : Declaration String}
    (hd : d ∈ t.declarations) {mem : Member String} (hm : mem ∈ d.members) {r : String}
    (hr : r ∈ mem.type.references) :
    ∃ e ∈ ix.entries, f.Mentions ix d mem e ∧ e.file ∈ files ∧ e.WrittenIn f t.imports r ∧
      ∀ t', e.file.typings ix = .ok t' → t'.DeclaresOnce e := by
  have h := ofFiles_eq_ok_iff.mp hix
  obtain ⟨ds, hds, rfl⟩ := File.typings_eq_ok_iff.mp ht
  obtain ⟨d₀, hd₀, rfl⟩ := List.mem_map.mp hd
  rw [Declaration.members_rename] at hm
  obtain ⟨mem₀, hmem₀, rfl⟩ := List.mem_map.mp hm
  rw [Member.rename, TypeExpr.references_rename] at hr
  obtain ⟨e, he, rfl⟩ := List.mem_map.mp hr
  have hmentions : f.Mentions ix d₀ mem₀ e := File.mentions_of_mem_references hds hd₀ hmem₀ he
  obtain ⟨hentry, hfile, hname, q, hq⟩ := h.declared_of_mentions hw hf hmentions
  have hwritten := h.writtenIn_nameIn hf hd₀ (List.mem_flatMap.mpr ⟨mem₀, hmem₀, he⟩) hfile
  exact ⟨e, hentry, hmentions, hfile, hwritten, fun t' ht' => File.declaresOnce ht' hq hname⟩

namespace Sample

def slashed : File where
  name? := some "a/b.proto"
  messages := [{ name? := some "Slashed" }]

def underscored : File where
  name? := some "a_b.proto"
  messages := [{ name? := some "Underscored" }]

/-- What stands for a map from strings to `Slashed`. -/
def secondEntry : Message where
  name? := some "SecondEntry"
  fields := [
    { name? := some "key", number? := some 1, kind? := some 9 },
    { name? := some "value", number? := some 2, kind? := some 11, typeName? := some ".Slashed" }]
  options? := some { ofMap? := some true }

def crossingMessage : Message where
  name? := some "Crossing"
  fields := [
    { name? := some "first", number? := some 1, kind? := some 11
      typeName? := some ".Underscored" },
    { name? := some "second", number? := some 2, label? := some 3, kind? := some 11
      typeName? := some ".Crossing.SecondEntry" },
    { name? := some "third", number? := some 3, label? := some 3, kind? := some 9 }]
  nested := [secondEntry]

/-- Refers to two files that would have the same qualifier, to one of them in a map. -/
def crossing : File where
  name? := some "crossing.proto"
  messages := [crossingMessage]

def crossingIndex : Index where
  files := [slashed, underscored, crossing]
  entries := [
    { file := slashed, fullName := "Slashed", scope := ["Slashed"]
      body := .message { name? := some "Slashed" } },
    { file := underscored, fullName := "Underscored", scope := ["Underscored"]
      body := .message { name? := some "Underscored" } },
    { file := crossing, fullName := "Crossing", scope := ["Crossing"]
      body := .message crossingMessage },
    { file := crossing, fullName := "Crossing.SecondEntry", scope := ["Crossing", "SecondEntry"]
      body := .message secondEntry }]

def secondMember : Member String where
  name := "second"
  type := .map .string (.reference "a_b_pb2.Slashed")
  doc := []
  oneof := none

def crossingTypings : Typings where
  file := "crossing.proto"
  package := ""
  level := "proto2"
  imports := [
    { qualifier := "a_b_pb", specifier := "./a_b", file := "a_b.proto" },
    { qualifier := "a_b_pb2", specifier := "./a/b", file := "a/b.proto" }]
  declarations := [
    { name := "Crossing", fullName := "Crossing", doc := []
      body := .interface [
        { name := "first", type := .reference "a_b_pb.Underscored", doc := [], oneof := none },
        secondMember,
        { name := "third", type := .array .string, doc := [], oneof := none }] }]

theorem crossing_typings : crossing.typings crossingIndex = .ok crossingTypings := by rfl

theorem crossing_mapsWellFormed : crossingIndex.MapsWellFormed := by
  have hfirst : crossingIndex.find ".Underscored" = .ok crossingIndex.entries[1] := by rfl
  have hslashed : crossingIndex.find ".Slashed" = .ok crossingIndex.entries[0] := by rfl
  constructor
  · simp only [crossingIndex, List.forall_mem_cons, List.not_mem_nil, false_implies, implies_true,
      and_true]
    refine ⟨?_, ?_, ?_, ?_⟩
    · rintro m ⟨⟩
      exact List.forall_mem_nil _
    · rintro m ⟨⟩
      exact List.forall_mem_nil _
    · rintro m ⟨⟩
      refine List.forall_mem_cons.mpr ⟨fun _ _ e he => ?_, List.forall_mem_cons.mpr ⟨nofun, ?_⟩⟩
      · obtain rfl := Except.ok.inj (hfirst.symm.trans he)
        rfl
      · exact List.forall_mem_singleton.mpr fun hr => nomatch hr
    · rintro m ⟨⟩
      refine List.forall_mem_cons.mpr ⟨nofun, List.forall_mem_singleton.mpr fun _ _ e he => ?_⟩
      obtain rfl := Except.ok.inj (hslashed.symm.trans he)
      rfl
  · simp only [crossingIndex, List.forall_mem_cons, List.not_mem_nil, false_implies, implies_true,
      and_true]
    refine ⟨nofun, nofun, nofun, ?_⟩
    rintro m ⟨⟩
    exact ⟨rfl, rfl⟩

theorem second_leads_to_slashed :
    Index.ofFiles [slashed, underscored, crossing] = .ok crossingIndex ∧
    crossingIndex.MapsWellFormed ∧ crossing.typings crossingIndex = .ok crossingTypings ∧
    ∃ e ∈ crossingIndex.entries,
      crossing.Mentions crossingIndex crossingTypings.declarations[0] secondMember e ∧
      e.file ∈ [slashed, underscored, crossing] ∧
      e.WrittenIn crossing crossingTypings.imports "a_b_pb2.Slashed" ∧
      ∀ t, e.file.typings crossingIndex = .ok t → t.DeclaresOnce e := by
  have hix : Index.ofFiles [slashed, underscored, crossing] = .ok crossingIndex := by rfl
  have hf : crossing ∈ [slashed, underscored, crossing] := List.mem_of_getElem? (i := 2) rfl
  have hd : crossingTypings.declarations[0] ∈ crossingTypings.declarations := List.getElem_mem _
  have hm : secondMember ∈ crossingTypings.declarations[0].members :=
    List.mem_cons_of_mem _ List.mem_cons_self
  have hr : "a_b_pb2.Slashed" ∈ secondMember.type.references := List.mem_singleton_self _
  exact ⟨hix, crossing_mapsWellFormed, crossing_typings,
    references_lead_to_types hix crossing_mapsWellFormed hf crossing_typings hd hm hr⟩

end Sample

end ProtoTypings

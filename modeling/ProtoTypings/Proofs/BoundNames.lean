import ProtoTypings.Proofs.Import
import ProtoTypings.Proofs.Projection
import ProtoTypings.Proofs.Scope

/-!
# Names bound in a generated file

A generated file binds a name for each declaration and for each import, and the built-in types of
TypeScript have names besides. A plain name is bound by a declaration only if a type at the top of
the file has just this name and the name is not reserved (`File.exists_named_iff`). This
settles when a declaration takes the name of an import (`File.imports_apart_iff`) or hides the type
of a scalar (`File.hides_scalar_iff`).
-/

namespace ProtoTypings

open Index

/-! ## Plain flat names -/

namespace Scope

variable {s : Scope} {name : String}

theorem flatten_eq_iff (h : IsPlain name) : s.flatten = name ↔ s = [name] := by
  constructor
  · rintro rfl
    match s with
    | [] => exact absurd rfl h.1
    | [c] => rfl
    | c :: d :: s =>
      refine absurd ?_ h.2
      rw [toList_flatten, List.map_cons, List.map_cons, List.intercalate_cons_cons]
      simp
  · rintro rfl
    rfl

theorem flatName_eq_iff (h : IsPlain name) :
    s.flatName = name ↔ s = [name] ∧ name ∉ Identifier.reserved := by
  rw [← flatten_eq_iff h, flatName, Identifier.avoidReserved]
  split
  · next hres =>
    constructor
    · rintro rfl
      exact absurd (by simp) h.2
    · rintro ⟨rfl, hn⟩
      exact absurd hres hn
  · next hres =>
    constructor
    · rintro rfl
      exact ⟨rfl, hres⟩
    · exact fun hn => hn.1

end Scope

namespace File

variable {f : File} {ix : Index} {t : Typings}

theorem exists_declaration_name_iff (h : f.typings ix = .ok t) {name : String} :
    (∃ d ∈ t.declarations, d.name = name) ↔
      ∃ p s b, f.declaredAt? p = some (s, b) ∧ s.flatName = name := by
  obtain ⟨ds, hds, rfl⟩ := typings_eq_ok_iff.mp h
  have hnodes := (declarations_eq_ok_iff.mp hds).1
  have hnames : (∃ d ∈ (f.assemble ds).declarations, d.name = name) ↔ ∃ d ∈ ds, d.name = name := by
    rw [← List.mem_map, map_name_assemble, List.mem_map]
  rw [hnames]
  constructor
  · rintro ⟨d, hd, rfl⟩
    obtain ⟨n, hn, hdecl⟩ := exists_left_of_forall₂ hnodes hd
    obtain ⟨p, hp⟩ := exists_node_iff.mp ⟨n, hn, rfl⟩
    exact ⟨p, n.scope, n.body, hp, (declaration_names hdecl).1.symm⟩
  · rintro ⟨p, s, b, hp, rfl⟩
    obtain ⟨n, hn, hc⟩ := exists_node_iff.mpr ⟨p, hp⟩
    obtain ⟨d, hd, hdecl⟩ := exists_right_of_forall₂ hnodes hn
    obtain rfl : n.scope = s := congrArg Prod.fst hc
    exact ⟨d, hd, (declaration_names hdecl).1⟩

theorem declaredAt?_ne {s : Scope} (h : ∀ n ∈ f.declaredNodes, n.scope ≠ s) (p : Place)
    (b : Node.Body) : f.declaredAt? p ≠ some (s, b) := by
  intro hp
  obtain ⟨n, hn, hc⟩ := exists_node_iff.mpr ⟨p, hp⟩
  exact h n hn (congrArg Prod.fst hc)

/-- Nested types get names that are not plain. -/
theorem exists_named_iff (h : f.typings ix = .ok t) {name : String} (hname : IsPlain name) :
    (∃ d ∈ t.declarations, d.name = name) ↔
      name ∉ Identifier.reserved ∧ ∃ p b, f.declaredAt? p = some ([name], b) := by
  rw [exists_declaration_name_iff h]
  constructor
  · rintro ⟨p, s, b, hp, hflat⟩
    obtain ⟨rfl, hres⟩ := (Scope.flatName_eq_iff hname).mp hflat
    exact ⟨hres, p, b, hp⟩
  · rintro ⟨hres, p, b, hp⟩
    exact ⟨p, [name], b, hp, (Scope.flatName_eq_iff hname).mpr ⟨rfl, hres⟩⟩

end File

/-! ## Names of imports -/

theorem Identifier.underscore_not_mem_of_reserved {name : String} (h : name ∈ reserved) :
    '_' ∉ name.toList := by
  have hall : ∀ name ∈ reserved, '_' ∉ name.toList := by decide
  exact hall name h

namespace SourcePath

theorem mem_qualifier {path : String} {c : Char} (h : c ∈ (qualifier path).toList) :
    c.isAlphanum = true ∨ c = '_' := by
  rw [qualifier, String.toList_ofList] at h
  split at h
  · rcases List.mem_cons.mp h with h | h
    · exact .inr h
    · exact mem_qualifierChars h
  · exact mem_qualifierChars h

theorem underscore_mem_qualifier (path : String) : '_' ∈ (qualifier path).toList := by
  have h : '_' ∈ qualifierChars (stemChars path.toList) :=
    List.mem_append_right _ List.mem_cons_self
  rw [qualifier, String.toList_ofList]
  split
  · exact List.mem_cons_self
  · exact h

end SourcePath

namespace Import

/-- No separator of scopes, and an underscore, which no reserved word has. -/
theorem unreserved_of_mem_candidates {taken : Nat} {path q : String}
    (h : q ∈ candidates taken (SourcePath.qualifier path)) :
    IsPlain q ∧ q ∉ Identifier.reserved := by
  obtain ⟨number, hdigits, rfl⟩ : ∃ number : String, (∀ c ∈ number.toList, c.isDigit = true) ∧
      q = SourcePath.qualifier path ++ number := by
    rcases List.mem_cons.mp h with rfl | h
    · exact ⟨"", by simp, String.append_empty.symm⟩
    · obtain ⟨n, -, rfl⟩ := List.mem_map.mp h
      refine ⟨toString (n + 2), fun c hc => ?_, rfl⟩
      rw [Nat.toString_eq_repr, Nat.toList_repr] at hc
      exact Nat.isDigit_of_mem_toDigits (by decide) (by decide) hc
  have hunder := SourcePath.underscore_mem_qualifier path
  have hmem : '_' ∈ (SourcePath.qualifier path ++ number).toList := by
    rw [String.toList_append]
    exact List.mem_append_left _ hunder
  refine ⟨⟨?_, ?_⟩, fun hres => Identifier.underscore_not_mem_of_reserved hres hmem⟩
  · intro hempty
    rw [hempty] at hmem
    cases hmem
  · rw [String.toList_append]
    intro hdollar
    rcases List.mem_append.mp hdollar with hd | hd
    · rcases SourcePath.mem_qualifier hd with h | h <;> exact absurd h (by decide)
    · exact absurd (hdigits _ hd) (by decide)

theorem mem_candidates_add {importer : String} {imports : List Import}
    (h : ∀ i ∈ imports, ∃ taken, i.qualifier ∈ candidates taken (SourcePath.qualifier i.file))
    (file : String) : ∀ i ∈ add importer imports file,
      ∃ taken, i.qualifier ∈ candidates taken (SourcePath.qualifier i.file) := by
  unfold add
  split
  · exact h
  · exact List.forall_mem_append.mpr
      ⟨h, List.forall_mem_singleton.mpr ⟨_, (freeQualifier_spec _ _).1⟩⟩

theorem mem_candidates_ofFiles (importer : String) (files : List String) :
    ∀ i ∈ ofFiles importer files,
      ∃ taken, i.qualifier ∈ candidates taken (SourcePath.qualifier i.file) := by
  induction files using List.reverseRecOn with
  | nil => exact List.forall_mem_nil _
  | append_singleton files file ih =>
    rw [ofFiles_concat]
    exact mem_candidates_add ih file

end Import

namespace File

variable {f : File} {ix : Index} {t : Typings}

theorem qualifier_mem_candidates (h : f.typings ix = .ok t) {i : Import} (hi : i ∈ t.imports) :
    ∃ taken, i.qualifier ∈ Import.candidates taken (SourcePath.qualifier i.file) := by
  obtain ⟨ds, -, rfl⟩ := typings_eq_ok_iff.mp h
  exact Import.mem_candidates_ofFiles _ _ i hi

/-- An import loses its name to a declaration just where a type at the top of the file is called
like the import, which is named after the imported file. -/
theorem imports_apart_iff (h : f.typings ix = .ok t) :
    ((∀ i ∈ t.imports, ∀ d ∈ t.declarations, i.qualifier ≠ d.name) ↔
      ∀ i ∈ t.imports, ∀ p b, f.declaredAt? p ≠ some ([i.qualifier], b)) ∧
    ∀ i ∈ t.imports, i.qualifier = SourcePath.qualifier i.file ∨
      ∃ n, 2 ≤ n ∧ i.qualifier = SourcePath.qualifier i.file ++ toString n := by
  constructor
  · refine forall₂_congr fun i hi => ?_
    obtain ⟨taken, hq⟩ := qualifier_mem_candidates h hi
    obtain ⟨hplain, hres⟩ := Import.unreserved_of_mem_candidates hq
    have hnamed := exists_named_iff h hplain
    constructor
    · intro hapart p b hp
      obtain ⟨d, hd, hname⟩ := hnamed.mpr ⟨hres, p, b, hp⟩
      exact hapart d hd hname.symm
    · intro hnone d hd hname
      obtain ⟨-, p, b, hp⟩ := hnamed.mp ⟨d, hd, hname.symm⟩
      exact hnone p b hp
  · intro i hi
    obtain ⟨taken, hq⟩ := qualifier_mem_candidates h hi
    rcases List.mem_cons.mp hq with hq | hq
    · exact .inl hq
    · obtain ⟨n, -, hn⟩ := List.mem_map.mp hq
      exact .inr ⟨n + 2, Nat.le_add_left 2 n, hn.symm⟩

end File

namespace Sample

/-- The file to import. -/
def common : File where
  name? := some "common.proto"
  messages := [{ name? := some "Money" }]

/-- A type here has the name that the import of `common` gets. -/
def eclipse : File where
  name? := some "eclipse.proto"
  messages := [{
    name? := some "common_pb"
    fields := [
      { name? := some "price", number? := some 1, label? := some 1, kind? := some 11
        typeName? := some ".Money" }] }]

def eclipseIndex : Index where
  files := [eclipse, common]
  entries := [eclipse, common].flatMap File.entries

def eclipseTypings : Typings where
  file := "eclipse.proto"
  package := ""
  level := "proto2"
  imports := [{ qualifier := "common_pb", specifier := "./common", file := "common.proto" }]
  declarations := [
    { name := "common_pb", fullName := "common_pb", doc := []
      body := .interface [
        { name := "price", type := .reference "common_pb.Money", doc := [], oneof := none }] }]

/-- An import of a valid file stands for a type of the file itself. -/
theorem import_eclipsed :
    Index.ofFiles [eclipse, common] = .ok eclipseIndex ∧
    (∀ n ∈ eclipse.allNodes, Identifier.isValid n.body.name = true ∧ IsPlain n.body.name) ∧
    eclipse.typings eclipseIndex = .ok eclipseTypings ∧
    ∃ i ∈ eclipseTypings.imports, ∃ d ∈ eclipseTypings.declarations, i.qualifier = d.name := by
  refine ⟨by rfl, by decide, by rfl, ?_⟩
  exact ⟨_, List.mem_cons_self, _, List.mem_cons_self, rfl⟩

theorem order_imports_apart : order.typings index = .ok typings ∧
    ∀ i ∈ typings.imports, ∀ d ∈ typings.declarations, i.qualifier ≠ d.name := by
  have hnone : ∀ i ∈ typings.imports, ∀ n ∈ order.declaredNodes, n.scope ≠ [i.qualifier] := by
    decide
  exact ⟨typings_eq, (File.imports_apart_iff typings_eq).1.mpr
    fun i hi p b => File.declaredAt?_ne (hnone i hi) p b⟩

end Sample

/-! ## Built-in types -/

/-- The type is written by a name that is built into TypeScript. -/
def TypeExpr.isScalar {ρ : Type} : TypeExpr ρ → Bool
  | .number | .string | .boolean | .bytes => true
  | .reference _ | .array _ | .map _ _ => false

/-- Of the names of built-in types, all but that for bytes are reserved. -/
theorem File.hides_scalar_iff {f : File} {ix : Index} {t : Typings} (h : f.typings ix = .ok t)
    {s : TypeExpr String} (hs : s.isScalar = true) :
    (∃ d ∈ t.declarations, d.name = s.text) ↔
      s = .bytes ∧ ∃ p b, f.declaredAt? p = some (["Uint8Array"], b) := by
  have hreserved : ∀ {name : String}, name ∈ Identifier.reserved → IsPlain name →
      ¬ ∃ d ∈ t.declarations, d.name = name :=
    fun hres hplain hd => ((exists_named_iff h hplain).mp hd).1 hres
  cases s with
  | number => exact iff_of_false (hreserved (by decide) (by decide)) fun hbytes => nomatch hbytes.1
  | string => exact iff_of_false (hreserved (by decide) (by decide)) fun hbytes => nomatch hbytes.1
  | boolean => exact iff_of_false (hreserved (by decide) (by decide)) fun hbytes => nomatch hbytes.1
  | bytes =>
    have hnamed := exists_named_iff h (show IsPlain "Uint8Array" by decide)
    rw [TypeExpr.text, hnamed]
    exact and_congr_left' (iff_of_true (by decide) rfl)
  | reference _ => cases hs
  | array _ => cases hs
  | map _ _ => cases hs

namespace Sample

theorem order_hides_nothing : order.typings index = .ok typings ∧
    (TypeExpr.bytes : TypeExpr String).isScalar = true ∧
    ∀ d ∈ typings.declarations, d.name ≠ (TypeExpr.bytes : TypeExpr String).text := by
  have hbytes : (TypeExpr.bytes : TypeExpr String).isScalar = true := rfl
  have hnone : ∀ n ∈ order.declaredNodes, n.scope ≠ ["Uint8Array"] := by decide
  refine ⟨typings_eq, hbytes, fun d hd hname => ?_⟩
  obtain ⟨-, p, b, hp⟩ := (File.hides_scalar_iff typings_eq hbytes).mp ⟨d, hd, hname⟩
  exact File.declaredAt?_ne hnone p b hp

/-- A message with the name of the built-in type that one of its own fields needs. -/
def buffer : File where
  name? := some "buffer.proto"
  messages := [{
    name? := some "Uint8Array"
    fields := [
      { name? := some "content", number? := some 1, label? := some 1, kind? := some 12 }] }]

def bufferIndex : Index where
  files := [buffer]
  entries := buffer.entries

def bufferTypings : Typings where
  file := "buffer.proto"
  package := ""
  level := "proto2"
  imports := []
  declarations := [
    { name := "Uint8Array", fullName := "Uint8Array", doc := []
      body := .interface [{ name := "content", type := .bytes, doc := [], oneof := none }] }]

theorem bytes_hidden :
    Index.ofFiles [buffer] = .ok bufferIndex ∧ buffer.typings bufferIndex = .ok bufferTypings ∧
    ∃ d ∈ bufferTypings.declarations, d.name = (TypeExpr.bytes : TypeExpr String).text ∧
      ∃ m ∈ d.members, m.type = .bytes := by
  refine ⟨by rfl, by rfl, _, List.mem_cons_self, by rfl, ?_⟩
  exact ⟨_, List.mem_cons_self, rfl⟩

end Sample

end ProtoTypings

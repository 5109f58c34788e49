import ProtoTypings.Proofs.Failure
import ProtoTypings.Proofs.NeededImports

/-!
# Shapes of types

Where no part of a map is repeated, as in files that come from a compiler, no map is inside another
one. Then the type of a field is a base type, a list of a base type or a map between base types, and
the field decides which (`Index.Shaped`); a field of a scalar kind decides the type itself. To take
one map apart is enough for every type (`MapsSingle.typeWith_mapType`).
-/

namespace ProtoTypings

/-! ## Base types -/

namespace TypeExpr

variable {ρ σ : Type}

/-- The type is neither a list nor a map. -/
def isBase : TypeExpr ρ → Bool
  | .number | .string | .boolean | .bytes | .reference _ => true
  | .array _ | .map _ _ => false

/-- What a list or a map is made of. -/
def parts : TypeExpr ρ → List (TypeExpr ρ)
  | .array element => [element]
  | .map key value => [key, value]
  | _ => []

@[simp] theorem isBase_rename (g : ρ → σ) (t : TypeExpr ρ) : (t.rename g).isBase = t.isBase := by
  cases t <;> rfl

theorem parts_of_isBase {t : TypeExpr ρ} (h : t.isBase = true) : t.parts = [] := by
  cases t with
  | number | string | boolean | bytes | reference _ => rfl
  | array _ | map _ _ => cases h

end TypeExpr

namespace FieldKind

theorem scalar?_rename {ρ σ : Type} (g : ρ → σ) (asString : Bool) (k : FieldKind) :
    (k.scalar? asString).map (·.rename g) = k.scalar? asString := by
  cases k <;> cases asString <;> rfl

theorem isBase_of_scalar? {ρ : Type} {asString : Bool} {k : FieldKind} {t : TypeExpr ρ}
    (h : k.scalar? asString = some t) : t.isBase = true := by
  cases k <;> cases asString <;> cases h <;> rfl

end FieldKind

namespace Field

/-- A scalar type holds no reference, so that it is the same however references are written. -/
theorem scalar?_rename {ρ σ : Type} (g : ρ → σ) (f : Field) :
    f.scalar?.map (·.rename g) = f.scalar? := by
  unfold scalar?
  cases f.kind?.bind FieldKind.ofNumber? with
  | none => rfl
  | some k => exact FieldKind.scalar?_rename g f.asString k

theorem isBase_of_scalar? {ρ : Type} {f : Field} {t : TypeExpr ρ} (h : f.scalar? = some t) :
    t.isBase = true := by
  obtain ⟨k, -, hk⟩ := Option.bind_eq_some_iff.mp h
  exact FieldKind.isBase_of_scalar? hk

end Field

namespace Index

variable {ρ σ : Type} {ix : Index} {fd : Field}

/-! ## One map is enough -/

/-- How maps are taken apart matters for a field that is a map only. -/
theorem typeWith_congr {mapType mapType' : Entry → Message → Outcome (TypeExpr Entry)}
    (h : ∀ e m, ix.IsMap fd e m → mapType e m = mapType' e m) :
    ix.typeWith mapType fd = ix.typeWith mapType' fd := by
  unfold typeWith
  split
  · rfl
  · next hs =>
    split
    · rfl
    · next e he =>
      split
      · next hr =>
        split
        · next m hm => exact h e m ⟨hs, he, hr, hm⟩
        · rfl
      · rfl

/-- The parts of a map are no maps themselves. -/
theorem MapsSingle.typeWith_part (h : ix.MapsSingle) {e : Entry} {m : Message}
    (hmap : ix.IsMap fd e m) {n : Int32} (hn : n = 1 ∨ n = 2) {part : Field}
    (hpart : m.fieldNumbered? n = some part)
    (mapType mapType' : Entry → Message → Outcome (TypeExpr Entry)) :
    ix.typeWith mapType part = ix.typeWith mapType' part := by
  have hsingle : part.isRepeated = false :=
    h.isRepeated_part (mem_entries_of_find hmap.find) hmap.entry hn hpart
  exact typeWith_congr fun e' m' hmap' =>
    absurd (hsingle.symm.trans hmap'.repeated) Bool.false_ne_true

/-- However deep maps may be taken apart, one of them is. -/
theorem MapsSingle.typeWith_mapType (h : ix.MapsSingle) (fd : Field) {depth : Nat}
    (hdepth : 0 < depth) : ix.typeWith (ix.mapType depth) fd = ix.typeOf fd := by
  refine typeWith_congr fun e m hmap => ?_
  have hsize : 0 < ix.size := List.length_pos_of_mem (mem_entries_of_find hmap.find)
  obtain ⟨d, rfl⟩ := Nat.exists_eq_succ_of_ne_zero hdepth.ne'
  obtain ⟨d', hd'⟩ := Nat.exists_eq_succ_of_ne_zero hsize.ne'
  rw [hd', mapType, mapType]
  split
  · next key value hkey hvalue =>
    rw [h.typeWith_part hmap (.inl rfl) hkey (ix.mapType d) (ix.mapType d'),
      h.typeWith_part hmap (.inr rfl) hvalue (ix.mapType d) (ix.mapType d')]
  · rfl

/-! ## Shapes -/

/-- What is made of base types for the field: one of them, a map between two or a list. -/
inductive Shaped (ix : Index) (fd : Field) : TypeExpr ρ → Prop where
  | single {b : TypeExpr ρ} : fd.isRepeated = false → b.isBase = true → Shaped ix fd b
  | map {e : Entry} {m : Message} {k v : TypeExpr ρ} : ix.IsMap fd e m → k.isBase = true →
      v.isBase = true → Shaped ix fd (.map k v)
  | list {b : TypeExpr ρ} : fd.isRepeated = true → (∀ e m, ¬ ix.IsMap fd e m) →
      b.isBase = true → Shaped ix fd (.array b)

theorem Shaped.rename {t : TypeExpr ρ} (h : ix.Shaped fd t) (g : ρ → σ) :
    ix.Shaped fd (t.rename g) := by
  cases h with
  | single hr hb => exact .single hr (by rwa [TypeExpr.isBase_rename])
  | map hmap hk hv =>
    exact .map hmap (by rwa [TypeExpr.isBase_rename]) (by rwa [TypeExpr.isBase_rename])
  | list hr hnone hb => exact .list hr hnone (by rwa [TypeExpr.isBase_rename])

/-- Nothing is nested in what a list or a map is made of. -/
theorem Shaped.isBase_of_mem_parts {t : TypeExpr ρ} (h : ix.Shaped fd t) :
    ∀ p ∈ t.parts, p.isBase = true := by
  cases h with
  | single _ hb => simp [TypeExpr.parts_of_isBase hb]
  | map _ hk hv => simp [TypeExpr.parts, hk, hv]
  | list _ _ hb => simp [TypeExpr.parts, hb]

/-- A field that is not repeated is no map, whatever it refers to. -/
theorem Typed.isBase {t : TypeExpr Entry} (h : ix.Typed fd t) (hr : fd.isRepeated = false) :
    t.isBase = true := by
  cases h with
  | scalar hs _ => exact Field.isBase_of_scalar? hs
  | reference _ _ _ => rfl
  | scalars _ hr' => exact absurd (hr.symm.trans hr') nofun
  | references _ _ hr' _ => exact absurd (hr.symm.trans hr') nofun
  | map _ _ hr' _ _ _ _ _ => exact absurd (hr.symm.trans hr') nofun

theorem Typed.shaped {t : TypeExpr Entry} (h : ix.Typed fd t) (hsingle : ix.MapsSingle) :
    ix.Shaped fd t := by
  cases h with
  | scalar hs hr => exact .single hr (Field.isBase_of_scalar? hs)
  | scalars hs hr =>
    exact .list hr (fun _ _ hmap => nomatch hmap.scalar.symm.trans hs) (Field.isBase_of_scalar? hs)
  | reference _ _ hr => exact .single hr rfl
  | references _ he hr hm =>
    refine .list hr (fun e m hmap => ?_) rfl
    obtain rfl := Except.ok.inj (hmap.find.symm.trans he)
    exact nomatch hmap.entry.symm.trans hm
  | map hs he hr hm hkey hvalue hk hv =>
    have hentry := mem_entries_of_find he
    exact .map ⟨hs, he, hr, hm⟩ (hk.isBase (hsingle.isRepeated_part hentry hm (.inl rfl) hkey))
      (hv.isBase (hsingle.isRepeated_part hentry hm (.inr rfl) hvalue))

/-! ## Scalar kinds -/

/-- The type of a field of a scalar kind, with no regard to what it refers to. -/
theorem typeOf_of_scalar? {b : TypeExpr Entry} (h : fd.scalar? = some b) :
    ix.typeOf fd = .ok (if fd.isRepeated then .array b else b) := by
  unfold typeOf typeWith
  rw [h]

theorem Typed.rename_eq_of_scalar? {t : TypeExpr Entry} (h : ix.Typed fd t) (g : Entry → ρ)
    {b : TypeExpr ρ} (hs : fd.scalar? = some b) :
    t.rename g = if fd.isRepeated then .array b else b := by
  rw [← Field.scalar?_rename g] at hs
  obtain ⟨b', hb', rfl⟩ := Option.map_eq_some_iff.mp hs
  rw [h.eq_of_scalar? hb']
  split <;> rfl

end Index

/-! ## Members of typings -/

open Index

namespace File

variable {f : File} {ix : Index}

/-- One member for each field, of a type of the field. -/
theorem forall₂_typed_of_typings {t : Typings} (h : f.typings ix = .ok t) :
    ∃ g : Entry → String, List.Forall₂ (fun n d => List.Forall₂ (fun fd mem =>
      ∃ t, ix.Typed fd t ∧ mem.type = t.rename g) n.fields d.members)
      f.declaredNodes t.declarations := by
  obtain ⟨ds, hds, rfl⟩ := typings_eq_ok_iff.mp h
  refine ⟨Entry.nameIn f.name (f.assemble ds).imports, ?_⟩
  refine List.forall₂_map_right_iff.mpr ((declarations_eq_ok_iff.mp hds).1.imp fun n d hd => ?_)
  rw [Declaration.members_rename, List.forall₂_map_right_iff]
  exact (List.forall₂_map_right_iff.mp (forall₂_typed_of_declaration hd)).imp
    fun fd mem htyped => ⟨mem.type, htyped, rfl⟩

end File

/-- What fields and members have for types where no map is inside another one. -/
structure Index.Flat (ix : Index) : Prop where
  /-- Each field has a type or a fault, with no bound on how many maps are taken apart. -/
  decided : ∀ fd, (∃ t, ix.Typed fd t) ∨ ∃ e, ix.Fault fd e
  /-- To take one map apart is enough, and more makes no difference. -/
  one_deep : ∀ fd depth, 0 < depth → ix.typeWith (ix.mapType depth) fd = ix.typeOf fd
  /-- The projection of any file comes to an end. -/
  ends : ∀ f : File, f.typings ix ≠ .endless
  members : ∀ (f : File) (t : Typings), f.typings ix = .ok t →
    List.Forall₂ (fun n d => List.Forall₂ (fun fd mem =>
      ix.Shaped fd mem.type ∧ (∀ p ∈ mem.type.parts, p.isBase = true) ∧
      ∀ b, fd.scalar? = some b → mem.type = if fd.isRepeated then .array b else b)
      n.fields d.members) f.declaredNodes t.declarations
  /-- What else is in the index, and what the field refers to, is nothing to a scalar kind. -/
  scalar : ∀ fd : Field, (fd.scalar? : Option (TypeExpr Entry)).isSome →
    ∀ (ix' : Index) (n : Option String), ix'.typeOf { fd with typeName? := n } = ix.typeOf fd

theorem Index.flat_of_mapsSingle {ix : Index} (h : ix.MapsSingle) : ix.Flat := by
  refine {
    decided := fun fd => ?_
    one_deep := fun fd _ => h.typeWith_mapType fd
    ends := fun _ => File.typings_ne_endless h.acyclic
    members := fun f t ht => ?_
    scalar := fun fd hs ix' n => ?_ }
  · rcases Classical.em (∃ t, ix.Typed fd t) with htyped | hnone
    · exact .inl htyped
    · exact .inr ((h.acyclic.ends fd).fault_iff_not_typed.mpr (not_exists.mp hnone))
  · obtain ⟨g, hall⟩ := File.forall₂_typed_of_typings ht
    refine hall.imp fun n d hmembers => hmembers.imp ?_
    rintro fd mem ⟨t, htyped, htype⟩
    rw [htype]
    have hshaped : ix.Shaped fd (t.rename g) := (htyped.shaped h).rename g
    exact ⟨hshaped, hshaped.isBase_of_mem_parts, fun b => htyped.rename_eq_of_scalar? g⟩
  · obtain ⟨b, hb⟩ := Option.isSome_iff_exists.mp hs
    have hb' : Field.scalar? { fd with typeName? := n } = some b := hb
    rw [typeOf_of_scalar? hb, typeOf_of_scalar? hb']
    rfl

/-- The members are of the three shapes: a reference, a map and a list. -/
theorem Sample.crossing_flat : crossingIndex.MapsSingle ∧ crossingIndex.Flat ∧
    crossing.typings crossingIndex = .ok crossingTypings ∧
    crossingTypings.declarations[0].members.map (·.type) =
      [.reference "a_b_pb.Underscored", .map .string (.reference "a_b_pb2.Slashed"),
        .array .string] ∧
    List.Forall₂ (fun fd mem => crossingIndex.Shaped fd mem.type) crossingMessage.fields
      crossingTypings.declarations[0].members := by
  have hsingle : crossingIndex.MapsSingle := by decide
  have hflat : crossingIndex.Flat := Index.flat_of_mapsSingle hsingle
  obtain ⟨hmembers, -⟩ := List.forall₂_cons.mp (hflat.members _ _ crossing_typings)
  exact ⟨hsingle, hflat, crossing_typings, by rfl, hmembers.imp fun _ _ hmem => hmem.1⟩

end ProtoTypings

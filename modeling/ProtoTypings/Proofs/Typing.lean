import ProtoTypings.Index.Typing

/-!
# Types of fields, declaratively

`ix.Typed f t` says when `t` is the type of the field `f`, with no bound on how many maps are taken
apart. What `Index.typeOf` gives is such a type (`typed_of_typeOf`). The references in it are
entries of the index, and where maps are well formed none of them is a map entry
(`Typed.references_declared`).
-/

namespace ProtoTypings

namespace Index

inductive Typed (ix : Index) : Field → TypeExpr Entry → Prop where
  | scalar {f : Field} {t : TypeExpr Entry} : f.scalar? = some t → f.isRepeated = false →
      Typed ix f t
  | scalars {f : Field} {t : TypeExpr Entry} : f.scalar? = some t → f.isRepeated = true →
      Typed ix f (.array t)
  | reference {f : Field} {e : Entry} : f.scalar? = (none : Option (TypeExpr Entry)) →
      ix.find f.typeName = .ok e → f.isRepeated = false → Typed ix f (.reference e)
  | references {f : Field} {e : Entry} : f.scalar? = (none : Option (TypeExpr Entry)) →
      ix.find f.typeName = .ok e → f.isRepeated = true → e.mapMessage? = none →
      Typed ix f (.array (.reference e))
  /-- The entry of a map holds the key as its field 1 and the value as its field 2. -/
  | map {f key value : Field} {e : Entry} {m : Message} {k v : TypeExpr Entry} :
      f.scalar? = (none : Option (TypeExpr Entry)) → ix.find f.typeName = .ok e →
      f.isRepeated = true → e.mapMessage? = some m →
      m.fieldNumbered? 1 = some key → m.fieldNumbered? 2 = some value →
      Typed ix key k → Typed ix value v → Typed ix f (.map k v)

variable {ix : Index}

/-! ## What is computed is a type of the field -/

/-- The parts of a map, in the order in which they are looked at. -/
def MapTyped (ix : Index) (m : Message) (t : TypeExpr Entry) : Prop :=
  ∃ key value k v, m.fieldNumbered? 1 = some key ∧ m.fieldNumbered? 2 = some value ∧
    ix.Typed key k ∧ ix.Typed value v ∧ t = .map k v

theorem typed_of_typeWith {mapType : Entry → Message → Outcome (TypeExpr Entry)}
    (hmap : ∀ e m t, mapType e m = .ok t → ix.MapTyped m t) {f : Field} {t : TypeExpr Entry}
    (h : ix.typeWith mapType f = .ok t) : ix.Typed f t := by
  unfold typeWith at h
  split at h
  · next s hs =>
    cases h
    cases hr : f.isRepeated with
    | false => exact .scalar hs hr
    | true => exact .scalars hs hr
  · next hs =>
    split at h
    · cases h
    · next e he =>
      cases hr : f.isRepeated with
      | false =>
        rw [hr] at h
        cases h
        exact .reference hs he hr
      | true =>
        rw [hr] at h
        simp only [if_true] at h
        split at h
        · next m hm =>
          obtain ⟨key, value, k, v, hkey, hvalue, hk, hv, rfl⟩ := hmap e m t h
          exact .map hs he hr hm hkey hvalue hk hv
        · next hm =>
          cases h
          exact .references hs he hr hm

theorem mapTyped_of_mapType {depth : Nat} {e : Entry} {m : Message} {t : TypeExpr Entry}
    (h : ix.mapType depth e m = .ok t) : ix.MapTyped m t := by
  induction depth generalizing e m t with
  | zero => cases h
  | succ depth ih =>
    unfold mapType at h
    split at h
    · next key value hkey hvalue =>
      simp only [Outcome.bind_eq_ok_iff, Outcome.pure_eq_ok_iff] at h
      obtain ⟨k, hk, v, hv, rfl⟩ := h
      exact ⟨key, value, k, v, hkey, hvalue, typed_of_typeWith (fun _ _ _ => ih) hk,
        typed_of_typeWith (fun _ _ _ => ih) hv, rfl⟩
    · cases h

theorem typed_of_typeOf {f : Field} {t : TypeExpr Entry} (h : ix.typeOf f = .ok t) :
    ix.Typed f t :=
  typed_of_typeWith (fun _ _ _ => mapTyped_of_mapType) h

/-- The type of a field of a scalar kind does not depend on the index. -/
theorem Typed.eq_of_scalar? {fd : Field} {t b : TypeExpr Entry} (h : ix.Typed fd t)
    (hs : fd.scalar? = some b) : t = if fd.isRepeated then .array b else b := by
  cases h with
  | scalar hs' hr => rw [hr, Option.some.inj (hs.symm.trans hs')]; rfl
  | scalars hs' hr => rw [hr, Option.some.inj (hs.symm.trans hs')]; rfl
  | reference hs' _ _ => exact nomatch hs.symm.trans hs'
  | references hs' _ _ _ => exact nomatch hs.symm.trans hs'
  | map hs' _ _ _ _ _ _ _ => exact nomatch hs.symm.trans hs'

/-! ## References in types -/

theorem mem_entries_of_find {n : String} {e : Entry} (h : ix.find n = .ok e) : e ∈ ix.entries := by
  unfold find at h
  split at h
  · next e' he =>
    cases h
    exact List.mem_of_find?_eq_some he
  · cases h

theorem Entry.mapMessage?_eq_some_iff {e : Entry} {m : Message} :
    e.mapMessage? = some m ↔ e.body = .message m ∧ m.isMapEntry = true := by
  unfold mapMessage?
  cases e.body with
  | message m' =>
    by_cases hm : m'.isMapEntry = true
    · simp only [hm, if_true, Option.some.injEq, Node.Body.message.injEq]
      exact ⟨fun h => ⟨h, h ▸ hm⟩, fun h => h.1⟩
    · simp only [hm, Bool.false_eq_true, if_false, reduceCtorEq, Node.Body.message.injEq, false_iff]
      rintro ⟨rfl, h⟩
      exact hm h
  | enum en => simp

end Index

theorem FieldKind.references_of_scalar? {ρ : Type} {asString : Bool} {k : FieldKind}
    {t : TypeExpr ρ} (h : k.scalar? asString = some t) : t.references = [] := by
  unfold scalar? at h
  split at h
  case h_7 =>
    cases h
    split <;> rfl
  all_goals cases h <;> rfl

theorem Field.references_of_scalar? {ρ : Type} {f : Field} {t : TypeExpr ρ}
    (h : f.scalar? = some t) : t.references = [] := by
  obtain ⟨k, -, hk⟩ := Option.bind_eq_some_iff.mp h
  exact FieldKind.references_of_scalar? hk

namespace Index

variable {ix : Index}

theorem Typed.mem_entries {f : Field} {t : TypeExpr Entry} (h : ix.Typed f t) :
    ∀ e ∈ t.references, e ∈ ix.entries := by
  induction h with
  | scalar hs _ => simp [Field.references_of_scalar? hs]
  | scalars hs _ => simp [TypeExpr.references, Field.references_of_scalar? hs]
  | reference _ he _ => exact List.forall_mem_singleton.mpr (mem_entries_of_find he)
  | references _ he _ _ => exact List.forall_mem_singleton.mpr (mem_entries_of_find he)
  | map _ _ _ _ _ _ _ _ ihk ihv => exact List.forall_mem_append.mpr ⟨ihk, ihv⟩

/-- What holds of the messages that stand for maps when a compiler made them: they are the types of
repeated fields only, and nothing is nested in them. -/
structure MapsWellFormed (ix : Index) : Prop where
  repeated : ∀ e ∈ ix.entries, ∀ m, e.body = .message m → ∀ f ∈ m.fields, f.isRepeated = false →
    f.scalar? = (none : Option (TypeExpr Entry)) →
    ∀ e', ix.find f.typeName = .ok e' → e'.mapMessage? = none
  flat : ∀ e ∈ ix.entries, ∀ m, e.mapMessage? = some m → m.nested = [] ∧ m.enums = []

/-- The field is one of a message in the index. -/
def Owns (ix : Index) (f : Field) : Prop :=
  ∃ e ∈ ix.entries, ∃ m, e.body = .message m ∧ f ∈ m.fields

theorem owns_of_mapMessage? {e : Entry} {m : Message} {n : Int32} {f : Field}
    (he : e ∈ ix.entries) (hm : e.mapMessage? = some m) (hf : m.fieldNumbered? n = some f) :
    ix.Owns f :=
  ⟨e, he, m, (Entry.mapMessage?_eq_some_iff.mp hm).1, List.mem_of_find?_eq_some hf⟩

/-- The references in the type of a field are types that are declared, never map entries. -/
theorem Typed.references_declared {f : Field} {t : TypeExpr Entry} (h : ix.Typed f t)
    (hw : ix.MapsWellFormed) (hf : ix.Owns f) :
    ∀ e ∈ t.references, e ∈ ix.entries ∧ e.mapMessage? = none := by
  induction h with
  | scalar hs hr =>
    simp [Field.references_of_scalar? hs]
  | scalars hs hr =>
    simp [TypeExpr.references, Field.references_of_scalar? hs]
  | reference hs he hr =>
    obtain ⟨o, ho, m, hm, hfm⟩ := hf
    intro e' he'
    obtain rfl := List.mem_singleton.mp he'
    exact ⟨mem_entries_of_find he, hw.repeated o ho m hm _ hfm hr hs _ he⟩
  | references hs he hr hm =>
    intro e' he'
    obtain rfl := List.mem_singleton.mp he'
    exact ⟨mem_entries_of_find he, hm⟩
  | map hs he hr hm hkey hvalue _ _ ihk ihv =>
    intro e' he'
    rcases List.mem_append.mp he' with he' | he'
    · exact ihk (owns_of_mapMessage? (mem_entries_of_find he) hm hkey) e' he'
    · exact ihv (owns_of_mapMessage? (mem_entries_of_find he) hm hvalue) e' he'

end Index

end ProtoTypings

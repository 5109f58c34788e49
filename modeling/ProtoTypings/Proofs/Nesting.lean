import Mathlib.Data.List.Chain
import Mathlib.Data.List.Perm.Subperm
import Mathlib.Logic.Relation
import ProtoTypings.Proofs.Typing

/-!
# Maps inside maps

`ix.Leads e e'`: the map entry `e` has a repeated key or value that refers to the map entry `e'`.
`ix.Needs e e'`: on top of that, the type of `e'` has to be known before that of `e` is. Looking for
the type of a field is endless only if it goes round in a circle (`circles_of_typeOf`), since maps
inside one another are otherwise different types, and there are no more of them than types in the
index. A field that leads to no map entry that leads back to itself does not circle
(`Ends.not_circles`).
-/

namespace ProtoTypings.Index

variable {ix : Index}

def Leads (ix : Index) (e e' : Entry) : Prop :=
  ∃ m n f, e.mapMessage? = some m ∧ (n = 1 ∨ n = 2) ∧ m.fieldNumbered? n = some f ∧
    f.isRepeated = true ∧ f.scalar? = (none : Option (TypeExpr Entry)) ∧
    ix.find f.typeName = .ok e' ∧ e'.mapMessage?.isSome

def Acyclic (ix : Index) : Prop := ∀ e, ¬ Relation.TransGen ix.Leads e e

/-- The field is a map: it is repeated and refers to the map entry. -/
structure IsMap (ix : Index) (f : Field) (e : Entry) (m : Message) : Prop where
  scalar : f.scalar? = (none : Option (TypeExpr Entry))
  find : ix.find f.typeName = .ok e
  repeated : f.isRepeated = true
  entry : e.mapMessage? = some m

/-- No map entry to which the field leads, at once or through others, leads back to itself. -/
def Ends (ix : Index) (f : Field) : Prop :=
  ∀ e m, ix.IsMap f e m → ∀ e', Relation.ReflTransGen ix.Leads e e' →
    ¬ Relation.TransGen ix.Leads e' e'

theorem Acyclic.ends (h : ix.Acyclic) (f : Field) : ix.Ends f := fun _ _ _ e' _ => h e'

theorem Leads.mem_entries {e e' : Entry} (h : ix.Leads e e') : e' ∈ ix.entries := by
  obtain ⟨_, _, _, _, _, _, _, _, hfind, _⟩ := h
  exact mem_entries_of_find hfind

theorem IsMap.leads {e e' : Entry} {m m' : Message} {n : Int32} {f : Field} (h : ix.IsMap f e' m')
    (hm : e.mapMessage? = some m) (hn : n = 1 ∨ n = 2) (hf : m.fieldNumbered? n = some f) :
    ix.Leads e e' :=
  ⟨m, n, f, hm, hn, hf, h.repeated, h.scalar, h.find, by rw [h.entry]; rfl⟩

/-- The map entry `e'` is the type of the key of `e`, or of the value once the key has a type. -/
def Needs (ix : Index) (e e' : Entry) : Prop :=
  ∃ m key value m', e.mapMessage? = some m ∧ m.fieldNumbered? 1 = some key ∧
    m.fieldNumbered? 2 = some value ∧
    (ix.IsMap key e' m' ∨ (∃ k, ix.Typed key k) ∧ ix.IsMap value e' m')

/-- The field is a map, and on the way to its type that of some map entry is needed for itself. -/
def Circles (ix : Index) (f : Field) : Prop :=
  ∃ e m, ix.IsMap f e m ∧
    ∃ e', Relation.ReflTransGen ix.Needs e e' ∧ Relation.TransGen ix.Needs e' e'

theorem Needs.leads {e e' : Entry} (h : ix.Needs e e') : ix.Leads e e' := by
  obtain ⟨m, key, value, m', hm, hkey, hvalue, hmap | ⟨-, hmap⟩⟩ := h
  · exact hmap.leads hm (.inl rfl) hkey
  · exact hmap.leads hm (.inr rfl) hvalue

theorem Ends.not_circles {f : Field} (h : ix.Ends f) : ¬ ix.Circles f := by
  rintro ⟨e, m, hmap, e', hreach, hcycle⟩
  have hsub : ∀ e₁ e₂, ix.Needs e₁ e₂ → ix.Leads e₁ e₂ := fun _ _ => Needs.leads
  exact h e m hmap e' (Relation.ReflTransGen.mono hsub _ _ hreach)
    (Relation.TransGen.mono hsub _ _ hcycle)

/-! ## Where errors come from -/

/-- A field has no type because its name is not found or because it is a map that has none. -/
theorem typeWith_eq_error {mapType : Entry → Message → Outcome (TypeExpr Entry)}
    {f : Field} {err : Error} (h : ix.typeWith mapType f = .error err) :
    (f.scalar? = (none : Option (TypeExpr Entry)) ∧ (∀ e, ix.find f.typeName ≠ .ok e) ∧
      err = .unresolved f.typeName) ∨
    ∃ e m, ix.IsMap f e m ∧ mapType e m = .error err := by
  unfold typeWith at h
  split at h
  · cases h
  · next hs =>
    split at h
    · next err' herr =>
      cases h
      have hnone (e : Entry) : ix.find f.typeName ≠ .ok e := by rw [herr]; nofun
      refine .inl ⟨hs, hnone, ?_⟩
      unfold find at herr
      split at herr
      · cases herr
      · cases herr
        rfl
    · next e he =>
      split at h
      · next hr =>
        split at h
        · next m hm => exact .inr ⟨e, m, ⟨hs, he, hr, hm⟩, h⟩
        · cases h
      · cases h

/-- A map has no type because a part is missing or because a part has none, the key first. -/
theorem mapType_eq_error {depth : Nat} {e : Entry} {m : Message} {err : Error}
    (h : ix.mapType (depth + 1) e m = .error err) :
    ((m.fieldNumbered? 1 = none ∨ m.fieldNumbered? 2 = none) ∧
      err = .malformedMapEntry e.fullName) ∨
    ∃ key value, m.fieldNumbered? 1 = some key ∧ m.fieldNumbered? 2 = some value ∧
      (ix.typeWith (ix.mapType depth) key = .error err ∨
        (∃ k, ix.typeWith (ix.mapType depth) key = .ok k) ∧
          ix.typeWith (ix.mapType depth) value = .error err) := by
  unfold mapType at h
  split at h
  · next key value hkey hvalue =>
    refine .inr ⟨key, value, hkey, hvalue, ?_⟩
    rcases Outcome.bind_eq_error_iff.mp h with h | ⟨k, hk, h⟩
    · exact .inl h
    · rcases Outcome.bind_eq_error_iff.mp h with h | ⟨_, _, h⟩
      · exact .inr ⟨⟨k, hk⟩, h⟩
      · cases h
  · next hmissing =>
    cases h
    refine .inl ⟨?_, rfl⟩
    cases hkey : m.fieldNumbered? 1 with
    | none => exact .inl rfl
    | some key =>
      cases hvalue : m.fieldNumbered? 2 with
      | none => exact .inr rfl
      | some value => exact (hmissing key value hkey hvalue).elim

/-! ## Where there is no end -/

/-- Only what is inside a map can be endless. -/
theorem typeWith_eq_endless {mapType : Entry → Message → Outcome (TypeExpr Entry)} {f : Field}
    (h : ix.typeWith mapType f = .endless) : ∃ e m, ix.IsMap f e m ∧ mapType e m = .endless := by
  unfold typeWith at h
  split at h
  · cases h
  · next hs =>
    split at h
    · cases h
    · next e he =>
      split at h
      · next hr =>
        split at h
        · next m hm => exact ⟨e, m, ⟨hs, he, hr, hm⟩, h⟩
        · cases h
      · cases h

/-- A map has no end because a part has none, the key first. -/
theorem mapType_eq_endless {depth : Nat} {e : Entry} {m : Message}
    (h : ix.mapType (depth + 1) e m = .endless) :
    ∃ key value, m.fieldNumbered? 1 = some key ∧ m.fieldNumbered? 2 = some value ∧
      (ix.typeWith (ix.mapType depth) key = .endless ∨
        (∃ k, ix.typeWith (ix.mapType depth) key = .ok k) ∧
          ix.typeWith (ix.mapType depth) value = .endless) := by
  unfold mapType at h
  split at h
  · next key value hkey hvalue =>
    refine ⟨key, value, hkey, hvalue, ?_⟩
    rcases Outcome.bind_eq_endless_iff.mp h with h | ⟨k, hk, h⟩
    · exact .inl h
    · rcases Outcome.bind_eq_endless_iff.mp h with h | ⟨_, _, h⟩
      · exact .inr ⟨⟨k, hk⟩, h⟩
      · cases h
  · cases h

/-- The end is missed only below as many maps inside one another as may be taken apart. -/
theorem exists_chain_of_mapType {depth : Nat} {e : Entry} {m : Message}
    (hm : e.mapMessage? = some m) (h : ix.mapType depth e m = .endless) :
    ∃ es, es.length = depth ∧ (e :: es).IsChain ix.Needs ∧ ∀ e' ∈ es, e' ∈ ix.entries := by
  induction depth generalizing e m with
  | zero => exact ⟨[], rfl, .singleton e, fun _ h => absurd h List.not_mem_nil⟩
  | succ depth ih =>
    have hneeds : ∃ e' m', ix.Needs e e' ∧ e'.mapMessage? = some m' ∧
        ix.mapType depth e' m' = .endless := by
      obtain ⟨key, value, hkey, hvalue, h | ⟨⟨k, hk⟩, h⟩⟩ := mapType_eq_endless h
      · obtain ⟨e', m', hmap, h⟩ := typeWith_eq_endless h
        exact ⟨e', m', ⟨m, key, value, m', hm, hkey, hvalue, .inl hmap⟩, hmap.entry, h⟩
      · obtain ⟨e', m', hmap, h⟩ := typeWith_eq_endless h
        have htyped := typed_of_typeWith (fun _ _ _ => mapTyped_of_mapType) hk
        exact ⟨e', m', ⟨m, key, value, m', hm, hkey, hvalue, .inr ⟨⟨k, htyped⟩, hmap⟩⟩,
          hmap.entry, h⟩
    obtain ⟨e', m', hneeds, hm', h⟩ := hneeds
    obtain ⟨es, hlen, hchain, hmem⟩ := ih hm' h
    exact ⟨e' :: es, by rw [List.length_cons, hlen], .cons_cons hneeds hchain,
      List.forall_mem_cons.mpr ⟨hneeds.leads.mem_entries, hmem⟩⟩

theorem nodup_of_isChain {e : Entry} {es : List Entry}
    (h : ∀ e', Relation.ReflTransGen ix.Needs e e' → ¬ Relation.TransGen ix.Needs e' e')
    (hes : (e :: es).IsChain ix.Needs) : (e :: es).Nodup := by
  have htrans : (e :: es).Pairwise (Relation.TransGen ix.Needs) :=
    (hes.imp fun _ _ => .single).pairwise
  have hreach : ∀ e' ∈ e :: es, Relation.ReflTransGen ix.Needs e e' :=
    List.forall_mem_cons.mpr
      ⟨.refl, fun e' he' => ((List.pairwise_cons.mp htrans).1 e' he').to_reflTransGen⟩
  refine htrans.imp_of_mem ?_
  rintro e' _ he' - hcycle rfl
  exact h e' (hreach e' he') hcycle

theorem circles_of_typeOf {f : Field} (h : ix.typeOf f = .endless) : ix.Circles f := by
  obtain ⟨e, m, hmap, h⟩ := typeWith_eq_endless h
  by_contra hnone
  obtain ⟨es, hlen, hchain, hmem⟩ := exists_chain_of_mapType hmap.entry h
  have hsub : e :: es ⊆ ix.entries :=
    List.cons_subset.mpr ⟨mem_entries_of_find hmap.find, hmem⟩
  have hnodup : (e :: es).Nodup :=
    nodup_of_isChain (fun e' hreach hcycle => hnone ⟨e, m, hmap, e', hreach, hcycle⟩) hchain
  have hle := hnodup.length_le_of_subset hsub
  rw [List.length_cons, hlen, size] at hle
  omega

/-! ## Maps with single parts -/

/-- No map has a key or a value that is repeated. -/
def MapsSingle (ix : Index) : Prop :=
  ∀ e ∈ ix.entries, ∀ m ∈ e.mapMessage?,
    (∀ f ∈ m.fieldNumbered? 1, f.isRepeated = false) ∧
      ∀ f ∈ m.fieldNumbered? 2, f.isRepeated = false

instance : Decidable ix.MapsSingle :=
  inferInstanceAs (Decidable (∀ e ∈ ix.entries, ∀ m ∈ e.mapMessage?,
    (∀ f ∈ m.fieldNumbered? 1, f.isRepeated = false) ∧
      ∀ f ∈ m.fieldNumbered? 2, f.isRepeated = false))

theorem MapsSingle.isRepeated_part (h : ix.MapsSingle) {e : Entry} {m : Message} {n : Int32}
    {f : Field} (he : e ∈ ix.entries) (hm : e.mapMessage? = some m) (hn : n = 1 ∨ n = 2)
    (hf : m.fieldNumbered? n = some f) : f.isRepeated = false := by
  obtain ⟨hkey, hvalue⟩ := h e he m hm
  rcases hn with rfl | rfl
  · exact hkey f hf
  · exact hvalue f hf

/-- Only a part that is repeated leads on to another map. -/
theorem MapsSingle.acyclic (h : ix.MapsSingle) : ix.Acyclic := by
  intro e hcycle
  obtain ⟨_, hfirst, -⟩ := Relation.TransGen.head'_iff.mp hcycle
  obtain ⟨_, -, hlast⟩ := Relation.TransGen.tail'_iff.mp hcycle
  obtain ⟨m, n, f, hm, hn, hf, hr, -⟩ := hfirst
  rw [h.isRepeated_part hlast.mem_entries hm hn hf] at hr
  cases hr

end ProtoTypings.Index

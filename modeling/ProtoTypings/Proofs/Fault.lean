import ProtoTypings.Proofs.Nesting

/-!
# Why a field has no type

`ix.Fault f e`: the field `f` has no type, and `e` is what is wrong with it. Its type is not found,
or it is a map whose entry is malformed, or the key of the map has no type, or the key has one and
the value has none. A field has at most one type or one fault, and it has neither if looking for its
type goes round in a circle. This is what `Index.typeOf` computes: the type (`typeOf_eq_ok_iff`), or
the fault (`typeOf_eq_error_iff`), or nothing because it never ends (`typeOf_eq_endless_iff`).
-/

namespace ProtoTypings.Index

inductive Fault (ix : Index) : Field → Error → Prop where
  | unresolved {f : Field} : f.scalar? = (none : Option (TypeExpr Entry)) →
      (∀ e, ix.find f.typeName ≠ .ok e) → Fault ix f (.unresolved f.typeName)
  | malformed {f : Field} {e : Entry} {m : Message} : ix.IsMap f e m →
      m.fieldNumbered? 1 = none ∨ m.fieldNumbered? 2 = none →
      Fault ix f (.malformedMapEntry e.fullName)
  | key {f key value : Field} {e : Entry} {m : Message} {err : Error} : ix.IsMap f e m →
      m.fieldNumbered? 1 = some key → m.fieldNumbered? 2 = some value →
      Fault ix key err → Fault ix f err
  /-- The value counts only if nothing is wrong with the key. -/
  | value {f key value : Field} {e : Entry} {m : Message} {k : TypeExpr Entry} {err : Error} :
      ix.IsMap f e m → m.fieldNumbered? 1 = some key → m.fieldNumbered? 2 = some value →
      ix.Typed key k → Fault ix value err → Fault ix f err

variable {ix : Index} {f : Field}

theorem IsMap.unique {e e' : Entry} {m m' : Message} (h : ix.IsMap f e m)
    (h' : ix.IsMap f e' m') : e = e' ∧ m = m' := by
  obtain rfl : e = e' := Except.ok.inj (h.find.symm.trans h'.find)
  exact ⟨rfl, Option.some.inj (h.entry.symm.trans h'.entry)⟩

/-- The type of a map is put together from those of its parts. -/
theorem Typed.of_isMap {e : Entry} {m : Message} {t : TypeExpr Entry} (h : ix.Typed f t)
    (hmap : ix.IsMap f e m) : ix.MapTyped m t := by
  cases h with
  | scalar hs _ => exact absurd (hmap.scalar.symm.trans hs) nofun
  | scalars hs _ => exact absurd (hmap.scalar.symm.trans hs) nofun
  | reference _ _ hr => exact absurd (hmap.repeated.symm.trans hr) nofun
  | references _ hfind _ hm =>
    obtain rfl := Except.ok.inj (hmap.find.symm.trans hfind)
    exact absurd (hmap.entry.symm.trans hm) nofun
  | map hs hfind hr hm hkey hvalue hk hv =>
    obtain ⟨rfl, rfl⟩ := hmap.unique ⟨hs, hfind, hr, hm⟩
    exact ⟨_, _, _, _, hkey, hvalue, hk, hv, rfl⟩

theorem Fault.not_typed {err : Error} (h : ix.Fault f err) (t : TypeExpr Entry) :
    ¬ ix.Typed f t := by
  induction h generalizing t with
  | unresolved hs hfind =>
    intro ht
    cases ht with
    | scalar hs' _ => exact absurd (hs.symm.trans hs') nofun
    | scalars hs' _ => exact absurd (hs.symm.trans hs') nofun
    | reference _ he _ => exact hfind _ he
    | references _ he _ _ => exact hfind _ he
    | map _ he _ _ _ _ _ _ => exact hfind _ he
  | malformed hmap hmissing =>
    intro ht
    obtain ⟨_, _, _, _, hkey, hvalue, -⟩ := ht.of_isMap hmap
    rcases hmissing with hmissing | hmissing
    · exact absurd (hmissing.symm.trans hkey) nofun
    · exact absurd (hmissing.symm.trans hvalue) nofun
  | key hmap hkey _ _ ih =>
    intro ht
    obtain ⟨_, _, k, _, hkey', -, hk, -⟩ := ht.of_isMap hmap
    obtain rfl := Option.some.inj (hkey.symm.trans hkey')
    exact ih k hk
  | value hmap _ hvalue _ _ ih =>
    intro ht
    obtain ⟨_, _, _, v, -, hvalue', -, hv, -⟩ := ht.of_isMap hmap
    obtain rfl := Option.some.inj (hvalue.symm.trans hvalue')
    exact ih v hv

/-- What is wrong with a map is wrong with its parts, in the order in which they are looked at. -/
def MapFault (ix : Index) (e : Entry) (m : Message) (err : Error) : Prop :=
  (m.fieldNumbered? 1 = none ∨ m.fieldNumbered? 2 = none) ∧
      err = .malformedMapEntry e.fullName ∨
    ∃ key value, m.fieldNumbered? 1 = some key ∧ m.fieldNumbered? 2 = some value ∧
      (ix.Fault key err ∨ (∃ k, ix.Typed key k) ∧ ix.Fault value err)

theorem Fault.of_isMap {e : Entry} {m : Message} {err : Error} (h : ix.Fault f err)
    (hmap : ix.IsMap f e m) : ix.MapFault e m err := by
  cases h with
  | unresolved _ hfind => exact absurd hmap.find (hfind e)
  | malformed hmap' hmissing =>
    obtain ⟨rfl, rfl⟩ := hmap.unique hmap'
    exact .inl ⟨hmissing, rfl⟩
  | key hmap' hkey hvalue hfault =>
    obtain ⟨rfl, rfl⟩ := hmap.unique hmap'
    exact .inr ⟨_, _, hkey, hvalue, .inl hfault⟩
  | value hmap' hkey hvalue hk hfault =>
    obtain ⟨rfl, rfl⟩ := hmap.unique hmap'
    exact .inr ⟨_, _, hkey, hvalue, .inr ⟨⟨_, hk⟩, hfault⟩⟩

theorem MapFault.fault {e : Entry} {m : Message} {err : Error} (h : ix.MapFault e m err)
    (hmap : ix.IsMap f e m) : ix.Fault f err := by
  rcases h with ⟨hmissing, rfl⟩ | ⟨key, value, hkey, hvalue, hfault | ⟨⟨k, hk⟩, hfault⟩⟩
  · exact .malformed hmap hmissing
  · exact .key hmap hkey hvalue hfault
  · exact .value hmap hkey hvalue hk hfault

theorem MapFault.of_parts {e : Entry} {m : Message} {key value : Field} {err : Error}
    (h : ix.MapFault e m err) (hkey : m.fieldNumbered? 1 = some key)
    (hvalue : m.fieldNumbered? 2 = some value) :
    ix.Fault key err ∨ (∃ k, ix.Typed key k) ∧ ix.Fault value err := by
  rcases h with ⟨hmissing, -⟩ | ⟨_, _, hkey', hvalue', h⟩
  · rw [hkey, hvalue] at hmissing
    exact absurd hmissing (by simp)
  · obtain rfl := Option.some.inj (hkey.symm.trans hkey')
    obtain rfl := Option.some.inj (hvalue.symm.trans hvalue')
    exact h

theorem Fault.unique {err err' : Error} (h : ix.Fault f err) (h' : ix.Fault f err') :
    err = err' := by
  induction h with
  | unresolved _ hfind =>
    cases h' with
    | unresolved => rfl
    | malformed hmap _ => exact absurd hmap.find (hfind _)
    | key hmap _ _ _ => exact absurd hmap.find (hfind _)
    | value hmap _ _ _ _ => exact absurd hmap.find (hfind _)
  | malformed hmap hmissing =>
    rcases h'.of_isMap hmap with ⟨-, rfl⟩ | ⟨_, _, hkey, hvalue, -⟩
    · rfl
    · rw [hkey, hvalue] at hmissing
      exact absurd hmissing (by simp)
  | key hmap hkey hvalue hfault ih =>
    rcases (h'.of_isMap hmap).of_parts hkey hvalue with hfault' | ⟨⟨k, hk⟩, -⟩
    · exact ih hfault'
    · exact absurd hk (hfault.not_typed k)
  | value hmap hkey hvalue hk _ ih =>
    rcases (h'.of_isMap hmap).of_parts hkey hvalue with hfault' | ⟨-, hfault'⟩
    · exact absurd hk (hfault'.not_typed _)
    · exact ih hfault'

theorem Typed.unique {t t' : TypeExpr Entry} (h : ix.Typed f t) (h' : ix.Typed f t') :
    t = t' := by
  induction h generalizing t' with
  | scalar hs hr =>
    rw [h'.eq_of_scalar? hs, hr]
    rfl
  | scalars hs hr =>
    rw [h'.eq_of_scalar? hs, hr]
    rfl
  | reference hs he hr =>
    cases h' with
    | scalar hs' _ => exact absurd (hs.symm.trans hs') nofun
    | scalars hs' _ => exact absurd (hs.symm.trans hs') nofun
    | reference _ he' _ => rw [Except.ok.inj (he.symm.trans he')]
    | references _ _ hr' _ => exact absurd (hr.symm.trans hr') nofun
    | map _ _ hr' _ _ _ _ _ => exact absurd (hr.symm.trans hr') nofun
  | references hs he hr hm =>
    cases h' with
    | scalar hs' _ => exact absurd (hs.symm.trans hs') nofun
    | scalars hs' _ => exact absurd (hs.symm.trans hs') nofun
    | reference _ _ hr' => exact absurd (hr.symm.trans hr') nofun
    | references _ he' _ _ => rw [Except.ok.inj (he.symm.trans he')]
    | map _ he' _ hm' _ _ _ _ =>
      obtain rfl := Except.ok.inj (he.symm.trans he')
      exact absurd (hm.symm.trans hm') nofun
  | map hs he hr hm hkey hvalue _ _ ihk ihv =>
    obtain ⟨_, _, k', v', hkey', hvalue', hk', hv', rfl⟩ := h'.of_isMap ⟨hs, he, hr, hm⟩
    obtain rfl := Option.some.inj (hkey.symm.trans hkey')
    obtain rfl := Option.some.inj (hvalue.symm.trans hvalue')
    rw [ihk hk', ihv hv']

/-! ## No type and no fault out of a circle -/

theorem Needs.of_parts {e e' : Entry} {m : Message} {key value : Field} (h : ix.Needs e e')
    (hm : e.mapMessage? = some m) (hkey : m.fieldNumbered? 1 = some key)
    (hvalue : m.fieldNumbered? 2 = some value) :
    (∃ m', ix.IsMap key e' m') ∨ (∃ k, ix.Typed key k) ∧ ∃ m', ix.IsMap value e' m' := by
  obtain ⟨_, _, _, m', hm', hkey', hvalue', h⟩ := h
  obtain rfl := Option.some.inj (hm.symm.trans hm')
  obtain rfl := Option.some.inj (hkey.symm.trans hkey')
  obtain rfl := Option.some.inj (hvalue.symm.trans hvalue')
  exact h.imp (fun hmap => ⟨m', hmap⟩) fun ⟨hk, hmap⟩ => ⟨hk, m', hmap⟩

/-- A type is made of types of the parts, so that what is needed for it comes to an end. -/
theorem Typed.acc {t : TypeExpr Entry} (h : ix.Typed f t) {e : Entry} {m : Message}
    (hmap : ix.IsMap f e m) : Acc (flip ix.Needs) e := by
  induction h generalizing e m with
  | scalar hs _ => exact absurd (hmap.scalar.symm.trans hs) nofun
  | scalars hs _ => exact absurd (hmap.scalar.symm.trans hs) nofun
  | reference _ _ hr => exact absurd (hmap.repeated.symm.trans hr) nofun
  | references _ he _ hm =>
    obtain rfl := Except.ok.inj (hmap.find.symm.trans he)
    exact absurd (hmap.entry.symm.trans hm) nofun
  | map hs he hr hm hkey hvalue _ _ ihk ihv =>
    obtain ⟨rfl, rfl⟩ := hmap.unique ⟨hs, he, hr, hm⟩
    refine ⟨_, fun e' hneeds => ?_⟩
    obtain ⟨m', hmap'⟩ | ⟨-, m', hmap'⟩ := Needs.of_parts hneeds hm hkey hvalue
    · exact ihk hmap'
    · exact ihv hmap'

/-- So it does for a fault: beyond a key with a fault nothing is needed. -/
theorem Fault.acc {err : Error} (h : ix.Fault f err) {e : Entry} {m : Message}
    (hmap : ix.IsMap f e m) : Acc (flip ix.Needs) e := by
  induction h generalizing e m with
  | unresolved _ hfind => exact absurd hmap.find (hfind e)
  | malformed hmap' hmissing =>
    obtain ⟨rfl, rfl⟩ := hmap.unique hmap'
    refine ⟨_, fun e' hneeds => ?_⟩
    obtain ⟨_, _, _, _, hm', hkey, hvalue, -⟩ := hneeds
    obtain rfl := Option.some.inj (hmap.entry.symm.trans hm')
    rw [hkey, hvalue] at hmissing
    exact absurd hmissing (by simp)
  | key hmap' hkey hvalue hfault ih =>
    obtain ⟨rfl, rfl⟩ := hmap.unique hmap'
    refine ⟨_, fun e' hneeds => ?_⟩
    obtain ⟨m', hmap'⟩ | ⟨⟨k, hk⟩, -⟩ := Needs.of_parts hneeds hmap.entry hkey hvalue
    · exact ih hmap'
    · exact absurd hk (hfault.not_typed k)
  | value hmap' hkey hvalue hk _ ih =>
    obtain ⟨rfl, rfl⟩ := hmap.unique hmap'
    refine ⟨_, fun e' hneeds => ?_⟩
    obtain ⟨m', hmap'⟩ | ⟨-, m', hmap'⟩ := Needs.of_parts hneeds hmap.entry hkey hvalue
    · exact hk.acc hmap'
    · exact ih hmap'

theorem not_cycle_of_acc {α : Type} {r : α → α → Prop} {a b : α} (h : Acc (flip r) a)
    (hreach : Relation.ReflTransGen r a b) : ¬ Relation.TransGen r b b := by
  induction h with
  | intro a _ ih =>
    intro hcycle
    rcases hreach.cases_head with rfl | ⟨c, hac, hcb⟩
    · obtain ⟨c, hac, hca⟩ := Relation.TransGen.head'_iff.mp hcycle
      exact ih c hac hca hcycle
    · exact ih c hac hcb hcycle

theorem Typed.not_circles {t : TypeExpr Entry} (h : ix.Typed f t) : ¬ ix.Circles f :=
  fun ⟨_, _, hmap, _, hreach, hcycle⟩ => not_cycle_of_acc (h.acc hmap) hreach hcycle

theorem Fault.not_circles {err : Error} (h : ix.Fault f err) : ¬ ix.Circles f :=
  fun ⟨_, _, hmap, _, hreach, hcycle⟩ => not_cycle_of_acc (h.acc hmap) hreach hcycle

/-! ## What is computed -/

theorem fault_of_typeWith {mapType : Entry → Message → Outcome (TypeExpr Entry)}
    (hmap : ∀ e m err, mapType e m = .error err → ix.MapFault e m err)
    {err : Error} (h : ix.typeWith mapType f = .error err) : ix.Fault f err := by
  rcases typeWith_eq_error h with ⟨hs, hnone, rfl⟩ | ⟨e, m, hismap, h⟩
  · exact .unresolved hs hnone
  · exact (hmap e m err h).fault hismap

theorem mapFault_of_mapType {depth : Nat} {e : Entry} {m : Message} {err : Error}
    (h : ix.mapType depth e m = .error err) : ix.MapFault e m err := by
  induction depth generalizing e m err with
  | zero => cases h
  | succ depth ih =>
    rcases mapType_eq_error h with hmissing | ⟨key, value, hkey, hvalue, h | ⟨⟨k, hk⟩, h⟩⟩
    · exact .inl hmissing
    · exact .inr ⟨key, value, hkey, hvalue, .inl (fault_of_typeWith (fun _ _ _ => ih) h)⟩
    · have htyped := typed_of_typeWith (fun _ _ _ => mapTyped_of_mapType) hk
      exact .inr ⟨key, value, hkey, hvalue,
        .inr ⟨⟨k, htyped⟩, fault_of_typeWith (fun _ _ _ => ih) h⟩⟩

theorem fault_of_typeOf {err : Error} (h : ix.typeOf f = .error err) : ix.Fault f err :=
  fault_of_typeWith (fun _ _ _ => mapFault_of_mapType) h

theorem typeOf_eq_ok_iff {t : TypeExpr Entry} : ix.typeOf f = .ok t ↔ ix.Typed f t := by
  refine ⟨typed_of_typeOf, fun htyped => ?_⟩
  cases h : ix.typeOf f with
  | ok t' => rw [htyped.unique (typed_of_typeOf h)]
  | error err => exact absurd htyped ((fault_of_typeOf h).not_typed t)
  | endless => exact absurd (circles_of_typeOf h) htyped.not_circles

theorem typeOf_eq_error_iff {err : Error} : ix.typeOf f = .error err ↔ ix.Fault f err := by
  refine ⟨fault_of_typeOf, fun hfault => ?_⟩
  cases h : ix.typeOf f with
  | ok t => exact absurd (typed_of_typeOf h) (hfault.not_typed t)
  | error err' => rw [hfault.unique (fault_of_typeOf h)]
  | endless => exact absurd (circles_of_typeOf h) hfault.not_circles

theorem typeOf_eq_endless_iff : ix.typeOf f = .endless ↔ ix.Circles f := by
  refine ⟨circles_of_typeOf, fun hcircles => ?_⟩
  cases h : ix.typeOf f with
  | ok t => exact absurd hcircles (typed_of_typeOf h).not_circles
  | error err => exact absurd hcircles (fault_of_typeOf h).not_circles
  | endless => rfl

theorem Ends.fault_iff_not_typed (h : ix.Ends f) :
    (∃ err, ix.Fault f err) ↔ ∀ t, ¬ ix.Typed f t := by
  refine ⟨fun ⟨_, hfault⟩ => hfault.not_typed, fun hnone => ?_⟩
  cases htype : ix.typeOf f with
  | ok t => exact absurd (typed_of_typeOf htype) (hnone t)
  | error err => exact ⟨err, fault_of_typeOf htype⟩
  | endless => exact absurd (typeOf_eq_endless_iff.mp htype) h.not_circles

/-- A name that is not found, or a map entry that is malformed: there is nothing else. -/
theorem Fault.kind {err : Error} (h : ix.Fault f err) :
    (∃ name, err = .unresolved name) ∨ ∃ name, err = .malformedMapEntry name := by
  induction h with
  | unresolved => exact .inl ⟨_, rfl⟩
  | malformed => exact .inr ⟨_, rfl⟩
  | key _ _ _ _ ih => exact ih
  | value _ _ _ _ _ ih => exact ih

end ProtoTypings.Index

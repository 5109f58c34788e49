import ProtoTypings.Proofs.Earliest
import ProtoTypings.Proofs.Failure

/-!
# The first fault

A projection visits the declared types of a file in pre-order, of each message its fields in order,
and then the name of the type. A visit stops the projection if the field has a fault or if the name
is taken (`File.Stops`). There are typings if and only if nothing stops the projection; otherwise
the error is that of the first visit to stop it (`File.typings_fails_at_first_fault`).
-/

namespace ProtoTypings

open Index

/-- What a projection looks at: the `i`-th field of the message at a place, and the name under which
the type at a place is to be declared. -/
inductive Visit where
  | field (p : Place) (i : Nat)
  | name (p : Place)

namespace Visit

def place : Visit → Place
  | .field p _ => p
  | .name p => p

/-- Type by type, the fields of each in order before its name. -/
def Before : Visit → Visit → Prop
  | .field p i, .field q j => p.Before q ∨ p = q ∧ i < j
  | .field p _, .name q => p.Before q ∨ p = q
  | .name p, .field q _ => p.Before q
  | .name p, .name q => p.Before q

instance : Std.Trichotomous Before where
  trichotomous
    | .field p i, .field q j, h, h' => by
      simp only [Before, not_or, not_and] at h h'
      obtain rfl := Std.Trichotomous.trichotomous p q h.1 h'.1
      rw [show i = j by have := h.2 rfl; have := h'.2 rfl; omega]
    | .field p _, .name q, h, h' => by
      simp only [Before, not_or] at h h'
      exact absurd (Std.Trichotomous.trichotomous p q h.1 h') h.2
    | .name p, .field q _, h, h' => by
      simp only [Before, not_or] at h h'
      exact absurd (Std.Trichotomous.trichotomous q p h'.1 h) h'.2
    | .name p, .name q, h, h' => by
      rw [Std.Trichotomous.trichotomous p q h h']

/-- What comes before a visit is at an earlier place, or is an earlier field at the same place. -/
theorem Before.cases {v w : Visit} (h : w.Before v) : w.place.Before v.place ∨
    ∃ j, w = .field v.place j ∧ ∀ i, v = .field v.place i → j < i := by
  cases w with
  | field q j =>
    cases v with
    | field p i =>
      refine h.imp_right fun h => ?_
      obtain ⟨rfl, hlt⟩ := h
      exact ⟨j, rfl, fun i' hi => by cases hi; exact hlt⟩
    | name p =>
      refine h.imp_right fun h => ?_
      subst h
      exact ⟨j, rfl, nofun⟩
  | name q =>
    cases v with
    | field p i => exact .inl h
    | name p => exact .inl h

end Visit

/-- The visit stops the projection of the file with the error. -/
inductive File.Stops (f : File) (ix : Index) : Visit → Error → Prop where
  | field {p : Place} {i : Nat} {s : Scope} {m : Message} {fd : Field} {cause : Error} :
      f.declaredAt? p = some (s, .message m) → m.fields[i]? = some fd → ix.Fault fd cause →
      Stops f ix (.field p i)
        (.projection f.name (s.fullName f.package ++ "." ++ fd.name) cause)
  | name {p q : Place} {s t : Scope} {b c : Node.Body} :
      f.declaredAt? p = some (s, b) → f.declaredAt? q = some (t, c) → q.Before p →
      t.flatName = s.flatName → Stops f ix (.name p) (.duplicateDeclaration f.name s.flatName)

/-- No field that is visited leads to a map entry that leads back to itself. -/
def File.MapsEnd (f : File) (ix : Index) : Prop :=
  ∀ p s m, f.declaredAt? p = some (s, .message m) → ∀ fd ∈ m.fields, ix.Ends fd

theorem Index.Acyclic.mapsEnd {ix : Index} (h : ix.Acyclic) (f : File) : f.MapsEnd ix :=
  fun _ _ _ _ fd _ => h.ends fd

theorem File.MapsEnd.typings_ne_endless {f : File} {ix : Index} (h : f.MapsEnd ix) :
    f.typings ix ≠ .endless := by
  intro hendless
  obtain ⟨n, hn, m, hb, fd, hfd, hcircles⟩ := typings_eq_endless hendless
  obtain ⟨p, hp⟩ := exists_node_iff.mp ⟨n, hn, rfl⟩
  rw [Node.content, hb] at hp
  exact (h p n.scope m hp fd hfd).not_circles hcircles

namespace File

variable {f : File} {ix : Index} {v : Visit} {e : Error}

theorem Stops.mem_places (h : f.Stops ix v e) : v.place ∈ f.places fun m => !m.isMapEntry := by
  cases h with
  | field hp _ _ => exact mem_places_of_eq_some hp
  | name hp _ _ _ => exact mem_places_of_eq_some hp

theorem Stops.unique {e' : Error} (h : f.Stops ix v e) (h' : f.Stops ix v e') : e = e' := by
  cases h with
  | field hp hfd hfault =>
    cases h' with
    | field hp' hfd' hfault' =>
      cases hp.symm.trans hp'
      cases hfd.symm.trans hfd'
      rw [hfault.unique hfault']
  | name hp _ _ _ =>
    cases h' with
    | name hp' _ _ _ =>
      cases hp.symm.trans hp'
      rfl

/-! ## Nothing stops at what is declared -/

theorem typeOf_of_declaration {n : Node} {m : Message} {d : Declaration Entry}
    (h : f.declaration ix n = .ok d) (hb : n.body = .message m) {fd : Field} (hfd : fd ∈ m.fields) :
    ∃ t, ix.typeOf fd = .ok t := by
  obtain ⟨ms, hms, -⟩ := (declaration_message_iff hb).mp h
  obtain ⟨i, hi⟩ := List.mem_iff_getElem?.mp hfd
  have hmem : (fd, i) ∈ m.fields.zipIdx := List.mem_zipIdx_iff_getElem?.mpr hi
  obtain ⟨mem, -, hmem⟩ := exists_right_of_forall₂ (members_eq_ok_iff.mp hms) hmem
  obtain ⟨t, ht, -⟩ := member_eq_ok_iff.mp hmem
  exact ⟨t, ht⟩

theorem not_fault_of_declaration {p : Place} {n : Node} {s : Scope} {m : Message}
    {d : Declaration Entry} (h : f.declaration ix n = .ok d)
    (hn : f.declaredAt? p = some n.content) (hp : f.declaredAt? p = some (s, .message m))
    {fd : Field} (hfd : fd ∈ m.fields) (cause : Error) : ¬ ix.Fault fd cause := by
  intro hfault
  have hb : n.body = .message m := congrArg Prod.snd (Option.some.inj (hn.symm.trans hp))
  obtain ⟨t, ht⟩ := typeOf_of_declaration h hb hfd
  exact hfault.not_typed t (typed_of_typeOf ht)

theorem map_name_eq_map_flatName {ns : List Node} {ds : List (Declaration Entry)}
    (h : List.Forall₂ (fun n d => f.declaration ix n = .ok d) ns ds) :
    ds.map (·.name) = ns.map (·.scope.flatName) := by
  induction h with
  | nil => rfl
  | cons hd _ ih => rw [List.map_cons, List.map_cons, (declaration_names hd).1, ih]

/-- Where nodes at the beginning can be declared, no visit of theirs stops. -/
theorem not_stops_of_declareAll {as bs : List Place} {pre : List Node}
    {ds : List (Declaration Entry)} (hplaces : (f.places fun m => !m.isMapEntry) = as ++ bs)
    (hnodes : as.map f.declaredAt? = pre.map fun n => some n.content)
    (hds : f.declareAll ix [] pre = .ok ds) (hv : v.place ∈ as) (e : Error) :
    ¬ f.Stops ix v e := by
  obtain ⟨hall, hnodup, -⟩ := declareAll_eq_ok_iff.mp hds
  intro h
  cases h with
  | @field p i s m fd cause hp hfd hfault =>
    have hmem : f.declaredAt? p ∈ as.map f.declaredAt? := List.mem_map_of_mem hv
    rw [hnodes] at hmem
    obtain ⟨n, hn, hcontent⟩ := List.mem_map.mp hmem
    obtain ⟨d, -, hd⟩ := exists_right_of_forall₂ hall hn
    exact not_fault_of_declaration hd hcontent.symm hp (List.mem_of_getElem? hfd) _ hfault
  | @name p q s t b c hp hq hlt hname =>
    exact key_ne_of_before (k := fun c : Scope × Node.Body => c.1.flatName)
      (hplaces ▸ f.places_sorted) hnodes (map_name_eq_map_flatName hall ▸ hnodup) hv
      (hplaces ▸ mem_places_of_eq_some hq) hlt hp hq hname

theorem not_stops_of_typings {t : Typings} (h : f.typings ix = .ok t) (v : Visit) (e : Error) :
    ¬ f.Stops ix v e := by
  intro hstop
  obtain ⟨ds, hds, -⟩ := typings_eq_ok_iff.mp h
  exact not_stops_of_declareAll (List.append_nil _).symm (map_nodeAt?_places f) hds
    hstop.mem_places e hstop

/-! ## The first stop -/

/-- The first field without a type stops the projection, if nothing at an earlier place does. -/
theorem exists_stopsFirst_field {p : Place} {n : Node} (hp : f.declaredAt? p = some n.content)
    (h : f.declaration ix n = .error e)
    (hearlier : ∀ w e', f.Stops ix w e' → ¬ w.place.Before p) :
    ∃ v, StopsFirst Visit.Before (f.Stops ix) v e := by
  obtain ⟨m, pre, fd, post, hb, hfields, hpre, cause, hcause, rfl⟩ := declaration_eq_error h
  have hpm : f.declaredAt? p = some (n.scope, .message m) := by rw [hp, Node.content, hb]
  have hfd : m.fields[pre.length]? = some fd := by simp [hfields]
  have hfault : ix.Fault fd cause := typeOf_eq_error_iff.mp hcause
  refine ⟨.field p pre.length, .field hpm hfd hfault, fun w e' hw hlt => ?_⟩
  rcases hlt.cases with hlt | ⟨j, rfl, hj⟩
  · exact hearlier w e' hw hlt
  · cases hw with
    | field hp' hfd' hfault =>
      cases hpm.symm.trans hp'
      rw [hfields, List.getElem?_append_left (hj _ rfl)] at hfd'
      obtain ⟨t, ht⟩ := hpre _ (List.mem_of_getElem? hfd')
      exact hfault.not_typed t (typeOf_eq_ok_iff.mp ht)

/-- A name that is taken stops the projection, if all fields at the place have types and nothing at
an earlier place stops it. -/
theorem stopsFirst_name {p q : Place} {n n' : Node} {d : Declaration Entry}
    (hp : f.declaredAt? p = some n.content) (hd : f.declaration ix n = .ok d)
    (hq : f.declaredAt? q = some n'.content) (hbefore : q.Before p)
    (hname : n'.scope.flatName = n.scope.flatName)
    (hearlier : ∀ w e', f.Stops ix w e' → ¬ w.place.Before p) :
    StopsFirst Visit.Before (f.Stops ix) (.name p)
      (.duplicateDeclaration f.name n.scope.flatName) := by
  refine ⟨.name hp hq hbefore hname, fun w e' hw hlt => ?_⟩
  rcases hlt.cases with hlt | ⟨j, rfl, -⟩
  · exact hearlier w e' hw hlt
  · cases hw with
    | field hp' hfd hfault =>
      exact not_fault_of_declaration hd hp hp' (List.mem_of_getElem? hfd) _ hfault

theorem exists_first_stop (h : f.typings ix = .error e) :
    ∃ v, StopsFirst Visit.Before (f.Stops ix) v e := by
  have hdecls : f.declarations ix = .error e := by
    rcases Outcome.bind_eq_error_iff.mp h with h | ⟨_, _, h⟩
    · exact h
    · cases h
  obtain ⟨pre, n, post, hns, ⟨ds, hds⟩, hfail⟩ := declareAll_eq_error hdecls
  have hnodes : (f.places fun m => !m.isMapEntry).map f.declaredAt? =
      f.declaredNodes.map fun n => some n.content := map_nodeAt?_places f
  rw [hns] at hnodes
  obtain ⟨as, p, bs, hplaces, has, hp⟩ := exists_split_of_map_eq hnodes
  have hsorted : (as ++ p :: bs).Pairwise Place.Before := hplaces ▸ f.places_sorted
  have hearlier : ∀ w e', f.Stops ix w e' → ¬ w.place.Before p := by
    intro w e' hw hlt
    have hmem : w.place ∈ as := mem_of_before hsorted (hplaces ▸ hw.mem_places) hlt
    exact not_stops_of_declareAll hplaces has hds hmem e' hw
  rcases hfail with hfail | ⟨⟨d, hd⟩, rfl, htaken⟩
  · exact exists_stopsFirst_field hp hfail hearlier
  · obtain ⟨n', hn', hname⟩ := List.mem_map.mp (htaken.resolve_left List.not_mem_nil)
    have hq : some n'.content ∈ as.map f.declaredAt? :=
      has ▸ List.mem_map_of_mem (f := fun n : Node => some n.content) hn'
    obtain ⟨q, hqmem, hq⟩ := List.mem_map.mp hq
    exact ⟨_, stopsFirst_name hp hd hq (before_of_mem hsorted hqmem) hname hearlier⟩

/-! ## What stops a projection -/

/-- A field without a type, or a name that is declared before. -/
theorem exists_stops_iff (hends : f.MapsEnd ix) : (∃ v e, f.Stops ix v e) ↔
    (∃ p s m, f.declaredAt? p = some (s, .message m) ∧
      ∃ fd ∈ m.fields, ∀ t, ¬ ix.Typed fd t) ∨
    ∃ p q s t b c, f.declaredAt? p = some (s, b) ∧ f.declaredAt? q = some (t, c) ∧
      q.Before p ∧ t.flatName = s.flatName := by
  constructor
  · rintro ⟨v, e, h⟩
    cases h with
    | field hp hfd hfault =>
      exact .inl ⟨_, _, _, hp, _, List.mem_of_getElem? hfd, hfault.not_typed⟩
    | name hp hq hlt hname => exact .inr ⟨_, _, _, _, _, _, hp, hq, hlt, hname⟩
  · rintro (⟨p, s, m, hp, fd, hfd, hnone⟩ | ⟨p, q, s, t, b, c, hp, hq, hlt, hname⟩)
    · obtain ⟨i, hi⟩ := List.mem_iff_getElem?.mp hfd
      obtain ⟨cause, hfault⟩ := (hends p s m hp fd hfd).fault_iff_not_typed.mpr hnone
      exact ⟨_, _, .field hp hi hfault⟩
    · exact ⟨_, _, .name hp hq hlt hname⟩

theorem Stops.kind (h : f.Stops ix v e) :
    (∃ name, e = .duplicateDeclaration f.name name) ∨
    (∃ member name, e = .projection f.name member (.unresolved name)) ∨
    ∃ member name, e = .projection f.name member (.malformedMapEntry name) := by
  cases h with
  | field _ _ hfault =>
    rcases hfault.kind with ⟨name, rfl⟩ | ⟨name, rfl⟩
    · exact .inr (.inl ⟨_, name, rfl⟩)
    · exact .inr (.inr ⟨_, name, rfl⟩)
  | name _ _ _ _ => exact .inl ⟨_, rfl⟩

theorem Stops.isUnresolved_iff (h : f.Stops ix v e) :
    e.isUnresolved = true ↔ ∃ member name, e = .projection f.name member (.unresolved name) := by
  rcases h.kind with ⟨name, rfl⟩ | ⟨member, name, rfl⟩ | ⟨member, name, rfl⟩ <;>
    simp [Error.isUnresolved]

theorem typings_fails_at_first_fault (f : File) (ix : Index) (hends : f.MapsEnd ix) :
    ((∃ e, f.typings ix = .error e) ↔
      (∃ p s m, f.declaredAt? p = some (s, .message m) ∧
        ∃ fd ∈ m.fields, ∀ t, ¬ ix.Typed fd t) ∨
      ∃ p q s t b c, f.declaredAt? p = some (s, b) ∧ f.declaredAt? q = some (t, c) ∧
        q.Before p ∧ t.flatName = s.flatName) ∧
    (∀ e, f.typings ix = .error e ↔ ∃ v, StopsFirst Visit.Before (f.Stops ix) v e) ∧
    ∀ e, f.typings ix = .error e →
      ((∃ name, e = .duplicateDeclaration f.name name) ∨
        (∃ member name, e = .projection f.name member (.unresolved name)) ∨
        ∃ member name, e = .projection f.name member (.malformedMapEntry name)) ∧
      (e.isUnresolved = true ↔
        ∃ member name, e = .projection f.name member (.unresolved name)) := by
  have hnone (hfails : ∀ e, f.typings ix ≠ .error e) (v : Visit) (e : Error) :
      ¬ f.Stops ix v e := by
    cases ht : f.typings ix with
    | ok t => exact not_stops_of_typings ht v e
    | error e' => exact absurd ht (hfails e')
    | endless => exact absurd ht hends.typings_ne_endless
  have hiff : ∀ e, f.typings ix = .error e ↔ ∃ v, StopsFirst Visit.Before (f.Stops ix) v e :=
    fails_iff_stopsFirst hnone (fun _ => exists_first_stop) fun _ _ _ ha hb =>
      ha.stop.unique hb.stop
  refine ⟨?_, hiff, fun e he => ?_⟩
  · rw [← exists_stops_iff hends]
    constructor
    · rintro ⟨e, he⟩
      obtain ⟨v, hv⟩ := (hiff e).mp he
      exact ⟨v, e, hv.stop⟩
    · rintro ⟨v, e, hv⟩
      exact Classical.byContradiction fun hfails => hnone (not_exists.mp hfails) v e hv
  · obtain ⟨v, hv⟩ := (hiff e).mp he
    exact ⟨hv.stop.kind, hv.stop.isUnresolved_iff⟩

end File

namespace Sample

/-- A map whose key and value are both missing. -/
def pricesEntry : Message where
  name? := some "PricesEntry"
  fields := [
    { name? := some "key", number? := some 1, kind? := some 14
      typeName? := some ".Missing.Key" },
    { name? := some "value", number? := some 2, kind? := some 11
      typeName? := some ".Missing.Value" }]
  options? := some { ofMap? := some true }

/-- The map stops the projection, before the next field, which is missing as well, and before the
second declaration of `Basket$Item`. -/
def basket : File where
  name? := some "basket.proto"
  messages := [
    { name? := some "Basket"
      fields := [
        { name? := some "owner", number? := some 1, kind? := some 9 },
        { name? := some "prices", number? := some 2, label? := some 3, kind? := some 11
          typeName? := some ".Basket.PricesEntry" },
        { name? := some "total", number? := some 3, kind? := some 11
          typeName? := some ".Missing.Total" }]
      nested := [pricesEntry, { name? := some "Item" }] },
    { name? := some "Basket$Item" }]

def basketIndex : Index where
  files := [basket]
  entries := basket.entries

theorem basket_stops : basket.MapsEnd basketIndex ∧ ∃ v,
    StopsFirst Visit.Before (basket.Stops basketIndex) v
      (.projection "basket.proto" "Basket.prices" (.unresolved ".Missing.Key")) := by
  have hsingle : basketIndex.MapsSingle := by decide
  have hends : basket.MapsEnd basketIndex := hsingle.acyclic.mapsEnd basket
  have hfirst := (File.typings_fails_at_first_fault basket basketIndex hends).2.1
  exact ⟨hends, (hfirst _).mp (by rfl)⟩

end Sample

end ProtoTypings

import ProtoTypings.Projection
import ProtoTypings.Proofs.Index
import ProtoTypings.Proofs.Typing

/-!
# Projection node by node

What each step of a projection gives when it succeeds: `member_eq_ok_iff`, `members_eq_ok_iff`,
`declaration_message_iff`, `declareAll_eq_ok_iff`. `Declaration.Mirrors f s b d` says that the
declaration `d` renders the type `b` of the file `f`, declared in the scope `s`, field by field or
value by value. The declarations of a file mirror its types in pre-order, each once
(`File.flattens_of_typings`).
-/

namespace ProtoTypings

open Index

namespace File

variable {f : File} {ix : Index} {n : Node} {m : Message}

/-! ## Steps -/

theorem member_eq_ok_iff {i : Nat} {fd : Field} {mem : Member Entry} :
    f.member ix n m i fd = .ok mem ↔ ∃ t, ix.typeOf fd = .ok t ∧ mem = {
      name := PropertyName.ofField fd.name fd.jsonName?
      type := t
      doc := f.doc (n.path ++ [2, .ofNat i]) fd.isDeprecated
      oneof := m.oneofOf? fd } := by
  unfold member
  cases ix.typeOf fd <;> simp [eq_comm]

/-- One member for each field, each with the index of its field. -/
theorem members_eq_ok_iff {i : Nat} {fds : List Field} {ms : List (Member Entry)} :
    f.members ix n m i fds = .ok ms ↔
      List.Forall₂ (fun p mem => f.member ix n m p.2 p.1 = .ok mem) (fds.zipIdx i) ms := by
  induction fds generalizing i ms with
  | nil => simp [members, eq_comm]
  | cons fd fds ih =>
    rw [members, List.zipIdx_cons, List.forall₂_cons_left_iff]
    simp only [Outcome.bind_eq_ok_iff, Outcome.pure_eq_ok_iff, ih]
    constructor
    · rintro ⟨first, hfirst, rest, hrest, rfl⟩
      exact ⟨first, rest, hfirst, hrest, rfl⟩
    · rintro ⟨first, rest, hfirst, hrest, rfl⟩
      exact ⟨first, hfirst, rest, hrest, rfl⟩

theorem declaration_message_iff (h : n.body = .message m) {d : Declaration Entry} :
    f.declaration ix n = .ok d ↔ ∃ ms, f.members ix n m 0 m.fields = .ok ms ∧ d = {
      name := n.scope.flatName
      fullName := n.scope.fullName f.package
      doc := f.doc n.path m.isDeprecated
      body := .interface ms } := by
  unfold declaration
  rw [h]
  simp only [Outcome.bind_eq_ok_iff, Outcome.pure_eq_ok_iff]

theorem declaration_enum_iff {e : Enum} (h : n.body = .enum e) {d : Declaration Entry} :
    f.declaration ix n = .ok d ↔ d = {
      name := n.scope.flatName
      fullName := n.scope.fullName f.package
      doc := f.doc n.path e.isDeprecated
      body := .enum (e.values.mapIdx (f.constant n)) } := by
  unfold declaration
  rw [h]
  simp [eq_comm]

theorem declaration_names {d : Declaration Entry} (h : f.declaration ix n = .ok d) :
    d.name = n.scope.flatName ∧ d.fullName = n.scope.fullName f.package := by
  cases hb : n.body with
  | message m =>
    obtain ⟨ms, -, rfl⟩ := (declaration_message_iff hb).mp h
    exact ⟨rfl, rfl⟩
  | enum e =>
    obtain rfl := (declaration_enum_iff hb).mp h
    exact ⟨rfl, rfl⟩

/-- One declaration for each node, none under a name that is taken. -/
theorem declareAll_eq_ok_iff {taken : List String} {ns : List Node}
    {ds : List (Declaration Entry)} :
    f.declareAll ix taken ns = .ok ds ↔
      List.Forall₂ (fun n d => f.declaration ix n = .ok d) ns ds ∧
        (ds.map (·.name)).Nodup ∧ ∀ d ∈ ds, d.name ∉ taken := by
  induction ns generalizing taken ds with
  | nil => cases ds <;> simp [declareAll]
  | cons n ns ih =>
    rw [declareAll, List.forall₂_cons_left_iff, Outcome.bind_eq_ok_iff]
    constructor
    · rintro ⟨d, hd, h⟩
      split at h
      · cases h
      · next hn =>
        simp only [Outcome.bind_eq_ok_iff, Outcome.pure_eq_ok_iff, ih] at h
        obtain ⟨ds, ⟨hall, hnodup, hfree⟩, rfl⟩ := h
        refine ⟨⟨d, ds, hd, hall, rfl⟩, ?_, ?_⟩
        · rw [List.map_cons, List.nodup_cons, List.mem_map]
          refine ⟨?_, hnodup⟩
          rintro ⟨d', hd', heq⟩
          exact hfree d' hd' (heq ▸ List.mem_cons_self)
        · exact List.forall_mem_cons.mpr
            ⟨hn, fun d' hd' ht => hfree d' hd' (List.mem_cons_of_mem _ ht)⟩
    · rintro ⟨⟨d, ds, hd, hall, rfl⟩, hnodup, hfree⟩
      rw [List.map_cons, List.nodup_cons] at hnodup
      obtain ⟨hn, hrest⟩ := List.forall_mem_cons.mp hfree
      refine ⟨d, hd, ?_⟩
      rw [if_neg hn]
      simp only [Outcome.bind_eq_ok_iff, Outcome.pure_eq_ok_iff, ih]
      refine ⟨ds, ⟨hall, hnodup.2, fun d' hd' ht => ?_⟩, rfl⟩
      rcases List.mem_cons.mp ht with heq | ht
      · exact hnodup.1 (heq ▸ List.mem_map_of_mem hd')
      · exact hrest d' hd' ht

theorem declarations_eq_ok_iff {ds : List (Declaration Entry)} :
    f.declarations ix = .ok ds ↔
      List.Forall₂ (fun n d => f.declaration ix n = .ok d) f.declaredNodes ds ∧
        (ds.map (·.name)).Nodup := by
  simp [declarations, declareAll_eq_ok_iff]

/-- One declaration for each place at which a type is declared. -/
theorem forall₂_places_declarations {ds : List (Declaration Entry)}
    (h : f.declarations ix = .ok ds) :
    List.Forall₂ (fun p d => ∃ n, f.declaredAt? p = some n.content ∧ f.declaration ix n = .ok d)
      (f.places fun m => !m.isMapEntry) ds :=
  forall₂_trans (fun _ n _ hp hd => ⟨n, hp, hd⟩) f.forall₂_places_nodes
    (declarations_eq_ok_iff.mp h).1

theorem typings_eq_ok_iff {t : Typings} :
    f.typings ix = .ok t ↔ ∃ ds, f.declarations ix = .ok ds ∧ t = f.assemble ds := by
  simp only [typings, Outcome.bind_eq_ok_iff, Outcome.pure_eq_ok_iff]

end File

/-! ## Mirrors -/

variable {ρ σ : Type}

structure Member.Mirrors (m : Message) (fd : Field) (mem : Member ρ) : Prop where
  name : mem.name = PropertyName.ofField fd.name fd.jsonName?
  /-- The group at the index of the field, unless it was made up for an optional field. -/
  oneof : ∀ group, mem.oneof = some group ↔ fd.isProto3Optional = false ∧
    ∃ (i : Nat) (k : Int32) (o : Oneof), fd.oneofIndex? = some k ∧ k.toInt = i ∧
      m.oneofs[i]? = some o ∧ o.name = group

def Declaration.Body.Mirrors : Node.Body → Declaration.Body ρ → Prop
  | .message m, .interface members => List.Forall₂ (Member.Mirrors m) m.fields members
  | .enum e, .enum constants =>
    constants.map (fun c => (c.name, c.value)) = e.values.map fun v => (v.name, v.number)
  | _, _ => False

structure Declaration.Mirrors (f : File) (s : Scope) (b : Node.Body) (d : Declaration ρ) :
    Prop where
  name : d.name = s.flatName
  fullName : d.fullName = s.fullName f.package
  body : d.body.Mirrors b

theorem Message.oneofOf?_eq_some_iff {m : Message} {fd : Field} {group : String} :
    m.oneofOf? fd = some group ↔ fd.isProto3Optional = false ∧
      ∃ (i : Nat) (k : Int32) (o : Oneof), fd.oneofIndex? = some k ∧ k.toInt = i ∧
        m.oneofs[i]? = some o ∧ o.name = group := by
  unfold oneofOf?
  cases fd.isProto3Optional with
  | true => simp
  | false =>
    simp only [Bool.false_eq_true, if_false, true_and, Option.bind_eq_some_iff]
    constructor
    · rintro ⟨k, hk, h⟩
      split at h
      · cases h
      · next hneg =>
        obtain ⟨o, ho, hname⟩ := Option.map_eq_some_iff.mp h
        have hk0 : 0 ≤ k.toInt := by
          simpa [Int32.lt_iff_toInt_lt] using hneg
        exact ⟨k.toInt.toNat, k, o, hk, (Int.toNat_of_nonneg hk0).symm, ho, hname⟩
    · rintro ⟨i, k, o, hk, hi, ho, hname⟩
      refine ⟨k, hk, ?_⟩
      have hneg : ¬ k < 0 := by
        rw [Int32.lt_iff_toInt_lt, hi, Int32.toInt_zero]
        omega
      rw [if_neg hneg, hi, Int.toNat_natCast, ho]
      exact congrArg some hname

namespace File

variable {f : File} {ix : Index} {n : Node} {m : Message}

theorem mirrors_of_member {i : Nat} {fd : Field} {mem : Member Entry}
    (h : f.member ix n m i fd = .ok mem) : mem.Mirrors m fd := by
  obtain ⟨t, -, rfl⟩ := member_eq_ok_iff.mp h
  exact ⟨rfl, fun _ => Message.oneofOf?_eq_some_iff⟩

theorem forall₂_mirrors_of_members {ms : List (Member Entry)}
    (h : f.members ix n m 0 m.fields = .ok ms) :
    List.Forall₂ (Member.Mirrors m) m.fields ms :=
  forall₂_of_zipIdx ((members_eq_ok_iff.mp h).imp fun _ _ => mirrors_of_member)

theorem mirrors_of_declaration {d : Declaration Entry} (h : f.declaration ix n = .ok d) :
    d.Mirrors f n.scope n.body := by
  obtain ⟨hname, hfull⟩ := declaration_names h
  refine ⟨hname, hfull, ?_⟩
  cases hb : n.body with
  | message m =>
    obtain ⟨ms, hms, rfl⟩ := (declaration_message_iff hb).mp h
    exact forall₂_mirrors_of_members hms
  | enum e =>
    obtain rfl := (declaration_enum_iff hb).mp h
    apply List.ext_getElem
    · simp
    · intro i _ _
      simp [constant]

end File

/-! ## References may be named at will -/

theorem Declaration.Body.Mirrors.rename {b : Node.Body} {d : Declaration.Body ρ}
    (h : d.Mirrors b) (g : ρ → σ) : (d.rename g).Mirrors b := by
  cases b with
  | message m =>
    cases d with
    | interface members =>
      refine List.forall₂_map_right_iff.mpr (List.Forall₂.imp (fun fd mem hm => ?_) h)
      exact ⟨hm.name, hm.oneof⟩
    | enum constants => exact h
  | enum e =>
    cases d with
    | interface members => exact h
    | enum constants => exact h

theorem Declaration.Mirrors.rename {f : File} {s : Scope} {b : Node.Body} {d : Declaration ρ}
    (h : d.Mirrors f s b) (g : ρ → σ) : (d.rename g).Mirrors f s b :=
  ⟨h.name, h.fullName, h.body.rename g⟩

theorem File.map_name_assemble (f : File) (ds : List (Declaration Entry)) :
    (f.assemble ds).declarations.map (·.name) = ds.map (·.name) := by
  rw [assemble, List.map_map]
  rfl

/-- The declarations are the types in the file that are not made up for maps, in pre-order and each
once: `ps` lists their places. -/
structure Typings.Flattens (f : File) (t : Typings) : Prop where
  file : t.file = f.name
  package : t.package = f.package
  declarations : ∃ ps : List Place, ps.Pairwise Place.Before ∧
    (∀ p, p ∈ ps ↔ (f.declaredAt? p).isSome) ∧
    List.Forall₂ (fun p d => ∃ s b, f.declaredAt? p = some (s, b) ∧ d.Mirrors f s b)
      ps t.declarations
  names_nodup : (t.declarations.map (·.name)).Nodup

theorem File.flattens_of_typings {f : File} {ix : Index} {t : Typings}
    (h : f.typings ix = .ok t) : t.Flattens f := by
  obtain ⟨ds, hds, rfl⟩ := typings_eq_ok_iff.mp h
  have hmirrors : List.Forall₂ (fun p d => ∃ s b, f.declaredAt? p = some (s, b) ∧ d.Mirrors f s b)
      (f.places fun m => !m.isMapEntry) (f.assemble ds).declarations := by
    refine List.forall₂_map_right_iff.mpr ((forall₂_places_declarations hds).imp ?_)
    rintro p d ⟨n, hp, hd⟩
    exact ⟨n.scope, n.body, hp, (mirrors_of_declaration hd).rename _⟩
  refine {
    file := rfl
    package := rfl
    declarations := ⟨_, f.places_sorted, fun p => mem_places, hmirrors⟩
    names_nodup := ?_ }
  rw [map_name_assemble]
  exact (declarations_eq_ok_iff.mp hds).2

namespace Sample

def priceMember : Member String where
  name := "price"
  type := .map .string (.reference "common_money_pb.Money")
  doc := []
  oneof := none

def typings : Typings where
  file := "shop/order.proto"
  package := "shop"
  level := "proto2"
  imports := [{
    qualifier := "common_money_pb"
    specifier := "../common/money"
    file := "common/money.proto" }]
  declarations := [
    { name := "Order", fullName := "shop.Order", doc := []
      body := .interface [
        priceMember,
        { name := "state", type := .reference "Order$State", doc := [], oneof := none }] },
    { name := "Order$State", fullName := "shop.Order.State", doc := []
      body := .enum [{ name := "OPEN", value := 0, doc := [] }] }]

theorem typings_eq : order.typings index = .ok typings := by rfl

theorem typings_flattens : order.typings index = .ok typings ∧ typings.Flattens order :=
  ⟨typings_eq, File.flattens_of_typings typings_eq⟩

end Sample

end ProtoTypings

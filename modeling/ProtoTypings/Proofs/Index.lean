import Mathlib.Algebra.GroupWithZero.Nat
import Mathlib.Data.List.Perm.Basic
import ProtoTypings.Index
import ProtoTypings.Proofs.Keyed
import ProtoTypings.Proofs.Place

/-!
# Exact indexes

`Indexes files ix`: the index `ix` holds the given files and one entry for each type in them, and
nothing in it has the name of anything else of its kind. This is just what `Index.ofFiles` checks
(`ofFiles_eq_ok_iff`). In such an index a name is found if and only if some type at some place has
it, and there is one such place (`Index.exact_of_ofFiles`).
-/

namespace ProtoTypings

open Index

structure Indexes (files : List File) (ix : Index) : Prop where
  files_eq : ix.files = files
  entries_eq : ix.entries = files.flatMap File.entries
  names_nodup : (files.map File.name).Nodup
  fullNames_nodup : (ix.entries.map Entry.fullName).Nodup

namespace Index

/-! ## Clashes -/

theorem beq_key_iff {a b : String ⊕ String} : (a == b) = true ↔ a = b := by
  rcases a with a | a <;> rcases b with b | b
  · rw [Sum.inl.injEq]; exact beq_iff_eq (a := a) (b := b)
  · simp; rfl
  · simp; rfl
  · rw [Sum.inr.injEq]; exact beq_iff_eq (a := a) (b := b)

theorem clash?_eq_none_iff {earlier ds : List Definition} :
    clash? earlier ds = none ↔
      (∀ d ∈ ds, ∀ e ∈ earlier, e.key ≠ d.key) ∧ (ds.map Definition.key).Nodup := by
  induction ds generalizing earlier with
  | nil => simp [clash?]
  | cons d ds ih =>
    rw [clash?]
    split
    · next first hf =>
      have hkey : first.key = d.key := beq_key_iff.mp
        (List.find?_some (p := fun c : Definition => c.key == d.key) hf)
      have hmem := List.mem_of_find?_eq_some hf
      simp only [reduceCtorEq, false_iff, not_and]
      exact fun h => absurd hkey (h d List.mem_cons_self first hmem)
    · next hf =>
      have hd : ∀ e ∈ earlier, e.key ≠ d.key := fun e he h =>
        List.find?_eq_none.mp hf e he (beq_key_iff.mpr h)
      rw [ih, List.map_cons, List.nodup_cons]
      simp only [List.forall_mem_cons, List.mem_map, not_exists, not_and]
      constructor
      · rintro ⟨h, hn⟩
        exact ⟨⟨hd, fun c hc => (h c hc).2⟩, fun c hc => Ne.symm (h c hc).1, hn⟩
      · rintro ⟨⟨-, h⟩, hc, hn⟩
        exact ⟨fun c hcm => ⟨Ne.symm (hc c hcm), h c hcm⟩, hn⟩

/-- Up to the definition that clashes nothing does, and what it clashes with is before it. -/
theorem exists_of_clash?_eq_some {earlier ds : List Definition} {e : Error}
    (h : clash? earlier ds = some e) :
    ∃ pre d post first, ds = pre ++ d :: post ∧ clash? earlier pre = none ∧
      (first ∈ earlier ∨ first ∈ pre) ∧ first.key = d.key ∧ e = first.clash d := by
  induction ds generalizing earlier with
  | nil => cases h
  | cons d ds ih =>
    rw [clash?] at h
    split at h
    · next first hf =>
      cases h
      have hkey : first.key = d.key := beq_key_iff.mp
        (List.find?_some (p := fun c : Definition => c.key == d.key) hf)
      exact ⟨[], d, ds, first, rfl, rfl, .inl (List.mem_of_find?_eq_some hf), hkey, rfl⟩
    · next hf =>
      obtain ⟨pre, d', post, first, rfl, hpre, hfirst, hkey, he⟩ := ih h
      refine ⟨d :: pre, d', post, first, rfl, by rw [clash?, hf, hpre], ?_, hkey, he⟩
      rcases hfirst with hfirst | hfirst
      · rcases List.mem_cons.mp hfirst with rfl | hfirst
        · exact .inr List.mem_cons_self
        · exact .inl hfirst
      · exact .inr (List.mem_cons_of_mem _ hfirst)

/-- The names of files and those of types exclude only their own kind. -/
theorem nodup_key_definitions_iff {files : List File} :
    ((files.flatMap File.definitions).map Definition.key).Nodup ↔
      (files.map File.name).Nodup ∧
        ((files.flatMap File.entries).map Entry.fullName).Nodup := by
  have hnames : (files.map File.name).map Sum.inl =
      files.flatMap fun f => [(Sum.inl f.name : String ⊕ String)] := by
    rw [List.map_map, List.map_eq_flatMap]
    rfl
  have hfull : ((files.flatMap File.entries).map Entry.fullName).map Sum.inr =
      files.flatMap fun f => f.entries.map fun e => (Sum.inr e.fullName : String ⊕ String) := by
    rw [List.map_map, List.map_flatMap]
    rfl
  have hkeys : (files.flatMap File.definitions).map Definition.key =
      files.flatMap fun f => [.inl f.name] ++ f.entries.map fun e => .inr e.fullName := by
    rw [List.map_flatMap]
    refine List.flatMap_congr fun f _ => ?_
    rw [File.definitions, List.map_cons, List.map_map]
    rfl
  have hperm := List.flatMap_append_perm files (fun f => [(Sum.inl f.name : String ⊕ String)])
    fun f => f.entries.map fun e => Sum.inr e.fullName
  rw [hkeys, ← hperm.nodup_iff, ← hnames, ← hfull, List.nodup_append,
    List.nodup_map_iff fun _ _ => Sum.inl.inj, List.nodup_map_iff fun _ _ => Sum.inr.inj]
  refine ⟨fun ⟨hn, he, _⟩ => ⟨hn, he⟩, fun ⟨hn, he⟩ => ⟨hn, he, ?_⟩⟩
  rintro _ ha _ hb rfl
  obtain ⟨a, -, rfl⟩ := List.mem_map.mp ha
  obtain ⟨b, -, h⟩ := List.mem_map.mp hb
  cases h

theorem ofFiles_eq_ok_iff {files : List File} {ix : Index} :
    ofFiles files = .ok ix ↔ Indexes files ix := by
  have hclash : clash? [] (files.flatMap File.definitions) = none ↔
      (files.map File.name).Nodup ∧
        ((files.flatMap File.entries).map Entry.fullName).Nodup := by
    simp [clash?_eq_none_iff, nodup_key_definitions_iff]
  rw [ofFiles]
  split
  · next e he =>
    simp only [reduceCtorEq, false_iff]
    intro h
    have := hclash.mpr ⟨h.names_nodup, h.entries_eq ▸ h.fullNames_nodup⟩
    rw [he] at this
    cases this
  · next hnone =>
    obtain ⟨hnames, hfull⟩ := hclash.mp hnone
    rw [Except.ok.injEq]
    constructor
    · rintro rfl
      exact ⟨rfl, rfl, hnames, hfull⟩
    · intro h
      cases ix
      exact Index.mk.injEq .. ▸ ⟨h.files_eq.symm, h.entries_eq.symm⟩

/-! ## Finding a type or a file -/

/-- `n` is the name, perhaps with a dot in front. A dot at the start of `n` is never part of the
name. -/
def Refers (n name : String) : Prop := n = "." ++ name ∨ n = name ∧ n.toList.head? ≠ some '.'

theorem undotted_dot (name : String) : undotted ("." ++ name) = name := by
  have h : ("." ++ name).toList = '.' :: name.toList := by simp
  rw [undotted, h]
  exact String.ofList_toList

theorem undotted_of_head? {n : String} (h : n.toList.head? ≠ some '.') : undotted n = n := by
  rw [undotted]
  split
  · next cs hn => simp [hn] at h
  · rfl

theorem dot_undotted {n : String} (h : n.toList.head? = some '.') : "." ++ undotted n = n := by
  obtain ⟨cs, hcs⟩ := List.head?_eq_some_iff.mp h
  apply String.toList_inj.mp
  rw [undotted, hcs]
  simp

theorem undotted_eq_iff {n name : String} : undotted n = name ↔ Refers n name := by
  constructor
  · rintro rfl
    by_cases h : n.toList.head? = some '.'
    · exact .inl (dot_undotted h).symm
    · exact .inr ⟨(undotted_of_head? h).symm, h⟩
  · rintro (rfl | ⟨rfl, h⟩)
    · exact undotted_dot name
    · exact undotted_of_head? h

end Index

theorem File.mem_entries {f : File} {e : Entry} :
    e ∈ f.entries ↔ e.file = f ∧ e.fullName = e.scope.fullName f.package ∧
      ∃ p, f.typeAt? p = some (e.scope, e.body) := by
  rw [← exists_node_iff, entries, List.mem_map]
  constructor
  · rintro ⟨n, hn, rfl⟩
    exact ⟨rfl, rfl, n, hn, rfl⟩
  · rintro ⟨rfl, hname, n, hn, hc⟩
    obtain ⟨hs, hb⟩ := Prod.mk.inj hc
    exact ⟨n, hn, by cases e; simp_all⟩

namespace Indexes

variable {files : List File} {ix : Index}

theorem mem_entries (h : Indexes files ix) {e : Entry} :
    e ∈ ix.entries ↔ e.file ∈ files ∧ e.fullName = e.scope.fullName e.file.package ∧
      ∃ p, e.file.typeAt? p = some (e.scope, e.body) := by
  rw [h.entries_eq, List.mem_flatMap]
  constructor
  · rintro ⟨f, hf, he⟩
    obtain ⟨rfl, he⟩ := File.mem_entries.mp he
    exact ⟨hf, he⟩
  · rintro ⟨hf, he⟩
    exact ⟨e.file, hf, File.mem_entries.mpr ⟨rfl, he⟩⟩

theorem mem_entries_of_typeAt? (h : Indexes files ix) {f : File} (hf : f ∈ files) {p : Place}
    {s : Scope} {b : Node.Body} (hp : f.typeAt? p = some (s, b)) :
    { file := f, fullName := s.fullName f.package, scope := s, body := b } ∈ ix.entries :=
  h.mem_entries.mpr ⟨hf, rfl, p, hp⟩

theorem find_eq_ok_iff (h : Indexes files ix) {n : String} {e : Entry} :
    ix.find n = .ok e ↔ e ∈ ix.entries ∧ Refers n e.fullName := by
  have hl : ix.lookup? (undotted n) = some e ↔ e ∈ ix.entries ∧ e.fullName = undotted n :=
    find?_key_eq_some_iff h.fullNames_nodup
  rw [find, ← undotted_eq_iff, eq_comm (a := undotted n), ← hl]
  cases ix.lookup? (undotted n) <;> simp

theorem find_eq_error_iff {n : String} {err : Error} :
    ix.find n = .error err ↔
      err = .unresolved n ∧ ∀ e ∈ ix.entries, ¬ Refers n e.fullName := by
  have hl : ix.lookup? (undotted n) = none ↔ ∀ e ∈ ix.entries, e.fullName ≠ undotted n := by
    simp [lookup?]
  simp only [← undotted_eq_iff, eq_comm (a := undotted n)]
  rw [find, ← hl]
  cases ix.lookup? (undotted n) <;> simp [eq_comm]

theorem file?_eq_some_iff (h : Indexes files ix) {name : String} {f : File} :
    ix.file? name = some f ↔ f ∈ files ∧ f.name = name := by
  rw [file?, h.files_eq]
  exact find?_key_eq_some_iff h.names_nodup

theorem file?_eq_none_iff (h : Indexes files ix) {name : String} :
    ix.file? name = none ↔ ∀ f ∈ files, f.name ≠ name := by
  simp [file?, h.files_eq]

theorem eq_of_name_eq (h : Indexes files ix) {f g : File} (hf : f ∈ files) (hg : g ∈ files)
    (hn : f.name = g.name) : f = g :=
  List.inj_on_of_nodup_map h.names_nodup hf hg hn

theorem nodup_fullName (h : Indexes files ix) {f : File} (hf : f ∈ files) :
    (f.entries.map Entry.fullName).Nodup := by
  have hall := h.fullNames_nodup
  rw [h.entries_eq, List.map_flatMap] at hall
  exact (List.nodup_flatMap.mp hall).1 f hf

/-- The place of a type in its file is unique as well. -/
theorem place_unique (h : Indexes files ix) {f : File} (hf : f ∈ files) {p q : Place}
    {s s' : Scope} {b b' : Node.Body} (hp : f.typeAt? p = some (s, b))
    (hq : f.typeAt? q = some (s', b')) (hn : s.fullName f.package = s'.fullName f.package) :
    p = q := by
  let nameAt (p : Place) : Option String := (f.typeAt? p).map fun c => c.1.fullName f.package
  have hnames : (f.places fun _ => true).map nameAt =
      (f.entries.map Entry.fullName).map some := by
    have hc := congrArg (List.map (Option.map fun c : Scope × Node.Body => c.1.fullName f.package))
      (@File.map_nodeAt?_places (fun _ => true) f)
    simpa [nameAt, File.entries, File.allNodes, Function.comp_def, Node.content] using hc
  have hat : ((f.places fun _ => true).map nameAt).Nodup := by
    rw [hnames]
    exact (h.nodup_fullName hf).map fun _ _ => Option.some.inj
  refine List.inj_on_of_nodup_map hat (File.mem_places_of_eq_some hp)
    (File.mem_places_of_eq_some hq) ?_
  simp only [nameAt, hp, hq, Option.map_some, hn]

theorem type_unique (h : Indexes files ix) {f g : File} (hf : f ∈ files) (hg : g ∈ files)
    {p q : Place} {s s' : Scope} {b b' : Node.Body} (hp : f.typeAt? p = some (s, b))
    (hq : g.typeAt? q = some (s', b')) (hn : s.fullName f.package = s'.fullName g.package) :
    f = g ∧ p = q := by
  have he := h.mem_entries_of_typeAt? hf hp
  have he' := h.mem_entries_of_typeAt? hg hq
  obtain rfl : f = g :=
    congrArg Entry.file (List.inj_on_of_nodup_map h.fullNames_nodup he he' hn)
  exact ⟨rfl, h.place_unique hf hp hq hn⟩

end Indexes

/-! ## Counting types -/

mutual

/-- The message itself with all messages and enums in it. -/
def Message.typeCount (m : Message) : Nat :=
  match m with
  | { nested, .. } => 1 + typeCounts nested + m.enums.length

def typeCounts (ms : List Message) : Nat :=
  match ms with
  | [] => 0
  | m :: ms => m.typeCount + typeCounts ms

end

def File.typeCount (f : File) : Nat := typeCounts f.messages + f.enums.length

theorem length_enumNodes (outer : Scope) (path : List Int32) (es : List Enum) :
    (enumNodes outer path es).length = es.length := by
  simp [enumNodes]

theorem length_messageNodes {keep : Message → Bool} {ms : List Message}
    (h : ∀ m ∈ ms, ∀ outer path, (m.nodes keep outer path).length = m.typeCount)
    (outer : Scope) (path : List Int32) (i : Nat) :
    (messageNodes keep outer path i ms).length = typeCounts ms := by
  induction ms generalizing i with
  | nil => simp [messageNodes, typeCounts]
  | cons m ms ih =>
    rw [messageNodes, typeCounts, List.length_append, h m List.mem_cons_self,
      ih (fun n hn => h n (List.mem_cons_of_mem _ hn))]

theorem Message.length_nodes (m : Message) : ∀ (outer : Scope) (path : List Int32),
    (m.nodes (fun _ => true) outer path).length = m.typeCount := by
  induction m using Message.induct with
  | step m ih =>
    intro outer path
    have hcount : m.typeCount = 1 + typeCounts m.nested + m.enums.length := by
      cases m; rw [typeCount]
    rw [nodes_eq, if_pos rfl, hcount, List.cons_append, List.length_cons, List.length_append,
      length_messageNodes ih, length_enumNodes]
    omega

theorem File.length_entries (f : File) : f.entries.length = f.typeCount := by
  rw [entries, List.length_map, allNodes, nodes, List.length_append,
    length_messageNodes (fun m _ => m.length_nodes), length_enumNodes, typeCount]

theorem Indexes.size_eq {files : List File} {ix : Index} (h : Indexes files ix) :
    ix.size = (files.map File.typeCount).sum := by
  rw [Index.size, h.entries_eq, List.length_flatMap]
  simp only [File.length_entries]

/-! ## Two files -/

namespace Sample

def moneyMessage : Message where
  name? := some "Money"
  fields := [{ name? := some "units", number? := some 1, kind? := some 3 }]

def money : File where
  name? := some "common/money.proto"
  package? := some "common"
  messages := [moneyMessage]

/-- What stands for a map from strings to `Money`. -/
def priceEntry : Message where
  name? := some "PriceEntry"
  fields := [
    { name? := some "key", number? := some 1, kind? := some 9 },
    { name? := some "value", number? := some 2, kind? := some 11
      typeName? := some ".common.Money" }]
  options? := some { ofMap? := some true }

def state : Enum where
  name? := some "State"
  values := [{ name? := some "OPEN" }]

def orderMessage : Message where
  name? := some "Order"
  fields := [
    { name? := some "price", number? := some 1, label? := some 3, kind? := some 11
      typeName? := some ".shop.Order.PriceEntry" },
    { name? := some "state", number? := some 2, kind? := some 14
      typeName? := some ".shop.Order.State" }]
  nested := [priceEntry]
  enums := [state]

def order : File where
  name? := some "shop/order.proto"
  package? := some "shop"
  messages := [orderMessage]

def index : Index where
  files := [order, money]
  entries := [
    { file := order, fullName := "shop.Order", scope := ["Order"], body := .message orderMessage },
    { file := order, fullName := "shop.Order.PriceEntry", scope := ["Order", "PriceEntry"]
      body := .message priceEntry },
    { file := order, fullName := "shop.Order.State", scope := ["Order", "State"]
      body := .enum state },
    { file := money, fullName := "common.Money", scope := ["Money"]
      body := .message moneyMessage }]

theorem ofFiles_eq : Index.ofFiles [order, money] = .ok index := by rfl

end Sample

/-! ## The index is exact -/

structure Index.Exact (files : List File) (ix : Index) : Prop where
  /-- A name is found if and only if it refers to a type, and what is found is that type. -/
  found : ∀ n e, ix.find n = .ok e ↔
    Refers n e.fullName ∧ e.file ∈ files ∧ e.fullName = e.scope.fullName e.file.package ∧
      ∃ p, e.file.typeAt? p = some (e.scope, e.body)
  missed : ∀ n err, ix.find n = .error err ↔
    err = .unresolved n ∧ ∀ f ∈ files, ∀ p s b, f.typeAt? p = some (s, b) →
      ¬ Refers n (s.fullName f.package)
  /-- No two types share a name. -/
  unique : ∀ f ∈ files, ∀ g ∈ files, ∀ p q s s' b b', f.typeAt? p = some (s, b) →
    g.typeAt? q = some (s', b') → s.fullName f.package = s'.fullName g.package → f = g ∧ p = q
  dotted : ∀ f ∈ files, ∀ p s b, f.typeAt? p = some (s, b) →
    ix.find ("." ++ s.fullName f.package) =
      .ok { file := f, fullName := s.fullName f.package, scope := s, body := b }
  size : ix.size = (files.map File.typeCount).sum
  names_nodup : (files.map File.name).Nodup
  file : ∀ name f, ix.file? name = some f ↔ f ∈ files ∧ f.name = name
  no_file : ∀ name, ix.file? name = none ↔ ∀ f ∈ files, f.name ≠ name

theorem Index.exact_of_ofFiles {files : List File} {ix : Index}
    (h : Index.ofFiles files = .ok ix) : ix.Exact files := by
  have hix := ofFiles_eq_ok_iff.mp h
  refine {
    found := fun n e => ?_
    missed := fun n err => ?_
    unique := fun f hf g hg p q s s' b b' hp hq hn => hix.type_unique hf hg hp hq hn
    dotted := fun f hf p s b hp => ?_
    size := hix.size_eq
    names_nodup := hix.names_nodup
    file := fun _ _ => hix.file?_eq_some_iff
    no_file := fun _ => hix.file?_eq_none_iff }
  · rw [hix.find_eq_ok_iff, hix.mem_entries, and_comm]
  · rw [Indexes.find_eq_error_iff]
    refine and_congr_right fun _ => ⟨fun hn f hf p s b hp => ?_, fun hn e he => ?_⟩
    · exact hn _ (hix.mem_entries_of_typeAt? hf hp)
    · obtain ⟨hf, hname, p, hp⟩ := hix.mem_entries.mp he
      rw [hname]
      exact hn e.file hf p e.scope e.body hp
  · exact hix.find_eq_ok_iff.mpr
      ⟨hix.mem_entries_of_typeAt? hf hp, undotted_eq_iff.mp (undotted_dot _)⟩

theorem Sample.index_exact :
    Index.ofFiles [order, money] = .ok index ∧ index.Exact [order, money] :=
  ⟨ofFiles_eq, Index.exact_of_ofFiles ofFiles_eq⟩

end ProtoTypings

import ProtoTypings.Proofs.Fault
import ProtoTypings.Proofs.Index
import ProtoTypings.Proofs.Projection
import ProtoTypings.Proofs.Scope

/-!
# Failures of a projection

A projection fails because a field has no type or because two types get the same flat name
(`File.typings_eq_error`); where no map leads back to itself, it comes to an end
(`File.typings_ne_endless`). Where names are neither empty nor hold a separator, types with the same
flat name have the same full name as well, so that an index has room for one of them only
(`File.typings_ne_duplicateDeclaration`).
-/

namespace ProtoTypings

open Index

namespace File

variable {f : File} {ix : Index} {n : Node} {m : Message} {e : Error}

/-! ## Where errors come from -/

/-- The error for the field, which is one of the type at the node. -/
def FailsAt (f : File) (ix : Index) (n : Node) (fd : Field) (e : Error) : Prop :=
  ∃ cause, ix.typeOf fd = .error cause ∧
    e = .projection f.name (n.scope.fullName f.package ++ "." ++ fd.name) cause

theorem member_eq_error_iff {i : Nat} {fd : Field} :
    f.member ix n m i fd = .error e ↔ f.FailsAt ix n fd e := by
  unfold member FailsAt
  cases ix.typeOf fd <;> simp [eq_comm]

/-- All fields before the one that fails have types. -/
theorem members_eq_error {i : Nat} {fds : List Field} (h : f.members ix n m i fds = .error e) :
    ∃ pre fd post, fds = pre ++ fd :: post ∧ (∀ fd' ∈ pre, ∃ t, ix.typeOf fd' = .ok t) ∧
      f.FailsAt ix n fd e := by
  induction fds generalizing i with
  | nil => cases h
  | cons fd fds ih =>
    rw [members, Outcome.bind_eq_error_iff] at h
    rcases h with h | ⟨mem, hmem, h⟩
    · exact ⟨[], fd, fds, rfl, fun _ hfd' => absurd hfd' List.not_mem_nil,
        member_eq_error_iff.mp h⟩
    · rcases Outcome.bind_eq_error_iff.mp h with h | ⟨_, _, h⟩
      · obtain ⟨pre, fd', post, rfl, hpre, hfail⟩ := ih h
        obtain ⟨t, ht, -⟩ := member_eq_ok_iff.mp hmem
        exact ⟨fd :: pre, fd', post, rfl, List.forall_mem_cons.mpr ⟨⟨t, ht⟩, hpre⟩, hfail⟩
      · cases h

theorem declaration_eq_error (h : f.declaration ix n = .error e) :
    ∃ m pre fd post, n.body = .message m ∧ m.fields = pre ++ fd :: post ∧
      (∀ fd' ∈ pre, ∃ t, ix.typeOf fd' = .ok t) ∧ f.FailsAt ix n fd e := by
  unfold declaration at h
  split at h
  · next m hb =>
    rcases Outcome.bind_eq_error_iff.mp h with h | ⟨_, _, h⟩
    · obtain ⟨pre, fd, post, hfields, hpre, hfail⟩ := members_eq_error h
      exact ⟨m, pre, fd, post, hb, hfields, hpre, hfail⟩
    · cases h
  · cases h

/-- All nodes before the one that fails are declared. Where it is not for a field, its name is
taken. -/
theorem declareAll_eq_error {taken : List String} {ns : List Node}
    (h : f.declareAll ix taken ns = .error e) :
    ∃ pre n post, ns = pre ++ n :: post ∧ (∃ ds, f.declareAll ix taken pre = .ok ds) ∧
      (f.declaration ix n = .error e ∨
        (∃ d, f.declaration ix n = .ok d) ∧ e = .duplicateDeclaration f.name n.scope.flatName ∧
          (n.scope.flatName ∈ taken ∨ n.scope.flatName ∈ pre.map (·.scope.flatName))) := by
  induction ns generalizing taken with
  | nil => cases h
  | cons n ns ih =>
    rw [declareAll, Outcome.bind_eq_error_iff] at h
    rcases h with h | ⟨d, hd, h⟩
    · exact ⟨[], n, ns, rfl, ⟨[], rfl⟩, .inl h⟩
    · have hname := (declaration_names hd).1
      split at h
      · next htaken =>
        cases h
        rw [hname] at htaken ⊢
        exact ⟨[], n, ns, rfl, ⟨[], rfl⟩, .inr ⟨⟨d, hd⟩, rfl, .inl htaken⟩⟩
      · next hfree =>
        rcases Outcome.bind_eq_error_iff.mp h with h | ⟨_, _, h⟩
        · obtain ⟨pre, n', post, rfl, ⟨ds, hds⟩, hfail⟩ := ih h
          have hpre : f.declareAll ix taken (n :: pre) = .ok (d :: ds) := by
            rw [declareAll, Outcome.bind_eq_ok_iff]
            refine ⟨d, hd, ?_⟩
            rw [if_neg hfree, hds]
            rfl
          refine ⟨n :: pre, n', post, rfl, ⟨_, hpre⟩, hfail.imp_right fun hdup => ?_⟩
          obtain ⟨hdecl, he, htaken⟩ := hdup
          refine ⟨hdecl, he, ?_⟩
          rw [List.mem_cons, hname] at htaken
          rw [List.map_cons, List.mem_cons]
          tauto
        · cases h

theorem typings_eq_error (h : f.typings ix = .error e) :
    (∃ n ∈ f.declaredNodes, ∃ m fd, n.body = .message m ∧ fd ∈ m.fields ∧ f.FailsAt ix n fd e) ∨
      (∃ name, e = .duplicateDeclaration f.name name) ∧
        ¬ (f.declaredNodes.map (·.scope.flatName)).Nodup := by
  rcases Outcome.bind_eq_error_iff.mp h with h | ⟨_, _, h⟩
  · obtain ⟨pre, n, post, hns, -, h⟩ := declareAll_eq_error h
    rw [hns]
    rcases h with h | ⟨-, rfl, htaken⟩
    · obtain ⟨m, fpre, fd, fpost, hb, hfields, -, hfail⟩ := declaration_eq_error h
      refine .inl ⟨n, List.mem_append_cons_self, m, fd, hb, ?_, hfail⟩
      rw [hfields]
      exact List.mem_append_cons_self
    · refine .inr ⟨⟨_, rfl⟩, fun hnodup => ?_⟩
      rw [List.map_append, List.map_cons] at hnodup
      have hmem := htaken.resolve_left List.not_mem_nil
      exact List.disjoint_of_nodup_append hnodup hmem List.mem_cons_self
  · cases h

/-! ## Where there is no end -/

theorem member_eq_endless_iff {i : Nat} {fd : Field} :
    f.member ix n m i fd = .endless ↔ ix.Circles fd := by
  rw [← typeOf_eq_endless_iff]
  unfold member
  cases ix.typeOf fd <;> simp

theorem members_eq_endless {i : Nat} {fds : List Field} (h : f.members ix n m i fds = .endless) :
    ∃ fd ∈ fds, ix.Circles fd := by
  induction fds generalizing i with
  | nil => cases h
  | cons fd fds ih =>
    rw [members, Outcome.bind_eq_endless_iff] at h
    rcases h with h | ⟨_, _, h⟩
    · exact ⟨fd, List.mem_cons_self, member_eq_endless_iff.mp h⟩
    · rcases Outcome.bind_eq_endless_iff.mp h with h | ⟨_, _, h⟩
      · obtain ⟨fd', hfd', h⟩ := ih h
        exact ⟨fd', List.mem_cons_of_mem _ hfd', h⟩
      · cases h

theorem declaration_eq_endless (h : f.declaration ix n = .endless) :
    ∃ m, n.body = .message m ∧ ∃ fd ∈ m.fields, ix.Circles fd := by
  unfold declaration at h
  split at h
  · next m hb =>
    rcases Outcome.bind_eq_endless_iff.mp h with h | ⟨_, _, h⟩
    · exact ⟨m, hb, members_eq_endless h⟩
    · cases h
  · cases h

theorem declareAll_eq_endless {taken : List String} {ns : List Node}
    (h : f.declareAll ix taken ns = .endless) : ∃ n ∈ ns, f.declaration ix n = .endless := by
  induction ns generalizing taken with
  | nil => cases h
  | cons n ns ih =>
    rw [declareAll, Outcome.bind_eq_endless_iff] at h
    rcases h with h | ⟨d, _, h⟩
    · exact ⟨n, List.mem_cons_self, h⟩
    · split at h
      · cases h
      · rcases Outcome.bind_eq_endless_iff.mp h with h | ⟨_, _, h⟩
        · obtain ⟨n', hn', h⟩ := ih h
          exact ⟨n', List.mem_cons_of_mem _ hn', h⟩
        · cases h

/-- A projection has no end only if looking for the type of some field goes round in a circle. -/
theorem typings_eq_endless (h : f.typings ix = .endless) :
    ∃ n ∈ f.declaredNodes, ∃ m, n.body = .message m ∧ ∃ fd ∈ m.fields, ix.Circles fd := by
  rcases Outcome.bind_eq_endless_iff.mp h with h | ⟨_, _, h⟩
  · obtain ⟨n, hn, h⟩ := declareAll_eq_endless h
    exact ⟨n, hn, declaration_eq_endless h⟩
  · cases h

theorem typings_ne_endless (h : ix.Acyclic) : f.typings ix ≠ .endless := by
  intro hendless
  obtain ⟨_, _, _, _, fd, _, hcircles⟩ := typings_eq_endless hendless
  exact (h.ends fd).not_circles hcircles

end File

/-! ## Names that flatten well -/

namespace Indexes

variable {files : List File} {ix : Index} {f : File}

theorem nodup_scope (h : Indexes files ix) (hf : f ∈ files) :
    (f.allNodes.map (·.scope)).Nodup := by
  refine List.Nodup.of_map (Scope.fullName f.package) ?_
  rw [List.map_map]
  have hnames := h.nodup_fullName hf
  rwa [File.entries, List.map_map] at hnames

theorem nodup_flatName (h : Indexes files ix) (hf : f ∈ files)
    (hnames : ∀ p s b, f.typeAt? p = some (s, b) → IsPlain b.name) :
    (f.declaredNodes.map (·.scope.flatName)).Nodup := by
  have hplain : ∀ n ∈ f.declaredNodes, n.scope ≠ [] ∧ ∀ c ∈ n.scope, IsPlain c := by
    intro n hn
    obtain ⟨p, hp⟩ := File.exists_node_iff.mp ⟨n, hn, rfl⟩
    exact File.names_of_nodeAt? hnames (File.typeAt?_of_declaredAt? hp)
  have hscopes : (f.declaredNodes.map (·.scope)).Nodup :=
    (h.nodup_scope hf).sublist ((File.nodes_sublist (fun _ _ => rfl) f).map _)
  have hflat : ((f.declaredNodes.map (·.scope)).map Scope.flatName).Nodup := by
    refine hscopes.map_on fun s hs t ht heq => ?_
    obtain ⟨n, hn, rfl⟩ := List.mem_map.mp hs
    obtain ⟨n', hn', rfl⟩ := List.mem_map.mp ht
    obtain ⟨hne, hpl⟩ := hplain n hn
    obtain ⟨hne', hpl'⟩ := hplain n' hn'
    exact (Scope.flatName_inj hne hne' hpl hpl').mp heq
  rwa [List.map_map] at hflat

end Indexes

theorem File.typings_ne_duplicateDeclaration {files : List File} {ix : Index}
    (hix : Index.ofFiles files = .ok ix) {f : File} (hf : f ∈ files)
    (hnames : ∀ p s b, f.typeAt? p = some (s, b) → IsPlain b.name) (file name : String) :
    f.typings ix ≠ .error (.duplicateDeclaration file name) := by
  intro h
  rcases typings_eq_error h with ⟨n, _, m, fd, _, _, cause, _, he⟩ | ⟨_, hclash⟩
  · cases he
  · exact hclash ((ofFiles_eq_ok_iff.mp hix).nodup_flatName hf hnames)

namespace Sample

/-- The prices of an order are a map, but the key and the value of each are single. -/
theorem index_acyclic : index.Acyclic := MapsSingle.acyclic (by decide)

/-- Reserved words as names, and names that would clash if an underscore joined them. -/
def lookalikes : File where
  name? := some "lookalikes.proto"
  messages := [
    { name? := some "class", nested := [{ name? := some "string" }] },
    { name? := some "A", nested := [{ name? := some "B_C" }] },
    { name? := some "A_B", nested := [{ name? := some "C" }] }]
  enums := [{ name? := some "string" }]

def lookalikesIndex : Index where
  files := [lookalikes]
  entries := lookalikes.entries

theorem lookalikes_isPlain {p : Place} {s : Scope} {b : Node.Body}
    (h : lookalikes.typeAt? p = some (s, b)) : IsPlain b.name := by
  obtain ⟨n, hn, hc⟩ := File.exists_node_iff.mpr ⟨p, h⟩
  obtain rfl : n.body = b := congrArg Prod.snd hc
  have hall : ∀ n ∈ lookalikes.allNodes, IsPlain n.body.name := by decide
  exact hall n hn

theorem lookalikes_declared : Index.ofFiles [lookalikes] = .ok lookalikesIndex ∧
    (∀ p s b, lookalikes.typeAt? p = some (s, b) → IsPlain b.name) ∧
    ∀ file name, lookalikes.typings lookalikesIndex ≠ .error (.duplicateDeclaration file name) := by
  have hix : Index.ofFiles [lookalikes] = .ok lookalikesIndex := by rfl
  have hnames : ∀ p s b, lookalikes.typeAt? p = some (s, b) → IsPlain b.name :=
    fun _ _ _ => lookalikes_isPlain
  exact ⟨hix, hnames,
    File.typings_ne_duplicateDeclaration hix List.mem_cons_self hnames⟩

end Sample

end ProtoTypings

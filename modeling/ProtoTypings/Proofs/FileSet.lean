import ProtoTypings.Generation
import ProtoTypings.Proofs.Failure

/-!
# Files in another order, and more files

`Agrees loose r r'`: the outcome `r'` is `r`, unless `r` says nothing about `r'`, that is, it has no
end or it is an error that is `loose`. What holds of looking up names is carried through the steps
of a projection (`Agrees.typeOf`, `Agrees.typings`). Indexes of the same files look up alike, so no
error is loose between them; a larger index may know a name that a smaller one does not. So the
order of the files does not matter, nor do files that are not needed
(`file_order_and_surplus_files_do_not_matter`).
-/

namespace ProtoTypings

open Index

def Agrees {α : Type} (loose : Error → Prop) (r r' : Outcome α) : Prop :=
  r' = r ∨ r = .endless ∨ ∃ e, r = .error e ∧ loose e

/-- Names are looked up alike, but for loose errors. -/
def Index.FindsAlike (loose : Error → Prop) (ix ix' : Index) : Prop :=
  ∀ n, ix'.find n = ix.find n ∨ ∃ e, ix.find n = .error e ∧ loose e

namespace Agrees

variable {α β : Type} {loose : Error → Prop}

theorem refl (r : Outcome α) : Agrees loose r r := .inl rfl

theorem bind {x x' : Outcome α} {g g' : α → Outcome β} (hx : Agrees loose x x')
    (hg : ∀ a, Agrees loose (g a) (g' a)) : Agrees loose (x >>= g) (x' >>= g') := by
  rcases hx with rfl | rfl | ⟨e, rfl, he⟩
  · cases x' with
    | error e => exact refl _
    | endless => exact refl _
    | ok a => exact hg a
  · exact .inr (.inl rfl)
  · exact .inr (.inr ⟨e, rfl, he⟩)

theorem eq_of_forall {r r' : Outcome α} (h : Agrees loose r r') (hends : r ≠ .endless)
    (hr : ∀ e, r = .error e → ¬ loose e) : r' = r := by
  rcases h with h | h | ⟨e, he, hloose⟩
  · exact h
  · exact absurd h hends
  · exact absurd hloose (hr e he)

/-- Outcomes that agree both ways are equal if no error is loose. -/
theorem antisymm {r r' : Outcome α} (h : Agrees loose r r') (h' : Agrees loose r' r)
    (hstrict : ∀ e, ¬ loose e) : r' = r := by
  rcases h with h | h | ⟨e, -, hloose⟩
  · exact h
  · rcases h' with h' | h' | ⟨e, -, hloose⟩
    · exact h'.symm
    · rw [h, h']
    · exact absurd hloose (hstrict e)
  · exact absurd hloose (hstrict e)

/-! ## Types of fields -/

variable {ix ix' : Index}

theorem typeWith (hfind : FindsAlike loose ix ix')
    {mapType mapType' : Entry → Message → Outcome (TypeExpr Entry)}
    (hmap : ∀ e m, Agrees loose (mapType e m) (mapType' e m)) (f : Field) :
    Agrees loose (ix.typeWith mapType f) (ix'.typeWith mapType' f) := by
  unfold Index.typeWith
  split
  · exact refl _
  · rcases hfind f.typeName with hfind | ⟨e, he, hloose⟩
    · rw [hfind]
      split
      · exact refl _
      · split
        · split
          · exact hmap _ _
          · exact refl _
        · exact refl _
    · rw [he]
      exact .inr (.inr ⟨e, rfl, hloose⟩)

/-- Where maps may be nested deeper, that no end is found says nothing. -/
theorem mapType (hfind : FindsAlike loose ix ix') {depth depth' : Nat} (hle : depth ≤ depth')
    (e : Entry) (m : Message) : Agrees loose (ix.mapType depth e m) (ix'.mapType depth' e m) := by
  induction depth generalizing depth' e m with
  | zero => exact .inr (.inl rfl)
  | succ depth ih =>
    cases depth' with
    | zero => omega
    | succ depth' =>
      have ih := ih (Nat.le_of_succ_le_succ hle)
      unfold Index.mapType
      split
      · next key value _ _ =>
        exact bind (typeWith hfind ih key) fun _ => bind (typeWith hfind ih value) fun _ => refl _
      · exact refl _

theorem typeOf (hfind : FindsAlike loose ix ix') (hle : ix.size ≤ ix'.size) (f : Field) :
    Agrees loose (ix.typeOf f) (ix'.typeOf f) :=
  typeWith hfind (mapType hfind hle) f

/-! ## Typings -/

/-- An error that a projection reports for a loose one. -/
def Reports (loose : Error → Prop) (e : Error) : Prop :=
  ∃ file member cause, e = .projection file member cause ∧ loose cause

variable {f : File} {n : Node} {m : Message}

theorem member (htype : ∀ fd, Agrees loose (ix.typeOf fd) (ix'.typeOf fd)) (i : Nat) (fd : Field) :
    Agrees (Reports loose) (f.member ix n m i fd) (f.member ix' n m i fd) := by
  unfold File.member
  rcases htype fd with h | h | ⟨e, he, hloose⟩
  · rw [h]
    exact refl _
  · rw [h]
    exact .inr (.inl rfl)
  · rw [he]
    exact .inr (.inr ⟨_, rfl, _, _, e, rfl, hloose⟩)

theorem members (htype : ∀ fd, Agrees loose (ix.typeOf fd) (ix'.typeOf fd)) (i : Nat)
    (fds : List Field) :
    Agrees (Reports loose) (f.members ix n m i fds) (f.members ix' n m i fds) := by
  induction fds generalizing i with
  | nil => exact refl _
  | cons fd fds ih =>
    unfold File.members
    exact bind (member htype i fd) fun _ => bind (ih (i + 1)) fun _ => refl _

theorem declaration (htype : ∀ fd, Agrees loose (ix.typeOf fd) (ix'.typeOf fd)) (n : Node) :
    Agrees (Reports loose) (f.declaration ix n) (f.declaration ix' n) := by
  unfold File.declaration
  split
  · exact bind (members htype 0 _) fun _ => refl _
  · exact refl _

theorem declareAll (htype : ∀ fd, Agrees loose (ix.typeOf fd) (ix'.typeOf fd))
    (taken : List String) (ns : List Node) :
    Agrees (Reports loose) (f.declareAll ix taken ns) (f.declareAll ix' taken ns) := by
  induction ns generalizing taken with
  | nil => exact refl _
  | cons n ns ih =>
    unfold File.declareAll
    refine bind (declaration htype n) fun d => ?_
    split
    · exact refl _
    · exact bind (ih (d.name :: taken)) fun _ => refl _

theorem typings (htype : ∀ fd, Agrees loose (ix.typeOf fd) (ix'.typeOf fd)) (f : File) :
    Agrees (Reports loose) (f.typings ix) (f.typings ix') :=
  bind (declareAll htype [] f.declaredNodes) fun _ => refl _

end Agrees

/-! ## Indexes of some of the same files -/

namespace Indexes

variable {files files' : List File} {ix ix' : Index}

theorem entries_subset (h : Indexes files ix) (h' : Indexes files' ix') (hsub : files ⊆ files') :
    ix.entries ⊆ ix'.entries := by
  intro e he
  obtain ⟨hfile, hrest⟩ := h.mem_entries.mp he
  exact h'.mem_entries.mpr ⟨hsub hfile, hrest⟩

theorem size_le (h : Indexes files ix) (h' : Indexes files' ix') (hsub : files ⊆ files') :
    ix.size ≤ ix'.size :=
  (h.fullNames_nodup.of_map _).length_le_of_subset (h.entries_subset h' hsub)

theorem find_of_subset (h : Indexes files ix) (h' : Indexes files' ix') (hsub : files ⊆ files')
    {n : String} {e : Entry} (he : ix.find n = .ok e) : ix'.find n = .ok e := by
  obtain ⟨hmem, hname⟩ := h.find_eq_ok_iff.mp he
  exact h'.find_eq_ok_iff.mpr ⟨h.entries_subset h' hsub hmem, hname⟩

theorem findsAlike (h : Indexes files ix) (h' : Indexes files' ix') (hsub : files ⊆ files') :
    FindsAlike (·.isUnresolved = true) ix ix' := by
  intro n
  cases he : ix.find n with
  | ok e => exact .inl (h.find_of_subset h' hsub he)
  | error err =>
    obtain ⟨rfl, -⟩ := find_eq_error_iff.mp he
    exact .inr ⟨_, rfl, rfl⟩

theorem typings_of_subset (h : Indexes files ix) (h' : Indexes files' ix') (hsub : files ⊆ files')
    (hacyclic : ix.Acyclic) {f : File}
    (hresolved : ∀ e, f.typings ix = .error e → e.isUnresolved = false) :
    f.typings ix' = f.typings ix := by
  have htype := Agrees.typeOf (h.findsAlike h' hsub) (h.size_le h' hsub)
  refine (Agrees.typings htype f).eq_of_forall (File.typings_ne_endless hacyclic) ?_
  rintro e he ⟨file, member, cause, rfl, hloose⟩
  exact Bool.false_ne_true ((hresolved _ he).symm.trans hloose)

/-! ## Indexes of the same files -/

theorem findsAlike_of_same (h : Indexes files ix) (h' : Indexes files' ix')
    (hsub : files ⊆ files') (hsub' : files' ⊆ files) : FindsAlike (fun _ => False) ix ix' := by
  intro n
  cases he : ix.find n with
  | ok e => exact .inl (h.find_of_subset h' hsub he)
  | error err =>
    obtain ⟨rfl, hnone⟩ := find_eq_error_iff.mp he
    exact .inl (find_eq_error_iff.mpr ⟨rfl, fun e he => hnone e (h'.entries_subset h hsub' he)⟩)

theorem typings_of_same (h : Indexes files ix) (h' : Indexes files' ix') (hsub : files ⊆ files')
    (hsub' : files' ⊆ files) (f : File) : f.typings ix' = f.typings ix := by
  have htype := Agrees.typeOf (h.findsAlike_of_same h' hsub hsub') (h.size_le h' hsub)
  have htype' := Agrees.typeOf (h'.findsAlike_of_same h hsub' hsub) (h'.size_le h hsub')
  refine (Agrees.typings htype f).antisymm (Agrees.typings htype' f) ?_
  rintro e ⟨_, _, _, _, hfalse⟩
  exact hfalse

theorem file?_of_same (h : Indexes files ix) (h' : Indexes files' ix') (hsub : files ⊆ files')
    (hsub' : files' ⊆ files) (name : String) : ix'.file? name = ix.file? name := by
  cases hf : ix.file? name with
  | some f =>
    obtain ⟨hmem, hname⟩ := h.file?_eq_some_iff.mp hf
    exact h'.file?_eq_some_iff.mpr ⟨hsub hmem, hname⟩
  | none =>
    exact h'.file?_eq_none_iff.mpr fun f hmem => h.file?_eq_none_iff.mp hf f (hsub' hmem)

theorem exists_of_perm (h : Indexes files ix) (hperm : files.Perm files') :
    ∃ ix', Indexes files' ix' := by
  refine ⟨{ files := files', entries := files'.flatMap File.entries }, rfl, rfl, ?_, ?_⟩
  · exact (hperm.map File.name).nodup_iff.mp h.names_nodup
  · have hnames := h.fullNames_nodup
    rw [h.entries_eq] at hnames
    exact ((hperm.flatMap_right File.entries).map Entry.fullName).nodup_iff.mp hnames

end Indexes

theorem Index.exists_ofFiles_of_perm {files files' : List File} (hperm : files.Perm files')
    (h : ∃ ix, ofFiles files = .ok ix) : ∃ ix, ofFiles files' = .ok ix := by
  obtain ⟨ix, hix⟩ := h
  obtain ⟨ix', h'⟩ := (ofFiles_eq_ok_iff.mp hix).exists_of_perm hperm
  exact ⟨ix', ofFiles_eq_ok_iff.mpr h'⟩

theorem Renderer.respond_of_perm (renderer : Renderer) (request : Request) {files : List File}
    (hperm : request.files.Perm files) (h : ∃ ix, Index.ofFiles request.files = .ok ix) :
    renderer.respond { request with files := files } = renderer.respond request := by
  obtain ⟨ix, hix⟩ := h
  obtain ⟨ix', hix'⟩ := Index.exists_ofFiles_of_perm hperm ⟨ix, hix⟩
  have h := ofFiles_eq_ok_iff.mp hix
  have h' := ofFiles_eq_ok_iff.mp hix'
  have hfile : renderer.generateFile ix' = renderer.generateFile ix := by
    funext target
    unfold generateFile
    rw [h.file?_of_same h' hperm.subset hperm.symm.subset]
    simp only [h.typings_of_same h' hperm.subset hperm.symm.subset]
  simp only [respond, hix, hix', hfile]

/-- Neither the order of the files decides about a response, nor do files that are not needed. -/
theorem file_order_and_surplus_files_do_not_matter :
    (∀ (renderer : Renderer) (request : Request) (files : List File), request.files.Perm files →
      ((∃ ix, Index.ofFiles request.files = .ok ix) ↔ ∃ ix, Index.ofFiles files = .ok ix) ∧
      ((∃ ix, Index.ofFiles request.files = .ok ix) →
        renderer.respond { request with files := files } = renderer.respond request)) ∧
    ∀ (files more : List File) (ix ix' : Index) (f : File), Index.ofFiles files = .ok ix →
      Index.ofFiles more = .ok ix' → files ⊆ more → ix.Acyclic →
      (∀ e, f.typings ix = .error e → e.isUnresolved = false) →
      f.typings ix' = f.typings ix := by
  refine ⟨fun renderer request files hperm => ⟨⟨?_, ?_⟩, ?_⟩, ?_⟩
  · exact Index.exists_ofFiles_of_perm hperm
  · exact Index.exists_ofFiles_of_perm hperm.symm
  · exact renderer.respond_of_perm request hperm
  · intro files more ix ix' f hix hix' hsub hacyclic hresolved
    exact (ofFiles_eq_ok_iff.mp hix).typings_of_subset (ofFiles_eq_ok_iff.mp hix') hsub hacyclic
      hresolved

namespace Sample

def largerIndex : Index where
  files := [lookalikes, money, order]
  entries := [lookalikes, money, order].flatMap File.entries

theorem order_among_others :
    Renderer.respond Typings.render { targets := ["shop/order.proto"], files := [money, order] } =
      Renderer.respond Typings.render { targets := ["shop/order.proto"], files := [order, money] } ∧
    order.typings largerIndex = .ok typings := by
  obtain ⟨hperm, hsub⟩ := file_order_and_surplus_files_do_not_matter
  have hlarger : Index.ofFiles [lookalikes, money, order] = .ok largerIndex := by rfl
  constructor
  · exact (hperm Typings.render { targets := ["shop/order.proto"], files := [order, money] }
      [money, order] (.swap money order [])).2 ⟨index, ofFiles_eq⟩
  · rw [hsub [order, money] [lookalikes, money, order] index largerIndex order ofFiles_eq hlarger
      (by simp) index_acyclic (by rw [typings_eq]; nofun)]
    exact typings_eq

end Sample

end ProtoTypings

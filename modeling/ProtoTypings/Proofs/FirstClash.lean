import Mathlib.Data.List.Pairwise
import ProtoTypings.Proofs.Earliest
import ProtoTypings.Proofs.Index

/-!
# The first clash

An index takes up the names of its files and the types in them one after another: these are its
sites. A site clashes if one before it has its name (`Clashes`). There is an index if and only if no
site clashes, which is when files and types have names of their own; otherwise the error is that of
the first site to clash (`Index.ofFiles_fails_at_first_clash`).
-/

namespace ProtoTypings

open Index

/-- Where an index takes up a name: that of the `i`-th file, or that of a type in this file. -/
inductive Site where
  | file (i : Nat)
  | type (i : Nat) (p : Place)

/-- File by file, the name of each before the types in it. -/
def Site.Before : Site → Site → Prop
  | .file i, .file j => i < j
  | .file i, .type j _ => i ≤ j
  | .type i _, .file j => i < j
  | .type i p, .type j q => i < j ∨ i = j ∧ p.Before q

instance : Std.Asymm Site.Before where
  asymm
    | .file _, .file _, h, h' => Nat.lt_asymm h h'
    | .file _, .type _ _, h, h' => Nat.not_lt_of_le h h'
    | .type _ _, .file _, h, h' => Nat.not_lt_of_le h' h
    | .type _ p, .type _ q, h, h' => by
      rcases h with h | ⟨rfl, h⟩
      · rcases h' with h' | ⟨rfl, -⟩
        · omega
        · omega
      · rcases h' with h' | ⟨-, h'⟩
        · omega
        · exact Std.Asymm.asymm p q h h'

instance : Std.Trichotomous Site.Before where
  trichotomous
    | .file i, .file j, h, h' => by
      simp only [Site.Before] at h h'
      rw [show i = j by omega]
    | .file i, .type j _, h, h' => by
      simp only [Site.Before] at h h'
      omega
    | .type i _, .file j, h, h' => by
      simp only [Site.Before] at h h'
      omega
    | .type i p, .type j q, h, h' => by
      simp only [Site.Before, not_or, not_and] at h h'
      obtain rfl : i = j := by omega
      rw [Std.Trichotomous.trichotomous p q (h.2 rfl) (h'.2 rfl)]

/-- The name at the site is taken by a site before it, and this is the error for it. -/
inductive Clashes (files : List File) : Site → Error → Prop where
  | file {i j : Nat} {f g : File} : files[i]? = some f → files[j]? = some g →
      (Site.file j).Before (.file i) → g.name = f.name →
      Clashes files (.file i) (.duplicateFile f.name)
  | type {i j : Nat} {f g : File} {p q : Place} {s t : Scope} {b c : Node.Body} :
      files[i]? = some f → f.typeAt? p = some (s, b) →
      files[j]? = some g → g.typeAt? q = some (t, c) →
      (Site.type j q).Before (.type i p) → t.fullName g.package = s.fullName f.package →
      Clashes files (.type i p) (.duplicateType (s.fullName f.package) g.name f.name)

/-! ## Sites and definitions -/

def File.entryAt? (f : File) (p : Place) : Option Entry :=
  (f.typeAt? p).map fun c =>
    { file := f, fullName := c.1.fullName f.package, scope := c.1, body := c.2 }

theorem File.map_entryAt?_places (f : File) :
    (f.places fun _ => true).map f.entryAt? = f.entries.map some := by
  have h := congrArg (List.map (Option.map fun c : Scope × Node.Body =>
    ({ file := f, fullName := c.1.fullName f.package, scope := c.1, body := c.2 } : Entry)))
    (@File.map_nodeAt?_places (fun _ => true) f)
  rw [List.map_map, List.map_map] at h
  rw [entries, List.map_map]
  exact h

variable {files : List File} {a : Site} {d : Definition}

/-- What is defined at a site. -/
def Site.definition? (files : List File) : Site → Option Definition
  | .file i => files[i]?.map .file
  | .type i p => files[i]?.bind fun f => (f.entryAt? p).map .type

theorem Site.definition?_file_iff {i : Nat} :
    (Site.file i).definition? files = some d ↔ ∃ f, files[i]? = some f ∧ d = .file f := by
  simp only [definition?, Option.map_eq_some_iff, eq_comm (a := d)]

theorem Site.definition?_type_iff {i : Nat} {p : Place} :
    (Site.type i p).definition? files = some d ↔
      ∃ f s b, files[i]? = some f ∧ f.typeAt? p = some (s, b) ∧
        d = .type { file := f, fullName := s.fullName f.package, scope := s, body := b } := by
  simp only [definition?, File.entryAt?, Option.bind_eq_some_iff, Option.map_eq_some_iff]
  constructor
  · rintro ⟨f, hf, _, ⟨⟨s, b⟩, hp, rfl⟩, rfl⟩
    exact ⟨f, s, b, hf, hp, rfl⟩
  · rintro ⟨f, s, b, hf, hp, rfl⟩
    exact ⟨f, hf, _, ⟨(s, b), hp, rfl⟩, rfl⟩

theorem clashes_iff {e : Error} : Clashes files a e ↔
    ∃ (d : Definition) (c : Site) (first : Definition), a.definition? files = some d ∧
      c.definition? files = some first ∧ c.Before a ∧ first.key = d.key ∧ e = first.clash d := by
  constructor
  · intro h
    cases h with
    | file hi hj hlt hname =>
      exact ⟨_, _, _, Site.definition?_file_iff.mpr ⟨_, hi, rfl⟩,
        Site.definition?_file_iff.mpr ⟨_, hj, rfl⟩, hlt, congrArg Sum.inl hname, rfl⟩
    | type hi hp hj hq hlt hname =>
      exact ⟨_, _, _, Site.definition?_type_iff.mpr ⟨_, _, _, hi, hp, rfl⟩,
        Site.definition?_type_iff.mpr ⟨_, _, _, hj, hq, rfl⟩, hlt, congrArg Sum.inr hname, rfl⟩
  · rintro ⟨d, c, first, hd, hc, hlt, hkey, rfl⟩
    cases a with
    | file i =>
      obtain ⟨f, hi, rfl⟩ := Site.definition?_file_iff.mp hd
      cases c with
      | file j =>
        obtain ⟨g, hj, rfl⟩ := Site.definition?_file_iff.mp hc
        exact .file hi hj hlt (Sum.inl.inj hkey)
      | type j q =>
        obtain ⟨g, t, c, -, -, rfl⟩ := Site.definition?_type_iff.mp hc
        cases hkey
    | type i p =>
      obtain ⟨f, s, b, hi, hp, rfl⟩ := Site.definition?_type_iff.mp hd
      cases c with
      | file j =>
        obtain ⟨g, -, rfl⟩ := Site.definition?_file_iff.mp hc
        cases hkey
      | type j q =>
        obtain ⟨g, t, c, hj, hq, rfl⟩ := Site.definition?_type_iff.mp hc
        exact .type hi hp hj hq hlt (Sum.inr.inj hkey)

/-! ## Sites in order -/

def File.sites (f : File) (i : Nat) : List Site :=
  .file i :: (f.places fun _ => true).map (.type i)

def sites (files : List File) : List Site := files.zipIdx.flatMap fun p => p.1.sites p.2

theorem File.map_definition?_sites {f : File} {i : Nat} (hi : files[i]? = some f) :
    (f.sites i).map (Site.definition? files) = f.definitions.map some := by
  have htype : (Site.definition? files) ∘ (Site.type i) = Option.map .type ∘ f.entryAt? := by
    funext p
    simp [Site.definition?, hi]
  rw [sites, definitions, List.map_cons, List.map_cons, List.map_map, htype, ← List.map_map,
    f.map_entryAt?_places]
  simp [Site.definition?, hi, Function.comp_def]

theorem map_definition?_sites (files : List File) :
    (sites files).map (Site.definition? files) = (files.flatMap File.definitions).map some := by
  have hfiles : files.flatMap File.definitions = files.zipIdx.flatMap fun p => p.1.definitions := by
    rw [← List.flatMap_map Prod.fst, List.zipIdx_map_fst]
  rw [hfiles, sites, List.map_flatMap, List.map_flatMap]
  exact List.flatMap_congr fun p hp =>
    File.map_definition?_sites (List.mem_zipIdx_iff_getElem?.mp hp)

theorem File.sites_sorted (f : File) (i : Nat) : (f.sites i).Pairwise Site.Before := by
  refine List.pairwise_cons.mpr ⟨fun a ha => ?_, List.pairwise_map.mpr ?_⟩
  · obtain ⟨p, -, rfl⟩ := List.mem_map.mp ha
    exact Nat.le_refl i
  · exact f.places_sorted.imp fun h => .inr ⟨rfl, h⟩

/-- The number of the file that the site is in. -/
def Site.index : Site → Nat
  | .file i => i
  | .type i _ => i

theorem Site.before_of_index_lt {a b : Site} (h : a.index < b.index) : a.Before b := by
  cases a with
  | file i =>
    cases b with
    | file j => exact h
    | type j q => exact Nat.le_of_lt h
  | type i p =>
    cases b with
    | file j => exact h
    | type j q => exact .inl h

theorem File.index_of_mem_sites {f : File} {i : Nat} (ha : a ∈ f.sites i) : a.index = i := by
  rcases List.mem_cons.mp ha with rfl | ha
  · rfl
  · obtain ⟨p, -, rfl⟩ := List.mem_map.mp ha
    rfl

theorem sites_sorted (files : List File) : (sites files).Pairwise Site.Before := by
  have hindex : files.zipIdx.Pairwise fun p q => p.2 < q.2 := by
    rw [← List.pairwise_map (R := (· < ·)), List.zipIdx_map_snd]
    exact List.pairwise_lt_range'
  refine List.pairwise_flatMap.mpr ⟨fun p _ => p.1.sites_sorted p.2, hindex.imp ?_⟩
  intro p q hlt a ha b hb
  rw [← File.index_of_mem_sites ha, ← File.index_of_mem_sites hb] at hlt
  exact Site.before_of_index_lt hlt

theorem mem_sites (h : a.definition? files = some d) : a ∈ sites files := by
  cases a with
  | file i =>
    obtain ⟨f, hi, -⟩ := Site.definition?_file_iff.mp h
    exact List.mem_flatMap.mpr
      ⟨(f, i), List.mem_zipIdx_iff_getElem?.mpr hi, List.mem_cons_self⟩
  | type i p =>
    obtain ⟨f, s, b, hi, hp, -⟩ := Site.definition?_type_iff.mp h
    have hplace := File.mem_places_of_eq_some hp
    exact List.mem_flatMap.mpr ⟨(f, i), List.mem_zipIdx_iff_getElem?.mpr hi,
      List.mem_cons_of_mem _ (List.mem_map_of_mem hplace)⟩

/-! ## The first clash -/

/-- Where definitions at the beginning have keys of their own, no site of theirs clashes. -/
theorem not_clashes_of_nodup {as bs : List Site} {pre : List Definition}
    (hsites : sites files = as ++ bs) (hdefs : as.map (Site.definition? files) = pre.map some)
    (hnodup : (pre.map Definition.key).Nodup) (ha : a ∈ as) (e : Error) : ¬ Clashes files a e := by
  intro h
  obtain ⟨d, c, first, hd, hfirst, hlt, hkey, -⟩ := clashes_iff.mp h
  exact key_ne_of_before (hsites ▸ sites_sorted files) hdefs hnodup ha (hsites ▸ mem_sites hfirst)
    hlt hd hfirst hkey

theorem exists_first_clash {e : Error} (h : ofFiles files = .error e) :
    ∃ a, StopsFirst Site.Before (Clashes files) a e := by
  have hclash : clash? [] (files.flatMap File.definitions) = some e := by
    unfold ofFiles at h
    split at h
    · next e' he =>
      cases h
      exact he
    · cases h
  obtain ⟨pre, d, post, first, hdefs, hpre, hfirst, hkey, rfl⟩ :=
    exists_of_clash?_eq_some hclash
  obtain ⟨as, a, bs, hsites, has, ha⟩ :=
    exists_split_of_map_eq (hdefs ▸ map_definition?_sites files)
  obtain ⟨c, hc, hcdef⟩ : ∃ c ∈ as, c.definition? files = some first := by
    have hmem := hfirst.resolve_left List.not_mem_nil
    have hsome : some first ∈ as.map (Site.definition? files) := has ▸ List.mem_map_of_mem hmem
    exact List.mem_map.mp hsome
  have hsorted := hsites ▸ sites_sorted files
  refine ⟨a, clashes_iff.mpr ⟨d, c, first, ha, hcdef, before_of_mem hsorted hc, hkey, rfl⟩, ?_⟩
  intro b e hb hlt
  obtain ⟨d', -, -, hd', -⟩ := clashes_iff.mp hb
  have hbmem : b ∈ as := mem_of_before hsorted (hsites ▸ mem_sites hd') hlt
  exact not_clashes_of_nodup hsites has (clash?_eq_none_iff.mp hpre).2 hbmem e hb

/-- What the first clash is with had its name before anything else. -/
theorem first_clash_unique {e e' : Error} (h : StopsFirst Site.Before (Clashes files) a e)
    (h' : StopsFirst Site.Before (Clashes files) a e') : e = e' := by
  obtain ⟨d, c, first, hd, hc, hlt, hkey, rfl⟩ := clashes_iff.mp h.stop
  obtain ⟨d', c', first', hd', hc', hlt', hkey', rfl⟩ := clashes_iff.mp h'.stop
  obtain rfl : d = d' := Option.some.inj (hd.symm.trans hd')
  have hnot : ¬ c.Before c' := fun hbefore => h.first c' _
    (clashes_iff.mpr ⟨first', c, first, hc', hc, hbefore, hkey.trans hkey'.symm, rfl⟩) hlt'
  have hnot' : ¬ c'.Before c := fun hbefore => h.first c _
    (clashes_iff.mpr ⟨first, c', first', hc, hc', hbefore, hkey'.trans hkey.symm, rfl⟩) hlt
  obtain rfl : c = c' := Std.Trichotomous.trichotomous c c' hnot hnot'
  obtain rfl : first = first' := Option.some.inj (hc.symm.trans hc')
  rfl

/-! ## Unambiguous files -/

/-- Files and types have names of their own. A file without a name counts as one with the empty
name. -/
structure Unambiguous (files : List File) : Prop where
  names : (files.map File.name).Nodup
  types : ∀ (i j : Nat) (f g : File) (p q : Place) (s t : Scope) (b c : Node.Body),
    files[i]? = some f → f.typeAt? p = some (s, b) →
    files[j]? = some g → g.typeAt? q = some (t, c) →
    s.fullName f.package = t.fullName g.package → i = j ∧ p = q

theorem index_eq_of_name_eq (h : (files.map File.name).Nodup) {i j : Nat} {f g : File}
    (hi : files[i]? = some f) (hj : files[j]? = some g) (hname : f.name = g.name) : i = j := by
  have hlt : i < (files.map File.name).length := by
    rw [List.length_map]
    exact (List.getElem?_eq_some_iff.mp hi).1
  refine (List.getElem?_inj hlt h).mp ?_
  rw [List.getElem?_map, List.getElem?_map, hi, hj, Option.map_some, Option.map_some, hname]

theorem Indexes.unambiguous {ix : Index} (h : Indexes files ix) : Unambiguous files where
  names := h.names_nodup
  types i j f g p q s t b c hi hp hj hq hname := by
    obtain ⟨rfl, rfl⟩ :=
      h.type_unique (List.mem_of_getElem? hi) (List.mem_of_getElem? hj) hp hq hname
    exact ⟨index_eq_of_name_eq h.names_nodup hi hj rfl, rfl⟩

theorem Unambiguous.not_clashes (h : Unambiguous files) (a : Site) (e : Error) :
    ¬ Clashes files a e := by
  intro hclash
  cases hclash with
  | file hi hj hlt hname =>
    obtain rfl := index_eq_of_name_eq h.names hi hj hname.symm
    exact Nat.lt_irrefl _ hlt
  | type hi hp hj hq hlt hname =>
    obtain ⟨rfl, rfl⟩ := h.types _ _ _ _ _ _ _ _ _ _ hi hp hj hq hname.symm
    exact Std.Asymm.asymm _ _ hlt hlt

theorem Index.ofFiles_fails_at_first_clash (files : List File) :
    ((∃ ix, ofFiles files = .ok ix) ↔ Unambiguous files) ∧
      ∀ e, ofFiles files = .error e ↔ ∃ a, StopsFirst Site.Before (Clashes files) a e := by
  refine ⟨⟨?_, fun h => ?_⟩, fun e => ?_⟩
  · rintro ⟨ix, hix⟩
    exact (ofFiles_eq_ok_iff.mp hix).unambiguous
  · cases hix : ofFiles files with
    | ok ix => exact ⟨ix, rfl⟩
    | error e =>
      obtain ⟨a, ha⟩ := exists_first_clash hix
      exact absurd ha.stop (h.not_clashes a e)
  · refine fails_iff_stopsFirst (fun hnone a e => ?_) (fun e => exists_first_clash)
      (fun a e e' => first_clash_unique) e
    cases hix : ofFiles files with
    | ok ix => exact (ofFiles_eq_ok_iff.mp hix).unambiguous.not_clashes a e
    | error e' => exact absurd hix (hnone e')

/-- One full name may be parted into a package and a scope in two ways. -/
example : Index.ofFiles [
    { name? := some "a.proto", package? := some "a"
      messages := [{ name? := some "B", nested := [{ name? := some "C" }] }] },
    { name? := some "b.proto", package? := some "a.B"
      messages := [{ name? := some "D" }], enums := [{ name? := some "C" }] }] =
    .error (.duplicateType "a.B.C" "a.proto" "b.proto") := by
  rfl

end ProtoTypings

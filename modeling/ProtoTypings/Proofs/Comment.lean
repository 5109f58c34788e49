import Mathlib.Data.List.DropRight
import ProtoTypings.Proofs.Doc
import ProtoTypings.Proofs.Path
import ProtoTypings.Proofs.Uncommented

/-!
# Comments reach their parts

Of the locations with a path, the last one that says something that is not blank counts
(`File.CommentAt`), and `File.Documented` is the documentation that comes of it. A projection
documents each declaration, member and constant as the part of the file that it comes from
(`Declaration.Documents`). Since no two parts share a path, what is said at one path documents one
part at most (`File.comments_reach_their_parts`).
-/

namespace ProtoTypings

open Index

/-! ## Blank comments -/

namespace Text

def IsBlank (s : String) : Prop := ∀ c ∈ s.toList, isBlank c = true

theorem dropWhile_ends_eq_nil_iff {α : Type} {p : α → Bool} {l : List α} :
    ((l.dropWhile p).reverse.dropWhile p).reverse = [] ↔ ∀ a ∈ l, p a = true := by
  constructor
  · intro h
    have hrest : ∀ a ∈ l.dropWhile p, p a = true := fun a ha =>
      List.dropWhile_eq_nil_iff.mp (List.reverse_eq_nil_iff.mp h) a (List.mem_reverse.mpr ha)
    rw [← List.dropWhile_eq_nil_iff, ← List.dropWhile_idempotent]
    exact List.dropWhile_eq_nil_iff.mpr hrest
  · intro h
    rw [List.dropWhile_eq_nil_iff.mpr h]
    rfl

/-- What holds of the separator holds of a text as soon as it holds of its segments. -/
theorem forall_mem_split_iff {sep : Char} {cs : List Char} {P : Char → Prop} (hsep : P sep) :
    (∀ s ∈ split sep cs, ∀ c ∈ s, P c) ↔ ∀ c ∈ cs, P c := by
  refine ⟨fun h => ?_, fun h s hs c hc => h c (mem_of_mem_split hs c hc).2⟩
  induction cs with
  | nil => exact List.forall_mem_nil _
  | cons d cs ih =>
    rw [split] at h
    split at h
    · next hd =>
      exact List.forall_mem_cons.mpr ⟨hd ▸ hsep, ih (List.forall_mem_cons.mp h).2⟩
    · cases hs : split sep cs with
      | nil => exact absurd hs (split_ne_nil sep cs)
      | cons s ss =>
        rw [hs] at h ih
        obtain ⟨hfirst, hrest⟩ := List.forall_mem_cons.mp h
        obtain ⟨hd, hfirst⟩ := List.forall_mem_cons.mp hfirst
        exact List.forall_mem_cons.mpr ⟨hd, ih (List.forall_mem_cons.mpr ⟨hfirst, hrest⟩)⟩

end Text

theorem Doc.lines_eq_nil_iff {comment : String} : lines comment = [] ↔ Text.IsBlank comment := by
  have hlines : lines comment = [] ↔
      ∀ s ∈ Text.split '\n' comment.toList, (Text.trim s).isEmpty = true := by
    rw [lines, normalLines, List.map_eq_nil_iff, List.map_eq_nil_iff, dropEmptyEnds,
      Text.dropWhile_ends_eq_nil_iff, List.forall_mem_map]
  have htrim (s : List Char) :
      (Text.trim s).isEmpty = true ↔ ∀ c ∈ s, Text.isBlank c = true := by
    rw [List.isEmpty_iff, ← Text.dropWhile_ends_eq_nil_iff]
    rfl
  simp only [hlines, htrim]
  exact Text.forall_mem_split_iff (P := (Text.isBlank · = true)) rfl

/-! ## The comment that counts -/

/-- The comment of the location, which is not blank: the leading one, or the trailing one if there
is no leading one at all. -/
def Location.Says (loc : Location) (comment : String) : Prop :=
  (loc.leading? = some comment ∨ loc.leading? = none ∧ loc.trailing? = some comment) ∧
    ¬ Text.IsBlank comment

theorem Location.says_iff {loc : Location} {comment : String} :
    loc.Says comment ↔
      (loc.leading? <|> loc.trailing?) = some comment ∧ ¬ Text.IsBlank comment := by
  unfold Says
  cases loc.leading? <;> simp

theorem Location.Says.docLines_eq {loc : Location} {comment : String} (h : loc.Says comment) :
    loc.docLines = Doc.lines comment := by
  rw [docLines, (says_iff.mp h).1]

theorem Location.Says.eq {loc : Location} {comment comment' : String} (h : loc.Says comment)
    (h' : loc.Says comment') : comment = comment' :=
  Option.some.inj ((says_iff.mp h).1.symm.trans (says_iff.mp h').1)

theorem Location.docLines_ne_nil_iff {loc : Location} :
    loc.docLines ≠ [] ↔ ∃ comment, loc.Says comment := by
  constructor
  · intro h
    cases hc : loc.leading? <|> loc.trailing? with
    | none => exact absurd (by rw [docLines, hc]) h
    | some comment =>
      have hlines : loc.docLines = Doc.lines comment := by rw [docLines, hc]
      exact ⟨comment, says_iff.mpr ⟨hc, mt Doc.lines_eq_nil_iff.mpr (hlines ▸ h)⟩⟩
  · rintro ⟨comment, h⟩
    rw [h.docLines_eq]
    exact mt Doc.lines_eq_nil_iff.mp h.2

namespace File

/-- The last location with the path to say something says `comment`. -/
def CommentAt (f : File) (path : List Int32) (comment : String) : Prop :=
  ∃ before loc after, f.locations = before ++ loc :: after ∧ loc.path = path ∧
    loc.Says comment ∧ ∀ l ∈ after, l.path = path → ∀ c, ¬ l.Says c

/-- The documentation of what is at the path. -/
inductive Documented (f : File) (path : List Int32) (isDeprecated : Bool) : List String → Prop where
  | comment {comment : String} : f.CommentAt path comment →
      Documented f path isDeprecated (Doc.mark isDeprecated (Doc.lines comment))
  | none : (∀ comment, ¬ f.CommentAt path comment) →
      Documented f path isDeprecated (Doc.mark isDeprecated [])

/-- The last location with the path to say something. -/
def lastLocation? (f : File) (path : List Int32) : Option Location :=
  f.locations.reverse.find? fun loc => !loc.docLines.isEmpty && loc.path == path

section

variable {f : File} {path : List Int32} {isDeprecated : Bool}

theorem docLines_eq_lastLocation? (f : File) (path : List Int32) :
    f.docLines path = ((f.lastLocation? path).map Location.docLines).getD [] := by
  rw [lastLocation?, ← List.getLast?_filter, ← List.getLast?_map, ← List.filter_filter]
  show ((((f.locations.filter (·.path == path)).map Location.docLines).filter
    (!·.isEmpty)).getLast?).getD [] = _
  rw [List.filter_map]
  rfl

theorem lastLocation?_eq_some_iff {loc : Location} :
    f.lastLocation? path = some loc ↔
      (∃ comment, loc.Says comment) ∧ ∃ before after, f.locations = before ++ loc :: after ∧
        loc.path = path ∧ ∀ l ∈ after, l.path = path → ∀ c, ¬ l.Says c := by
  have hcounts (l : Location) : (!l.docLines.isEmpty && l.path == path) = true ↔
      (∃ comment, l.Says comment) ∧ l.path = path := by
    simp [← Location.docLines_ne_nil_iff]
  have hskips (l : Location) : (!(!l.docLines.isEmpty && l.path == path)) = true ↔
      (l.path = path → ∀ c, ¬ l.Says c) := by
    rw [Bool.not_eq_true', ← Bool.not_eq_true, hcounts]
    exact ⟨fun h hpath c hc => h ⟨⟨c, hc⟩, hpath⟩, fun h ⟨⟨c, hc⟩, hpath⟩ => h hpath c hc⟩
  rw [lastLocation?, List.find?_eq_some_iff_append, hcounts, and_assoc]
  refine and_congr_right fun _ => ?_
  constructor
  · rintro ⟨hpath, after, before, hlocs, hafter⟩
    refine ⟨before.reverse, after.reverse, ?_, hpath, fun l hl => ?_⟩
    · rw [← List.reverse_reverse f.locations, hlocs]
      simp
    · exact (hskips l).mp (hafter l (List.mem_reverse.mp hl))
  · rintro ⟨before, after, hlocs, hpath, hafter⟩
    refine ⟨hpath, after.reverse, before.reverse, by simp [hlocs], fun l hl => ?_⟩
    exact (hskips l).mpr (hafter l (List.mem_reverse.mp hl))

theorem commentAt_iff {comment : String} :
    f.CommentAt path comment ↔ ∃ loc, f.lastLocation? path = some loc ∧ loc.Says comment := by
  simp only [lastLocation?_eq_some_iff]
  constructor
  · rintro ⟨before, loc, after, hlocs, hpath, hloc, hafter⟩
    exact ⟨loc, ⟨⟨comment, hloc⟩, before, after, hlocs, hpath, hafter⟩, hloc⟩
  · rintro ⟨loc, ⟨-, before, after, hlocs, hpath, hafter⟩, hloc⟩
    exact ⟨before, loc, after, hlocs, hpath, hloc, hafter⟩

theorem CommentAt.eq {comment comment' : String} (h : f.CommentAt path comment)
    (h' : f.CommentAt path comment') : comment = comment' := by
  obtain ⟨loc, hloc, hsaid⟩ := commentAt_iff.mp h
  obtain ⟨loc', hloc', hsaid'⟩ := commentAt_iff.mp h'
  obtain rfl : loc = loc' := Option.some.inj (hloc.symm.trans hloc')
  exact hsaid.eq hsaid'

theorem Documented.eq {doc doc' : List String} (h : f.Documented path isDeprecated doc)
    (h' : f.Documented path isDeprecated doc') : doc = doc' := by
  cases h with
  | comment hc =>
    cases h' with
    | comment hc' => rw [hc.eq hc']
    | none hno => exact absurd hc (hno _)
  | none hno =>
    cases h' with
    | comment hc' => exact absurd hc' (hno _)
    | none _ => rfl

theorem documented_doc (f : File) (path : List Int32) (isDeprecated : Bool) :
    f.Documented path isDeprecated (f.doc path isDeprecated) := by
  rw [doc, docLines_eq_lastLocation?]
  cases h : f.lastLocation? path with
  | none =>
    refine .none fun comment hc => ?_
    obtain ⟨loc, hloc, -⟩ := commentAt_iff.mp hc
    exact Option.some_ne_none loc (hloc.symm.trans h)
  | some loc =>
    obtain ⟨⟨comment, hsaid⟩, -⟩ := lastLocation?_eq_some_iff.mp h
    rw [Option.map_some, Option.getD_some, hsaid.docLines_eq]
    exact .comment (commentAt_iff.mpr ⟨loc, h, hsaid⟩)

theorem documented_iff {doc : List String} :
    f.Documented path isDeprecated doc ↔ doc = f.doc path isDeprecated :=
  ⟨fun h => h.eq (f.documented_doc path isDeprecated),
    fun h => h ▸ f.documented_doc path isDeprecated⟩

end

end File

/-! ## Documentation of declarations -/

/-- The documentation of a declaration is that of the type `b` at the place `p`, and that of its
members or constants belongs to the fields or values of the type one by one. -/
structure Declaration.Documents {ρ : Type} (f : File) (p : Place) (b : Node.Body)
    (d : Declaration ρ) : Prop where
  type : f.Documented (Part.type p).path b.isDeprecated d.doc
  items : List.Forall₂ (fun m doc => f.Documented (Part.item p m.2).path m.1 doc)
    b.marks.zipIdx d.body.docs

namespace File

variable {f : File} {ix : Index} {n : Node} {t : Typings}

theorem docs_of_declaration {d : Declaration Entry} (h : f.declaration ix n = .ok d) :
    d.doc = f.doc n.path n.body.isDeprecated ∧
      d.body.docs = n.body.marks.zipIdx.map fun m => f.doc (n.path ++ [2, .ofNat m.2]) m.1 := by
  cases hb : n.body with
  | message m =>
    obtain ⟨ms, hms, rfl⟩ := (declaration_message_iff hb).mp h
    refine ⟨rfl, ?_⟩
    have hdocs : List.Forall₂ (fun q mem =>
        f.doc (n.path ++ [2, .ofNat q.2]) q.1.isDeprecated = mem.doc) m.fields.zipIdx ms :=
      (members_eq_ok_iff.mp hms).imp fun q mem hmem => by
        obtain ⟨t, -, rfl⟩ := member_eq_ok_iff.mp hmem
        rfl
    rw [Node.Body.marks, List.zipIdx_map, List.map_map]
    exact (forall₂_eq_iff.mp hdocs).symm
  | enum e =>
    obtain rfl := (declaration_enum_iff hb).mp h
    refine ⟨rfl, List.ext_getElem (by simp [Declaration.Body.docs, Node.Body.marks]) ?_⟩
    intro i _ _
    simp [Declaration.Body.docs, Node.Body.marks, constant]

theorem documents_of_declaration {p : Place} {d : Declaration Entry}
    (hpath : n.path = (Part.type p).path) (h : f.declaration ix n = .ok d) :
    d.Documents f p n.body := by
  obtain ⟨hdoc, hitems⟩ := docs_of_declaration h
  refine ⟨documented_iff.mpr (hpath ▸ hdoc), ?_⟩
  rw [hitems, List.forall₂_map_right_iff, List.forall₂_same]
  intro m _
  rw [Part.path_item, ← hpath, documented_iff]

/-- A declaration for each place at which a type is declared, made under the path of the place. -/
theorem forall₂_paths_declarations {ds : List (Declaration Entry)}
    (h : f.declarations ix = .ok ds) :
    List.Forall₂ (fun p d => ∃ n, f.declaredAt? p = some n.content ∧
        n.path = (Part.type p).path ∧ f.declaration ix n = .ok d)
      (f.places fun m => !m.isMapEntry) ds :=
  forall₂_trans (fun _ n _ hp hd => ⟨n, hp.1, hp.2, hd⟩) f.forall₂_places_paths
    (declarations_eq_ok_iff.mp h).1

end File

theorem Declaration.Documents.rename {ρ σ : Type} {f : File} {p : Place} {b : Node.Body}
    {d : Declaration ρ} (h : d.Documents f p b) (g : ρ → σ) : (d.rename g).Documents f p b := by
  have hdocs := List.cons.inj (d.docs_rename g)
  exact ⟨h.type, hdocs.2 ▸ h.items⟩

/-! ## One part for each piece of documentation -/

namespace File

variable {f g : File} {ix : Index} {t : Typings} {path : List Int32}

/-- The type at a place and then its fields or values. -/
def partsAt (f : File) (p : Place) : List Part :=
  match f.declaredAt? p with
  | none => []
  | some (_, b) => .type p :: (List.range b.marks.length).map (.item p)

/-- The parts that are declared, in the order in which they are. -/
def parts (f : File) : List Part := (f.places fun m => !m.isMapEntry).flatMap f.partsAt

/-- Whether the part is deprecated, if it is declared. -/
def mark? (f : File) : Part → Option Bool
  | .type p => (f.declaredAt? p).map (·.2.isDeprecated)
  | .item p k => (f.declaredAt? p).bind (·.2.marks[k]?)

def docOf (f : File) (x : Part) : List String := f.doc x.path ((f.mark? x).getD false)

theorem docs_eq_map_docOf {p : Place} {n : Node} {d : Declaration Entry}
    (hp : f.declaredAt? p = some n.content) (hpath : n.path = (Part.type p).path)
    (h : f.declaration ix n = .ok d) : d.docs = (f.partsAt p).map f.docOf := by
  obtain ⟨hdoc, hitems⟩ := docs_of_declaration h
  rw [Declaration.docs, hdoc, hitems, partsAt, hp, Node.content]
  refine List.cons_eq_cons.mpr ⟨by simp [docOf, mark?, hp, hpath, Node.content], ?_⟩
  apply List.ext_getElem
  · simp
  · intro k _ hk
    simp only [List.length_map, List.length_range] at hk
    simp [docOf, mark?, hp, hpath, Node.content, Part.path_item, hk]

theorem docs_eq_map_parts (h : f.typings ix = .ok t) : t.docs = f.parts.map f.docOf := by
  obtain ⟨ds, hds, rfl⟩ := typings_eq_ok_iff.mp h
  have hall : List.Forall₂ (fun p d => (f.partsAt p).map f.docOf = d.docs)
      (f.places fun m => !m.isMapEntry) ds :=
    (forall₂_paths_declarations hds).imp fun p d ⟨n, hp, hpath, hd⟩ =>
      (docs_eq_map_docOf hp hpath hd).symm
  have hdocs : (f.assemble ds).docs = (ds.map (·.docs)).flatten := by
    rw [Typings.docs, assemble, List.flatMap_map, List.flatMap_def]
    simp only [Declaration.docs_rename]
  rw [hdocs, ← forall₂_eq_iff.mp hall, parts, List.map_flatMap, List.flatMap_def]

theorem mem_partsAt {p : Place} {x : Part} (h : x ∈ f.partsAt p) :
    x.place = p ∧ f.HasPart x := by
  unfold partsAt at h
  split at h
  · cases h
  · next s b hp =>
    have htype := typeAt?_of_declaredAt? hp
    rcases List.mem_cons.mp h with rfl | h
    · exact ⟨rfl, s, b, htype⟩
    · obtain ⟨k, hk, rfl⟩ := List.mem_map.mp h
      exact ⟨rfl, s, b, htype, List.mem_range.mp hk⟩

theorem hasPart_of_mem_parts {x : Part} (h : x ∈ f.parts) : f.HasPart x := by
  obtain ⟨p, -, hx⟩ := List.mem_flatMap.mp h
  exact (mem_partsAt hx).2

theorem nodup_partsAt (f : File) (p : Place) : (f.partsAt p).Nodup := by
  unfold partsAt
  split
  · exact List.nodup_nil
  · refine List.nodup_cons.mpr ⟨by simp, List.nodup_range.map fun i j h => ?_⟩
    exact (Part.item.inj h).2

theorem nodup_parts (f : File) : f.parts.Nodup := by
  refine List.nodup_flatMap.mpr ⟨fun p _ => f.nodup_partsAt p, f.places_sorted.imp ?_⟩
  intro p q hlt x hp hq
  obtain rfl : p = q := (mem_partsAt hp).1.symm.trans (mem_partsAt hq).1
  exact Std.Asymm.asymm _ _ hlt hlt

theorem Short.nodup_paths (h : f.Short) : (f.parts.map Part.path).Nodup :=
  f.nodup_parts.map_on fun _ hx _ hy =>
    h.eq_of_path_eq (hasPart_of_mem_parts hx) (hasPart_of_mem_parts hy)

/-! ## Other comments at one path -/

/-- `g` is `f` with other locations for one path. -/
def DiffersAt (path : List Int32) (f g : File) : Prop :=
  ∃ locations, g = { f with locations? := locations } ∧
    g.locations.filter (·.path ≠ path) = f.locations.filter (·.path ≠ path)

theorem DiffersAt.doc_eq (h : f.DiffersAt path g) {path' : List Int32} (hne : path' ≠ path)
    (isDeprecated : Bool) : g.doc path' isDeprecated = f.doc path' isDeprecated := by
  obtain ⟨locations, -, hlocations⟩ := h
  have hfilter (ls : List Location) : ls.filter (·.path == path') =
      (ls.filter (·.path ≠ path)).filter (·.path == path') := by
    rw [List.filter_filter]
    refine List.filter_congr fun loc _ => ?_
    by_cases hloc : loc.path = path'
    · simp [hloc, hne]
    · simp [hloc]
  rw [doc, doc, docLines, docLines, hfilter g.locations, hlocations, ← hfilter]

theorem DiffersAt.docOf_eq (h : f.DiffersAt path g) {x : Part} (hx : x.path ≠ path) :
    g.docOf x = f.docOf x := by
  obtain ⟨locations, rfl, -⟩ := id h
  have hmark : mark? { f with locations? := locations } x = f.mark? x := by cases x <;> rfl
  rw [docOf, docOf, hmark, h.doc_eq hx]

theorem DiffersAt.parts_eq (h : f.DiffersAt path g) : g.parts = f.parts := by
  obtain ⟨locations, rfl, -⟩ := h
  rfl

/-- Everything but documentation stays as it is. -/
theorem DiffersAt.typings (h : f.DiffersAt path g) (ht : f.typings ix = .ok t) :
    ∃ t', g.typings ix = .ok t' ∧ t'.undocumented = t.undocumented := by
  obtain ⟨locations, rfl, -⟩ := h
  have hf := f.typings_uncommented ix
  have hg := typings_uncommented { f with locations? := locations } ix
  have hsame : ({ f with locations? := locations } : File).uncommented = f.uncommented := rfl
  rw [hsame, hf, ht] at hg
  exact Outcome.map_eq_ok_iff.mp hg.symm

/-- Of all documentation, only that of the part with the path may change. -/
theorem DiffersAt.docs (h : f.DiffersAt path g) (hshort : f.Short) {t' : Typings}
    (ht : f.typings ix = .ok t) (ht' : g.typings ix = .ok t') :
    ∃ i : Nat, ∀ j ≠ i, t'.docs[j]? = t.docs[j]? := by
  rw [docs_eq_map_parts ht, docs_eq_map_parts ht', h.parts_eq]
  have hsame {j : Nat} (hj : ∀ x, f.parts[j]? = some x → x.path ≠ path) :
      (f.parts.map g.docOf)[j]? = (f.parts.map f.docOf)[j]? := by
    rw [List.getElem?_map, List.getElem?_map]
    cases hx : f.parts[j]? with
    | none => rfl
    | some x => exact congrArg some (h.docOf_eq (hj x hx))
  by_cases hpart : ∃ (i : Nat) (x : Part), f.parts[i]? = some x ∧ x.path = path
  · obtain ⟨i, x, hi, hx⟩ := hpart
    refine ⟨i, fun j hne => hsame fun y hj hy => hne ?_⟩
    have hlt : i < (f.parts.map Part.path).length := by
      rw [List.length_map]
      exact lt_length_of_getElem? hi
    refine ((List.getElem?_inj hlt hshort.nodup_paths).mp ?_).symm
    rw [List.getElem?_map, List.getElem?_map, hi, hj, Option.map_some, Option.map_some, hx, hy]
  · exact ⟨0, fun j _ => hsame fun x hj hx => hpart ⟨j, x, hj, hx⟩⟩

theorem comments_reach_their_parts (f : File) (ix : Index) :
    (∀ t, f.typings ix = .ok t → ∃ ps : List Place, ps.Pairwise Place.Before ∧
      (∀ p, p ∈ ps ↔ (f.declaredAt? p).isSome) ∧
      List.Forall₂ (fun p d => ∃ s b, f.declaredAt? p = some (s, b) ∧ d.name = s.flatName ∧
        d.Documents f p b) ps t.declarations) ∧
    (f.Short →
      (∀ x y, f.HasPart x → f.HasPart y → x.path = y.path → x = y) ∧
      ∀ path g t, f.DiffersAt path g → f.typings ix = .ok t →
        ∃ t', g.typings ix = .ok t' ∧ t'.undocumented = t.undocumented ∧
          ∃ i : Nat, ∀ j ≠ i, t'.docs[j]? = t.docs[j]?) := by
  refine ⟨fun t ht => ?_, fun hshort => ⟨fun x y hx hy => hshort.eq_of_path_eq hx hy, ?_⟩⟩
  · obtain ⟨ds, hds, rfl⟩ := typings_eq_ok_iff.mp ht
    refine ⟨_, f.places_sorted, fun p => mem_places, List.forall₂_map_right_iff.mpr ?_⟩
    refine (forall₂_paths_declarations hds).imp ?_
    rintro p d ⟨n, hp, hpath, hd⟩
    exact ⟨n.scope, n.body, hp, (declaration_names hd).1,
      (documents_of_declaration hpath hd).rename _⟩
  · intro path g t hg ht
    obtain ⟨t', ht', hundocumented⟩ := hg.typings ht
    exact ⟨t', ht', hundocumented, hg.docs hshort ht ht'⟩

end File

namespace Sample

/-- The entry of the map is not declared, but `Row` keeps the index behind it. -/
def ledger : File where
  name? := some "ledger.proto"
  messages := [{
    name? := some "Ledger"
    fields := [
      { name? := some "rows", number? := some 1, label? := some 3, kind? := some 11
        typeName? := some ".Ledger.RowsEntry" }]
    nested := [
      { name? := some "RowsEntry"
        fields := [
          { name? := some "key", number? := some 1, kind? := some 9 },
          { name? := some "value", number? := some 2, kind? := some 11
            typeName? := some ".Ledger.Row" }]
        options? := some { ofMap? := some true } },
      { name? := some "Row"
        fields := [{ name? := some "note", number? := some 1, kind? := some 9 }]
        options? := some { deprecated? := some true } }]
    enums := [{ name? := some "Kind", values := [{ name? := some "PLAIN" }] }] }]
  locations? := some [
    { path := [4, 0, 3, 1], leading? := some " Superseded." },
    { path := [4, 0, 3, 1], leading? := some " A row.\n" },
    { path := [4, 0, 3, 1], leading? := some " \n", trailing? := some "Never looked at." },
    { path := [4, 0, 3, 0], leading? := some "Of nothing that is declared." },
    { path := [4, 0, 4, 0, 2, 0], trailing? := some "No kind." }]

def ledgerIndex : Index where
  files := [ledger]
  entries := ledger.entries

def ledgerTypings : Typings where
  file := "ledger.proto"
  package := ""
  level := "proto2"
  imports := []
  declarations := [
    { name := "Ledger", fullName := "Ledger", doc := []
      body := .interface [
        { name := "rows", type := .map .string (.reference "Ledger$Row"), doc := []
          oneof := none }] },
    { name := "Ledger$Row", fullName := "Ledger.Row", doc := ["A row.", "", "@deprecated"]
      body := .interface [{ name := "note", type := .string, doc := [], oneof := none }] },
    { name := "Ledger$Kind", fullName := "Ledger.Kind", doc := []
      body := .enum [{ name := "PLAIN", value := 0, doc := ["No kind."] }] }]

def revisedLedger : File :=
  { ledger with
    locations? := some [
      { path := [4, 0, 3, 0], leading? := some "Of nothing that is declared." },
      { path := [4, 0, 3, 1], trailing? := some "Another row." },
      { path := [4, 0, 4, 0, 2, 0], trailing? := some "No kind." }] }

theorem ledger_comments :
    ledger.typings ledgerIndex = .ok ledgerTypings ∧
    (∃ ps : List Place, ps.Pairwise Place.Before ∧
      (∀ p, p ∈ ps ↔ (ledger.declaredAt? p).isSome) ∧
      List.Forall₂ (fun p d => ∃ s b, ledger.declaredAt? p = some (s, b) ∧
        d.name = s.flatName ∧ d.Documents ledger p b) ps ledgerTypings.declarations) ∧
    ledger.Short ∧
    (∀ x, ledger.HasPart x → x.path = [4, 0, 3, 1] → x = .type [.message 0, .message 1]) ∧
    ledger.DiffersAt [4, 0, 3, 1] revisedLedger ∧
    ∃ t', revisedLedger.typings ledgerIndex = .ok t' ∧
      t'.undocumented = ledgerTypings.undocumented ∧
      ∃ i : Nat, ∀ j ≠ i, t'.docs[j]? = ledgerTypings.docs[j]? := by
  have ht : ledger.typings ledgerIndex = .ok ledgerTypings := by rfl
  have hshort : ledger.Short := by decide
  have hdiffers : ledger.DiffersAt [4, 0, 3, 1] revisedLedger := ⟨_, rfl, by decide⟩
  have hrow : ledger.HasPart (.type [.message 0, .message 1]) := ⟨_, _, rfl⟩
  obtain ⟨hdocs, hdistinct⟩ := ledger.comments_reach_their_parts ledgerIndex
  obtain ⟨hpaths, hchange⟩ := hdistinct hshort
  exact ⟨ht, hdocs _ ht, hshort, fun x hx hpath => hpaths x _ hx hrow hpath, hdiffers,
    hchange _ _ _ hdiffers ht⟩

end Sample

end ProtoTypings

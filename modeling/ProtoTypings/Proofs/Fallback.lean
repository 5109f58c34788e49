import ProtoTypings.Proofs.Comment

/-!
# Trailing comments in place of leading ones

A location offers the comment that would count if blank comments were none: the leading one, or else
the trailing one (`Location.Offers`). A part keeps its comment if its documentation is what the last
location offers (`File.Keeps`). A trailing comment beside a blank leading one is lost, though
(`Location.Loses`), since a blank comment counts as leading; this is the only way in which a part
can fail to keep its comment (`File.keeps_iff`).
-/

namespace ProtoTypings

open Index

/-! ## The last of a list -/

section Last

variable {α : Type} {p : α → Prop} {l : List α}

theorem exists_last (h : ∃ a ∈ l, p a) :
    ∃ before a after, l = before ++ a :: after ∧ p a ∧ ∀ b ∈ after, ¬ p b := by
  induction l with
  | nil =>
    obtain ⟨a, ha, -⟩ := h
    cases ha
  | cons a l ih =>
    by_cases hl : ∃ b ∈ l, p b
    · obtain ⟨before, b, after, rfl, hb, hafter⟩ := ih hl
      exact ⟨a :: before, b, after, rfl, hb, hafter⟩
    · push Not at hl
      obtain ⟨b, hb, hpb⟩ := h
      rcases List.mem_cons.mp hb with rfl | hb
      · exact ⟨[], b, l, rfl, hpb, hl⟩
      · exact absurd hpb (hl b hb)

theorem last_unique {before before' after after' : List α} {a a' : α}
    (h : before ++ a :: after = before' ++ a' :: after') (ha : p a) (ha' : p a')
    (hafter : ∀ b ∈ after, ¬ p b) (hafter' : ∀ b ∈ after', ¬ p b) : a = a' := by
  rcases List.append_eq_append_iff.mp h with ⟨between, -, h⟩ | ⟨between, -, h⟩
  · cases between with
    | nil => exact (List.cons.inj h).1
    | cons b between =>
      obtain ⟨-, rfl⟩ := List.cons.inj h
      exact absurd ha' (hafter a' (by simp))
  · cases between with
    | nil => exact (List.cons.inj h).1.symm
    | cons b between =>
      obtain ⟨-, rfl⟩ := List.cons.inj h
      exact absurd ha (hafter' a (by simp))

end Last

/-! ## Comments that are offered -/

namespace Location

/-- The comment of the location if blank comments are none. -/
def Offers (loc : Location) (comment : String) : Prop :=
  (loc.leading? = some comment ∨
    (∀ c, loc.leading? = some c → Text.IsBlank c) ∧ loc.trailing? = some comment) ∧
  ¬ Text.IsBlank comment

/-- The trailing comment stands beside a leading one that is blank. -/
def Loses (loc : Location) (comment : String) : Prop :=
  (∃ c, loc.leading? = some c ∧ Text.IsBlank c) ∧ loc.trailing? = some comment ∧
    ¬ Text.IsBlank comment

variable {loc : Location} {comment comment' : String}

theorem Says.offers (h : loc.Says comment) : loc.Offers comment := by
  obtain ⟨hleading | ⟨hnone, htrailing⟩, hblank⟩ := h
  · exact ⟨.inl hleading, hblank⟩
  · exact ⟨.inr ⟨fun c hc => absurd (hnone.symm.trans hc) (Option.some_ne_none c).symm, htrailing⟩,
      hblank⟩

theorem Offers.says_or_loses (h : loc.Offers comment) : loc.Says comment ∨ loc.Loses comment := by
  obtain ⟨hleading | ⟨hall, htrailing⟩, hblank⟩ := h
  · exact .inl ⟨.inl hleading, hblank⟩
  · cases hl : loc.leading? with
    | none => exact .inl ⟨.inr ⟨hl, htrailing⟩, hblank⟩
    | some c => exact .inr ⟨⟨c, hl, hall c hl⟩, htrailing, hblank⟩

theorem Offers.eq (h : loc.Offers comment) (h' : loc.Offers comment') : comment = comment' := by
  obtain ⟨hleading | ⟨hall, htrailing⟩, hblank⟩ := h
  · obtain ⟨hleading' | ⟨hall', -⟩, -⟩ := h'
    · exact Option.some.inj (hleading.symm.trans hleading')
    · exact absurd (hall' comment hleading) hblank
  · obtain ⟨hleading' | ⟨-, htrailing'⟩, hblank'⟩ := h'
    · exact absurd (hall comment' hleading') hblank'
    · exact Option.some.inj (htrailing.symm.trans htrailing')

theorem exists_offers_iff : (∃ comment, loc.Offers comment) ↔
    ∃ c, (loc.leading? = some c ∨ loc.trailing? = some c) ∧ ¬ Text.IsBlank c := by
  constructor
  · rintro ⟨comment, hleading | ⟨-, htrailing⟩, hblank⟩
    · exact ⟨comment, .inl hleading, hblank⟩
    · exact ⟨comment, .inr htrailing, hblank⟩
  · rintro ⟨c, hleading | htrailing, hblank⟩
    · exact ⟨c, .inl hleading, hblank⟩
    · by_cases hall : ∀ c, loc.leading? = some c → Text.IsBlank c
      · exact ⟨c, .inr ⟨hall, htrailing⟩, hblank⟩
      · push Not at hall
        obtain ⟨c', hleading, hblank'⟩ := hall
        exact ⟨c', .inl hleading, hblank'⟩

end Location

theorem Doc.mark_inj {isDeprecated : Bool} {ls ls' : List String} :
    mark isDeprecated ls = mark isDeprecated ls' ↔ ls = ls' := by
  refine ⟨fun h => ?_, fun h => h ▸ rfl⟩
  have hlonger {ls : List String} : [deprecated] ≠ ls ++ ["", deprecated] := fun heq => by
    simpa using congrArg List.length heq
  unfold mark at h
  split at h
  · split at h <;> split at h
    · next hls hls' => exact hls.trans hls'.symm
    · exact absurd h hlonger
    · exact absurd h.symm hlonger
    · exact List.append_cancel_right h
  · exact h

namespace File

/-- The last location with the path to offer something offers `comment`. -/
def OfferAt (f : File) (path : List Int32) (comment : String) : Prop :=
  ∃ before loc after, f.locations = before ++ loc :: after ∧ (loc.path = path ∧
    loc.Offers comment) ∧ ∀ l ∈ after, ¬ (l.path = path ∧ ∃ c, l.Offers c)

/-- If there is a comment for the part that is not blank, the part is documented with what the last
location offers. -/
def Keeps (f : File) (x : Part) (doc : List String) : Prop :=
  (∃ loc ∈ f.locations, loc.path = x.path ∧
    ∃ c, (loc.leading? = some c ∨ loc.trailing? = some c) ∧ ¬ Text.IsBlank c) →
  ∃ comment, f.OfferAt x.path comment ∧
    doc = Doc.mark ((f.mark? x).getD false) (Doc.lines comment)

variable {f : File} {ix : Index} {t : Typings} {path : List Int32} {comment comment' : String}

theorem exists_offerAt (h : ∃ loc ∈ f.locations, loc.path = path ∧
    ∃ c, (loc.leading? = some c ∨ loc.trailing? = some c) ∧ ¬ Text.IsBlank c) :
    ∃ comment, f.OfferAt path comment := by
  simp only [← Location.exists_offers_iff] at h
  obtain ⟨before, loc, after, hlocs, ⟨hpath, c, hc⟩, hafter⟩ := exists_last h
  exact ⟨c, before, loc, after, hlocs, ⟨hpath, hc⟩, hafter⟩

theorem OfferAt.eq (h : f.OfferAt path comment) (h' : f.OfferAt path comment') :
    comment = comment' := by
  obtain ⟨before, loc, after, hlocs, ⟨hpath, hloc⟩, hafter⟩ := h
  obtain ⟨before', loc', after', hlocs', ⟨hpath', hloc'⟩, hafter'⟩ := h'
  obtain rfl : loc = loc' := last_unique (hlocs.symm.trans hlocs') ⟨hpath, _, hloc⟩
    ⟨hpath', _, hloc'⟩ hafter hafter'
  exact hloc.eq hloc'

theorem OfferAt.commentAt (h : f.OfferAt path comment)
    (hloses : ∀ loc ∈ f.locations, loc.path = path → ∀ c, ¬ loc.Loses c) :
    f.CommentAt path comment := by
  obtain ⟨before, loc, after, hlocs, ⟨hpath, hloc⟩, hafter⟩ := h
  have hmem : loc ∈ f.locations := by simp [hlocs]
  refine ⟨before, loc, after, hlocs, hpath, ?_, fun l hl hpath' c hc => ?_⟩
  · exact hloc.says_or_loses.resolve_right (hloses loc hmem hpath comment)
  · exact hafter l hl ⟨hpath', c, hc.offers⟩

theorem OfferAt.lines_ne_nil (h : f.OfferAt path comment) : Doc.lines comment ≠ [] := by
  obtain ⟨_, loc, _, _, ⟨_, hloc⟩, _⟩ := h
  exact mt Doc.lines_eq_nil_iff.mp hloc.2

/-- What is offered becomes the documentation just where the comment that counts has its lines. -/
theorem OfferAt.doc_eq_iff (h : f.OfferAt path comment) {isDeprecated : Bool} :
    f.doc path isDeprecated = Doc.mark isDeprecated (Doc.lines comment) ↔
      ∃ said, f.CommentAt path said ∧ Doc.lines said = Doc.lines comment := by
  constructor
  · intro hdoc
    have hdocumented := f.documented_doc path isDeprecated
    generalize f.doc path isDeprecated = doc at hdoc hdocumented
    cases hdocumented with
    | comment hsaid => exact ⟨_, hsaid, Doc.mark_inj.mp hdoc⟩
    | none _ => exact absurd (Doc.mark_inj.mp hdoc).symm h.lines_ne_nil
  · rintro ⟨said, hsaid, hlines⟩
    rw [← hlines]
    exact (documented_iff.mp (.comment hsaid)).symm

theorem keeps_docOf_iff {x : Part} : f.Keeps x (f.docOf x) ↔
    ∀ comment, f.OfferAt x.path comment →
      ∃ said, f.CommentAt x.path said ∧ Doc.lines said = Doc.lines comment := by
  constructor
  · intro hkeeps comment hoffer
    have hmem : ∃ loc ∈ f.locations, loc.path = x.path ∧ ∃ c, loc.Offers c := by
      obtain ⟨before, loc, after, hlocs, ⟨hpath, hloc⟩, -⟩ := hoffer
      exact ⟨loc, by simp [hlocs], hpath, comment, hloc⟩
    simp only [Location.exists_offers_iff] at hmem
    obtain ⟨comment', hoffer', hdoc⟩ := hkeeps hmem
    obtain rfl := hoffer.eq hoffer'
    exact hoffer.doc_eq_iff.mp hdoc
  · intro hsame hmem
    obtain ⟨comment, hoffer⟩ := exists_offerAt hmem
    exact ⟨comment, hoffer, hoffer.doc_eq_iff.mpr (hsame comment hoffer)⟩

/-- A part keeps its comment unless another comment counts in place of what is offered, which takes
a trailing comment that is lost. -/
theorem keeps_iff (h : f.typings ix = .ok t) :
    List.Forall₂ (fun x doc =>
        (f.Keeps x doc ↔ ∀ comment, f.OfferAt x.path comment →
          ∃ said, f.CommentAt x.path said ∧ Doc.lines said = Doc.lines comment) ∧
        ((∀ loc ∈ f.locations, loc.path = x.path → ∀ c, ¬ loc.Loses c) → f.Keeps x doc))
      f.parts t.docs := by
  rw [docs_eq_map_parts h, List.forall₂_map_right_iff, List.forall₂_same]
  intro x _
  refine ⟨keeps_docOf_iff, fun hloses => keeps_docOf_iff.mpr fun comment hoffer => ?_⟩
  exact ⟨comment, hoffer.commentAt hloses, rfl⟩

end File

namespace Sample

/-- The comment on the line of the field stands below an empty one. -/
def parcel : File where
  name? := some "parcel.proto"
  messages := [{
    name? := some "Parcel"
    fields := [
      { name? := some "weight", number? := some 1, label? := some 1, kind? := some 5 }] }]
  locations? := some [
    { path := [4, 0], trailing? := some " Sent by post.\n" },
    { path := [4, 0, 2, 0], leading? := some "\n", trailing? := some " In grams.\n" }]

def parcelIndex : Index where
  files := [parcel]
  entries := parcel.entries

def parcelTypings : Typings where
  file := "parcel.proto"
  package := ""
  level := "proto2"
  imports := []
  declarations := [
    { name := "Parcel", fullName := "Parcel", doc := ["Sent by post."]
      body := .interface [{ name := "weight", type := .number, doc := [], oneof := none }] }]

theorem parcel_typings_eq : parcel.typings parcelIndex = .ok parcelTypings := by rfl

theorem parcel_keeps : parcel.typings parcelIndex = .ok parcelTypings ∧
    (∀ loc ∈ parcel.locations, loc.path = [4, 0] → ∀ c, ¬ loc.Loses c) ∧
    parcel.Keeps (.type [.message 0]) ["Sent by post."] := by
  have hloses : ∀ loc ∈ parcel.locations, loc.path = [4, 0] → ∀ c, ¬ loc.Loses c := by
    have hleading : ∀ loc ∈ parcel.locations, loc.path = [4, 0] → loc.leading? = none := by decide
    rintro loc hloc hpath c ⟨⟨c', hc', -⟩, -⟩
    exact absurd ((hleading loc hloc hpath).symm.trans hc') (Option.some_ne_none c').symm
  obtain ⟨hparcel, -⟩ := List.forall₂_cons.mp (File.keeps_iff parcel_typings_eq)
  exact ⟨parcel_typings_eq, hloses, hparcel.2 hloses⟩

/-- The field is emitted without the comment that it has. -/
theorem weight_undocumented :
    Index.ofFiles [parcel] = .ok parcelIndex ∧ parcel.typings parcelIndex = .ok parcelTypings ∧
    .item [.message 0] 0 ∈ parcel.parts ∧
    (∃ loc ∈ parcel.locations, loc.path = (Part.item [.message 0] 0).path ∧
      loc.trailing? = some " In grams.\n" ∧ ¬ Text.IsBlank " In grams.\n") ∧
    (∃ d ∈ parcelTypings.declarations, ∃ m ∈ d.members, m.name = "weight" ∧ m.doc = []) ∧
    ¬ parcel.Keeps (.item [.message 0] 0) [] := by
  have hblank : ¬ Text.IsBlank " In grams.\n" := by
    rw [← Doc.lines_eq_nil_iff]
    decide
  have hcomment : ∃ loc ∈ parcel.locations, loc.path = (Part.item [.message 0] 0).path ∧
      loc.trailing? = some " In grams.\n" :=
    ⟨_, List.mem_cons_of_mem _ List.mem_cons_self, by decide, rfl⟩
  refine ⟨by rfl, parcel_typings_eq, by decide, ?_, by decide, fun hkeeps => ?_⟩
  · obtain ⟨loc, hloc, hpath, htrailing⟩ := hcomment
    exact ⟨loc, hloc, hpath, htrailing, hblank⟩
  · obtain ⟨loc, hloc, hpath, htrailing⟩ := hcomment
    obtain ⟨comment, hoffer, hdoc⟩ := hkeeps ⟨loc, hloc, hpath, _, .inr htrailing, hblank⟩
    exact hoffer.lines_ne_nil hdoc.symm

end Sample

end ProtoTypings

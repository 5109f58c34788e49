import ProtoTypings.Proofs.CamelCase
import ProtoTypings.Proofs.Layout
import ProtoTypings.Proofs.PropertyName
import ProtoTypings.Proofs.Reference
import ProtoTypings.Proofs.Scope

/-!
# Members on one line

A line feed or a carriage return in the JSON name of a field goes into the name of the member as it
is. So the member fits on its line, and a quoted name of it is a string literal (`IsLiteral`), just
where the JSON name has neither of the two (`File.members_fit_iff`).
-/

namespace ProtoTypings

open Index

/-! ## Ends of lines -/

namespace Text

def FitsLine (s : String) : Prop := ∀ c ∈ s.toList, c ≠ '\n' ∧ c ≠ '\r'

instance : DecidablePred FitsLine := fun s => List.decidableBAll _ s.toList

theorem fitsLine_of_forall {s : String} {P : Char → Prop} (h : ∀ c ∈ s.toList, P c)
    (hfeed : ¬ P '\n') (hreturn : ¬ P '\r') : FitsLine s :=
  fun c hc => ⟨fun heq => hfeed (heq ▸ h c hc), fun heq => hreturn (heq ▸ h c hc)⟩

theorem fitsLine_of_isValid {s : String} (h : Identifier.isValid s = true) : FitsLine s :=
  fitsLine_of_forall (Identifier.isPart_of_isValid h) (by decide) (by decide)

theorem fitsLine_append {s t : String} : FitsLine (s ++ t) ↔ FitsLine s ∧ FitsLine t := by
  rw [FitsLine, String.toList_append, List.forall_mem_append]
  rfl

end Text

open Text

/-! ## String literals -/

namespace PropertyName

/-- The number in hexadecimal digits of either case, with any zeros in front. -/
def IsHex (ds : List Char) (n : Nat) : Prop :=
  ∃ zeros, ds.map Char.toLower = List.replicate zeros '0' ++ Nat.toDigits 16 n

/-- A character by its number, as it is escaped. -/
inductive IsCode : List Char → Prop where
  | byte {ds : List Char} {n : Nat} : IsHex ds n → ds.length = 2 → IsCode ('x' :: ds)
  | unit {ds : List Char} {n : Nat} : IsHex ds n → ds.length = 4 → IsCode ('u' :: ds)
  | point {ds : List Char} {n : Nat} : IsHex ds n → n < 0x110000 →
      IsCode ('u' :: '\x7b' :: ds ++ ['\x7d'])

/-- What may stand between the quotes of a string literal. The end of a line may not, unless it is
escaped. -/
inductive LiteralBody : List Char → Prop where
  | nil : LiteralBody []
  | plain {c : Char} {cs : List Char} : c ≠ '"' → c ≠ '\\' → c ≠ '\n' → c ≠ '\r' →
      LiteralBody cs → LiteralBody (c :: cs)
  | escaped {c : Char} {cs : List Char} : c.isDigit = false → c ≠ 'x' → c ≠ 'u' →
      LiteralBody cs → LiteralBody ('\\' :: c :: cs)
  | crlf {cs : List Char} : LiteralBody cs → LiteralBody ('\\' :: '\r' :: '\n' :: cs)
  | null {cs : List Char} : (∀ d ∈ cs.head?, d.isDigit = false) →
      LiteralBody cs → LiteralBody ('\\' :: '0' :: cs)
  | code {code cs : List Char} : IsCode code → LiteralBody cs → LiteralBody ('\\' :: code ++ cs)

def IsLiteral (s : String) : Prop := ∃ body, s.toList = '"' :: body ++ ['"'] ∧ LiteralBody body

namespace LiteralBody

variable {c : Char} {cs : List Char}

theorem of_plain (h : LiteralBody (c :: cs)) (hc : c ≠ '\\') :
    (c ≠ '\n' ∧ c ≠ '\r') ∧ LiteralBody cs := by
  cases h with
  | plain _ _ hfeed hreturn hcs => exact ⟨⟨hfeed, hreturn⟩, hcs⟩
  | escaped => exact absurd rfl hc
  | crlf => exact absurd rfl hc
  | null => exact absurd rfl hc
  | code => exact absurd rfl hc

theorem of_escaped (h : LiteralBody ('\\' :: c :: cs)) (hc : c = '"' ∨ c = '\\') :
    LiteralBody cs := by
  have hother : c ≠ 'x' ∧ c ≠ 'u' ∧ c ≠ '\r' ∧ c ≠ '0' := by
    rcases hc with rfl | rfl <;> decide
  obtain ⟨hx, hu, hreturn, hzero⟩ := hother
  generalize hbody : '\\' :: c :: cs = body at h
  cases h with
  | nil => cases hbody
  | plain _ hslash => exact absurd (List.cons.inj hbody).1.symm hslash
  | escaped _ _ _ hcs =>
    obtain ⟨-, rfl⟩ := List.cons.inj (List.cons.inj hbody).2
    exact hcs
  | crlf => exact absurd (List.cons.inj (List.cons.inj hbody).2).1 hreturn
  | null => exact absurd (List.cons.inj (List.cons.inj hbody).2).1 hzero
  | code hcode =>
    cases hcode with
    | byte => exact absurd (List.cons.inj (List.cons.inj hbody).2).1 hx
    | unit => exact absurd (List.cons.inj (List.cons.inj hbody).2).1 hu
    | point => exact absurd (List.cons.inj (List.cons.inj hbody).2).1 hu

end LiteralBody

theorem literalBody_escape_iff {cs : List Char} :
    LiteralBody (escape cs) ↔ ∀ c ∈ cs, c ≠ '\n' ∧ c ≠ '\r' := by
  induction cs with
  | nil => exact iff_of_true .nil (List.forall_mem_nil _)
  | cons c cs ih =>
    rw [escape, List.forall_mem_cons, ← ih]
    split
    · next hc =>
      have hother : (c ≠ '\n' ∧ c ≠ '\r') ∧ c.isDigit = false ∧ c ≠ 'x' ∧ c ≠ 'u' := by
        rcases hc with rfl | rfl <;> decide
      obtain ⟨hend, hdigit, hx, hu⟩ := hother
      exact ⟨fun h => ⟨hend, h.of_escaped hc⟩, fun h => .escaped hdigit hx hu h.2⟩
    · next hc =>
      obtain ⟨hquote, hslash⟩ := not_or.mp hc
      exact ⟨fun h => h.of_plain hslash, fun h => .plain hquote hslash h.1.1 h.1.2 h.2⟩

theorem isLiteral_quote_iff {s : String} : IsLiteral (quote s) ↔ FitsLine s := by
  rw [IsLiteral, quote, String.toList_ofList, FitsLine, ← literalBody_escape_iff]
  constructor
  · rintro ⟨body, heq, hbody⟩
    rwa [List.append_cancel_right (List.cons.inj heq).2]
  · exact fun h => ⟨_, rfl, h⟩

/-! ## Names -/

theorem forall_mem_escape_iff {P : Char → Prop} (hslash : P '\\') {cs : List Char} :
    (∀ c ∈ escape cs, P c) ↔ ∀ c ∈ cs, P c := by
  induction cs with
  | nil => rfl
  | cons c cs ih =>
    rw [escape]
    split <;> simp [hslash, ih]

theorem fitsLine_quote {s : String} : FitsLine (quote s) ↔ FitsLine s := by
  rw [FitsLine, quote, String.toList_ofList, List.cons_append, List.forall_mem_cons,
    List.forall_mem_append, List.forall_mem_singleton, forall_mem_escape_iff (by decide)]
  exact ⟨fun h => h.2.1, fun h => ⟨by decide, h, by decide⟩⟩

variable {fieldName : String} {jsonName : Option String}

theorem fitsLine_ofField :
    FitsLine (ofField fieldName jsonName) ↔ FitsLine (unquoted fieldName jsonName) := by
  cases h : Identifier.isValid (unquoted fieldName jsonName) with
  | true => rw [ofField_of_isValid h]
  | false => rw [ofField_of_not_isValid h, fitsLine_quote]

theorem fitsLine_lowerCamel (h : FitsLine fieldName) : FitsLine (lowerCamel fieldName) := by
  have hchars : ∀ c ∈ (lowerCamel fieldName).toList, c ∈ fieldName.toList ∨ 65 ≤ c.toNat := by
    rw [lowerCamel, String.toList_ofList]
    exact fun c hc => (mem_camel hc).1
  refine fitsLine_of_forall hchars ?_ ?_
  · exact not_or.mpr ⟨fun hmem => (h _ hmem).1 rfl, by decide⟩
  · exact not_or.mpr ⟨fun hmem => (h _ hmem).2 rfl, by decide⟩

theorem fitsLine_unquoted (h : FitsLine fieldName) :
    FitsLine (unquoted fieldName jsonName) ↔ ∀ json, jsonName = some json → FitsLine json := by
  unfold unquoted
  split
  · exact iff_of_true (fitsLine_lowerCamel h) nofun
  · next json =>
    split
    · next hempty =>
      refine iff_of_true (fitsLine_lowerCamel h) ?_
      rintro _ ⟨⟩
      exact hempty ▸ List.forall_mem_nil _
    · exact ⟨fun hfits _ heq => Option.some.inj heq ▸ hfits, fun hfits => hfits json rfl⟩

end PropertyName

/-! ## Members -/

/-- There is no JSON name for the field, or one that is all on one line. -/
def Field.JsonNameFits (fd : Field) : Prop := ∀ json, fd.jsonName? = some json → FitsLine json

/-- What the JSON name of a field decides about its member. -/
structure Member.FitsWith (fd : Field) (mem : Member String) : Prop where
  name : FitsLine mem.name ↔ fd.JsonNameFits
  line : FitsLine mem.line ↔ fd.JsonNameFits
  literal : Identifier.isValid mem.name = false →
    (PropertyName.IsLiteral mem.name ↔ fd.JsonNameFits)

theorem Member.fitsLine_line_iff {m : Member String} (htype : ∀ r ∈ m.type.references, FitsLine r)
    (honeof : ∀ group ∈ m.oneof, FitsLine group) : FitsLine m.line ↔ FitsLine m.name := by
  constructor
  · intro h
    simp only [line, fitsLine_append] at h
    exact h.1.1.1.1.2
  · intro hname
    have hstrings : ∀ s ∈ m.strings, FitsLine s := by
      refine List.forall_mem_cons.mpr ⟨hname, List.forall_mem_append.mpr ⟨htype, ?_⟩⟩
      exact fun s hs => honeof s (Option.mem_toList.mp hs)
    refine fitsLine_of_forall (fun c hc hcontrol => m.exists_of_mem_line hcontrol hc) ?_ ?_
    · intro hfeed
      obtain ⟨s, hs, hmem⟩ := hfeed (by decide)
      exact (hstrings s hs _ hmem).1 rfl
    · intro hreturn
      obtain ⟨s, hs, hmem⟩ := hreturn (by decide)
      exact (hstrings s hs _ hmem).2 rfl

/-! ## Strings of the other files -/

theorem Scope.fitsLine_flatName {s : Scope} (h : ∀ c ∈ s, Identifier.isProtobuf c = true) :
    FitsLine s.flatName := by
  by_cases hs : s = []
  · subst hs
    decide
  · have hvalid : ∀ c ∈ s, Identifier.isValid c = true :=
      fun c hc => Identifier.isValid_of_isProtobuf (h c hc)
    exact fitsLine_of_isValid (Identifier.isValid_avoidReserved (isValid_flatten hs hvalid))

theorem Index.Entry.fitsLine_nameIn {e : Entry}
    (h : ∀ c ∈ e.scope, Identifier.isProtobuf c = true) (importer : String) (files : List String) :
    FitsLine (e.nameIn importer (Import.ofFiles importer files)) := by
  have hflat := Scope.fitsLine_flatName h
  unfold nameIn
  split
  · exact hflat
  · refine fitsLine_append.mpr ⟨fitsLine_append.mpr ⟨?_, by decide⟩, hflat⟩
    cases hq : Import.qualifierOf? (Import.ofFiles importer files) e.file.name with
    | none => exact List.forall_mem_nil _
    | some q =>
      obtain ⟨i, hi, rfl⟩ := Option.map_eq_some_iff.mp hq
      exact fitsLine_of_isValid ((Import.sound_ofFiles importer files).isValid i
        (List.mem_of_find?_eq_some hi))

namespace File

variable {f : File} {ix : Index} {t : Typings} {n : Node} {m : Message}

theorem fitsWith_of_member {i : Nat} {fd : Field} {mem : Member Entry}
    (h : f.member ix n m i fd = .ok mem) (hfd : Identifier.isProtobuf fd.name = true)
    (honeofs : ∀ o ∈ m.oneofs, Identifier.isProtobuf o.name = true)
    {nameIn : Entry → String} (hnames : ∀ e ∈ ix.entries, FitsLine (nameIn e)) :
    (mem.rename nameIn).FitsWith fd := by
  obtain ⟨t, ht, rfl⟩ := member_eq_ok_iff.mp h
  have hfield : FitsLine fd.name := fitsLine_of_isValid (Identifier.isValid_of_isProtobuf hfd)
  have hwritten : FitsLine (PropertyName.unquoted fd.name fd.jsonName?) ↔ fd.JsonNameFits :=
    PropertyName.fitsLine_unquoted hfield
  have hname := PropertyName.fitsLine_ofField.trans hwritten
  refine ⟨hname, (Member.fitsLine_line_iff ?_ ?_).trans hname, fun hvalid => ?_⟩
  · intro r hr
    obtain ⟨e, he, rfl⟩ := List.mem_map.mp (TypeExpr.references_rename nameIn t ▸ hr)
    exact hnames e ((typed_of_typeOf ht).mem_entries e he)
  · intro group hgroup
    obtain ⟨-, _, _, o, -, -, ho, rfl⟩ := Message.oneofOf?_eq_some_iff.mp hgroup
    exact fitsLine_of_isValid
      (Identifier.isValid_of_isProtobuf (honeofs o (List.mem_of_getElem? ho)))
  · cases hv : Identifier.isValid (PropertyName.unquoted fd.name fd.jsonName?) with
    | true =>
      have hsame := PropertyName.ofField_of_isValid hv
      exact absurd (hsame ▸ hv) (Bool.eq_false_iff.mp hvalid)
    | false =>
      have hquoted := PropertyName.ofField_of_not_isValid hv
      exact (hquoted ▸ PropertyName.isLiteral_quote_iff).trans hwritten

/-- As far as the JSON name of its field allows it, a member fits on its line. -/
theorem members_fit_iff (h : f.typings ix = .ok t)
    (hentries : ∀ e ∈ ix.entries, ∀ c ∈ e.scope, Identifier.isProtobuf c = true)
    (hfields : ∀ n ∈ f.declaredNodes, ∀ m, n.body = .message m →
      (∀ fd ∈ m.fields, Identifier.isProtobuf fd.name = true) ∧
        ∀ o ∈ m.oneofs, Identifier.isProtobuf o.name = true) :
    List.Forall₂ (fun n d => ∀ m, n.body = .message m →
        List.Forall₂ (fun fd mem => mem.FitsWith fd) m.fields d.members)
      f.declaredNodes t.declarations := by
  obtain ⟨ds, hds, rfl⟩ := typings_eq_ok_iff.mp h
  have hnodes := (List.forall₂_and_left _ _).mpr ⟨hfields, (declarations_eq_ok_iff.mp hds).1⟩
  refine List.forall₂_map_right_iff.mpr (hnodes.imp fun n d ⟨hnamed, hd⟩ m hm => ?_)
  obtain ⟨hfd, honeofs⟩ := hnamed m hm
  obtain ⟨ms, hms, rfl⟩ := (declaration_message_iff hm).mp hd
  have hmembers : List.Forall₂ (fun fd mem => ∃ i, f.member ix n m i fd = .ok mem) m.fields ms :=
    forall₂_of_zipIdx ((members_eq_ok_iff.mp hms).imp fun p _ hmem => ⟨p.2, hmem⟩)
  rw [Declaration.members_rename]
  refine List.forall₂_map_right_iff.mpr ?_
  refine ((List.forall₂_and_left _ _).mpr ⟨hfd, hmembers⟩).imp fun fd mem ⟨hname, i, hmem⟩ => ?_
  exact fitsWith_of_member hmem hname honeofs fun e he => e.fitsLine_nameIn (hentries e he) _ _

end File

namespace Sample

/-- Both JSON names have to be quoted; one of them has two lines. -/
def shelf : File where
  name? := some "shelf.proto"
  messages := [{
    name? := some "Shelf"
    fields := [
      { name? := some "max_weight", number? := some 1, label? := some 1, kind? := some 5
        jsonName? := some "max-weight" },
      { name? := some "unit_price", number? := some 2, label? := some 1, kind? := some 9
        jsonName? := some "unit\nprice" }] }]

def shelfIndex : Index where
  files := [shelf]
  entries := shelf.entries

def weightMember : Member String where
  name := "\"max-weight\""
  type := .number
  doc := []
  oneof := none

def unitPriceMember : Member String where
  name := "\"unit\nprice\""
  type := .string
  doc := []
  oneof := none

def shelfTypings : Typings where
  file := "shelf.proto"
  package := ""
  level := "proto2"
  imports := []
  declarations := [
    { name := "Shelf", fullName := "Shelf", doc := []
      body := .interface [weightMember, unitPriceMember] }]

theorem shelf_typings_eq : shelf.typings shelfIndex = .ok shelfTypings := by rfl

theorem weight_fits :
    shelf.typings shelfIndex = .ok shelfTypings ∧
    (∀ e ∈ shelfIndex.entries, ∀ c ∈ e.scope, Identifier.isProtobuf c = true) ∧
    (∀ n ∈ shelf.declaredNodes, ∀ m, n.body = .message m →
      (∀ fd ∈ m.fields, Identifier.isProtobuf fd.name = true) ∧
        ∀ o ∈ m.oneofs, Identifier.isProtobuf o.name = true) ∧
    FitsLine weightMember.line ∧ PropertyName.IsLiteral weightMember.name := by
  have hentries : ∀ e ∈ shelfIndex.entries, ∀ c ∈ e.scope, Identifier.isProtobuf c = true := by
    decide
  have hfields : ∀ n ∈ shelf.declaredNodes, ∀ m, n.body = .message m →
      (∀ fd ∈ m.fields, Identifier.isProtobuf fd.name = true) ∧
        ∀ o ∈ m.oneofs, Identifier.isProtobuf o.name = true := by
    refine List.forall_mem_singleton.mpr ?_
    rintro m ⟨⟩
    decide
  obtain ⟨hshelf, -⟩ :=
    List.forall₂_cons.mp (File.members_fit_iff shelf_typings_eq hentries hfields)
  obtain ⟨hweight, -⟩ := List.forall₂_cons.mp (hshelf _ rfl)
  have hjson : Field.JsonNameFits (shelf.messages[0].fields[0]) := by
    rintro _ ⟨⟩
    decide
  exact ⟨shelf_typings_eq, hentries, hfields, hweight.line.mpr hjson,
    (hweight.literal (by decide)).mpr hjson⟩

/-- The member takes two lines of the generated file, and its name is no string literal. -/
theorem price_broken :
    Index.ofFiles [shelf] = .ok shelfIndex ∧ shelf.typings shelfIndex = .ok shelfTypings ∧
    (∃ d ∈ shelfTypings.declarations, unitPriceMember ∈ d.members) ∧
    Identifier.isProtobuf "unit_price" = true ∧
    unitPriceMember.name = PropertyName.ofField "unit_price" (some "unit\nprice") ∧
    ¬ FitsLine unitPriceMember.name ∧ ¬ PropertyName.IsLiteral unitPriceMember.name ∧
    unitPriceMember.doc = [] ∧
    Text.lines unitPriceMember.line = ["  \"unit", "price\"?: string;"] := by
  have hname : unitPriceMember.name = PropertyName.quote "unit\nprice" := by decide
  have hliteral : ¬ PropertyName.IsLiteral unitPriceMember.name := by
    rw [hname, PropertyName.isLiteral_quote_iff]
    decide
  exact ⟨by rfl, shelf_typings_eq, by decide, by decide, by decide, by decide, hliteral, rfl,
    by decide⟩

end Sample

end ProtoTypings

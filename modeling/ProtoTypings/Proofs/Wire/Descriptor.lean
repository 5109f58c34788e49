import ProtoTypings.Proofs.Place
import ProtoTypings.Proofs.Wire.Lookup
import ProtoTypings.Wire.Request

/-!
# Descriptors read back

What `toContent` writes for a descriptor fits the schema that it is read by (`fits_toContent`), and
`ofContent` makes the same descriptor of it (`ofContent_toContent`).
-/

namespace ProtoTypings

open Wire Content

namespace FieldOptions

theorem fits_toContent (o : FieldOptions) : Fits .fieldOptions o.toContent := by
  simp only [toContent, fits_append]
  exact ⟨.one rfl fun _ => .ofFlag, .one rfl fun _ => .ofInt32⟩

@[simp] theorem ofContent_toContent (o : FieldOptions) : ofContent o.toContent = o := by
  simp [ofContent, toContent]

end FieldOptions

namespace Field

theorem fits_toContent (f : Field) : Fits .field f.toContent := by
  simp only [toContent, fits_append, and_assoc]
  exact ⟨.one rfl fun _ => .text, .one rfl fun _ => .ofInt32, .one rfl fun _ => .ofInt32,
    .one rfl fun _ => .ofInt32, .one rfl fun _ => .text,
    .one rfl fun o => .message o.fits_toContent, .one rfl fun _ => .ofInt32,
    .one rfl fun _ => .text, .one rfl fun _ => .ofFlag⟩

@[simp] theorem ofContent_toContent (f : Field) : ofContent f.toContent = f := by
  simp [ofContent, toContent, Function.comp_def]

end Field

namespace Oneof

theorem fits_toContent (o : Oneof) : Fits .oneof o.toContent := .one rfl fun _ => .text

@[simp] theorem ofContent_toContent (o : Oneof) : ofContent o.toContent = o := by
  simp [ofContent, toContent]

end Oneof

namespace EnumValueOptions

theorem fits_toContent (o : EnumValueOptions) : Fits .enumValueOptions o.toContent :=
  .one rfl fun _ => .ofFlag

@[simp] theorem ofContent_toContent (o : EnumValueOptions) : ofContent o.toContent = o := by
  simp [ofContent, toContent]

end EnumValueOptions

namespace EnumValue

theorem fits_toContent (v : EnumValue) : Fits .enumValue v.toContent := by
  simp only [toContent, fits_append, and_assoc]
  exact ⟨.one rfl fun _ => .text, .one rfl fun _ => .ofInt32,
    .one rfl fun o => .message o.fits_toContent⟩

@[simp] theorem ofContent_toContent (v : EnumValue) : ofContent v.toContent = v := by
  simp [ofContent, toContent, Function.comp_def]

end EnumValue

namespace EnumOptions

theorem fits_toContent (o : EnumOptions) : Fits .enumOptions o.toContent :=
  .one rfl fun _ => .ofFlag

@[simp] theorem ofContent_toContent (o : EnumOptions) : ofContent o.toContent = o := by
  simp [ofContent, toContent]

end EnumOptions

namespace Enum

theorem fits_toContent (e : Enum) : Fits .enum e.toContent := by
  simp only [toContent, fits_append, and_assoc]
  exact ⟨.one rfl fun _ => .text, .each rfl fun v _ => .message v.fits_toContent,
    .one rfl fun o => .message o.fits_toContent⟩

@[simp] theorem ofContent_toContent (e : Enum) : ofContent e.toContent = e := by
  simp [ofContent, toContent, Function.comp_def]

end Enum

namespace MessageOptions

theorem fits_toContent (o : MessageOptions) : Fits .messageOptions o.toContent := by
  simp only [toContent, fits_append]
  exact ⟨.one rfl fun _ => .ofFlag, .one rfl fun _ => .ofFlag⟩

@[simp] theorem ofContent_toContent (o : MessageOptions) : ofContent o.toContent = o := by
  simp [ofContent, toContent]

end MessageOptions

namespace Message

theorem nestedContent_eq (ms : List Message) :
    nestedContent ms = each 3 (.message ·.toContent) ms := by
  induction ms with
  | nil => rfl
  | cons m ms ih => rw [nestedContent, ih]; rfl

theorem toContent_eq (m : Message) : m.toContent =
    .one 1 .text m.name? ++ .each 2 (.message ·.toContent) m.fields ++
      .each 3 (.message ·.toContent) m.nested ++ .each 4 (.message ·.toContent) m.enums ++
      .each 6 (.message ·.toContent) m.extensions ++ .one 7 (.message ·.toContent) m.options? ++
      .each 8 (.message ·.toContent) m.oneofs := by
  rw [← nestedContent_eq]
  cases m
  rfl

theorem ofNested_eq (c : Content) : ofNested c = (c.parts 3).map ofContent := by
  induction c with
  | nil => rfl
  | cons p c ih =>
    obtain ⟨n, v⟩ := p
    rw [ofNested, ih]
    by_cases hn : n = 3
    · subst hn
      cases v <;> simp [ofValue?, parts, values, ofContent]
    · simp [parts, values, hn]

theorem fits_toContent (m : Message) : Fits .message m.toContent := by
  induction m using Message.induct with
  | step m ih =>
    rw [toContent_eq]
    simp only [fits_append, and_assoc]
    exact ⟨.one rfl fun _ => .text, .each rfl fun f _ => .message f.fits_toContent,
      .each rfl fun n hn => .message (ih n hn), .each rfl fun e _ => .message e.fits_toContent,
      .each rfl fun f _ => .message f.fits_toContent, .one rfl fun o => .message o.fits_toContent,
      .each rfl fun o _ => .message o.fits_toContent⟩

theorem withNested_toContent (m : Message) : withNested m.toContent m.nested = m := by
  rw [toContent_eq]
  cases m
  simp [withNested, Function.comp_def]

@[simp] theorem ofContent_toContent (m : Message) : ofContent m.toContent = m := by
  induction m using Message.induct with
  | step m ih =>
    have hparts : m.toContent.parts 3 = m.nested.map toContent := by
      rw [toContent_eq]
      simp
    have hnested : ofNested m.toContent = m.nested := by
      rw [ofNested_eq, hparts, List.map_map]
      exact (List.map_congr_left ih).trans (List.map_id _)
    rw [ofContent, hnested, withNested_toContent]

end Message

namespace Service

theorem fits_toContent (s : Service) : Fits .service s.toContent := .one rfl fun _ => .text

@[simp] theorem ofContent_toContent (s : Service) : ofContent s.toContent = s := by
  simp [ofContent, toContent]

end Service

namespace Location

theorem fits_toContent (l : Location) : Fits .location l.toContent := by
  simp only [toContent, fits_append, and_assoc]
  exact ⟨.packed rfl, .one rfl fun _ => .text, .one rfl fun _ => .text,
    .each rfl fun _ _ => .text⟩

@[simp] theorem ofContent_toContent (l : Location) : ofContent l.toContent = l := by
  have hpath : l.toContent.int32s 1 = l.path := by simp [toContent]
  rw [ofContent, hpath]
  simp [toContent, packed_eq_each]

end Location

namespace File

theorem fits_toContent (f : File) : Fits .file f.toContent := by
  simp only [toContent, fits_append, and_assoc]
  exact ⟨.one rfl fun _ => .text, .one rfl fun _ => .text, .each rfl fun _ _ => .text,
    .each rfl fun m _ => .message m.fits_toContent, .each rfl fun e _ => .message e.fits_toContent,
    .each rfl fun s _ => .message s.fits_toContent, .each rfl fun f _ => .message f.fits_toContent,
    .one rfl fun _ => .message (.each rfl fun l _ => .message l.fits_toContent),
    .one rfl fun _ => .text⟩

@[simp] theorem ofContent_toContent (f : File) : ofContent f.toContent = f := by
  simp [ofContent, toContent, Function.comp_def]

end File

namespace Request

theorem fits_toContent (r : Request) : Fits .request r.toContent := by
  simp only [toContent, fits_append, and_assoc]
  exact ⟨.each rfl fun _ _ => .text, .one rfl fun _ => .text,
    .each rfl fun f _ => .message f.fits_toContent⟩

@[simp] theorem ofContent_toContent (r : Request) : ofContent r.toContent = r := by
  simp [ofContent, toContent, Function.comp_def]

theorem decode_encode {r : Request} (hnesting : r.toContent.nesting ≤ 100)
    (hsize : r.encode.length < UInt64.size) : decode r.encode = some r := by
  have hcontent : Content.decode 100 .request r.encode = some r.toContent :=
    Content.decode_encode r.fits_toContent hnesting hsize
  rw [decode, hcontent, Option.map_some, ofContent_toContent]

end Request

end ProtoTypings

import ProtoTypings.Typings.Json

/-!
# Typings survive JSON

What is written as JSON is read back as it was: types at any depth (`TypeExpr.ofJson?_toJson`), the
parts that typings are made of, and typings as a whole (`Typings.ofJson?_toJson`).
-/

namespace ProtoTypings

/-! ## Lists, numbers and texts -/

/-- A list of values is read back where each of the values is. -/
theorem mapM_map_eq_some {α β : Type} {write : α → β} {read : β → Option α}
    (h : ∀ a, read (write a) = some a) (as : List α) : (as.map write).mapM read = some as := by
  induction as with
  | nil => rfl
  | cons a as ih => simp [h, ih]

namespace Json

@[simp] theorem strings?_strings (ss : List String) : (strings ss).strings? = some ss := by
  have hstring (s : String) : (Json.string s).string? = some s := rfl
  exact mapM_map_eq_some hstring ss

@[simp] theorem int32?_int32 (n : Int32) : (int32 n).int32? = some n := by
  rw [int32, int32?, Int32.ofInt_toInt, if_pos rfl]

end Json

/-! ## Types -/

namespace TypeExpr

theorem ofPart?_toJson (t : TypeExpr String) : ofPart? t.toJson = some t := by
  induction t with
  | number => rfl
  | string => rfl
  | boolean => rfl
  | bytes => rfl
  | reference name => rfl
  | array element ih =>
    show (ofPart? element.toJson).bind (fun e => some (array e)) = some (array element)
    rw [ih]
    rfl
  | map key value ihKey ihValue =>
    show (ofPart? key.toJson).bind (fun k => (ofPart? value.toJson).bind fun v => some (map k v)) =
      some (map key value)
    rw [ihKey, ihValue]
    rfl

/-- The kind is written by its name, so the type may stand by itself too. -/
theorem ofJson?_toJson (t : TypeExpr String) : ofJson? t.toJson = some t := by
  rw [← ofPart?_toJson t]
  cases t <;> rfl

end TypeExpr

/-! ## Parts of typings -/

theorem Member.oneof?_toJson (oneof : Option String) :
    oneof? (some (oneof.elim .null .string)) = some oneof := by
  cases oneof <;> rfl

theorem Member.ofJson?_toJson (m : Member String) : ofJson? m.toJson = some m := by
  show (TypeExpr.ofPart? m.type.toJson).bind (fun type =>
    (Json.strings m.doc).strings?.bind fun doc =>
      (oneof? (some (m.oneof.elim .null .string))).bind fun oneof =>
        some { name := m.name, type, doc, oneof }) = some m
  rw [TypeExpr.ofPart?_toJson, Json.strings?_strings, oneof?_toJson]
  rfl

theorem Constant.ofJson?_toJson (c : Constant) : ofJson? c.toJson = some c := by
  show (Json.int32 c.value).int32?.bind (fun value =>
    (Json.strings c.doc).strings?.bind fun doc => some { name := c.name, value, doc }) = some c
  rw [Json.int32?_int32, Json.strings?_strings]
  rfl

theorem Import.ofJson?_toJson (i : Import) : ofJson? i.toJson = some i := rfl

namespace Declaration

theorem Body.part?_kind (b : Body String) : part? b.kind = some b.toJson.1 := by
  cases b <;> rfl

theorem Body.ofItems?_toJson (b : Body String) :
    b.toJson.2.array?.bind (ofItems? · b.kind) = some b := by
  cases b with
  | interface members =>
    show ((members.map Member.toJson).mapM Member.ofJson?).bind (some <| interface ·) = _
    rw [mapM_map_eq_some Member.ofJson?_toJson]
    rfl
  | enum constants =>
    show ((constants.map Constant.toJson).mapM Constant.ofJson?).bind (some <| enum ·) = _
    rw [mapM_map_eq_some Constant.ofJson?_toJson]
    rfl

theorem ofJson?_toJson (d : Declaration String) : ofJson? d.toJson = some d := by
  have hbody : [("kind", .string d.body.kind), ("name", .string d.name),
      ("full_name", .string d.fullName), ("doc", .strings d.doc), d.body.toJson].lookup
        d.body.toJson.1 = some d.body.toJson.2 := by
    cases d.body <;> rfl
  show (Body.part? d.body.kind).bind (fun part => (Json.strings d.doc).strings?.bind fun doc =>
    ([("kind", .string d.body.kind), ("name", .string d.name),
      ("full_name", .string d.fullName), ("doc", .strings d.doc), d.body.toJson].lookup part).bind
        fun items => items.array?.bind fun items =>
          (Body.ofItems? items d.body.kind).bind fun body => some { d with doc, body }) = some d
  rw [Body.part?_kind, Option.bind_some, Json.strings?_strings, Option.bind_some, hbody,
    Option.bind_some, ← Option.bind_assoc, Body.ofItems?_toJson]
  rfl

end Declaration

theorem Typings.ofJson?_toJson (t : Typings) : ofJson? t.toJson = some t := by
  show ((t.imports.map Import.toJson).mapM Import.ofJson?).bind (fun imports =>
    ((t.declarations.map Declaration.toJson).mapM Declaration.ofJson?).bind fun declarations =>
      some { t with imports, declarations }) = some t
  rw [mapM_map_eq_some Import.ofJson?_toJson, mapM_map_eq_some Declaration.ofJson?_toJson]
  rfl

end ProtoTypings

import Mathlib.Data.List.Basic
import ProtoTypings.TypeExpr

/-!
# Written types can be read in one way

The last character of a written type shows how the type is put together (`form_text`): an array
ends in a bracket, a map in a brace and a word in neither. What is inside stands between texts that
are known by then, since both ways to write a key are equally long. So a text says everything of a
type but the keys that were written alike (`text_eq_iff`).
-/

namespace ProtoTypings.TypeExpr

variable {ρ : Type}

/-! ## Keys as they are written -/

def writtenKey : TypeExpr ρ → TypeExpr ρ
  | .number => .number
  | _ => .string

/-- The type with each key of a map replaced by the one that is written for it. -/
def withWrittenKeys : TypeExpr ρ → TypeExpr ρ
  | .array element => .array element.withWrittenKeys
  | .map key value => .map key.writtenKey value.withWrittenKeys
  | t => t

theorem keyText_writtenKey (key : TypeExpr ρ) : key.writtenKey.keyText = key.keyText := by
  cases key <;> rfl

theorem writtenKey_eq_ite (key : TypeExpr ρ) :
    key.writtenKey = if key.keyText = "number" then .number else .string := by
  cases key <;> rfl

theorem length_keyText (key : TypeExpr ρ) : key.keyText.toList.length = 6 := by
  unfold keyText
  split <;> decide

/-- Keys are the only information that a text drops. -/
theorem text_withWrittenKeys (t : TypeExpr String) : t.withWrittenKeys.text = t.text := by
  induction t with
  | number => rfl
  | string => rfl
  | boolean => rfl
  | bytes => rfl
  | reference _ => rfl
  | array element ih => rw [withWrittenKeys, text, text, ih]
  | map key value _ ih => rw [withWrittenKeys, text, text, ih, keyText_writtenKey]

/-! ## Words -/

/-- A name that is neither a built-in type nor has a character that arrays and maps are written
with. -/
structure Unmistakable (name : String) : Prop where
  plain : ∀ c ∈ name.toList, c ∉ [' ', '[', ']', '\x7b', '\x7d']
  not_builtIn : name ∉ ["number", "string", "boolean", "Uint8Array"]

instance : DecidablePred Unmistakable := fun name =>
  decidable_of_iff (name.toList.all (· ∉ [' ', '[', ']', '\x7b', '\x7d']) = true ∧
    name ∉ ["number", "string", "boolean", "Uint8Array"])
    ⟨fun h => ⟨by simpa using h.1, h.2⟩, fun h => ⟨by simpa using h.plain, h.not_builtIn⟩⟩

/-- How a type is put together. -/
inductive Form where
  | word | array | map
  deriving DecidableEq

def form : TypeExpr ρ → Form
  | .array _ => .array
  | .map _ _ => .map
  | _ => .word

def Form.ofText (text : String) : Form :=
  match text.toList.getLast? with
  | some ']' => .array
  | some '\x7d' => .map
  | _ => .word

theorem Form.ofText_append (text : String) :
    Form.ofText (text ++ "[]") = .array ∧ Form.ofText (text ++ " \x7d") = .map := by
  simp only [Form.ofText, String.toList_append, List.getLast?_append]
  exact ⟨rfl, rfl⟩

def ofWord (word : String) : TypeExpr String :=
  if word = "number" then .number
  else if word = "string" then .string
  else if word = "boolean" then .boolean
  else if word = "Uint8Array" then .bytes
  else .reference word

theorem Unmistakable.form_eq {name : String} (h : Unmistakable name) :
    Form.ofText name = .word := by
  unfold Form.ofText
  split
  · next hlast => exact absurd (by decide) (h.plain _ (List.mem_of_getLast? hlast))
  · next hlast => exact absurd (by decide) (h.plain _ (List.mem_of_getLast? hlast))
  · rfl

theorem Unmistakable.ofWord_eq {name : String} (h : Unmistakable name) :
    ofWord name = .reference name := by
  have hname := h.not_builtIn
  simp only [List.mem_cons, List.not_mem_nil, or_false, not_or] at hname
  obtain ⟨hnumber, hstring, hboolean, hbytes⟩ := hname
  rw [ofWord, if_neg hnumber, if_neg hstring, if_neg hboolean, if_neg hbytes]

section

variable {t u : TypeExpr String} (ht : ∀ name ∈ t.references, Unmistakable name)
  (hu : ∀ name ∈ u.references, Unmistakable name)

include ht

theorem form_text : Form.ofText t.text = t.form := by
  cases t with
  | number => rfl
  | string => rfl
  | boolean => rfl
  | bytes => rfl
  | reference name => exact (ht name List.mem_cons_self).form_eq
  | array element => exact (Form.ofText_append _).1
  | map key value => exact (Form.ofText_append _).2

theorem ofWord_text (hword : t.form = .word) : ofWord t.text = t := by
  cases t with
  | number => rfl
  | string => rfl
  | boolean => rfl
  | bytes => rfl
  | reference name => exact (ht name List.mem_cons_self).ofWord_eq
  | array element => cases hword
  | map key value => cases hword

include hu

theorem form_eq_of_text_eq (h : t.text = u.text) : t.form = u.form := by
  rw [← form_text ht, h, form_text hu]

theorem eq_of_text_eq (hword : t.form = .word) (h : t.text = u.text) : t = u := by
  have hword' : u.form = .word := (form_eq_of_text_eq ht hu h).symm.trans hword
  rw [← ofWord_text ht hword, h, ofWord_text hu hword']

end

/-! ## Arrays and maps -/

theorem exists_of_form_eq_array {t : TypeExpr ρ} (h : t.form = .array) :
    ∃ element, t = .array element := by
  cases t with
  | array element => exact ⟨element, rfl⟩
  | _ => cases h

theorem exists_of_form_eq_map {t : TypeExpr ρ} (h : t.form = .map) :
    ∃ key value, t = .map key value := by
  cases t with
  | map key value => exact ⟨key, value, rfl⟩
  | _ => cases h

theorem text_array_inj {t u : TypeExpr String} :
    (array t).text = (array u).text ↔ t.text = u.text := by
  rw [text, text, String.append_left_inj]

theorem text_map_inj {key key' value value' : TypeExpr String} :
    (map key value).text = (map key' value').text ↔
      key.keyText = key'.keyText ∧ value.text = value'.text := by
  refine ⟨fun h => ?_, fun ⟨hkey, hvalue⟩ => by rw [text, text, hkey, hvalue]⟩
  rw [text, text, String.append_left_inj, ← String.toList_inj] at h
  simp only [String.toList_append, List.append_assoc, List.append_cancel_left_eq] at h
  obtain ⟨hkey, h⟩ := List.append_inj h (by rw [length_keyText, length_keyText])
  rw [List.append_cancel_left_eq] at h
  exact ⟨String.toList_inj.mp hkey, String.toList_inj.mp h⟩

theorem withWrittenKeys_eq_of_text_eq {t : TypeExpr String} :
    ∀ {u : TypeExpr String}, (∀ name ∈ t.references, Unmistakable name) →
      (∀ name ∈ u.references, Unmistakable name) → t.text = u.text →
      t.withWrittenKeys = u.withWrittenKeys := by
  induction t with
  | number => exact fun ht hu h => congrArg withWrittenKeys (eq_of_text_eq ht hu rfl h)
  | string => exact fun ht hu h => congrArg withWrittenKeys (eq_of_text_eq ht hu rfl h)
  | boolean => exact fun ht hu h => congrArg withWrittenKeys (eq_of_text_eq ht hu rfl h)
  | bytes => exact fun ht hu h => congrArg withWrittenKeys (eq_of_text_eq ht hu rfl h)
  | reference _ => exact fun ht hu h => congrArg withWrittenKeys (eq_of_text_eq ht hu rfl h)
  | array element ih =>
    intro u ht hu h
    obtain ⟨element', rfl⟩ := exists_of_form_eq_array (form_eq_of_text_eq ht hu h).symm
    have hu' : ∀ name ∈ element'.references, Unmistakable name := hu
    rw [withWrittenKeys, withWrittenKeys, ih ht hu' (text_array_inj.mp h)]
  | map key value _ ih =>
    intro u ht hu h
    obtain ⟨key', value', rfl⟩ := exists_of_form_eq_map (form_eq_of_text_eq ht hu h).symm
    obtain ⟨hkey, hvalue⟩ := text_map_inj.mp h
    have hkeys : key.writtenKey = key'.writtenKey := by
      rw [writtenKey_eq_ite, hkey, ← writtenKey_eq_ite]
    rw [withWrittenKeys, withWrittenKeys, hkeys,
      ih (fun name hname => ht name (List.mem_append_right _ hname))
        (fun name hname => hu name (List.mem_append_right _ hname)) hvalue]

theorem text_eq_iff {t u : TypeExpr String} (ht : ∀ name ∈ t.references, Unmistakable name)
    (hu : ∀ name ∈ u.references, Unmistakable name) :
    t.text = u.text ↔ t.withWrittenKeys = u.withWrittenKeys :=
  ⟨withWrittenKeys_eq_of_text_eq ht hu,
    fun h => by rw [← text_withWrittenKeys t, h, text_withWrittenKeys]⟩

end ProtoTypings.TypeExpr

namespace ProtoTypings.Sample

open TypeExpr

def ordersByFlag : TypeExpr String :=
  .array (.map .boolean (.array (.reference "shop_pb.Order")))

def ordersByName : TypeExpr String :=
  .array (.map .string (.array (.reference "shop_pb.Order")))

def orderTable : TypeExpr String :=
  .map .string (.array (.array (.reference "shop_pb.Order")))

/-- A key that is not written as it is, and arrays inside and outside of a map. -/
theorem ordersByFlag_text :
    (∀ name ∈ ordersByFlag.references, Unmistakable name) ∧
    (∀ name ∈ ordersByName.references, Unmistakable name) ∧
    (∀ name ∈ orderTable.references, Unmistakable name) ∧
    ordersByFlag.text = ordersByName.text ∧ ordersByFlag.text ≠ orderTable.text := by
  have hflag : ∀ name ∈ ordersByFlag.references, Unmistakable name := by decide
  have hname : ∀ name ∈ ordersByName.references, Unmistakable name := by decide
  have htable : ∀ name ∈ orderTable.references, Unmistakable name := by decide
  refine ⟨hflag, hname, htable, (text_eq_iff hflag hname).mpr (by decide), ?_⟩
  exact mt (text_eq_iff hflag htable).mp (by decide)

end ProtoTypings.Sample

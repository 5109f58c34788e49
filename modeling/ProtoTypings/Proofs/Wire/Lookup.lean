import Mathlib.Data.Bool.Basic
import ProtoTypings.Proofs.Wire.Content

/-!
# Looking up what was written

Content that is put together fits a schema if its parts do. A field in it is found under its own
number, whatever the other fields are: for each way to look up there is one lemma on `++`, one on
fields with that number and one on fields with another.
-/

namespace ProtoTypings.Wire

namespace Value

theorem int32Number_lt (i : Int32) : int32Number i < UInt64.size := by
  have : UInt64.size = 0x10000000000000000 := rfl
  unfold int32Number
  omega

theorem ofNat_int32Number (i : Int32) : Int32.ofNat (int32Number i) = i := by
  refine Int32.toInt_inj.mp ?_
  have hlt := i.toInt_lt
  have hle := i.le_toInt
  rw [Int32.toInt_ofNat', int32Number, Int.bmod, Int32.size]
  omega

theorem Fits.ofInt32 {i : Int32} : Fits .number (Value.ofInt32 i) := .number (int32Number_lt i)

theorem Fits.ofFlag {b : Bool} : Fits .number (Value.ofFlag b) :=
  .number (Nat.lt_of_le_of_lt b.toNat_le (by decide))

end Value

namespace Content

variable {α : Type} {n m : Nat} {write : α → Value}

/-! ## Fits -/

@[simp] theorem fits_append {s : Schema} {c c' : Content} :
    Fits s (c ++ c') ↔ Fits s c ∧ Fits s c' := by
  induction c with
  | nil => exact ⟨fun h => ⟨.nil, h⟩, fun h => h.2⟩
  | cons p c ih =>
    constructor
    · intro h
      cases h with
      | cons hshape hvalue hrest =>
        obtain ⟨hc, hc'⟩ := ih.mp hrest
        exact ⟨.cons hshape hvalue hc, hc'⟩
    · rintro ⟨h, hc'⟩
      cases h with
      | cons hshape hvalue hrest => exact .cons hshape hvalue (ih.mpr ⟨hrest, hc'⟩)

variable {s : Schema} {shape : Shape}

theorem Fits.each (hshape : s.shape? n = some shape) {as : List α}
    (h : ∀ a ∈ as, (write a).Fits shape) : Fits s (each n write as) := by
  induction as with
  | nil => exact .nil
  | cons a as ih =>
    obtain ⟨ha, has⟩ := List.forall_mem_cons.mp h
    exact .cons hshape ha (ih has)

theorem Fits.one (hshape : s.shape? n = some shape) {a? : Option α}
    (h : ∀ a, (write a).Fits shape) : Fits s (one n write a?) :=
  .each hshape fun a _ => h a

theorem Fits.packed (hshape : s.shape? n = some .numbers) {is : List Int32} :
    Fits s (packed n is) := by
  unfold Content.packed
  split
  · exact .nil
  · refine .cons hshape (.numbers fun k hk => ?_) .nil
    obtain ⟨i, -, rfl⟩ := List.mem_map.mp hk
    exact Value.int32Number_lt i

/-! ## Values -/

theorem values_append (c c' : Content) (n : Nat) :
    (c ++ c').values n = c.values n ++ c'.values n := by
  simp [values]

theorem values_each (n : Nat) (write : α → Value) (as : List α) :
    (each n write as).values n = as.map write := by
  induction as with
  | nil => rfl
  | cons a as ih => simpa [values, each] using ih

theorem values_each_of_ne (h : m ≠ n) (as : List α) : (each m write as).values n = [] := by
  simp [values, each, h]

@[simp] theorem one_eq_each (n : Nat) (write : α → Value) (a? : Option α) :
    one n write a? = each n write a?.toList := rfl

@[simp] theorem getLast?_toList (a? : Option α) : a?.toList.getLast? = a? := by
  cases a? <;> rfl

/-! ## Text -/

@[simp] theorem texts_append (c c' : Content) (n : Nat) :
    (c ++ c').texts n = c.texts n ++ c'.texts n := by
  simp [texts, values_append]

@[simp] theorem texts_each (n : Nat) (as : List String) : (each n .text as).texts n = as := by
  simp only [texts, values_each, List.filterMap_map, Function.comp_def, List.filterMap_some]

@[simp] theorem texts_each_of_ne (h : m ≠ n) (as : List α) : (each m write as).texts n = [] := by
  simp [texts, values_each_of_ne h]

@[simp] theorem text?_append (c c' : Content) (n : Nat) :
    (c ++ c').text? n = (c'.text? n).or (c.text? n) := by
  simp [text?, List.getLast?_append]

@[simp] theorem text?_each (n : Nat) (as : List String) :
    (each n .text as).text? n = as.getLast? := by
  simp [text?]

@[simp] theorem text?_each_of_ne (h : m ≠ n) (as : List α) :
    (each m write as).text? n = none := by
  simp [text?, h]

/-! ## Numbers -/

@[simp] theorem number?_append (c c' : Content) (n : Nat) :
    (c ++ c').number? n = (c'.number? n).or (c.number? n) := by
  simp only [number?, values_append, List.filterMap_append, List.getLast?_append]

@[simp] theorem number?_each (n : Nat) (f : α → Nat) (as : List α) :
    (each n (fun a => .number (f a)) as).number? n = as.getLast?.map f := by
  simp only [number?, values_each, List.filterMap_map, Function.comp_def, List.filterMap_eq_map',
    List.getLast?_map]

@[simp] theorem number?_each_of_ne (h : m ≠ n) (as : List α) :
    (each m write as).number? n = none := by
  simp [number?, values_each_of_ne h]

@[simp] theorem int32?_append (c c' : Content) (n : Nat) :
    (c ++ c').int32? n = (c'.int32? n).or (c.int32? n) := by
  simp [int32?, Option.map_or]

@[simp] theorem int32?_each (n : Nat) (is : List Int32) :
    (each n .ofInt32 is).int32? n = is.getLast? := by
  have hnumber : (each n .ofInt32 is).number? n = is.getLast?.map Value.int32Number :=
    number?_each ..
  simp [int32?, hnumber, Function.comp_def, Value.ofNat_int32Number]

@[simp] theorem int32?_each_of_ne (h : m ≠ n) (as : List α) :
    (each m write as).int32? n = none := by
  simp [int32?, h]

@[simp] theorem flag?_append (c c' : Content) (n : Nat) :
    (c ++ c').flag? n = (c'.flag? n).or (c.flag? n) := by
  simp [flag?, Option.map_or]

@[simp] theorem flag?_each (n : Nat) (bs : List Bool) :
    (each n .ofFlag bs).flag? n = bs.getLast? := by
  have hnumber : (each n .ofFlag bs).number? n = bs.getLast?.map Bool.toNat := number?_each ..
  simp [flag?, hnumber, Function.comp_def]

@[simp] theorem flag?_each_of_ne (h : m ≠ n) (as : List α) :
    (each m write as).flag? n = none := by
  simp [flag?, h]

theorem packed_eq_each (n : Nat) (is : List Int32) :
    packed n is =
      each n (fun is => .numbers (is.map Value.int32Number)) (if is = [] then [] else [is]) := by
  unfold packed
  split <;> rfl

@[simp] theorem int32s_append (c c' : Content) (n : Nat) :
    (c ++ c').int32s n = c.int32s n ++ c'.int32s n := by
  simp [int32s, values_append]

@[simp] theorem int32s_packed (n : Nat) (is : List Int32) : (packed n is).int32s n = is := by
  rw [packed_eq_each]
  split <;> simp_all [int32s, values_each, Function.comp_def, Value.ofNat_int32Number]

@[simp] theorem int32s_each_of_ne (h : m ≠ n) (as : List α) :
    (each m write as).int32s n = [] := by
  simp [int32s, values_each_of_ne h]

/-! ## Messages -/

@[simp] theorem parts_append (c c' : Content) (n : Nat) :
    (c ++ c').parts n = c.parts n ++ c'.parts n := by
  simp [parts, values_append]

@[simp] theorem parts_each (n : Nat) (f : α → Content) (as : List α) :
    (each n (fun a => .message (f a)) as).parts n = as.map f := by
  simp only [parts, values_each, List.filterMap_map, Function.comp_def, List.filterMap_eq_map']

@[simp] theorem parts_each_of_ne (h : m ≠ n) (as : List α) : (each m write as).parts n = [] := by
  simp [parts, values_each_of_ne h]

@[simp] theorem part?_append (c c' : Content) (n : Nat) :
    (c ++ c').part? n = (c.part? n).merge (· ++ ·) (c'.part? n) := by
  rw [part?, part?, part?, parts_append]
  cases c.parts n <;> cases c'.parts n <;> simp

@[simp] theorem part?_each_toList (n : Nat) (f : α → Content) (a? : Option α) :
    (each n (fun a => .message (f a)) a?.toList).part? n = a?.map f := by
  cases a? <;> simp [part?]

@[simp] theorem part?_each_of_ne (h : m ≠ n) (as : List α) :
    (each m write as).part? n = none := by
  simp [part?, h]

end Content

end ProtoTypings.Wire

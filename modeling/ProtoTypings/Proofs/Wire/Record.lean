import ProtoTypings.Wire.Record

/-!
# Records read back

What the encoders write is read back, and what comes behind it is left alone: numbers of 64 bits
(`Varint.decode_encode`), payloads (`Payload.decode_encode`) and records (`Record.decode_encode`),
so that a sequence of records is taken apart into just these records (`Record.decodeAll_flatMap`).
-/

namespace ProtoTypings.Wire

namespace Varint

/-- Numbers below it fit into one byte and `room` more. -/
def limit : (room : Nat) → Nat
  | 0 => 2
  | room + 1 => 128 * limit room

theorem limit_nine : limit 9 = UInt64.size := rfl

theorem decodeWithin_encode {room n : Nat} (h : n < limit room) (rest : List UInt8) :
    decodeWithin room (encode n ++ rest) = some (n, rest) := by
  induction room generalizing n with
  | zero =>
    have hn : n < 2 := h
    have hbyte : (UInt8.ofNat n).toNat = n := UInt8.toNat_ofNat_of_lt (by simp [UInt8.size]; omega)
    have hle : UInt8.ofNat n ≤ 1 := by
      rw [UInt8.le_iff_toNat_le, hbyte]
      exact Nat.le_of_lt_succ hn
    rw [encode, if_pos (by omega), List.singleton_append, decodeWithin, if_pos hle, hbyte]
  | succ room ih =>
    rw [encode]
    split
    · next hn =>
      have hbyte : (UInt8.ofNat n).toNat = n :=
        UInt8.toNat_ofNat_of_lt (by simp [UInt8.size]; omega)
      have hlt : UInt8.ofNat n < 128 := by
        rw [UInt8.lt_iff_toNat_lt, hbyte]
        exact hn
      rw [List.singleton_append, decodeWithin, if_pos hlt, hbyte]
    · next hn =>
      have hbyte : (UInt8.ofNat (n % 128 + 128)).toNat = n % 128 + 128 :=
        UInt8.toNat_ofNat_of_lt (by simp [UInt8.size]; omega)
      have hge : ¬ UInt8.ofNat (n % 128 + 128) < 128 := by
        rw [UInt8.lt_iff_toNat_lt, hbyte]
        exact Nat.not_lt.mpr (Nat.le_add_left 128 _)
      have hlimit : n / 128 < limit room := Nat.div_lt_of_lt_mul h
      have hsum : n % 128 + 128 - 128 + 128 * (n / 128) = n := by omega
      rw [List.cons_append, decodeWithin, if_neg hge, ih hlimit]
      simp only [hbyte, hsum]

theorem decode_encode {n : Nat} (h : n < UInt64.size) (rest : List UInt8) :
    decode (encode n ++ rest) = some (n, rest) :=
  decodeWithin_encode (limit_nine ▸ h) rest

theorem decodeAll_of_decode {bs rest : List UInt8} {n : Nat} (h : decode bs = some (n, rest)) :
    decodeAll bs = (decodeAll rest).map (n :: ·) := by
  have hne : bs ≠ [] := by
    rintro rfl
    cases h
  rw [decodeAll, if_neg hne]
  split
  · next hd =>
    cases h.symm.trans hd
    rfl
  · next hd => cases h.symm.trans hd

theorem decodeAll_flatMap {ns : List Nat} (h : ∀ n ∈ ns, n < UInt64.size) :
    decodeAll (ns.flatMap encode) = some ns := by
  induction ns with
  | nil =>
    rw [decodeAll]
    rfl
  | cons n ns ih =>
    obtain ⟨hn, hns⟩ := List.forall_mem_cons.mp h
    rw [List.flatMap_cons, decodeAll_of_decode (decode_encode hn _), ih hns]
    rfl

end Varint

theorem take?_append {n : Nat} {front : List UInt8} (h : front.length = n) (rest : List UInt8) :
    take? n (front ++ rest) = some (front, rest) := by
  subst h
  simp [take?]

namespace Payload

/-- The payload can be written: its numbers have 64 bits, and fixed payloads their size. -/
def Fits : Payload → Prop
  | varint n => n < UInt64.size
  | fixed64 bs => bs.length = 8
  | bytes bs => bs.length < UInt64.size
  | groupStart => True
  | groupEnd => True
  | fixed32 bs => bs.length = 4

theorem wireType_lt (p : Payload) : p.wireType < 8 := by
  cases p <;> simp [wireType]

theorem decode_encode {p : Payload} (h : p.Fits) (rest : List UInt8) :
    decode p.wireType (p.encode ++ rest) = some (p, rest) := by
  cases p with
  | varint n =>
    have hn := Varint.decode_encode h rest
    simp [decode, wireType, encode, hn]
  | fixed64 bs =>
    simp [decode, wireType, encode, take?_append h]
  | bytes bs =>
    have hn := Varint.decode_encode h (bs ++ rest)
    simp [decode, wireType, encode, hn, take?_append rfl]
  | groupStart => rfl
  | groupEnd => rfl
  | fixed32 bs =>
    simp [decode, wireType, encode, take?_append h]

end Payload

namespace Record

structure Fits (r : Record) : Prop where
  number_pos : 0 < r.number
  key_lt : r.key < 0x100000000
  payload : r.payload.Fits

theorem decode_encode {r : Record} (h : r.Fits) (rest : List UInt8) :
    decode (r.encode ++ rest) = some (r, rest) := by
  have hpos := h.number_pos
  have hlt := r.payload.wireType_lt
  have hkey : r.key = 8 * r.number + r.payload.wireType := rfl
  have hbound := h.key_lt
  have hk := Varint.decode_encode (n := r.key) (by simp [UInt64.size]; omega)
    (r.payload.encode ++ rest)
  have hmod : r.key % 8 = r.payload.wireType := by omega
  have hdiv : r.key / 8 = r.number := by omega
  rw [encode, List.append_assoc, decode, hk, Option.bind_some]
  dsimp only
  rw [if_pos ⟨by omega, hbound⟩, hmod, hdiv, Payload.decode_encode h.payload]
  rfl

theorem decodeAll_of_decode {bs rest : List UInt8} {r : Record} (h : decode bs = some (r, rest)) :
    decodeAll bs = (decodeAll rest).map (r :: ·) := by
  have hne : bs ≠ [] := by
    rintro rfl
    cases h
  rw [decodeAll, if_neg hne]
  split
  · next hd =>
    cases h.symm.trans hd
    rfl
  · next hd => cases h.symm.trans hd

theorem decodeAll_flatMap {rs : List Record} (h : ∀ r ∈ rs, r.Fits) :
    decodeAll (rs.flatMap encode) = some rs := by
  induction rs with
  | nil =>
    rw [decodeAll]
    rfl
  | cons r rs ih =>
    obtain ⟨hr, hrs⟩ := List.forall_mem_cons.mp h
    rw [List.flatMap_cons, decodeAll_of_decode (decode_encode hr _), ih hrs]
    rfl

end Record

end ProtoTypings.Wire

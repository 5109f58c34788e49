import ProtoTypings.Wire.Varint

/-!
# Records

The bytes of a message are a sequence of records, each with a field number and a payload. Which
records there are follows from the bytes alone; what a payload means is up to the schema. A group
is a record that opens it, the records in it, and a record that closes it.
-/

namespace ProtoTypings.Wire

inductive Payload where
  | varint (n : Nat)
  | fixed64 (bs : List UInt8)
  | bytes (bs : List UInt8)
  | groupStart
  | groupEnd
  | fixed32 (bs : List UInt8)

structure Record where
  number : Nat
  payload : Payload

/-- The first `n` bytes and those behind them, if there are as many. -/
def take? (n : Nat) (bs : List UInt8) : Option (List UInt8 × List UInt8) :=
  let front := bs.take n
  if front.length = n then some (front, bs.drop n) else none

theorem take?_shortens {n : Nat} {bs front rest : List UInt8}
    (h : take? n bs = some (front, rest)) : rest.length ≤ bs.length := by
  dsimp only [take?] at h
  split at h
  · simp only [Option.some.injEq, Prod.mk.injEq] at h
    simp [← h.2]
  · simp at h

namespace Payload

def wireType : Payload → Nat
  | varint _ => 0
  | fixed64 _ => 1
  | bytes _ => 2
  | groupStart => 3
  | groupEnd => 4
  | fixed32 _ => 5

def encode : Payload → List UInt8
  | varint n => Varint.encode n
  | fixed64 bs => bs
  | bytes bs => Varint.encode bs.length ++ bs
  | groupStart => []
  | groupEnd => []
  | fixed32 bs => bs

def decode (wireType : Nat) (bs : List UInt8) : Option (Payload × List UInt8) :=
  match wireType with
  | 0 => (Varint.decode bs).map fun (n, rest) => (varint n, rest)
  | 1 => (take? 8 bs).map fun (front, rest) => (fixed64 front, rest)
  | 2 => (Varint.decode bs).bind fun (n, rest) =>
    (take? n rest).map fun (front, rest) => (bytes front, rest)
  | 3 => some (groupStart, bs)
  | 4 => some (groupEnd, bs)
  | 5 => (take? 4 bs).map fun (front, rest) => (fixed32 front, rest)
  | _ => none

theorem decode_shortens {wireType : Nat} {bs rest : List UInt8} {p : Payload}
    (h : decode wireType bs = some (p, rest)) : rest.length ≤ bs.length := by
  unfold decode at h
  split at h
  · obtain ⟨⟨n, r⟩, hd, heq⟩ := Option.map_eq_some_iff.mp h
    cases heq
    exact Nat.le_of_lt (Varint.decode_shortens hd)
  · obtain ⟨⟨n, r⟩, hd, heq⟩ := Option.map_eq_some_iff.mp h
    cases heq
    exact take?_shortens hd
  · obtain ⟨⟨n, r⟩, hd, h⟩ := Option.bind_eq_some_iff.mp h
    obtain ⟨⟨f, r'⟩, ht, heq⟩ := Option.map_eq_some_iff.mp h
    cases heq
    exact Nat.le_trans (take?_shortens ht) (Nat.le_of_lt (Varint.decode_shortens hd))
  · cases h; exact Nat.le_refl _
  · cases h; exact Nat.le_refl _
  · obtain ⟨⟨n, r⟩, hd, heq⟩ := Option.map_eq_some_iff.mp h
    cases heq
    exact take?_shortens hd
  · cases h

end Payload

namespace Record

/-- The lowest three bits of the key are the wire type, and the field number is above them. -/
def key (r : Record) : Nat := 8 * r.number + r.payload.wireType

def encode (r : Record) : List UInt8 := Varint.encode r.key ++ r.payload.encode

/-- The record at the start of the bytes and the bytes behind it. Keys have at most 32 bits, and no
field has the number 0. -/
def decode (bs : List UInt8) : Option (Record × List UInt8) :=
  (Varint.decode bs).bind fun (key, rest) =>
    if 8 ≤ key ∧ key < 0x100000000 then
      (Payload.decode (key % 8) rest).map fun (payload, rest) =>
        ({ number := key / 8, payload := payload }, rest)
    else none

theorem decode_shortens {bs rest : List UInt8} {r : Record} (h : decode bs = some (r, rest)) :
    rest.length < bs.length := by
  obtain ⟨⟨key, rest'⟩, hk, h⟩ := Option.bind_eq_some_iff.mp h
  have hlt := Varint.decode_shortens hk
  dsimp only at h
  split at h
  · obtain ⟨⟨p, rest''⟩, hp, heq⟩ := Option.map_eq_some_iff.mp h
    cases heq
    exact Nat.lt_of_le_of_lt (Payload.decode_shortens hp) hlt
  · cases h

/-- The records that make up the bytes. -/
def decodeAll (bs : List UInt8) : Option (List Record) :=
  if bs = [] then some []
  else match h : decode bs with
    | some (r, rest) =>
      have : rest.length < bs.length := decode_shortens h
      (decodeAll rest).map (r :: ·)
    | none => none
termination_by bs.length

end Record

end ProtoTypings.Wire

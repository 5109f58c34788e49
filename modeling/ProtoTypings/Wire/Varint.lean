/-!
# Varints

A number as bytes of seven bits each, the lowest first; every byte but the last has its high bit
set. `decode` reads at most ten bytes, the tenth at most 1, so that it never exceeds 64 bits;
zeros on top of a number are accepted.
-/

namespace ProtoTypings.Wire.Varint

def encode (n : Nat) : List UInt8 :=
  if n < 128 then [.ofNat n] else .ofNat (n % 128 + 128) :: encode (n / 128)

/-- The number at the start of the bytes and the bytes behind it; `room` more bytes may follow the
first one. -/
def decodeWithin : (room : Nat) → List UInt8 → Option (Nat × List UInt8)
  | _, [] => none
  | 0, b :: bs => if b ≤ 1 then some (b.toNat, bs) else none
  | room + 1, b :: bs =>
    if b < 128 then some (b.toNat, bs)
    else match decodeWithin room bs with
      | some (n, rest) => some (b.toNat - 128 + 128 * n, rest)
      | none => none

def decode (bs : List UInt8) : Option (Nat × List UInt8) := decodeWithin 9 bs

theorem decodeWithin_shortens {room : Nat} {bs : List UInt8} {n : Nat} {rest : List UInt8}
    (h : decodeWithin room bs = some (n, rest)) : rest.length < bs.length := by
  induction room, bs using decodeWithin.induct generalizing n rest with
  | case1 => simp [decodeWithin] at h
  | case2 => simp_all [decodeWithin]
  | case3 => simp_all [decodeWithin]
  | case4 => simp_all [decodeWithin]
  | case5 room b bs hb m r hr ih =>
    simp only [decodeWithin, hb, hr, if_false, Option.some.injEq, Prod.mk.injEq] at h
    have := ih hr
    simp only [← h.2, List.length_cons]
    omega
  | case6 => simp_all [decodeWithin]

theorem decode_shortens {bs : List UInt8} {n : Nat} {rest : List UInt8}
    (h : decode bs = some (n, rest)) : rest.length < bs.length := decodeWithin_shortens h

/-- The numbers that make up the bytes, with nothing behind the last one. -/
def decodeAll (bs : List UInt8) : Option (List Nat) :=
  if bs = [] then some []
  else match h : decode bs with
    | some (n, rest) =>
      have : rest.length < bs.length := decode_shortens h
      (decodeAll rest).map (n :: ·)
    | none => none
termination_by bs.length

end ProtoTypings.Wire.Varint

import ProtoTypings.Wire.Record
import ProtoTypings.Wire.Schema

/-!
# Values

A message as the list of its known fields in the order of their records. A schema says how the
payload of each record is read; records that it does not know are skipped, groups with all that is
in them. `decode` allows messages and skipped groups to nest up to a given depth.
-/

namespace ProtoTypings.Wire

inductive Value where
  | number (n : Nat)
  | numbers (ns : List Nat)
  | text (s : String)
  | bytes (bs : List UInt8)
  | double (bs : List UInt8)
  | message (content : List (Nat × Value))

/-- The known fields of a message, each with its number. -/
abbrev Content := List (Nat × Value)

/-! ## Writing -/

mutual

def Value.payload : Value → Payload
  | .number n => .varint n
  | .numbers ns => .bytes (ns.flatMap Varint.encode)
  | .text s => .bytes s.toUTF8.data.toList
  | .bytes bs => .bytes bs
  | .double bs => .fixed64 bs
  | .message c => .bytes (encodeContent c)

def encodeContent : List (Nat × Value) → List UInt8
  | [] => []
  | (n, v) :: c => Record.encode { number := n, payload := v.payload } ++ encodeContent c

end

def Content.encode (c : Content) : List UInt8 := encodeContent c

/-! ## Reading -/

/-- The value of a payload, where `message` reads the bytes of a message. A payload that does not
fit the shape, or text that is not UTF-8, is an error. -/
def Shape.decode (message : Schema → List UInt8 → Option Content) (shape : Shape) (p : Payload) :
    Option Value :=
  match shape, p with
  | .number, .varint n => some (.number n)
  | .numbers, .varint n => some (.numbers [n])
  | .numbers, .bytes bs => (Varint.decodeAll bs).map .numbers
  | .text, .bytes bs => (String.fromUTF8? bs.toByteArray).map .text
  | .bytes, .bytes bs => some (.bytes bs)
  | .double, .fixed64 bs => some (.double bs)
  | .message s, .bytes bs => (message s bs).map .message
  | _, _ => none

/-- The groups that are open after a record is skipped, given those that are open before it, the
innermost first. A group is closed by its own number only. All but the record that closes a group
count as one level below the groups that they are in. -/
def skip (depth : Nat) (groups : List Nat) (r : Record) : Option (List Nat) :=
  match r.payload, groups with
  | .groupEnd, g :: gs => if g = r.number then some gs else none
  | .groupEnd, [] => none
  | .groupStart, gs => if gs.length < depth then some (r.number :: gs) else none
  | _, gs => if gs.length < depth then some gs else none

/-- The known fields among the records that follow when `groups` are open. -/
def readContent (s : Schema) (depth : Nat) (message : Schema → List UInt8 → Option Content) :
    (groups : List Nat) → List Record → Option Content
  | [], [] => some []
  | _ :: _, [] => none
  | groups, r :: rs =>
    match if groups = [] then s.shape? r.number else none with
    | some shape => do
      let v ← shape.decode message r.payload
      let c ← readContent s depth message groups rs
      return (r.number, v) :: c
    | none => do
      let groups ← skip depth groups r
      readContent s depth message groups rs

namespace Content

/-- The content of a message. A field that is a message itself takes up one level of `depth`. -/
def decode : (depth : Nat) → Schema → List UInt8 → Option Content
  | 0, s, bs => (Record.decodeAll bs).bind (readContent s 0 (fun _ _ => none) [])
  | depth + 1, s, bs => (Record.decodeAll bs).bind (readContent s (depth + 1) (decode depth) [])

/-! ## Looking up -/

/-- The values of the fields with a number. -/
def values (c : Content) (n : Nat) : List Value := (c.filter (·.1 == n)).map (·.2)

def texts (c : Content) (n : Nat) : List String :=
  (c.values n).filterMap fun
    | .text s => some s
    | _ => none

/-- Of several texts the last counts. -/
def text? (c : Content) (n : Nat) : Option String := (c.texts n).getLast?

/-- Of several numbers the last counts. -/
def number? (c : Content) (n : Nat) : Option Nat :=
  ((c.values n).filterMap fun
    | .number n => some n
    | _ => none).getLast?

def flag? (c : Content) (n : Nat) : Option Bool := (c.number? n).map (· != 0)

/-- The low 32 bits of a number, as a signed one. -/
def int32? (c : Content) (n : Nat) : Option Int32 := (c.number? n).map Int32.ofNat

def int32s (c : Content) (n : Nat) : List Int32 :=
  (c.values n).flatMap fun
    | .numbers ns => ns.map Int32.ofNat
    | _ => []

def parts (c : Content) (n : Nat) : List Content :=
  (c.values n).filterMap fun
    | .message content => some content
    | _ => none

/-- Of several messages that stand for one, the later add to the earlier. -/
def part? (c : Content) (n : Nat) : Option Content :=
  let parts := c.parts n
  if parts.isEmpty then none else some parts.flatten

/-! ## Building -/

/-- A field for each element of a list. -/
def each {α : Type} (n : Nat) (write : α → Value) (as : List α) : Content :=
  as.map fun a => (n, write a)

/-- A field that may be left out. -/
def one {α : Type} (n : Nat) (write : α → Value) (a? : Option α) : Content :=
  each n write a?.toList

end Content

namespace Value

def ofFlag (b : Bool) : Value := .number b.toNat

/-- Negative numbers are written with 64 bits. -/
def int32Number (i : Int32) : Nat := (i.toInt % 0x10000000000000000).toNat

def ofInt32 (i : Int32) : Value := .number (int32Number i)

end Value

/-- A list of numbers in one record, or in none if there are no numbers. -/
def Content.packed (n : Nat) (is : List Int32) : Content :=
  if is = [] then [] else [(n, .numbers (is.map Value.int32Number))]

end ProtoTypings.Wire

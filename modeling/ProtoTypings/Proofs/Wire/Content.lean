import ProtoTypings.Proofs.Wire.Record
import ProtoTypings.Wire.Value

/-!
# Content read back

`Content.Fits s c` says that the fields of `c` are known to the schema `s` and hold values of the
right shapes, and `Content.nesting` how deep messages lie inside one another. Content that fits,
nests no deeper than is allowed and takes up fewer than 2⁶⁴ bytes is read back as it was written
(`Content.decode_encode`).
-/

namespace ProtoTypings.Wire

/-! ## Content that fits a schema -/

mutual

inductive Value.Fits : Shape → Value → Prop where
  | number {n : Nat} : n < UInt64.size → Value.Fits .number (.number n)
  | numbers {ns : List Nat} : (∀ n ∈ ns, n < UInt64.size) → Value.Fits .numbers (.numbers ns)
  | text {s : String} : Value.Fits .text (.text s)
  | bytes {bs : List UInt8} : Value.Fits .bytes (.bytes bs)
  | double {bs : List UInt8} : bs.length = 8 → Value.Fits .double (.double bs)
  | message {s : Schema} {c : Content} : Content.Fits s c → Value.Fits (.message s) (.message c)

inductive Content.Fits : Schema → Content → Prop where
  | nil {s : Schema} : Content.Fits s []
  | cons {s : Schema} {n : Nat} {v : Value} {shape : Shape} {c : Content} :
      s.shape? n = some shape → Value.Fits shape v → Content.Fits s c → Content.Fits s ((n, v) :: c)

end

mutual

/-- How many messages lie inside one another, the value itself included. -/
def Value.nesting : Value → Nat
  | .message c => contentNesting c + 1
  | .number _ | .numbers _ | .text _ | .bytes _ | .double _ => 0

def contentNesting : List (Nat × Value) → Nat
  | [] => 0
  | (_, v) :: c => max v.nesting (contentNesting c)

end

/-- How deep messages nest below the one with this content. -/
def Content.nesting (c : Content) : Nat := contentNesting c

theorem Schema.number_bounds {s : Schema} {n : Nat} {shape : Shape} (h : s.shape? n = some shape) :
    0 < n ∧ n < 1000 := by
  have hall : ∀ s : Schema, ∀ p ∈ s.fields, 0 < p.1 ∧ p.1 < 1000 := by
    intro s
    cases s <;> decide
  obtain ⟨before, after, hfields, -⟩ := List.lookup_eq_some_iff.mp h
  exact hall s (n, shape) (by rw [hfields]; exact List.mem_append_right _ List.mem_cons_self)

theorem fromUTF8?_toUTF8 (s : String) :
    String.fromUTF8? s.toUTF8.data.toList.toByteArray = some s := by
  have hbytes : s.toUTF8.data.toList.toByteArray = s.toByteArray :=
    ByteArray.ext (by rw [List.data_toByteArray, Array.toArray_toList, String.toUTF8])
  rw [hbytes, String.fromUTF8?, dif_pos s.isValidUTF8]
  rfl

namespace Content

variable {s : Schema} {c : Content}

theorem Fits.of_mem (h : Fits s c) {n : Nat} {v : Value} (hv : (n, v) ∈ c) :
    ∃ shape, s.shape? n = some shape ∧ Value.Fits shape v := by
  induction c with
  | nil => cases hv
  | cons p c ih =>
    cases h with
    | cons hshape hvalue hrest =>
      rcases List.mem_cons.mp hv with heq | hv
      · cases heq
        exact ⟨_, hshape, hvalue⟩
      · exact ih hrest hv

theorem nesting_le_of_mem {n : Nat} {v : Value} (hv : (n, v) ∈ c) : v.nesting ≤ c.nesting := by
  induction c with
  | nil => cases hv
  | cons p c ih =>
    rcases List.mem_cons.mp hv with heq | hv
    · subst heq
      exact Nat.le_max_left _ _
    · exact Nat.le_trans (ih hv) (Nat.le_max_right _ _)

theorem nesting_le {depth : Nat} (h : ∀ p ∈ c, p.2.nesting ≤ depth) : c.nesting ≤ depth := by
  induction c with
  | nil => exact Nat.zero_le _
  | cons p c ih =>
    obtain ⟨hp, hc⟩ := List.forall_mem_cons.mp h
    exact Nat.max_le.mpr ⟨hp, ih hc⟩

theorem nesting_lt_of_mem {n : Nat} {c' : Content} (hv : (n, .message c') ∈ c) :
    c'.nesting < c.nesting :=
  nesting_le_of_mem hv

/-! ## Records of content -/

def record (p : Nat × Value) : Record := { number := p.1, payload := p.2.payload }

theorem encode_eq (c : Content) : c.encode = (c.map record).flatMap Record.encode := by
  unfold encode
  induction c with
  | nil => rfl
  | cons p c ih => rw [encodeContent, ih]; rfl

theorem length_payload_le_of_mem {n : Nat} {v : Value} (hv : (n, v) ∈ c) :
    v.payload.encode.length ≤ c.encode.length := by
  have hmem : (record (n, v)).encode ∈ (c.map record).map Record.encode :=
    List.mem_map_of_mem (List.mem_map_of_mem hv)
  have hle : (record (n, v)).encode.length ≤ c.encode.length := by
    rw [encode_eq, List.flatMap]
    exact (List.sublist_flatten_of_mem hmem).length_le
  rw [Record.encode, List.length_append] at hle
  exact Nat.le_trans (Nat.le_add_left _ _) hle

theorem length_le_of_mem {n : Nat} {c' : Content} (hv : (n, .message c') ∈ c) :
    c'.encode.length ≤ c.encode.length := by
  have hle := length_payload_le_of_mem hv
  rw [Value.payload, Payload.encode, List.length_append] at hle
  exact Nat.le_trans (Nat.le_add_left _ _) hle

end Content

theorem Value.Fits.payload {shape : Shape} {v : Value} (h : v.Fits shape)
    (hsize : v.payload.encode.length < UInt64.size) : v.payload.Fits := by
  have hbytes : ∀ bs : List UInt8, (Payload.bytes bs).encode.length < UInt64.size →
      (Payload.bytes bs).Fits := by
    intro bs hbs
    rw [Payload.encode, List.length_append] at hbs
    exact Nat.lt_of_le_of_lt (Nat.le_add_left _ _) hbs
  cases h with
  | number hn => exact hn
  | double hbs => exact hbs
  | numbers | text | bytes | message => exact hbytes _ hsize

theorem Shape.decode_payload {message : Schema → List UInt8 → Option Content} {shape : Shape}
    {v : Value} (h : v.Fits shape)
    (hmessage : ∀ s c, Content.Fits s c → v = .message c → message s c.encode = some c) :
    shape.decode message v.payload = some v := by
  cases h with
  | number hn => rfl
  | numbers hns => simp [decode, Value.payload, Varint.decodeAll_flatMap hns]
  | text => simp only [decode, Value.payload, fromUTF8?_toUTF8, Option.map_some]
  | bytes => rfl
  | double hbs => rfl
  | @message s c hc =>
    have hread := hmessage s c hc rfl
    rw [Content.encode] at hread
    simp only [decode, Value.payload, hread, Option.map_some]

namespace Content

variable {s : Schema} {c : Content}

theorem Fits.record (h : Fits s c) (hsize : c.encode.length < UInt64.size) :
    ∀ r ∈ c.map record, r.Fits := by
  intro r hr
  obtain ⟨⟨n, v⟩, hv, rfl⟩ := List.mem_map.mp hr
  obtain ⟨shape, hshape, hvalue⟩ := h.of_mem hv
  obtain ⟨hpos, hlt⟩ := Schema.number_bounds hshape
  have hwire := v.payload.wireType_lt
  refine ⟨hpos, ?_, hvalue.payload (Nat.lt_of_le_of_lt (length_payload_le_of_mem hv) hsize)⟩
  show 8 * n + v.payload.wireType < 0x100000000
  omega

theorem readContent_record {depth : Nat} {message : Schema → List UInt8 → Option Content}
    (h : ∀ p ∈ c, ∃ shape, s.shape? p.1 = some shape ∧
      shape.decode message p.2.payload = some p.2) :
    readContent s depth message [] (c.map record) = some c := by
  induction c with
  | nil => rfl
  | cons p c ih =>
    obtain ⟨⟨shape, hshape, hdecode⟩, hrest⟩ := List.forall_mem_cons.mp h
    rw [List.map_cons, readContent]
    simp only [record, if_true, hshape, hdecode, ih hrest]
    rfl

/-! ## Reading back -/

/-- Messages are read back if they are read back at one level less. -/
theorem Fits.readContent (h : Fits s c) (hsize : c.encode.length < UInt64.size) {depth : Nat}
    {message : Schema → List UInt8 → Option Content}
    (hmessage : ∀ n s' c', (n, .message c') ∈ c → Fits s' c' → message s' c'.encode = some c') :
    (Record.decodeAll c.encode).bind (readContent s depth message []) = some c := by
  rw [encode_eq, Record.decodeAll_flatMap (h.record hsize), Option.bind_some]
  refine readContent_record fun ⟨n, v⟩ hv => ?_
  obtain ⟨shape, hshape, hvalue⟩ := h.of_mem hv
  refine ⟨shape, hshape, Shape.decode_payload hvalue fun s' c' hc' heq => ?_⟩
  subst heq
  exact hmessage n s' c' hv hc'

theorem decode_encode {depth : Nat} (h : Fits s c) (hnesting : c.nesting ≤ depth)
    (hsize : c.encode.length < UInt64.size) : decode depth s c.encode = some c := by
  induction depth generalizing s c with
  | zero =>
    refine h.readContent hsize fun n s' c' hv _ => ?_
    exact absurd (Nat.lt_of_lt_of_le (nesting_lt_of_mem hv) hnesting) (Nat.not_lt_zero _)
  | succ depth ih =>
    refine h.readContent hsize fun n s' c' hv hc' => ih hc' ?_ ?_
    · exact Nat.le_of_lt_succ (Nat.lt_of_lt_of_le (nesting_lt_of_mem hv) hnesting)
    · exact Nat.lt_of_le_of_lt (length_le_of_mem hv) hsize

end Content

end ProtoTypings.Wire

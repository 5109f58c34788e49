import ProtoTypings.Proofs.Keyed
import ProtoTypings.Proofs.Place

/-!
# Paths

Comments refer to the parts of a file by paths of numbers. A `Part` is a type, or one of the fields
or values that a type consists of; `Part.path` is the path of a part. The walk over a file gives
every type the path of its place (`File.forall₂_places_paths`). In a file whose lists are not too
long for an index (`File.Short`), no two parts have the same path (`File.Short.eq_of_path_eq`).
-/

namespace ProtoTypings

/-! ## Paths of parts -/

/-- The number of a list field in a message, and an index into the list. -/
def Step.hop : Step → Int32 × Nat
  | .message i => (3, i)
  | .enum i => (4, i)

/-- In a file the lists of messages and enums have other numbers than in a message. -/
def Place.hops : Place → List (Int32 × Nat)
  | [] => []
  | .message i :: p => (4, i) :: p.map Step.hop
  | .enum i :: p => (5, i) :: p.map Step.hop

inductive Part where
  | type (p : Place)
  /-- The `k`-th field of the message, or the `k`-th value of the enum, at a place. -/
  | item (p : Place) (k : Nat)
  deriving DecidableEq

namespace Part

def place : Part → Place
  | .type p => p
  | .item p _ => p

def hops : Part → List (Int32 × Nat)
  | .type p => p.hops
  | .item p k => p.hops ++ [(2, k)]

def pathOf (hops : List (Int32 × Nat)) : List Int32 := hops.flatMap fun h => [h.1, .ofNat h.2]

def path (x : Part) : List Int32 := pathOf x.hops

theorem path_item (p : Place) (k : Nat) :
    (item p k).path = (type p).path ++ [2, .ofNat k] := by
  simp [path, hops, pathOf]

end Part

/-! ## The walk and the paths -/

section Walk

variable {keep : Message → Bool} {outer : Scope}

theorem map_path_enumNodes {path : List Int32} {pathAt : Place → List Int32}
    (h : ∀ i, pathAt [.enum i] = path ++ [.ofNat i]) (es : List Enum) :
    (enumNodes outer path es).map (·.path) = (enumPlaces es).map pathAt := by
  apply List.ext_getElem
  · simp [enumPlaces, enumNodes]
  · intro i _ _
    simp [enumPlaces, enumNodes, h]

theorem map_path_messageNodes {ms : List Message}
    (ih : ∀ m ∈ ms, ∀ path, (m.nodes keep outer path).map (·.path) =
      (m.places keep).map fun p => path ++ Part.pathOf (p.map Step.hop))
    {path : List Int32} {pathAt : Place → List Int32}
    (h : ∀ k p, pathAt (.message k :: p) = path ++ [.ofNat k] ++ Part.pathOf (p.map Step.hop))
    (i : Nat) :
    (messageNodes keep outer path i ms).map (·.path) = (messagePlaces keep i ms).map pathAt := by
  induction ms generalizing i with
  | nil => rfl
  | cons m ms rest =>
    rw [messagePlaces, messageNodes, List.map_append, List.map_append, List.map_map,
      ih m List.mem_cons_self, rest fun n hn => ih n (List.mem_cons_of_mem _ hn)]
    congr 1
    exact List.map_congr_left fun p _ => (h i p).symm

theorem Message.map_path_nodes (m : Message) : ∀ (outer : Scope) (path : List Int32),
    (m.nodes keep outer path).map (·.path) =
      (m.places keep).map fun p => path ++ Part.pathOf (p.map Step.hop) := by
  induction m using Message.induct with
  | step m ih =>
    intro outer path
    rw [places_eq, nodes_eq]
    split
    · rw [List.cons_append, List.cons_append, List.map_cons, List.map_cons, List.map_append,
        List.map_append]
      congr 1
      · exact (List.append_nil path).symm
      congr 1
      · exact map_path_messageNodes (fun n hn => ih n hn _)
          (fun k p => by simp [Part.pathOf, Step.hop]) 0
      · exact map_path_enumNodes (fun i => by simp [Part.pathOf, Step.hop]) m.enums
    · rfl

theorem File.map_path_nodes (f : File) :
    (f.nodes keep).map (·.path) = (f.places keep).map fun p => (Part.type p).path := by
  rw [places, nodes, List.map_append, List.map_append]
  congr 1
  · exact map_path_messageNodes (fun m _ => m.map_path_nodes []) (fun k p => rfl) 0
  · exact map_path_enumNodes (fun i => rfl) f.enums

/-- The walk meets at each step what stands at the next place, under the path of this place. -/
theorem File.forall₂_places_paths (f : File) :
    List.Forall₂ (fun p n => f.nodeAt? keep p = some n.content ∧ n.path = (Part.type p).path)
      (f.places keep) (f.nodes keep) := by
  have hmap : (f.places keep).map (fun p => (f.nodeAt? keep p, (Part.type p).path)) =
      (f.nodes keep).map fun n => (some n.content, n.path) := by
    rw [← List.zip_map', ← List.zip_map', f.map_nodeAt?_places, f.map_path_nodes]
  exact (forall₂_eq_iff.mpr hmap).imp fun p n h =>
    ⟨congrArg Prod.fst h, (congrArg Prod.snd h).symm⟩

end Walk

/-! ## Different parts have different paths -/

/-- The first number that an index cannot be. -/
def indexLimit : Nat := 2147483648

theorem ofNat_index_inj {i j : Nat} (hi : i < indexLimit) (hj : j < indexLimit)
    (h : Int32.ofNat i = Int32.ofNat j) : i = j := by
  have hint : ((i : Nat) : Int) = j := by
    rw [← Int32.toInt_ofNat_of_lt hi, ← Int32.toInt_ofNat_of_lt hj, h]
  exact Int.ofNat.inj hint

namespace Part

variable {x y : Part}

/-- All indices on the way to the part can be written in a path. -/
def Short (x : Part) : Prop := ∀ h ∈ x.hops, h.2 < indexLimit

theorem pathOf_inj {as bs : List (Int32 × Nat)} (ha : ∀ h ∈ as, h.2 < indexLimit)
    (hb : ∀ h ∈ bs, h.2 < indexLimit) (h : pathOf as = pathOf bs) : as = bs := by
  induction as generalizing bs with
  | nil =>
    cases bs with
    | nil => rfl
    | cons b bs => cases h
  | cons a as ih =>
    cases bs with
    | nil => cases h
    | cons b bs =>
      obtain ⟨ha, has⟩ := List.forall_mem_cons.mp ha
      obtain ⟨hb, hbs⟩ := List.forall_mem_cons.mp hb
      obtain ⟨hnumber, h⟩ := List.cons.inj h
      obtain ⟨hindex, h⟩ := List.cons.inj h
      rw [Prod.ext hnumber (ofNat_index_inj ha hb hindex), ih has hbs h]

theorem hop_injective : Function.Injective Step.hop := by
  intro s t h
  cases s <;> cases t <;> simp_all [Step.hop]

theorem place_hops_inj {p q : Place} (h : p.hops = q.hops) : p = q := by
  have hbelow {a b : Int32 × Nat} {p q : Place}
      (h : a :: p.map Step.hop = b :: q.map Step.hop) : a = b ∧ p = q :=
    ⟨(List.cons.inj h).1, hop_injective.list_map (List.cons.inj h).2⟩
  match p, q, h with
  | [], [], _ => rfl
  | .message i :: p, .message j :: q, h =>
    obtain ⟨hij, rfl⟩ := hbelow h
    rw [(Prod.mk.inj hij).2]
  | .enum i :: p, .enum j :: q, h =>
    obtain ⟨hij, rfl⟩ := hbelow h
    rw [(Prod.mk.inj hij).2]
  | .message i :: p, .enum j :: q, h => exact absurd (hbelow h).1 (by simp)
  | .enum i :: p, .message j :: q, h => exact absurd (hbelow h).1 (by simp)

/-- On the way to a type there are only lists of types. -/
theorem number_ne_of_mem_hops {p : Place} {h : Int32 × Nat} (hh : h ∈ p.hops) : h.1 ≠ 2 := by
  have hbelow {p : Place} (hh : h ∈ p.map Step.hop) : h.1 ≠ 2 := by
    obtain ⟨s, -, rfl⟩ := List.mem_map.mp hh
    cases s <;> simp [Step.hop]
  match p, hh with
  | .message i :: p, hh =>
    rcases List.mem_cons.mp hh with rfl | hh
    · simp
    · exact hbelow hh
  | .enum i :: p, hh =>
    rcases List.mem_cons.mp hh with rfl | hh
    · simp
    · exact hbelow hh

theorem hops_inj (h : x.hops = y.hops) : x = y := by
  have hitem {p q : Place} {k : Nat} : p.hops ≠ q.hops ++ [(2, k)] := fun heq =>
    number_ne_of_mem_hops (heq ▸ List.mem_concat_self) rfl
  cases x with
  | type p =>
    cases y with
    | type q => rw [place_hops_inj h]
    | item q l => exact absurd h hitem
  | item p k =>
    cases y with
    | type q => exact absurd h.symm hitem
    | item q l =>
      obtain ⟨hplace, hlast⟩ := List.append_inj' h rfl
      obtain ⟨-, rfl⟩ := Prod.mk.inj (List.cons.inj hlast).1
      rw [place_hops_inj hplace]

theorem Short.eq_of_path_eq (hx : x.Short) (hy : y.Short) (h : x.path = y.path) : x = y :=
  hops_inj (pathOf_inj hx hy h)

end Part

/-! ## The parts of a file -/

namespace Node.Body

def isDeprecated : Node.Body → Bool
  | .message m => m.isDeprecated
  | .enum e => e.isDeprecated

/-- Of each field or value in order, whether it is deprecated. -/
def marks : Node.Body → List Bool
  | .message m => m.fields.map (·.isDeprecated)
  | .enum e => e.values.map (·.isDeprecated)

/-- No list in the message or enum is too long for its indices. -/
def Short : Node.Body → Prop
  | .message m => m.fields.length < indexLimit ∧ m.nested.length < indexLimit ∧
      m.enums.length < indexLimit
  | .enum e => e.values.length < indexLimit

instance : DecidablePred Short
  | .message _ => inferInstanceAs (Decidable (_ ∧ _))
  | .enum _ => inferInstanceAs (Decidable (_ < _))

theorem Short.marks {b : Node.Body} (h : b.Short) : b.marks.length < indexLimit := by
  cases b with
  | message m => simpa [Body.marks] using h.1
  | enum e => simpa [Body.marks, Short] using h

end Node.Body

/-- The file has such a part, perhaps in a map entry. -/
def File.HasPart (f : File) : Part → Prop
  | .type p => ∃ s b, f.typeAt? p = some (s, b)
  | .item p k => ∃ s b, f.typeAt? p = some (s, b) ∧ k < b.marks.length

/-- No list of types, fields or values in the file is too long for its indices. -/
def File.Short (f : File) : Prop :=
  f.messages.length < indexLimit ∧ f.enums.length < indexLimit ∧ ∀ n ∈ f.allNodes, n.body.Short

instance : DecidablePred File.Short := fun _ => inferInstanceAs (Decidable (_ ∧ _ ∧ _))

theorem lt_length_of_getElem? {α : Type} {as : List α} {i : Nat} {a : α} (h : as[i]? = some a) :
    i < as.length := (List.getElem?_eq_some_iff.mp h).1

theorem Message.index_lt_of_nodeAt? {keep : Message → Bool} {s : Scope} {b : Node.Body}
    {p : Place} : ∀ {outer : Scope} {m : Message},
    (∀ q s' b', m.nodeAt? keep outer q = some (s', b') → b'.Short) →
    m.nodeAt? keep outer p = some (s, b) → ∀ h ∈ p.map Step.hop, h.2 < indexLimit := by
  induction p with
  | nil => exact fun _ _ h hh => absurd hh List.not_mem_nil
  | cons step p ih =>
    intro outer m hshort hp
    obtain ⟨-, hnested, henums⟩ := hshort [] _ _ rfl
    match step, p with
    | .message i, p =>
      simp only [nodeAt?, Option.bind_eq_some_iff, Option.filter_eq_some_iff] at hp
      obtain ⟨n, ⟨hn, hk⟩, hp⟩ := hp
      have hi : i < indexLimit := Nat.lt_trans (lt_length_of_getElem? hn) hnested
      refine List.forall_mem_cons.mpr ⟨hi, ih (fun q s' b' hq => ?_) hp⟩
      refine hshort (.message i :: q) s' b' ?_
      rw [nodeAt?, hn, Option.filter_some, if_pos hk]
      exact hq
    | .enum i, [] =>
      obtain ⟨e, he, -⟩ := Option.map_eq_some_iff.mp hp
      exact List.forall_mem_singleton.mpr (Nat.lt_trans (lt_length_of_getElem? he) henums)
    | .enum i, _ :: _ => cases hp

namespace File

variable {f : File}

theorem Short.body (h : f.Short) {p : Place} {s : Scope} {b : Node.Body}
    (hp : f.typeAt? p = some (s, b)) : b.Short := by
  obtain ⟨n, hn, hc⟩ := exists_node_iff.mpr ⟨p, hp⟩
  obtain rfl : n.body = b := congrArg Prod.snd hc
  exact h.2.2 n hn

theorem Short.index_lt (h : f.Short) {p : Place} {s : Scope} {b : Node.Body}
    (hp : f.typeAt? p = some (s, b)) : ∀ hop ∈ p.hops, hop.2 < indexLimit := by
  match p with
  | [] => exact fun hop hh => absurd hh List.not_mem_nil
  | .message i :: p =>
    have hp' := hp
    simp only [nodeAt?, Option.bind_eq_some_iff, Option.filter_eq_some_iff] at hp'
    obtain ⟨m, ⟨hm, -⟩, hp'⟩ := hp'
    have hi : i < indexLimit := Nat.lt_trans (lt_length_of_getElem? hm) h.1
    refine List.forall_mem_cons.mpr ⟨hi, Message.index_lt_of_nodeAt? (fun q s' b' hq => ?_) hp'⟩
    refine h.body (p := .message i :: q) (s := s') ?_
    rw [typeAt?, nodeAt?, hm]
    exact hq
  | [.enum i] =>
    obtain ⟨e, he, -⟩ := Option.map_eq_some_iff.mp hp
    exact List.forall_mem_singleton.mpr (Nat.lt_trans (lt_length_of_getElem? he) h.2.1)
  | .enum i :: _ :: _ => cases hp

theorem Short.part (h : f.Short) {x : Part} (hx : f.HasPart x) : x.Short := by
  cases x with
  | type p =>
    obtain ⟨s, b, hp⟩ := hx
    exact h.index_lt hp
  | item p k =>
    obtain ⟨s, b, hp, hk⟩ := hx
    refine List.forall_mem_append.mpr ⟨h.index_lt hp, List.forall_mem_singleton.mpr ?_⟩
    exact Nat.lt_trans hk (h.body hp).marks

theorem Short.eq_of_path_eq (h : f.Short) {x y : Part} (hx : f.HasPart x) (hy : f.HasPart y)
    (hpath : x.path = y.path) : x = y :=
  (h.part hx).eq_of_path_eq (h.part hy) hpath

end File

end ProtoTypings

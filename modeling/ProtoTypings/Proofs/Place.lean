import Mathlib.Data.List.Forall2
import Mathlib.Data.List.Lex
import ProtoTypings.Node

/-!
# Places

A place is the way from a file down to one of its types, one `Step` at a time; `Place.Before` is
the pre-order. `File.nodeAt? keep p` is the type at place `p`, found by going down to it; a message
that is not kept hides all below it. `File.places keep` lists the places at which there is a type:
they are in pre-order (`places_sorted`), none is missing (`mem_places`), and the walk
`File.nodes keep` meets the types in just this order (`map_nodeAt?_places`).
-/

namespace ProtoTypings

/-- From a file or a message down to the `i`-th message or the `i`-th enum in it. -/
inductive Step where
  | message (i : Nat)
  | enum (i : Nat)
  deriving DecidableEq

/-- Messages come before enums, and each kind in the order of its list. -/
def Step.Before : Step → Step → Prop
  | .message i, .message j => i < j
  | .message _, .enum _ => True
  | .enum _, .message _ => False
  | .enum i, .enum j => i < j

abbrev Place := List Step

/-- A place comes before those below it. Of two that part ways, the one of the earlier step comes
first. -/
def Place.Before : Place → Place → Prop := List.Lex Step.Before

instance : Std.Asymm Step.Before where
  asymm
    | .message _, .message _, h, h' => Nat.lt_asymm h h'
    | .message _, .enum _, _, h' => h'
    | .enum _, .enum _, h, h' => Nat.lt_asymm h h'

instance : Std.Trichotomous Step.Before where
  trichotomous
    | .message _, .message _, h, h' =>
      congrArg Step.message (Nat.le_antisymm (Nat.le_of_not_lt h') (Nat.le_of_not_lt h))
    | .message _, .enum _, h, _ => absurd trivial h
    | .enum _, .message _, _, h' => absurd trivial h'
    | .enum _, .enum _, h, h' =>
      congrArg Step.enum (Nat.le_antisymm (Nat.le_of_not_lt h') (Nat.le_of_not_lt h))

instance : Std.Asymm Place.Before := inferInstanceAs (Std.Asymm (List.Lex Step.Before))

instance : Std.Trichotomous Place.Before :=
  inferInstanceAs (Std.Trichotomous (List.Lex Step.Before))

/-! ## Going down to a place -/

section NodeAt

variable (keep : Message → Bool)

/-- The type at a place in a message that is declared in `outer`. -/
def Message.nodeAt? (outer : Scope) (m : Message) : Place → Option (Scope × Node.Body)
  | [] => some (outer ++ [m.name], .message m)
  | .message i :: p =>
    (m.nested[i]?.filter keep).bind fun n => n.nodeAt? (outer ++ [m.name]) p
  | [.enum i] => m.enums[i]?.map fun e => (outer ++ [m.name] ++ [e.name], .enum e)
  | .enum _ :: _ :: _ => none

def File.nodeAt? (f : File) : Place → Option (Scope × Node.Body)
  | [] => none
  | .message i :: p => (f.messages[i]?.filter keep).bind fun m => m.nodeAt? keep [] p
  | [.enum i] => f.enums[i]?.map fun e => ([e.name], .enum e)
  | .enum _ :: _ :: _ => none

/-- A type at any depth, map entries and what is nested in them included. -/
abbrev File.typeAt? (f : File) : Place → Option (Scope × Node.Body) := f.nodeAt? fun _ => true

/-- A type that is declared in TypeScript: no map entry is on the way to it. -/
abbrev File.declaredAt? (f : File) : Place → Option (Scope × Node.Body) :=
  f.nodeAt? fun m => !m.isMapEntry

end NodeAt

/-! ## Listing the places -/

def enumPlaces (es : List Enum) : List Place := (List.range es.length).map fun i => [.enum i]

mutual

def Message.places (keep : Message → Bool) (m : Message) : List Place :=
  match m with
  | { nested, .. } =>
    if keep m then [] :: messagePlaces keep 0 nested ++ enumPlaces m.enums else []

/-- The places below a list of messages that starts at the index `i`. -/
def messagePlaces (keep : Message → Bool) (i : Nat) (ms : List Message) : List Place :=
  match ms with
  | [] => []
  | m :: ms => (m.places keep).map (.message i :: ·) ++ messagePlaces keep (i + 1) ms

end

def File.places (keep : Message → Bool) (f : File) : List Place :=
  messagePlaces keep 0 f.messages ++ enumPlaces f.enums

/-- What holds of a message as soon as it holds of those nested in it holds of all messages. -/
theorem Message.induct {P : Message → Prop} (step : ∀ m : Message, (∀ n ∈ m.nested, P n) → P m)
    (m : Message) : P m :=
  @Message.rec P (fun ms => ∀ n ∈ ms, P n) (fun _ _ _ _ _ _ _ ih => step _ ih)
    (fun _ h => absurd h List.not_mem_nil) (fun _ _ hm hms => List.forall_mem_cons.mpr ⟨hm, hms⟩) m

section Walk

variable {keep : Message → Bool}

theorem Message.places_eq (m : Message) : m.places keep =
    if keep m then [] :: messagePlaces keep 0 m.nested ++ enumPlaces m.enums else [] := by
  cases m; rw [Message.places]

theorem Message.nodes_eq (outer : Scope) (path : List Int32) (m : Message) :
    m.nodes keep outer path =
      if keep m then
        { scope := outer ++ [m.name], path := path, body := .message m } ::
          messageNodes keep (outer ++ [m.name]) (path ++ [3]) 0 m.nested ++
          enumNodes (outer ++ [m.name]) (path ++ [4]) m.enums
      else [] := by
  cases m; rw [Message.nodes]

/-! ### The places are those at which there is a type -/

theorem mem_enumPlaces {es : List Enum} {p : Place} :
    p ∈ enumPlaces es ↔ ∃ i, i < es.length ∧ p = [.enum i] := by
  simp [enumPlaces, eq_comm]

theorem mem_messagePlaces {i : Nat} {ms : List Message} {p : Place} :
    p ∈ messagePlaces keep i ms ↔
      ∃ k m q, ms[k]? = some m ∧ p = .message (i + k) :: q ∧ q ∈ m.places keep := by
  induction ms generalizing i with
  | nil => simp [messagePlaces]
  | cons m ms ih =>
    rw [messagePlaces, List.mem_append, List.mem_map, ih]
    constructor
    · rintro (⟨q, hq, rfl⟩ | ⟨k, n, q, hn, rfl, hq⟩)
      · exact ⟨0, m, q, rfl, rfl, hq⟩
      · exact ⟨k + 1, n, q, hn, by rw [Nat.add_assoc, Nat.add_comm 1], hq⟩
    · rintro ⟨_ | k, n, q, hn, rfl, hq⟩
      · obtain rfl : m = n := by simpa using hn
        exact .inl ⟨q, hq, rfl⟩
      · exact .inr ⟨k, n, q, hn, by rw [Nat.add_assoc, Nat.add_comm 1], hq⟩

theorem isSome_filter_bind {α β : Type} {p : α → Bool} {o : Option α} {g : α → Option β} :
    ((o.filter p).bind g).isSome ↔ ∃ a, o = some a ∧ p a ∧ (g a).isSome := by
  cases o with
  | none => simp
  | some a => by_cases h : p a <;> simp [Option.filter, h]

theorem Message.mem_places (m : Message) : ∀ (outer : Scope) (p : Place),
    p ∈ m.places keep ↔ keep m ∧ (m.nodeAt? keep outer p).isSome := by
  induction m using Message.induct with
  | step m ih =>
    intro outer p
    rw [places_eq]
    split
    · next hm =>
      simp only [hm, true_and, List.cons_append, List.mem_cons, List.mem_append, mem_messagePlaces,
        mem_enumPlaces, Nat.zero_add]
      match p with
      | [] => simp [nodeAt?]
      | .message i :: p =>
        rw [nodeAt?, isSome_filter_bind]
        constructor
        · rintro (h | ⟨k, n, q, hn, ⟨⟩, hq⟩ | ⟨k, -, h⟩)
          · cases h
          · exact ⟨n, hn, (ih n (List.mem_of_getElem? hn) _ _).mp hq⟩
          · cases h
        · rintro ⟨n, hn, hp⟩
          exact .inr (.inl ⟨i, n, p, hn, rfl, (ih n (List.mem_of_getElem? hn) _ _).mpr hp⟩)
      | [.enum i] => simp [nodeAt?]
      | .enum i :: s :: p => simp [nodeAt?]
    · next hm => simp [hm]

theorem File.mem_places {f : File} {p : Place} :
    p ∈ f.places keep ↔ (f.nodeAt? keep p).isSome := by
  rw [places, List.mem_append, mem_messagePlaces, mem_enumPlaces]
  match p with
  | [] => simp [nodeAt?]
  | .message i :: p =>
    rw [nodeAt?, isSome_filter_bind]
    constructor
    · rintro (⟨k, m, q, hm, h, hq⟩ | ⟨k, -, h⟩)
      · rw [Nat.zero_add] at h
        cases h
        exact ⟨m, hm, (m.mem_places _ _).mp hq⟩
      · cases h
    · rintro ⟨m, hm, hp⟩
      exact .inl ⟨i, m, p, hm, by rw [Nat.zero_add], (m.mem_places _ _).mpr hp⟩
  | [.enum i] => simp [nodeAt?]
  | .enum i :: s :: p => simp [nodeAt?]

theorem File.mem_places_of_eq_some {f : File} {p : Place} {c : Scope × Node.Body}
    (h : f.nodeAt? keep p = some c) : p ∈ f.places keep :=
  mem_places.mpr (by rw [h]; rfl)

/-! ### The places are in pre-order -/

theorem enumPlaces_sorted (es : List Enum) : (enumPlaces es).Pairwise Place.Before :=
  List.pairwise_map.mpr (List.pairwise_lt_range.imp fun h => .rel h)

theorem messagePlaces_sorted {ms : List Message}
    (h : ∀ m ∈ ms, (m.places keep).Pairwise Place.Before) (i : Nat) :
    (messagePlaces keep i ms).Pairwise Place.Before := by
  induction ms generalizing i with
  | nil => exact .nil
  | cons m ms ih =>
    rw [messagePlaces, List.pairwise_append, List.pairwise_map]
    refine ⟨(h m List.mem_cons_self).imp .cons,
      ih (fun n hn => h n (List.mem_cons_of_mem _ hn)) (i + 1), ?_⟩
    intro p hp q hq
    obtain ⟨p, -, rfl⟩ := List.mem_map.mp hp
    obtain ⟨k, n, q, -, rfl, -⟩ := mem_messagePlaces.mp hq
    exact .rel (show i < i + 1 + k by omega)

/-- The messages of a list before the enums of another. -/
theorem messagePlaces_append_enumPlaces_sorted {ms : List Message}
    (h : ∀ m ∈ ms, (m.places keep).Pairwise Place.Before) (es : List Enum) :
    (messagePlaces keep 0 ms ++ enumPlaces es).Pairwise Place.Before := by
  refine List.pairwise_append.mpr ⟨messagePlaces_sorted h 0, enumPlaces_sorted es, ?_⟩
  intro p hp q hq
  obtain ⟨k, m, p, -, rfl, -⟩ := mem_messagePlaces.mp hp
  obtain ⟨j, -, rfl⟩ := mem_enumPlaces.mp hq
  exact .rel trivial

theorem Message.places_sorted (m : Message) : (m.places keep).Pairwise Place.Before := by
  induction m using Message.induct with
  | step m ih =>
    rw [places_eq]
    split
    · rw [List.cons_append, List.pairwise_cons]
      refine ⟨fun p hp => ?_, messagePlaces_append_enumPlaces_sorted ih m.enums⟩
      rcases List.mem_append.mp hp with hp | hp
      · obtain ⟨k, n, q, -, rfl, -⟩ := mem_messagePlaces.mp hp
        exact .nil
      · obtain ⟨j, -, rfl⟩ := mem_enumPlaces.mp hp
        exact .nil
    · exact .nil

theorem File.places_sorted (f : File) : (f.places keep).Pairwise Place.Before :=
  messagePlaces_append_enumPlaces_sorted (fun m _ => m.places_sorted) f.enums

/-! ### The walk meets the types in the order of their places -/

/-- What a node holds, its path apart. -/
def Node.content (n : Node) : Scope × Node.Body := (n.scope, n.body)

theorem map_enumPlaces {outer : Scope} {es : List Enum} {at? : Place → Option (Scope × Node.Body)}
    (h : ∀ i, at? [.enum i] = es[i]?.map fun e => (outer ++ [e.name], .enum e))
    (path : List Int32) :
    (enumPlaces es).map at? = (enumNodes outer path es).map fun n => some n.content := by
  apply List.ext_getElem
  · simp [enumPlaces, enumNodes]
  · intro i _ _
    simp [enumPlaces, enumNodes, h, Node.content]

theorem map_messagePlaces {outer : Scope} {ms : List Message}
    (ih : ∀ m ∈ ms, ∀ path, (m.places keep).map (m.nodeAt? keep outer) =
      (m.nodes keep outer path).map fun n => some n.content)
    {i : Nat} {at? : Place → Option (Scope × Node.Body)}
    (h : ∀ k p, at? (.message (i + k) :: p) =
      (ms[k]?.filter keep).bind fun m => m.nodeAt? keep outer p)
    (path : List Int32) :
    (messagePlaces keep i ms).map at? =
      (messageNodes keep outer path i ms).map fun n => some n.content := by
  induction ms generalizing i with
  | nil => rfl
  | cons m ms rest =>
    rw [messagePlaces, messageNodes, List.map_append, List.map_append, List.map_map]
    congr 1
    · rw [← ih m List.mem_cons_self]
      by_cases hm : keep m
      · refine List.map_congr_left fun p _ => ?_
        simpa [Option.filter, hm] using h 0 p
      · simp [m.places_eq, hm]
    · refine rest (fun n hn => ih n (List.mem_cons_of_mem _ hn)) fun k p => ?_
      rw [show i + 1 + k = i + (k + 1) by omega, h]
      rfl

theorem Message.map_nodeAt?_places (m : Message) : ∀ (outer : Scope) (path : List Int32),
    (m.places keep).map (m.nodeAt? keep outer) =
      (m.nodes keep outer path).map fun n => some n.content := by
  induction m using Message.induct with
  | step m ih =>
    intro outer path
    rw [places_eq, nodes_eq]
    split
    · rw [List.cons_append, List.cons_append, List.map_cons, List.map_cons, List.map_append,
        List.map_append]
      congr 1
      congr 1
      · exact map_messagePlaces (fun n hn => ih n hn _)
          (fun k p => by rw [Nat.zero_add, nodeAt?]) _
      · exact map_enumPlaces (fun i => by rw [nodeAt?]) _
    · rfl

theorem File.map_nodeAt?_places (f : File) :
    (f.places keep).map (f.nodeAt? keep) = (f.nodes keep).map fun n => some n.content := by
  rw [places, nodes, List.map_append, List.map_append]
  congr 1
  · exact map_messagePlaces (fun m _ => m.map_nodeAt?_places [])
      (fun k p => by rw [Nat.zero_add, nodeAt?]) _
  · exact map_enumPlaces (fun i => by rw [nodeAt?]; rfl) _

/-- The walk meets at each step what stands at the next place. -/
theorem File.forall₂_places_nodes (f : File) :
    List.Forall₂ (fun p n => f.nodeAt? keep p = some n.content) (f.places keep) (f.nodes keep) := by
  have h : List.Forall₂ (· = ·) ((f.places keep).map (f.nodeAt? keep))
      ((f.nodes keep).map fun n => some n.content) := by
    rw [f.map_nodeAt?_places]
    exact List.forall₂_same.mpr fun _ _ => rfl
  rwa [List.forall₂_map_left_iff, List.forall₂_map_right_iff] at h

theorem File.exists_node_iff {f : File} {c : Scope × Node.Body} :
    (∃ n ∈ f.nodes keep, n.content = c) ↔ ∃ p, f.nodeAt? keep p = some c := by
  have h : some c ∈ (f.places keep).map (f.nodeAt? keep) ↔
      some c ∈ (f.nodes keep).map fun n => some n.content := by rw [f.map_nodeAt?_places]
  simp only [List.mem_map, mem_places, Option.some.injEq] at h
  rw [← h]
  exact ⟨fun ⟨p, _, hp⟩ => ⟨p, hp⟩, fun ⟨p, hp⟩ => ⟨p, by rw [hp]; rfl, hp⟩⟩

end Walk

/-! ## Keeping more and keeping fewer messages -/

section Keep

variable {keep keep' : Message → Bool}

theorem Message.nodeAt?_mono (h : ∀ m, keep m → keep' m) {p : Place} : ∀ {outer : Scope}
    {m : Message} {c : Scope × Node.Body}, m.nodeAt? keep outer p = some c →
    m.nodeAt? keep' outer p = some c := by
  induction p with
  | nil => intro outer m c hc; exact hc
  | cons s p ih =>
    intro outer m c hc
    match s, p with
    | .message i, p =>
      simp only [nodeAt?, Option.bind_eq_some_iff, Option.filter_eq_some_iff] at hc ⊢
      obtain ⟨n, ⟨hn, hk⟩, hc⟩ := hc
      exact ⟨n, ⟨hn, h n hk⟩, ih hc⟩
    | .enum i, [] => exact hc
    | .enum i, _ :: _ => cases hc

theorem File.nodeAt?_mono (h : ∀ m, keep m → keep' m) {f : File} {p : Place}
    {c : Scope × Node.Body} (hc : f.nodeAt? keep p = some c) : f.nodeAt? keep' p = some c := by
  match p with
  | [] => cases hc
  | .message i :: p =>
    simp only [nodeAt?, Option.bind_eq_some_iff, Option.filter_eq_some_iff] at hc ⊢
    obtain ⟨m, ⟨hm, hk⟩, hc⟩ := hc
    exact ⟨m, ⟨hm, h m hk⟩, Message.nodeAt?_mono h hc⟩
  | [.enum i] => exact hc
  | .enum i :: _ :: _ => cases hc

theorem File.typeAt?_of_declaredAt? {f : File} {p : Place} {c : Scope × Node.Body}
    (h : f.declaredAt? p = some c) : f.typeAt? p = some c :=
  nodeAt?_mono (fun _ _ => rfl) h

theorem messageNodes_sublist {ms : List Message} {outer : Scope}
    (h : ∀ m ∈ ms, ∀ path, (m.nodes keep outer path).Sublist (m.nodes keep' outer path))
    (path : List Int32) (i : Nat) :
    (messageNodes keep outer path i ms).Sublist (messageNodes keep' outer path i ms) := by
  induction ms generalizing i with
  | nil => exact List.Sublist.refl _
  | cons m ms ih =>
    rw [messageNodes, messageNodes]
    exact (h m List.mem_cons_self _).append (ih (fun n hn => h n (List.mem_cons_of_mem _ hn)) _)

theorem Message.nodes_sublist (h : ∀ m, keep m → keep' m) (m : Message) :
    ∀ (outer : Scope) (path : List Int32),
      (m.nodes keep outer path).Sublist (m.nodes keep' outer path) := by
  induction m using Message.induct with
  | step m ih =>
    intro outer path
    rw [nodes_eq, nodes_eq]
    split
    · next hm =>
      rw [if_pos (h m hm), List.cons_append, List.cons_append]
      exact ((messageNodes_sublist (fun n hn => ih n hn _) _ _).append_right _).cons_cons _
    · exact List.nil_sublist _

theorem File.nodes_sublist (h : ∀ m, keep m → keep' m) (f : File) :
    (f.nodes keep).Sublist (f.nodes keep') :=
  (messageNodes_sublist (fun m _ => m.nodes_sublist h []) [4] 0).append_right _

/-- Below a map entry there is nothing. -/
def FlatMaps (at? : Place → Option (Scope × Node.Body)) : Prop :=
  ∀ p s m, at? p = some (s, .message m) → m.isMapEntry = true → m.nested = [] ∧ m.enums = []

theorem Message.declared_of_flatMaps {s : Scope} {b : Node.Body} {p : Place}
    (hb : ∀ m, b = .message m → m.isMapEntry = false) : ∀ {outer : Scope} {m : Message},
    FlatMaps (m.nodeAt? (fun _ => true) outer) →
    m.nodeAt? (fun _ => true) outer p = some (s, b) →
    m.isMapEntry = false ∧ m.nodeAt? (fun m => !m.isMapEntry) outer p = some (s, b) := by
  induction p with
  | nil =>
    intro outer m hflat h
    cases h
    exact ⟨hb m rfl, rfl⟩
  | cons step p ih =>
    intro outer m hflat h
    match step, p with
    | .message i, p =>
      simp only [nodeAt?, Option.bind_eq_some_iff, Option.filter_eq_some_iff] at h ⊢
      obtain ⟨n, ⟨hn, -⟩, h⟩ := h
      have hm : m.isMapEntry = false := Bool.eq_false_iff.mpr fun hm => by
        rw [(hflat [] _ m rfl hm).1] at hn
        cases hn
      have hbelow : FlatMaps (n.nodeAt? (fun _ => true) (outer ++ [m.name])) := fun q s' n' hq =>
        hflat (.message i :: q) s' n' (by rw [nodeAt?, hn]; exact hq)
      obtain ⟨hentry, hdecl⟩ := ih hbelow h
      exact ⟨hm, n, ⟨hn, by rw [hentry]; rfl⟩, hdecl⟩
    | .enum i, [] =>
      refine ⟨Bool.eq_false_iff.mpr fun hm => ?_, h⟩
      rw [nodeAt?, (hflat [] _ m rfl hm).2] at h
      cases h
    | .enum i, _ :: _ => cases h

/-- Where map entries hold no types, all types but map entries are declared. -/
theorem File.declaredAt?_of_typeAt? {f : File} {p : Place} {s : Scope} {b : Node.Body}
    (hflat : FlatMaps f.typeAt?) (hb : ∀ m, b = .message m → m.isMapEntry = false)
    (h : f.typeAt? p = some (s, b)) : f.declaredAt? p = some (s, b) := by
  match p with
  | [] => cases h
  | .message i :: p =>
    simp only [nodeAt?, Option.bind_eq_some_iff, Option.filter_eq_some_iff] at h ⊢
    obtain ⟨m, ⟨hm, -⟩, h⟩ := h
    have hbelow : FlatMaps (m.nodeAt? (fun _ => true) []) := fun q s' n' hq =>
      hflat (.message i :: q) s' n' (by rw [typeAt?, nodeAt?, hm]; exact hq)
    obtain ⟨hentry, hdecl⟩ := Message.declared_of_flatMaps hb hbelow h
    exact ⟨m, ⟨hm, by rw [hentry]; rfl⟩, hdecl⟩
  | [.enum i] => exact h
  | .enum i :: _ :: _ => cases h

/-! ### Names on the way to a type -/

/-- The names in the scope of a type are those of the types on the way to it, and its own. -/
theorem Message.names_of_nodeAt? {P : String → Prop} {s : Scope} {b : Node.Body} {p : Place} :
    ∀ {outer : Scope} {m : Message}, (∀ c ∈ outer, P c) →
    (∀ q s' b', m.nodeAt? keep outer q = some (s', b') → P b'.name) →
    m.nodeAt? keep outer p = some (s, b) → ∃ above, s = above ++ [b.name] ∧ ∀ c ∈ above, P c := by
  induction p with
  | nil =>
    intro outer m houter _ h
    cases h
    exact ⟨outer, rfl, houter⟩
  | cons step p ih =>
    intro outer m houter hnames h
    have hinner : ∀ c ∈ outer ++ [m.name], P c := by
      intro c hc
      rcases List.mem_append.mp hc with hc | hc
      · exact houter c hc
      · obtain rfl := List.mem_singleton.mp hc
        exact hnames [] _ _ rfl
    match step, p with
    | .message i, p =>
      simp only [nodeAt?, Option.bind_eq_some_iff, Option.filter_eq_some_iff] at h
      obtain ⟨n, ⟨hn, hk⟩, h⟩ := h
      refine ih hinner (fun q s' b' hq => hnames (.message i :: q) s' b' ?_) h
      rw [nodeAt?, hn, Option.filter_some, if_pos hk]
      exact hq
    | .enum i, [] =>
      simp only [nodeAt?, Option.map_eq_some_iff] at h
      obtain ⟨e, -, h⟩ := h
      cases h
      exact ⟨_, rfl, hinner⟩
    | .enum i, _ :: _ => cases h

theorem File.names_of_nodeAt? {P : String → Prop} {f : File} {p : Place} {s : Scope}
    {b : Node.Body} (hnames : ∀ q s' b', f.nodeAt? keep q = some (s', b') → P b'.name)
    (h : f.nodeAt? keep p = some (s, b)) : s ≠ [] ∧ ∀ c ∈ s, P c := by
  have hs : ∃ above, s = above ++ [b.name] ∧ ∀ c ∈ above, P c := by
    match p with
    | [] => cases h
    | .message i :: q =>
      have h' := h
      simp only [nodeAt?, Option.bind_eq_some_iff, Option.filter_eq_some_iff] at h'
      obtain ⟨m, ⟨hm, hk⟩, h'⟩ := h'
      refine Message.names_of_nodeAt? (fun c hc => absurd hc List.not_mem_nil)
        (fun q s' b' hq => hnames (.message i :: q) s' b' ?_) h'
      rw [nodeAt?, hm, Option.filter_some, if_pos hk]
      exact hq
    | [.enum i] =>
      simp only [nodeAt?, Option.map_eq_some_iff] at h
      obtain ⟨e, -, h⟩ := h
      cases h
      exact ⟨[], rfl, fun c hc => absurd hc List.not_mem_nil⟩
    | .enum i :: _ :: _ => cases h
  obtain ⟨above, rfl, habove⟩ := hs
  refine ⟨List.concat_ne_nil _ _, fun c hc => ?_⟩
  rcases List.mem_append.mp hc with hc | hc
  · exact habove c hc
  · obtain rfl := List.mem_singleton.mp hc
    exact hnames p _ _ h

end Keep

end ProtoTypings

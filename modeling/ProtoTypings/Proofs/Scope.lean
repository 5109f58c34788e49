import ProtoTypings.Scope
import ProtoTypings.Text.Segment

/-!
# Flat names

A flat name is made from one scope only, as long as no name in a scope is empty or holds the
separator (`flatName_inj`): a reserved word gets a separator at its end, and no other flat name has
one there. Nor is a flat name ever reserved, and for scopes of protobuf names it is an identifier
(`flat_names_are_unambiguous_and_legal`).
-/

namespace ProtoTypings

/-- A name that can be told from its neighbours in a flat name. -/
def IsPlain (name : String) : Prop := name ≠ "" ∧ '$' ∉ name.toList

instance : DecidablePred IsPlain := fun _ => inferInstanceAs (Decidable (_ ∧ _))

namespace Scope

variable {s t : Scope}

theorem toList_flatten (s : Scope) :
    s.flatten.toList = List.intercalate ['$'] (s.map String.toList) := by
  rw [flatten, String.toList_intercalate]
  rfl

theorem split_flatten (hne : s ≠ []) (h : ∀ c ∈ s, '$' ∉ c.toList) :
    Text.split '$' s.flatten.toList = s.map String.toList := by
  rw [toList_flatten]
  exact Text.split_intercalate (by simpa using hne) (by simpa using h)

theorem map_toList_inj : s.map String.toList = t.map String.toList ↔ s = t :=
  List.map_inj_right fun _ _ => String.toList_inj.mp

/-- The last name would be empty. -/
theorem flatten_ne_append_separator (hne : s ≠ []) (h : ∀ c ∈ s, IsPlain c) (name : String) :
    s.flatten ≠ name ++ "$" := by
  intro heq
  have hsplit : s.map String.toList = Text.split '$' name.toList ++ [[]] := by
    rw [← split_flatten hne fun c hc => (h c hc).2, heq, String.toList_append]
    exact Text.split_append '$' name.toList []
  have hempty : [] ∈ s.map String.toList := by
    rw [hsplit]
    exact List.mem_concat_self
  obtain ⟨c, hc, hnil⟩ := List.mem_map.mp hempty
  exact (h c hc).1 (String.toList_eq_nil_iff.mp hnil)

theorem flatName_inj (hs : s ≠ []) (ht : t ≠ []) (hps : ∀ c ∈ s, IsPlain c)
    (hpt : ∀ c ∈ t, IsPlain c) : s.flatName = t.flatName ↔ s = t := by
  refine ⟨fun h => ?_, fun h => h ▸ rfl⟩
  have hflat : s.flatten = t.flatten := by
    unfold flatName Identifier.avoidReserved at h
    split at h <;> split at h
    · exact String.append_left_inj "$" |>.mp h
    · exact absurd h.symm (flatten_ne_append_separator ht hpt _)
    · exact absurd h (flatten_ne_append_separator hs hps _)
    · exact h
  rw [← map_toList_inj, ← split_flatten hs fun c hc => (hps c hc).2,
    ← split_flatten ht fun c hc => (hpt c hc).2, hflat]

end Scope

/-! ## Flat names are legal -/

namespace Identifier

/-- The identifiers of protobuf have no `$`. -/
def isProtobuf (s : String) : Bool :=
  match s.toList with
  | [] => false
  | c :: cs => (c.isAlpha || c == '_') && cs.all fun d => d.isAlphanum || d == '_'

theorem isValid_of_isProtobuf {s : String} (h : isProtobuf s = true) : isValid s = true := by
  revert h
  unfold isProtobuf isValid
  cases s.toList with
  | nil => exact id
  | cons c cs =>
    simp only [Bool.and_eq_true, List.all_eq_true]
    rintro ⟨hc, hcs⟩
    refine ⟨?_, fun d hd => ?_⟩
    · rw [isStart, hc, Bool.true_or]
    · rw [isPart, hcs d hd, Bool.true_or]

theorem isPart_of_isStart {c : Char} (h : isStart c = true) : isPart c = true := by
  simp only [isStart, isPart, Char.isAlphanum, Bool.or_eq_true] at h ⊢
  exact h.imp_left (.imp_left .inl)

theorem isPart_of_isValid {s : String} (h : isValid s = true) :
    ∀ c ∈ s.toList, isPart c = true := by
  obtain ⟨c, cs, hcs, hc, hrest⟩ := isValid_iff.mp h
  rw [hcs]
  exact List.forall_mem_cons.mpr ⟨isPart_of_isStart hc, hrest⟩

theorem separator_not_mem_of_reserved {name : String} (h : name ∈ reserved) :
    '$' ∉ name.toList := by
  have hall : ∀ name ∈ reserved, '$' ∉ name.toList := by decide
  exact hall name h

theorem avoidReserved_not_reserved (name : String) : avoidReserved name ∉ reserved := by
  unfold avoidReserved
  split
  · exact fun h => separator_not_mem_of_reserved h (by simp)
  · next h => exact h

theorem avoidReserved_of_not_reserved {name : String} (h : name ∉ reserved) :
    avoidReserved name = name := if_neg h

theorem isValid_avoidReserved {name : String} (h : isValid name = true) :
    isValid (avoidReserved name) = true := by
  unfold avoidReserved
  split
  · exact isValid_append h (by simp [isPart])
  · exact h

end Identifier

namespace Scope

/-- The separator may stand in an identifier, though not at its start. -/
theorem isValid_flatten {s : Scope} (hne : s ≠ []) (h : ∀ c ∈ s, Identifier.isValid c = true) :
    Identifier.isValid s.flatten = true := by
  induction s with
  | nil => exact absurd rfl hne
  | cons c s ih =>
    obtain ⟨hc, hs⟩ := List.forall_mem_cons.mp h
    cases s with
    | nil => exact hc
    | cons d s =>
      have hrest := ih (List.cons_ne_nil d s) hs
      have hcons : flatten (c :: d :: s) = c ++ ("$" ++ flatten (d :: s)) := by
        rw [flatten, String.intercalate_cons_of_ne_nil (List.cons_ne_nil d s), String.append_assoc]
        rfl
      rw [hcons]
      refine Identifier.isValid_append hc fun e he => ?_
      rw [String.toList_append] at he
      rcases List.mem_cons.mp he with rfl | he
      · rfl
      · exact Identifier.isPart_of_isValid hrest e he

theorem flat_names_are_unambiguous_and_legal :
    (∀ s t : Scope, s ≠ [] → t ≠ [] → (∀ c ∈ s, IsPlain c) → (∀ c ∈ t, IsPlain c) →
      (s.flatName = t.flatName ↔ s = t)) ∧
    (∀ s : Scope, s.flatName ∉ Identifier.reserved) ∧
    (∀ name, Identifier.avoidReserved (Identifier.avoidReserved name) =
      Identifier.avoidReserved name) ∧
    ∀ s : Scope, s ≠ [] → (∀ c ∈ s, Identifier.isProtobuf c = true) →
      Identifier.isValid s.flatName = true := by
  refine ⟨fun s t => flatName_inj, fun s => Identifier.avoidReserved_not_reserved _, ?_, ?_⟩
  · intro name
    exact Identifier.avoidReserved_of_not_reserved (Identifier.avoidReserved_not_reserved name)
  · intro s hne h
    have hvalid : ∀ c ∈ s, Identifier.isValid c = true :=
      fun c hc => Identifier.isValid_of_isProtobuf (h c hc)
    exact Identifier.isValid_avoidReserved (isValid_flatten hne hvalid)

/-- The mark of a reserved word is no step into a scope. -/
theorem class_stands_apart :
    (∀ c ∈ ["class"], IsPlain c) ∧ (∀ c ∈ ["class", "delete"], IsPlain c) ∧
    flatName ["class"] ≠ flatName ["class", "delete"] ∧
    "class" ∈ Identifier.reserved ∧ flatName ["class"] = "class$" ∧
    flatName ["class"] ∉ Identifier.reserved ∧
    Identifier.avoidReserved (Identifier.avoidReserved "class") =
      Identifier.avoidReserved "class" ∧
    (∀ c ∈ ["class", "delete"], Identifier.isProtobuf c = true) ∧
    Identifier.isValid (flatName ["class", "delete"]) = true := by
  have hs : ∀ c ∈ ["class"], IsPlain c := by decide
  have ht : ∀ c ∈ ["class", "delete"], IsPlain c := by decide
  have hproto : ∀ c ∈ ["class", "delete"], Identifier.isProtobuf c = true := by decide
  obtain ⟨hinj, hreserved, hidem, hvalid⟩ := flat_names_are_unambiguous_and_legal
  have hne : flatName ["class"] ≠ flatName ["class", "delete"] := fun h =>
    absurd ((hinj _ _ (by simp) (by simp) hs ht).mp h) (by decide)
  exact ⟨hs, ht, hne, by decide, by decide, hreserved _, hidem _, hproto, hvalid _ (by simp) hproto⟩

end Scope

end ProtoTypings

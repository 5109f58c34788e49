import Mathlib.Data.List.Forall2
import Mathlib.Data.List.Nodup

/-!
# Lists by key and by position

Where all elements of a list have keys of their own, the element with a key is found by it
(`find?_key_eq_some_iff`) and is the only one to pass a filter for it (`filter_key_eq_singleton`).
`FirstOccurrences xs ys` says that `ys` is `xs` without what has occurred before. Lists that go
together element by element (`List.Forall₂`) are followed from one to the other.
-/

namespace ProtoTypings

/-! ## Keys -/

section Keyed

variable {α : Type} {key : α → String} {l : List α} {a : α}

theorem find?_key_eq_some_iff (h : (l.map key).Nodup) {k : String} :
    l.find? (key · == k) = some a ↔ a ∈ l ∧ key a = k := by
  constructor
  · intro hf
    exact ⟨List.mem_of_find?_eq_some hf, by simpa using List.find?_some hf⟩
  · rintro ⟨ha, rfl⟩
    cases hf : l.find? (key · == key a) with
    | none => exact absurd (List.find?_eq_none.mp hf a ha) (by simp)
    | some b =>
      have hb : key b = key a := by simpa using List.find?_some hf
      rw [List.inj_on_of_nodup_map h (List.mem_of_find?_eq_some hf) ha hb]

theorem filter_key_eq_singleton (h : (l.map key).Nodup) (ha : a ∈ l) :
    l.filter (key · == key a) = [a] := by
  induction l with
  | nil => cases ha
  | cons b l ih =>
    rw [List.map_cons, List.nodup_cons] at h
    rcases List.mem_cons.mp ha with rfl | ha
    · have hnone : l.filter (key · == key a) = [] := List.filter_eq_nil_iff.mpr fun b hb heq =>
        h.1 (beq_iff_eq.mp heq ▸ List.mem_map_of_mem hb)
      rw [List.filter_cons_of_pos (by simp), hnone]
    · have hne : key b ≠ key a := fun heq => h.1 (heq ▸ List.mem_map_of_mem ha)
      rw [List.filter_cons_of_neg (by simpa using hne), ih h.2 ha]

end Keyed

/-! ## First occurrences -/

section FirstOccurrences

variable {α : Type} [DecidableEq α] {xs ys : List α}

/-- `ys` lists what occurs in `xs`, each once, in the order in which it occurs first. -/
structure FirstOccurrences (xs ys : List α) : Prop where
  mem_iff : ∀ a, a ∈ ys ↔ a ∈ xs
  sorted : ys.Pairwise fun a b => xs.idxOf a < xs.idxOf b

namespace FirstOccurrences

theorem nil : FirstOccurrences ([] : List α) [] := ⟨fun _ => Iff.rfl, .nil⟩

theorem nodup (h : FirstOccurrences xs ys) : ys.Nodup :=
  h.sorted.imp fun hlt heq => absurd (heq ▸ hlt) (Nat.lt_irrefl _)

theorem concat (h : FirstOccurrences xs ys) (a : α) :
    FirstOccurrences (xs ++ [a]) (if a ∈ ys then ys else ys ++ [a]) := by
  have hold {b : α} (hb : b ∈ ys) : (xs ++ [a]).idxOf b = xs.idxOf b :=
    List.idxOf_append_of_mem ((h.mem_iff b).mp hb)
  have hsorted : ys.Pairwise fun b c => (xs ++ [a]).idxOf b < (xs ++ [a]).idxOf c :=
    h.sorted.imp_of_mem fun hb hc hlt => by rwa [hold hb, hold hc]
  split
  · next ha =>
    refine ⟨fun b => ?_, hsorted⟩
    rw [h.mem_iff, List.mem_append, List.mem_singleton]
    exact ⟨.inl, fun hb => hb.elim id fun hb => hb ▸ (h.mem_iff a).mp ha⟩
  · next ha =>
    refine ⟨fun b => by rw [List.mem_append, List.mem_append, h.mem_iff], ?_⟩
    refine List.pairwise_append.mpr ⟨hsorted, List.pairwise_singleton _ _, fun b hb c hc => ?_⟩
    obtain rfl := List.mem_singleton.mp hc
    rw [hold hb, List.idxOf_append_of_notMem fun hc => ha ((h.mem_iff c).mpr hc)]
    exact Nat.lt_add_right _ (List.idxOf_lt_length_of_mem ((h.mem_iff b).mp hb))

end FirstOccurrences

end FirstOccurrences

/-! ## Positions -/

section Positions

variable {α β γ : Type} {R : α → β → Prop}

theorem exists_left_of_forall₂ {as : List α} {bs : List β} (h : List.Forall₂ R as bs) {b : β}
    (hb : b ∈ bs) : ∃ a ∈ as, R a b := by
  induction h with
  | nil => cases hb
  | cons hab _ ih =>
    rcases List.mem_cons.mp hb with rfl | hb
    · exact ⟨_, List.mem_cons_self, hab⟩
    · obtain ⟨a, ha, hr⟩ := ih hb
      exact ⟨a, List.mem_cons_of_mem _ ha, hr⟩

theorem exists_right_of_forall₂ {as : List α} {bs : List β} (h : List.Forall₂ R as bs) {a : α}
    (ha : a ∈ as) : ∃ b ∈ bs, R a b :=
  exists_left_of_forall₂ (R := flip R) h.flip ha

theorem forall₂_of_zipIdx {as : List α} {bs : List β} {i : Nat}
    (h : List.Forall₂ (fun p b => R p.1 b) (as.zipIdx i) bs) : List.Forall₂ R as bs := by
  have hfst := List.forall₂_map_left_iff (R := R) (f := Prod.fst).mpr h
  rwa [List.zipIdx_map_fst] at hfst

theorem forall₂_trans {S : β → γ → Prop} {T : α → γ → Prop}
    (h : ∀ a b c, R a b → S b c → T a c) {as : List α} {bs : List β} {cs : List γ}
    (h1 : List.Forall₂ R as bs) (h2 : List.Forall₂ S bs cs) : List.Forall₂ T as cs := by
  induction h1 generalizing cs with
  | nil => cases h2; exact .nil
  | cons hab _ ih => cases h2 with | cons hbc h2 => exact .cons (h _ _ _ hab hbc) (ih h2)

/-- What goes together has the same image. -/
theorem forall₂_eq_iff {g : α → γ} {h : β → γ} {as : List α} {bs : List β} :
    List.Forall₂ (fun a b => g a = h b) as bs ↔ as.map g = bs.map h := by
  have hmap : List.Forall₂ (· = ·) (as.map g) (bs.map h) ↔ as.map g = bs.map h := by
    rw [List.forall₂_eq_eq_eq]
  rw [← hmap, List.forall₂_map_left_iff, List.forall₂_map_right_iff]

theorem forall₂_iff_map_eq {g : α → β} (h : ∀ a b, R a b ↔ g a = b) {as : List α} {bs : List β} :
    List.Forall₂ R as bs ↔ as.map g = bs := by
  obtain rfl : R = fun a b => g a = id b := funext₂ fun a b => propext (h a b)
  rw [forall₂_eq_iff, List.map_id]

end Positions

end ProtoTypings

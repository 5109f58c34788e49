import Mathlib.Order.Bounds.Basic
import ProtoTypings.Proofs.Import

/-!
# The search for a free qualifier

The candidates for a qualifier have no end (`candidate`), and `Finds` is a search through them that
no bound stops. It stops by itself, since a list of names can take no more candidates than it has
names, and `freeQualifier` is what it finds: the base or the least free number behind it
(`freeQualifier_is_least`).
-/

namespace ProtoTypings.Import

/-- The base, and then the base followed by 2, 3 and so on. -/
def candidate (base : String) : Nat → String
  | 0 => base
  | i + 1 => base ++ toString (i + 2)

theorem candidates_eq (taken : Nat) (base : String) :
    candidates taken base = (List.range (taken + 1)).map (candidate base) := by
  rw [List.range_succ_eq_map, List.map_cons, List.map_map]
  rfl

/-- Testing one candidate after another from the one with the index `i` on, the search finds `q`
with that many tests. -/
inductive Finds (taken : List String) (base : String) : Nat → Nat → String → Prop where
  | free {i : Nat} : candidate base i ∉ taken → Finds taken base i 1 (candidate base i)
  | next {i tests : Nat} {q : String} : candidate base i ∈ taken →
      Finds taken base (i + 1) tests q → Finds taken base i (tests + 1) q

section

variable {taken : List String} {base : String}

theorem Finds.unique {i tests tests' : Nat} {q q' : String} (h : Finds taken base i tests q)
    (h' : Finds taken base i tests' q') : tests = tests' ∧ q = q' := by
  induction h generalizing tests' with
  | free hfree =>
    cases h' with
    | free _ => exact ⟨rfl, rfl⟩
    | next htaken _ => exact absurd htaken hfree
  | next htaken _ ih =>
    cases h' with
    | free hfree => exact absurd htaken hfree
    | next _ hrest =>
      obtain ⟨rfl, rfl⟩ := ih hrest
      exact ⟨rfl, rfl⟩

/-- Candidates that are taken are passed one by one. -/
theorem Finds.of_taken {i k : Nat} (htaken : ∀ j < k, candidate base (i + j) ∈ taken)
    (hfree : candidate base (i + k) ∉ taken) :
    Finds taken base i (k + 1) (candidate base (i + k)) := by
  induction k generalizing i with
  | zero => exact .free hfree
  | succ k ih =>
    refine .next (htaken 0 (Nat.succ_pos k)) ?_
    rw [← Nat.add_assoc, Nat.add_right_comm] at hfree ⊢
    refine ih (fun j hj => ?_) hfree
    rw [Nat.add_assoc, Nat.add_comm 1 j]
    exact htaken (j + 1) (Nat.succ_lt_succ hj)

/-- The bounded list of candidates is long enough for the first free one to be in it. -/
theorem freeQualifier_eq_candidate (taken : List String) (base : String) :
    ∃ k ≤ taken.length, freeQualifier taken base = candidate base k ∧
      candidate base k ∉ taken ∧ ∀ j < k, candidate base j ∈ taken := by
  obtain ⟨hfree, k, hk, heq, hbefore⟩ :=
    List.find?_eq_some_iff_getElem.mp (find?_candidates taken base)
  simp only [candidates_eq, List.length_map, List.length_range, List.getElem_map,
    List.getElem_range, Bool.not_eq_true', decide_eq_false_iff_not, Decidable.not_not,
    decide_eq_true_eq] at hfree hk heq hbefore
  exact ⟨k, Nat.le_of_lt_succ hk, heq.symm, heq ▸ hfree, hbefore⟩

end

theorem freeQualifier_is_least (imports : List Import) (base : String) :
    let taken := imports.map (·.qualifier)
    (∃ tests ≤ imports.length + 1, Finds taken base 0 tests (freeQualifier taken base) ∧
      ∀ tests' q, Finds taken base 0 tests' q → tests' = tests ∧ q = freeQualifier taken base) ∧
    (base ∉ taken → freeQualifier taken base = base) ∧
    (base ∈ taken → ∃ n, IsLeast {n | 2 ≤ n ∧ base ++ toString n ∉ taken} n ∧
      freeQualifier taken base = base ++ toString n) ∧
    freeQualifier taken base ∉ taken := by
  intro taken
  obtain ⟨k, hk, heq, hfree, hbefore⟩ := freeQualifier_eq_candidate taken base
  have hfinds : Finds taken base 0 (k + 1) (candidate base k) := by
    simpa using Finds.of_taken (i := 0) (by simpa using hbefore) (by simpa using hfree)
  have hlength : taken.length = imports.length := List.length_map _
  refine ⟨⟨k + 1, by omega, heq ▸ hfinds, fun tests' q h => heq ▸ h.unique hfinds⟩, ?_, ?_,
    heq ▸ hfree⟩
  · intro hbase
    cases k with
    | zero => exact heq
    | succ k => exact absurd (hbefore 0 (Nat.succ_pos k)) hbase
  · intro hbase
    cases k with
    | zero => exact absurd hbase hfree
    | succ k =>
      refine ⟨k + 2, ⟨⟨Nat.le_add_left 2 k, hfree⟩, ?_⟩, heq⟩
      rintro n ⟨hn, hfree'⟩
      by_contra hlt
      obtain ⟨m, rfl⟩ := Nat.exists_eq_add_of_le' hn
      exact hfree' (hbefore (m + 1) (by omega))

/-- Three files whose imports would have one name, and the name that a fourth one gets. -/
theorem namesake_is_fourth :
    let taken := (ofFiles "main.proto" ["a/b.proto", "a_b.proto", "a.b.proto"]).map (·.qualifier)
    (∃ tests ≤ 4, Finds taken "a_b_pb" 0 tests (freeQualifier taken "a_b_pb")) ∧
    "a_b_pb" ∈ taken ∧ freeQualifier taken "a_b_pb" = "a_b_pb" ++ toString 4 ∧
    IsLeast {n | 2 ≤ n ∧ "a_b_pb" ++ toString n ∉ taken} 4 ∧
    "c_pb" ∉ taken ∧ freeQualifier taken "c_pb" = "c_pb" := by
  intro taken
  have htaken : "a_b_pb" ∈ taken := by decide
  have hfree : "c_pb" ∉ taken := by decide
  obtain ⟨⟨tests, htests, hfinds, -⟩, -, hleast, -⟩ := freeQualifier_is_least
    (ofFiles "main.proto" ["a/b.proto", "a_b.proto", "a.b.proto"]) "a_b_pb"
  obtain ⟨-, hbase, -, -⟩ := freeQualifier_is_least
    (ofFiles "main.proto" ["a/b.proto", "a_b.proto", "a.b.proto"]) "c_pb"
  have hfourth : freeQualifier taken "a_b_pb" = "a_b_pb" ++ toString 4 := by decide
  obtain ⟨n, hn, heq⟩ := hleast htaken
  obtain rfl : 4 = n := toString_inj ((String.append_right_inj _).mp (hfourth.symm.trans heq))
  exact ⟨⟨tests, htests, hfinds⟩, htaken, hfourth, hn, hfree, hbase hfree⟩

end ProtoTypings.Import

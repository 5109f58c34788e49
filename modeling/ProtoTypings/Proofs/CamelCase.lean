import ProtoTypings.PropertyName
import ProtoTypings.Text.Segment

/-!
# Camel case by segments

A name in lower camel case is made of the segments between the underscores: the first one as it is,
and the others capitalized (`camel_eq`). Of the ASCII characters only letters change in upper case
(`Text.upper_of_isAscii`), and no other character becomes an underscore (`Text.mem_upper`), so a
name in camel case is one segment and stays as it is (`lowerCamel_by_segments`).
-/

namespace ProtoTypings

namespace Text

/-! ## Letters and digits -/

section

variable {P : Char → Prop} {c : Char}

theorem forall_between {first count : Nat} (h : ∀ n < count, P (Char.ofNat (first + n)))
    (hfirst : first ≤ c.toNat) (hlast : c.toNat < first + count) : P c := by
  have hP := h (c.toNat - first) (by omega)
  rwa [Nat.add_sub_cancel' hfirst, Char.ofNat_toNat] at hP

theorem forall_lower (h : ∀ n < 26, P (Char.ofNat (97 + n))) (hc : c.isLower = true) : P c := by
  obtain ⟨hfirst, hlast⟩ := (Bool.and_eq_true _ _).mp hc
  exact forall_between h (of_decide_eq_true hfirst)
    (Nat.lt_succ_of_le (of_decide_eq_true hlast))

theorem forall_digit (h : ∀ n < 10, P (Char.ofNat (48 + n))) (hc : c.isDigit = true) : P c := by
  obtain ⟨hfirst, hlast⟩ := Char.isDigit_iff_toNat.mp hc
  exact forall_between h hfirst (Nat.lt_succ_of_le hlast)

end

/-! ## Upper case -/

theorem lookup_expansions {n : Nat} (h : n < 128) : expansions.lookup n = none := by
  have hall : ∀ e ∈ expansions, 128 ≤ e.1 := by decide +kernel
  refine List.lookup_eq_none_iff.mpr fun e he => ?_
  have hkey := hall e he
  rw [bne_iff_ne]
  omega

/-- The first run is that of the letters from `a` to `z`, and the others begin later. -/
theorem find?_caseRuns {n : Nat} (h : n < 128) (hletter : ¬ (97 ≤ n ∧ n ≤ 122)) :
    caseRuns.find? (·.contains n) = none := by
  have hall : ∀ r ∈ caseRuns, r.first = 97 ∧ r.last = 122 ∨ 128 ≤ r.first := by decide +kernel
  refine List.find?_eq_none.mpr fun r hr => ?_
  have hrun := hall r hr
  simp only [CaseRun.contains, Bool.and_eq_true, decide_eq_true_eq]
  omega

/-- Among the ASCII characters the tables change the letters only. -/
theorem upper_of_isAscii {c : Char} (h : c.toNat < 128) : upper c = [c.toUpper] := by
  by_cases hlower : c.isLower = true
  · exact forall_lower (P := fun c => upper c = [c.toUpper]) (by decide +kernel) hlower
  · have hletter : ¬ (97 ≤ c.toNat ∧ c.toNat ≤ 122) := fun ⟨hfirst, hlast⟩ =>
      hlower ((Bool.and_eq_true _ _).mpr ⟨decide_eq_true hfirst, decide_eq_true hlast⟩)
    have hsame : c.toUpper = c := dif_neg hletter
    rw [upper, lookup_expansions h, find?_caseRuns h hletter, hsame]

theorem upper_of_isLower {c : Char} (h : c.isLower = true) : upper c = [c.toUpper] :=
  upper_of_isAscii (forall_lower (P := fun c => c.toNat < 128) (by decide) h)

theorem toUpper_of_isLower {c : Char} (h : c.isLower = true) :
    c.toUpper.isUpper = true ∧ c.toUpper.toLower = c :=
  forall_lower (P := fun c => c.toUpper.isUpper = true ∧ c.toUpper.toLower = c) (by decide) h

/-- The tables lead to letters and to marks on letters only. -/
theorem mem_expansions {e : Nat × List Nat} (he : e ∈ expansions) {n : Nat} (hn : n ∈ e.2) :
    n.isValidChar ∧ 65 ≤ n ∧ n ≠ 95 := by
  have hall : ∀ e ∈ expansions, ∀ n ∈ e.2, n.isValidChar ∧ 65 ≤ n ∧ n ≠ 95 := by decide +kernel
  exact hall e he n hn

theorem apply_of_mem_caseRuns {r : CaseRun} (hr : r ∈ caseRuns) {n : Nat}
    (hn : r.contains n = true) :
    (r.apply n).isValidChar ∧ 65 ≤ r.apply n ∧ r.apply n ≠ 95 := by
  have hall : ∀ r ∈ caseRuns, 65 ≤ r.upper ∧ (r.apply r.last < 95 ∨ 95 < r.upper) ∧
      (r.apply r.last < 0xD800 ∨ 0xDFFF < r.upper ∧ r.apply r.last < 0x110000) := by decide +kernel
  obtain ⟨hfirst, hunderscore, hvalid⟩ := hall r hr
  have hlast : n ≤ r.last := by
    simp only [CaseRun.contains, Bool.and_eq_true, decide_eq_true_eq] at hn
    exact hn.1.2
  unfold CaseRun.apply Nat.isValidChar at *
  omega

theorem mem_upper {c d : Char} (h : d ∈ upper c) : d = c ∨ 65 ≤ d.toNat ∧ d ≠ '_' := by
  have hcode {n : Nat} (hn : n.isValidChar ∧ 65 ≤ n ∧ n ≠ 95) :
      65 ≤ (Char.ofNat n).toNat ∧ Char.ofNat n ≠ '_' := by
    have htoNat : (Char.ofNat n).toNat = n := by rw [Char.ofNat, dif_pos hn.1]; rfl
    refine ⟨htoNat.symm ▸ hn.2.1, fun heq => hn.2.2 ?_⟩
    rw [← htoNat, heq]
    rfl
  unfold upper at h
  split at h
  · next ns hns =>
    obtain ⟨before, after, heq, -⟩ := List.lookup_eq_some_iff.mp hns
    obtain ⟨n, hn, rfl⟩ := List.mem_map.mp h
    have hmem : (c.toNat, ns) ∈ expansions := by simp [heq]
    exact .inr (hcode (mem_expansions hmem hn))
  · split at h
    · next r hr =>
      obtain rfl := List.mem_singleton.mp h
      have hcontains : r.contains c.toNat = true := by
        simpa using List.find?_some hr
      exact .inr (hcode (apply_of_mem_caseRuns (List.mem_of_find?_eq_some hr) hcontains))
    · exact .inl (List.mem_singleton.mp h)

/-! ## Capitals -/

/-- The first character in upper case, and the rest as it is. -/
def capitalize : List Char → List Char
  | [] => []
  | c :: cs => upper c ++ cs

theorem flatMap_capitalize_filter (ss : List (List Char)) :
    (ss.filter (· ≠ [])).flatMap capitalize = ss.flatMap capitalize := by
  induction ss with
  | nil => rfl
  | cons s ss ih =>
    cases s with
    | nil => simpa [capitalize] using ih
    | cons c cs => simpa using ih

theorem mem_capitalize {d : Char} {s : List Char} (h : d ∈ capitalize s) :
    d ∈ s ∨ 65 ≤ d.toNat ∧ d ≠ '_' := by
  cases s with
  | nil => exact .inl h
  | cons c cs =>
    rcases List.mem_append.mp h with h | h
    · rcases mem_upper h with rfl | h
      · exact .inl List.mem_cons_self
      · exact .inr h
    · exact .inl (List.mem_cons_of_mem _ h)

theorem split_cons_of_ne {sep c : Char} (h : c ≠ sep) (cs : List Char) :
    ∃ first later, split sep cs = first :: later ∧
      split sep (c :: cs) = (c :: first) :: later := by
  cases hs : split sep cs with
  | nil => exact absurd hs (split_ne_nil sep cs)
  | cons first later => exact ⟨first, later, rfl, by rw [split, if_neg h, hs]⟩

end Text

open Text

namespace PropertyName

/-! ## Segments -/

/-- Behind an underscore each segment is capitalized, the one that has begun included; with no
underscore before, that one stays as it is. -/
theorem camel_eq (cs : List Char) :
    camel true cs = (split '_' cs).flatMap capitalize ∧
      ∃ first later, split '_' cs = first :: later ∧
        camel false cs = first ++ later.flatMap capitalize := by
  induction cs with
  | nil => exact ⟨rfl, [], [], rfl, rfl⟩
  | cons c cs ih =>
    obtain ⟨htrue, first, later, hsplit, hfalse⟩ := ih
    by_cases hc : c = '_'
    · have hcons : split '_' (c :: cs) = [] :: split '_' cs := by rw [split, if_pos hc]
      refine ⟨?_, [], split '_' cs, hcons, ?_⟩
      · rw [camel, if_pos hc, htrue, hcons]
        rfl
      · rw [camel, if_pos hc, htrue]
        rfl
    · obtain ⟨first', later', hsplit', hcons⟩ := split_cons_of_ne hc cs
      obtain ⟨rfl, rfl⟩ := List.cons.inj (hsplit.symm.trans hsplit')
      refine ⟨?_, c :: first, later, hcons, ?_⟩
      · rw [camel, if_neg hc, if_pos rfl, hfalse, hcons, List.flatMap_cons, capitalize,
          List.append_assoc]
      · rw [camel, if_neg hc, if_neg Bool.false_ne_true, hfalse]
        rfl

theorem mem_camel {d : Char} {cs : List Char} (h : d ∈ camel false cs) :
    (d ∈ cs ∨ 65 ≤ d.toNat) ∧ d ≠ '_' := by
  obtain ⟨-, first, later, hsplit, hcamel⟩ := camel_eq cs
  have hsegment {s : List Char} (hs : s ∈ first :: later) (hd : d ∈ s) :
      (d ∈ cs ∨ 65 ≤ d.toNat) ∧ d ≠ '_' :=
    have hmem := mem_of_mem_split (hsplit ▸ hs) d hd
    ⟨.inl hmem.2, hmem.1⟩
  rw [hcamel] at h
  rcases List.mem_append.mp h with h | h
  · exact hsegment List.mem_cons_self h
  · obtain ⟨s, hs, h⟩ := List.mem_flatMap.mp h
    rcases mem_capitalize h with h | h
    · exact hsegment (List.mem_cons_of_mem _ hs) h
    · exact ⟨.inr h.1, h.2⟩

theorem camel_of_not_mem {cs : List Char} (h : '_' ∉ cs) : camel false cs = cs := by
  obtain ⟨-, first, later, hsplit, hcamel⟩ := camel_eq cs
  rw [split_of_not_mem h] at hsplit
  obtain ⟨rfl, rfl⟩ := List.cons.inj hsplit
  rw [hcamel, List.flatMap_nil, List.append_nil]

/-- Empty segments, which come of underscores at the ends or in a row, leave nothing behind. -/
theorem lowerCamel_by_segments (name : String) :
    (∃ first later, split '_' name.toList = first :: later ∧
      (lowerCamel name).toList = first ++ later.flatMap capitalize ∧
      (lowerCamel name).toList = first ++ (later.filter (· ≠ [])).flatMap capitalize) ∧
    '_' ∉ (lowerCamel name).toList ∧ lowerCamel (lowerCamel name) = lowerCamel name := by
  have hchars : (lowerCamel name).toList = camel false name.toList := String.toList_ofList
  have hnone : '_' ∉ camel false name.toList := fun h => (mem_camel h).2 rfl
  obtain ⟨-, first, later, hsplit, hcamel⟩ := camel_eq name.toList
  refine ⟨⟨first, later, hsplit, hchars.trans hcamel, ?_⟩, hchars ▸ hnone, ?_⟩
  · rw [flatMap_capitalize_filter, hchars, hcamel]
  · rw [← String.toList_inj, hchars, lowerCamel, hchars, camel_of_not_mem hnone,
      String.toList_ofList]

example : lowerCamel "_ſt__ŉon_x_" = "StʼNonX" := by decide

end PropertyName

end ProtoTypings

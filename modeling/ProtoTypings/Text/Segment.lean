/-!
# Segments

A text cut at a separator. `split` gives one segment more than there are separators, and joining
the segments with `List.intercalate` gives the text back.
-/

namespace ProtoTypings.Text

def split (sep : Char) : List Char → List (List Char)
  | [] => [[]]
  | c :: cs =>
    if c = sep then [] :: split sep cs
    else match split sep cs with
      | [] => [[c]]
      | s :: ss => (c :: s) :: ss

theorem split_ne_nil (sep : Char) (cs : List Char) : split sep cs ≠ [] := by
  cases cs with
  | nil => simp [split]
  | cons c cs =>
    unfold split
    split
    · simp
    · split <;> simp

theorem split_append_cons {sep : Char} {s : List Char} (h : sep ∉ s) (cs : List Char) :
    split sep (s ++ sep :: cs) = s :: split sep cs := by
  induction s with
  | nil => simp [split]
  | cons c s ih =>
    simp only [List.mem_cons, not_or] at h
    simp [split, Ne.symm h.1, ih h.2]

theorem split_of_not_mem {sep : Char} {s : List Char} (h : sep ∉ s) : split sep s = [s] := by
  induction s with
  | nil => rfl
  | cons c s ih =>
    simp only [List.mem_cons, not_or] at h
    rw [split, if_neg (Ne.symm h.1), ih h.2]

/-- A text is cut the same way on both sides of a separator. -/
theorem split_append (sep : Char) (as bs : List Char) :
    split sep (as ++ sep :: bs) = split sep as ++ split sep bs := by
  induction as with
  | nil => simp [split]
  | cons a as ih =>
    rw [List.cons_append, split, split, ih]
    split
    · rfl
    · have hne := split_ne_nil sep as
      cases hs : split sep as with
      | nil => exact absurd hs hne
      | cons s ss => rfl

theorem mem_of_mem_split {sep : Char} {cs s : List Char} (h : s ∈ split sep cs) :
    ∀ c ∈ s, c ≠ sep ∧ c ∈ cs := by
  induction cs generalizing s with
  | nil =>
    obtain rfl := List.mem_singleton.mp h
    exact fun c hc => absurd hc List.not_mem_nil
  | cons d cs ih =>
    rw [split] at h
    split at h
    · rcases List.mem_cons.mp h with rfl | h
      · exact fun c hc => absurd hc List.not_mem_nil
      · exact fun c hc => ⟨(ih h c hc).1, List.mem_cons_of_mem _ (ih h c hc).2⟩
    · next hd =>
      cases hs : split sep cs with
      | nil => exact absurd hs (split_ne_nil sep cs)
      | cons r rs =>
        rw [hs] at h ih
        rcases List.mem_cons.mp h with rfl | h
        · refine List.forall_mem_cons.mpr ⟨⟨hd, List.mem_cons_self⟩, fun c hc => ?_⟩
          obtain ⟨hne, hmem⟩ := ih List.mem_cons_self c hc
          exact ⟨hne, List.mem_cons_of_mem _ hmem⟩
        · have hr := ih (List.mem_cons_of_mem _ h)
          exact fun c hc => ⟨(hr c hc).1, List.mem_cons_of_mem _ (hr c hc).2⟩

theorem split_intercalate {sep : Char} {ss : List (List Char)} (hne : ss ≠ [])
    (h : ∀ s ∈ ss, sep ∉ s) : split sep (List.intercalate [sep] ss) = ss := by
  induction ss with
  | nil => exact absurd rfl hne
  | cons s ss ih =>
    obtain ⟨hs, hss⟩ := List.forall_mem_cons.mp h
    cases ss with
    | nil => rw [List.intercalate_singleton, split_of_not_mem hs]
    | cons r rs =>
      rw [List.intercalate_cons_cons, List.append_assoc, List.singleton_append,
        split_append_cons hs, ih (List.cons_ne_nil r rs) hss]

theorem intercalate_split (sep : Char) (cs : List Char) :
    List.intercalate [sep] (split sep cs) = cs := by
  induction cs with
  | nil => rfl
  | cons c cs ih =>
    unfold split
    have hne := split_ne_nil sep cs
    cases hs : split sep cs with
    | nil => exact absurd hs hne
    | cons s ss =>
      rw [hs] at ih
      split
      · next h => subst h; rw [List.intercalate_cons_cons, ih]; rfl
      · cases ss <;> simp_all

end ProtoTypings.Text

import Mathlib.Data.List.Induction
import Mathlib.Data.List.Perm.Subperm
import ProtoTypings.Identifier
import ProtoTypings.Import
import ProtoTypings.Proofs.Keyed

/-!
# Import lists

One import for each file that is asked for, in the order in which the files are asked for first
(`firstOccurrences_ofFiles`), so the qualifier for a file is that of its only import
(`qualifierOf?_ofFiles`). Qualifiers are identifiers, and no two imports share one
(`sound_ofFiles`): there is one more candidate for a qualifier than there are names taken.
-/

namespace ProtoTypings

namespace SourcePath

theorem mem_qualifierChars {cs : List Char} {c : Char} (h : c ∈ qualifierChars cs) :
    c.isAlphanum = true ∨ c = '_' := by
  rcases List.mem_append.mp h with h | h
  · obtain ⟨d, -, rfl⟩ := List.mem_map.mp h
    by_cases hd : d.isAlphanum = true
    · rw [if_pos hd]
      exact .inl hd
    · rw [if_neg hd]
      exact .inr rfl
  · simp only [List.mem_cons, List.not_mem_nil, or_false] at h
    rcases h with rfl | rfl | rfl
    · exact .inr rfl
    · exact .inl rfl
    · exact .inl rfl

theorem isPart_of_mem_qualifierChars {cs : List Char} {c : Char} (h : c ∈ qualifierChars cs) :
    Identifier.isPart c = true := by
  rcases mem_qualifierChars h with h | rfl
  · simp [Identifier.isPart, h]
  · rfl

theorem isValid_qualifier (path : String) : Identifier.isValid (qualifier path) = true := by
  have hpart : ∀ c ∈ qualifierChars (stemChars path.toList), Identifier.isPart c = true :=
    fun _ => isPart_of_mem_qualifierChars
  have hne : qualifierChars (stemChars path.toList) ≠ [] :=
    List.append_ne_nil_of_right_ne_nil _ (List.cons_ne_nil _ _)
  unfold qualifier
  cases hcs : qualifierChars (stemChars path.toList) with
  | nil => exact absurd hcs hne
  | cons c cs =>
    rw [hcs] at hpart
    obtain ⟨hc, hrest⟩ := List.forall_mem_cons.mp hpart
    refine Identifier.isValid_iff.mpr ?_
    cases hd : c.isDigit with
    | true => exact ⟨'_', c :: cs, by simp [hd], rfl, hpart⟩
    | false => exact ⟨c, cs, by simp [hd], Identifier.isStart_of_isPart hc hd, hrest⟩

end SourcePath

namespace Import

/-! ## Free qualifiers -/

theorem toString_inj {m n : Nat} (h : toString m = toString n) : m = n := by
  have hdigits : Nat.toDigits 10 m = Nat.toDigits 10 n := by
    rw [← Nat.toList_repr, ← Nat.toList_repr]
    exact congrArg String.toList h
  rw [← Nat.ofDigitChars_ten_toDigits (n := m), hdigits, Nat.ofDigitChars_ten_toDigits]

theorem nodup_candidates (taken : Nat) (base : String) : (candidates taken base).Nodup := by
  rw [candidates, List.nodup_cons, List.mem_map]
  constructor
  · rintro ⟨n, -, h⟩
    exact Nat.repr_ne_empty (String.append_eq_left_iff.mp h)
  · refine List.nodup_range.map fun m n h => ?_
    exact Nat.add_right_cancel (toString_inj ((String.append_right_inj base).mp h))

theorem exists_free (taken : List String) (base : String) :
    ∃ q ∈ candidates taken.length base, q ∉ taken := by
  by_contra h
  push Not at h
  have hle := (nodup_candidates taken.length base).length_le_of_subset h
  rw [candidates, List.length_cons, List.length_map, List.length_range] at hle
  omega

theorem find?_candidates (taken : List String) (base : String) :
    (candidates taken.length base).find? (· ∉ taken) = some (freeQualifier taken base) := by
  obtain ⟨q, hq, hfree⟩ := exists_free taken base
  obtain ⟨r, hr⟩ : ∃ r, (candidates taken.length base).find? (· ∉ taken) = some r :=
    Option.isSome_iff_exists.mp (List.find?_isSome.mpr ⟨q, hq, by simpa using hfree⟩)
  rw [freeQualifier, hr, Option.getD_some]

theorem freeQualifier_spec (taken : List String) (base : String) :
    freeQualifier taken base ∈ candidates taken.length base ∧ freeQualifier taken base ∉ taken := by
  have hfind := find?_candidates taken base
  exact ⟨List.mem_of_find?_eq_some hfind, by simpa using List.find?_some hfind⟩

theorem isValid_of_mem_candidates {taken : Nat} {base q : String}
    (h : Identifier.isValid base = true) (hq : q ∈ candidates taken base) :
    Identifier.isValid q = true := by
  rcases List.mem_cons.mp hq with rfl | hq
  · exact h
  · obtain ⟨n, -, rfl⟩ := List.mem_map.mp hq
    refine Identifier.isValid_append h fun c hc => ?_
    rw [Nat.toString_eq_repr, Nat.toList_repr] at hc
    exact Identifier.isPart_of_isDigit (Nat.isDigit_of_mem_toDigits (by decide) (by decide) hc)

/-! ## Lists of imports -/

variable (importer : String)

theorem map_file_add (imports : List Import) (file : String) :
    (add importer imports file).map (·.file) =
      if file ∈ imports.map (·.file) then imports.map (·.file)
      else imports.map (·.file) ++ [file] := by
  have hany : imports.any (·.file == file) = true ↔ file ∈ imports.map (·.file) := by
    simp [List.any_eq_true]
  unfold add
  by_cases h : file ∈ imports.map (·.file)
  · rw [if_pos (hany.mpr h), if_pos h]
  · rw [if_neg (fun h' => h (hany.mp h')), if_neg h, List.map_append]
    rfl

theorem ofFiles_concat (files : List String) (file : String) :
    ofFiles importer (files ++ [file]) = add importer (ofFiles importer files) file := by
  simp [ofFiles]

theorem firstOccurrences_ofFiles (files : List String) :
    FirstOccurrences files ((ofFiles importer files).map (·.file)) := by
  induction files using List.reverseRecOn with
  | nil => exact .nil
  | append_singleton files file ih =>
    rw [ofFiles_concat, map_file_add]
    exact ih.concat file

theorem qualifierOf?_of_mem {imports : List Import} (h : (imports.map (·.file)).Nodup) {i : Import}
    (hi : i ∈ imports) : qualifierOf? imports i.file = some i.qualifier := by
  rw [qualifierOf?, (find?_key_eq_some_iff h).mpr ⟨hi, rfl⟩]
  rfl

theorem qualifierOf?_ofFiles {files : List String} {file : String} (h : file ∈ files) :
    ∃ i, (ofFiles importer files).filter (·.file == file) = [i] ∧
      qualifierOf? (ofFiles importer files) file = some i.qualifier := by
  have hfirst := firstOccurrences_ofFiles importer files
  obtain ⟨i, hi, rfl⟩ := List.mem_map.mp ((hfirst.mem_iff file).mpr h)
  exact ⟨i, filter_key_eq_singleton hfirst.nodup hi, qualifierOf?_of_mem hfirst.nodup hi⟩

/-- Each import is written well and can be told from the others. -/
structure Sound (imports : List Import) : Prop where
  nodup_qualifier : (imports.map (·.qualifier)).Nodup
  isValid : ∀ i ∈ imports, Identifier.isValid i.qualifier = true
  specifier_eq : ∀ i ∈ imports, i.specifier = SourcePath.specifier importer i.file

variable {importer}

theorem Sound.add {imports : List Import} (h : Sound importer imports) (file : String) :
    Sound importer (add importer imports file) := by
  unfold Import.add
  split
  · exact h
  · obtain ⟨hcandidate, hfree⟩ :=
      freeQualifier_spec (imports.map (·.qualifier)) (SourcePath.qualifier file)
    refine ⟨?_, ?_, ?_⟩
    · rw [List.map_append, List.nodup_append]
      refine ⟨h.nodup_qualifier, List.nodup_singleton _, ?_⟩
      intro q hq q' hq' heq
      have hnew : q = freeQualifier (imports.map (·.qualifier)) (SourcePath.qualifier file) :=
        heq.trans (List.mem_singleton.mp hq')
      exact hfree (hnew ▸ hq)
    · refine List.forall_mem_append.mpr ⟨h.isValid, List.forall_mem_singleton.mpr ?_⟩
      exact isValid_of_mem_candidates (SourcePath.isValid_qualifier file) hcandidate
    · exact List.forall_mem_append.mpr ⟨h.specifier_eq, List.forall_mem_singleton.mpr rfl⟩

theorem sound_ofFiles (importer : String) (files : List String) :
    Sound importer (ofFiles importer files) := by
  induction files using List.reverseRecOn with
  | nil => exact ⟨List.nodup_nil, List.forall_mem_nil _, List.forall_mem_nil _⟩
  | append_singleton files file ih =>
    rw [ofFiles_concat]
    exact ih.add file

end Import

end ProtoTypings

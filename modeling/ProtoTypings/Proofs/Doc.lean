import Mathlib.Data.List.Infix
import ProtoTypings.Proofs.Layout
import ProtoTypings.Proofs.Projection

/-!
# Documentation is inert

A line of documentation is `Inert`: it stays on its line and cannot close the comment it is put
into. That holds of the lines of every comment (`Doc.inert_of_mem_lines`), so of all documentation
that a projection takes from a file (`File.inert_of_mem_docs`).
-/

namespace ProtoTypings

open Index

namespace Doc

/-! ## Lines of a comment -/

theorem mem_of_mem_escape {c : Char} {cs : List Char} (h : c ∈ escape cs) : c = '\\' ∨ c ∈ cs := by
  fun_induction escape cs with
  | case1 cs ih =>
    simp only [List.mem_cons] at h ⊢
    grind
  | case2 d cs _ ih =>
    rcases List.mem_cons.mp h with rfl | h
    · exact .inr List.mem_cons_self
    · exact (ih h).imp_right (List.mem_cons_of_mem _)
  | case3 => exact .inr h

/-- Escaping puts no slash in front. -/
theorem eq_slash_of_escape {cs ds : List Char} (h : escape cs = '/' :: ds) :
    ∃ es, cs = '/' :: es := by
  unfold escape at h
  split at h
  · simp at h
  · next c es _ =>
    obtain ⟨rfl, -⟩ := List.cons.inj h
    exact ⟨es, rfl⟩
  · cases h

theorem not_infix_escape (cs : List Char) : ¬ ['*', '/'] <:+: escape cs := by
  fun_induction escape cs with
  | case1 cs ih => simp [List.infix_cons_iff, List.cons_prefix_cons, ih]
  | case2 c cs hne ih =>
    rw [List.infix_cons_iff, List.cons_prefix_cons, not_or]
    refine ⟨?_, ih⟩
    rintro ⟨rfl, es, hes⟩
    obtain ⟨es, rfl⟩ := eq_slash_of_escape hes.symm
    exact hne es rfl rfl
  | case3 => simp

/-- Text that can be put into one line of a comment. -/
def Inert (s : String) : Prop := Text.SingleLine s ∧ ¬ ['*', '/'] <:+: s.toList

instance : DecidablePred Inert := fun _ => inferInstanceAs (Decidable (_ ∧ _))

theorem inert_of_mem_lines {comment l : String} (h : l ∈ lines comment) : Inert l := by
  obtain ⟨cs, hcs, rfl⟩ := List.mem_map.mp h
  obtain ⟨ds, hds, rfl⟩ := List.mem_map.mp hcs
  obtain ⟨es, hes, rfl⟩ := List.mem_map.mp (Text.mem_of_mem_dropWhile_ends hds)
  rw [Inert, Text.SingleLine, String.toList_ofList]
  refine ⟨fun hmem => ?_, not_infix_escape _⟩
  rcases mem_of_mem_escape hmem with hmem | hmem
  · cases hmem
  · exact (Text.mem_of_mem_split hes _ (Text.mem_of_mem_trim hmem)).1 rfl

theorem inert_of_mem_mark {isDeprecated : Bool} {ls : List String} (hls : ∀ l ∈ ls, Inert l) :
    ∀ l ∈ mark isDeprecated ls, Inert l := by
  have hempty : Inert "" := by decide
  have hdeprecated : Inert deprecated := by decide
  unfold mark
  split
  · split
    · exact List.forall_mem_singleton.mpr hdeprecated
    · exact List.forall_mem_append.mpr ⟨hls, by simp [hempty, hdeprecated]⟩
  · exact hls

end Doc

/-! ## Documentation of a file -/

theorem Location.inert_of_mem_docLines {loc : Location} : ∀ l ∈ loc.docLines, Doc.Inert l := by
  unfold docLines
  split
  · exact fun l h => absurd h List.not_mem_nil
  · exact fun l => Doc.inert_of_mem_lines

namespace File

theorem docLines_eq (f : File) (path : List Int32) :
    f.docLines path = [] ∨
      ∃ loc ∈ f.locations, loc.path = path ∧ f.docLines path = loc.docLines := by
  unfold docLines
  dsimp only
  cases h : ((((f.locations.filter (·.path == path)).map Location.docLines).filter
      (!·.isEmpty)).getLast?) with
  | none => exact .inl rfl
  | some ls =>
    obtain ⟨loc, hloc, rfl⟩ := List.mem_map.mp (List.mem_filter.mp (List.mem_of_getLast? h)).1
    obtain ⟨hmem, hpath⟩ := List.mem_filter.mp hloc
    exact .inr ⟨loc, hmem, beq_iff_eq.mp hpath, rfl⟩

theorem inert_of_mem_doc (f : File) (path : List Int32) (isDeprecated : Bool) :
    ∀ l ∈ f.doc path isDeprecated, Doc.Inert l := by
  refine Doc.inert_of_mem_mark fun l hl => ?_
  rcases f.docLines_eq path with h | ⟨loc, -, -, h⟩
  · rw [h] at hl
    exact absurd hl List.not_mem_nil
  · exact Location.inert_of_mem_docLines l (h ▸ hl)

/-! ## Documentation of declarations -/

variable {f : File} {ix : Index}

/-- A declaration has no documentation but that of the file. -/
theorem eq_doc_of_mem_docs {n : Node} {d : Declaration Entry} (h : f.declaration ix n = .ok d)
    {doc : List String} (hdoc : doc ∈ d.docs) :
    ∃ path isDeprecated, doc = f.doc path isDeprecated := by
  cases hb : n.body with
  | message m =>
    obtain ⟨ms, hms, rfl⟩ := (declaration_message_iff hb).mp h
    rcases List.mem_cons.mp hdoc with rfl | hdoc
    · exact ⟨_, _, rfl⟩
    · obtain ⟨mem, hmem, rfl⟩ := List.mem_map.mp hdoc
      obtain ⟨p, -, hp⟩ := exists_left_of_forall₂ (members_eq_ok_iff.mp hms) hmem
      obtain ⟨t, -, rfl⟩ := member_eq_ok_iff.mp hp
      exact ⟨_, _, rfl⟩
  | enum e =>
    obtain rfl := (declaration_enum_iff hb).mp h
    rcases List.mem_cons.mp hdoc with rfl | hdoc
    · exact ⟨_, _, rfl⟩
    · obtain ⟨c, hc, rfl⟩ := List.mem_map.mp hdoc
      obtain ⟨i, hi, rfl⟩ := List.mem_mapIdx.mp hc
      exact ⟨_, _, rfl⟩

theorem inert_of_mem_docs {t : Typings} (h : f.typings ix = .ok t) :
    ∀ doc ∈ t.docs, ∀ l ∈ doc, Doc.Inert l := by
  intro doc hdoc
  obtain ⟨ds, hds, rfl⟩ := typings_eq_ok_iff.mp h
  obtain ⟨d', hd', hdoc⟩ := List.mem_flatMap.mp hdoc
  obtain ⟨d, hd, rfl⟩ := List.mem_map.mp hd'
  rw [Declaration.docs_rename] at hdoc
  obtain ⟨n, -, hn⟩ := exists_left_of_forall₂ (declarations_eq_ok_iff.mp hds).1 hd
  obtain ⟨path, isDeprecated, rfl⟩ := eq_doc_of_mem_docs hn hdoc
  exact f.inert_of_mem_doc path isDeprecated

end File

end ProtoTypings

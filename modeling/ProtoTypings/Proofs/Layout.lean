import ProtoTypings.Text.Segment
import ProtoTypings.Typings.Layout

/-!
# Lines of the layout

Where no string in some typings holds a line feed, neither does a line of their layout
(`Typings.singleLine_of_mem_lines`), so the text can be taken apart into just these lines
(`Typings.lines_text`).
-/

namespace ProtoTypings

/-! ## Lines of a text -/

namespace Text

def SingleLine (s : String) : Prop := '\n' ∉ s.toList

instance : DecidablePred SingleLine := fun _ => inferInstanceAs (Decidable (¬ _))

@[simp] theorem singleLine_append {s t : String} :
    SingleLine (s ++ t) ↔ SingleLine s ∧ SingleLine t := by
  simp [SingleLine]

/-- There are no control characters in the text. -/
def Printable (s : String) : Prop := ∀ c ∈ s.toList, 32 ≤ c.toNat

-- The instance is over the characters of the text; inference may find one over all characters.
instance : DecidablePred Printable := fun s => List.decidableBAll _ s.toList

theorem Printable.not_mem {s : String} (h : Printable s) {c : Char} (hc : c.toNat < 32) :
    c ∉ s.toList := fun hmem => absurd (h c hmem) (Nat.not_le.mpr hc)

/-- A line feed at the end of the text has one more line behind it, which is empty. -/
def lines (text : String) : List String := (split '\n' text.toList).map String.ofList

theorem lines_append {s : String} (h : SingleLine s) (text : String) :
    lines (s ++ "\n" ++ text) = s :: lines text := by
  have hsplit : (s ++ "\n" ++ text).toList = s.toList ++ '\n' :: text.toList := by simp
  rw [lines, hsplit, split_append_cons h, List.map_cons, String.ofList_toList]
  rfl

theorem lines_join {ls : List String} (h : ∀ l ∈ ls, SingleLine l) :
    lines (String.join (ls.map (· ++ "\n"))) = ls ++ [""] := by
  induction ls with
  | nil => rfl
  | cons l ls ih =>
    obtain ⟨hl, hls⟩ := List.forall_mem_cons.mp h
    rw [List.map_cons, String.join_cons, lines_append hl, ih hls, List.cons_append]

theorem intercalate_concat (ls : List String) :
    "\n".intercalate (ls ++ [""]) = String.join (ls.map (· ++ "\n")) := by
  induction ls with
  | nil => rfl
  | cons l ls ih =>
    rw [List.cons_append, String.intercalate_cons_of_ne_nil (by simp), ih, List.map_cons,
      String.join_cons]

end Text

open Text

/-! ## Strings in typings -/

section Strings

variable {ρ σ : Type}

def Declaration.Body.docs : Declaration.Body ρ → List (List String)
  | .interface members => members.map (·.doc)
  | .enum constants => constants.map (·.doc)

def Declaration.docs (d : Declaration ρ) : List (List String) := d.doc :: d.body.docs

def Typings.docs (t : Typings) : List (List String) := t.declarations.flatMap (·.docs)

theorem Declaration.docs_rename (g : ρ → σ) (d : Declaration ρ) : (d.rename g).docs = d.docs := by
  unfold docs rename Body.rename
  cases d.body with
  | interface members => simp [Body.docs, Member.rename]
  | enum constants => rfl

def Member.strings (m : Member String) : List String :=
  m.name :: m.type.references ++ m.oneof.toList

def Declaration.Body.strings : Declaration.Body String → List String
  | .interface members => members.flatMap Member.strings
  | .enum constants => constants.map (·.name)

def Declaration.strings (d : Declaration String) : List String :=
  d.name :: d.fullName :: d.body.strings

def Import.strings (i : Import) : List String := [i.qualifier, i.specifier, i.file]

/-- All strings but the lines of documentation. -/
def Typings.strings (t : Typings) : List String :=
  t.file :: t.package :: t.level :: t.imports.flatMap Import.strings ++
    t.declarations.flatMap Declaration.strings

end Strings

/-! ## Line feeds in the layout -/

theorem docBlock_cons (indent l : String) (doc : List String) :
    docBlock indent (l :: doc) =
      (indent ++ "/**") :: (l :: doc).map (docLine indent) ++ [indent ++ " */"] := rfl

theorem singleLine_docBlock {indent : String} (hindent : SingleLine indent) {doc : List String}
    (hdoc : ∀ l ∈ doc, SingleLine l) : ∀ l ∈ docBlock indent doc, SingleLine l := by
  cases doc with
  | nil => exact fun l h => absurd h List.not_mem_nil
  | cons d doc =>
    have hlines : ∀ l ∈ (d :: doc).map (docLine indent), SingleLine l := by
      intro l hl
      obtain ⟨s, hs, rfl⟩ := List.mem_map.mp hl
      unfold docLine
      split
      · simp +decide [hindent]
      · simp +decide [hindent, hdoc s hs]
    rw [docBlock_cons]
    refine List.forall_mem_append.mpr ⟨List.forall_mem_cons.mpr ⟨?_, hlines⟩,
      List.forall_mem_singleton.mpr ?_⟩
    · simp +decide [hindent]
    · simp +decide [hindent]

/-- What is written around the references has no control characters. -/
theorem TypeExpr.exists_of_mem_text {t : TypeExpr String} {c : Char} (hc : c.toNat < 32)
    (h : c ∈ t.text.toList) : ∃ r ∈ t.references, c ∈ r.toList := by
  have hnone : ∀ {s : String}, Printable s → c ∉ s.toList := fun h => h.not_mem hc
  induction t with
  | number => exact absurd h (hnone (by decide))
  | string => exact absurd h (hnone (by decide))
  | boolean => exact absurd h (hnone (by decide))
  | bytes => exact absurd h (hnone (by decide))
  | reference r => exact ⟨r, List.mem_cons_self, h⟩
  | array element ih =>
    rw [text, String.toList_append, List.mem_append] at h
    exact ih (h.resolve_right (hnone (by decide)))
  | map key value _ ih =>
    have hkey : c ∉ key.keyText.toList := by
      unfold keyText
      split <;> exact hnone (by decide)
    simp only [text, String.toList_append, List.mem_append] at h
    rcases h with (((h | h) | h) | h) | h
    · exact absurd h (hnone (by decide))
    · exact absurd h hkey
    · exact absurd h (hnone (by decide))
    · obtain ⟨r, hr, hmem⟩ := ih h
      exact ⟨r, List.mem_append_right _ hr, hmem⟩
    · exact absurd h (hnone (by decide))

theorem Member.exists_of_mem_line {m : Member String} {c : Char} (hc : c.toNat < 32)
    (h : c ∈ m.line.toList) : ∃ s ∈ m.strings, c ∈ s.toList := by
  have hnone : ∀ {s : String}, Printable s → c ∉ s.toList := fun h => h.not_mem hc
  simp only [line, String.toList_append, List.mem_append] at h
  rcases h with ((((h | h) | h) | h) | h) | h
  · exact absurd h (hnone (by decide))
  · exact ⟨m.name, List.mem_cons_self, h⟩
  · exact absurd h (hnone (by decide))
  · obtain ⟨r, hr, hmem⟩ := TypeExpr.exists_of_mem_text hc h
    exact ⟨r, List.mem_cons_of_mem _ (List.mem_append_left _ hr), hmem⟩
  · exact absurd h (hnone (by decide))
  · cases hm : m.oneof with
    | none => simp [hm] at h
    | some group =>
      refine ⟨group, by simp [strings, hm], ?_⟩
      rw [hm] at h
      dsimp only at h
      split at h
      · cases h
      · rw [String.toList_append, List.mem_append] at h
        exact h.resolve_left (hnone (by decide))

theorem Member.singleLine_line {m : Member String} (h : ∀ s ∈ m.strings, SingleLine s) :
    SingleLine m.line := by
  intro hmem
  obtain ⟨s, hs, hmem⟩ := m.exists_of_mem_line (by decide) hmem
  exact h s hs hmem

theorem singleLine_repr (n : Nat) : SingleLine n.repr := by
  intro h
  rw [Nat.toList_repr] at h
  exact absurd (Nat.isDigit_of_mem_toDigits (by decide) (by decide) h) (by decide)

theorem Constant.singleLine_line {c : Constant} (h : SingleLine c.name) : SingleLine c.line := by
  have hvalue : SingleLine c.value.toInt.repr := by
    rw [Int.repr_eq_if]
    split
    · exact singleLine_repr _
    · exact singleLine_append.mpr ⟨by decide, singleLine_repr _⟩
  simp +decide [line, h, hvalue]

namespace Declaration

theorem Body.singleLine_of_mem_lines {b : Body String} (hstrings : ∀ s ∈ b.strings, SingleLine s)
    (hdocs : ∀ doc ∈ b.docs, ∀ l ∈ doc, SingleLine l) : ∀ l ∈ b.lines, SingleLine l := by
  intro l hl
  cases b with
  | interface members =>
    obtain ⟨m, hm, hl⟩ := List.mem_flatMap.mp hl
    rcases List.mem_append.mp hl with hl | hl
    · exact singleLine_docBlock (by decide) (hdocs _ (List.mem_map_of_mem hm)) l hl
    · obtain rfl := List.mem_singleton.mp hl
      exact Member.singleLine_line fun s hs => hstrings s (List.mem_flatMap_of_mem hm hs)
  | enum constants =>
    obtain ⟨c, hc, hl⟩ := List.mem_flatMap.mp hl
    rcases List.mem_append.mp hl with hl | hl
    · exact singleLine_docBlock (by decide) (hdocs _ (List.mem_map_of_mem hc)) l hl
    · obtain rfl := List.mem_singleton.mp hl
      exact Constant.singleLine_line (hstrings _ (List.mem_map_of_mem hc))

theorem singleLine_of_mem_lines {d : Declaration String}
    (hstrings : ∀ s ∈ d.strings, SingleLine s) (hdocs : ∀ doc ∈ d.docs, ∀ l ∈ doc, SingleLine l) :
    ∀ l ∈ d.lines, SingleLine l := by
  obtain ⟨hname, hstrings⟩ := List.forall_mem_cons.mp hstrings
  obtain ⟨hdoc, hdocs⟩ := List.forall_mem_cons.mp hdocs
  have hbody := Body.singleLine_of_mem_lines (List.forall_mem_cons.mp hstrings).2 hdocs
  have hkeyword : SingleLine d.body.keyword := by
    unfold Body.keyword
    split <;> decide
  unfold lines
  simp only [List.forall_mem_append, List.forall_mem_cons]
  refine ⟨⟨singleLine_docBlock (by decide) hdoc, ?_, hbody⟩, by decide, by simp⟩
  simp +decide [hkeyword, hname]

end Declaration

theorem Import.singleLine_line {i : Import} (h : ∀ s ∈ i.strings, SingleLine s) :
    SingleLine i.line := by
  have hqualifier : SingleLine i.qualifier := h _ (by simp [strings])
  have hspecifier : SingleLine i.specifier := h _ (by simp [strings])
  simp +decide [line, hqualifier, hspecifier]

namespace Typings

variable {t : Typings}

theorem singleLine_of_mem_lines (hstrings : ∀ s ∈ t.strings, SingleLine s)
    (hdocs : ∀ doc ∈ t.docs, ∀ l ∈ doc, SingleLine l) : ∀ l ∈ t.lines, SingleLine l := by
  unfold strings at hstrings
  simp only [List.cons_append, List.forall_mem_cons, List.forall_mem_append] at hstrings
  obtain ⟨hfile, hpackage, -, himports, hdeclarations⟩ := hstrings
  have hbanner : ∀ l ∈ t.banner, SingleLine l := by
    unfold banner
    split
    · simp +decide [hfile]
    · simp +decide [hfile, hpackage]
  have himport : ∀ l ∈ t.importLines, SingleLine l := by
    unfold importLines
    split
    · exact fun l h => absurd h List.not_mem_nil
    · refine List.forall_mem_cons.mpr ⟨by decide, fun l hl => ?_⟩
      obtain ⟨i, hi, rfl⟩ := List.mem_map.mp hl
      exact Import.singleLine_line fun s hs => himports s (List.mem_flatMap_of_mem hi hs)
  refine List.forall_mem_append.mpr ⟨List.forall_mem_append.mpr ⟨hbanner, himport⟩, fun l hl => ?_⟩
  obtain ⟨d, hd, hl⟩ := List.mem_flatMap.mp hl
  rcases List.mem_cons.mp hl with rfl | hl
  · decide
  · exact Declaration.singleLine_of_mem_lines
      (fun s hs => hdeclarations s (List.mem_flatMap_of_mem hd hs))
      (fun doc hdoc => hdocs doc (List.mem_flatMap_of_mem hd hdoc)) l hl

theorem lines_text (hstrings : ∀ s ∈ t.strings, SingleLine s)
    (hdocs : ∀ doc ∈ t.docs, ∀ l ∈ doc, SingleLine l) : Text.lines t.text = t.lines ++ [""] :=
  lines_join (singleLine_of_mem_lines hstrings hdocs)

end Typings

end ProtoTypings

import ProtoTypings.Proofs.Doc
import ProtoTypings.Proofs.Template
import ProtoTypings.Proofs.Uncommented

/-!
# Blocks of documentation

A block is recognized in a text by its lines alone: it starts at a line that is `/**` behind blanks
and ends at the first line after this one that holds `*/`. `Strips ls ls'` says that `ls'` is left
of the lines `ls` when all blocks are taken out. All documentation is in blocks and nothing else is,
so a text without its blocks is the text of a file without its comments
(`File.comments_stay_in_blocks`).
-/

namespace ProtoTypings

open Index Text

/-! ## Taking blocks out -/

def opensBlock (line : String) : Bool := trimStart line.toList == ['/', '*', '*']

def closesBlock (line : String) : Bool := decide (['*', '/'] <:+: line.toList)

/-- The lines outside of blocks. `inside` says whether the first line is in a block. -/
def withoutBlocks : (inside : Bool) → List String → List String
  | _, [] => []
  | true, l :: ls => withoutBlocks (!closesBlock l) ls
  | false, l :: ls => if opensBlock l then withoutBlocks true ls else l :: withoutBlocks false ls

def withoutDocBlocks (text : String) : String :=
  "\n".intercalate (withoutBlocks false (Text.lines text))

/-- Whatever follows, the lines close every block that they open, and `ls'` is left of them. -/
def Strips (ls ls' : List String) : Prop :=
  ∀ rest, withoutBlocks false (ls ++ rest) = ls' ++ withoutBlocks false rest

namespace Strips

theorem nil : Strips [] [] := fun _ => rfl

theorem append {as as' bs bs' : List String} (ha : Strips as as') (hb : Strips bs bs') :
    Strips (as ++ bs) (as' ++ bs') := fun rest => by
  rw [List.append_assoc, ha, hb, List.append_assoc]

theorem flatMap {α : Type} {g g' : α → List String} {xs : List α}
    (h : ∀ x ∈ xs, Strips (g x) (g' x)) : Strips (xs.flatMap g) (xs.flatMap g') := by
  induction xs with
  | nil => exact nil
  | cons x xs ih =>
    obtain ⟨hx, hxs⟩ := List.forall_mem_cons.mp h
    exact hx.append (ih hxs)

theorem of_forall {ls : List String} (h : ∀ l ∈ ls, opensBlock l = false) : Strips ls ls := by
  intro rest
  induction ls with
  | nil => rfl
  | cons l ls ih =>
    obtain ⟨hl, hls⟩ := List.forall_mem_cons.mp h
    rw [List.cons_append, withoutBlocks, hl, if_neg Bool.false_ne_true, ih hls, List.cons_append]

end Strips

/-! ## Blocks of documentation -/

theorem withoutBlocks_inside {ls : List String} (h : ∀ l ∈ ls, closesBlock l = false)
    (rest : List String) : withoutBlocks true (ls ++ rest) = withoutBlocks true rest := by
  induction ls with
  | nil => rfl
  | cons l ls ih =>
    obtain ⟨hl, hls⟩ := List.forall_mem_cons.mp h
    rw [List.cons_append, withoutBlocks, hl, Bool.not_false, ih hls]

theorem infix_of_infix_append {α : Type} {a b : α} {xs ys : List α} (hxs : a ∉ xs)
    (h : [a, b] <:+: xs ++ ys) : [a, b] <:+: ys := by
  induction xs with
  | nil => exact h
  | cons x xs ih =>
    rw [List.mem_cons, not_or] at hxs
    rcases List.infix_cons_iff.mp h with h | h
    · exact absurd (List.cons_prefix_cons.mp h).1 hxs.1
    · exact ih hxs.2 h

section Block

variable {indent : String}

theorem opensBlock_start (hindent : ∀ c ∈ indent.toList, isBlank c = true) :
    opensBlock (indent ++ "/**") = true := by
  unfold opensBlock trimStart
  rw [String.toList_append, List.dropWhile_append_of_pos hindent]
  rfl

theorem closesBlock_end (indent : String) : closesBlock (indent ++ " */") = true :=
  decide_eq_true ⟨indent.toList ++ [' '], [], by simp⟩

theorem closesBlock_docLine (hindent : ∀ c ∈ indent.toList, isBlank c = true) {l : String}
    (hl : Doc.Inert l) : closesBlock (docLine indent l) = false := by
  have hstar : '*' ∉ indent.toList := fun h => absurd (hindent _ h) (by decide)
  refine decide_eq_false fun h => ?_
  unfold docLine at h
  rw [String.toList_append] at h
  have h := infix_of_infix_append hstar h
  split at h
  · exact absurd h (by decide)
  · exact hl.2 (by simpa [List.infix_cons_iff, List.cons_prefix_cons] using h)

theorem Strips.block (hindent : ∀ c ∈ indent.toList, isBlank c = true) {doc : List String}
    (hdoc : ∀ l ∈ doc, Doc.Inert l) : Strips (docBlock indent doc) [] := by
  intro rest
  cases doc with
  | nil => rfl
  | cons d doc =>
    have hlines : ∀ l ∈ (d :: doc).map (docLine indent), closesBlock l = false := by
      intro l hl
      obtain ⟨s, hs, rfl⟩ := List.mem_map.mp hl
      exact closesBlock_docLine hindent (hdoc s hs)
    rw [docBlock_cons, List.append_assoc, List.cons_append, withoutBlocks, opensBlock_start hindent,
      if_pos rfl, withoutBlocks_inside hlines, List.singleton_append, withoutBlocks,
      closesBlock_end indent]
    rfl

end Block

/-! ## Lines of code -/

/-- A line with a character that is no blank and not in `/**` opens no block. -/
theorem opensBlock_eq_false {l : String} (c : Char) (hc : c ∈ l.toList)
    (hplain : isBlank c = false ∧ c ∉ ['/', '*']) : opensBlock l = false := by
  refine beq_eq_false_iff_ne.mpr fun h => ?_
  have hsplit : l.toList = l.toList.takeWhile isBlank ++ trimStart l.toList :=
    List.takeWhile_append_dropWhile.symm
  rw [hsplit, h, List.mem_append] at hc
  rcases hc with hc | hc
  · exact absurd (List.all_eq_true.mp List.all_takeWhile c hc) (by simp [hplain.1])
  · exact hplain.2 (by simpa using hc)

theorem Member.opensBlock_line (m : Member String) : opensBlock m.line = false :=
  opensBlock_eq_false '?' (by simp [line]) (by decide)

theorem Constant.opensBlock_line (c : Constant) : opensBlock c.line = false :=
  opensBlock_eq_false '=' (by simp [line]) (by decide)

theorem Import.opensBlock_line (i : Import) : opensBlock i.line = false :=
  opensBlock_eq_false 'i' (by simp [line]) (by decide)

theorem Typings.opensBlock_banner (t : Typings) : ∀ l ∈ t.banner, opensBlock l = false := by
  have hpackage : opensBlock ("// package: " ++ t.package) = false :=
    opensBlock_eq_false 'p' (by simp) (by decide)
  have hfile : opensBlock ("// file: " ++ t.file) = false :=
    opensBlock_eq_false 'f' (by simp) (by decide)
  have hstart : opensBlock "// GENERATED CODE -- DO NOT EDIT!" = false := by decide
  unfold banner
  split
  · simp [hstart, hfile]
  · simp [hstart, hpackage, hfile]

theorem Typings.opensBlock_importLines (t : Typings) :
    ∀ l ∈ t.importLines, opensBlock l = false := by
  unfold importLines
  split
  · exact fun l h => absurd h List.not_mem_nil
  · refine List.forall_mem_cons.mpr ⟨by decide, fun l hl => ?_⟩
    obtain ⟨i, -, rfl⟩ := List.mem_map.mp hl
    exact i.opensBlock_line

/-! ## Layout without documentation -/

/-- The line of a member or of a constant, below its documentation. -/
theorem Strips.documented {doc : List String} (hdoc : ∀ l ∈ doc, Doc.Inert l) {line : String}
    (hline : opensBlock line = false) : Strips (docBlock "  " doc ++ [line]) [line] := by
  have hindent : ∀ c ∈ "  ".toList, isBlank c = true :=
    List.forall_mem_cons.mpr ⟨rfl, List.forall_mem_singleton.mpr rfl⟩
  have hcode : Strips [line] [line] := Strips.of_forall (List.forall_mem_singleton.mpr hline)
  exact (Strips.block hindent hdoc).append hcode

theorem Declaration.Body.strips_lines {b : Body String}
    (hdocs : ∀ doc ∈ b.docs, ∀ l ∈ doc, Doc.Inert l) : Strips b.lines b.undocumented.lines := by
  -- documented and undocumented parts have the same lines of code
  cases b with
  | interface members =>
    rw [undocumented, lines, lines, List.flatMap_map]
    refine Strips.flatMap fun m hm => ?_
    exact Strips.documented (hdocs _ (List.mem_map_of_mem hm)) m.opensBlock_line
  | enum constants =>
    rw [undocumented, lines, lines, List.flatMap_map]
    refine Strips.flatMap fun c hc => ?_
    exact Strips.documented (hdocs _ (List.mem_map_of_mem hc)) c.opensBlock_line

theorem Declaration.strips_lines {d : Declaration String}
    (hdocs : ∀ doc ∈ d.docs, ∀ l ∈ doc, Doc.Inert l) : Strips d.lines d.undocumented.lines := by
  obtain ⟨hdoc, hdocs⟩ := List.forall_mem_cons.mp hdocs
  have hblock : Strips (docBlock "" d.doc) [] :=
    Strips.block (fun c hc => absurd hc List.not_mem_nil) hdoc
  have hhead : opensBlock ("export " ++ d.body.keyword ++ " " ++ d.name ++ " \x7b") = false :=
    opensBlock_eq_false 'x' (by simp) (by decide)
  have hkeyword : d.undocumented.body.keyword = d.body.keyword := by
    cases hb : d.body <;> simp [undocumented, Body.undocumented, Body.keyword, hb]
  have hcode := (Strips.of_forall (List.forall_mem_singleton.mpr hhead)).append
    (Body.strips_lines hdocs)
  have hend : Strips ["\x7d"] ["\x7d"] :=
    Strips.of_forall (List.forall_mem_singleton.mpr (by decide))
  unfold lines
  rw [hkeyword]
  exact (hblock.append hcode).append hend

theorem Typings.strips_lines {t : Typings} (hdocs : ∀ doc ∈ t.docs, ∀ l ∈ doc, Doc.Inert l) :
    Strips t.lines t.undocumented.lines := by
  have himports : Strips (t.banner ++ t.importLines) (t.banner ++ t.importLines) :=
    Strips.of_forall
      (List.forall_mem_append.mpr ⟨t.opensBlock_banner, t.opensBlock_importLines⟩)
  have hdeclarations : Strips (t.declarations.flatMap fun d => "" :: d.lines)
      (t.declarations.flatMap fun d => "" :: d.undocumented.lines) :=
    Strips.flatMap fun d hd =>
      (Strips.of_forall (List.forall_mem_singleton.mpr rfl)).append
        (Declaration.strips_lines fun doc hdoc => hdocs doc (List.mem_flatMap_of_mem hd hdoc))
  have hlines : t.undocumented.lines = t.banner ++ t.importLines ++
      t.declarations.flatMap fun d => "" :: d.undocumented.lines := by
    unfold lines undocumented
    rw [List.flatMap_map]
    rfl
  rw [hlines]
  exact himports.append hdeclarations

theorem Typings.withoutDocBlocks_text {t : Typings}
    (hstrings : ∀ s ∈ t.strings, SingleLine s) (hdocs : ∀ doc ∈ t.docs, ∀ l ∈ doc, Doc.Inert l) :
    withoutDocBlocks t.text = t.undocumented.text := by
  rw [withoutDocBlocks, lines_text hstrings fun doc hdoc l hl => (hdocs doc hdoc l hl).1,
    strips_lines hdocs]
  exact intercalate_concat t.undocumented.lines

/-- Without its comments a file gives the same typings without documentation, or the same error. In
the text that fills the template, it is the blocks that comments account for. -/
theorem File.comments_stay_in_blocks (f : File) (ix : Index) :
    f.uncommented.typings ix = (f.typings ix).map Typings.undocumented ∧
    ∀ t, f.typings ix = .ok t → (∀ s ∈ t.strings, SingleLine s) →
      ∃ t₀ text, f.uncommented.typings ix = .ok t₀ ∧
        Typings.render Typings.template t = .ok text ∧
        Typings.fillTemplate? t.toJson = some text ∧
        Typings.render Typings.template t₀ = .ok (withoutDocBlocks text) ∧
        Typings.fillTemplate? t₀.toJson = some (withoutDocBlocks text) := by
  have htypings := f.typings_uncommented ix
  refine ⟨htypings, fun t ht hstrings => ⟨t.undocumented, t.text, ?_, ?_, ?_⟩⟩
  · rw [htypings, ht]
    rfl
  · rw [Typings.render, if_pos rfl]
  · rw [Typings.withoutDocBlocks_text hstrings (f.inert_of_mem_docs ht)]
    exact ⟨t.fillTemplate?_toJson, if_pos rfl, t.undocumented.fillTemplate?_toJson⟩

namespace Sample

/-- Its comments try to close their block. -/
def annotated : File where
  name? := some "annotated.proto"
  messages := [{
    name? := some "Note"
    fields := [
      { name? := some "text", kind? := some 9, options? := some { deprecated? := some true } }]
    options? := some { deprecated? := some true } }]
  enums := [{ name? := some "Kind", values := [{ name? := some "PLAIN" }] }]
  locations? := some [
    { path := [4, 0], leading? := some " A note.*/ let x = 1; /*\n\n /**\n" },
    { path := [5, 0, 2, 0], trailing? := some "**//\r\n" }]

def emptyIndex : Index where
  files := []
  entries := []

def annotatedTypings : Typings where
  file := "annotated.proto"
  package := ""
  level := "proto2"
  imports := []
  declarations := [
    { name := "Note", fullName := "Note"
      doc := ["A note.*\\/ let x = 1; /*", "", "/**", "", "@deprecated"]
      body := .interface
        [{ name := "text", type := .string, doc := ["@deprecated"], oneof := none }] },
    { name := "Kind", fullName := "Kind", doc := []
      body := .enum [{ name := "PLAIN", value := 0, doc := ["**\\//"] }] }]

theorem annotated_comments_stay_in_blocks :
    annotated.typings emptyIndex = .ok annotatedTypings ∧
    (∀ s ∈ annotatedTypings.strings, SingleLine s) ∧
    ∃ t₀ text, annotated.uncommented.typings emptyIndex = .ok t₀ ∧
      Typings.render Typings.template annotatedTypings = .ok text ∧
      Typings.fillTemplate? annotatedTypings.toJson = some text ∧
      Typings.render Typings.template t₀ = .ok (withoutDocBlocks text) ∧
      Typings.fillTemplate? t₀.toJson = some (withoutDocBlocks text) := by
  have ht : annotated.typings emptyIndex = .ok annotatedTypings := by rfl
  have hstrings : ∀ s ∈ annotatedTypings.strings, SingleLine s := by decide
  exact ⟨ht, hstrings, (annotated.comments_stay_in_blocks emptyIndex).2 _ ht hstrings⟩

end Sample

end ProtoTypings

import ProtoTypings.Proofs.Keyed
import ProtoTypings.Proofs.Template

/-!
# The grammar of generated files

What stands on the lines of a generated file: `t.IsWritten ls` says it of the file for the typings
`t`, block by block. The text of typings without line feeds falls apart into such lines, and of
these the ones that start like an import or like a declaration are those of the imports and the
declarations, in order and with nothing in between (`Typings.lines_keep_structure_and_order`).
-/

namespace ProtoTypings

open Text

/-! ## Blocks of lines -/

/-- The blocks of some things one after another. -/
inductive Sequence {α : Type} (Block : α → List String → Prop) : List α → List String → Prop where
  | nil : Sequence Block [] []
  | cons {a : α} {as : List α} {block ls : List String} : Block a block → Sequence Block as ls →
      Sequence Block (a :: as) (block ++ ls)

/-- Behind the asterisk of an empty line there is not even a blank. -/
inductive IsDocLine (indent : String) : String → String → Prop where
  | empty : IsDocLine indent "" (indent ++ " *")
  | text {l : String} : l ≠ "" → IsDocLine indent l (indent ++ " * " ++ l)

inductive IsDocBlock (indent : String) : List String → List String → Prop where
  | none : IsDocBlock indent [] []
  | block {doc ls : List String} : doc ≠ [] → List.Forall₂ (IsDocLine indent) doc ls →
      IsDocBlock indent doc ((indent ++ "/**") :: ls ++ [indent ++ " */"])

/-- One line, below the documentation. -/
def IsItem {α : Type} (doc : α → List String) (IsLine : α → String → Prop) (a : α)
    (ls : List String) : Prop :=
  ∃ block line, IsDocBlock "  " (doc a) block ∧ IsLine a line ∧ ls = block ++ [line]

inductive Member.IsLine (m : Member String) : String → Prop where
  | alone : (∀ group, m.oneof = some group → group = "") →
      IsLine m ("  " ++ m.name ++ "?: " ++ m.type.text ++ ";")
  | grouped {group : String} : m.oneof = some group → group ≠ "" →
      IsLine m ("  " ++ m.name ++ "?: " ++ m.type.text ++ ";" ++ " // oneof " ++ group)

def Constant.IsLine (c : Constant) (line : String) : Prop :=
  line = "  " ++ c.name ++ " = " ++ toString c.value.toInt ++ ","

namespace Declaration

inductive Body.IsWritten : Body String → List String → Prop where
  | interface {members : List (Member String)} {ls : List String} :
      Sequence (IsItem Member.doc Member.IsLine) members ls → IsWritten (.interface members) ls
  | enum {constants : List Constant} {ls : List String} :
      Sequence (IsItem Constant.doc Constant.IsLine) constants ls → IsWritten (.enum constants) ls

/-- The line that a declaration starts with. -/
def opening (d : Declaration String) : String :=
  match d.body with
  | .interface _ => "export interface " ++ d.name ++ " \x7b"
  | .enum _ => "export enum " ++ d.name ++ " \x7b"

/-- An empty line, the documentation, and the declaration itself. -/
def IsWritten (d : Declaration String) (ls : List String) : Prop :=
  ∃ block body, IsDocBlock "" d.doc block ∧ d.body.IsWritten body ∧
    ls = "" :: block ++ d.opening :: body ++ ["\x7d"]

end Declaration

def Typings.IsWritten (t : Typings) (ls : List String) : Prop :=
  ∃ package imports declarations,
    (t.package = "" ∧ package = [] ∨
      t.package ≠ "" ∧ package = ["// package: " ++ t.package]) ∧
    (t.imports = [] ∧ imports = [] ∨ t.imports ≠ [] ∧ imports = "" :: t.imports.map fun i =>
      "import * as " ++ i.qualifier ++ " from \"" ++ i.specifier ++ "\";") ∧
    Sequence Declaration.IsWritten t.declarations declarations ∧
    ls = "// GENERATED CODE -- DO NOT EDIT!" :: package ++ ["// file: " ++ t.file] ++ imports ++
      declarations

/-! ## The layout follows the grammar -/

theorem Sequence.of_flatMap {α : Type} {Block : α → List String → Prop} {g : α → List String}
    (h : ∀ a, Block a (g a)) (as : List α) : Sequence Block as (as.flatMap g) := by
  induction as with
  | nil => exact .nil
  | cons a as ih => exact .cons (h a) ih

theorem isDocLine_docLine (indent l : String) : IsDocLine indent l (docLine indent l) := by
  unfold docLine
  split
  · next h =>
    subst h
    exact .empty
  · next h =>
    rw [← String.append_assoc]
    exact .text h

theorem isDocBlock_docBlock (indent : String) (doc : List String) :
    IsDocBlock indent doc (docBlock indent doc) := by
  cases doc with
  | nil => exact .none
  | cons l doc =>
    refine .block (List.cons_ne_nil l doc) (List.forall₂_map_right_iff.mpr ?_)
    exact List.forall₂_same.mpr fun l _ => isDocLine_docLine indent l

theorem Member.isLine_line (m : Member String) : m.IsLine m.line := by
  unfold line
  cases h : m.oneof with
  | none =>
    rw [String.append_empty]
    exact .alone fun group hgroup => nomatch h.symm.trans hgroup
  | some group =>
    by_cases hempty : group = ""
    · simp only [if_pos hempty, String.append_empty]
      exact .alone fun group' hgroup => Option.some.inj (h.symm.trans hgroup) ▸ hempty
    · simp only [if_neg hempty, ← String.append_assoc]
      exact .grouped h hempty

theorem Constant.isLine_line (c : Constant) : c.IsLine c.line := rfl

theorem isItem_docBlock {α : Type} {doc : α → List String} {IsLine : α → String → Prop}
    {line : α → String} (h : ∀ a, IsLine a (line a)) (a : α) :
    IsItem doc IsLine a (docBlock "  " (doc a) ++ [line a]) :=
  ⟨_, _, isDocBlock_docBlock "  " (doc a), h a, rfl⟩

namespace Declaration

theorem Body.isWritten_lines (b : Body String) : b.IsWritten b.lines := by
  cases b with
  | interface members => exact .interface (.of_flatMap (isItem_docBlock Member.isLine_line) members)
  | enum constants => exact .enum (.of_flatMap (isItem_docBlock Constant.isLine_line) constants)

theorem isWritten_lines (d : Declaration String) : d.IsWritten ("" :: d.lines) := by
  have hopening : "export " ++ d.body.keyword ++ " " ++ d.name ++ " \x7b" = d.opening := by
    unfold opening Body.keyword
    cases d.body <;> rfl
  refine ⟨_, _, isDocBlock_docBlock "" d.doc, d.body.isWritten_lines, ?_⟩
  rw [lines, hopening]
  rfl

end Declaration

theorem Typings.isWritten_lines (t : Typings) : t.IsWritten t.lines := by
  refine ⟨if t.package = "" then [] else ["// package: " ++ t.package], t.importLines, _, ?_, ?_,
    .of_flatMap Declaration.isWritten_lines t.declarations, ?_⟩
  · by_cases h : t.package = "" <;> simp [h]
  · by_cases h : t.imports = []
    · simp [importLines, h]
    · exact .inr ⟨h, if_neg h⟩
  · simp [lines, banner]

/-! ## Lines that start alike -/

def Text.startsWith (start line : String) : Bool := start.toList.isPrefixOf line.toList

theorem Text.head?_eq_of_startsWith {start line : String} {c : Char}
    (hc : start.toList.head? = some c) (h : startsWith start line = true) :
    line.toList.head? = some c := by
  obtain ⟨rest, hrest⟩ := List.isPrefixOf_iff_prefix.mp h
  rw [← hrest, List.head?_append, hc]
  rfl

/-- Lines that start like no import and no declaration. -/
def IsInner (line : String) : Prop :=
  line.toList.head? ∈ [none, some '/', some ' ', some '\x7d']

instance : DecidablePred IsInner := fun _ => inferInstanceAs (Decidable (_ ∈ _))

theorem isInner_indented {indent : String} (hindent : indent = "" ∨ indent = "  ") {s : String}
    (hs : IsInner s) : IsInner (indent ++ s) := by
  rcases hindent with rfl | rfl
  · rwa [String.empty_append]
  · simp [IsInner]

theorem IsDocBlock.isInner {indent : String} (hindent : indent = "" ∨ indent = "  ")
    {doc ls : List String} (h : IsDocBlock indent doc ls) : ∀ l ∈ ls, IsInner l := by
  cases h with
  | none => exact List.forall_mem_nil _
  | block _ hlines =>
    have hline {d l : String} (h : IsDocLine indent d l) : IsInner l := by
      cases h with
      | empty => exact isInner_indented hindent (by decide)
      | text _ =>
        rw [String.append_assoc]
        exact isInner_indented hindent (by simp [IsInner])
    refine List.forall_mem_append.mpr ⟨List.forall_mem_cons.mpr ⟨?_, fun l hl => ?_⟩, ?_⟩
    · exact isInner_indented hindent (by decide)
    · obtain ⟨d, -, h⟩ := exists_left_of_forall₂ hlines hl
      exact hline h
    · exact List.forall_mem_singleton.mpr (isInner_indented hindent (by decide))

theorem Sequence.forall_mem {α : Type} {Block : α → List String → Prop} {P : String → Prop}
    (hblock : ∀ a block, Block a block → ∀ l ∈ block, P l) {as : List α} {ls : List String}
    (h : Sequence Block as ls) : ∀ l ∈ ls, P l := by
  induction h with
  | nil => exact List.forall_mem_nil _
  | cons ha _ ih => exact List.forall_mem_append.mpr ⟨hblock _ _ ha, ih⟩

theorem IsItem.isInner {α : Type} {doc : α → List String} {IsLine : α → String → Prop}
    (hline : ∀ a line, IsLine a line → IsInner line) (a : α) (ls : List String)
    (h : IsItem doc IsLine a ls) : ∀ l ∈ ls, IsInner l := by
  obtain ⟨block, line, hblock, ha, rfl⟩ := h
  exact List.forall_mem_append.mpr
    ⟨hblock.isInner (.inr rfl), List.forall_mem_singleton.mpr (hline a line ha)⟩

theorem Member.IsLine.isInner (m : Member String) (line : String) (h : m.IsLine line) :
    IsInner line := by
  cases h <;> simp [IsInner]

theorem Constant.IsLine.isInner (c : Constant) (line : String) (h : c.IsLine line) :
    IsInner line := by
  rw [h]
  simp [IsInner]

theorem Declaration.Body.IsWritten.isInner {b : Body String} {ls : List String}
    (h : b.IsWritten ls) : ∀ l ∈ ls, IsInner l := by
  cases h with
  | interface h => exact h.forall_mem (IsItem.isInner Member.IsLine.isInner)
  | enum h => exact h.forall_mem (IsItem.isInner Constant.IsLine.isInner)

section Start

variable {start : String} {c : Char} (hc : start.toList.head? = some c) (hstart : c = 'i' ∨ c = 'e')

include hc hstart

theorem filter_of_isInner {ls : List String} (h : ∀ l ∈ ls, IsInner l) :
    ls.filter (startsWith start) = [] := by
  refine List.filter_eq_nil_iff.mpr fun l hl hmatch => ?_
  have hinner := h l hl
  rw [IsInner, head?_eq_of_startsWith hc hmatch] at hinner
  rcases hstart with rfl | rfl <;> exact absurd hinner (by decide)

theorem Declaration.IsWritten.filter_eq {d : Declaration String} {ls : List String}
    (h : d.IsWritten ls) :
    ls.filter (startsWith start) = [d.opening].filter (startsWith start) := by
  obtain ⟨block, body, hblock, hbody, rfl⟩ := h
  have hbefore : ∀ l ∈ "" :: block, IsInner l :=
    List.forall_mem_cons.mpr ⟨by decide, hblock.isInner (.inl rfl)⟩
  have hafter : ∀ l ∈ body ++ ["\x7d"], IsInner l :=
    List.forall_mem_append.mpr ⟨hbody.isInner, List.forall_mem_singleton.mpr (by decide)⟩
  have hsplit : "" :: block ++ d.opening :: body ++ ["\x7d"] =
      ("" :: block) ++ ([d.opening] ++ (body ++ ["\x7d"])) := by simp
  rw [hsplit, List.filter_append, List.filter_append, filter_of_isInner hc hstart hbefore,
    filter_of_isInner hc hstart hafter, List.append_nil, List.nil_append]

theorem Sequence.filter_declarations {ds : List (Declaration String)} {ls : List String}
    (h : Sequence Declaration.IsWritten ds ls) :
    ls.filter (startsWith start) = (ds.map Declaration.opening).filter (startsWith start) := by
  induction h with
  | nil => rfl
  | @cons d ds block ls hd _ ih =>
    rw [List.filter_append, hd.filter_eq hc hstart, ih, ← List.filter_append]
    rfl

theorem Typings.IsWritten.filter_eq {t : Typings} {ls : List String} (h : t.IsWritten ls) :
    ls.filter (startsWith start) =
      (t.imports.map Import.line ++ t.declarations.map Declaration.opening).filter
        (startsWith start) := by
  obtain ⟨package, imports, declarations, hpackage, himports, hdeclarations, rfl⟩ := h
  have hpackage : ∀ l ∈ package, IsInner l := by
    rcases hpackage with ⟨-, rfl⟩ | ⟨-, rfl⟩
    · exact List.forall_mem_nil _
    · exact List.forall_mem_singleton.mpr (by simp [IsInner])
  have hbanner : ∀ l ∈ "// GENERATED CODE -- DO NOT EDIT!" :: package ++ ["// file: " ++ t.file],
      IsInner l :=
    List.forall_mem_append.mpr ⟨List.forall_mem_cons.mpr ⟨by decide, hpackage⟩,
      List.forall_mem_singleton.mpr (by simp [IsInner])⟩
  have himports : imports.filter (startsWith start) =
      (t.imports.map Import.line).filter (startsWith start) := by
    rcases himports with ⟨himports, rfl⟩ | ⟨-, rfl⟩
    · rw [himports]
      rfl
    · rw [← List.singleton_append, List.filter_append,
        filter_of_isInner hc hstart (List.forall_mem_singleton.mpr (by decide)), List.nil_append]
      rfl
  rw [List.filter_append, List.filter_append, filter_of_isInner hc hstart hbanner, himports,
    hdeclarations.filter_declarations hc hstart, List.nil_append, List.filter_append]

end Start

theorem Text.startsWith_append (start rest : String) : startsWith start (start ++ rest) = true :=
  List.isPrefixOf_iff_prefix.mpr ⟨rest.toList, String.toList_append.symm⟩

theorem Import.head?_line (i : Import) : i.line.toList.head? = some 'i' := by simp [line]

theorem Import.startsWith_line (i : Import) : startsWith "import * as " i.line = true := by
  simp only [line, String.append_assoc]
  exact startsWith_append _ _

theorem Declaration.head?_opening (d : Declaration String) :
    d.opening.toList.head? = some 'e' := by
  unfold opening
  cases d.body <;> simp

theorem Declaration.startsWith_opening (d : Declaration String) :
    startsWith "export " d.opening = true := by
  have hkeyword (keyword : String) : startsWith "export "
      ("export " ++ keyword ++ d.name ++ " \x7b") = true := by
    rw [String.append_assoc, String.append_assoc]
    exact startsWith_append _ _
  unfold opening
  cases d.body with
  | interface _ => exact hkeyword "interface "
  | enum _ => exact hkeyword "enum "

/-! ## The text of a generated file -/

namespace Typings

variable {t : Typings} {ls : List String}

theorem IsWritten.filter_imports (h : t.IsWritten ls) :
    ls.filter (startsWith "import * as ") = t.imports.map Import.line := by
  have hdeclarations : ∀ l ∈ t.declarations.map Declaration.opening,
      ¬ startsWith "import * as " l = true := by
    refine List.forall_mem_map.mpr fun d _ hmatch => ?_
    have hhead := head?_eq_of_startsWith (c := 'i') (by decide) hmatch
    rw [d.head?_opening] at hhead
    exact absurd hhead (by decide)
  rw [h.filter_eq (c := 'i') (by decide) (.inl rfl), List.filter_append,
    List.filter_eq_nil_iff.mpr hdeclarations, List.append_nil]
  exact List.filter_eq_self.mpr (List.forall_mem_map.mpr fun i _ => i.startsWith_line)

theorem IsWritten.filter_declarations (h : t.IsWritten ls) :
    ls.filter (startsWith "export ") = t.declarations.map Declaration.opening := by
  have himports : ∀ l ∈ t.imports.map Import.line, ¬ startsWith "export " l = true := by
    refine List.forall_mem_map.mpr fun i _ hmatch => ?_
    have hhead := head?_eq_of_startsWith (c := 'e') (by decide) hmatch
    rw [i.head?_line] at hhead
    exact absurd hhead (by decide)
  rw [h.filter_eq (c := 'e') (by decide) (.inr rfl), List.filter_append,
    List.filter_eq_nil_iff.mpr himports, List.nil_append]
  exact List.filter_eq_self.mpr (List.forall_mem_map.mpr fun d _ => d.startsWith_opening)

/-- The text ends with the end of its last line. -/
theorem exists_text_eq (t : Typings) : ∃ s, t.text = s ++ "\n" := by
  have hne : t.lines ≠ [] := by simp [lines, banner]
  rcases List.eq_nil_or_concat t.lines with h | ⟨before, last, h⟩
  · exact absurd h hne
  · exact ⟨String.join (before.map (· ++ "\n")) ++ last, by simp [text, h, String.append_assoc]⟩

/-- The renderer gives what fills the template, and its lines are those of a generated file. -/
theorem lines_keep_structure_and_order (hstrings : ∀ s ∈ t.strings, SingleLine s)
    (hdocs : ∀ doc ∈ t.docs, ∀ l ∈ doc, SingleLine l) :
    ∃ text, render template t = .ok text ∧ fillTemplate? t.toJson = some text ∧
      (∃ s, text = s ++ "\n") ∧
      ∃ ls, Text.lines text = ls ++ [""] ∧ t.IsWritten ls ∧
        ls.filter (startsWith "import * as ") = t.imports.map Import.line ∧
        ls.filter (startsWith "export ") = t.declarations.map Declaration.opening :=
  ⟨t.text, if_pos rfl, t.fillTemplate?_toJson, t.exists_text_eq, t.lines,
    lines_text hstrings hdocs, t.isWritten_lines, t.isWritten_lines.filter_imports,
    t.isWritten_lines.filter_declarations⟩

end Typings

namespace Sample

/-- Its documentation has an empty line, and one that reads like an import. -/
def receipt : Typings where
  file := "receipt.proto"
  package := "shop"
  level := "proto3"
  imports := [{ qualifier := "money_pb", specifier := "./money", file := "money.proto" }]
  declarations := [
    { name := "Receipt", fullName := "shop.Receipt"
      doc := ["import * as money", "", "export nothing"]
      body := .interface [
        { name := "total", type := .reference "money_pb.Money", doc := [], oneof := none },
        { name := "cash", type := .boolean, doc := ["Paid at once."], oneof := some "payment" },
        { name := "items", type := .map .boolean (.array .number), doc := []
          oneof := some "" }] },
    { name := "Kind", fullName := "shop.Kind", doc := []
      body := .enum [{ name := "LOST", value := -1, doc := [] }] }]

example : receipt.lines = [
    "// GENERATED CODE -- DO NOT EDIT!",
    "// package: shop",
    "// file: receipt.proto",
    "",
    "import * as money_pb from \"./money\";",
    "",
    "/**",
    " * import * as money",
    " *",
    " * export nothing",
    " */",
    "export interface Receipt \x7b",
    "  total?: money_pb.Money;",
    "  /**",
    "   * Paid at once.",
    "   */",
    "  cash?: boolean; // oneof payment",
    "  items?: \x7b [key: string]: number[] \x7d;",
    "\x7d",
    "",
    "export enum Kind \x7b",
    "  LOST = -1,",
    "\x7d"] := by decide

theorem receipt_lines : (∀ s ∈ receipt.strings, SingleLine s) ∧
    (∀ doc ∈ receipt.docs, ∀ l ∈ doc, SingleLine l) ∧
    ∃ text, Typings.render Typings.template receipt = .ok text ∧
      Typings.fillTemplate? receipt.toJson = some text ∧ (∃ s, text = s ++ "\n") ∧
      ∃ ls, Text.lines text = ls ++ [""] ∧ receipt.IsWritten ls ∧
        ls.filter (startsWith "import * as ") = receipt.imports.map Import.line ∧
        ls.filter (startsWith "export ") =
          ["export interface Receipt \x7b", "export enum Kind \x7b"] :=
  have hstrings : ∀ s ∈ receipt.strings, SingleLine s := by decide
  have hdocs : ∀ doc ∈ receipt.docs, ∀ l ∈ doc, SingleLine l := by decide
  ⟨hstrings, hdocs, Typings.lines_keep_structure_and_order hstrings hdocs⟩

end Sample

end ProtoTypings

import ProtoTypings.Proofs.Json
import ProtoTypings.Proofs.Layout
import ProtoTypings.Typings.Template

/-!
# Filling templates

`Fills filters bindings pieces s` says that the pieces can be filled and make the text `s`; there is
a rule for each way to begin. The template of a generated file is filled by the JSON form of any
typings, and makes the text of their layout (`Typings.fillTemplate?_toJson`): every slot has a value
there, and a type that is read back is the type that was written (`Typings.json_loses_nothing`).
-/

namespace ProtoTypings

namespace Template

/-! ## Rules -/

def Fills (filters : Filters) (bindings : Bindings) (pieces : List Piece) (s : String) : Prop :=
  fill? filters bindings pieces = some s

namespace Fills

variable {filters : Filters} {bindings : Bindings} {pieces rest : List Piece} {slot : Slot}
  {s t : String}

theorem of_eq (h : Fills filters bindings pieces s) (hs : s = t) :
    Fills filters bindings pieces t :=
  hs ▸ h

theorem nil : Fills filters bindings [] "" := rfl

theorem cons {piece : Piece} (hpiece : piece.fill? filters bindings = some s)
    (hrest : Fills filters bindings rest t) : Fills filters bindings (piece :: rest) (s ++ t) := by
  rw [Fills, fill?, hpiece, hrest]
  rfl

theorem append (h : Fills filters bindings pieces s) (hrest : Fills filters bindings rest t) :
    Fills filters bindings (pieces ++ rest) (s ++ t) := by
  induction pieces generalizing s with
  | nil =>
    obtain rfl := Option.some.inj h
    rwa [List.nil_append, String.empty_append]
  | cons piece pieces ih =>
    obtain ⟨first, hfirst, h⟩ := Option.bind_eq_some_iff.mp h
    obtain ⟨others, hothers, h⟩ := Option.bind_eq_some_iff.mp h
    obtain rfl := Option.some.inj h
    rw [String.append_assoc]
    exact cons hfirst (ih hothers)

theorem text (hrest : Fills filters bindings rest t) :
    Fills filters bindings (.text s :: rest) (s ++ t) :=
  cons rfl hrest

theorem value {j : Json} (hslot : slot.find? bindings = some j) (hj : j.written? = some s)
    (hrest : Fills filters bindings rest t) :
    Fills filters bindings (.value slot :: rest) (s ++ t) := by
  refine cons ?_ hrest
  rw [Piece.fill?, hslot]
  exact hj

theorem filtered {name : String} {filter : Filter} {j k : Json} (hname : filters name = some filter)
    (hslot : slot.find? bindings = some j) (hj : filter j = some k) (hk : k.written? = some s)
    (hrest : Fills filters bindings rest t) :
    Fills filters bindings (.filtered slot name :: rest) (s ++ t) := by
  refine cons ?_ hrest
  rw [Piece.fill?, hname, hslot]
  show (filter j).bind Json.written? = some s
  rw [hj]
  exact hk

theorem choice {test : Test} {b : Bool} {otherwise : List Piece}
    (htest : test.holds? bindings = some b)
    (hchosen : Fills filters bindings (if b then pieces else otherwise) s)
    (hrest : Fills filters bindings rest t) :
    Fills filters bindings (.choice test pieces otherwise :: rest) (s ++ t) := by
  refine cons ?_ hrest
  rw [Piece.fill?, htest, ← hchosen]
  cases b <;> rfl

theorem each {α : Type} {name : String} {toJson : α → Json} {items : List α} {write : α → String}
    (hslot : slot.find? bindings = some (.array (items.map toJson)))
    (hitem : ∀ a ∈ items, Fills filters ((name, toJson a) :: bindings) pieces (write a))
    (hrest : Fills filters bindings rest t) :
    Fills filters bindings (.each name slot pieces :: rest)
      (String.join (items.map write) ++ t) := by
  have hitems : (items.map toJson).mapM
      (fun item => fill? filters ((name, item) :: bindings) pieces) = some (items.map write) := by
    clear hslot
    induction items with
    | nil => rfl
    | cons a items ih =>
      obtain ⟨ha, hitems⟩ := List.forall_mem_cons.mp hitem
      rw [List.map_cons, List.mapM_cons, ha, ih hitems]
      rfl
  refine cons ?_ hrest
  rw [Piece.fill?, hslot]
  show Option.bind ((items.map toJson).mapM fun item =>
    fill? filters ((name, item) :: bindings) pieces) (fun texts => some (String.join texts)) = _
  rw [hitems]
  rfl

end Fills

end Template

/-! ## Lines behind line feeds -/

namespace Text

/-- Each line behind a line feed. -/
def below (ls : List String) : String := String.join (ls.map ("\n" ++ ·))

theorem below_singleton (l : String) : below [l] = "\n" ++ l := by
  simp [below]

theorem below_cons (l : String) (ls : List String) : below (l :: ls) = "\n" ++ l ++ below ls :=
  String.join_cons

theorem below_append (ls ls' : List String) : below (ls ++ ls') = below ls ++ below ls' := by
  rw [below, List.map_append, String.join_append]
  rfl

theorem below_flatMap {α : Type} (f : α → List String) (as : List α) :
    below (as.flatMap f) = String.join (as.map fun a => below (f a)) := by
  induction as with
  | nil => rfl
  | cons a as ih => rw [List.flatMap_cons, below_append, ih, List.map_cons, String.join_cons]

theorem below_map {α : Type} (f : α → String) (as : List α) :
    below (as.map f) = String.join (as.map fun a => "\n" ++ f a) := by
  rw [below, List.map_map]
  rfl

theorem join_cons_lines (l : String) (ls : List String) :
    String.join ((l :: ls).map (· ++ "\n")) = l ++ below ls ++ "\n" := by
  induction ls generalizing l with
  | nil => simp [below]
  | cons l' ls ih =>
    rw [List.map_cons, String.join_cons, ih, below_cons]
    simp only [String.append_assoc]

end Text

open Template Text

/-! ## The template of a generated file -/

theorem TypeExpr.filter_toJson (t : TypeExpr String) : filter t.toJson = some (.string t.text) := by
  rw [filter, ofJson?_toJson]
  rfl

namespace Typings

variable {bindings : Bindings}

theorem fills_docLine (indent l : String) :
    Fills filters (("line", .string l) :: bindings)
      [.text ("\n" ++ indent ++ " *"),
        .choice (.filled ⟨"line", []⟩) [.text " ", .value ⟨"line", []⟩] []]
      ("\n" ++ docLine indent l) := by
  have htest : (Test.filled ⟨"line", []⟩).holds? (("line", .string l) :: bindings) =
      some (l != "") := rfl
  by_cases hl : l = ""
  · subst hl
    refine .of_eq (.text (.choice htest .nil .nil)) ?_
    simp [docLine, String.append_assoc]
  · rw [bne_iff_ne.mpr hl] at htest
    refine .of_eq (.text (.choice htest (.text (.value rfl rfl .nil)) .nil)) ?_
    simp [docLine, hl, ← String.toList_inj]

theorem fills_docPieces (indent : String) {slot : Slot} {doc : List String}
    (hslot : slot.find? bindings = some (.strings doc)) :
    Fills filters bindings (docPieces indent slot) (below (docBlock indent doc)) := by
  have htest : (Test.filled slot).holds? bindings = some (!doc.isEmpty) := by
    rw [Test.holds?, hslot]
    cases doc <;> rfl
  cases doc with
  | nil => exact .choice htest .nil .nil
  | cons l doc =>
    refine .of_eq (.choice htest
      (.text (.each hslot (fun l _ => fills_docLine indent l) (.text .nil))) .nil) ?_
    rw [docBlock_cons, List.cons_append, below_cons, below_append, below_map, below_singleton]
    simp only [String.append_assoc, String.append_empty]

/-- What stands behind the type of a member. -/
def groupNote (m : Member String) : String :=
  match m.oneof with
  | none => ""
  | some group => if group = "" then "" else " // oneof " ++ group

theorem fills_groupNote (m : Member String) :
    Fills filters (("member", m.toJson) :: bindings)
      [.choice (.filled ⟨"member", ["oneof"]⟩)
        [.text " // oneof ", .value ⟨"member", ["oneof"]⟩] []]
      (groupNote m) := by
  obtain ⟨name, type, doc, oneof⟩ := m
  cases oneof with
  | none => exact .choice (b := false) rfl .nil .nil
  | some group =>
    by_cases hgroup : group = ""
    · subst hgroup
      exact .choice (b := false) rfl .nil .nil
    · refine .of_eq (.choice (b := true) ?_ (.text (.value rfl rfl .nil)) .nil) ?_
      · exact congrArg some (bne_iff_ne.mpr hgroup)
      · simp [groupNote, hgroup]

theorem fills_memberPieces (m : Member String) :
    Fills filters (("member", m.toJson) :: bindings) memberPieces
      (below (docBlock "  " m.doc ++ [m.line])) := by
  have hdoc : Slot.find? (("member", m.toJson) :: bindings) ⟨"member", ["doc"]⟩ =
      some (.strings m.doc) := rfl
  have hindent : "\n  " = "\n" ++ "  " := by decide
  refine .of_eq (.append (fills_docPieces "  " hdoc) (.text (.value rfl rfl
    (.text (.filtered rfl rfl m.type.filter_toJson rfl (.text (fills_groupNote m))))))) ?_
  rw [below_append, below_singleton, Member.line, hindent]
  simp only [String.append_assoc]
  rfl

theorem fills_constantPieces (c : Constant) :
    Fills filters (("constant", c.toJson) :: bindings) constantPieces
      (below (docBlock "  " c.doc ++ [c.line])) := by
  have hdoc : Slot.find? (("constant", c.toJson) :: bindings) ⟨"constant", ["doc"]⟩ =
      some (.strings c.doc) := rfl
  have hindent : "\n  " = "\n" ++ "  " := by decide
  refine .of_eq (.append (fills_docPieces "  " hdoc) (.text (.value rfl rfl
    (.text (.value rfl rfl (.text .nil)))))) ?_
  rw [below_append, below_singleton, Constant.line, hindent]
  simp only [String.append_assoc, String.append_empty]

theorem fills_bodyPieces {α : Type} {keyword item items name : String} {pieces : List Piece}
    {toJson : α → Json} {as : List α} {write : α → List String}
    (hname : Slot.find? bindings ⟨"decl", ["name"]⟩ = some (.string name))
    (hitems : Slot.find? bindings ⟨"decl", [items]⟩ = some (.array (as.map toJson)))
    (hitem : ∀ a ∈ as, Fills filters ((item, toJson a) :: bindings) pieces (below (write a))) :
    Fills filters bindings (bodyPieces keyword item items pieces)
      (below (("export " ++ keyword ++ " " ++ name ++ " \x7b") :: as.flatMap write ++
        ["\x7d"])) := by
  have hopening : "\nexport " = "\n" ++ "export " := by decide
  have hclosing : "\n\x7d" = "\n" ++ "\x7d" := by decide
  refine .of_eq (.text (.value hname rfl (.text (.each hitems hitem (.text .nil))))) ?_
  rw [List.cons_append, below_cons, below_append, below_singleton, below_flatMap, hopening,
    hclosing]
  simp only [String.append_assoc, String.append_empty]

theorem fills_declarationPieces (d : Declaration String) :
    Fills filters (("decl", d.toJson) :: bindings) declarationPieces (below ("" :: d.lines)) := by
  obtain ⟨name, fullName, doc, body⟩ := d
  have hdoc : Slot.find? (("decl", Declaration.toJson ⟨name, fullName, doc, body⟩) :: bindings)
      ⟨"decl", ["doc"]⟩ = some (.strings doc) := rfl
  have hlines : below ("" :: (Declaration.mk name fullName doc body).lines) =
      "\n" ++ (below (docBlock "" doc) ++ (below (("export " ++ body.keyword ++ " " ++ name ++
        " \x7b") :: body.lines ++ ["\x7d"]) ++ "")) := by
    rw [below_cons, Declaration.lines, List.append_assoc, below_append, String.append_empty,
      String.append_empty]
  rw [hlines]
  refine .text (.append (fills_docPieces "" hdoc) ?_)
  cases body with
  | interface members =>
    exact .choice (b := true) rfl (fills_bodyPieces rfl rfl fun m _ => fills_memberPieces m) .nil
  | enum constants =>
    exact .choice (b := false) rfl (fills_bodyPieces rfl rfl fun c _ => fills_constantPieces c) .nil

theorem fills_packagePieces {package : String}
    (hslot : Slot.find? bindings ⟨"package", []⟩ = some (.string package)) :
    Fills filters bindings packagePieces
      (below (if package = "" then [] else ["// package: " ++ package])) := by
  have htest : (Test.filled ⟨"package", []⟩).holds? bindings = some (package != "") := by
    rw [Test.holds?, hslot]
    rfl
  by_cases hpackage : package = ""
  · subst hpackage
    exact .choice htest .nil .nil
  · rw [bne_iff_ne.mpr hpackage] at htest
    refine .of_eq (.choice htest (.text (.value hslot rfl .nil)) .nil) ?_
    rw [if_neg hpackage, below_singleton]
    simp [← String.toList_inj]

theorem fills_importPieces {imports : List Import}
    (hslot : Slot.find? bindings ⟨"imports", []⟩ = some (.array (imports.map Import.toJson))) :
    Fills filters bindings importPieces
      (below (if imports = [] then [] else "" :: imports.map Import.line)) := by
  have htest : (Test.filled ⟨"imports", []⟩).holds? bindings = some (!imports.isEmpty) := by
    rw [Test.holds?, hslot]
    cases imports <;> rfl
  have hline (i : Import) : Fills filters (("dep", i.toJson) :: bindings)
      [.text "\nimport * as ", .value ⟨"dep", ["alias"]⟩,
        .text " from \"", .value ⟨"dep", ["path"]⟩, .text "\";"] ("\n" ++ i.line) := by
    refine .of_eq (.text (.value rfl rfl (.text (.value rfl rfl (.text .nil))))) ?_
    simp [Import.line, ← String.toList_inj]
  cases imports with
  | nil => exact .choice htest .nil .nil
  | cons i imports =>
    refine .of_eq (.choice htest (.text (.each hslot (fun i _ => hline i) .nil)) .nil) ?_
    rw [if_neg (List.cons_ne_nil i imports), below_cons, below_map]
    simp only [String.append_empty]

theorem text_eq (t : Typings) :
    t.text = "// GENERATED CODE -- DO NOT EDIT!" ++
      below (if t.package = "" then [] else ["// package: " ++ t.package]) ++
      ("\n// file: " ++ (t.file ++ below t.importLines)) ++
      (String.join (t.declarations.map fun d => below ("" :: d.lines)) ++ "\n") := by
  have hfile : "\n// file: " = "\n" ++ "// file: " := by decide
  rw [text, lines, banner, List.append_assoc, List.append_assoc, List.cons_append, join_cons_lines,
    below_append, below_append, below_append, below_singleton, below_flatMap, hfile]
  simp only [String.append_assoc]

theorem fillTemplate?_toJson (t : Typings) : fillTemplate? t.toJson = some t.text := by
  show Fills filters [("file_name", .string t.file), ("package", .string t.package),
    ("syntax", .string t.level), ("imports", .array (t.imports.map Import.toJson)),
    ("declarations", .array (t.declarations.map Declaration.toJson))] pieces t.text
  rw [text_eq]
  exact .append
    (.append (.text (fills_packagePieces rfl)) (.text (.value rfl rfl (fills_importPieces rfl))))
    (.each rfl (fun d _ => fills_declarationPieces d) (.text .nil))

/-- What is written as JSON is read back as it was. So no type is refused where the template asks
for it, and the template can be filled by all typings. -/
theorem json_loses_nothing :
    (∀ type : TypeExpr String, TypeExpr.ofJson? type.toJson = some type ∧
      TypeExpr.filter type.toJson = some (.string type.text)) ∧
    ∀ t : Typings, ofJson? t.toJson = some t ∧
      fillTemplate? t.toJson = some t.text ∧ render template t = .ok t.text :=
  ⟨fun type => ⟨type.ofJson?_toJson, type.filter_toJson⟩,
    fun t => ⟨t.ofJson?_toJson, t.fillTemplate?_toJson, if_pos rfl⟩⟩

end Typings

end ProtoTypings

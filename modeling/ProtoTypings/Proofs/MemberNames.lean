import ProtoTypings.Proofs.CamelCase
import ProtoTypings.Proofs.Projection
import ProtoTypings.Proofs.PropertyName

/-!
# Members of one name

Two members of an interface share a name just where their fields share the name that is written,
which fields with names of their own may do (`File.members_apart_iff`). They do not where the names
are in snake case and the JSON names are those that come of it, since camel case can be undone there
(`PropertyName.snake_camel`).
-/

namespace ProtoTypings

namespace PropertyName

/-! ## Snake case -/

/-- Lower-case letters, digits and underscores, each underscore in front of a letter. -/
def isSnakeCase : List Char → Bool
  | [] => true
  | '_' :: c :: cs => c.isLower && isSnakeCase cs
  | c :: cs => (c.isLower || c.isDigit) && isSnakeCase cs

/-- An upper-case letter becomes an underscore and the letter in lower case. -/
def snake : List Char → List Char
  | [] => []
  | c :: cs => if c.isUpper then '_' :: c.toLower :: snake cs else c :: snake cs

theorem ne_underscore {c : Char} (h : (c.isLower || c.isDigit) = true) :
    c ≠ '_' ∧ c.isUpper = false := by
  rcases (Bool.or_eq_true _ _).mp h with h | h
  · exact Text.forall_lower (P := fun c => c ≠ '_' ∧ c.isUpper = false) (by decide) h
  · exact Text.forall_digit (P := fun c => c ≠ '_' ∧ c.isUpper = false) (by decide) h

theorem snake_camel {cs : List Char} (h : isSnakeCase cs = true) :
    snake (camel false cs) = cs := by
  fun_induction isSnakeCase cs with
  | case1 => rfl
  | case2 c cs ih =>
    obtain ⟨hc, hcs⟩ := (Bool.and_eq_true _ _).mp h
    have hne := (ne_underscore (Bool.or_eq_true_iff.mpr (.inl hc))).1
    have hcamel : camel false ('_' :: c :: cs) = c.toUpper :: camel false cs := by
      simp [camel, hne, Text.upper_of_isLower hc]
    obtain ⟨hupper, hlower⟩ := Text.toUpper_of_isLower hc
    rw [hcamel, snake, if_pos hupper, hlower, ih hcs]
  | case3 c cs _ ih =>
    obtain ⟨hc, hcs⟩ := (Bool.and_eq_true _ _).mp h
    obtain ⟨hne, hupper⟩ := ne_underscore hc
    have hcamel : camel false (c :: cs) = c :: camel false cs := by simp [camel, hne]
    rw [hcamel, snake, if_neg (Bool.eq_false_iff.mp hupper), ih hcs]

theorem eq_of_lowerCamel_eq {s t : String} (hs : isSnakeCase s.toList = true)
    (ht : isSnakeCase t.toList = true) (h : lowerCamel s = lowerCamel t) : s = t := by
  rw [← String.toList_inj, ← snake_camel hs, ← snake_camel ht, String.ofList_injective h]

end PropertyName

/-! ## Members -/

namespace Field

/-- The name of the member for the field, before it is quoted where it has to be. -/
def writtenName (fd : Field) : String := PropertyName.unquoted fd.name fd.jsonName?

/-- A name in snake case, and no JSON name but the one that comes of it. -/
structure IsConventional (fd : Field) : Prop where
  snakeCase : PropertyName.isSnakeCase fd.name.toList = true
  jsonName : ∀ json, fd.jsonName? = some json →
    json = "" ∨ json = PropertyName.lowerCamel fd.name

theorem IsConventional.writtenName_eq {fd : Field} (h : fd.IsConventional) :
    fd.writtenName = PropertyName.lowerCamel fd.name := by
  by_cases hempty : ∀ json, fd.jsonName? = some json → json = ""
  · exact PropertyName.unquoted_of_eq_empty hempty fd.name
  · push Not at hempty
    obtain ⟨json, hjson, hne⟩ := hempty
    rw [writtenName, hjson, PropertyName.unquoted_of_ne hne]
    exact (h.jsonName json hjson).resolve_left hne

end Field

section

variable {ρ : Type} {f : File} {s : Scope} {m : Message} {d : Declaration ρ}

theorem Declaration.Mirrors.map_name (h : d.Mirrors f s (.message m)) :
    d.members.map (·.name) = m.fields.map fun fd => PropertyName.ofField fd.name fd.jsonName? := by
  have hbody := h.body
  unfold members
  cases hd : d.body with
  | interface members =>
    rw [hd] at hbody
    exact (forall₂_eq_iff.mp (List.Forall₂.imp (fun _ _ hm => hm.name.symm) hbody)).symm
  | enum constants =>
    rw [hd] at hbody
    exact hbody.elim

/-- Quotes tell no two names apart, and make no two the same. -/
theorem Declaration.Mirrors.nodup_names_iff (h : d.Mirrors f s (.message m)) :
    (d.members.map (·.name)).Nodup ↔ (m.fields.map Field.writtenName).Nodup := by
  rw [h.map_name]
  simp only [List.Nodup, List.pairwise_map, Ne, PropertyName.ofField_eq_iff, Field.writtenName]

end

theorem Message.nodup_writtenNames {m : Message} (hnames : (m.fields.map Field.name).Nodup)
    (hconventional : ∀ fd ∈ m.fields, fd.IsConventional) :
    (m.fields.map Field.writtenName).Nodup := by
  refine List.Nodup.map_on (fun fd hfd fd' hfd' heq => ?_) (List.Nodup.of_map _ hnames)
  rw [(hconventional fd hfd).writtenName_eq, (hconventional fd' hfd').writtenName_eq] at heq
  exact List.inj_on_of_nodup_map hnames hfd hfd' (PropertyName.eq_of_lowerCamel_eq
    (hconventional fd hfd).snakeCase (hconventional fd' hfd').snakeCase heq)

namespace File

variable {f : File} {ix : Index} {t : Typings}

theorem members_apart_iff (h : f.typings ix = .ok t) :
    List.Forall₂ (fun n d => ∀ m, n.body = .message m →
        ((d.members.map (·.name)).Nodup ↔ (m.fields.map Field.writtenName).Nodup) ∧
        ((m.fields.map Field.name).Nodup → (∀ fd ∈ m.fields, fd.IsConventional) →
          (d.members.map (·.name)).Nodup))
      f.declaredNodes t.declarations := by
  obtain ⟨ds, hds, rfl⟩ := typings_eq_ok_iff.mp h
  refine List.forall₂_map_right_iff.mpr ((declarations_eq_ok_iff.mp hds).1.imp ?_)
  intro n d hd m hm
  have hmirrors : d.Mirrors f n.scope (.message m) := hm ▸ mirrors_of_declaration hd
  refine ⟨(hmirrors.rename _).nodup_names_iff, fun hnames hconventional => ?_⟩
  exact (hmirrors.rename _).nodup_names_iff.mpr (Message.nodup_writtenNames hnames hconventional)

end File

namespace Sample

theorem order_members_apart : order.typings index = .ok typings ∧
    (orderMessage.fields.map Field.name).Nodup ∧
    (∀ fd ∈ orderMessage.fields, fd.IsConventional) ∧
    ∃ d ∈ typings.declarations, priceMember ∈ d.members ∧ (d.members.map (·.name)).Nodup := by
  have hnames : (orderMessage.fields.map Field.name).Nodup := by decide
  have hsnake : ∀ fd ∈ orderMessage.fields,
      PropertyName.isSnakeCase fd.name.toList = true ∧ fd.jsonName? = none := by decide
  have hconventional : ∀ fd ∈ orderMessage.fields, fd.IsConventional := fun fd hfd =>
    ⟨(hsnake fd hfd).1, by simp [(hsnake fd hfd).2]⟩
  refine ⟨typings_eq, hnames, hconventional, _, List.mem_cons_self, List.mem_cons_self, ?_⟩
  have hall := File.members_apart_iff typings_eq
  obtain ⟨hfirst, -⟩ := List.forall₂_cons.mp hall
  exact (hfirst orderMessage rfl).2 hnames hconventional

/-- Two fields whose names are one in camel case. -/
def invoice : File where
  name? := some "invoice.proto"
  messages := [{
    name? := some "Line"
    fields := [
      { name? := some "unit_price", number? := some 1, label? := some 1, kind? := some 9
        jsonName? := some "unitPrice" },
      { name? := some "unitPrice", number? := some 2, label? := some 1, kind? := some 5
        jsonName? := some "unitPrice" }] }]

def invoiceIndex : Index where
  files := [invoice]
  entries := invoice.entries

def invoiceTypings : Typings where
  file := "invoice.proto"
  package := ""
  level := "proto2"
  imports := []
  declarations := [
    { name := "Line", fullName := "Line", doc := []
      body := .interface [
        { name := "unitPrice", type := .string, doc := [], oneof := none },
        { name := "unitPrice", type := .number, doc := [], oneof := none }] }]

/-- One interface declares a property twice and with two types. -/
theorem price_declared_twice :
    Index.ofFiles [invoice] = .ok invoiceIndex ∧
    invoice.typings invoiceIndex = .ok invoiceTypings ∧
    (∀ m ∈ invoice.messages, (m.fields.map Field.name).Nodup) ∧
    ∃ d ∈ invoiceTypings.declarations, ¬ (d.members.map (·.name)).Nodup ∧
      ∃ a ∈ d.members, ∃ b ∈ d.members, a.name = b.name ∧ a.type ≠ b.type := by
  refine ⟨by rfl, by rfl, by decide, _, List.mem_cons_self, by decide, ?_⟩
  exact ⟨_, List.mem_cons_self, _, List.mem_cons_of_mem _ List.mem_cons_self, rfl, by decide⟩

end Sample

end ProtoTypings

import ProtoTypings.Proofs.Place
import ProtoTypings.Projection

/-!
# Files without comments

`f.uncommented` is the file `f` without comments and without marks of deprecation, at any depth, and
`t.undocumented` are the typings `t` without documentation. A projection takes the one to the other
and does nothing else with comments and marks (`File.typings_uncommented`).
-/

namespace ProtoTypings

open Index

/-! ## Removing comments -/

def Field.undeprecated (f : Field) : Field :=
  { f with options? := f.options?.map fun o => { o with deprecated? := none } }

def EnumValue.undeprecated (v : EnumValue) : EnumValue :=
  { v with options? := v.options?.map fun o => { o with deprecated? := none } }

def Enum.undeprecated (e : Enum) : Enum :=
  { e with
    values := e.values.map EnumValue.undeprecated
    options? := e.options?.map fun o => { o with deprecated? := none } }

mutual

def Message.undeprecated (m : Message) : Message :=
  match m with
  | { nested, .. } =>
    { m with
      fields := m.fields.map Field.undeprecated
      extensions := m.extensions.map Field.undeprecated
      nested := undeprecatedMessages nested
      enums := m.enums.map Enum.undeprecated
      options? := m.options?.map fun o => { o with deprecated? := none } }

def undeprecatedMessages (ms : List Message) : List Message :=
  match ms with
  | [] => []
  | m :: ms => m.undeprecated :: undeprecatedMessages ms

end

def File.uncommented (f : File) : File :=
  { f with
    messages := undeprecatedMessages f.messages
    enums := f.enums.map Enum.undeprecated
    extensions := f.extensions.map Field.undeprecated
    locations? := none }

def Node.Body.undeprecated : Node.Body → Node.Body
  | .message m => .message m.undeprecated
  | .enum e => .enum e.undeprecated

def Node.undeprecated (n : Node) : Node := { n with body := n.body.undeprecated }

/-! ## Removing documentation -/

section

variable {ρ σ : Type}

def Member.undocumented (m : Member ρ) : Member ρ := { m with doc := [] }

def Constant.undocumented (c : Constant) : Constant := { c with doc := [] }

def Declaration.Body.undocumented : Declaration.Body ρ → Declaration.Body ρ
  | .interface members => .interface (members.map Member.undocumented)
  | .enum constants => .enum (constants.map Constant.undocumented)

def Declaration.undocumented (d : Declaration ρ) : Declaration ρ :=
  { d with doc := [], body := d.body.undocumented }

def Typings.undocumented (t : Typings) : Typings :=
  { t with declarations := t.declarations.map Declaration.undocumented }

theorem Declaration.name_undocumented (d : Declaration ρ) : d.undocumented.name = d.name := rfl

theorem Declaration.references_undocumented (d : Declaration ρ) :
    d.undocumented.references = d.references := by
  unfold references members
  cases hb : d.body <;> simp [undocumented, Body.undocumented, hb, Member.undocumented,
    List.flatMap_map]

theorem Declaration.rename_undocumented (g : ρ → σ) (d : Declaration ρ) :
    d.undocumented.rename g = (d.rename g).undocumented := by
  cases hb : d.body <;> simp [undocumented, rename, Body.undocumented, Body.rename, hb,
    Member.undocumented, Member.rename]

end

/-! ## What is left of the parts of a file -/

@[simp] theorem Field.isDeprecated_undeprecated (f : Field) :
    f.undeprecated.isDeprecated = false := by
  unfold isDeprecated undeprecated
  cases f.options? <;> rfl

@[simp] theorem EnumValue.isDeprecated_undeprecated (v : EnumValue) :
    v.undeprecated.isDeprecated = false := by
  unfold isDeprecated undeprecated
  cases v.options? <;> rfl

@[simp] theorem Enum.isDeprecated_undeprecated (e : Enum) :
    e.undeprecated.isDeprecated = false := by
  unfold isDeprecated undeprecated
  cases e.options? <;> rfl

theorem Message.undeprecated_eq (m : Message) : m.undeprecated =
    { m with
      fields := m.fields.map Field.undeprecated
      extensions := m.extensions.map Field.undeprecated
      nested := undeprecatedMessages m.nested
      enums := m.enums.map Enum.undeprecated
      options? := m.options?.map fun o => { o with deprecated? := none } } := by
  cases m; rw [undeprecated]

@[simp] theorem Message.isDeprecated_undeprecated (m : Message) :
    m.undeprecated.isDeprecated = false := by
  rw [undeprecated_eq, isDeprecated]
  cases m.options? <;> rfl

@[simp] theorem Message.isMapEntry_undeprecated (m : Message) :
    m.undeprecated.isMapEntry = m.isMapEntry := by
  rw [undeprecated_eq, isMapEntry, isMapEntry]
  cases m.options? <;> rfl

@[simp] theorem Message.name_undeprecated (m : Message) : m.undeprecated.name = m.name := by
  rw [undeprecated_eq]
  rfl

@[simp] theorem Message.oneofOf?_undeprecated (m : Message) (fd : Field) :
    m.undeprecated.oneofOf? fd.undeprecated = m.oneofOf? fd := by
  rw [undeprecated_eq]
  rfl

theorem Field.asString_undeprecated (f : Field) : f.undeprecated.asString = f.asString := by
  unfold asString undeprecated
  cases f.options? <;> rfl

theorem Field.scalar?_undeprecated {ρ : Type} (f : Field) :
    f.undeprecated.scalar? (ρ := ρ) = f.scalar? := by
  unfold scalar?
  rw [asString_undeprecated]
  rfl

@[simp] theorem Index.typeOf_undeprecated (ix : Index) (fd : Field) :
    ix.typeOf fd.undeprecated = ix.typeOf fd := by
  unfold typeOf typeWith
  rw [Field.scalar?_undeprecated]
  rfl

@[simp] theorem File.doc_uncommented (f : File) (path : List Int32) :
    f.uncommented.doc path false = [] := rfl

/-! ## The walk -/

section Walk

variable {keep : Message → Bool}

theorem enumNodes_undeprecated (outer : Scope) (path : List Int32) (es : List Enum) :
    enumNodes outer path (es.map Enum.undeprecated) =
      (enumNodes outer path es).map Node.undeprecated := by
  apply List.ext_getElem
  · simp [enumNodes]
  · intro i _ _
    simp [enumNodes, Node.undeprecated, Node.Body.undeprecated]
    rfl

theorem messageNodes_undeprecated {ms : List Message} {outer : Scope}
    (h : ∀ m ∈ ms, ∀ path,
      m.undeprecated.nodes keep outer path = (m.nodes keep outer path).map Node.undeprecated)
    (path : List Int32) (i : Nat) :
    messageNodes keep outer path i (undeprecatedMessages ms) =
      (messageNodes keep outer path i ms).map Node.undeprecated := by
  induction ms generalizing i with
  | nil => rfl
  | cons m ms ih =>
    rw [undeprecatedMessages, messageNodes, messageNodes, List.map_append, h m List.mem_cons_self,
      ih fun n hn => h n (List.mem_cons_of_mem _ hn)]

theorem Message.nodes_undeprecated (hkeep : ∀ m, keep m.undeprecated = keep m) (m : Message) :
    ∀ (outer : Scope) (path : List Int32),
      m.undeprecated.nodes keep outer path =
        (m.nodes keep outer path).map Node.undeprecated := by
  induction m using Message.induct with
  | step m ih =>
    intro outer path
    have hnested : m.undeprecated.nested = undeprecatedMessages m.nested := by rw [undeprecated_eq]
    have henums : m.undeprecated.enums = m.enums.map Enum.undeprecated := by rw [undeprecated_eq]
    rw [nodes_eq, nodes_eq, hkeep, name_undeprecated, hnested, henums]
    split
    · rw [messageNodes_undeprecated fun n hn => ih n hn _, enumNodes_undeprecated,
        List.cons_append, List.cons_append, List.map_cons, List.map_append]
      rfl
    · rfl

theorem File.declaredNodes_uncommented (f : File) :
    f.uncommented.declaredNodes = f.declaredNodes.map Node.undeprecated := by
  have hkeep : ∀ m : Message, (!m.undeprecated.isMapEntry) = !m.isMapEntry := fun m => by
    rw [Message.isMapEntry_undeprecated]
  show messageNodes _ _ _ _ (undeprecatedMessages f.messages) ++ enumNodes _ _ (f.enums.map _) = _
  rw [messageNodes_undeprecated fun m _ => m.nodes_undeprecated hkeep [], enumNodes_undeprecated,
    ← List.map_append]
  rfl

end Walk

/-! ## The projection -/

namespace File

variable (f : File) (ix : Index) (n : Node)

theorem member_uncommented (m : Message) (i : Nat) (fd : Field) :
    f.uncommented.member ix n.undeprecated m.undeprecated i fd.undeprecated =
      (f.member ix n m i fd).map Member.undocumented := by
  unfold member
  rw [typeOf_undeprecated, Message.oneofOf?_undeprecated, Field.isDeprecated_undeprecated,
    doc_uncommented]
  cases ix.typeOf fd <;> rfl

theorem members_uncommented (m : Message) (i : Nat) (fds : List Field) :
    f.uncommented.members ix n.undeprecated m.undeprecated i (fds.map Field.undeprecated) =
      (f.members ix n m i fds).map (List.map Member.undocumented) := by
  induction fds generalizing i with
  | nil => rfl
  | cons fd fds ih =>
    rw [List.map_cons, members, members, member_uncommented, ih]
    cases f.member ix n m i fd with
    | error e => rfl
    | endless => rfl
    | ok mem => cases f.members ix n m (i + 1) fds <;> rfl

theorem constant_uncommented (i : Nat) (v : EnumValue) :
    f.uncommented.constant n.undeprecated i v.undeprecated =
      (f.constant n i v).undocumented := by
  unfold constant
  rw [EnumValue.isDeprecated_undeprecated, doc_uncommented]
  rfl

theorem declaration_uncommented :
    f.uncommented.declaration ix n.undeprecated =
      (f.declaration ix n).map Declaration.undocumented := by
  obtain ⟨scope, path, body⟩ := n
  cases body with
  | message m =>
    have hfields : m.undeprecated.fields = m.fields.map Field.undeprecated := by
      rw [Message.undeprecated_eq]
    have h := f.members_uncommented ix { scope, path, body := .message m } m 0 m.fields
    unfold declaration
    dsimp only [Node.undeprecated, Node.Body.undeprecated] at h ⊢
    rw [hfields, h, Message.isDeprecated_undeprecated, doc_uncommented]
    cases f.members ix _ m 0 m.fields <;> rfl
  | enum e =>
    have hconstants : (e.values.map EnumValue.undeprecated).mapIdx
        (f.uncommented.constant (Node.undeprecated { scope, path, body := .enum e })) =
          (e.values.mapIdx (f.constant { scope, path, body := .enum e })).map
            Constant.undocumented := by
      refine List.ext_getElem (by simp) fun i _ _ => ?_
      simp only [List.getElem_mapIdx, List.getElem_map, constant_uncommented]
    unfold declaration
    dsimp only [Node.undeprecated, Node.Body.undeprecated] at hconstants ⊢
    rw [Enum.isDeprecated_undeprecated, doc_uncommented]
    exact congrArg (fun cs => Outcome.ok (Declaration.mk _ _ [] (.enum cs))) hconstants

theorem declareAll_uncommented (taken : List String) (ns : List Node) :
    f.uncommented.declareAll ix taken (ns.map Node.undeprecated) =
      (f.declareAll ix taken ns).map (List.map Declaration.undocumented) := by
  induction ns generalizing taken with
  | nil => rfl
  | cons n ns ih =>
    rw [List.map_cons, declareAll, declareAll, declaration_uncommented]
    cases f.declaration ix n with
    | error e => rfl
    | endless => rfl
    | ok d =>
      show (if d.name ∈ taken then _ else _ >>= _) =
        Outcome.map _ (if d.name ∈ taken then _ else _ >>= _)
      split
      · rfl
      · rw [ih, Declaration.name_undocumented]
        cases f.declareAll ix (d.name :: taken) ns <;> rfl

theorem declarations_uncommented :
    f.uncommented.declarations ix =
      (f.declarations ix).map (List.map Declaration.undocumented) := by
  rw [declarations, declaredNodes_uncommented, declareAll_uncommented, declarations]

theorem assemble_uncommented (ds : List (Declaration Entry)) :
    f.uncommented.assemble (ds.map Declaration.undocumented) = (f.assemble ds).undocumented := by
  have hforeign (importer : String) :
      foreignFiles importer (ds.map Declaration.undocumented) = foreignFiles importer ds := by
    unfold foreignFiles
    simp only [List.flatMap_map, Declaration.references_undocumented]
  have hrename (g : Entry → String) :
      (ds.map Declaration.undocumented).map (·.rename g) =
        (ds.map (·.rename g)).map Declaration.undocumented := by
    simp only [List.map_map, Function.comp_def, Declaration.rename_undocumented]
  simp only [assemble, hforeign, hrename]
  rfl

/-- Comments and marks of deprecation end up in the documentation, and nowhere else. -/
theorem typings_uncommented :
    f.uncommented.typings ix = (f.typings ix).map Typings.undocumented := by
  unfold typings
  rw [declarations_uncommented]
  cases f.declarations ix with
  | error e => rfl
  | endless => rfl
  | ok ds => exact congrArg Outcome.ok (f.assemble_uncommented ds)

end File

end ProtoTypings

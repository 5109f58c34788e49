import ProtoTypings.Generation
import ProtoTypings.Proofs.Failure
import ProtoTypings.Proofs.Index

/-!
# Complete responses, or none

`renderer.Responds request run` says what a run for a request is: the targets are rendered one by
one (`Rendering`) until one fails (`Fails`) or cannot be projected to the end (`Hangs`), and there
is a response only if none does. The run of `Renderer.respond` is the one run of this kind, and it
comes to an end where no map entry leads back to itself (`Renderer.respond_complete_or_none`).
-/

namespace ProtoTypings

/-! ## Runs -/

/-- Steps that make their calls and succeed leave what comes after them as it is. -/
theorem Run.each_append {α β γ : Type} {step : α → Run β} {arg : γ → α} {call : γ → Call}
    {result : γ → β} {done : List γ}
    (h : ∀ r ∈ done, step (arg r) = { calls := [call r], outcome := .ok (result r) })
    (as : List α) :
    each step (done.map arg ++ as) =
      { calls := done.map call ++ (each step as).calls
        outcome := (each step as).outcome.map (done.map result ++ ·) } := by
  induction done with
  | nil =>
    show each step as = { calls := _, outcome := (each step as).outcome.map id }
    rw [Outcome.map_id]
    rfl
  | cons r done ih =>
    obtain ⟨hr, hdone⟩ := List.forall_mem_cons.mp h
    rw [List.map_cons, List.cons_append, each, hr, ih hdone]
    cases (each step as).outcome <;> rfl

/-- A list is all good, or there is a first that is bad. -/
theorem exists_first_bad {α γ : Type} {arg : γ → α} {Good : γ → Prop} {Bad : α → Prop}
    (h : ∀ a, (∃ r, arg r = a ∧ Good r) ∨ Bad a) (as : List α) :
    ∃ done : List γ, (∀ r ∈ done, Good r) ∧
      (as = done.map arg ∨ ∃ a rest, as = done.map arg ++ a :: rest ∧ Bad a) := by
  induction as with
  | nil => exact ⟨[], by simp, .inl rfl⟩
  | cons a as ih =>
    rcases h a with ⟨r, rfl, hr⟩ | ha
    · obtain ⟨done, hdone, hall | ⟨b, rest, hrest, hb⟩⟩ := ih
      · exact ⟨r :: done, List.forall_mem_cons.mpr ⟨hr, hdone⟩, .inl (by rw [hall]; rfl)⟩
      · exact ⟨r :: done, List.forall_mem_cons.mpr ⟨hr, hdone⟩,
          .inr ⟨b, rest, by rw [hrest]; rfl, hb⟩⟩
    · exact ⟨[], by simp, .inr ⟨a, as, rfl, ha⟩⟩

/-! ## Targets -/

/-- A target with its typings and their text. -/
structure Rendering where
  target : String
  typings : Typings
  text : String

def Rendering.call (r : Rendering) : Call where
  template := "proto_tsd.d.ts"
  typings := r.typings

def Rendering.file (r : Rendering) : GeneratedFile where
  name := SourcePath.outputPath r.target
  content := r.text

namespace Renderer

variable (renderer : Renderer) (files : List File) (ix : Index)

/-- The target is one of the files and can be projected and rendered, as `r` says. -/
def Renders (r : Rendering) : Prop :=
  ∃ f ∈ files, f.name = r.target ∧ f.typings ix = .ok r.typings ∧
    renderer "proto_tsd.d.ts" r.typings = .ok r.text

/-- There is no text for the target because of the error, and the calls were made to find out. -/
inductive Fails (target : String) : List Call → Error → Prop where
  | missing : (∀ f ∈ files, f.name ≠ target) → Fails target [] (.missingFile target)
  | projection {f : File} {e : Error} : f ∈ files → f.name = target → f.typings ix = .error e →
      Fails target [] e
  | rendering {f : File} {t : Typings} {e : Error} : f ∈ files → f.name = target →
      f.typings ix = .ok t → renderer "proto_tsd.d.ts" t = .error e →
      Fails target [{ template := "proto_tsd.d.ts", typings := t }] e

/-- The projection of the target never ends, so that the renderer is not called. -/
def Hangs (target : String) : Prop := ∃ f ∈ files, f.name = target ∧ f.typings ix = .endless

variable {renderer files ix}

theorem Renders.generateFile (h : Indexes files ix) {r : Rendering}
    (hr : renderer.Renders files ix r) :
    renderer.generateFile ix r.target = { calls := [r.call], outcome := .ok r.file } := by
  obtain ⟨f, hf, hname, ht, htext⟩ := hr
  have hfile : ix.file? r.target = some f := h.file?_eq_some_iff.mpr ⟨hf, hname⟩
  have hcall : renderer.call r.typings = { calls := [r.call], outcome := .ok r.text } := by
    rw [call, Typings.template, htext]
    rfl
  simp only [Renderer.generateFile, hfile, ht, hcall]
  rfl

theorem Fails.generateFile (h : Indexes files ix) {target : String} {calls : List Call} {e : Error}
    (hfail : renderer.Fails files ix target calls e) :
    renderer.generateFile ix target = { calls := calls, outcome := .error e } := by
  cases hfail with
  | missing hnone =>
    have hfile : ix.file? target = none := h.file?_eq_none_iff.mpr hnone
    simp only [Renderer.generateFile, hfile, Run.fail]
  | projection hf hname he =>
    have hfile := h.file?_eq_some_iff.mpr ⟨hf, hname⟩
    simp only [Renderer.generateFile, hfile, he, Run.fail]
  | @rendering f t _ hf hname ht he =>
    have hfile := h.file?_eq_some_iff.mpr ⟨hf, hname⟩
    have hcall : renderer.call t =
        { calls := [{ template := "proto_tsd.d.ts", typings := t }], outcome := .error e } := by
      rw [call, Typings.template, he]
      rfl
    simp only [Renderer.generateFile, hfile, ht, hcall]
    rfl

theorem Hangs.generateFile (h : Indexes files ix) {target : String}
    (hhangs : Hangs files ix target) :
    renderer.generateFile ix target = { calls := [], outcome := .endless } := by
  obtain ⟨f, hf, hname, ht⟩ := hhangs
  have hfile := h.file?_eq_some_iff.mpr ⟨hf, hname⟩
  simp only [Renderer.generateFile, hfile, ht]

theorem renders_or_stops (target : String) :
    (∃ r : Rendering, r.target = target ∧ renderer.Renders files ix r) ∨
      ((∃ calls e, renderer.Fails files ix target calls e) ∨ Hangs files ix target) := by
  by_cases h : ∀ f ∈ files, f.name ≠ target
  · exact .inr (.inl ⟨_, _, .missing h⟩)
  · obtain ⟨f, hf, hname⟩ : ∃ f ∈ files, f.name = target := by simpa using h
    cases ht : f.typings ix with
    | error e => exact .inr (.inl ⟨_, _, .projection hf hname ht⟩)
    | endless => exact .inr (.inr ⟨f, hf, hname, ht⟩)
    | ok t =>
      cases htext : renderer "proto_tsd.d.ts" t with
      | error e => exact .inr (.inl ⟨_, _, .rendering hf hname ht htext⟩)
      | ok text =>
        exact .inl ⟨{ target := target, typings := t, text := text }, rfl, f, hf, hname, ht, htext⟩

/-! ## Requests -/

variable (renderer)

inductive Responds (request : Request) : Run Response → Prop where
  /-- The renderer is not called if names clash. -/
  | clash {e : Error} : Index.ofFiles request.files = .error e →
      Responds request { calls := [], outcome := .error e }
  /-- The first target that fails decides the error, and nothing is done for those after it. -/
  | failure {ix : Index} {done : List Rendering} {target : String} {rest : List String}
      {calls : List Call} {e : Error} : Index.ofFiles request.files = .ok ix →
      request.targets = done.map (·.target) ++ target :: rest →
      (∀ r ∈ done, renderer.Renders request.files ix r) →
      renderer.Fails request.files ix target calls e →
      Responds request { calls := done.map (·.call) ++ calls, outcome := .error e }
  /-- Nothing ever comes of the request if a target hangs before any fails. -/
  | endless {ix : Index} {done : List Rendering} {target : String} {rest : List String} :
      Index.ofFiles request.files = .ok ix →
      request.targets = done.map (·.target) ++ target :: rest →
      (∀ r ∈ done, renderer.Renders request.files ix r) → Hangs request.files ix target →
      Responds request { calls := done.map (·.call), outcome := .endless }
  | success {ix : Index} {done : List Rendering} : Index.ofFiles request.files = .ok ix →
      request.targets = done.map (·.target) →
      (∀ r ∈ done, renderer.Renders request.files ix r) →
      Responds request {
        calls := done.map (·.call)
        outcome := .ok { error? := none, features := 1, files := done.map (·.file) } }

variable {renderer} {request : Request}

theorem Responds.eq_respond {run : Run Response} (h : renderer.Responds request run) :
    renderer.respond request = run := by
  cases h with
  | clash he => simp only [respond, he, Run.fail]
  | @failure ix done target rest calls e hix htargets hdone hfail =>
    have h := Index.ofFiles_eq_ok_iff.mp hix
    have hstop : Run.each (renderer.generateFile ix) (target :: rest) =
        { calls := calls, outcome := .error e } := by
      rw [Run.each, hfail.generateFile h]
    have hall := Run.each_append (fun r hr => (hdone r hr).generateFile h) (target :: rest)
    rw [← htargets, hstop] at hall
    simp only [respond, hix, hall]
    rfl
  | @endless ix done target rest hix htargets hdone hhangs =>
    have h := Index.ofFiles_eq_ok_iff.mp hix
    have hstop : Run.each (renderer.generateFile ix) (target :: rest) =
        { calls := [], outcome := .endless } := by
      rw [Run.each, hhangs.generateFile h]
    have hall := Run.each_append (fun r hr => (hdone r hr).generateFile h) (target :: rest)
    rw [← htargets, hstop, List.append_nil] at hall
    simp only [respond, hix, hall]
    rfl
  | @success ix done hix htargets hdone =>
    have h := Index.ofFiles_eq_ok_iff.mp hix
    have hall := Run.each_append (fun r hr => (hdone r hr).generateFile h) []
    rw [List.append_nil, ← htargets] at hall
    simp only [respond, hix, hall, Run.each, List.append_nil]
    simp [Run.map, Outcome.map, Response.ofFiles]

theorem exists_responds (renderer : Renderer) (request : Request) :
    ∃ run, renderer.Responds request run := by
  cases hix : Index.ofFiles request.files with
  | error e => exact ⟨_, .clash hix⟩
  | ok ix =>
    obtain ⟨done, hdone, htargets | ⟨target, rest, htargets, ⟨calls, e, hfail⟩ | hhangs⟩⟩ :=
      exists_first_bad renders_or_stops request.targets
    · exact ⟨_, .success hix htargets hdone⟩
    · exact ⟨_, .failure hix htargets hdone hfail⟩
    · exact ⟨_, .endless hix htargets hdone hhangs⟩

theorem Responds.ne_endless {run : Run Response} (h : renderer.Responds request run)
    (hacyclic : ∀ ix, Index.ofFiles request.files = .ok ix → ix.Acyclic) :
    run.outcome ≠ .endless := by
  cases h with
  | clash _ => nofun
  | failure _ _ _ _ => nofun
  | success _ _ _ => nofun
  | endless hix _ _ hhangs =>
    obtain ⟨f, -, -, ht⟩ := hhangs
    exact absurd ht (File.typings_ne_endless (hacyclic _ hix))

/-- There is one run for a request, and it is that of `respond`. Only a map entry that leads back to
itself can keep it from ending. -/
theorem respond_complete_or_none (renderer : Renderer) (request : Request) :
    (∀ run, renderer.respond request = run ↔ renderer.Responds request run) ∧
      ∀ ix, Index.ofFiles request.files = .ok ix → ix.Acyclic →
        (renderer.respond request).outcome ≠ .endless := by
  obtain ⟨run, h⟩ := exists_responds renderer request
  refine ⟨fun run' => ⟨?_, Responds.eq_respond⟩, fun ix hix hacyclic => ?_⟩
  · rintro rfl
    rw [h.eq_respond]
    exact h
  · rw [h.eq_respond]
    refine h.ne_endless fun ix' hix' => ?_
    obtain rfl := Except.ok.inj (hix.symm.trans hix')
    exact hacyclic

end Renderer

namespace Sample

def orderRequest : Request where
  targets := ["shop/order.proto", "missing.proto", "common/money.proto"]
  files := [order, money]

/-- The second target is missing, so the third one is not looked at. -/
theorem order_request_fails :
    Index.ofFiles orderRequest.files = .ok index ∧ index.Acyclic ∧
      Renderer.Responds Typings.render orderRequest {
        calls := [{ template := "proto_tsd.d.ts", typings := typings }]
        outcome := .error (.missingFile "missing.proto") } ∧
      (Renderer.respond Typings.render orderRequest).outcome ≠ .endless := by
  obtain ⟨hiff, hends⟩ := Renderer.respond_complete_or_none Typings.render orderRequest
  have hindex : Index.ofFiles orderRequest.files = .ok index := ofFiles_eq
  exact ⟨hindex, index_acyclic, (hiff _).mp (by rfl), hends index hindex index_acyclic⟩

/-- What stands for a map from strings to lists of such maps. -/
def loopEntry : Message where
  name? := some "LoopEntry"
  fields := [
    { name? := some "key", number? := some 1, kind? := some 9 },
    { name? := some "value", number? := some 2, label? := some 3, kind? := some 11
      typeName? := some ".Ring.LoopEntry" }]
  options? := some { ofMap? := some true }

def ring : File where
  name? := some "ring.proto"
  messages := [{
    name? := some "Ring"
    fields := [
      { name? := some "loop", number? := some 1, label? := some 3, kind? := some 11
        typeName? := some ".Ring.LoopEntry" }]
    nested := [loopEntry] }]

def ringIndex : Index where
  files := [ring]
  entries := ring.entries

/-- The only target is there, and its projection has no error, yet the renderer is never called for
it. There is neither a response nor an error. -/
theorem ring_request_unanswered :
    Index.ofFiles [ring] = .ok ringIndex ∧ ringIndex.file? "ring.proto" = some ring ∧
      (∀ e, ring.typings ringIndex ≠ .error e) ∧
      (Renderer.respond Typings.render { targets := ["ring.proto"], files := [ring] }).calls = [] ∧
      ∀ r : Except Error Response, (Renderer.respond Typings.render
        { targets := ["ring.proto"], files := [ring] }).outcome ≠ .ofExcept r := by
  have hendless : ring.typings ringIndex = .endless := by rfl
  have hrun : Renderer.respond Typings.render { targets := ["ring.proto"], files := [ring] } =
      { calls := [], outcome := .endless } := by rfl
  refine ⟨by rfl, by rfl, fun e => ?_, ?_, fun r => ?_⟩
  · rw [hendless]
    nofun
  · rw [hrun]
  · rw [hrun]
    cases r <;> nofun

end Sample

end ProtoTypings

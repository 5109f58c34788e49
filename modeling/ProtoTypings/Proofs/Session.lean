import ProtoTypings.Proofs.Failure
import ProtoTypings.Proofs.Generation
import ProtoTypings.Proofs.Wire.Descriptor
import ProtoTypings.Session

/-!
# Sessions carry responses

A request that is written and given to a new session is read back by it, and the run of the session
carries the response to the request: the same error, or bytes that the response is read back from
(`Session.submit_encode`). Lengths have at most 64 bits on the wire, so this is said of fewer than
2⁶⁴ bytes.
-/

namespace ProtoTypings

open Wire Content

/-! ## Responses read back -/

namespace GeneratedFile

theorem fits_toContent (f : GeneratedFile) : Fits .generatedFile f.toContent :=
  .cons rfl .text (.cons rfl .text .nil)

@[simp] theorem ofContent_toContent (f : GeneratedFile) : ofContent f.toContent = f := rfl

end GeneratedFile

namespace Response

theorem toContent_eq (r : Response) : r.toContent =
    .one 1 .text r.error? ++ .each 2 (.number ·.toNat) [r.features] ++
      .each 15 (.message ·.toContent) r.files := rfl

theorem fits_toContent (r : Response) : Fits .response r.toContent := by
  rw [toContent_eq]
  simp only [fits_append, and_assoc]
  exact ⟨.one rfl fun _ => .text, .each rfl fun n _ => .number n.toNat_lt,
    .each rfl fun f _ => .message f.fits_toContent⟩

@[simp] theorem ofContent_toContent (r : Response) : ofContent r.toContent = r := by
  rw [toContent_eq]
  simp [ofContent, Function.comp_def]

theorem nesting_toContent (r : Response) : r.toContent.nesting ≤ 1 := by
  refine nesting_le fun p hp => ?_
  simp only [toContent_eq, one, each, List.mem_append, List.mem_map] at hp
  obtain (⟨_, _, rfl⟩ | ⟨_, _, rfl⟩) | ⟨f, _, rfl⟩ := hp
  · exact Nat.zero_le _
  · exact Nat.zero_le _
  · exact Nat.le_refl _

theorem decode_encode {r : Response} (hsize : r.encode.length < UInt64.size) :
    decode r.encode = some r := by
  have hnesting : r.toContent.nesting ≤ 100 := Nat.le_trans r.nesting_toContent (by decide)
  have hcontent : Content.decode 100 .response r.encode = some r.toContent :=
    Content.decode_encode r.fits_toContent hnesting hsize
  rw [decode, hcontent, Option.map_some, ofContent_toContent]

end Response

/-! ## Errors of decoding

Neither an index nor a projection ever fails as malformed bytes do.
-/

namespace Index

theorem clash?_ne_decode {earlier ds : List Definition} : clash? earlier ds ≠ some .decode := by
  induction ds generalizing earlier with
  | nil => simp [clash?]
  | cons d ds ih =>
    rw [clash?]
    split
    · cases d <;> simp [Definition.clash]
    · exact ih

theorem ofFiles_ne_decode (files : List File) : ofFiles files ≠ .error .decode := by
  rw [ofFiles]
  split
  · next e he =>
    rintro ⟨⟩
    exact clash?_ne_decode he
  · simp

end Index

theorem File.typings_ne_decode (f : File) (ix : Index) : f.typings ix ≠ .error .decode := by
  intro h
  rcases typings_eq_error h with ⟨_, _, _, _, _, _, _, _, he⟩ | ⟨⟨_, he⟩, _⟩
  · cases he
  · cases he

theorem Renderer.exists_of_respond_eq_decode {renderer : Renderer} {request : Request}
    (h : (renderer.respond request).outcome = .error .decode) :
    ∃ t, renderer Typings.template t = .error .decode := by
  obtain ⟨run, hrun⟩ := exists_responds renderer request
  rw [hrun.eq_respond] at h
  cases hrun with
  | clash he =>
    cases h
    exact absurd he (Index.ofFiles_ne_decode _)
  | failure _ _ _ hfail =>
    cases h
    cases hfail with
    | projection _ _ he => exact absurd he (File.typings_ne_decode _ _)
    | rendering _ _ _ he => exact ⟨_, he⟩
  | endless => cases h
  | success => cases h

/-! ## Runs of a session -/

/-- The run of bytes makes the same calls and ends in the same error, or in the bytes of the
response, which is read back from them, or it ends as little as the other one. -/
structure Run.Carries (run : Run (List UInt8)) (response : Run Response) : Prop where
  calls : run.calls = response.calls
  error : ∀ e, run.outcome = .error e ↔ response.outcome = .error e
  endless : run.outcome = .endless ↔ response.outcome = .endless
  bytes : ∀ bs, run.outcome = .ok bs ↔ ∃ r, response.outcome = .ok r ∧ r.encode = bs
  read_back : ∀ bs r, run.outcome = .ok bs → response.outcome = .ok r →
    bs.length < UInt64.size → Response.decode bs = some r

theorem Run.carries_map_encode (response : Run Response) :
    (response.map Response.encode).Carries response where
  calls := rfl
  error _ := Outcome.map_eq_error_iff
  endless := Outcome.map_eq_endless_iff
  bytes _ := Outcome.map_eq_ok_iff
  read_back bs r hbs hr hsize := by
    rw [map, hr] at hbs
    cases hbs
    exact Response.decode_encode hsize

theorem Session.submit_of_decode {input : List UInt8} {request : Request} (renderer : Renderer)
    (h : Request.decode input = some request) :
    (({ renderer := renderer } : Session).submit input).2 =
      (renderer.respond request).map Response.encode := by
  simp only [submit, start?, if_true, respond, h]

/-- The session reads all of the request, so that only the renderer can fail with the error for
malformed bytes. -/
theorem Session.submit_encode (renderer : Renderer) {request : Request}
    (hnesting : request.toContent.nesting ≤ 100) (hsize : request.encode.length < UInt64.size) :
    Request.decode request.encode = some request ∧
      ((({ renderer := renderer } : Session).submit request.encode).2.outcome = .error .decode →
        ∃ t, renderer Typings.template t = .error .decode) ∧
      (({ renderer := renderer } : Session).submit request.encode).2.Carries
        (renderer.respond request) := by
  have hdecode := Request.decode_encode hnesting hsize
  have hcarries := Run.carries_map_encode (renderer.respond request)
  rw [submit_of_decode renderer hdecode]
  refine ⟨hdecode, fun h => ?_, hcarries⟩
  exact Renderer.exists_of_respond_eq_decode ((hcarries.error _).mp h)

namespace Sample

/-- Values equal to their defaults, a message without fields, and numbers that are negative or that
no name belongs to. -/
def marginal : Request where
  targets := ["b.proto", "a.proto"]
  parameter? := some ""
  files := [
    { name? := some "a.proto"
      messages := [
        { name? := some "M", options? := some {}
          fields := [
            { name? := some "f", number? := some (-1), label? := some 9, kind? := some 5
              oneofIndex? := some (-2), options? := some { jsType? := some 7 }
              proto3Optional? := some false }] }]
      locations? := some [{ path := [4, 0, -1] }, {}] },
    { name? := some "b.proto", package? := some "", locations? := some [] }]

def fileNames : Renderer := fun _ t => .ok t.file

def marginalResponse : Response :=
  .ofFiles [{ name := "b.d.ts", content := "b.proto" }, { name := "a.d.ts", content := "a.proto" }]

theorem respond_marginal : (fileNames.respond marginal).outcome = .ok marginalResponse := by rfl

theorem submit_marginal :
    marginal.toContent.nesting ≤ 100 ∧ marginal.encode.length < UInt64.size ∧
      Request.decode marginal.encode = some marginal ∧
      (({ renderer := fileNames } : Session).submit marginal.encode).2.Carries
        (fileNames.respond marginal) ∧
      (({ renderer := fileNames } : Session).submit marginal.encode).2.outcome =
        .ok marginalResponse.encode ∧
      Response.decode marginalResponse.encode = some marginalResponse := by
  have hnesting : marginal.toContent.nesting ≤ 100 := by decide
  have hsize : marginal.encode.length < UInt64.size := by decide +kernel
  obtain ⟨hread, -, hcarries⟩ := Session.submit_encode fileNames hnesting hsize
  have hbytes := (hcarries.bytes _).mpr ⟨_, respond_marginal, rfl⟩
  have hback := hcarries.read_back _ _ hbytes respond_marginal (by decide +kernel)
  exact ⟨hnesting, hsize, hread, hcarries, hbytes, hback⟩

end Sample

end ProtoTypings

import Mathlib.Data.List.Infix
import ProtoTypings.SourcePath

/-!
# Specifiers lead to files

`follow? dirs route` reads a specifier, segment by segment, from a file in the directories `dirs`.
Climbing to the directories that two paths share and then going down arrives at the target
(`follow?_relative`), and no shorter climb does (`climbs_le_count`). So the specifier of an import
leads from the generated file that holds it to the one for the imported file
(`specifier_leadsTo`).
-/

namespace ProtoTypings

/-- What is added at the end without a separator stays in the last segment. -/
theorem Text.dropLast_split_append {sep : Char} {bs : List Char} (h : sep ∉ bs) (as : List Char) :
    (split sep (as ++ bs)).dropLast = (split sep as).dropLast := by
  induction as with
  | nil => rw [List.nil_append, split_of_not_mem h]; rfl
  | cons a as ih =>
    have hne := split_ne_nil sep as
    have hne' := split_ne_nil sep (as ++ bs)
    rw [List.cons_append, split, split]
    split
    · rw [List.dropLast_cons_of_ne_nil hne', List.dropLast_cons_of_ne_nil hne, ih]
    · cases hs : split sep as with
      | nil => exact absurd hs hne
      | cons s ss =>
        cases hr : split sep (as ++ bs) with
        | nil => exact absurd hr hne'
        | cons r rs =>
          rw [hs, hr] at ih
          cases ss <;> cases rs <;> simp_all

namespace SourcePath

/-! ## Shared directories -/

section CommonLength

variable {α : Type} [DecidableEq α]

theorem commonLength_le_left (as bs : List α) : commonLength as bs ≤ as.length := by
  fun_induction commonLength as bs with
  | case1 a as bs ih => simpa using ih
  | case2 => exact Nat.zero_le _
  | case3 => exact Nat.zero_le _

theorem take_commonLength (as bs : List α) :
    as.take (commonLength as bs) = bs.take (commonLength as bs) := by
  fun_induction commonLength as bs with
  | case1 a as bs ih => rw [List.take_succ_cons, List.take_succ_cons, ih]
  | case2 => rfl
  | case3 => rfl

theorem take_commonLength_prefix_right (as bs : List α) :
    as.take (commonLength as bs) <+: bs :=
  take_commonLength as bs ▸ List.take_prefix _ bs

theorem commonLength_le_right (as bs : List α) : commonLength as bs ≤ bs.length := by
  have hle := (take_commonLength_prefix_right as bs).length_le
  rwa [List.length_take, Nat.min_eq_left (commonLength_le_left as bs)] at hle

theorem length_le_commonLength {as bs cs : List α} (ha : cs <+: as) (hb : cs <+: bs) :
    cs.length ≤ commonLength as bs := by
  induction cs generalizing as bs with
  | nil => exact Nat.zero_le _
  | cons c cs ih =>
    obtain ⟨as, rfl⟩ := ha
    obtain ⟨bs, rfl⟩ := hb
    have hle := ih (List.prefix_append cs as) (List.prefix_append cs bs)
    simpa [commonLength] using hle

end CommonLength

/-- Of the lists that both others start with, this is the longest. -/
def IsLongestCommonPrefix {α : Type} (cs as bs : List α) : Prop :=
  cs <+: as ∧ cs <+: bs ∧ ∀ ds, ds <+: as → ds <+: bs → ds.length ≤ cs.length

theorem isLongestCommonPrefix_take {α : Type} [DecidableEq α] (as bs : List α) :
    IsLongestCommonPrefix (as.take (commonLength as bs)) as bs := by
  refine ⟨List.take_prefix _ as, take_commonLength_prefix_right as bs, fun ds ha hb => ?_⟩
  rw [List.length_take, Nat.min_eq_left (commonLength_le_left as bs)]
  exact length_le_commonLength ha hb

/-! ## Reading a specifier -/

def here : List Char := ['.']

def up : List Char := ['.', '.']

/-- The segment is the name of a directory or of a file. -/
def IsName (segment : List Char) : Prop := segment ≠ here ∧ segment ≠ up

instance : DecidablePred IsName := fun _ => inferInstanceAs (Decidable (_ ∧ _))

/-- The directories after one more segment. There is nothing above the root. -/
def enter? (dirs : List (List Char)) (segment : List Char) : Option (List (List Char)) :=
  if segment = here then some dirs
  else if segment = up then (if dirs = [] then none else some dirs.dropLast)
  else some (dirs ++ [segment])

def follow? (dirs route : List (List Char)) : Option (List (List Char)) :=
  route.foldlM enter? dirs

variable {dirs route : List (List Char)}

theorem follow?_cons (segment : List Char) :
    follow? dirs (segment :: route) = (enter? dirs segment).bind (follow? · route) := by
  rw [follow?, List.foldlM_cons]
  rfl

theorem follow?_append (more : List (List Char)) :
    follow? dirs (route ++ more) = (follow? dirs route).bind (follow? · more) := by
  rw [follow?, List.foldlM_append]
  rfl

theorem enter?_name {segment : List Char} (h : IsName segment) :
    enter? dirs segment = some (dirs ++ [segment]) := by
  rw [enter?, if_neg h.1, if_neg h.2]

theorem enter?_up (h : dirs ≠ []) : enter? dirs up = some dirs.dropLast := by
  rw [enter?, if_neg (by decide), if_pos rfl, if_neg h]

theorem follow?_names (h : ∀ s ∈ route, IsName s) :
    follow? dirs route = some (dirs ++ route) := by
  induction route generalizing dirs with
  | nil => rw [List.append_nil]; rfl
  | cons s route ih =>
    obtain ⟨hs, hrest⟩ := List.forall_mem_cons.mp h
    rw [follow?_cons, enter?_name hs, Option.bind_some, ih hrest, List.append_assoc]
    rfl

theorem follow?_replicate_up {k : Nat} (h : k ≤ dirs.length) :
    follow? dirs (List.replicate k up) = some (dirs.take (dirs.length - k)) := by
  induction k generalizing dirs with
  | zero => rw [Nat.sub_zero, List.take_length]; rfl
  | succ k ih =>
    have hne : dirs ≠ [] := List.length_pos_iff.mp (by omega)
    have hlen : dirs.dropLast.length = dirs.length - 1 := List.length_dropLast
    rw [List.replicate_succ, follow?_cons, enter?_up hne, Option.bind_some, ih (by omega), hlen,
      List.dropLast_eq_take, List.take_take]
    congr 2
    omega

/-! ## Climbing and going down -/

/-- The segments before the first name; no specifier starts with a name. -/
def ascent (climbs : Nat) : List (List Char) :=
  if climbs = 0 then [here] else List.replicate climbs up

theorem follow?_ascent {k : Nat} (h : k ≤ dirs.length) :
    follow? dirs (ascent k) = some (dirs.take (dirs.length - k)) := by
  unfold ascent
  split
  · next hk =>
    subst hk
    rw [Nat.sub_zero, List.take_length]
    rfl
  · exact follow?_replicate_up h

variable {target : List (List Char)}

theorem relative_eq :
    relative dirs target = ascent (dirs.length - commonLength dirs target.dropLast) ++
      target.drop (commonLength dirs target.dropLast) :=
  rfl

/-- The shared directories are in front of the target, so it is complete below them. -/
theorem follow?_relative (h : ∀ s ∈ target, IsName s) :
    follow? dirs (relative dirs target) = some target := by
  have hle := commonLength_le_left dirs target.dropLast
  have hshared : dirs.take (commonLength dirs target.dropLast) =
      target.take (commonLength dirs target.dropLast) := by
    have hpre := (take_commonLength_prefix_right dirs target.dropLast).trans
      (List.dropLast_prefix target)
    rw [List.prefix_iff_eq_take.mp hpre, List.length_take, Nat.min_eq_left hle]
  rw [relative_eq, follow?_append, follow?_ascent (Nat.sub_le _ _), Option.bind_some,
    follow?_names fun s hs => h s (List.mem_of_mem_drop hs), Nat.sub_sub_self hle, hshared,
    List.take_append_drop]

/-! ## The least climb -/

/-- One segment takes away one directory at most from the end of those that were there before. -/
theorem take_prefix_of_enter? {front next : List (List Char)} {s : List Char}
    (hfront : front <+: dirs) (h : enter? dirs s = some next) :
    front.take (front.length - [s].count up) <+: next := by
  unfold enter? at h
  split at h
  · next hs =>
    cases h
    exact (List.take_prefix _ front).trans hfront
  · split at h
    · next hs =>
      subst hs
      split at h
      · cases h
      · cases h
        rw [List.count_singleton_self, ← List.dropLast_eq_take]
        obtain ⟨rest, rfl⟩ := hfront
        rcases List.eq_nil_or_concat rest with rfl | ⟨rest, last, rfl⟩
        · rw [List.append_nil]
        · rw [List.concat_eq_append, ← List.append_assoc, List.dropLast_concat]
          exact (List.dropLast_prefix front).trans (List.prefix_append _ _)
    · cases h
      exact ((List.take_prefix _ front).trans hfront).trans (List.prefix_append _ _)

theorem take_prefix_of_follow? {front arrived : List (List Char)} (hfront : front <+: dirs)
    (h : follow? dirs route = some arrived) :
    front.take (front.length - route.count up) <+: arrived := by
  induction route generalizing dirs front with
  | nil =>
    cases h
    exact (List.take_prefix _ front).trans hfront
  | cons s route ih =>
    rw [follow?_cons] at h
    obtain ⟨next, hnext, h⟩ := Option.bind_eq_some_iff.mp h
    have hrest := ih (take_prefix_of_enter? hfront hnext) h
    have hcount : (s :: route).count up = [s].count up + route.count up := by
      rw [← List.singleton_append, List.count_append]
    have hmin : min (min (front.length - [s].count up) front.length - route.count up)
        (front.length - [s].count up) = front.length - (s :: route).count up := by
      omega
    rwa [List.length_take, List.take_take, hmin] at hrest

/-- Whatever leads down to a file in the end has climbed out of all directories of the start that
do not lead to the file. -/
theorem climbs_le_count {init : List (List Char)} {file : List Char} (hfile : IsName file)
    (h : follow? dirs (init ++ [file]) = some target) :
    dirs.length - commonLength dirs target.dropLast ≤ init.count up := by
  rw [follow?_append] at h
  obtain ⟨arrived, harrived, h⟩ := Option.bind_eq_some_iff.mp h
  rw [follow?_names (by simpa using hfile)] at h
  cases h
  have hpre := take_prefix_of_follow? List.prefix_rfl harrived
  have hle := length_le_commonLength (List.take_prefix _ dirs) hpre
  rw [List.dropLast_concat]
  rw [List.length_take] at hle
  omega

/-! ## Segments of paths -/

def segments (path : String) : List (List Char) := Text.split '/' path.toList

theorem stemChars_append (cs : List Char) : ∃ rest, cs = stemChars cs ++ rest ∧ '/' ∉ rest := by
  unfold stemChars
  split
  · next h =>
    have heq := List.suffix_iff_eq_append.mp (List.isSuffixOf_iff_suffix.mp h)
    exact ⟨extension, heq.symm, by decide⟩
  · exact ⟨[], (List.append_nil cs).symm, List.not_mem_nil⟩

theorem dropLast_segments_stem (path : String) :
    (segments (stem path)).dropLast = directories path.toList := by
  obtain ⟨rest, heq, hrest⟩ := stemChars_append path.toList
  have happ := Text.dropLast_split_append hrest (stemChars path.toList)
  rw [← heq] at happ
  rw [segments, stem, String.toList_ofList, directories, happ]

theorem directories_outputPath (path : String) :
    directories (outputPath path).toList = directories path.toList := by
  rw [outputPath, String.toList_append, directories, Text.dropLast_split_append (by decide)]
  exact dropLast_segments_stem path

theorem eq_append_of_segments {path : String} {s : List Char} (hne : route ≠ [])
    (h : segments path = s :: route) :
    path = String.ofList (s ++ ['/']) ++ String.ofList (List.intercalate ['/'] route) := by
  have hpath : path.toList = List.intercalate ['/'] (s :: route) := by
    rw [← h, segments, Text.intercalate_split]
  rw [List.intercalate_cons_of_ne_nil hne] at hpath
  rw [← String.toList_inj, hpath, String.toList_append, String.toList_ofList, String.toList_ofList]

/-! ## Segments of specifiers -/

section Ascent

variable {path : String} {k : Nat} {names : List (List Char)}

theorem not_mem_of_mem_ascent {s : List Char} (h : s ∈ ascent k) : '/' ∉ s := by
  unfold ascent at h
  split at h
  · obtain rfl := List.mem_singleton.mp h
    decide
  · obtain rfl := List.eq_of_mem_replicate h
    decide

theorem ascent_eq_cons (k : Nat) : ∃ s ss, ascent k = s :: ss ∧ (s = here ∨ s = up) := by
  unfold ascent
  split
  · exact ⟨here, [], rfl, .inl rfl⟩
  · next h =>
    obtain ⟨n, rfl⟩ := Nat.exists_eq_succ_of_ne_zero h
    exact ⟨up, List.replicate n up, List.replicate_succ, .inr rfl⟩

theorem up_not_mem (h : ∀ s ∈ names, IsName s) : up ∉ names := fun hup => (h up hup).2 rfl

theorem count_up_ascent_append (h : ∀ s ∈ names, IsName s) : (ascent k ++ names).count up = k := by
  rw [List.count_append, List.count_eq_zero.mpr (up_not_mem h)]
  unfold ascent
  split
  · next hk => rw [hk]; decide
  · exact List.count_replicate_self

theorem starts_of_segments (hp : segments path = ascent k ++ names) (hne : names ≠ []) :
    ∃ rest, path = "./" ++ rest ∨ path = "../" ++ rest := by
  obtain ⟨s, ss, hs, hfirst⟩ := ascent_eq_cons k
  rw [hs, List.cons_append] at hp
  have heq := eq_append_of_segments (List.append_ne_nil_of_right_ne_nil ss hne) hp
  rcases hfirst with rfl | rfl
  · exact ⟨_, .inl heq⟩
  · exact ⟨_, .inr heq⟩

theorem exists_file (h : ∀ s ∈ names, IsName s) (hne : names ≠ []) :
    ∃ route file, ascent k ++ names = route ++ [file] ∧ IsName file := by
  rcases List.eq_nil_or_concat names with rfl | ⟨init, file, rfl⟩
  · exact absurd rfl hne
  · rw [List.concat_eq_append] at h ⊢
    exact ⟨ascent k ++ init, file, (List.append_assoc ..).symm, h file List.mem_concat_self⟩

theorem exists_climbs_first (h : ∀ s ∈ names, IsName s) :
    ∃ n route, ascent k ++ names = List.replicate n up ++ route ∧ up ∉ route := by
  unfold ascent
  split
  · exact ⟨0, here :: names, rfl, List.not_mem_cons_of_ne_of_not_mem (by decide) (up_not_mem h)⟩
  · exact ⟨k, names, rfl, up_not_mem h⟩

end Ascent

/-- The directories that two paths share. -/
def shared (importer target : String) : List (List Char) :=
  (directories importer.toList).take
    (commonLength (directories importer.toList) (directories target.toList))

theorem length_shared (importer target : String) : (shared importer target).length =
    commonLength (directories importer.toList) (directories target.toList) := by
  rw [shared, List.length_take, Nat.min_eq_left (commonLength_le_left _ _)]

theorem segments_specifier (importer target : String) :
    segments (specifier importer target) =
      relative (directories importer.toList) (segments (stem target)) := by
  have htarget : segments (stem target) = Text.split '/' (stemChars target.toList) := by
    rw [segments, stem, String.toList_ofList]
  rw [htarget, segments, specifier, String.toList_ofList]
  refine Text.split_intercalate ?_ fun s hs => ?_
  · obtain ⟨s, ss, hs, -⟩ := ascent_eq_cons ((directories importer.toList).length -
      commonLength (directories importer.toList)
        (Text.split '/' (stemChars target.toList)).dropLast)
    rw [relative_eq, hs]
    exact List.cons_ne_nil _ _
  · rcases List.mem_append.mp hs with hs | hs
    · exact not_mem_of_mem_ascent hs
    · exact fun hc => (Text.mem_of_mem_split (List.mem_of_mem_drop hs) _ hc).1 rfl

theorem segments_specifier_eq_ascent (importer target : String) :
    segments (specifier importer target) =
      ascent ((directories importer.toList).length - (shared importer target).length) ++
        (segments (stem target)).drop (shared importer target).length := by
  rw [segments_specifier, relative_eq, dropLast_segments_stem, length_shared]

theorem drop_shared_ne_nil (importer target : String) :
    (segments (stem target)).drop (shared importer target).length ≠ [] := by
  have hle := commonLength_le_right (directories importer.toList) (directories target.toList)
  have hpos := List.length_pos_iff.mpr (Text.split_ne_nil '/' (stem target).toList)
  rw [← length_shared, ← dropLast_segments_stem, List.length_dropLast, segments] at hle
  rw [Ne, List.drop_eq_nil_iff, segments]
  omega

/-! ## Where the specifier of an import leads -/

/-- The file that a specifier stands for where it is written in the file at `path`. -/
def resolve? (path specifier : String) : Option String :=
  (follow? (directories path.toList) (segments specifier)).map fun arrived =>
    String.ofList (List.intercalate ['/'] arrived) ++ ".d.ts"

/-- How the file generated for `importer` has to refer to the one for `target`. -/
structure LeadsTo (importer target specifier : String) : Prop where
  /-- It never leaves the root, and it arrives at the stem of the target. -/
  arrives : follow? (directories (outputPath importer).toList) (segments specifier) =
    some (segments (stem target))
  resolves : resolve? (outputPath importer) specifier = some (outputPath target)
  starts : ∃ rest, specifier = "./" ++ rest ∨ specifier = "../" ++ rest
  names_file : ∃ route file, segments specifier = route ++ [file] ∧ IsName file
  climbs_first : ∃ k route, segments specifier = List.replicate k up ++ route ∧ up ∉ route
  /-- It climbs out of just the directories that the two paths do not share. -/
  climbs_eq : ∃ common, IsLongestCommonPrefix common (directories importer.toList)
      (directories target.toList) ∧
    (segments specifier).count up + common.length = (directories importer.toList).length
  /-- Nothing that names a file in the end and arrives there climbs less. -/
  climbs_least : ∀ route file, IsName file →
    follow? (directories (outputPath importer).toList) (route ++ [file]) =
      some (segments (stem target)) →
    (segments specifier).count up ≤ route.count up

theorem specifier_leadsTo (importer target : String)
    (h : ∀ s ∈ segments (stem target), IsName s) :
    LeadsTo importer target (specifier importer target) := by
  have hdirs := directories_outputPath importer
  have hp := segments_specifier_eq_ascent importer target
  have hne := drop_shared_ne_nil importer target
  have hnames : ∀ s ∈ (segments (stem target)).drop (shared importer target).length, IsName s :=
    fun s hs => h s (List.mem_of_mem_drop hs)
  have harrives : follow? (directories (outputPath importer).toList)
      (segments (specifier importer target)) = some (segments (stem target)) := by
    rw [hdirs, segments_specifier]
    exact follow?_relative h
  have hcount : (segments (specifier importer target)).count up =
      (directories importer.toList).length - (shared importer target).length := by
    rw [hp, count_up_ascent_append hnames]
  refine {
    arrives := harrives
    resolves := ?_
    starts := starts_of_segments hp hne
    names_file := hp ▸ exists_file hnames hne
    climbs_first := hp ▸ exists_climbs_first hnames
    climbs_eq := ⟨shared importer target, isLongestCommonPrefix_take _ _, ?_⟩
    climbs_least := fun route file hfile hroute => ?_ }
  · rw [resolve?, harrives, Option.map_some, segments, Text.intercalate_split,
      String.ofList_toList]
    rfl
  · rw [hcount, length_shared, Nat.sub_add_cancel (commonLength_le_left _ _)]
  · rw [hdirs] at hroute
    rw [hcount, length_shared, ← dropLast_segments_stem target]
    exact climbs_le_count hfile hroute

/-- Both directories are named `b`, but they have different parents. -/
theorem specifier_leadsTo_cousin :
    specifier "a/b/order.proto" "c/b/money.proto" = "../../c/b/money" ∧
    (∀ s ∈ segments (stem "c/b/money.proto"), IsName s) ∧
    LeadsTo "a/b/order.proto" "c/b/money.proto" "../../c/b/money" := by
  have hspecifier : specifier "a/b/order.proto" "c/b/money.proto" = "../../c/b/money" := by rfl
  have hnames : ∀ s ∈ segments (stem "c/b/money.proto"), IsName s := by decide
  have hleads := specifier_leadsTo "a/b/order.proto" "c/b/money.proto" hnames
  rw [hspecifier] at hleads
  exact ⟨hspecifier, hnames, hleads⟩

end SourcePath

end ProtoTypings

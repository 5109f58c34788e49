import ProtoTypings.Proofs.Comment

/-!
# Documentation in normal form

What the lines of a comment are is said without the functions that compute them: `Text.Cut` for the
lines of a text, `Text.Stripped` for what is left without blanks, or without empty lines, at both
ends, `Doc.Escaped` for a backslash in each `*/`, and `Doc.Normalizes` for all of it
(`Doc.normalizes_iff`). Lines in normal form (`Doc.Normal`) are the lines of the text that they
make. A comment can also be cleaned as one text and cut into lines afterwards (`Doc.cleaned`), which
gives the same lines.
-/

namespace ProtoTypings

namespace Text

/-! ## Ends -/

section

variable {α : Type} {p : α → Bool} {l m : List α}

/-- `m` is what is left of `l` without the elements at both ends that have the property. -/
structure Stripped (p : α → Bool) (l m : List α) : Prop where
  exists_ends : ∃ before after, l = before ++ m ++ after ∧
    (∀ a ∈ before, p a = true) ∧ ∀ a ∈ after, p a = true
  head : ∀ a ∈ m.head?, p a = false
  last : ∀ a ∈ m.getLast?, p a = false

theorem dropWhile_eq_self (h : ∀ a ∈ l.head?, p a = false) : l.dropWhile p = l := by
  cases l with
  | nil => rfl
  | cons a l => exact List.dropWhile_cons_of_neg (Bool.eq_false_iff.mp (h a rfl))

theorem eq_false_of_head?_dropWhile {a : α} (h : (l.dropWhile p).head? = some a) :
    p a = false := by
  have hhead := List.head?_dropWhile_not p l
  rwa [h] at hhead

theorem stripped_dropWhile_ends (p : α → Bool) (l : List α) :
    Stripped p l ((l.dropWhile p).reverse.dropWhile p).reverse := by
  have hend : ((l.dropWhile p).reverse.dropWhile p).reverse ++
      ((l.dropWhile p).reverse.takeWhile p).reverse = l.dropWhile p := by
    rw [← List.reverse_append, List.takeWhile_append_dropWhile, List.reverse_reverse]
  refine ⟨⟨l.takeWhile p, ((l.dropWhile p).reverse.takeWhile p).reverse, ?_, ?_, ?_⟩, ?_, ?_⟩
  · rw [List.append_assoc, hend, List.takeWhile_append_dropWhile]
  · exact fun a ha => List.mem_takeWhile_imp ha
  · exact fun a ha => List.mem_takeWhile_imp (List.mem_reverse.mp ha)
  · intro a ha
    refine eq_false_of_head?_dropWhile (l := l) ?_
    rw [← hend, List.head?_append, ha]
    rfl
  · intro a ha
    rw [List.getLast?_reverse] at ha
    exact eq_false_of_head?_dropWhile ha

namespace Stripped

theorem self (hhead : ∀ a ∈ m.head?, p a = false) (hlast : ∀ a ∈ m.getLast?, p a = false) :
    Stripped p m m :=
  ⟨⟨[], [], by simp, List.forall_mem_nil _, List.forall_mem_nil _⟩, hhead, hlast⟩

theorem idem (h : Stripped p l m) : Stripped p m m := self h.head h.last

theorem of_forall (h : ∀ a ∈ l, p a = true) : Stripped p l [] :=
  ⟨⟨l, [], by simp, h, List.forall_mem_nil _⟩, by simp, by simp⟩

theorem append_right (h : Stripped p l m) {after : List α} (hafter : ∀ a ∈ after, p a = true) :
    Stripped p (l ++ after) m := by
  obtain ⟨⟨before, rest, rfl, hbefore, hrest⟩, hhead, hlast⟩ := h
  refine ⟨⟨before, rest ++ after, by simp, hbefore, ?_⟩, hhead, hlast⟩
  exact List.forall_mem_append.mpr ⟨hrest, hafter⟩

theorem dropWhile_ends_eq (h : Stripped p l m) :
    ((l.dropWhile p).reverse.dropWhile p).reverse = m := by
  obtain ⟨⟨before, after, rfl, hbefore, hafter⟩, hhead, hlast⟩ := h
  cases m with
  | nil =>
    rw [List.append_nil]
    exact dropWhile_ends_eq_nil_iff.mpr (List.forall_mem_append.mpr ⟨hbefore, hafter⟩)
  | cons a m =>
    have hstart : (before ++ a :: m ++ after).dropWhile p = a :: m ++ after := by
      rw [List.append_assoc, List.dropWhile_append_of_pos hbefore]
      exact dropWhile_eq_self hhead
    have hend : (a :: m ++ after).reverse.dropWhile p = (a :: m).reverse := by
      rw [List.reverse_append,
        List.dropWhile_append_of_pos fun b hb => hafter b (List.mem_reverse.mp hb)]
      exact dropWhile_eq_self (by rwa [List.head?_reverse])
    rw [hstart, hend, List.reverse_reverse]

end Stripped

theorem stripped_iff : Stripped p l m ↔ ((l.dropWhile p).reverse.dropWhile p).reverse = m :=
  ⟨Stripped.dropWhile_ends_eq, fun h => h ▸ stripped_dropWhile_ends p l⟩

end

theorem stripped_iff_trim {s t : List Char} : Stripped isBlank s t ↔ trim s = t := stripped_iff

/-! ## Lines -/

/-- `ss` are the texts between the separators of `cs`. -/
structure Cut (sep : Char) (cs : List Char) (ss : List (List Char)) : Prop where
  ne_nil : ss ≠ []
  sep_not_mem : ∀ s ∈ ss, sep ∉ s
  eq_intercalate : cs = List.intercalate [sep] ss

theorem cut_iff {sep : Char} {cs : List Char} {ss : List (List Char)} :
    Cut sep cs ss ↔ split sep cs = ss := by
  constructor
  · rintro ⟨hne, hsep, rfl⟩
    exact split_intercalate hne hsep
  · rintro rfl
    have hsep : ∀ s ∈ split sep cs, sep ∉ s := fun s hs h => (mem_of_mem_split hs sep h).1 rfl
    exact ⟨split_ne_nil sep cs, hsep, (intercalate_split sep cs).symm⟩

def dropReturn (l : List Char) : List Char := if l.getLast? = some '\r' then l.dropLast else l

/-- The lines of a text, each ended by a line feed or by a carriage return and a line feed. The last
line may have no end. -/
def endedLines (cs : List Char) : List (List Char) :=
  (split '\n' cs).dropLast.map dropReturn ++ (split '\n' cs).getLast?.toList.filter (!·.isEmpty)

theorem trim_dropReturn (l : List Char) : trim (dropReturn l) = trim l := by
  unfold dropReturn
  split
  · next h =>
    have hblank : ∀ c ∈ ['\r'], isBlank c = true := List.forall_mem_singleton.mpr rfl
    have hstripped := (stripped_dropWhile_ends isBlank l.dropLast).append_right hblank
    rw [List.dropLast_append_getLast? _ h] at hstripped
    exact hstripped.dropWhile_ends_eq.symm
  · rfl

theorem endedLines_intercalate {ls : List (List Char)} (hfeed : ∀ l ∈ ls, '\n' ∉ l)
    (hreturn : ∀ l ∈ ls, l.getLast? ≠ some '\r') (hlast : ∀ l ∈ ls.getLast?, l.isEmpty = false) :
    endedLines (List.intercalate ['\n'] ls) = ls := by
  rcases List.eq_nil_or_concat ls with rfl | ⟨ls, l, rfl⟩
  · rfl
  · rw [List.concat_eq_append] at hfeed hreturn hlast ⊢
    rw [endedLines, split_intercalate (by simp) hfeed, List.dropLast_concat, List.getLast?_concat]
    have hkeep : ls.map dropReturn = ls := by
      have hsame : ∀ r ∈ ls, dropReturn r = id r := fun r hr =>
        if_neg (hreturn r (List.mem_append_left _ hr))
      rw [List.map_congr_left hsame, List.map_id]
    have hl : l.isEmpty = false := hlast l (by simp)
    rw [hkeep, Option.toList_some, List.filter_cons_of_pos (by simp [hl]), List.filter_nil]

/-! ## Joined lines -/

section

variable {sep l : List Char} {ls before kept after : List (List Char)}

theorem intercalate_cons (sep l : List Char) (ls : List (List Char)) :
    List.intercalate sep (l :: ls) = l ++ ls.flatMap (sep ++ ·) := by
  induction ls generalizing l with
  | nil => simp
  | cons r ls ih =>
    rw [List.intercalate_cons_cons, ih, List.flatMap_cons, List.append_assoc, List.append_assoc]

theorem intercalate_append_left (h : kept ≠ []) :
    List.intercalate sep (before ++ kept) =
      before.flatMap (· ++ sep) ++ List.intercalate sep kept := by
  induction before with
  | nil => rfl
  | cons l before ih =>
    have hne : before ++ kept ≠ [] := List.append_ne_nil_of_right_ne_nil _ h
    rw [List.cons_append, List.intercalate_cons_of_ne_nil hne, ih, List.flatMap_cons]
    simp only [List.append_assoc]

theorem intercalate_append_right (h : kept ≠ []) :
    List.intercalate sep (kept ++ after) =
      List.intercalate sep kept ++ after.flatMap (sep ++ ·) := by
  cases kept with
  | nil => exact absurd rfl h
  | cons l kept =>
    rw [List.cons_append, intercalate_cons, intercalate_cons, List.flatMap_append,
      List.append_assoc]

theorem head?_intercalate (h : ∀ l ∈ ls.head?, l ≠ []) :
    (List.intercalate sep ls).head? = ls.head?.bind List.head? := by
  cases ls with
  | nil => rfl
  | cons l ls =>
    rw [intercalate_cons, List.head?_append_of_ne_nil _ (h l rfl)]
    rfl

theorem getLast?_intercalate (h : ∀ l ∈ ls.getLast?, l ≠ []) :
    (List.intercalate sep ls).getLast? = ls.getLast?.bind List.getLast? := by
  rcases List.eq_nil_or_concat ls with rfl | ⟨ls, l, rfl⟩
  · rfl
  · rw [List.concat_eq_append] at h ⊢
    rw [List.getLast?_concat] at h ⊢
    rw [intercalate_append_left (List.cons_ne_nil l []), List.intercalate_singleton,
      List.getLast?_append_of_ne_nil _ (h l rfl)]
    rfl

theorem isBlank_of_mem_feeds {f : List Char → List Char} (hf : f [] = ['\n'])
    (hempty : ∀ l ∈ ls, l.isEmpty = true) : ∀ c ∈ ls.flatMap f, isBlank c = true := by
  intro c hc
  obtain ⟨l, hl, hc⟩ := List.mem_flatMap.mp hc
  rw [List.isEmpty_iff.mp (hempty l hl), hf] at hc
  obtain rfl := List.mem_singleton.mp hc
  rfl

/-- Of lines without blanks at their ends, the blanks at the ends of the text are the line feeds of
the empty lines there. -/
theorem stripped_intercalate (hself : ∀ l ∈ ls, Stripped isBlank l l)
    (h : Stripped List.isEmpty ls kept) :
    Stripped isBlank (List.intercalate ['\n'] ls) (List.intercalate ['\n'] kept) := by
  obtain ⟨⟨before, after, rfl, hbefore, hafter⟩, hhead, hlast⟩ := h
  by_cases hne : kept = []
  · -- all lines are empty, so that the text has line feeds only
    subst hne
    rw [List.append_nil]
    refine .of_forall ?_
    cases hls : before ++ after with
    | nil => exact List.forall_mem_nil _
    | cons l ls =>
      have hempty := List.forall_mem_append.mpr ⟨hbefore, hafter⟩
      rw [hls] at hempty
      obtain ⟨hl, hempty⟩ := List.forall_mem_cons.mp hempty
      rw [intercalate_cons, List.isEmpty_iff.mp hl]
      exact isBlank_of_mem_feeds rfl hempty
  · have hkept : ∀ l ∈ kept, Stripped isBlank l l := fun l hl =>
      hself l (List.mem_append_left _ (List.mem_append_right _ hl))
    refine ⟨⟨before.flatMap (· ++ ['\n']), after.flatMap (['\n'] ++ ·), ?_,
      isBlank_of_mem_feeds rfl hbefore, isBlank_of_mem_feeds rfl hafter⟩, fun c hc => ?_,
      fun c hc => ?_⟩
    · rw [intercalate_append_right (List.append_ne_nil_of_right_ne_nil _ hne),
        intercalate_append_left hne]
    · rw [head?_intercalate fun l hl => List.isEmpty_eq_false_iff.mp (hhead l hl)] at hc
      obtain ⟨l, hl, hc⟩ := Option.bind_eq_some_iff.mp hc
      exact (hkept l (List.mem_of_head? hl)).head c hc
    · rw [getLast?_intercalate fun l hl => List.isEmpty_eq_false_iff.mp (hlast l hl)] at hc
      obtain ⟨l, hl, hc⟩ := Option.bind_eq_some_iff.mp hc
      exact (hkept l (List.mem_of_getLast? hl)).last c hc

end

end Text

open Text

namespace Doc

/-! ## Escaped lines -/

section

variable {cs ds : List Char}

theorem escape_cons {c : Char} (h : ∀ es, cs = '/' :: es → c ≠ '*') :
    escape (c :: cs) = c :: escape cs := by
  rw [escape]
  rintro es rfl rfl
  exact h es rfl rfl

/-- What ends in an asterisk and what begins with a slash make a new `*/`; nothing else does. -/
theorem escape_append (cs : List Char) (hds : ∀ es, ds ≠ '/' :: es) :
    escape (cs ++ ds) = escape cs ++ escape ds := by
  fun_induction escape cs with
  | case1 cs ih =>
    rw [List.cons_append, List.cons_append, escape, ih]
    rfl
  | case2 c cs hne ih =>
    rw [List.cons_append, escape_cons, ih, List.cons_append]
    -- a slash behind the asterisk `c` would stand in `cs` already, or begin `ds`
    rintro es heq rfl
    cases cs with
    | nil => exact hds es heq
    | cons d cs => exact hne cs rfl (by rw [(List.cons.inj heq).1])
  | case3 => rfl

theorem escape_of_not_infix (h : ¬ ['*', '/'] <:+: cs) : escape cs = cs := by
  fun_induction escape cs with
  | case1 cs _ => exact absurd (List.prefix_append ['*', '/'] cs).isInfix h
  | case2 c cs _ ih => rw [ih fun hcs => h (List.infix_cons hcs)]
  | case3 => rfl

theorem escape_intercalate (ls : List (List Char)) :
    escape (List.intercalate ['\n'] ls) = List.intercalate ['\n'] (ls.map escape) := by
  induction ls with
  | nil => rfl
  | cons l ls ih =>
    by_cases hne : ls = []
    · subst hne
      simp
    · have hmap : ls.map escape ≠ [] := mt List.map_eq_nil_iff.mp hne
      rw [List.intercalate_cons_of_ne_nil hne, List.append_assoc, escape_append l (by simp),
        List.singleton_append, escape_cons (by simp), ih, List.map_cons,
        List.intercalate_cons_of_ne_nil hmap, List.append_assoc, List.singleton_append]

theorem head?_escape (cs : List Char) : (escape cs).head? = cs.head? := by
  unfold escape
  split <;> rfl

theorem getLast?_escape (cs : List Char) : (escape cs).getLast? = cs.getLast? := by
  fun_induction escape cs with
  | case1 cs ih => simp [List.getLast?_cons, ih]
  | case2 c cs _ ih => rw [List.getLast?_cons, List.getLast?_cons, ih]
  | case3 => rfl

/-- `ds` is `cs` with a backslash put into each `*/`. -/
def Escaped (cs ds : List Char) : Prop :=
  ∃ pieces : List (List Char), pieces ≠ [] ∧ (∀ p ∈ pieces, ¬ ['*', '/'] <:+: p) ∧
    cs = List.intercalate ['*', '/'] pieces ∧ ds = List.intercalate ['*', '\\', '/'] pieces

theorem escape_pieces {pieces : List (List Char)} (h : ∀ p ∈ pieces, ¬ ['*', '/'] <:+: p) :
    escape (List.intercalate ['*', '/'] pieces) = List.intercalate ['*', '\\', '/'] pieces := by
  induction pieces with
  | nil => rfl
  | cons p pieces ih =>
    obtain ⟨hp, hpieces⟩ := List.forall_mem_cons.mp h
    cases pieces with
    | nil => simpa using escape_of_not_infix hp
    | cons q pieces =>
      rw [List.intercalate_cons_cons, List.intercalate_cons_cons, List.append_assoc,
        escape_append p (by simp), escape_of_not_infix hp, List.append_assoc, ← ih hpieces]
      rfl

theorem escaped_escape (cs : List Char) : Escaped cs (escape cs) := by
  fun_induction escape cs with
  | case1 cs ih =>
    obtain ⟨pieces, hne, hpieces, rfl, hds⟩ := ih
    refine ⟨[] :: pieces, by simp, ?_, ?_, ?_⟩
    · exact List.forall_mem_cons.mpr ⟨by simp, hpieces⟩
    · rw [List.intercalate_cons_of_ne_nil hne]; rfl
    · rw [List.intercalate_cons_of_ne_nil hne, hds]; rfl
  | case2 c cs hslash ih =>
    obtain ⟨pieces, hne, hpieces, rfl, hds⟩ := ih
    cases pieces with
    | nil => exact absurd rfl hne
    | cons p pieces =>
      obtain ⟨hp, hpieces⟩ := List.forall_mem_cons.mp hpieces
      refine ⟨(c :: p) :: pieces, by simp, ?_, ?_, ?_⟩
      · refine List.forall_mem_cons.mpr ⟨?_, hpieces⟩
        rw [List.infix_cons_iff, List.cons_prefix_cons, not_or]
        refine ⟨?_, hp⟩
        rintro ⟨rfl, es, rfl⟩
        exact hslash _ rfl (intercalate_cons _ _ _)
      · rw [intercalate_cons, intercalate_cons]; rfl
      · rw [hds, intercalate_cons, intercalate_cons]; rfl
  | case3 => exact ⟨[[]], by simp, by simp, rfl, rfl⟩

theorem escaped_iff : Escaped cs ds ↔ escape cs = ds := by
  refine ⟨?_, fun h => h ▸ escaped_escape cs⟩
  rintro ⟨pieces, -, hpieces, rfl, rfl⟩
  exact escape_pieces hpieces

theorem stripped_escape (h : Stripped isBlank cs cs) :
    Stripped isBlank (escape cs) (escape cs) :=
  .self (head?_escape cs ▸ h.head) (getLast?_escape cs ▸ h.last)

theorem ofList_escape_ne_empty (h : cs.isEmpty = false) : String.ofList (escape cs) ≠ "" := by
  intro hempty
  have htoList : escape cs = [] := by simpa using congrArg String.toList hempty
  rw [← List.head?_eq_none_iff, head?_escape, List.head?_eq_none_iff] at htoList
  rw [htoList] at h
  cases h

end

/-! ## The lines of a comment -/

section

variable {comment : String} {ls : List String}

/-- The lines of the comment without the blanks at their ends, from the first to the last of them
that is not empty, with each `*/` escaped. -/
def Normalizes (comment : String) (ls : List String) : Prop :=
  ∃ raw trimmed kept : List (List Char), Cut '\n' comment.toList raw ∧
    List.Forall₂ (Stripped isBlank) raw trimmed ∧ Stripped List.isEmpty trimmed kept ∧
    List.Forall₂ Escaped kept (ls.map String.toList)

theorem toList_lines (comment : String) :
    (lines comment).map String.toList = normalLines comment.toList := by
  simp [lines]

theorem forall₂_stripped_iff {raw trimmed : List (List Char)} :
    List.Forall₂ (Stripped isBlank) raw trimmed ↔ raw.map trim = trimmed :=
  forall₂_iff_map_eq (g := trim) fun _ _ => stripped_iff_trim

theorem forall₂_escaped_iff {kept escaped : List (List Char)} :
    List.Forall₂ Escaped kept escaped ↔ kept.map escape = escaped :=
  forall₂_iff_map_eq (g := escape) fun _ _ => escaped_iff

theorem normalizes_iff : Normalizes comment ls ↔ ls = lines comment := by
  have hlines : ls.map String.toList = normalLines comment.toList ↔ ls = lines comment := by
    rw [← toList_lines, List.map_inj_right fun _ _ => String.toList_inj.mp]
  rw [← hlines, eq_comm]
  unfold Normalizes
  simp only [cut_iff, forall₂_stripped_iff, stripped_iff, forall₂_escaped_iff,
    exists_and_left, exists_eq_left']
  rfl

/-- Lines that a comment leaves as they are. -/
structure Normal (ls : List String) : Prop where
  head : ∀ l ∈ ls.head?, l ≠ ""
  last : ∀ l ∈ ls.getLast?, l ≠ ""
  trimmed : ∀ l ∈ ls, trim l.toList = l.toList
  inert : ∀ l ∈ ls, Inert l

theorem normal_lines (comment : String) : Normal (lines comment) := by
  have hkept := stripped_dropWhile_ends List.isEmpty ((split '\n' comment.toList).map trim)
  refine ⟨fun l hl => ?_, fun l hl => ?_, fun l hl => ?_, fun l hl => inert_of_mem_lines hl⟩
  · rw [lines, normalLines, List.map_map, List.head?_map] at hl
    obtain ⟨k, hk, rfl⟩ := Option.map_eq_some_iff.mp hl
    exact ofList_escape_ne_empty (hkept.head k hk)
  · rw [lines, normalLines, List.map_map, List.getLast?_map] at hl
    obtain ⟨k, hk, rfl⟩ := Option.map_eq_some_iff.mp hl
    exact ofList_escape_ne_empty (hkept.last k hk)
  · obtain ⟨cs, hcs, rfl⟩ := List.mem_map.mp hl
    obtain ⟨k, hk, rfl⟩ := List.mem_map.mp hcs
    obtain ⟨r, -, rfl⟩ := List.mem_map.mp (mem_of_mem_dropWhile_ends hk)
    rw [String.toList_ofList]
    exact (stripped_escape (stripped_dropWhile_ends isBlank r).idem).dropWhile_ends_eq

namespace Normal

theorem isEmpty_eq_false {l : String} (h : l ≠ "") : l.toList.isEmpty = false :=
  List.isEmpty_eq_false_iff.mpr (mt String.toList_eq_nil_iff.mp h)

theorem stripped (h : Normal ls) :
    Stripped List.isEmpty (ls.map String.toList) (ls.map String.toList) := by
  refine .self (fun cs hcs => ?_) (fun cs hcs => ?_)
  · rw [List.head?_map] at hcs
    obtain ⟨l, hl, rfl⟩ := Option.map_eq_some_iff.mp hcs
    exact isEmpty_eq_false (h.head l hl)
  · rw [List.getLast?_map] at hcs
    obtain ⟨l, hl, rfl⟩ := Option.map_eq_some_iff.mp hcs
    exact isEmpty_eq_false (h.last l hl)

theorem lines_eq (h : Normal ls) : lines ("\n".intercalate ls) = ls := by
  by_cases hne : ls = []
  · subst hne
    rfl
  · refine (normalizes_iff.mp ⟨ls.map String.toList, ls.map String.toList, ls.map String.toList,
      ⟨mt List.map_eq_nil_iff.mp hne, ?_, String.toList_intercalate⟩, ?_, h.stripped, ?_⟩).symm
    · exact List.forall_mem_map.mpr fun l hl => (h.inert l hl).1
    · rw [forall₂_stripped_iff, List.map_map]
      exact List.map_congr_left h.trimmed
    · rw [forall₂_escaped_iff, List.map_map]
      exact List.map_congr_left fun l hl => escape_of_not_infix (h.inert l hl).2

theorem endedLines_eq (h : Normal ls) :
    (endedLines ("\n".intercalate ls).toList).map String.ofList = ls := by
  rw [String.toList_intercalate]
  have hlines : endedLines (List.intercalate ['\n'] (ls.map String.toList)) =
      ls.map String.toList := by
    refine endedLines_intercalate ?_ ?_ h.stripped.last
    · exact List.forall_mem_map.mpr fun l hl => (h.inert l hl).1
    · refine List.forall_mem_map.mpr fun l hl hreturn => ?_
      have hblank := (stripped_iff_trim.mpr (h.trimmed l hl)).last '\r' hreturn
      cases hblank
  have htoList : "\n".toList = ['\n'] := rfl
  rw [htoList, hlines, List.map_map]
  simp

end Normal

end

/-! ## Cleaned as one text -/

/-- The comment without the blanks at the ends of its lines and at its own, and escaped. -/
def cleaned (comment : String) : String :=
  String.ofList (escape (trim (List.intercalate ['\n'] ((endedLines comment.toList).map trim))))

theorem dropEmptyEnds_endedLines (cs : List Char) :
    dropEmptyEnds ((endedLines cs).map trim) = dropEmptyEnds ((split '\n' cs).map trim) := by
  rcases List.eq_nil_or_concat (split '\n' cs) with h | ⟨ls, l, h⟩
  · exact absurd h (split_ne_nil '\n' cs)
  · have hreturn : ls.map (trim ∘ dropReturn) = ls.map trim :=
      List.map_congr_left fun r _ => trim_dropReturn r
    rw [endedLines, h, List.concat_eq_append, List.dropLast_concat, List.getLast?_concat,
      List.map_append, List.map_append, List.map_map, hreturn]
    cases l with
    | nil =>
      -- the line behind the last line end is dropped on both sides
      have hempty : ∀ r ∈ [trim []], r.isEmpty = true := by decide
      have hstripped := stripped_dropWhile_ends List.isEmpty (ls.map trim)
      show dropEmptyEnds (ls.map trim ++ []) = dropEmptyEnds (ls.map trim ++ [trim []])
      rw [List.append_nil]
      exact (hstripped.append_right hempty).dropWhile_ends_eq.symm
    | cons c l => rfl

theorem cleaned_eq (comment : String) : cleaned comment = "\n".intercalate (lines comment) := by
  have hself : ∀ l ∈ (endedLines comment.toList).map trim, Stripped isBlank l l :=
    List.forall_mem_map.mpr fun l _ => (stripped_dropWhile_ends isBlank l).idem
  have htrim : trim (List.intercalate ['\n'] ((endedLines comment.toList).map trim)) =
      List.intercalate ['\n'] (dropEmptyEnds ((endedLines comment.toList).map trim)) :=
    (stripped_intercalate hself (stripped_dropWhile_ends _ _)).dropWhile_ends_eq
  rw [← String.toList_inj, String.toList_intercalate, cleaned, String.toList_ofList, htrim,
    dropEmptyEnds_endedLines, escape_intercalate, toList_lines]
  rfl

theorem endedLines_cleaned (comment : String) :
    (endedLines (cleaned comment).toList).map String.ofList = lines comment := by
  rw [cleaned_eq, (normal_lines comment).endedLines_eq]

theorem cleaned_cleaned (comment : String) : cleaned (cleaned comment) = cleaned comment := by
  rw [cleaned_eq (cleaned comment), cleaned_eq comment, (normal_lines comment).lines_eq]

end Doc

/-! ## Documentation of a file -/

namespace File

theorem doc_in_normal_form :
    (∀ comment ls, Doc.Normalizes comment ls ↔ ls = Doc.lines comment) ∧
    (∀ comment, Doc.Normal (Doc.lines comment) ∧
      (Doc.lines comment = [] ↔ IsBlank comment) ∧
      (endedLines (Doc.cleaned comment).toList).map String.ofList = Doc.lines comment ∧
      Doc.cleaned (Doc.cleaned comment) = Doc.cleaned comment) ∧
    (∀ ls, Doc.Normal ls → Doc.lines ("\n".intercalate ls) = ls) ∧
    ∀ f : File,
      (∀ path comment, f.CommentAt path comment → Doc.lines comment ≠ [] ∧
        f.doc path false = Doc.lines comment ∧
        f.doc path true = Doc.lines comment ++ ["", "@deprecated"]) ∧
      (∀ path, (∀ comment, ¬ f.CommentAt path comment) →
        f.doc path false = [] ∧ f.doc path true = ["@deprecated"]) ∧
      ∀ ix t, f.typings ix = .ok t →
        t.docs = f.parts.map fun x => f.doc x.path ((f.mark? x).getD false) := by
  refine ⟨fun _ _ => Doc.normalizes_iff, fun comment => ?_, fun _ h => h.lines_eq, fun f => ?_⟩
  · exact ⟨Doc.normal_lines comment, Doc.lines_eq_nil_iff, Doc.endedLines_cleaned comment,
      Doc.cleaned_cleaned comment⟩
  · refine ⟨fun path comment h => ?_, fun path h => ?_, fun ix t => docs_eq_map_parts⟩
    · obtain ⟨loc, -, hsaid⟩ := commentAt_iff.mp h
      have hne : Doc.lines comment ≠ [] := mt Doc.lines_eq_nil_iff.mp hsaid.2
      refine ⟨hne, (documented_iff.mp (.comment h)).symm, ?_⟩
      rw [← documented_iff.mp (.comment h), Doc.mark, if_pos rfl, if_neg hne]
      rfl
    · exact ⟨(documented_iff.mp (.none h)).symm, (documented_iff.mp (.none h)).symm⟩

end File

namespace Sample

/-- Line ends of both kinds, a blank that is no ASCII, a run of asterisks and slashes, and blank
lines at both ends and in the middle. -/
def totalsComment : String := " \r\n\tSums **// of\u2003\r\n\r\n  a day,\rat last\r\n \n"

def totalsLines : List String := ["Sums **\\// of", "", "a day,\rat last"]

def totals : File where
  name? := some "totals.proto"
  messages := [{
    name? := some "Totals"
    fields := [
      { name? := some "sum", number? := some 1, kind? := some 5
        options? := some { deprecated? := some true } }]
    options? := some { deprecated? := some true } }]
  locations? := some [
    { path := [4, 0], leading? := some totalsComment },
    { path := [4, 0, 2, 0], leading? := some " \n", trailing? := some "Never looked at." }]

def totalsIndex : Index where
  files := [totals]
  entries := totals.entries

theorem totals_docs :
    Doc.Normalizes totalsComment totalsLines ∧
    Doc.Normal totalsLines ∧ Doc.lines ("\n".intercalate totalsLines) = totalsLines ∧
    totals.CommentAt [4, 0] totalsComment ∧
    totals.doc [4, 0] true = totalsLines ++ ["", "@deprecated"] ∧
    (∀ comment, ¬ totals.CommentAt [4, 0, 2, 0] comment) ∧
    totals.doc [4, 0, 2, 0] true = ["@deprecated"] ∧
    ∃ t, totals.typings totalsIndex = .ok t ∧
      t.docs = totals.parts.map fun x => totals.doc x.path ((totals.mark? x).getD false) := by
  obtain ⟨hlines, hnormal, hsame, hfile⟩ := File.doc_in_normal_form
  obtain ⟨hsome, hnone, hdocs⟩ := hfile totals
  have htotals : totalsLines = Doc.lines totalsComment := by decide
  have hform : Doc.Normal totalsLines := htotals ▸ (hnormal totalsComment).1
  have hnotBlank : ¬ IsBlank totalsComment := by
    rw [← (hnormal totalsComment).2.1, ← htotals]
    exact List.cons_ne_nil _ _
  have hsays : totals.CommentAt [4, 0] totalsComment :=
    File.commentAt_iff.mpr ⟨_, rfl, .inl rfl, hnotBlank⟩
  have hsilent : ∀ comment, ¬ totals.CommentAt [4, 0, 2, 0] comment := fun comment h => by
    obtain ⟨loc, hloc, -⟩ := File.commentAt_iff.mp h
    cases hloc
  refine ⟨(hlines _ _).mpr htotals, hform, hsame _ hform, hsays, ?_, hsilent,
    (hnone _ hsilent).2, _, rfl, hdocs totalsIndex _ rfl⟩
  rw [htotals]
  exact (hsome _ _ hsays).2.2

end Sample

end ProtoTypings

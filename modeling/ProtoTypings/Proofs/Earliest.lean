import Mathlib.Data.List.Nodup
import Mathlib.Order.Defs.Unbundled

/-!
# The first to stop

A walk visits some things in order until one of them stops it with an error. `StopsFirst` says which
one this is, in terms of the order alone: nothing before it stops the walk. A walk that fails only
because of the first stop fails with the error of the first stop (`fails_iff_stopsFirst`). In a list
that is in order, what comes before an element stands in front of it (`mem_of_before`).
-/

namespace ProtoTypings

variable {α β ε : Type} {before : α → α → Prop} {stops : α → ε → Prop}

/-- `a` stops with the error, and nothing that comes before `a` stops. -/
structure StopsFirst (before : α → α → Prop) (stops : α → ε → Prop) (a : α) (e : ε) : Prop where
  stop : stops a e
  first : ∀ b e', stops b e' → ¬ before b a

theorem StopsFirst.eq [Std.Trichotomous before] {a b : α} {e e' : ε}
    (ha : StopsFirst before stops a e) (hb : StopsFirst before stops b e') : a = b :=
  Std.Trichotomous.trichotomous a b (hb.first a e ha.stop) (ha.first b e' hb.stop)

/-- It is enough to find the first stop behind a failure: there is no other. -/
theorem fails_iff_stopsFirst [Std.Trichotomous before] {fails : ε → Prop}
    (hnone : (∀ e, ¬ fails e) → ∀ a e, ¬ stops a e)
    (hfirst : ∀ e, fails e → ∃ a, StopsFirst before stops a e)
    (hunique : ∀ a e e', StopsFirst before stops a e → StopsFirst before stops a e' → e = e')
    (e : ε) : fails e ↔ ∃ a, StopsFirst before stops a e := by
  refine ⟨hfirst e, ?_⟩
  rintro ⟨a, ha⟩
  obtain ⟨e', he'⟩ : ∃ e', fails e' :=
    Classical.byContradiction fun h => hnone (not_exists.mp h) a e ha.stop
  obtain ⟨b, hb⟩ := hfirst e' he'
  obtain rfl := ha.eq hb
  rwa [hunique a e e' ha hb]

/-! ## Lists in order -/

section Sorted

variable {pre post : List α} {a b : α}

theorem before_of_mem (h : (pre ++ a :: post).Pairwise before) (hb : b ∈ pre) : before b a :=
  (List.pairwise_append.mp h).2.2 b hb a List.mem_cons_self

theorem mem_of_before [Std.Asymm before] (h : (pre ++ a :: post).Pairwise before)
    (hb : b ∈ pre ++ a :: post) (hbefore : before b a) : b ∈ pre := by
  rcases List.mem_append.mp hb with hb | hb
  · exact hb
  · rcases List.mem_cons.mp hb with rfl | hb
    · exact absurd hbefore (Std.Asymm.asymm b b hbefore)
    · have hafter : before a b :=
        (List.pairwise_cons.mp (List.pairwise_append.mp h).2.1).1 b hb
      exact absurd hbefore (Std.Asymm.asymm a b hafter)

/-- Whatever comes before an element of an initial part is in that part. -/
theorem mem_left_of_before [Std.Asymm before] {as bs : List α} (h : (as ++ bs).Pairwise before)
    (ha : a ∈ as) (hb : b ∈ as ++ bs) (hbefore : before b a) : b ∈ as := by
  obtain ⟨pre, post, rfl⟩ := List.append_of_mem ha
  rw [List.append_assoc, List.cons_append] at h hb
  exact List.mem_append_left _ (mem_of_before h hb hbefore)

/-- Where what the elements of an initial part stand for has keys of its own, none of them has the
key of anything that comes before it. -/
theorem key_ne_of_before [Std.Asymm before] {γ δ κ : Type} {g : α → Option γ} {c : δ → γ}
    {k : γ → κ} {as bs : List α} {ds : List δ} (h : (as ++ bs).Pairwise before)
    (hmap : as.map g = ds.map fun d => some (c d)) (hkeys : (ds.map fun d => k (c d)).Nodup)
    (ha : a ∈ as) (hb : b ∈ as ++ bs) (hbefore : before b a) {x y : γ} (hx : g a = some x)
    (hy : g b = some y) : k y ≠ k x := by
  have hnodup : (as.map fun a => (g a).map k).Nodup := by
    have hsome := hkeys.map fun _ _ => Option.some.inj
    have hboth := congrArg (List.map (Option.map k)) hmap
    rw [List.map_map] at hsome
    rw [List.map_map, List.map_map] at hboth
    exact hboth ▸ hsome
  intro hkey
  have hsame : (g b).map k = (g a).map k := by
    rw [hx, hy, Option.map_some, Option.map_some, hkey]
  obtain rfl := List.inj_on_of_nodup_map hnodup (mem_left_of_before h ha hb hbefore) ha hsame
  exact Std.Asymm.asymm b b hbefore hbefore

end Sorted

/-- A list that goes together with another one is parted where that one is. -/
theorem exists_split_of_map_eq {γ : Type} {g : α → β} {g' : γ → β} {as : List α}
    {pre post : List γ} {c : γ} (h : as.map g = (pre ++ c :: post).map g') :
    ∃ front a back, as = front ++ a :: back ∧ front.map g = pre.map g' ∧ g a = g' c := by
  rw [List.map_append, List.map_cons] at h
  obtain ⟨front, rest, rfl, hfront, hrest⟩ := List.map_eq_append_iff.mp h
  obtain ⟨a, back, rfl, ha, -⟩ := List.map_eq_cons_iff.mp hrest
  exact ⟨front, a, back, rfl, hfront, ha⟩

end ProtoTypings

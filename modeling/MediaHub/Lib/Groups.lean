import Mathlib.Data.List.Basic
import Mathlib.Data.List.Induction
import Mathlib.Data.List.Nodup

/-!
# Grouping in a dict of lists

`groups.setdefault(key(x), []).append(x)` over a list collects the elements by
key, in a dict that remembers the order in which the keys came up.

## Main definitions

* `setdefaultAppend` — one append.
* `groupsBy` — the loop.

## Main results

* `groupsBy_eq` — **the groups are the filters of the list by its keys, in the
  order of their first occurrences.**
* `pairwise_eraseDups_map` — what the order of the keys says about the elements.
-/

namespace MediaHub

variable {α κ : Type*} [DecidableEq κ]

/-- `groups.setdefault(key, []).append(a)` on a dict in insertion order. -/
def setdefaultAppend : List (κ × List α) → κ → α → List (κ × List α)
  | [], key, a => [(key, [a])]
  | (k, as) :: groups, key, a =>
    if k = key then (k, as ++ [a]) :: groups else (k, as) :: setdefaultAppend groups key a

/-- The elements of a list by key, in a dict in insertion order. -/
def groupsBy (key : α → κ) (l : List α) : List (κ × List α) :=
  l.foldl (fun groups a => setdefaultAppend groups (key a) a) []

@[simp] theorem groupsBy_nil (key : α → κ) : groupsBy key ([] : List α) = [] := rfl

theorem groupsBy_concat (key : α → κ) (l : List α) (a : α) :
    groupsBy key (l ++ [a]) = setdefaultAppend (groupsBy key l) (key a) a := by
  simp [groupsBy]

/-- An append on a dict that lists `f` along its keys. -/
theorem setdefaultAppend_map (f : κ → List α) (key : κ) (a : α) :
    ∀ keys : List κ, keys.Nodup →
      setdefaultAppend (keys.map fun k => (k, f k)) key a
        = if key ∈ keys then keys.map fun k => (k, if k = key then f k ++ [a] else f k)
          else (keys.map fun k => (k, f k)) ++ [(key, [a])] := by
  intro keys
  induction keys with
  | nil => intro _; rfl
  | cons k keys ih =>
    intro hnodup
    rw [List.nodup_cons] at hnodup
    rw [List.map_cons, setdefaultAppend]
    by_cases hk : k = key
    · subst hk
      have hrest : ∀ k' ∈ keys, k' ≠ k := by
        intro k' hk' h
        exact hnodup.1 (h ▸ hk')
      rw [if_pos rfl, if_pos List.mem_cons_self, List.map_cons, if_pos rfl]
      congr 1
      exact List.map_congr_left fun k' hk' => by rw [if_neg (hrest k' hk')]
    · rw [if_neg hk, ih hnodup.2]
      by_cases hmem : key ∈ keys
      · rw [if_pos hmem, if_pos (List.mem_cons_of_mem _ hmem), List.map_cons, if_neg hk]
      · rw [if_neg hmem, if_neg (by simp [Ne.symm hk, hmem]), List.cons_append]

/-- A list without repetitions grows at its end by what is new. -/
theorem eraseDups_concat (l : List κ) (k : κ) :
    (l ++ [k]).eraseDups = if k ∈ l then l.eraseDups else l.eraseDups ++ [k] := by
  have hone : [k].eraseDups = [k] := by simp [List.eraseDups_cons]
  rw [List.eraseDups_append]
  by_cases hk : k ∈ l <;> simp [List.removeAll, hk, hone]

theorem nodup_eraseDups : ∀ l : List κ, l.eraseDups.Nodup := by
  intro l
  induction l using List.reverseRecOn with
  | nil => simp
  | append_singleton l k ih =>
    rw [eraseDups_concat]
    split
    · exact ih
    · next hk =>
      refine List.nodup_append.mpr ⟨ih, by simp, ?_⟩
      rintro a ha b hb rfl
      obtain rfl : a = k := by simpa using hb
      exact hk (List.mem_eraseDups.mp ha)

/-- **The groups of a list are its filters by key**, in the order in which the
keys come up. -/
theorem groupsBy_eq (key : α → κ) (l : List α) :
    groupsBy key l = (l.map key).eraseDups.map fun k => (k, l.filter fun a => key a = k) := by
  induction l using List.reverseRecOn with
  | nil => rfl
  | append_singleton l a ih =>
    rw [groupsBy_concat, ih, setdefaultAppend_map _ _ _ _ (nodup_eraseDups _), List.map_append,
      List.map_singleton, eraseDups_concat]
    -- an old key grows its group; a new one starts a group of one
    by_cases hk : key a ∈ l.map key
    · rw [if_pos (List.mem_eraseDups.mpr hk), if_pos hk]
      apply List.map_congr_left
      intro k _
      by_cases hak : key a = k
      · simp [hak]
      · simp [hak, Ne.symm hak]
    · rw [if_neg fun h => hk (List.mem_eraseDups.mp h), if_neg hk, List.map_append,
        List.map_singleton]
      have hnone : l.filter (fun b => key b = key a) = [] := by
        rw [List.filter_eq_nil_iff]
        intro b hb h
        exact hk (List.mem_map.mpr ⟨b, hb, by simpa using h⟩)
      congr 1
      · apply List.map_congr_left
        intro k hkm
        have hne : key a ≠ k := by
          rintro rfl
          exact hk (List.mem_eraseDups.mp hkm)
        simp [hne]
      · simp [List.filter_append, hnone]

/-- The keys are listed by where they come up first. -/
theorem pairwise_idxOf_eraseDups (l : List κ) :
    l.eraseDups.Pairwise fun k k' => l.idxOf k < l.idxOf k' := by
  induction l using List.reverseRecOn with
  | nil => simp
  | append_singleton l c ih =>
    -- what came up before stays where it is
    have hold : ∀ k ∈ l.eraseDups, (l ++ [c]).idxOf k = l.idxOf k :=
      fun k hk => List.idxOf_append_of_mem (List.mem_eraseDups.mp hk)
    have hpairs : l.eraseDups.Pairwise fun k k' => (l ++ [c]).idxOf k < (l ++ [c]).idxOf k' := by
      refine ih.imp_of_mem ?_
      intro k k' hk hk' hlt
      rwa [hold k hk, hold k' hk']
    rw [eraseDups_concat]
    split
    · exact hpairs
    · next hc =>
      refine List.pairwise_append.mpr ⟨hpairs, by simp, ?_⟩
      intro k hk k' hk'
      obtain rfl : k' = c := by simpa using hk'
      rw [hold k hk, List.idxOf_append_of_notMem hc]
      exact Nat.lt_add_right _ (List.idxOf_lt_length_iff.mpr (List.mem_eraseDups.mp hk))

/-- A key that comes up earlier comes up before the elements of a later key. -/
theorem pairwise_eraseDups_map {r : α → α → Prop} (key : α → κ) {l : List α}
    (hl : l.Pairwise r) :
    (l.map key).eraseDups.Pairwise fun k k' =>
      ∀ b ∈ l, key b = k' → ∃ a ∈ l, key a = k ∧ r a b := by
  induction l using List.reverseRecOn with
  | nil => simp
  | append_singleton l c ih =>
    rw [List.pairwise_append] at hl
    -- any key that came up before has an element that is related to the last one
    have hback : ∀ k ∈ (l.map key).eraseDups, ∃ a ∈ l ++ [c], key a = k ∧ r a c := by
      intro k hk
      obtain ⟨a, ha, hak⟩ := List.mem_map.mp (List.mem_eraseDups.mp hk)
      exact ⟨a, List.mem_append_left _ ha, hak, hl.2.2 a ha c (by simp)⟩
    have hold : (l.map key).eraseDups.Pairwise fun k k' =>
        ∀ b ∈ l ++ [c], key b = k' → ∃ a ∈ l ++ [c], key a = k ∧ r a b := by
      refine (ih hl.1).imp_of_mem fun {k k'} hk _ hkk' b hb hbk => ?_
      rcases List.mem_append.mp hb with hb | hb
      · obtain ⟨a, ha, hak, hab⟩ := hkk' b hb hbk
        exact ⟨a, List.mem_append_left _ ha, hak, hab⟩
      · obtain rfl : b = c := by simpa using hb
        exact hback k hk
    rw [List.map_append, List.map_singleton, eraseDups_concat]
    split
    · exact hold
    · next hnew =>
      refine List.pairwise_append.mpr ⟨hold, by simp, ?_⟩
      intro k hk k' hk' b hb hbk
      obtain rfl : k' = key c := by simpa using hk'
      rcases List.mem_append.mp hb with hb | hb
      · exact absurd (hbk ▸ List.mem_map_of_mem hb) hnew
      · obtain rfl : b = c := by simpa using hb
        exact hback k hk

end MediaHub

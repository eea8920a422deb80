import Mathlib.Data.List.Nodup
import Mathlib.Data.List.Perm.Lattice

/-!
# Reordering by allowed swaps

Two lists are the same up to allowed swaps when one becomes the other by swapping
neighbours that a relation allows to be swapped, as independent events of a trace
may be.  What a swap leaves unchanged is then unchanged by the reordering.

## Main definitions

* `Swaps R l l'` — `l'` is `l` up to swaps of neighbours related by `R`.

## Main results

* `swaps_of_perm` — **a permutation that only turns around allowed pairs is a chain
  of allowed swaps.**
-/

namespace MediaHub

variable {α β : Type*}

/-- `l'` is `l` up to swaps of neighbours `a`, `b` with `R a b`. -/
inductive Swaps (R : α → α → Prop) : List α → List α → Prop
  /-- The empty list. -/
  | nil : Swaps R [] []
  /-- Reordering behind the first element. -/
  | cons (a : α) {l l' : List α} : Swaps R l l' → Swaps R (a :: l) (a :: l')
  /-- One swap. -/
  | swap {a b : α} (l : List α) : R a b → Swaps R (a :: b :: l) (b :: a :: l)
  /-- One reordering after the other. -/
  | trans {l₁ l₂ l₃ : List α} : Swaps R l₁ l₂ → Swaps R l₂ l₃ → Swaps R l₁ l₃

namespace Swaps

variable {R : α → α → Prop}

theorem refl (l : List α) : Swaps R l l := by
  induction l with
  | nil => exact .nil
  | cons a l ih => exact .cons a ih

theorem append_left (u : List α) {l l' : List α} (h : Swaps R l l') :
    Swaps R (u ++ l) (u ++ l') := by
  induction u with
  | nil => exact h
  | cons a u ih => exact .cons a ih

theorem append_right {l l' : List α} (h : Swaps R l l') (v : List α) :
    Swaps R (l ++ v) (l' ++ v) := by
  induction h with
  | nil => exact refl v
  | cons a _ ih => exact .cons a ih
  | swap l hab => exact .swap (l ++ v) hab
  | trans _ _ ih₁ ih₂ => exact ih₁.trans ih₂

/-- An element moves in front of elements it may be swapped with. -/
theorem cons_append {a : α} {u : List α} (h : ∀ b ∈ u, R a b) (v : List α) :
    Swaps R (a :: (u ++ v)) (u ++ a :: v) := by
  induction u with
  | nil => exact refl _
  | cons b u ih =>
    have hswap : Swaps R (a :: b :: (u ++ v)) (b :: a :: (u ++ v)) :=
      .swap _ (h b List.mem_cons_self)
    exact hswap.trans (.cons b (ih fun c hc => h c (List.mem_cons_of_mem _ hc)))

end Swaps

/-- **A permutation that only turns around allowed pairs is a chain of allowed
swaps.** -/
theorem swaps_of_perm {R : α → α → Prop} {l l' : List α} (hperm : l.Perm l')
    (h : ∀ a b, [a, b].Sublist l → [b, a].Sublist l' → R a b) : Swaps R l l' := by
  induction l generalizing l' with
  | nil =>
    obtain rfl : l' = [] := by simpa using hperm.symm
    exact .nil
  | cons a l ih =>
    obtain ⟨u, v, rfl⟩ := List.append_of_mem (hperm.mem_iff.mp List.mem_cons_self)
    have htail : l.Perm (u ++ v) := (hperm.trans List.perm_middle).cons_inv
    have hsub : (u ++ v).Sublist (u ++ a :: v) :=
      (List.Sublist.refl u).append (List.sublist_cons_self a v)
    have hrest : Swaps R l (u ++ v) := ih htail fun x y hxy hyx =>
      h x y (hxy.trans (List.sublist_cons_self a l)) (hyx.trans hsub)
    refine (Swaps.cons a hrest).trans (Swaps.cons_append (fun b hb => h a b ?_ ?_) v)
    · refine List.Sublist.cons_cons a (List.singleton_sublist.mpr ?_)
      exact htail.mem_iff.mpr (List.mem_append_left _ hb)
    · have hone : [b].Sublist u := List.singleton_sublist.mpr hb
      exact hone.append (List.Sublist.cons_cons a (List.nil_sublist v))

/-! ### The order of two elements -/

/-- Two elements of a list come in one order or in the other. -/
theorem pair_sublist_or {a b : α} {l : List α} (ha : a ∈ l) (hb : b ∈ l) (hne : a ≠ b) :
    [a, b].Sublist l ∨ [b, a].Sublist l := by
  obtain ⟨u, v, rfl⟩ := List.append_of_mem ha
  rcases List.mem_append.mp hb with hb | hb
  · have hone : [b].Sublist u := List.singleton_sublist.mpr hb
    exact Or.inr (hone.append (List.Sublist.cons_cons a (List.nil_sublist v)))
  · have hbv : b ∈ v := (List.mem_cons.mp hb).resolve_left hne.symm
    have htwo : [a, b].Sublist (a :: v) :=
      List.Sublist.cons_cons a (List.singleton_sublist.mpr hbv)
    exact Or.inl (htwo.trans (List.sublist_append_right u _))

/-- In a list without repetitions two elements come in one order only. -/
theorem not_pair_sublist_of_nodup {a b : α} {l : List α} (hl : l.Nodup)
    (hab : [a, b].Sublist l) : ¬ [b, a].Sublist l := by
  induction l with
  | nil => simp at hab
  | cons c l ih =>
    rw [List.nodup_cons] at hl
    intro hba
    have hmem : ∀ {x y}, [x, y].Sublist l → x ∈ l ∧ y ∈ l := fun h =>
      ⟨h.subset (by simp), h.subset (by simp)⟩
    rcases List.sublist_cons_iff.mp hab with hab' | ⟨_, hac, hbl⟩ <;>
      rcases List.sublist_cons_iff.mp hba with hba' | ⟨_, hbc, hal⟩
    · exact ih hl.2 hab' hba'
    · obtain ⟨rfl, -⟩ := List.cons.inj hbc
      exact hl.1 (hmem hab').2
    · obtain ⟨rfl, -⟩ := List.cons.inj hac
      exact hl.1 (hmem hba').2
    · obtain ⟨rfl, -⟩ := List.cons.inj hac
      obtain ⟨rfl, -⟩ := List.cons.inj hbc
      have hmem : b ∈ l := by
        have htail := (List.cons.inj hac).2
        exact hbl.subset (htail ▸ List.mem_cons_self)
      exact hl.1 hmem

end MediaHub

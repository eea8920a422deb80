import Mathlib.Data.List.Induction
import Mathlib.Data.List.MinMax

/-!
# The first maximum of a list

`max(xs, key=f)` returns the first of several maxima, so it depends on the order
of the list — unless the order of the list says which of them is wanted.

## Main results

* `exists_argmax` — a list that is not empty has a maximum.
* `rel_of_mem_argmax` — the first maximum stands before the others.
-/

namespace MediaHub

variable {α β : Type*} [LinearOrder β] {f : α → β} {l : List α} {m : α}

theorem exists_argmax (f : α → β) (h : l ≠ []) : ∃ m, l.argmax f = some m := by
  rw [← Option.ne_none_iff_exists', ne_eq, List.argmax_eq_none]
  exact h

/-- The first maximum of a list ordered by `r` stands before the other maxima. -/
theorem rel_of_mem_argmax {r : α → α → Prop} (hl : l.Pairwise r) (hm : m ∈ l.argmax f) :
    ∀ a ∈ l, f a < f m ∨ a = m ∨ r m a := by
  induction l using List.reverseRecOn generalizing m with
  | nil => simp
  | append_singleton l b ih =>
    rw [List.pairwise_append] at hl
    rw [List.argmax_concat] at hm
    intro a ha
    cases hc : l.argmax f with
    | none =>
      obtain rfl : l = [] := List.argmax_eq_none.mp hc
      rw [hc] at hm
      obtain rfl : b = m := by simpa using hm
      exact Or.inr (Or.inl (by simpa using ha))
    | some c =>
      rw [hc] at hm
      simp only at hm
      have hold := ih hl.1 hc
      split at hm
      · -- the new element is larger than all before it
        next hlt =>
        obtain rfl : b = m := by simpa using hm
        rcases List.mem_append.mp ha with ha | ha
        · exact Or.inl (lt_of_le_of_lt (List.le_of_mem_argmax ha hc) hlt)
        · exact Or.inr (Or.inl (by simpa using ha))
      · next hle =>
        obtain rfl : c = m := by simpa using hm
        rcases List.mem_append.mp ha with ha | ha
        · exact hold a ha
        · exact Or.inr (Or.inr (hl.2.2 c (List.argmax_mem hc) a ha))

end MediaHub

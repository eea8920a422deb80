import Mathlib.Algebra.BigOperators.Group.Finset.Basic
import Mathlib.Algebra.Order.Monoid.Defs
import Mathlib.Data.List.TakeWhile

/-!
# Streaks

The last events of a history that all have a property are its **streak**, newest first.
Where a policy wants a gap after each event of the streak, which depends on how many there
were, the streak is spaced, and its first and last event are as far apart as all the gaps
together.

## Main definitions

* `streak` — the newest events with the property.
* `Spaced` — the gaps are kept.

## Main results

* `streak_concat` — the streak after one more event.
* `Spaced.sum_le` — **a streak is at least as long as the sum of its gaps.**
-/

namespace MediaHub

section Streak

variable {α : Type*} (p : α → Bool)

/-- The events after the last one without the property, newest first. -/
def streak (l : List α) : List α := l.reverse.takeWhile p

variable {p} {l : List α} {a : α}

@[simp] theorem streak_nil : streak p ([] : List α) = [] := rfl

/-- An event goes on with the streak, or ends it. -/
theorem streak_concat : streak p (l ++ [a]) = if p a then a :: streak p l else [] := by
  rw [streak, List.reverse_append, List.reverse_singleton, List.singleton_append,
    List.takeWhile_cons]
  rfl

end Streak

section Spaced

variable {τ : Type*} [AddCommMonoid τ] [PartialOrder τ] [IsOrderedAddMonoid τ] (wait : ℕ → τ)

/-- After the `n`-th event of a streak, counted from the oldest, there is a gap of at least
`wait n`. -/
def Spaced : List τ → Prop
  | [] => True
  | [_] => True
  | t' :: t :: ts => t + wait (ts.length + 1) ≤ t' ∧ Spaced (t :: ts)

variable {wait} {t : τ} {ts : List τ}

omit [IsOrderedAddMonoid τ] in
/-- One more event, late enough. -/
theorem Spaced.cons (h : Spaced wait ts)
    (ht : ∀ t', ts.head? = some t' → t' + wait ts.length ≤ t) : Spaced wait (t :: ts) := by
  cases ts with
  | nil => trivial
  | cons t' ts => exact ⟨ht t' rfl, h⟩

/-- **A streak is at least as long as the sum of its gaps.** -/
theorem Spaced.sum_le (h : Spaced wait (t :: ts)) :
    (t :: ts).getLast (List.cons_ne_nil t ts) + ∑ k ∈ Finset.range ts.length, wait (k + 1) ≤ t := by
  induction ts generalizing t with
  | nil => simp
  | cons t' ts ih =>
    obtain ⟨hgap, hrest⟩ := h
    rw [List.getLast_cons (List.cons_ne_nil t' ts), List.length_cons, Finset.sum_range_succ,
      ← add_assoc]
    exact (add_le_add_left (ih hrest) _).trans hgap

end Spaced

end MediaHub

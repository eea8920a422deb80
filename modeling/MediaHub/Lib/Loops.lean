import Mathlib.Data.List.Range

/-!
# Loops over a range

Invariant rules for loops over `range(m)` and `range(1, m + 1)`, written as folds.

## Main results

* `foldl_range_induct`, `foldl_range'_induct` — **what holds at the start and is
  preserved by each turn holds at the end.**
-/

namespace MediaHub

variable {β : Type*}

/-- The invariant rule of `for k in range(m)`. -/
theorem foldl_range_induct (P : ℕ → β → Prop) (f : β → ℕ → β) {b : β} {m : ℕ} (h0 : P 0 b)
    (hstep : ∀ k c, k < m → P k c → P (k + 1) (f c k)) : P m ((List.range m).foldl f b) := by
  induction m with
  | zero => exact h0
  | succ m ih =>
    rw [List.range_succ, List.foldl_append]
    have hprev := ih fun k c hk => hstep k c (by omega)
    exact hstep m _ (by omega) hprev

/-- The invariant rule of `for k in range(1, m + 1)`. -/
theorem foldl_range'_induct (P : ℕ → β → Prop) (f : β → ℕ → β) {b : β} {m : ℕ} (h0 : P 0 b)
    (hstep : ∀ k c, k < m → P k c → P (k + 1) (f c (k + 1))) :
    P m ((List.range' 1 m).foldl f b) := by
  induction m with
  | zero => exact h0
  | succ m ih =>
    rw [List.range'_1_concat, List.foldl_append, Nat.add_comm 1 m]
    have hprev := ih fun k c hk => hstep k c (by omega)
    exact hstep m _ (by omega) hprev

end MediaHub

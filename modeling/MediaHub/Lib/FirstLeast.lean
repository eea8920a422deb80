import Mathlib.Data.Set.Insert
import Mathlib.Order.Basic

/-!
# The first of the least

Values come one after the other, and one of them is held: a new one takes its place only if
it is strictly smaller.  What is held is then a smallest one, and the first of them.

## Main definitions

* `FirstLeast` — the first of the least values at some positions.

## Main results

* `FirstLeast.keep`, `FirstLeast.replace` — the two ways in which a new value is met.
* `FirstLeast.unique` — there is one of them at most.
-/

namespace MediaHub

variable {α : Type*} [LinearOrder α]

/-- Of the positions in `S`, `i` is the first one at which `f` is least. -/
structure FirstLeast (f : ℕ → α) (S : Set ℕ) (i : ℕ) : Prop where
  /-- It is one of the positions. -/
  mem : i ∈ S
  /-- The value there is least. -/
  le : ∀ j ∈ S, f i ≤ f j
  /-- The values before are larger. -/
  lt : ∀ j ∈ S, j < i → f i < f j

namespace FirstLeast

variable {f : ℕ → α} {S : Set ℕ} {i j n : ℕ}

/-- The first value. -/
theorem single (f : ℕ → α) (n : ℕ) : FirstLeast f {n} n where
  mem := rfl
  le := by
    rintro j rfl
    exact le_rfl
  lt := by
    rintro j rfl h
    exact absurd h (lt_irrefl _)

/-- A new value that is not smaller changes nothing. -/
theorem keep (h : FirstLeast f S i) (hS : ∀ j ∈ S, j < n) (hle : f i ≤ f n) :
    FirstLeast f (insert n S) i where
  mem := Or.inr h.mem
  le := by
    rintro j (rfl | hj)
    · exact hle
    · exact h.le j hj
  lt := by
    rintro j (rfl | hj) hlt
    · exact absurd hlt (lt_asymm (hS i h.mem))
    · exact h.lt j hj hlt

/-- A new value that is smaller takes the place. -/
theorem replace (h : FirstLeast f S i) (hlt : f n < f i) : FirstLeast f (insert n S) n where
  mem := Or.inl rfl
  le := by
    rintro j (rfl | hj)
    · exact le_rfl
    · exact hlt.le.trans (h.le j hj)
  lt := by
    rintro j (rfl | hj) hj'
    · exact absurd hj' (lt_irrefl _)
    · exact hlt.trans_le (h.le j hj)

/-- There is one of them at most. -/
theorem unique (hi : FirstLeast f S i) (hj : FirstLeast f S j) : i = j := by
  rcases lt_trichotomy i j with hlt | heq | hlt
  · exact absurd (hj.lt i hi.mem hlt) (not_lt.mpr (hi.le j hj.mem))
  · exact heq
  · exact absurd (hi.lt j hj.mem hlt) (not_lt.mpr (hj.le i hi.mem))

end FirstLeast
end MediaHub

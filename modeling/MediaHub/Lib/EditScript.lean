import Mathlib.Data.List.Basic
import Mathlib.Order.Bounds.Basic
import Mathlib.Order.Nat

/-!
# Edit scripts

An edit script turns one list into another by keeping, substituting, deleting and
inserting elements from left to right.  The distance of two lists is the least
total of substitutions, deletions and insertions; the recursion that keeps equal
heads without looking at the alternatives computes it.

## Main definitions

* `Script r h s d i` — an edit script from `r` to `h` with `s` substitutions, `d`
  deletions and `i` insertions.
* `dist` — the greedy recursion.

## Main results

* `isLeast_dist` — **the recursion computes the least total over all scripts.**
* `dist_comm`, `dist_reverse` — the distance does not depend on the direction.
-/

namespace MediaHub

variable {α : Type*}

/-- An edit script from `r` to `h` with `s` substitutions of different elements, `d`
deletions and `i` insertions; all other elements are kept. -/
inductive Script : List α → List α → ℕ → ℕ → ℕ → Prop
  /-- Nothing is left to edit. -/
  | nil : Script [] [] 0 0 0
  /-- An element is kept. -/
  | keep (a : α) {r h : List α} {s d i : ℕ} : Script r h s d i → Script (a :: r) (a :: h) s d i
  /-- An element is replaced by a different one. -/
  | sub {a b : α} {r h : List α} {s d i : ℕ} : a ≠ b → Script r h s d i →
      Script (a :: r) (b :: h) (s + 1) d i
  /-- An element is deleted. -/
  | del (a : α) {r h : List α} {s d i : ℕ} : Script r h s d i → Script (a :: r) h s (d + 1) i
  /-- An element is inserted. -/
  | ins (b : α) {r h : List α} {s d i : ℕ} : Script r h s d i → Script r (b :: h) s d (i + 1)

namespace Script

variable {r h r' h' : List α} {s d i s' d' i' : ℕ}

/-- Scripts of two parts make up a script of the whole. -/
theorem append (hs : Script r h s d i) (hs' : Script r' h' s' d' i') :
    Script (r ++ r') (h ++ h') (s + s') (d + d') (i + i') := by
  induction hs with
  | nil => simpa using hs'
  | keep a _ ih => exact .keep a ih
  | sub hne _ ih =>
    rw [Nat.add_right_comm]
    exact .sub hne ih
  | del a _ ih =>
    rw [Nat.add_right_comm]
    exact .del a ih
  | ins b _ ih =>
    rw [Nat.add_right_comm]
    exact .ins b ih

/-- A script can be carried out from the right. -/
theorem reverse (hs : Script r h s d i) : Script r.reverse h.reverse s d i := by
  induction hs with
  | nil => exact .nil
  | keep a _ ih =>
    rw [List.reverse_cons, List.reverse_cons]
    exact ih.append (.keep a .nil)
  | sub hne _ ih =>
    rw [List.reverse_cons, List.reverse_cons]
    exact ih.append (.sub hne .nil)
  | @del a r h s d i _ ih =>
    have := ih.append (.del a .nil)
    rwa [List.append_nil, ← List.reverse_cons] at this
  | @ins b r h s d i _ ih =>
    have := ih.append (.ins b .nil)
    rwa [List.append_nil, ← List.reverse_cons] at this

/-- What is neither deleted nor inserted is on both sides. -/
theorem length_eq (hs : Script r h s d i) : r.length + i = h.length + d := by
  induction hs with
  | nil => rfl
  | keep a _ ih => simp only [List.length_cons]; omega
  | sub _ _ ih => simp only [List.length_cons]; omega
  | del a _ ih => simp only [List.length_cons]; omega
  | ins b _ ih => simp only [List.length_cons]; omega

/-- The script that deletes everything. -/
theorem delAll : ∀ r : List α, Script r [] 0 r.length 0
  | [] => .nil
  | a :: r => .del a (delAll r)

/-- The script that inserts everything. -/
theorem insAll : ∀ h : List α, Script [] h 0 0 h.length
  | [] => .nil
  | b :: h => .ins b (insAll h)

end Script

/-! ### The distance -/

variable [DecidableEq α]

/-- The distance of two lists, by the recursion that keeps equal heads. -/
def dist : List α → List α → ℕ
  | [], h => h.length
  | a :: r, [] => (a :: r).length
  | a :: r, b :: h =>
    if a = b then dist r h else 1 + min (dist r h) (min (dist r (b :: h)) (dist (a :: r) h))
termination_by r h => r.length + h.length

@[simp] theorem dist_nil_left (h : List α) : dist [] h = h.length := by
  unfold dist
  rfl

@[simp] theorem dist_nil_right (r : List α) : dist r [] = r.length := by
  cases r with
  | nil => exact dist_nil_left []
  | cons a r => unfold dist; rfl

theorem dist_cons_self (a : α) (r h : List α) : dist (a :: r) (a :: h) = dist r h := by
  rw [dist, if_pos rfl]

@[simp] theorem dist_self (r : List α) : dist r r = 0 := by
  induction r with
  | nil => exact dist_nil_left []
  | cons a r ih => rw [dist_cons_self, ih]

theorem dist_cons_cons {a b : α} (hab : a ≠ b) (r h : List α) :
    dist (a :: r) (b :: h) = 1 + min (dist r h) (min (dist r (b :: h)) (dist (a :: r) h)) := by
  rw [dist, if_neg hab]

/-- The distance does not depend on the direction. -/
theorem dist_comm (r h : List α) : dist r h = dist h r := by
  induction r, h using dist.induct with
  | case1 h => simp
  | case2 a r => simp
  | case3 r b h ih => rw [dist_cons_self, dist_cons_self, ih]
  | case4 a r b h hab ih₁ ih₂ ih₃ =>
    rw [dist_cons_cons hab, dist_cons_cons (Ne.symm hab), ih₁, ih₂, ih₃,
      min_comm (dist (b :: h) r) (dist h (a :: r))]

/-- One element more on one side changes the distance by one at most. -/
theorem dist_cons_bounds (n : ℕ) : ∀ r h : List α, r.length + h.length ≤ n →
    (∀ a, dist (a :: r) h ≤ dist r h + 1) ∧ ∀ b, dist r h ≤ dist r (b :: h) + 1 := by
  induction n with
  | zero =>
    intro r h hn
    obtain rfl : r = [] := List.length_eq_zero_iff.mp (by omega)
    obtain rfl : h = [] := List.length_eq_zero_iff.mp (by omega)
    simp
  | succ n ih =>
    intro r h hn
    have hleft : ∀ a, dist (a :: r) h ≤ dist r h + 1 := by
      intro a
      cases h with
      | nil => simp
      | cons b h =>
        rw [List.length_cons] at hn
        by_cases hab : a = b
        · subst hab
          rw [dist_cons_self]
          exact (ih r h (by omega)).2 a
        · rw [dist_cons_cons hab]
          omega
    refine ⟨hleft, ?_⟩
    intro b
    cases r with
    | nil =>
      simp only [dist_nil_left, List.length_cons]
      omega
    | cons a r =>
      rw [List.length_cons] at hn
      by_cases hab : a = b
      · subst hab
        rw [dist_cons_self]
        exact (ih r h (by omega)).1 a
      · -- whichever of the three the minimum is, it is not far from `dist r h`
        have h1 := (ih r h (by omega)).1 a
        have h2 := (ih r h (by omega)).2 b
        rw [dist_cons_cons hab]
        omega

theorem dist_cons_left_le (a : α) (r h : List α) : dist (a :: r) h ≤ dist r h + 1 :=
  (dist_cons_bounds _ r h le_rfl).1 a

theorem dist_cons_right_le (b : α) (r h : List α) : dist r (b :: h) ≤ dist r h + 1 := by
  rw [dist_comm, dist_comm r]
  exact dist_cons_left_le b h r

/-- No script does with less than the distance. -/
theorem dist_le_of_script {r h : List α} {s d i : ℕ} (hs : Script r h s d i) :
    dist r h ≤ s + d + i := by
  induction hs with
  | nil => simp
  | keep a _ ih => rwa [dist_cons_self]
  | sub hab _ ih =>
    rw [dist_cons_cons hab]
    omega
  | @del a r h s d i _ ih =>
    have := dist_cons_left_le a r h
    omega
  | @ins b r h s d i _ ih =>
    have := dist_cons_right_le b r h
    omega

/-- Some script does with the distance. -/
theorem exists_script (r h : List α) : ∃ s d i, Script r h s d i ∧ s + d + i = dist r h := by
  induction r, h using dist.induct with
  | case1 h => exact ⟨0, 0, h.length, .insAll h, by simp⟩
  | case2 a r => exact ⟨0, (a :: r).length, 0, .delAll (a :: r), by simp⟩
  | case3 r a h ih =>
    obtain ⟨s, d, i, hs, heq⟩ := ih
    exact ⟨s, d, i, .keep a hs, by rw [dist_cons_self, heq]⟩
  | case4 a r b h hab ih₁ ih₂ ih₃ =>
    obtain ⟨s₁, d₁, i₁, hs₁, heq₁⟩ := ih₁
    obtain ⟨s₂, d₂, i₂, hs₂, heq₂⟩ := ih₂
    obtain ⟨s₃, d₃, i₃, hs₃, heq₃⟩ := ih₃
    rw [dist_cons_cons hab]
    -- take the script of the smallest of the three
    rcases Nat.le_total (dist r h) (min (dist r (b :: h)) (dist (a :: r) h)) with hle | hle
    · exact ⟨s₁ + 1, d₁, i₁, .sub hab hs₁, by omega⟩
    · rcases Nat.le_total (dist r (b :: h)) (dist (a :: r) h) with hle' | hle'
      · exact ⟨s₂, d₂ + 1, i₂, .del a hs₂, by omega⟩
      · exact ⟨s₃, d₃, i₃ + 1, .ins b hs₃, by omega⟩

/-- **The recursion computes the least total over all scripts.** -/
theorem isLeast_dist (r h : List α) :
    IsLeast {n | ∃ s d i, Script r h s d i ∧ s + d + i = n} (dist r h) := by
  refine ⟨exists_script r h, ?_⟩
  rintro n ⟨s, d, i, hs, rfl⟩
  exact dist_le_of_script hs

/-- The distance can be computed from the right. -/
theorem dist_reverse (r h : List α) : dist r.reverse h.reverse = dist r h := by
  have hle : ∀ r h : List α, dist r.reverse h.reverse ≤ dist r h := by
    intro r h
    obtain ⟨s, d, i, hs, heq⟩ := exists_script r h
    rw [← heq]
    exact dist_le_of_script hs.reverse
  apply le_antisymm (hle r h)
  have := hle r.reverse h.reverse
  rwa [List.reverse_reverse, List.reverse_reverse] at this

end MediaHub

import Mathlib.Algebra.Order.Field.Basic
import Mathlib.Tactic.Linarith
import Mathlib.Tactic.Ring

/-!
# Spans of time

A span is a pair of a start and an end in an ordered field.  Two spans are
compared by how much of the **shorter** of them the other covers, a measure that
does not punish a fine division of the same stretch of time the way the
intersection over the union does.

## Main definitions

* `Span.overlap` — the length two spans have in common.
* `Span.ratio` — the overlap over the shorter of the two, zero where the shorter
  has no length.

## Main results

* `Span.le_ratio_iff` — what a positive ratio threshold asks for.
* `Span.le_overlap_hull` — a span close enough to the first member of a growing
  group is close enough to its hull, the least span around all members.
* `Span.overlap_hull_lt` — a span too far from the member that ends last is too
  far from the hull.
-/

namespace MediaHub
namespace Span

variable {K : Type*} [Field K] [LinearOrder K] [IsStrictOrderedRing K]

/-- The length of a span. -/
def duration (a : K × K) : K := a.2 - a.1

/-- The length two spans have in common. -/
def overlap (a b : K × K) : K := max 0 (min a.2 b.2 - max a.1 b.1)

/-- The length of the shorter of two spans. -/
def shorter (a b : K × K) : K := min (duration a) (duration b)

/-- The overlap of two spans relative to the shorter of them. -/
def ratio (a b : K × K) : K := if 0 < shorter a b then overlap a b / shorter a b else 0

omit [IsStrictOrderedRing K] in
theorem overlap_nonneg (a b : K × K) : 0 ≤ overlap a b := le_max_left _ _

omit [IsStrictOrderedRing K] in
theorem overlap_comm (a b : K × K) : overlap a b = overlap b a := by
  rw [overlap, overlap, min_comm, max_comm a.1]

omit [IsStrictOrderedRing K] in
theorem shorter_comm (a b : K × K) : shorter a b = shorter b a := min_comm _ _

theorem overlap_pos_iff {a b : K × K} :
    0 < overlap a b ↔ a.1 < a.2 ∧ a.1 < b.2 ∧ b.1 < a.2 ∧ b.1 < b.2 := by
  rw [overlap, lt_max_iff, sub_pos, lt_min_iff, max_lt_iff, max_lt_iff]
  constructor
  · rintro (h | ⟨⟨h1, h2⟩, h3, h4⟩)
    · exact absurd h (lt_irrefl _)
    · exact ⟨h1, h3, h2, h4⟩
  · rintro ⟨h1, h2, h3, h4⟩
    exact Or.inr ⟨⟨h1, h3⟩, h2, h4⟩

/-- Two spans that do not overlap, the first starting first, follow one another. -/
theorem le_of_overlap_eq_zero {a b : K × K} (ha : a.1 < a.2) (hb : b.1 < b.2) (hab : a.1 ≤ b.1)
    (h : overlap a b = 0) : a.2 ≤ b.1 := by
  by_contra hlt
  have hpos : 0 < overlap a b :=
    overlap_pos_iff.mpr ⟨ha, lt_of_le_of_lt hab hb, not_le.mp hlt, hb⟩
  exact absurd h hpos.ne'

/-- Spans that follow one another do not overlap. -/
theorem overlap_eq_zero_of_le {a b : K × K} (h : a.2 ≤ b.1) : overlap a b = 0 := by
  rw [overlap]
  refine max_eq_left (sub_nonpos.mpr ?_)
  exact le_trans (min_le_left _ _) (le_trans h (le_max_right _ _))

theorem shorter_pos_iff {a b : K × K} : 0 < shorter a b ↔ a.1 < a.2 ∧ b.1 < b.2 := by
  rw [shorter, lt_min_iff, duration, duration, sub_pos, sub_pos]

/-- **What a positive threshold on the ratio asks for.** -/
theorem le_ratio_iff {θ : K} (hθ : 0 < θ) {a b : K × K} :
    θ ≤ ratio a b ↔ 0 < shorter a b ∧ θ * shorter a b ≤ overlap a b := by
  rw [ratio]
  split
  · next h => rw [le_div_iff₀ h]; exact ⟨fun h' => ⟨h, h'⟩, fun h' => h'.2⟩
  · next h => exact ⟨fun h' => absurd h' (not_le.mpr hθ), fun h' => absurd h'.1 h⟩

/-- A ratio at a positive threshold means an overlap. -/
theorem overlap_pos_of_le_ratio {θ : K} (hθ : 0 < θ) {a b : K × K} (h : θ ≤ ratio a b) :
    0 < overlap a b := by
  obtain ⟨hs, hle⟩ := (le_ratio_iff hθ).mp h
  exact lt_of_lt_of_le (mul_pos hθ hs) hle

/-- The ratio against a span without length is zero. -/
theorem ratio_eq_zero_of_le {a b : K × K} (h : a.2 ≤ a.1 ∨ b.2 ≤ b.1) : ratio a b = 0 := by
  rw [ratio, if_neg]
  rw [shorter_pos_iff]
  rintro ⟨ha, hb⟩
  rcases h with h | h
  · exact absurd ha (not_lt.mpr h)
  · exact absurd hb (not_lt.mpr h)

/-- A span inside another has the full ratio to it. -/
theorem ratio_eq_one_of_subset {a b : K × K} (hb : b.1 < b.2) (h1 : a.1 ≤ b.1) (h2 : b.2 ≤ a.2) :
    ratio a b = 1 := by
  have hdur : b.2 - b.1 ≤ a.2 - a.1 := by linarith
  have hs : shorter a b = b.2 - b.1 := by
    rw [shorter, duration, duration, min_eq_right hdur]
  have ho : overlap a b = b.2 - b.1 := by
    rw [overlap, min_eq_right h2, max_eq_right h1, max_eq_right (by linarith)]
  rw [ratio, hs, ho, if_pos (by linarith), div_self (by linarith)]

/-- **A span close enough to the first member of a growing group is close enough
to its hull.**  `f` is the member that starts first, `e` the end of the hull. -/
theorem le_overlap_hull {θ : K} (hθ : 0 < θ) (hθ1 : θ ≤ 1) {f w : K × K} {e : K}
    (hf : f.1 < f.2) (hw : w.1 < w.2) (hfw : f.1 ≤ w.1) (he : f.2 ≤ e)
    (h : θ * shorter f w ≤ overlap f w) : θ * shorter (f.1, e) w ≤ overlap (f.1, e) w := by
  have hpos : 0 < overlap f w := lt_of_lt_of_le (mul_pos hθ (shorter_pos_iff.mpr ⟨hf, hw⟩)) h
  have hwf : w.1 < f.2 := (overlap_pos_iff.mp hpos).2.2.1
  rcases le_total w.2 e with hwe | hew
  · -- the span ends inside the hull, which covers it
    have ho : overlap (f.1, e) w = w.2 - w.1 := by
      rw [overlap, min_eq_right hwe, max_eq_right hfw, max_eq_right (by linarith)]
    have hs : shorter (f.1, e) w ≤ w.2 - w.1 := min_le_right _ _
    have hs0 : 0 < shorter (f.1, e) w := shorter_pos_iff.mpr ⟨lt_of_lt_of_le hf he, hw⟩
    calc θ * shorter (f.1, e) w ≤ 1 * shorter (f.1, e) w := by
          exact mul_le_mul_of_nonneg_right hθ1 hs0.le
      _ ≤ overlap (f.1, e) w := by rw [one_mul, ho]; exact hs
  · -- the span ends after the hull: what `f` has in common grows with the hull
    have ho : overlap (f.1, e) w = e - w.1 := by
      rw [overlap, min_eq_left hew, max_eq_right hfw, max_eq_right (by linarith)]
    have hof : overlap f w = f.2 - w.1 := by
      rw [overlap, min_eq_left (le_trans he hew), max_eq_right hfw, max_eq_right (by linarith)]
    rw [hof] at h
    rw [ho]
    rcases le_total (duration f) (duration w) with hd | hd
    · have hs : shorter f w = f.2 - f.1 := min_eq_left hd
      have hsw : shorter (f.1, e) w ≤ e - f.1 := min_le_left _ _
      have h1 : θ * shorter (f.1, e) w ≤ θ * (e - f.1) := mul_le_mul_of_nonneg_left hsw hθ.le
      have h2 : θ * (e - f.2) ≤ 1 * (e - f.2) := mul_le_mul_of_nonneg_right hθ1 (by linarith)
      rw [hs] at h
      linarith
    · have hs : shorter f w = w.2 - w.1 := min_eq_right hd
      have hsw : shorter (f.1, e) w ≤ w.2 - w.1 := min_le_right _ _
      have h1 : θ * shorter (f.1, e) w ≤ θ * (w.2 - w.1) := mul_le_mul_of_nonneg_left hsw hθ.le
      rw [hs] at h
      linarith

/-- **A span too far from the member that ends last is too far from the hull.**
`m` is the member that ends last, `s` the start of the hull. -/
theorem overlap_hull_lt {θ : K} (hθ : 0 < θ) {m w : K × K} {s : K} (hsm : s ≤ m.1)
    (hmw : m.1 ≤ w.1) (h : overlap m w < θ * shorter m w) :
    overlap (s, m.2) w < θ * shorter (s, m.2) w := by
  have ho : overlap (s, m.2) w = overlap m w := by
    rw [overlap, overlap, max_eq_right hmw]
    simp only [max_eq_right (le_trans hsm hmw)]
  have hs : shorter m w ≤ shorter (s, m.2) w := by
    refine min_le_min ?_ le_rfl
    rw [duration, duration]
    linarith
  rw [ho]
  exact lt_of_lt_of_le h (mul_le_mul_of_nonneg_left hs hθ.le)

end Span
end MediaHub

import MediaHub.QaVoting.Defs
import Mathlib.Tactic.IntervalCases
import Mathlib.Tactic.Linarith
import Mathlib.Tactic.NormNum

/-!
# The temperature ladders

Every pass of a transcription starts at a temperature of its own and goes on with the standard
temperatures above it, so that the transcriber can try again where a result looks bad.  The
starts go up to 1, above which there is no temperature left to try again with.

## Main definitions

* `Usable` — what the passes need of their ladders.

## Main results

* `increasing_of_mem_temperatureLadder` — a ladder increases from its start up to 1, for any
  number of passes.
* `usable_iff` — **every pass can try again exactly if there are at most four passes.**
-/

namespace MediaHub
namespace QaVoting

/-- What the passes need of their ladders. -/
structure Usable (passes : ℤ) (ladders : List (List ℚ)) : Prop where
  length : (ladders.length : ℤ) = passes
  increasing : ∀ ladder ∈ ladders, ladder.Pairwise (· < ·)
  within : ∀ ladder ∈ ladders, ∀ t ∈ ladder, 0 ≤ t ∧ t ≤ 1
  last : ∀ ladder ∈ ladders, ladder.getLast? = some 1
  /-- There is a temperature to try again with. -/
  again : ∀ ladder ∈ ladders, 2 ≤ ladder.length
  starts : (ladders.filterMap List.head?).Pairwise (· < ·)

/-! ### One ladder -/

/-- The ladder from a temperature on. -/
def ladderFrom (start : ℚ) : List ℚ :=
  start :: standardFallback.filter fun t => t > start + 1 / 10 ^ 9

/-- `starts`. -/
def startsOf (passes : ℤ) : List ℚ :=
  (List.range passes.toNat).map fun i : ℕ =>
    roundTo 2 (min ((i : ℚ) * min (3 / 10) (1 / ((passes - 1 : ℤ) : ℚ))) 1)

theorem temperatureLadder_eq {passes : ℤ} (h : 1 < passes) :
    temperatureLadder passes = (startsOf passes).map ladderFrom := by
  rw [temperatureLadder, if_neg (not_le.mpr h), startsOf]
  simp only [List.bind_eq_flatMap, List.pure_def, ← List.map_eq_flatMap, List.map_map]
  rfl

/-- A number between 0 and 1 is rounded to hundredths between 0 and 1. -/
theorem roundTo_two {x : ℚ} (h0 : 0 ≤ x) (h1 : x ≤ 1) :
    ∃ n : ℤ, 0 ≤ n ∧ n ≤ 100 ∧ roundTo 2 x = n / 100 := by
  have hfloor : 0 ≤ ⌊x * 10 ^ 2⌋ := Int.floor_nonneg.mpr (by positivity)
  have hle : (⌊x * 10 ^ 2⌋ : ℚ) ≤ x * 10 ^ 2 := Int.floor_le _
  have hbound : x * 10 ^ 2 ≤ 100 := by linarith
  unfold roundTo
  generalize ⌊x * 10 ^ 2⌋ = n at hfloor hle ⊢
  have hhundred : n ≤ 100 := by exact_mod_cast hle.trans hbound
  -- what is rounded up was below 1
  have hup : 1 / 2 ≤ x * 10 ^ 2 - n → n + 1 ≤ 100 := by
    intro hrest
    have hlt : (n : ℚ) < 100 := by linarith
    have hlt : n < 100 := by exact_mod_cast hlt
    omega
  simp only
  split_ifs with hdown hover heven
  · exact ⟨n, hfloor, hhundred, by norm_num⟩
  · exact ⟨n + 1, by omega, hup hover.le, by push_cast; norm_num⟩
  · exact ⟨n, hfloor, hhundred, by norm_num⟩
  · exact ⟨n + 1, by omega, hup (not_lt.mp hdown), by push_cast; norm_num⟩

theorem mem_startsOf {passes : ℤ} {start : ℚ} (h : 1 < passes) (hmem : start ∈ startsOf passes) :
    ∃ n : ℤ, 0 ≤ n ∧ n ≤ 100 ∧ start = n / 100 := by
  obtain ⟨i, -, rfl⟩ := List.mem_map.mp hmem
  have hpos : (0 : ℚ) < ((passes - 1 : ℤ) : ℚ) := by exact_mod_cast sub_pos.mpr h
  have hstep : (0 : ℚ) ≤ min (3 / 10) (1 / ((passes - 1 : ℤ) : ℚ)) :=
    le_min (by norm_num) (one_div_nonneg.mpr hpos.le)
  exact roundTo_two (le_min (mul_nonneg (Nat.cast_nonneg i) hstep) zero_le_one) (min_le_right _ _)

theorem standardFallback_pairwise : standardFallback.Pairwise (· < ·) := by decide +kernel

theorem standardFallback_within : ∀ t ∈ standardFallback, 0 ≤ t ∧ t ≤ 1 := by decide +kernel

/-- A ladder that starts at a number of hundredths increases up to 1. -/
theorem ladderFrom_shape {n : ℤ} (h0 : 0 ≤ n) (h1 : n ≤ 100) :
    (ladderFrom (n / 100)).Pairwise (· < ·) ∧
      (∀ t ∈ ladderFrom (n / 100), 0 ≤ t ∧ t ≤ 1) ∧ (ladderFrom (n / 100)).getLast? = some 1 := by
  have hn0 : (0 : ℚ) ≤ n := by exact_mod_cast h0
  have hn1 : (n : ℚ) ≤ 100 := by exact_mod_cast h1
  refine ⟨?_, ?_, ?_⟩
  · refine List.pairwise_cons.mpr ⟨fun t ht => ?_, standardFallback_pairwise.filter _⟩
    have habove : t > (n : ℚ) / 100 + 1 / 10 ^ 9 := by simpa using (List.mem_filter.mp ht).2
    linarith
  · intro t ht
    rcases List.mem_cons.mp ht with rfl | ht
    · exact ⟨by positivity, by linarith⟩
    · exact standardFallback_within t (List.mem_filter.mp ht).1
  · rcases eq_or_lt_of_le h1 with rfl | hlt
    · decide +kernel
    · -- below 1, the last standard temperature stands at the end
      have hlt : (n : ℚ) ≤ 99 := by exact_mod_cast Int.le_sub_one_of_lt hlt
      have hone : (1 : ℚ) > n / 100 + 1 / 10 ^ 9 := by linarith
      have hladder : ladderFrom (n / 100) = ((n / 100 : ℚ) ::
          standardFallback.dropLast.filter fun t => t > n / 100 + 1 / 10 ^ 9) ++ [1] := by
        have hsplit : standardFallback = standardFallback.dropLast ++ [1] := by decide +kernel
        conv_lhs => rw [ladderFrom, hsplit, List.filter_append, List.filter_singleton,
          decide_eq_true hone]
        rfl
      rw [hladder, List.getLast?_concat]

/-- A ladder increases from its start up to 1, for any number of passes. -/
theorem increasing_of_mem_temperatureLadder {passes : ℤ} {ladder : List ℚ}
    (h : ladder ∈ temperatureLadder passes) :
    ladder.Pairwise (· < ·) ∧ (∀ t ∈ ladder, 0 ≤ t ∧ t ≤ 1) ∧ ladder.getLast? = some 1 := by
  rcases le_or_gt passes 1 with hone | hmany
  · rw [temperatureLadder, if_pos hone, List.mem_singleton] at h
    subst h
    exact ⟨standardFallback_pairwise, standardFallback_within, by decide +kernel⟩
  · rw [temperatureLadder_eq hmany] at h
    obtain ⟨start, hstart, rfl⟩ := List.mem_map.mp h
    obtain ⟨n, h0, h1, rfl⟩ := mem_startsOf hmany hstart
    exact ladderFrom_shape h0 h1

/-- There is one ladder for every pass. -/
theorem length_temperatureLadder {passes : ℤ} (h : 1 ≤ passes) :
    ((temperatureLadder passes).length : ℤ) = passes := by
  rcases eq_or_lt_of_le h with rfl | hmany
  · rfl
  · rw [temperatureLadder_eq hmany, List.length_map, startsOf, List.length_map, List.length_range]
    omega

/-! ### The last pass -/

/-- From five passes on, the last one starts at 1. -/
theorem singleton_mem_temperatureLadder {passes : ℤ} (h : 4 < passes) :
    [1] ∈ temperatureLadder passes := by
  have hmany : 1 < passes := by omega
  have hcast : (4 : ℚ) ≤ ((passes - 1 : ℤ) : ℚ) := by exact_mod_cast Int.le_sub_one_of_lt h
  have hpos : (0 : ℚ) < ((passes - 1 : ℤ) : ℚ) := by linarith
  have hindex : ((passes.toNat - 1 : ℕ) : ℚ) = ((passes - 1 : ℤ) : ℚ) := by
    have hint : ((passes.toNat - 1 : ℕ) : ℤ) = passes - 1 := by omega
    exact_mod_cast hint
  have hstep : min (3 / 10 : ℚ) (1 / ((passes - 1 : ℤ) : ℚ)) = 1 / ((passes - 1 : ℤ) : ℚ) := by
    rw [min_eq_right_iff, div_le_iff₀ hpos]
    linarith
  rw [temperatureLadder_eq hmany]
  refine List.mem_map.mpr ⟨1, List.mem_map.mpr ⟨passes.toNat - 1, ?_, ?_⟩, by decide +kernel⟩
  · rw [List.mem_range]
    omega
  · rw [hstep, hindex, mul_one_div_cancel hpos.ne', min_self]
    decide +kernel

/-- **Every pass gets a usable ladder exactly if there are at most four passes.** -/
theorem usable_iff {passes : ℤ} (h : 1 ≤ passes) :
    Usable passes (temperatureLadder passes) ↔ passes ≤ 4 := by
  constructor
  · intro husable
    by_contra hmany
    have hagain := husable.again [1] (singleton_mem_temperatureLadder (not_le.mp hmany))
    exact absurd hagain (by decide)
  · intro hfew
    refine ⟨length_temperatureLadder h,
      fun ladder hl => (increasing_of_mem_temperatureLadder hl).1,
      fun ladder hl => (increasing_of_mem_temperatureLadder hl).2.1,
      fun ladder hl => (increasing_of_mem_temperatureLadder hl).2.2, ?_, ?_⟩
    all_goals
      interval_cases passes <;> decide +kernel

theorem usable_three : Usable 3 (temperatureLadder 3) := (usable_iff (by decide)).mpr (by decide)

/-- The last of five passes has nothing to try again with. -/
theorem not_usable_five : ¬ Usable 5 (temperatureLadder 5) := by
  intro h
  have hagain : ∀ ladder ∈ temperatureLadder 5, 2 ≤ ladder.length := h.again
  exact absurd hagain (by decide +kernel)

end QaVoting
end MediaHub

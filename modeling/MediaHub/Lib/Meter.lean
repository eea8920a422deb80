import MediaHub.Lib.StepRuns
import Mathlib.Algebra.Order.Group.Defs
import Mathlib.Algebra.Order.Sub.Defs
import Mathlib.Tactic.Abel

/-!
# Meters

A counter grows, and restarts at zero now and then.  A reader remembers what it read last, and
notes by how much the counter is above that, unless it has gone down.  What it notes may be
lost, and so may what it remembers.

## Main definitions

* `Meter` — the counter, what it has counted in all, and what the reader has of it.
* `Meter.above` — what the next reading would note.
* `meterStep` — the counter moves, or is read.

## Main results

* `Meter.Sound.step` — **what is noted never exceeds what has happened.**
* `Meter.Exact.step` — **nothing is left out** where the counter does not restart and nothing
  is lost.
-/

namespace MediaHub

/-- A counter with its reader. -/
structure Meter (τ : Type*) where
  counter : τ
  /-- All that was counted, also before the last restart. -/
  happened : τ
  /-- What the reader remembers. -/
  seen : Option τ
  /-- The sum of what was noted. -/
  noted : τ
  /-- What had happened by the first reading. -/
  first : Option τ

/-- What can happen; a reading may fail to note what it has. -/
inductive MeterLabel (τ : Type*) where
  | grow (g : τ)
  | restart
  | read (notes : Bool)
  | forget

variable {τ : Type*} [AddCommGroup τ] [PartialOrder τ]

section

variable [DecidableLE τ]

/-- By how much the counter is above the last reading, if it has not gone down. -/
def Meter.above (m : Meter τ) : τ :=
  match m.seen with
  | some p => if p ≤ m.counter then m.counter - p else 0
  | none => 0

def meterStep (m : Meter τ) : MeterLabel τ → Option (Meter τ)
  | .grow g =>
    if 0 ≤ g then some { m with counter := m.counter + g, happened := m.happened + g } else none
  | .restart => some { m with counter := 0 }
  | .read notes => some { m with
      seen := some m.counter
      noted := if notes then m.noted + m.above else m.noted
      first := some (m.first.getD m.happened) }
  | .forget => some { m with seen := none }

end

/-- Before the first reading. -/
def Meter.start (counter : τ) : Meter τ := ⟨counter, 0, none, 0, none⟩

variable {m m' : Meter τ} {l : MeterLabel τ}

/-- What is noted has happened, and so has what is above the last reading. -/
structure Meter.Sound (m : Meter τ) : Prop where
  counter : 0 ≤ m.counter
  noted : m.noted ≤ m.happened
  seen : ∀ p, m.seen = some p → 0 ≤ p ∧ m.noted + (m.counter - p) ≤ m.happened

/-- All that has happened since the first reading is noted, or will be with the next one. -/
structure Meter.Exact (m : Meter τ) : Prop where
  first : m.first.isSome = m.seen.isSome
  seen : ∀ p, m.seen = some p → p ≤ m.counter ∧
    ∀ f, m.first = some f → f + m.noted + (m.counter - p) = m.happened
  none : m.seen = none → m.noted = 0

/-- The counter does not restart, and nothing is lost. -/
def MeterLabel.calm : MeterLabel τ → Prop
  | .grow _ | .read true => True
  | .restart | .read false | .forget => False

theorem Meter.sound_start {c : τ} (hc : 0 ≤ c) : (Meter.start c).Sound :=
  ⟨hc, le_rfl, nofun⟩

theorem Meter.exact_start (c : τ) : (Meter.start c).Exact := ⟨rfl, nofun, fun _ => rfl⟩

variable [DecidableLE τ]

/-- What the next reading would note has happened. -/
theorem Meter.Sound.noted_add_above (h : m.Sound) : m.noted + m.above ≤ m.happened := by
  rw [Meter.above]
  cases hseen : m.seen with
  | none => simpa using h.noted
  | some p =>
    by_cases hle : p ≤ m.counter
    · simpa [hle] using (h.seen p hseen).2
    · simpa [hle] using h.noted

variable [IsOrderedAddMonoid τ]

/-- **What is noted never exceeds what has happened.** -/
theorem Meter.Sound.step (h : m.Sound) (hstep : meterStep m l = some m') : m'.Sound := by
  cases l with
  | grow g =>
    obtain ⟨hg, heq⟩ := Option.ite_none_right_eq_some.mp hstep
    cases heq
    refine ⟨add_nonneg h.counter hg, h.noted.trans (le_add_of_nonneg_right hg), ?_⟩
    intro p hp
    obtain ⟨hpos, hle⟩ := h.seen p hp
    refine ⟨hpos, ?_⟩
    calc m.noted + (m.counter + g - p) = m.noted + (m.counter - p) + g := by abel
      _ ≤ m.happened + g := add_le_add_left hle g
  | restart =>
    cases hstep
    refine ⟨le_rfl, h.noted, ?_⟩
    intro p hp
    obtain ⟨hpos, -⟩ := h.seen p hp
    refine ⟨hpos, ?_⟩
    -- the counter is below the last reading now
    calc m.noted + (0 - p) = m.noted - p := by abel
      _ ≤ m.noted := sub_le_self m.noted hpos
      _ ≤ m.happened := h.noted
  | read notes =>
    cases hstep
    have hnoted : (if notes then m.noted + m.above else m.noted) ≤ m.happened := by
      cases notes
      · exact h.noted
      · exact h.noted_add_above
    refine ⟨h.counter, hnoted, ?_⟩
    rintro p ⟨⟩
    refine ⟨h.counter, ?_⟩
    simpa using hnoted
  | forget =>
    cases hstep
    exact ⟨h.counter, h.noted, nofun⟩

/-- **Nothing is left out** where the counter does not restart and nothing is lost. -/
theorem Meter.Exact.step (h : m.Exact) (hl : l.calm) (hstep : meterStep m l = some m') :
    m'.Exact := by
  cases l with
  | grow g =>
    obtain ⟨hg, heq⟩ := Option.ite_none_right_eq_some.mp hstep
    cases heq
    refine ⟨h.first, ?_, h.none⟩
    intro p hp
    obtain ⟨hle, hsum⟩ := h.seen p hp
    refine ⟨hle.trans (le_add_of_nonneg_right hg), ?_⟩
    intro f hf
    calc f + m.noted + (m.counter + g - p) = f + m.noted + (m.counter - p) + g := by abel
      _ = m.happened + g := by rw [hsum f hf]
  | restart => cases hl
  | read notes =>
    cases notes
    · cases hl
    cases hstep
    refine ⟨rfl, ?_, nofun⟩
    rintro p ⟨⟩
    refine ⟨le_rfl, ?_⟩
    rintro f ⟨⟩
    have hfirst := h.first
    cases hseen : m.seen with
    | none =>
      rw [hseen, Option.isSome_none, Option.isSome_eq_false_iff,
        Option.isNone_iff_eq_none] at hfirst
      simp [hfirst, Meter.above, hseen, h.none hseen]
    | some p =>
      rw [hseen, Option.isSome_some, Option.isSome_iff_exists] at hfirst
      obtain ⟨f, hf⟩ := hfirst
      obtain ⟨hle, hsum⟩ := h.seen p hseen
      simp only [hf, Option.getD_some, if_true, Meter.above, hseen, hle, sub_self, add_zero]
      rw [← add_assoc]
      exact hsum f hf
  | forget => cases hl

end MediaHub

import Mathlib.Data.List.Basic

/-!
# Runs of a step function

A step function takes a state and a label to the next state, or to nothing where the
label cannot happen.  What the environment decides is in the labels, so a run is a list
of labels.

## Main definitions

* `runSteps` — the state after a list of labels.
* `AllSteps` — every step of a run meets a condition on the state it is taken in.

## Main results

* `invariant_of_runSteps` — **what every step preserves holds after every run.**
* `invariant_of_allSteps` — the same, where only the steps that meet a condition
  preserve it.
* `allSteps_of_invariant` — a condition on the steps of a run under an invariant.
* `flag_iff_of_runSteps` — what is lost in the steps that do not meet a condition.
* `allSteps_congr` — conditions that are the same in the states of a run hold of the same
  runs.
-/

namespace MediaHub

variable {σ ℓ : Type*}

/-- The state after the labels `ls`, in order. -/
def runSteps (step : σ → ℓ → Option σ) : σ → List ℓ → Option σ
  | s, [] => some s
  | s, l :: ls => (step s l).bind fun s' => runSteps step s' ls

/-- Every step of the run meets `P` in the state in which it is taken. -/
def AllSteps (step : σ → ℓ → Option σ) (P : σ → ℓ → Prop) : σ → List ℓ → Prop
  | _, [] => True
  | s, l :: ls => P s l ∧ ∀ s', step s l = some s' → AllSteps step P s' ls

instance AllSteps.decidable (step : σ → ℓ → Option σ) (P : σ → ℓ → Prop)
    [∀ s l, Decidable (P s l)] : ∀ s ls, Decidable (AllSteps step P s ls)
  | _, [] => inferInstanceAs (Decidable True)
  | s, l :: ls =>
    have := fun s' => AllSteps.decidable step P s' ls
    inferInstanceAs (Decidable (P s l ∧ ∀ s' ∈ step s l, AllSteps step P s' ls))

variable {step : σ → ℓ → Option σ} {s s' : σ} {l : ℓ} {ls : List ℓ}

/-- A condition on the labels alone. -/
theorem allSteps_of_forall {P : ℓ → Prop} (h : ∀ l ∈ ls, P l) :
    AllSteps step (fun _ l => P l) s ls := by
  induction ls generalizing s with
  | nil => trivial
  | cons l ls ih =>
    refine ⟨h l List.mem_cons_self, ?_⟩
    intro s' _
    exact ih fun m hm => h m (List.mem_cons_of_mem _ hm)

@[simp] theorem runSteps_nil : runSteps step s [] = some s := rfl

/-- A run is its first step and the rest. -/
theorem runSteps_cons :
    runSteps step s (l :: ls) = some s' ↔ ∃ t, step s l = some t ∧ runSteps step t ls = some s' :=
  Option.bind_eq_some_iff

/-- **What every step preserves holds after every run.** -/
theorem invariant_of_runSteps {I : σ → Prop}
    (hstep : ∀ s l s', I s → step s l = some s' → I s') (hs : I s)
    (hrun : runSteps step s ls = some s') : I s' := by
  induction ls generalizing s with
  | nil => exact Option.some.inj hrun ▸ hs
  | cons l ls ih =>
    obtain ⟨t, hst, hrest⟩ := runSteps_cons.mp hrun
    exact ih (hstep s l t hs hst) hrest

/-- What the steps that meet `P` preserve holds after every run of such steps. -/
theorem invariant_of_allSteps {I : σ → Prop} {P : σ → ℓ → Prop}
    (hstep : ∀ s l s', I s → P s l → step s l = some s' → I s') (hs : I s)
    (hall : AllSteps step P s ls) (hrun : runSteps step s ls = some s') : I s' := by
  induction ls generalizing s with
  | nil => exact Option.some.inj hrun ▸ hs
  | cons l ls ih =>
    obtain ⟨t, hst, hrest⟩ := runSteps_cons.mp hrun
    exact ih (hstep s l t hs hall.1 hst) (hall.2 t hst) hrest

/-- Where a run meets `P`, it meets what follows from `P` under an invariant. -/
theorem allSteps_of_invariant {I : σ → Prop} {P Q : σ → ℓ → Prop}
    (hstep : ∀ s l s', I s → step s l = some s' → I s') (himp : ∀ s l, I s → P s l → Q s l)
    (hs : I s) (hall : AllSteps step P s ls) : AllSteps step Q s ls := by
  induction ls generalizing s with
  | nil => trivial
  | cons l ls ih =>
    refine ⟨himp s l hs hall.1, ?_⟩
    intro s' hst
    exact ih (hstep s l s' hs hst) (hall.2 s' hst)

/-- What a run can only lose, and loses in the steps that do not meet `P`, it still has at
its end if all its steps meet `P`. -/
theorem flag_iff_of_runSteps {F : σ → Prop} {P : σ → ℓ → Prop}
    (hstep : ∀ s l s', step s l = some s' → (F s' ↔ F s ∧ P s l))
    (hrun : runSteps step s ls = some s') : F s' ↔ F s ∧ AllSteps step P s ls := by
  induction ls generalizing s with
  | nil =>
    cases Option.some.inj hrun
    exact ⟨fun h => ⟨h, trivial⟩, And.left⟩
  | cons l ls ih =>
    obtain ⟨t, hst, hrest⟩ := runSteps_cons.mp hrun
    have hnext : AllSteps step P t ls ↔ ∀ u, step s l = some u → AllSteps step P u ls := by
      simp only [hst, Option.some.injEq, forall_eq']
    rw [ih hrest, hstep s l t hst, and_assoc, hnext]
    exact Iff.rfl

/-- Conditions that are the same wherever the invariant holds are met by the same runs. -/
theorem allSteps_congr {I : σ → Prop} {P Q : σ → ℓ → Prop}
    (hstep : ∀ s, ∀ l ∈ ls, ∀ s', I s → step s l = some s' → I s')
    (hiff : ∀ s, ∀ l ∈ ls, I s → (P s l ↔ Q s l)) (hs : I s) :
    AllSteps step P s ls ↔ AllSteps step Q s ls := by
  induction ls generalizing s with
  | nil => exact Iff.rfl
  | cons l ls ih =>
    have hrest : ∀ s', step s l = some s' → (AllSteps step P s' ls ↔ AllSteps step Q s' ls) := by
      intro s' hst
      refine ih ?_ ?_ (hstep s l List.mem_cons_self s' hs hst)
      · exact fun s m hm => hstep s m (List.mem_cons_of_mem _ hm)
      · exact fun s m hm => hiff s m (List.mem_cons_of_mem _ hm)
    exact and_congr (hiff s l List.mem_cons_self hs)
      (forall_congr' fun s' => imp_congr_right fun hst => hrest s' hst)

end MediaHub

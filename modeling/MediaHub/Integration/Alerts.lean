import MediaHub.Integration.Check
import MediaHub.Lib.StepRuns

/-!
# When the integration check posts

A message is posted when the texts are not those that were saved.  The texts are filled with
details: how long ago a host sent its last log line, what an exception said.  So while the
same links and hosts fail, a message is posted again as often as a detail changes, and the
age of the last log line changes every minute at first, then every hour, then every day.

## Main definitions

* `Saved` — the state file, and the findings it was written for.
* `OnChange` — a run posts only if something else fails than in the last saved run.
* `KeptOnFailure` — a post that fails changes nothing, and the next run posts again.
* `Steady` — the findings of an outage that continues keep their details.

## Main results

* `saved_main` — the state file holds the texts of the findings it was written for.
* `onChange_of_steady` — **when alerts fire on changes only, and that none is lost.**
* `staleHost_posts_twice` — the age of the last log line posts again.
-/

namespace MediaHub
namespace Integration

/-- The state file, and beside it the findings for which it was written. -/
structure Saved where
  last : List String
  found : List Finding
  deriving DecidableEq, Repr

/-- Before the first run. -/
def Saved.fresh : Saved := ⟨[], []⟩

/-- What fails. -/
def failing (found : List Finding) : Finset Failure := (found.flatMap (·.failures)).toFinset

/-- The run writes the state file. -/
def Run.saves (r : Run) (s : Saved) : Bool :=
  !r.dryRun && r.findings.isSome && ((main r s.last).2.isNone || r.delivers)

/-- One run, with the findings that the state file is for. -/
def step (s : Saved) (r : Run) : Option Saved :=
  some ⟨(main r s.last).1, if r.saves s then r.findings.getD [] else s.found⟩

/-- A run posts only if something else fails than in the last run that was saved. -/
def OnChange (s : Saved) (r : Run) : Prop :=
  (main r s.last).2.isSome → failing (r.findings.getD []) ≠ failing s.found

/-- A post that fails leaves the state file as it is, and a next run with the same problems
posts again. -/
def KeptOnFailure (s : Saved) (r : Run) : Prop :=
  (main r s.last).2.isSome → r.delivers = false →
    (main r s.last).1 = s.last ∧
      ∀ r' : Run, r'.dryRun = false → r'.webhook = true →
        r'.findings.map problemsOf = r.findings.map problemsOf →
        (main r' (main r s.last).1).2 = (main r s.last).2

/-- A finding of the run is in the saved run, with the same details. -/
def Continues (found found' : List Finding) : Prop :=
  ∀ f ∈ found, ∃ g ∈ found', f.failures = g.failures ∧ f.details = g.details

/-- While the same links and hosts fail, they fail with the same details. -/
def Steady (s : Saved) (r : Run) : Prop :=
  failing (r.findings.getD []) = failing s.found →
    Continues (r.findings.getD []) s.found ∧ Continues s.found (r.findings.getD [])

instance (found found' : List Finding) : Decidable (Continues found found') :=
  inferInstanceAs (Decidable (∀ _ ∈ _, ∃ _ ∈ _, _))

instance (s : Saved) (r : Run) : Decidable (Steady s r) := inferInstanceAs (Decidable (_ → _))

variable {s s' : Saved} {r : Run} {runs : List Run} {last : List String}

/-- What a run does: nothing, or it tries to post, or it only saves. -/
theorem main_cases (r : Run) (last : List String) :
    ((r.findings = none ∨ r.dryRun = true) ∧ main r last = (last, none)) ∨
    (∃ found, r.findings = some found ∧ r.dryRun = false ∧ problemsOf found ≠ last ∧
      r.webhook = true ∧ main r last = (if r.delivers then problemsOf found else last,
        some (cut 1900 (message (problemsOf found) last)))) ∨
    (∃ found, r.findings = some found ∧ r.dryRun = false ∧
      ¬(problemsOf found ≠ last ∧ r.webhook = true) ∧ main r last = (problemsOf found, none)) := by
  cases hfound : r.findings with
  | none => exact Or.inl ⟨Or.inl rfl, by simp only [main, hfound]⟩
  | some found =>
    cases hdry : r.dryRun with
    | true => exact Or.inl ⟨Or.inr rfl, by simp only [main, hfound, hdry, if_true]⟩
    | false =>
      by_cases hpost : problemsOf found ≠ last ∧ r.webhook = true
      · refine Or.inr (Or.inl ⟨found, rfl, rfl, hpost.1, hpost.2, ?_⟩)
        simp only [main, hfound, hdry, Bool.false_eq_true, if_false, if_pos hpost]
      · refine Or.inr (Or.inr ⟨found, rfl, rfl, hpost, ?_⟩)
        simp only [main, hfound, hdry, Bool.false_eq_true, if_false, if_neg hpost]

/-- The texts of findings that continue are the same. -/
theorem problemsOf_congr {found found' : List Finding} (h : Continues found found')
    (h' : Continues found' found) : problemsOf found = problemsOf found' := by
  have hmem : ∀ {fs gs : List Finding}, Continues fs gs →
      ∀ t ∈ fs.map (·.text), t ∈ gs.map (·.text) := by
    intro fs gs hcont t ht
    obtain ⟨f, hf, rfl⟩ := List.mem_map.mp ht
    obtain ⟨g, hg, hfailures, hdetails⟩ := hcont f hf
    exact List.mem_map.mpr ⟨g, hg, (text_congr hfailures hdetails).symm⟩
  exact sortedSet_congr fun t => ⟨hmem h t, hmem h' t⟩

/-- The state file holds the texts of the findings it was written for. -/
theorem saved_main (h : s.last = problemsOf s.found) (hst : step s r = some s') :
    s'.last = problemsOf s'.found := by
  cases hst
  rcases main_cases r s.last with ⟨hnone | hdry, hmain⟩ | ⟨found, hfound, hdry, -, -, hmain⟩ |
    ⟨found, hfound, hdry, -, hmain⟩
  · simpa [Run.saves, hmain, hnone] using h
  · simpa [Run.saves, hmain, hdry] using h
  · -- it is written for these findings if the post succeeds
    cases hdelivers : r.delivers with
    | true => simp [Run.saves, hmain, hfound, hdry, hdelivers]
    | false => simpa [Run.saves, hmain, hfound, hdry, hdelivers] using h
  · simp [Run.saves, hmain, hfound, hdry]

/-- A run with the details of the saved one posts only on a change. -/
theorem onChange_step (h : s.last = problemsOf s.found) (hsteady : Steady s r) : OnChange s r := by
  intro hpost hsame
  rcases main_cases r s.last with
    ⟨-, hmain⟩ | ⟨found, hfound, -, hne, -, -⟩ | ⟨found, -, -, -, hmain⟩
  · simp [hmain] at hpost
  · rw [Steady, hfound, Option.getD_some] at hsteady
    rw [hfound, Option.getD_some] at hsame
    obtain ⟨hcont, hcont'⟩ := hsteady hsame
    exact hne ((problemsOf_congr hcont hcont').trans h.symm)
  · simp [hmain] at hpost

/-- **A post that fails is not lost.** -/
theorem keptOnFailure (s : Saved) (r : Run) : KeptOnFailure s r := by
  intro hpost hfails
  rcases main_cases r s.last with ⟨-, hmain⟩ | ⟨found, hfound, -, hne, -, hmain⟩ |
    ⟨found, -, -, -, hmain⟩
  · simp [hmain] at hpost
  · rw [hfails, if_neg (by simp)] at hmain
    refine ⟨by rw [hmain], ?_⟩
    intro r' hdry hwebhook hproblems
    rw [hfound, Option.map_some] at hproblems
    obtain ⟨found', hfound', hsame⟩ := Option.map_eq_some_iff.mp hproblems
    rw [hmain]
    simp only [main, hfound', hdry, hwebhook, hsame, Bool.false_eq_true, if_false, hne, ne_eq,
      not_false_eq_true, and_self, if_true]
  · simp [hmain] at hpost

/-- **When alerts fire on changes only, and that none is lost**: if no outage that continues
changes its details, a message is posted only when something else fails, and after a post
that fails the next run posts again. -/
theorem onChange_of_steady (hsteady : AllSteps step Steady .fresh runs) :
    AllSteps step (fun s r => OnChange s r ∧ KeptOnFailure s r) .fresh runs :=
  allSteps_of_invariant (I := fun s => s.last = problemsOf s.found)
    (fun _ _ _ h hst => saved_main h hst)
    (fun s r h hst => ⟨onChange_step h hst, keptOnFailure s r⟩) rfl hsteady

/-- A run that finds all services well, and one host that sent its last log line at time 0. -/
def lastLogAt (now : ℚ) : Run where
  dryRun := false
  webhook := true
  arrs := []
  bazarr := .ok (200, [])
  seerr := .ok []
  immich := .ok ("v3", "v3")
  logs := some (.ok [⟨"r9", some 0, now, now⟩])
  delivers := true

theorem onChange_withinTheHour :
    AllSteps step (fun s r => OnChange s r ∧ KeptOnFailure s r) .fresh
      [lastLogAt 1800, lastLogAt 7200, lastLogAt 10000] :=
  onChange_of_steady (by decide +kernel)

/-- **The age of the last log line posts again**: the same host is silent in both runs. -/
theorem staleHost_posts_twice :
    ¬AllSteps step (fun s r => OnChange s r ∧ KeptOnFailure s r) .fresh
      [lastLogAt 7200, lastLogAt 10800] := by
  rintro ⟨-, hsecond⟩
  have hpost := (hsecond _ rfl).1.1
  exact hpost (by decide +kernel) (by decide +kernel)

end Integration
end MediaHub

import MediaHub.Fleet.StaysReported
import Mathlib.Data.Finset.Dedup

/-!
# Which changes are delivered

A periodic run posts when its problems are not those that the run before wrote down, and
they are written down whether or not the post succeeds.  So what a lost message should have
said is owed until some later run has a reason of its own to post.  A message is cut at 1900
characters, and the problems behind the cut are owed in the same way.

## Main definitions

* `Ledger` — the files, what the last delivered message named, and whether something is owed.
* `Attempted` — a run whose problems differ from what was delivered posts.
* `NotQuietWhileOwed` — a run has a reason of its own to post while something is owed.

## Main results

* `balanced_track` — what is owed is the difference between the files and what was delivered.
* `attempted_iff` — **in which runs every change is attempted.**
-/

namespace MediaHub
namespace Fleet

/-- The files of the script, and beside them what became of its messages. -/
structure Ledger where
  files : Files
  /-- What the last message that was delivered named. -/
  delivered : List String
  /-- When a message was last attempted, it was lost or cut, and what had been delivered by
  then was something else. -/
  owed : Bool
  deriving DecidableEq, Repr

/-- Before the first run. -/
def Ledger.fresh (snap : Option Snapshot) : Ledger := ⟨⟨snap, []⟩, [], false⟩

section

variable (host : Host) (l : Ledger) (a : Answers)

/-- The texts of the problems of a run. -/
def found : List String := (report host a l.files).problems.map (·.text)

/-- What the last delivered message names after the run. -/
def deliveredAfter : List String :=
  if (report host a l.files).post.isSome ∧ a.delivers then
    (report host a l.files).named.map (·.text)
  else l.delivered

/-- One run, with what became of its message. -/
def track : Ledger where
  files := (healthcheck host a l.files).1
  delivered := deliveredAfter host l a
  owed :=
    if (report host a l.files).post.isSome then
      (deliveredAfter host l a).toFinset ≠ (found host l a).toFinset
    else l.owed

def step : Option Ledger := some (track host l a)

/-- If the problems differ from what the last delivered message named, a message is
attempted. -/
def Attempted : Prop :=
  (found host l a).toFinset ≠ l.delivered.toFinset → (report host a l.files).post.isSome

/-- While something is owed, the run has a reason of its own to post. -/
def NotQuietWhileOwed : Prop := l.owed → ¬Quiet host a l.files

instance : Decidable (Attempted host l a) := inferInstanceAs (Decidable (_ → _))

instance : Decidable (NotQuietWhileOwed host l a) := inferInstanceAs (Decidable (_ → _))

end

variable {host : Host} {l : Ledger} {a : Answers} {runs : List Answers}

/-- What is owed is the difference between what was written down and what was delivered. -/
def Balanced (l : Ledger) : Prop := l.owed = decide (l.delivered.toFinset ≠ l.files.last.toFinset)

/-- A message is attempted unless the run is quiet. -/
theorem post_isSome_iff (hwebhook : a.webhook = true) :
    (report host a l.files).post.isSome ↔ ¬Quiet host a l.files := by
  simp only [report, hwebhook, and_true]
  split
  · next h => simpa using h
  · next h => simpa using h

/-- The problems that are written down are those that were found. -/
theorem toFinset_current : (current host a l.files.snap).toFinset = (found host l a).toFinset := by
  ext text
  simp [current, found, report]

/-- The books balance after every run. -/
theorem balanced_track (hwebhook : a.webhook = true) (h : Balanced l) :
    Balanced (track host l a) := by
  rw [Balanced]
  show (track host l a).owed = decide ((deliveredAfter host l a).toFinset
    ≠ (current host a l.files.snap).toFinset)
  rw [toFinset_current]
  by_cases hpost : (report host a l.files).post.isSome
  · simp only [track, if_pos hpost]
  · -- nothing was attempted, so the problems are those that were written down before
    have hquiet : Quiet host a l.files := not_not.mp ((post_isSome_iff hwebhook).not.mp hpost)
    have hlast : (found host l a).toFinset = l.files.last.toFinset := by
      rw [← toFinset_current, hquiet.2.2]
    simp only [track, deliveredAfter, hpost, hlast]
    exact h

/-- In one run: the change is attempted if the run is not quiet while something is owed. -/
theorem attempted_step_iff (hwebhook : a.webhook = true) (h : Balanced l) :
    Attempted host l a ↔ NotQuietWhileOwed host l a := by
  rw [Attempted, NotQuietWhileOwed, post_isSome_iff hwebhook]
  constructor
  · intro hattempted howed hquiet
    refine hattempted ?_ hquiet
    rw [h] at howed
    rw [← toFinset_current, hquiet.2.2]
    exact (of_decide_eq_true howed).symm
  · intro hnot hdiffers hquiet
    refine hnot ?_ hquiet
    rw [h]
    refine decide_eq_true ?_
    rw [← toFinset_current, hquiet.2.2] at hdiffers
    exact hdiffers.symm

/-- **In which runs every change is attempted**: those that are never quiet while a message
is owed. -/
theorem attempted_iff (snap : Option Snapshot) (hwebhook : ∀ a ∈ runs, a.webhook = true) :
    AllSteps (step host) (Attempted host) (.fresh snap) runs ↔
      AllSteps (step host) (NotQuietWhileOwed host) (.fresh snap) runs := by
  refine allSteps_congr (I := Balanced) ?_ ?_ rfl
  · rintro l a ha l' hl ⟨⟩
    exact balanced_track (hwebhook a ha) hl
  · exact fun l a ha hl => attempted_step_iff (hwebhook a ha) hl

/-- A run with an endpoint that does not answer, and a post that fails. -/
def endpointDown (delivers : Bool) : Answers :=
  { nothingRuns with httpCode := fun _ => "000", delivers := delivers }

theorem attempted_afterRecovery :
    AllSteps (step (hostOf "mediahub-staging")) (Attempted (hostOf "mediahub-staging"))
      (.fresh none) [endpointDown false, nothingRuns, endpointDown true, endpointDown true] := by
  refine (attempted_iff none ?_).mpr (by decide +kernel)
  simp [endpointDown, nothingRuns]

/-- **A lost message is not made up for**: the second run finds the same problem, and posts
nothing. -/
theorem endpointDown_never_posted :
    ¬AllSteps (step (hostOf "mediahub-staging")) (Attempted (hostOf "mediahub-staging"))
      (.fresh none) [endpointDown false, endpointDown true] := by
  decide +kernel

end Fleet
end MediaHub

import MediaHub.Lib.StepRuns
import Mathlib.Algebra.BigOperators.Group.List.Basic
import Mathlib.Algebra.GroupWithZero.Nat
import Mathlib.Data.List.Basic

/-!
# The daily digest

`scripts/permissions-digest-send.sh` takes the lines that the runs of the monitor have added
to the digest file, and sends their total.  It empties the file before it sends, and puts the
lines back if it could not send them; both under the lock that the monitor holds for as long
as it runs.  The lock may not come free in time, and the second time that means that the
lines are gone.

Any number of runs of both scripts go on at once.  Whoever holds the lock is the only one to
touch the file, so what a run has got from the file belongs to the lock.

## Main definitions

* `Line`, `total` — the lines of the digest file, and the count that they make.
* `Holder`, `Phase` — what is done under the lock, and where a digest run is otherwise.
* `step` — one step of one of the runs.
* `Clear` — no run gives up on the lines it has to put back.

## Main results

* `inv_step` — where every count is, at every step.
* `conserved_iff` — **when the digest conserves the counts.**
* `lost_by_timeout` — a digest that is lost.
-/

namespace MediaHub
namespace Permissions

namespace Digest

/-- A line that a run of the monitor adds: when, and how many files. -/
structure Line where
  ts : String
  count : ℕ
  deriving DecidableEq, Repr

/-- `total_count`. -/
def total (lines : List Line) : ℕ := (lines.map (·.count)).sum

@[simp] theorem total_nil : total [] = 0 := rfl

@[simp] theorem total_append (lines lines' : List Line) :
    total (lines ++ lines') = total lines + total lines' := by
  simp [total]

/-- What is sent. -/
structure Message where
  totalCount : ℕ
  runCount : ℕ
  firstTs : String
  lastTs : String
  deriving DecidableEq, Repr

/-- The message for some lines. -/
def message (lines : List Line) : Message where
  totalCount := total lines
  runCount := lines.length
  firstTs := (lines.head?.map (·.ts)).getD ""
  lastTs := (lines.getLast?.map (·.ts)).getD ""

/-- Who holds the lock, and what it has done so far. -/
inductive Holder where
  | monitor
  /-- A digest run copies the file, and empties it. -/
  | snapshot (run : ℕ) (copy : Option (List Line))
  /-- A digest run puts the lines ahead of the file. -/
  | putBack (run : ℕ) (lines : List Line) (merged : Option (List Line))
  deriving DecidableEq, Repr

/-- Where a digest run is. -/
inductive Phase where
  /-- It waits for the lock. -/
  | waiting
  /-- It holds the lock. -/
  | inside
  | sending (lines : List Line)
  /-- It could not send, and waits for the lock again. -/
  | failed (lines : List Line)
  | finished
  deriving DecidableEq, Repr

/-- All runs, and the file. -/
structure State where
  file : List Line
  lock : Option Holder
  /-- The digest runs, in the order in which they were started. -/
  runs : List Phase
  /-- The counts that the monitor has added. -/
  appended : ℕ
  /-- The totals of the digests that were sent. -/
  sent : ℕ
  /-- The counts that were given up. -/
  lost : ℕ
  deriving DecidableEq, Repr

/-- Before the first run. -/
def State.start : State := ⟨[], none, [], 0, 0, 0⟩

/-- What happens next. -/
inductive Label where
  /-- A run of the monitor starts; it goes on if it gets the lock at once. -/
  | monitorStarts
  /-- It ends, perhaps with a line for the digest. -/
  | monitorEnds (line : Option Line)
  | digestStarts
  /-- A digest run gets the lock, or has waited for it in vain. -/
  | acquires (run : ℕ)
  | timesOut (run : ℕ)
  /-- The holder executes its next command. -/
  | holder
  | sends (run : ℕ) (success : Bool)
  /-- The same for the lines that are to be put back. -/
  | reacquires (run : ℕ)
  | givesUp (run : ℕ)
  deriving DecidableEq, Repr

/-- A digest run has got this far. -/
def State.to (s : State) (run : ℕ) (phase : Phase) : State :=
  { s with runs := s.runs.set run phase }

/-- The next command of the holder of the lock. -/
def holderStep (s : State) : Option State :=
  match s.lock with
  | some (.snapshot run none) => some { s with lock := some (.snapshot run (some s.file)) }
  | some (.snapshot run (some copy)) =>
    some ({ s with file := [], lock := none }.to run
      (if copy = [] then .finished else .sending copy))
  | some (.putBack run lines none) =>
    some { s with lock := some (.putBack run lines (some (lines ++ s.file))) }
  | some (.putBack run _ (some merged)) =>
    some ({ s with file := merged, lock := none }.to run .finished)
  | _ => none

/-- One step of one of the runs. -/
def step (s : State) : Label → Option State
  | .monitorStarts => some (if s.lock = none then { s with lock := some .monitor } else s)
  | .monitorEnds line =>
    if s.lock = some .monitor then
      some { s with
        file := s.file ++ line.toList
        lock := none
        appended := s.appended + total line.toList }
    else none
  | .digestStarts => some { s with runs := s.runs ++ [.waiting] }
  | .acquires run =>
    if s.runs[run]? = some .waiting ∧ s.lock = none then
      some ({ s with lock := some (.snapshot run none) }.to run .inside)
    else none
  | .timesOut run =>
    if s.runs[run]? = some .waiting ∧ s.lock ≠ none then some (s.to run .finished) else none
  | .holder => holderStep s
  | .sends run success =>
    match s.runs[run]? with
    | some (.sending lines) =>
      some (if success then { s with sent := s.sent + (message lines).totalCount }.to run .finished
        else s.to run (.failed lines))
    | _ => none
  | .reacquires run =>
    match s.runs[run]? with
    | some (.failed lines) =>
      if s.lock = none then some ({ s with lock := some (.putBack run lines none) }.to run .inside)
      else none
    | _ => none
  | .givesUp run =>
    match s.runs[run]? with
    | some (.failed lines) =>
      if s.lock ≠ none then some ({ s with lost := s.lost + total lines }.to run .finished)
      else none
    | _ => none

/-- No digest run is under way. -/
def Quiet (s : State) : Prop := ∀ phase ∈ s.runs, phase = .finished

/-- The counts that a digest run has to send. -/
def Phase.inFlight : Phase → ℕ
  | .sending lines | .failed lines => total lines
  | _ => 0

@[simp] theorem inFlight_waiting : Phase.waiting.inFlight = 0 := rfl
@[simp] theorem inFlight_inside : Phase.inside.inFlight = 0 := rfl
@[simp] theorem inFlight_sending (lines : List Line) :
    (Phase.sending lines).inFlight = total lines := rfl
@[simp] theorem inFlight_failed (lines : List Line) :
    (Phase.failed lines).inFlight = total lines := rfl
@[simp] theorem inFlight_finished : Phase.finished.inFlight = 0 := rfl

/-- The counts that the digest runs have to send. -/
def inFlight (runs : List Phase) : ℕ := (runs.map (·.inFlight)).sum

/-- The counts that are being put back. -/
def lockInFlight : Option Holder → ℕ
  | some (.putBack _ lines _) => total lines
  | _ => 0

@[simp] theorem lockInFlight_none : lockInFlight none = 0 := rfl

/-- No run gives up on counts that it has to put back. -/
def Clear (s : State) (l : Label) : Prop :=
  ∀ run, l = .givesUp run → (s.runs[run]?.map (·.inFlight)).getD 0 = 0

/-! ### Where every count is -/

/-- What the holder of the lock has got from the file is what is in the file. -/
def Holder.Holds (file : List Line) (runs : List Phase) : Holder → Prop
  | .monitor => True
  | .snapshot run copy => runs[run]? = some .inside ∧ ∀ lines ∈ copy, lines = file
  | .putBack run lines merged => runs[run]? = some .inside ∧ ∀ all ∈ merged, all = lines ++ file

/-- Every count that was added was sent, or is in the file, or in flight, or was given up. -/
structure Inv (s : State) : Prop where
  holds : ∀ h ∈ s.lock, h.Holds s.file s.runs
  counts : s.appended = s.sent + s.lost + total s.file + lockInFlight s.lock + inFlight s.runs

variable {s s' : State} {l : Label} {ls : List Label} {run : ℕ} {phase phase' : Phase}

/-- A run that gets further changes the sum by its own counts. -/
theorem sum_set {runs : List Phase} (phase' : Phase) (h : runs[run]? = some phase) :
    inFlight (runs.set run phase') + phase.inFlight = inFlight runs + phase'.inFlight := by
  unfold inFlight
  induction runs generalizing run with
  | nil => simp at h
  | cons p runs ih =>
    cases run with
    | zero =>
      obtain rfl : p = phase := by simpa using h
      simp only [List.set_cons_zero, List.map_cons, List.sum_cons]
      omega
    | succ run =>
      have := ih (by simpa using h)
      simp only [List.set_cons_succ, List.map_cons, List.sum_cons]
      omega

/-- The holder of the lock does not mind the other runs. -/
theorem Holder.Holds.set {file : List Line} {runs : List Phase} {h : Holder}
    (hh : h.Holds file runs) (hrun : runs[run]? = some phase) (hphase : phase ≠ .inside) :
    h.Holds file (runs.set run phase') := by
  have hinside : ∀ i : ℕ, runs[i]? = some Phase.inside →
      (runs.set run phase')[i]? = some Phase.inside := by
    intro i hi
    rw [List.getElem?_set_ne, hi]
    rintro rfl
    exact hphase (Option.some.inj (hrun.symm.trans hi))
  cases h with
  | monitor => trivial
  | snapshot i copy => exact ⟨hinside i hh.1, hh.2⟩
  | putBack i lines merged => exact ⟨hinside i hh.1, hh.2⟩

/-- Nor does it mind a new run behind them. -/
theorem Holder.Holds.append {file : List Line} {runs : List Phase} {h : Holder}
    (hh : h.Holds file runs) (phase : Phase) : h.Holds file (runs ++ [phase]) := by
  have hinside : ∀ i : ℕ, runs[i]? = some Phase.inside →
      (runs ++ [phase])[i]? = some Phase.inside := by
    intro i hi
    rw [List.getElem?_append_left (List.getElem?_eq_some_iff.mp hi).1, hi]
  cases h with
  | monitor => trivial
  | snapshot i copy => exact ⟨hinside i hh.1, hh.2⟩
  | putBack i lines merged => exact ⟨hinside i hh.1, hh.2⟩

theorem inv_holderStep (h : Inv s) (hst : holderStep s = some s') : Inv s' := by
  obtain ⟨file, lock, runs, appended, sent, lost⟩ := s
  obtain ⟨hholds, hcounts⟩ := h
  simp only at hholds hcounts
  simp only [holderStep] at hst
  split at hst
  · next run =>
    -- the file is copied
    cases hst
    obtain ⟨hinside, -⟩ := hholds _ rfl
    refine ⟨?_, hcounts⟩
    rintro h ⟨⟩
    exact ⟨hinside, by simp⟩
  · next run copy =>
    -- the file is emptied
    cases hst
    obtain ⟨hinside, hcopy⟩ := hholds _ rfl
    obtain rfl := hcopy copy rfl
    refine ⟨by simp [State.to], ?_⟩
    have hsum := sum_set (if copy = [] then .finished else .sending copy) hinside
    have hphase : (if copy = [] then Phase.finished else .sending copy).inFlight = total copy := by
      split
      · next hnil => rw [hnil]; rfl
      · rfl
    rw [hphase, inFlight_inside] at hsum
    simp only [State.to, lockInFlight, total_nil] at hcounts ⊢
    omega
  · next run lines =>
    -- the lines are put ahead of a copy of the file
    cases hst
    obtain ⟨hinside, -⟩ := hholds _ rfl
    refine ⟨?_, hcounts⟩
    rintro h ⟨⟩
    exact ⟨hinside, by simp⟩
  · next run lines merged =>
    -- and the copy becomes the file
    cases hst
    obtain ⟨hinside, hmerged⟩ := hholds _ rfl
    obtain rfl := hmerged merged rfl
    refine ⟨by simp [State.to], ?_⟩
    have hsum := sum_set .finished hinside
    rw [inFlight_inside, inFlight_finished] at hsum
    simp only [State.to, lockInFlight, total_append] at hcounts ⊢
    omega
  · cases hst

/-- A digest run that gets further outside the lock. -/
theorem inv_to (h : Inv s) (hrun : s.runs[run]? = some phase) (hphase : phase ≠ .inside)
    {sent lost : ℕ} (hcounts : sent + lost + phase'.inFlight = s.sent + s.lost + phase.inFlight) :
    Inv ({ s with sent := sent, lost := lost }.to run phase') := by
  constructor
  · intro holder hholder
    exact (h.holds holder hholder).set hrun hphase
  · have hsum := sum_set phase' hrun
    have hall := h.counts
    simp only [State.to] at hall ⊢
    omega

/-- A digest run that gets the lock. -/
theorem inv_lock (h : Inv s) (hrun : s.runs[run]? = some phase) (hlock : s.lock = none)
    {holder : Holder} (hholder : ∀ runs : List Phase, runs[run]? = some .inside →
      holder.Holds s.file runs) (hcounts : lockInFlight (some holder) = phase.inFlight) :
    Inv ({ s with lock := some holder }.to run .inside) := by
  constructor
  · rintro h ⟨⟩
    exact hholder _ (List.getElem?_set_self (List.getElem?_eq_some_iff.mp hrun).1)
  · have hsum := sum_set .inside hrun
    have hall := h.counts
    rw [hlock] at hall
    simp only [State.to, hcounts, inFlight_inside, lockInFlight_none] at hall hsum ⊢
    omega

/-- **Where every count is, at every step.** -/
theorem inv_step (h : Inv s) (hst : step s l = some s') : Inv s' := by
  cases l with
  | monitorStarts =>
    cases hst
    split
    · next hlock =>
      refine ⟨?_, by simpa [hlock, lockInFlight] using h.counts⟩
      rintro holder ⟨⟩
      trivial
    · exact h
  | monitorEnds line =>
    simp only [step] at hst
    split at hst
    · next hlock =>
      cases hst
      refine ⟨by simp, ?_⟩
      have hall := h.counts
      simp only [hlock, lockInFlight, total_append] at hall ⊢
      omega
    · cases hst
  | digestStarts =>
    cases hst
    -- the new run has no counts yet
    exact ⟨fun holder hholder => (h.holds holder hholder).append _,
      by simpa [inFlight] using h.counts⟩
  | acquires run =>
    simp only [step] at hst
    split at hst
    · next hguard =>
      cases hst
      exact inv_lock h hguard.1 hguard.2 (fun runs hi => ⟨hi, by simp⟩) rfl
    · cases hst
  | timesOut run =>
    simp only [step] at hst
    split at hst
    · next hguard =>
      cases hst
      exact inv_to h hguard.1 (by simp) rfl
    · cases hst
  | holder => exact inv_holderStep h hst
  | sends run success =>
    simp only [step] at hst
    split at hst
    · next lines hrun =>
      cases success with
      | true =>
        -- the message has the total of the lines
        cases hst
        exact inv_to h hrun (by simp) (by simp [message]; omega)
      | false =>
        -- the lines are still to be put back
        cases hst
        exact inv_to h hrun (by simp) rfl
    · cases hst
  | reacquires run =>
    simp only [step] at hst
    split at hst
    · next lines hrun =>
      split at hst
      · next hlock =>
        cases hst
        exact inv_lock h hrun hlock (fun runs hi => ⟨hi, by simp⟩) rfl
      · cases hst
    · cases hst
  | givesUp run =>
    simp only [step] at hst
    split at hst
    · next lines hrun =>
      split at hst
      · -- the lines that are given up are counted as lost
        cases hst
        exact inv_to h hrun (by simp) (by simp; omega)
      · cases hst
    · cases hst

/-- Counts are given up in the steps that are not clear. -/
theorem lost_step (hst : step s l = some s') : s'.lost = 0 ↔ s.lost = 0 ∧ Clear s l := by
  cases l with
  | givesUp run =>
    simp only [step] at hst
    split at hst
    · next lines hrun =>
      split at hst
      · cases hst
        simp [Clear, State.to, hrun]
      · cases hst
    · cases hst
  | holder =>
    have hlost : s'.lost = s.lost := by
      simp only [step, holderStep] at hst
      split at hst <;> cases hst <;> rfl
    simp [Clear, hlost]
  | monitorStarts =>
    have hlost : s'.lost = s.lost := by
      cases hst
      split <;> rfl
    simp [Clear, hlost]
  | sends run success =>
    have hlost : s'.lost = s.lost := by
      simp only [step] at hst
      split at hst
      · cases success <;> (cases hst; rfl)
      · cases hst
    simp [Clear, hlost]
  | digestStarts =>
    cases hst
    simp [Clear]
  | monitorEnds | acquires | timesOut =>
    have hlost : s'.lost = s.lost := by
      simp only [step] at hst
      split at hst
      · cases hst
        rfl
      · cases hst
    simp [Clear, hlost]
  | reacquires =>
    have hlost : s'.lost = s.lost := by
      simp only [step] at hst
      split at hst
      · split at hst
        · cases hst
          rfl
        · cases hst
      · cases hst
    simp [Clear, hlost]

/-- When no digest run is under way, nothing is in flight. -/
theorem conserved_of_quiet (h : Inv s) (hquiet : Quiet s) :
    s.appended = s.sent + s.lost + total s.file := by
  have hruns : inFlight s.runs = 0 := by
    refine List.sum_eq_zero ?_
    intro n hn
    obtain ⟨phase, hphase, rfl⟩ := List.mem_map.mp hn
    rw [hquiet phase hphase]
    rfl
  have hlock : lockInFlight s.lock = 0 := by
    -- a run that holds the lock is under way
    cases hlock : s.lock with
    | none => rfl
    | some holder =>
      have hholds := h.holds holder hlock
      cases holder with
      | monitor => rfl
      | snapshot run copy => rfl
      | putBack run lines merged =>
        exact absurd (hquiet _ (List.mem_of_getElem? hholds.1)) (by simp)
  have hall := h.counts
  omega

/-- **When the digest conserves the counts**: whenever no digest run is under way, what the
monitor added was sent or is in the file, exactly if no run has given up on counts that it
had to put back. -/
theorem conserved_iff (hrun : runSteps step .start ls = some s') (hquiet : Quiet s') :
    s'.appended = s'.sent + total s'.file ↔ AllSteps step Clear .start ls := by
  have hinv : Inv s' := by
    refine invariant_of_runSteps (fun _ _ _ => inv_step) ?_ hrun
    exact ⟨by simp [State.start], rfl⟩
  have hlost := flag_iff_of_runSteps (F := fun s => s.lost = 0) (fun _ _ _ => lost_step) hrun
  rw [State.start] at hlost ⊢
  simp only [true_and] at hlost
  rw [← hlost, conserved_of_quiet hinv hquiet]
  omega

/-- The monitor finds some files. -/
def finds (count : ℕ) : List Label := [.monitorStarts, .monitorEnds (some ⟨"2026-09-25", count⟩)]

/-- A digest run up to its attempt to send. -/
def digestTo (success : Bool) : List Label :=
  [.digestStarts, .acquires 0, .holder, .holder, .sends 0 success]

theorem conserved_whenPutBack :
    (3 : ℕ) + 2 = 0 + total [⟨"2026-09-25", 3⟩, ⟨"2026-09-25", 2⟩] := by
  have hrun : runSteps step .start (finds 3 ++ digestTo false ++ finds 2 ++
      [.reacquires 0, .holder, .holder])
        = some ⟨[⟨"2026-09-25", 3⟩, ⟨"2026-09-25", 2⟩], none, [.finished], 5, 0, 0⟩ := by
    decide +kernel
  refine (conserved_iff hrun (by simp [Quiet])).mpr ?_
  simp [AllSteps, Clear, finds, digestTo]

/-- **A digest that is lost**: it could not be sent, and when it is to be put back the next
run of the monitor holds the lock for too long. -/
theorem lost_by_timeout :
    runSteps step .start (finds 3 ++ digestTo false ++
        [.monitorStarts, .givesUp 0, .monitorEnds none])
      = some ⟨[], none, [.finished], 3, 0, 3⟩ ∧ 3 ≠ 0 + total [] := by
  constructor
  · decide +kernel
  · decide

end Digest

end Permissions
end MediaHub

import MediaHub.Permissions.ApplyFix

/-!
# What the queue misses

The monitor enters a path in the list of seen files before it decides whether to queue it,
and a path that is in the list is not looked at again.  So a file that was readable again
when it was looked at, or of mode 777, is passed over for good, until it is fixed by name.

Between the runs the files change as they like: what `find` and `stat` see, and the modes
at the end of a run, are part of the step.

## Main definitions

* `History` — the two files, and the paths that were passed over.
* `Queued` — what is unreadable from `find` to the end of a run is in the queue.
* `Watched` — no such path has been passed over.

## Main results

* `inv_step` — a path that was seen is in the queue or was passed over.
* `queued_iff` — **in which histories every unreadable file is queued.**
* `flipped_again` — a file that is passed over once is never queued.
-/

namespace MediaHub
namespace Permissions

/-- The two files, and beside them the paths that were passed over and not fixed since. -/
structure History where
  files : Files
  passed : List Path
  deriving DecidableEq, Repr

/-- Before the first run. -/
def History.start : History := ⟨⟨[], []⟩, []⟩

/-- What happens to the files. -/
inductive Event where
  /-- The monitor runs, and leaves the files with some modes. -/
  | monitor (scan : Scan) (endMode : Path → Option ℕ)
  /-- A fix run makes some files readable. -/
  | fix (fixed : List Path)

/-- The run queues the new file `f` in one of its turns. -/
def queues (scan : Scan) (seen : List Path) (f : Path) : Bool :=
  (newFiles scan seen).zipIdx.any fun p => p.1 = f && !passedOver scan f (scan.nowMode p.2)

namespace History

/-- The next run. -/
def step (h : History) : Event → Option History
  | .monitor scan _ => some
      ⟨monitorRun scan h.files, h.passed ++
        (newFiles scan h.files.seen).filter fun f => !queues scan h.files.seen f⟩
  | .fix fixed => some ⟨rewritten fixed h.files, h.passed.filter (kept fixed)⟩

end History

/-- The file is there, and its owner cannot read it. -/
def unreadable (mode : Option ℕ) : Bool := mode.any fun m => !ownerReadable m

/-- Every file that its owner could not read when `find` saw it, and cannot read at the end of
the run, is in the queue. -/
def Queued (h : History) : Event → Prop
  | .monitor scan endMode => ∀ f ∈ scan.bad000, unreadable (endMode f) →
      f ∈ (monitorRun scan h.files).pending
  | .fix _ => True

/-- No such file was passed over before, and if it is new, one of its turns does not find it
readable. -/
def Watched (h : History) : Event → Prop
  | .monitor scan endMode => ∀ f ∈ scan.bad000, unreadable (endMode f) →
      f ∉ h.passed ∧ (f ∉ h.files.seen →
        ∃ i, (newFiles scan h.files.seen)[i]? = some f ∧ (scan.nowMode i).any ownerReadable = false)
  | .fix _ => True

/-- What was seen is in the queue or was passed over. -/
structure Inv (h : History) : Prop where
  seen_of_pending : ∀ f ∈ h.files.pending, f ∈ h.files.seen
  mem_passed : ∀ f, f ∈ h.passed ↔ f ∈ h.files.seen ∧ f ∉ h.files.pending

variable {h h' : History} {scan : Scan} {seen : List Path} {f : Path} {now : Option ℕ}

/-! ### The turns of a run -/

/-- A file that `find` saw unreadable is passed over if it is readable again. -/
theorem passedOver_of_bad000 (hf : f ∈ scan.bad000) :
    passedOver scan f now = now.any ownerReadable := by
  rw [passedOver, decide_eq_true hf, Bool.true_and]
  by_cases h777 : now = some 0o777
  · rw [h777]
    rfl
  · rw [decide_eq_false h777, Bool.or_false]

theorem queues_iff : queues scan seen f = true ↔
    ∃ i, (newFiles scan seen)[i]? = some f ∧ passedOver scan f (scan.nowMode i) = false := by
  rw [queues, List.any_eq_true]
  constructor
  · rintro ⟨⟨g, i⟩, hg, hqueued⟩
    rw [Bool.and_eq_true, decide_eq_true_eq, Bool.not_eq_true'] at hqueued
    obtain ⟨rfl, hpassed⟩ := hqueued
    exact ⟨i, List.mk_mem_zipIdx_iff_getElem?.mp hg, hpassed⟩
  · rintro ⟨i, hi, hpassed⟩
    exact ⟨(f, i), List.mk_mem_zipIdx_iff_getElem?.mpr hi, by simp [hpassed]⟩

/-- What is queued is new. -/
theorem not_mem_of_queues (hq : queues scan seen f = true) : f ∈ newFiles scan seen ∧ f ∉ seen := by
  obtain ⟨i, hi, -⟩ := queues_iff.mp hq
  have hnew := List.mem_of_getElem? hi
  exact ⟨hnew, (mem_newFiles.mp hnew).2⟩

theorem mem_pending_iff_queues {files : Files} :
    f ∈ (monitorRun scan files).pending ↔ f ∈ files.pending ∨ queues scan files.seen f = true := by
  rw [mem_pending_monitorRun, queues_iff]

/-! ### Histories -/

/-- What was seen is in the queue or was passed over, after every run. -/
theorem inv_step {e : Event} (hinv : Inv h) (hst : h.step e = some h') : Inv h' := by
  cases e with
  | monitor scan endMode =>
    cases hst
    constructor
    · intro f hf
      rcases mem_pending_iff_queues.mp hf with hf | hf
      · exact mem_seen_monitorRun.mpr (Or.inl (hinv.seen_of_pending f hf))
      · exact mem_seen_monitorRun.mpr (Or.inr (not_mem_of_queues hf).1)
    · intro f
      simp only [List.mem_append, List.mem_filter, hinv.mem_passed, mem_seen_monitorRun,
        mem_pending_iff_queues, Bool.not_eq_true']
      by_cases hseen : f ∈ h.files.seen
      · -- a file that was seen is not new, so nothing changes for it
        have hnew : f ∉ newFiles scan h.files.seen := fun hf => (mem_newFiles.mp hf).2 hseen
        have hq : queues scan h.files.seen f ≠ true := fun hq => (not_mem_of_queues hq).2 hseen
        simp [hseen, hnew, hq]
      · have hpending : f ∉ h.files.pending := fun hf => hseen (hinv.seen_of_pending f hf)
        simp [hseen, hpending]
  | fix fixed =>
    cases hst
    constructor
    · intro f hf
      obtain ⟨hf, hkept⟩ := List.mem_filter.mp hf
      exact List.mem_filter.mpr ⟨hinv.seen_of_pending f hf, hkept⟩
    · intro f
      simp only [rewritten, List.mem_filter, hinv.mem_passed]
      tauto

/-- In one run: the unreadable files are queued if none was passed over. -/
theorem queued_step_iff {e : Event} (hinv : Inv h) : Queued h e ↔ Watched h e := by
  cases e with
  | fix fixed => exact Iff.rfl
  | monitor scan endMode =>
    refine forall_congr' fun f => forall_congr' fun hf => imp_congr_right fun _ => ?_
    rw [mem_pending_iff_queues, hinv.mem_passed]
    by_cases hseen : f ∈ h.files.seen
    · have hq : queues scan h.files.seen f ≠ true := fun hq => (not_mem_of_queues hq).2 hseen
      simp [hseen, hq]
    · have hpending : f ∉ h.files.pending := fun hf => hseen (hinv.seen_of_pending f hf)
      simp only [hseen, hpending, queues_iff, passedOver_of_bad000 hf, false_or, false_and,
        not_false_eq_true, true_and, true_imp_iff]

/-- **In which histories every unreadable file is queued**: those in which no file that stays
unreadable to the end of a run was passed over, then or before. -/
theorem queued_iff (es : List Event) :
    AllSteps History.step Queued .start es ↔ AllSteps History.step Watched .start es := by
  refine allSteps_congr (I := Inv) ?_ ?_ ?_
  · exact fun h e _ h' hinv hst => inv_step hinv hst
  · exact fun h e _ hinv => queued_step_iff hinv
  · constructor <;> simp [History.start]

/-- A run that finds one file, with some mode when it is looked at and afterwards. -/
def findsOne (now : ℕ) : Event :=
  .monitor ⟨[⟨"/mnt/media/a.srt", true, 0⟩], [], fun _ => some now⟩ fun _ => some now

/-- **A file that is passed over once is never queued**: it was being written when it was
first found, and now it is unreadable. -/
theorem flipped_again :
    ¬AllSteps History.step Queued .start [findsOne 0o644, findsOne 0] := by
  rintro ⟨-, hsecond⟩
  have hpending := (hsecond _ rfl).1 "/mnt/media/a.srt" (by decide +kernel) (by decide +kernel)
  exact absurd hpending (by decide +kernel)

end Permissions
end MediaHub

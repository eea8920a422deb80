import MediaHub.Mounts.Ensure
import Mathlib.Data.Nat.Bitwise

/-!
# The permissions monitor

`scripts/permissions-monitor.sh`: a run looks for files that their owner cannot read, and
for files of mode 777.  Those it has not seen before are entered in the list of seen files,
and then, unless they turn out to be readable again or are of mode 777, in the queue of
files to be fixed.  A path is a line of these files: it holds no line break.

## Main definitions

* `Entry`, `find000`, `find777` — what `find` walks over, and what it prints.
* `Scan` — what the commands of a run see.
* `Append`, `appends` — the lines that a run adds to the two files, in order.
* `monitorRun` — a run that nothing interrupts.

## Main results

* `mem_pending_monitorRun`, `seen_monitorRun` — what a run adds to the two files.
* `length_seen_of_digestCount` — the number for the digest is that of the files entered.
-/

namespace MediaHub
namespace Permissions

open Mounts (under)

/-- A path, which is a line of the state files. -/
abbrev Path := String

def mediaRoot : Path := "/mnt/media"

/-- What `find` leaves out. -/
def canary : Path := mediaRoot ++ "/.permissions-canary"

def burstThreshold : ℕ := 50

/-- `u+r`, for the permission bits of a file. -/
def ownerReadable (mode : ℕ) : Bool := mode.testBit 8

example : ownerReadable 0o400 = true ∧ ownerReadable 0o377 = false := by decide

/-- What `find` walks over. -/
structure Entry where
  path : Path
  /-- `-type f`. -/
  regular : Bool
  mode : ℕ
  deriving DecidableEq, Repr

/-- The files that their owner cannot read, with the mode that `find` saw. -/
def find000 (entries : List Entry) : List Entry :=
  entries.filter fun e => !under canary e.path && e.regular && !ownerReadable e.mode

/-- The files of mode 777. -/
def find777 (entries : List Entry) : List Path :=
  (entries.filter fun e => !under canary e.path && e.regular && e.mode = 0o777).map (·.path)

/-- What the commands of a run see. -/
structure Scan where
  /-- The files as the first `find` meets them. -/
  first : List Entry
  /-- The files as the second one does. -/
  second : List Entry
  /-- The mode that `stat` prints of the new files, in order, if it prints one. -/
  nowMode : ℕ → Option ℕ

/-- `bad_000`. -/
def Scan.bad000 (scan : Scan) : List Path := (find000 scan.first).map (·.path)

/-- `new_files`. -/
def newFiles (scan : Scan) (seen : List Path) : List Path :=
  (scan.bad000 ++ find777 scan.second).filter (· ∉ seen)

/-- The file is not queued: it is readable again, or of mode 777. -/
def passedOver (scan : Scan) (f : Path) (now : Option ℕ) : Bool :=
  (decide (f ∈ scan.bad000) && now.any ownerReadable) || decide (now = some 0o777)

/-- The number that goes to the daily digest, unless there is nothing new, or so much that it
is reported at once. -/
def digestCount (scan : Scan) (seen : List Path) : Option ℕ :=
  let new := newFiles scan seen
  if new = [] ∨ burstThreshold ≤ (new.filter (· ∈ scan.bad000)).length then none
  else some new.length

/-! ### The two files -/

/-- The list of seen files, and the queue. -/
structure Files where
  seen : List Path
  pending : List Path
  deriving DecidableEq, Repr

/-- A line that is added. -/
inductive Append where
  | seen (f : Path)
  | pending (f : Path)
  deriving DecidableEq, Repr

def Files.append (files : Files) : Append → Files
  | .seen f => { files with seen := files.seen ++ [f] }
  | .pending f => { files with pending := files.pending ++ [f] }

/-- The path, if it is added to the queue. -/
def Append.queued : Append → Option Path
  | .seen _ => none
  | .pending f => some f

/-- The path, if it is added to the list of seen files. -/
def Append.entered : Append → Option Path
  | .seen f => some f
  | .pending _ => none

/-- The lines that a run adds, in order. -/
def appends (scan : Scan) (seen : List Path) : List Append :=
  (newFiles scan seen).zipIdx.flatMap fun p =>
    .seen p.1 :: if passedOver scan p.1 (scan.nowMode p.2) then [] else [.pending p.1]

/-- A run that nothing interrupts. -/
def monitorRun (scan : Scan) (files : Files) : Files :=
  (appends scan files.seen).foldl Files.append files

variable {scan : Scan} {files : Files} {f : Path}

/-- Lines are added at the end. -/
theorem foldl_append (as : List Append) (files : Files) :
    as.foldl Files.append files
      = ⟨files.seen ++ as.filterMap (·.entered), files.pending ++ as.filterMap (·.queued)⟩ := by
  induction as generalizing files with
  | nil => simp
  | cons a as ih =>
    rw [List.foldl_cons, ih]
    cases a <;> simp [Files.append, Append.entered, Append.queued]

theorem mem_newFiles {seen : List Path} :
    f ∈ newFiles scan seen ↔ (f ∈ scan.bad000 ∨ f ∈ find777 scan.second) ∧ f ∉ seen := by
  rw [newFiles, List.mem_filter, List.mem_append, decide_eq_true_eq]

/-- A run enters the new files in the list of seen files. -/
theorem seen_monitorRun :
    (monitorRun scan files).seen = files.seen ++ newFiles scan files.seen := by
  have hone : ∀ p : Path × ℕ, (Append.seen p.1 :: if passedOver scan p.1 (scan.nowMode p.2) then []
      else [Append.pending p.1]).filterMap (·.entered) = [p.1] := by
    intro p
    split <;> rfl
  rw [monitorRun, foldl_append]
  simp only [appends, List.filterMap_flatMap, hone, ← List.map_eq_flatMap, List.zipIdx_map_fst]

theorem mem_seen_monitorRun :
    f ∈ (monitorRun scan files).seen ↔ f ∈ files.seen ∨ f ∈ newFiles scan files.seen := by
  rw [seen_monitorRun, List.mem_append]

/-- What is counted for the digest is what is entered. -/
theorem length_seen_of_digestCount {n : ℕ} (h : digestCount scan files.seen = some n) :
    (monitorRun scan files).seen.length = files.seen.length + n := by
  rw [digestCount] at h
  split at h
  · cases h
  · cases h
    rw [seen_monitorRun, List.length_append]

/-- A run queues the new files that one of their turns does not pass over. -/
theorem mem_pending_monitorRun :
    f ∈ (monitorRun scan files).pending ↔ f ∈ files.pending ∨
      ∃ i, (newFiles scan files.seen)[i]? = some f ∧
        passedOver scan f (scan.nowMode i) = false := by
  rw [monitorRun, foldl_append]
  simp only [List.mem_append, appends, List.filterMap_flatMap, List.mem_flatMap]
  refine or_congr_right ⟨?_, ?_⟩
  · rintro ⟨⟨g, i⟩, hg, hf⟩
    split at hf
    · simp [Append.queued] at hf
    · next hpassed =>
      obtain rfl : f = g := by simpa [Append.queued] using hf
      exact ⟨i, List.mk_mem_zipIdx_iff_getElem?.mp hg, Bool.eq_false_of_not_eq_true hpassed⟩
  · rintro ⟨i, hi, hpassed⟩
    refine ⟨(f, i), List.mk_mem_zipIdx_iff_getElem?.mpr hi, ?_⟩
    simp [hpassed, Append.queued]

end Permissions
end MediaHub

import MediaHub.Lib.StepRuns
import MediaHub.Permissions.Monitor
import Mathlib.Data.List.Count

/-!
# Fixing the queue

`scripts/permissions-apply-fix.sh` makes files readable again and takes their paths off the
queue and off the list of seen files: it copies the lines that stay, one by one, to a
temporary file, and renames that file.  It does not take the lock of the monitor, which may
add lines all the while.  A line that is added after the copy has come to the end of the
queue, and before the rename, is in neither of the two files afterwards.

## Main definitions

* `Call`, `Phase` — how the script is called, and where it is.
* `step` — one command of it, or the next line of the monitor.
* `Clear` — the monitor adds no line between the end of the copy and the rename.

## Main results

* `rewritten_of_alone` — a fix run by itself.
* `accounted_step` — where every line of the queue is, at every step.
* `kept_iff` — **when the fix run loses no line of the queue.**
-/

namespace MediaHub
namespace Permissions

/-- How the script is called. -/
structure Call where
  /-- `--all`. -/
  all : Bool
  /-- The other arguments. -/
  args : List Path
  deriving DecidableEq, Repr

/-- `to_fix`, unless the script refuses. -/
def toFix (call : Call) (pending : List Path) : Option (List Path) :=
  if call.args ≠ [] then some call.args else if call.all then some pending else none

/-- `"$MEDIA_ROOT"/*`. -/
def underRoot (f : Path) : Bool := (mediaRoot ++ "/").toList.isPrefixOf f.toList

/-- Where the script is. -/
inductive Phase where
  | called (call : Call)
  /-- These files are still to be fixed, and those have been. -/
  | fixing (rest fixed : List Path)
  /-- The queue is being copied: the line number, and the temporary file. -/
  | copying (fixed : List Path) (pos : ℕ) (tmp : List Path)
  /-- The copy has come to the end of the queue. -/
  | copied (fixed tmp : List Path)
  /-- The same for the list of seen files. -/
  | copyingSeen (fixed : List Path) (pos : ℕ) (tmp : List Path)
  | copiedSeen (fixed tmp : List Path)
  | finished (fixed : List Path)
  deriving DecidableEq, Repr

/-- The two scripts and their files. -/
structure State where
  files : Files
  /-- The lines that the monitor has still to add. -/
  todo : List Append
  phase : Phase
  /-- What the monitor has added to the queue. -/
  added : List Path
  /-- What it has added between the end of the copy and the rename, files that were fixed
  apart. -/
  lost : List Path
  deriving DecidableEq, Repr

/-- What happens next. -/
inductive Label where
  /-- The monitor adds a line. -/
  | monitor
  /-- The fix run executes its next command; a file is there, and `chmod` succeeds. -/
  | fix (isFile chmod : Bool)
  deriving DecidableEq, Repr

/-- The line is not of a file that was fixed. -/
def kept (fixed : List Path) (line : Path) : Bool := decide (line ∉ fixed)

/-- `[ -n "${fixed_lookup[$line]+x}" ] || echo "$line" >> "$tmp_file"`. -/
def copyLine (fixed tmp : List Path) (line : Path) : List Path :=
  if kept fixed line then tmp ++ [line] else tmp

/-- The file is fixed. -/
def fixes (f : Path) (isFile chmod : Bool) : Bool := f ≠ "" && underRoot f && isFile && chmod

/-- The fix run after its next command. -/
def fixStep (s : State) (isFile chmod : Bool) : Option State :=
  match s.phase with
  | .called call =>
    match toFix call s.files.pending with
    | none => some { s with phase := .finished [] }
    | some list => some { s with phase := .fixing list [] }
  | .fixing [] fixed =>
    some { s with phase := if fixed = [] then .finished [] else .copying fixed 0 [] }
  | .fixing (f :: rest) fixed =>
    some { s with phase := .fixing rest (if fixes f isFile chmod then fixed ++ [f] else fixed) }
  | .copying fixed pos tmp =>
    match s.files.pending[pos]? with
    | some line => some { s with phase := .copying fixed (pos + 1) (copyLine fixed tmp line) }
    | none => some { s with phase := .copied fixed tmp }
  | .copied fixed tmp =>
    some { s with files := { s.files with pending := tmp }, phase := .copyingSeen fixed 0 [] }
  | .copyingSeen fixed pos tmp =>
    match s.files.seen[pos]? with
    | some line => some { s with phase := .copyingSeen fixed (pos + 1) (copyLine fixed tmp line) }
    | none => some { s with phase := .copiedSeen fixed tmp }
  | .copiedSeen fixed tmp =>
    some { s with files := { s.files with seen := tmp }, phase := .finished fixed }
  | .finished _ => none

/-- What is lost when the monitor adds a line here. -/
def lostHere (phase : Phase) (a : Append) : List Path :=
  match phase with
  | .copied fixed _ => a.queued.toList.filter (kept fixed)
  | _ => []

/-- The monitor after its next line. -/
def monitorStep (s : State) : Option State :=
  match s.todo with
  | [] => none
  | a :: rest =>
    some { s with
      files := s.files.append a
      todo := rest
      added := s.added ++ a.queued.toList
      lost := s.lost ++ lostHere s.phase a }

/-- One step of either. -/
def step (s : State) : Label → Option State
  | .monitor => monitorStep s
  | .fix isFile chmod => fixStep s isFile chmod

/-- Both scripts at their start. -/
def State.start (files : Files) (todo : List Append) (call : Call) : State :=
  ⟨files, todo, .called call, [], []⟩

/-- The monitor adds no line between the end of the copy of the queue and the rename, the
path of a file that was fixed apart. -/
def Clear (s : State) (l : Label) : Prop :=
  l = .monitor → ∀ a ∈ s.todo.head?, lostHere s.phase a = []

instance (s : State) (l : Label) : Decidable (Clear s l) := inferInstanceAs (Decidable (_ → _))

variable {s s' : State} {l : Label} {ls : List Label} {files : Files} {fixed : List Path} {f : Path}

/-! ### What the steps leave -/

/-- A copy up to some line. -/
theorem copyLine_take {lines : List Path} {pos : ℕ} {line : Path} (h : lines[pos]? = some line) :
    copyLine fixed ((lines.take pos).filter (kept fixed)) line
      = (lines.take (pos + 1)).filter (kept fixed) := by
  rw [copyLine, List.take_add_one, h, Option.toList_some, List.filter_append]
  split
  · next hkept => simp [hkept]
  · next hkept => simp [hkept]

/-- A copy up to the end. -/
theorem take_of_getElem?_none {lines : List Path} {pos : ℕ} (h : lines[pos]? = none) :
    lines.take pos = lines := List.take_of_length_le (List.getElem?_eq_none_iff.mp h)

/-- The fix run does not add lines. -/
theorem fixStep_books {isFile chmod : Bool} (hst : fixStep s isFile chmod = some s') :
    s'.added = s.added ∧ s'.todo = s.todo ∧ s'.lost = s.lost := by
  simp only [fixStep] at hst
  split at hst <;> (try split at hst) <;> cases hst <;> exact ⟨rfl, rfl, rfl⟩

/-! ### A fix run by itself -/

/-- The two files without the paths of some files. -/
def rewritten (fixed : List Path) (files : Files) : Files :=
  ⟨files.seen.filter (kept fixed), files.pending.filter (kept fixed)⟩

theorem filter_kept_nil (lines : List Path) : lines.filter (kept []) = lines :=
  List.filter_eq_self.mpr fun _ _ => rfl

/-- Where a fix run by itself is, from the files that it found. -/
def AloneInv (files : Files) (s : State) : Prop :=
  match s.phase with
  | .called _ | .fixing _ _ => s.files = files
  | .copying fixed pos tmp =>
    s.files = files ∧ tmp = (files.pending.take pos).filter (kept fixed)
  | .copied fixed tmp => s.files = files ∧ tmp = files.pending.filter (kept fixed)
  | .copyingSeen fixed pos tmp =>
    s.files = ⟨files.seen, files.pending.filter (kept fixed)⟩ ∧
      tmp = (files.seen.take pos).filter (kept fixed)
  | .copiedSeen fixed tmp =>
    s.files = ⟨files.seen, files.pending.filter (kept fixed)⟩ ∧
      tmp = files.seen.filter (kept fixed)
  | .finished fixed => s.files = rewritten fixed files

/-- One command of a fix run by itself. -/
theorem aloneInv_fixStep {isFile chmod : Bool} (h : AloneInv files s)
    (hst : fixStep s isFile chmod = some s') : AloneInv files s' := by
  obtain ⟨sf, todo, phase, added, lost⟩ := s
  cases phase with
  | called call =>
    obtain rfl : sf = files := h
    simp only [fixStep] at hst
    split at hst
    · cases hst
      simp [AloneInv, rewritten, filter_kept_nil]
    · cases hst
      rfl
  | fixing rest fixed =>
    obtain rfl : sf = files := h
    cases rest with
    | nil =>
      cases hst
      -- a run that fixed nothing ends without a copy
      by_cases hfixed : fixed = []
      · simp [AloneInv, hfixed, rewritten, filter_kept_nil]
      · simp [AloneInv, hfixed]
    | cons f rest =>
      cases hst
      rfl
  | copying fixed pos tmp =>
    obtain ⟨rfl, rfl⟩ : sf = files ∧ tmp = (files.pending.take pos).filter (kept fixed) := h
    simp only [fixStep] at hst
    split at hst
    · next line hline =>
      cases hst
      exact ⟨rfl, copyLine_take hline⟩
    · next hend =>
      cases hst
      exact ⟨rfl, by rw [take_of_getElem?_none hend]⟩
  | copied fixed tmp =>
    -- the copy becomes the queue
    obtain ⟨rfl, rfl⟩ : sf = files ∧ tmp = files.pending.filter (kept fixed) := h
    cases hst
    exact ⟨rfl, rfl⟩
  | copyingSeen fixed pos tmp =>
    obtain ⟨rfl, rfl⟩ : sf = ⟨files.seen, files.pending.filter (kept fixed)⟩ ∧
      tmp = (files.seen.take pos).filter (kept fixed) := h
    simp only [fixStep] at hst
    split at hst
    · next line hline =>
      cases hst
      exact ⟨rfl, copyLine_take hline⟩
    · next hend =>
      cases hst
      exact ⟨rfl, by rw [take_of_getElem?_none hend]⟩
  | copiedSeen fixed tmp =>
    obtain ⟨rfl, rfl⟩ : sf = ⟨files.seen, files.pending.filter (kept fixed)⟩ ∧
      tmp = files.seen.filter (kept fixed) := h
    cases hst
    rfl
  | finished fixed => cases hst

/-- **A fix run by itself** takes the paths of the files it fixed off both files. -/
theorem rewritten_of_alone {todo : List Append} {call : Call} (halone : ∀ l ∈ ls, l ≠ .monitor)
    (hrun : runSteps step (.start files todo call) ls = some s')
    (hfinished : s'.phase = .finished fixed) : s'.files = rewritten fixed files := by
  have hinv : AloneInv files s' := by
    refine invariant_of_allSteps (P := fun _ l => l ≠ .monitor) ?_ ?_
      (allSteps_of_forall halone) hrun
    · intro s l s' h hl hst
      cases l with
      | monitor => exact absurd rfl hl
      | fix isFile chmod => exact aloneInv_fixStep h hst
    · exact (rfl : files = files)
  rw [AloneInv, hfinished] at hinv
  exact hinv

/-! ### Where the lines of the queue are -/

/-- Every line of the queue, from the `start` or added since, is in the queue or was lost,
the paths of the files that were fixed apart. -/
def Accounted (start : List Path) (s : State) : Prop :=
  match s.phase with
  | .called _ | .fixing _ _ => s.files.pending = start ++ s.added ∧ s.lost = []
  | .copying fixed pos tmp =>
    s.files.pending = start ++ s.added ∧ s.lost = [] ∧ pos ≤ s.files.pending.length ∧
      tmp = (s.files.pending.take pos).filter (kept fixed)
  | .copied fixed tmp =>
    (∀ f ∈ s.lost, kept fixed f = true) ∧
      ∀ f, kept fixed f = true → tmp.count f + s.lost.count f = (start ++ s.added).count f
  | .copyingSeen fixed _ _ | .copiedSeen fixed _ | .finished fixed =>
    (∀ f ∈ s.lost, kept fixed f = true) ∧
      ∀ f, kept fixed f = true →
        s.files.pending.count f + s.lost.count f = (start ++ s.added).count f

variable {start : List Path}

theorem accounted_fixStep {isFile chmod : Bool} (h : Accounted start s)
    (hst : fixStep s isFile chmod = some s') : Accounted start s' := by
  obtain ⟨⟨seen, pending⟩, todo, phase, added, lost⟩ := s
  cases phase with
  | called call =>
    obtain ⟨rfl, rfl⟩ : pending = start ++ added ∧ lost = [] := h
    simp only [fixStep] at hst
    split at hst
    · cases hst
      simp [Accounted]
    · cases hst
      exact ⟨rfl, rfl⟩
  | fixing rest fixed =>
    obtain ⟨rfl, rfl⟩ : pending = start ++ added ∧ lost = [] := h
    cases rest with
    | nil =>
      cases hst
      by_cases hfixed : fixed = []
      · simp [Accounted, hfixed]
      · simp [Accounted, hfixed]
    | cons f rest =>
      cases hst
      exact ⟨rfl, rfl⟩
  | copying fixed pos tmp =>
    obtain ⟨rfl, rfl, hpos, rfl⟩ : pending = start ++ added ∧ lost = [] ∧ pos ≤ pending.length ∧
      tmp = (pending.take pos).filter (kept fixed) := h
    simp only [fixStep] at hst
    split at hst
    · next line hline =>
      cases hst
      exact ⟨rfl, rfl, (List.getElem?_eq_some_iff.mp hline).1, copyLine_take hline⟩
    · next hend =>
      -- the copy is complete as of now: what is added from here on is not in it
      cases hst
      refine ⟨by simp, ?_⟩
      intro f hf
      rw [take_of_getElem?_none hend, List.count_filter hf]
      rfl
  | copied fixed tmp =>
    cases hst
    exact h
  | copyingSeen fixed pos tmp =>
    simp only [fixStep] at hst
    split at hst
    · cases hst
      exact h
    · cases hst
      exact h
  | copiedSeen fixed tmp =>
    cases hst
    exact h
  | finished fixed => cases hst

theorem count_added {added : List Path} {g : Path} :
    (start ++ (added ++ [g])).count f = (start ++ added).count f + [g].count f := by
  rw [← List.append_assoc, List.count_append]

/-- A line that the monitor adds to the queue is one more in the books. -/
theorem accounted_monitorStep (h : Accounted start s) (hst : monitorStep s = some s') :
    Accounted start s' := by
  obtain ⟨⟨seen, pending⟩, todo, phase, added, lost⟩ := s
  cases todo with
  | nil => cases hst
  | cons a rest =>
    cases hst
    cases a with
    | seen g =>
      -- the queue stays as it is
      cases phase <;> simpa [Accounted, Files.append, Append.queued, lostHere] using h
    | pending g =>
      cases phase with
      | called | fixing =>
        obtain ⟨rfl, rfl⟩ : pending = start ++ added ∧ lost = [] := h
        simp [Accounted, Files.append, Append.queued, lostHere]
      | copying fixed pos tmp =>
        obtain ⟨rfl, rfl, hpos, rfl⟩ : pending = start ++ added ∧ lost = [] ∧
          pos ≤ pending.length ∧ tmp = (pending.take pos).filter (kept fixed) := h
        refine ⟨by simp [Files.append, Append.queued], rfl, ?_, ?_⟩
        · simp only [Files.append, List.length_append] at hpos ⊢
          omega
        · simp only [Files.append, List.take_append_of_le_length hpos]
      | copied fixed tmp =>
        obtain ⟨hlost, hcount⟩ := h
        simp only at hlost hcount
        simp only [Accounted, Append.queued, lostHere, Option.toList_some]
        constructor
        · intro f hf
          rcases List.mem_append.mp hf with hf | hf
          · exact hlost f hf
          · exact (List.mem_filter.mp hf).2
        · intro f hf
          rw [count_added, List.count_append, List.count_filter hf, ← hcount f hf]
          omega
      | copyingSeen fixed | copiedSeen fixed | finished fixed =>
        obtain ⟨hlost, hcount⟩ := h
        simp only at hlost hcount
        refine ⟨by simpa [lostHere] using hlost, ?_⟩
        intro f hf
        simp only [Files.append, Append.queued, lostHere, Option.toList_some, List.append_nil]
        rw [count_added, List.count_append, ← hcount f hf]
        omega

/-- Where every line of the queue is, at every step. -/
theorem accounted_step (h : Accounted start s) (hst : step s l = some s') : Accounted start s' := by
  cases l with
  | monitor => exact accounted_monitorStep h hst
  | fix isFile chmod => exact accounted_fixStep h hst

/-- The monitor adds what it has to add. -/
theorem added_step (hst : step s l = some s') :
    s'.added ++ s'.todo.filterMap (·.queued) = s.added ++ s.todo.filterMap (·.queued) := by
  cases l with
  | monitor =>
    obtain ⟨sf, todo, phase, added, lost⟩ := s
    cases todo with
    | nil => cases hst
    | cons a rest =>
      cases hst
      cases a <;> simp [Append.queued]
  | fix isFile chmod =>
    obtain ⟨hadded, htodo, -⟩ := fixStep_books hst
    rw [hadded, htodo]

/-- A line is lost in the steps that are not clear. -/
theorem lost_step (hst : step s l = some s') : s'.lost = [] ↔ s.lost = [] ∧ Clear s l := by
  cases l with
  | monitor =>
    obtain ⟨sf, todo, phase, added, lost⟩ := s
    cases todo with
    | nil => cases hst
    | cons a rest =>
      cases hst
      simp [Clear, List.append_eq_nil_iff]
  | fix isFile chmod =>
    obtain ⟨-, -, hlost⟩ := fixStep_books hst
    simp [Clear, hlost]

/-- **When the fix run loses no line of the queue**: every path that was in the queue, or
that the monitor added, and whose file was not fixed, is in the queue as often as it was
added, exactly if the monitor adds no such line between the end of the copy and the rename. -/
theorem kept_iff {todo : List Append} {call : Call}
    (hrun : runSteps step (.start files todo call) ls = some s')
    (hfinished : s'.phase = .finished fixed) (hdone : s'.todo = []) :
    (∀ f ∉ fixed, s'.files.pending.count f
        = files.pending.count f + (todo.filterMap (·.queued)).count f) ↔
      AllSteps step Clear (.start files todo call) ls := by
  have hacc : Accounted files.pending s' := by
    refine invariant_of_runSteps (fun s l s' h hst => accounted_step h hst) ?_ hrun
    exact ⟨(List.append_nil _).symm, rfl⟩
  have hadded : s'.added = todo.filterMap (·.queued) := by
    have hconst := invariant_of_runSteps
      (I := fun s => s.added ++ s.todo.filterMap (·.queued) = todo.filterMap (·.queued))
      (fun s l s' h hst => (added_step hst).trans h) rfl hrun
    simpa [hdone] using hconst
  have hclear := flag_iff_of_runSteps (F := fun s => s.lost = []) (fun _ _ _ => lost_step) hrun
  rw [State.start] at hclear
  simp only [true_and] at hclear
  rw [State.start, ← hclear]
  rw [Accounted, hfinished] at hacc
  obtain ⟨hlost, hcount⟩ := hacc
  rw [hadded] at hcount
  constructor
  · intro hall
    by_contra hne
    -- a line that was lost is missing in the queue
    obtain ⟨f, rest, hf⟩ := List.exists_cons_of_ne_nil hne
    have hkept := hlost f (by simp [hf])
    have hsum := hcount f hkept
    rw [hall f (by simpa [kept] using hkept), List.count_append, hf] at hsum
    simp at hsum
  · intro hnone f hf
    have hsum := hcount f (by simpa [kept] using hf)
    rw [hnone, List.count_append] at hsum
    simpa using hsum

/-- One file is in the queue. -/
def queuedA : Files := ⟨["/mnt/media/a.srt"], ["/mnt/media/a.srt"]⟩

/-- The monitor finds another one. -/
def findsB : List Append := [.seen "/mnt/media/b.srt", .pending "/mnt/media/b.srt"]

/-- Some commands of the fix run, with files that are there and can be fixed. -/
def fixing (n : ℕ) : List Label := List.replicate n (.fix true true)

/-- Both scripts at their end. -/
def afterBoth (pending lost : List Path) : State :=
  ⟨⟨["/mnt/media/b.srt"], pending⟩, [], .finished ["/mnt/media/a.srt"], ["/mnt/media/b.srt"], lost⟩

theorem kept_whileCopying :
    ["/mnt/media/b.srt"].count "/mnt/media/b.srt"
      = queuedA.pending.count "/mnt/media/b.srt"
        + (findsB.filterMap (·.queued)).count "/mnt/media/b.srt" := by
  have hrun : runSteps step (.start queuedA findsB ⟨true, []⟩)
      (fixing 4 ++ [.monitor, .monitor] ++ fixing 7)
        = some (afterBoth ["/mnt/media/b.srt"] []) := by
    decide +kernel
  exact (kept_iff hrun rfl rfl).mpr (by decide +kernel) "/mnt/media/b.srt" (by decide +kernel)

/-- **A line that is added between the end of the copy and the rename is lost**, and the
path stays in the list of seen files. -/
theorem lost_afterCopying :
    runSteps step (.start queuedA findsB ⟨true, []⟩) (fixing 5 ++ [.monitor, .monitor] ++ fixing 5)
      = some (afterBoth [] ["/mnt/media/b.srt"]) ∧
    (afterBoth [] ["/mnt/media/b.srt"]).files.pending.count "/mnt/media/b.srt"
      ≠ queuedA.pending.count "/mnt/media/b.srt"
        + (findsB.filterMap (·.queued)).count "/mnt/media/b.srt" := by
  constructor
  · decide +kernel
  · decide +kernel

end Permissions
end MediaHub

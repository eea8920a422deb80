import MediaHub.Values
import Mathlib.Data.List.Induction
import Mathlib.Data.List.Sort
import Mathlib.Data.Prod.Lex

/-!
# The duration audit

`scripts/lidarr-ytdl-audit.py`: one run compares the files the downloader wrote since the
saved cursor with the lengths Lidarr expects, deletes the bad ones and moves the cursor.
The answers of Lidarr, the files and the readings of the clock are inputs.  The imports
of the link step show in those answers and are not modelled, nor is any text that is
only printed or posted.

An exception that `main` does not catch ends the run; the turns it took before that
stand, and the cursor is not saved.

## Main definitions

* `Audit.decide` — the verdict on one file.
* `Audit.isDownloadersFile` — whether the linked file is the one a row downloaded.
* `Audit.latest` — the newest selected row of each track.
* `Audit.turn` — what the loop does with one row.
* `Audit.main` — one run.
-/

namespace MediaHub
namespace LidarrYtdl

/-! ### The tables of the downloader -/

/-- A row of `track_downloads`, but for its column `deleted`. -/
structure Row where
  id : ℕ
  albumId : ℤ
  trackNumber : ℤ
  timestamp : ℚ
  success : Bool
  durationSeconds : Option ℚ
  acoustidScore : Option ℚ
  deriving DecidableEq, Repr

/-- The track a row is about: album and track number. -/
def Row.key (r : Row) : ℤ × ℤ := (r.albumId, r.trackNumber)

/-- A row of `candidate_attempts`. -/
structure CandidateAttempt where
  trackDownloadId : ℕ
  outcome : String
  errorMessage : Option String
  deriving DecidableEq, Repr

/-- The tables.  Of their columns only `deleted` changes, so the rows that are marked are
kept apart from it. -/
structure Database where
  trackDownloads : List Row
  /-- The ids of the rows with `deleted=1`. -/
  deleted : List ℕ
  candidateAttempts : List CandidateAttempt
  deriving DecidableEq, Repr

/-- `error_message LIKE 'last resort:%'`, which does not look at the case of letters. -/
def likeLastResort (message : String) : Bool :=
  "last resort:".toList.isPrefixOf (message.toList.map Char.toLower)

/-- The rows of `track_downloads` that were kept as a last resort. -/
def Database.lastResortIds (db : Database) : List ℕ :=
  (db.candidateAttempts.filter fun x =>
    x.outcome == "accepted_unverified_fallback" && (x.errorMessage.any likeLastResort)).map
      CandidateAttempt.trackDownloadId

/-! ### The verdict on one file -/

/-- `ok|delete|review|unverifiable`. -/
inductive Verdict where
  | ok
  | delete
  | review
  | unverifiable
  deriving DecidableEq, Repr

namespace Audit

def VERIFIED_SCORE : ℚ := 90 / 100

def GROSS_FRACTION : ℚ := 25 / 100

def PENDING_EXPIRY : ℚ := 3600

def SETTLE_SECONDS : ℚ := 300

/-- `f"{x:.0f}"`. -/
def formatSeconds (x : ℚ) : String := toString (roundTo 0 x).num

/-- `f"{x:.0%}"`. -/
def formatPercent (x : ℚ) : String := formatSeconds (x * 100) ++ "%"

/-- `_decide`: the verdict before the last resorts are spared. -/
def decideInner (actual mb yt ac tol : ℚ) (identityOk : Bool) : Verdict × String :=
  if !identityOk then (.unverifiable, "linked file is not the one the downloader wrote")
  else if |actual - mb| ≤ tol then (.ok, "")
  else if 0 < yt ∧ actual < yt - tol then
    (.delete, "truncated: file is " ++ formatSeconds actual ++ "s but its YouTube source was " ++
      formatSeconds yt ++ "s")
  else
    let rel := if mb ≠ 0 then |actual - mb| / mb else 1
    if GROSS_FRACTION < rel ∧ ac < VERIFIED_SCORE then
      (.delete, formatPercent rel ++ " off MusicBrainz and AcoustID did not verify it")
    else if VERIFIED_SCORE ≤ ac then
      (.review, "AcoustID verified the song; length differs from MusicBrainz (" ++
        formatPercent rel ++ ")")
    else (.review, "length differs from MusicBrainz by " ++ formatPercent rel ++ ", unverified")

/-- `decide`: a file the downloader kept as a documented last resort is never deleted. -/
def decide (actual mb yt ac tol : ℚ) (identityOk lastResort : Bool) : Verdict × String :=
  let (verdict, why) := decideInner actual mb yt ac tol identityOk
  if lastResort ∧ verdict = .delete then
    (.review, "downloader kept this as a last resort (" ++ why ++ ")")
  else (verdict, why)

/-- Last resorts are spared. -/
theorem decide_lastResort (actual mb yt ac tol : ℚ) (identityOk : Bool) :
    (decide actual mb yt ac tol identityOk true).1 ≠ .delete := by
  unfold decide
  by_cases h : (decideInner actual mb yt ac tol identityOk).1 = .delete <;> simp [h]

/-! ### The linked file -/

/-- A track, as Lidarr lists it; `duration` is in milliseconds. -/
structure Track where
  absoluteTrackNumber : ℤ
  trackFileId : Option ℤ
  duration : ℚ
  deriving DecidableEq, Repr

/-- A track file, as Lidarr lists it. -/
structure TrackFile where
  id : ℤ
  path : String
  deriving DecidableEq, Repr

/-- What is found at a path of the host. -/
structure LibraryFile where
  /-- `os.path.getmtime`, unless it raises `OSError`. -/
  mtime : Option ℚ
  /-- `probe_seconds`, unless it raises what `main` catches. -/
  seconds : Option ℚ
  deriving DecidableEq, Repr

/-- `s.replace(old, new, 1)` for a text `old` that is not empty. -/
def replaceFirst (old new : List Char) : List Char → List Char
  | [] => []
  | c :: cs =>
    if old.isPrefixOf (c :: cs) then new ++ (c :: cs).drop old.length
    else c :: replaceFirst old new cs

/-- A path of the Lidarr container on the host: `PATH_MAP`. -/
def hostPath (path : String) : String :=
  String.ofList (replaceFirst "/data/music".toList "/mnt/media/music".toList path.toList)

/-- `os.path.basename`. -/
def basename (path : String) : List Char :=
  (path.toList.reverse.takeWhile (· ≠ '/')).reverse

/-- `f"{n:02d}"`. -/
def formatTwoDigits (n : ℤ) : List Char :=
  if 0 ≤ n ∧ n < 10 then '0' :: (toString n).toList else (toString n).toList

/-- `is_downloaders_file`: the name has the track number of the row, and the file was not
written before the download. -/
def isDownloadersFile (path : String) (mtime : Option ℚ) (r : Row) : Bool :=
  (formatTwoDigits r.trackNumber ++ " - ".toList).isPrefixOf (basename path) &&
    match mtime with
    | some t => r.timestamp - 120 ≤ t
    | none => false

/-- The file linked to a track number: that of the first track of this number that has
one. -/
def linkedFile (tracks : List Track) (files : List TrackFile) (tno : ℤ) :
    Option (Track × TrackFile) :=
  let t := tracks.find? fun x =>
    x.absoluteTrackNumber = tno && x.trackFileId.any (· ≠ 0)
  t.bind fun t => (files.reverse.find? fun f => t.trackFileId = some f.id).map fun f => (t, f)

/-! ### One run -/

/-- The options; `--tolerance` is 10 unless given. -/
structure Options where
  apply : Bool
  noDelete : Bool
  noSettle : Bool
  tolerance : ℚ
  since : Option ℚ
  albumId : Option ℤ
  deriving DecidableEq, Repr

/-- The readings of the clock in one run: by `load_cursor`, for the cutoff, and when the
cursor is saved. -/
structure Times where
  load : ℚ
  cutoff : ℚ
  save : ℚ
  load_le : load ≤ cutoff
  cutoff_le : cutoff ≤ save
  deriving DecidableEq, Repr

/-- What a run meets. -/
structure World where
  times : Times
  /-- `status.get("active")`. -/
  active : Bool
  /-- The tracks of an album, unless Lidarr answers with an HTTP error. -/
  tracks : ℤ → Option (List Track)
  /-- The track files of an album, unless Lidarr answers with an HTTP error. -/
  trackFiles : ℤ → Option (List TrackFile)
  /-- What is found at a path when the turn of a row comes. -/
  file : Row → String → LibraryFile
  /-- An exception that is not caught ends the run after so many turns. -/
  raisesAfter : Option ℕ

/-- What the loop remembers about an album: nothing after an HTTP error. -/
def World.album (w : World) (albumId : ℤ) : List Track × List TrackFile :=
  match w.tracks albumId, w.trackFiles albumId with
  | some tracks, some files => (tracks, files)
  | _, _ => ([], [])

/-- Why a row is pending. -/
inductive Pending where
  | notLinked
  | cannotProbe
  | unverifiable
  deriving DecidableEq, Repr

/-- What the loop does with a row. -/
inductive Turn where
  /-- The album has no tracks. -/
  | skipped
  | pending (p : Pending)
  | judged (f : TrackFile) (verdict : Verdict) (why : String)
  deriving DecidableEq, Repr

/-- The time the selection starts from. -/
def start (o : Options) (state : Option ℚ) (w : World) : ℚ :=
  o.since.getD (state.getD (w.times.load - 24 * 3600))

/-- The time the selection ends at. -/
def cutoff (o : Options) (w : World) : ℚ :=
  w.times.cutoff - if o.noSettle then 0 else SETTLE_SECONDS

/-- The query of `track_downloads`. -/
def selectRows (o : Options) (db : Database) (start cutoff : ℚ) : List Row :=
  (db.trackDownloads.filter fun r =>
    r.success && !(r.id ∈ db.deleted) && start < r.timestamp && r.timestamp ≤ cutoff &&
      o.albumId.all (r.albumId = ·)).insertionSort fun r r' => r.timestamp ≤ r'.timestamp

/-- `latest[key] = r`. -/
def setLatest (latest : List Row) (r : Row) : List Row :=
  latest.filter (·.key ≠ r.key) ++ [r]

/-- The newest row of each track. -/
def latest (rows : List Row) : List Row := rows.foldl setLatest []

/-- `decide` on the file linked to a row. -/
def verdictOn (o : Options) (w : World) (lastResortIds : List ℕ) (r : Row) (t : Track)
    (f : TrackFile) (actual : ℚ) : Verdict × String :=
  let path := hostPath f.path
  decide actual (t.duration / 1000) (r.durationSeconds.getD 0) (r.acoustidScore.getD 0)
    o.tolerance (isDownloadersFile path (w.file r path).mtime r) (r.id ∈ lastResortIds)

/-- The body of the judging loop. -/
def turn (o : Options) (w : World) (lastResortIds : List ℕ) (r : Row) : Turn :=
  let (tracks, files) := w.album r.albumId
  if tracks = [] then .skipped
  else
    match linkedFile tracks files r.trackNumber with
    | none => .pending .notLinked
    | some (t, f) =>
      match (w.file r (hostPath f.path)).seconds with
      | none => .pending .cannotProbe
      | some actual =>
        let (verdict, why) := verdictOn o w lastResortIds r t f actual
        if verdict = .unverifiable then .pending .unverifiable else .judged f verdict why

def Turn.isJudged : Turn → Bool
  | .judged .. => true
  | _ => false

def Turn.isPending : Turn → Bool
  | .pending _ => true
  | _ => false

/-- What a run does: the rows whose turn came, the files it asks Lidarr to delete, and
the cursor it saves. -/
structure Report where
  turns : List (Row × Turn)
  deletes : List (Row × TrackFile)
  cursor : Option ℚ
  deriving DecidableEq, Repr

/-- The timestamps of the rows that are pending. -/
def pendingTs (turns : List (Row × Turn)) : List ℚ :=
  turns.filterMap fun x =>
    match x.2 with
    | .pending _ => some x.1.timestamp
    | _ => none

/-- The files to be deleted, each with its row. -/
def badFiles (turns : List (Row × Turn)) : List (Row × TrackFile) :=
  turns.filterMap fun x =>
    match x.2 with
    | .judged f .delete _ => some (x.1, f)
    | _ => none

/-- The cursor a run saves: before the first row that is pending and recent, if any. -/
def nextCursor (turns : List (Row × Turn)) (save cutoff : ℚ) : ℚ :=
  match ((pendingTs turns).filter (save - PENDING_EXPIRY < ·)).min? with
  | some t => t - 1
  | none => cutoff

/-- The rows in the order of the loop, `sorted(latest.items())`. -/
def worklist (o : Options) (db : Database) (state : Option ℚ) (w : World) : List Row :=
  (latest (selectRows o db (start o state w) (cutoff o w))).insertionSort
    fun r r' => toLex r.key ≤ toLex r'.key

/-- The rows whose turn comes. -/
def reached (o : Options) (db : Database) (state : Option ℚ) (w : World) : List Row :=
  match w.raisesAfter with
  | some n => (worklist o db state w).take n
  | none => worklist o db state w

/-- One run, from the saved cursor if it can be read. -/
def main (o : Options) (db : Database) (state : Option ℚ) (w : World) : Report :=
  if w.active && !o.noSettle then ⟨[], [], none⟩
  else
    let turns := (reached o db state w).map fun r => (r, turn o w db.lastResortIds r)
    { turns := turns
      deletes := if o.apply && !o.noDelete then badFiles turns else []
      cursor :=
        if o.apply && w.raisesAfter.isNone then
          some (nextCursor turns w.times.save (cutoff o w))
        else none }

/-! ### The selected rows -/

variable {o : Options} {db : Database} {r r' : Row} {rows : List Row}

theorem mem_selectRows {start cutoff : ℚ} :
    r ∈ selectRows o db start cutoff ↔ r ∈ db.trackDownloads ∧ r.success = true ∧
      r.id ∉ db.deleted ∧ start < r.timestamp ∧ r.timestamp ≤ cutoff ∧
        ∀ albumId ∈ o.albumId, r.albumId = albumId := by
  simp [selectRows, List.mem_insertionSort, and_assoc, Option.all_eq_true]

/-- The query orders the rows by time. -/
theorem pairwise_selectRows (o : Options) (db : Database) (start cutoff : ℚ) :
    (selectRows o db start cutoff).Pairwise fun r r' => r.timestamp ≤ r'.timestamp :=
  have : Std.Total fun r r' : Row => r.timestamp ≤ r'.timestamp := ⟨fun _ _ => le_total _ _⟩
  have : IsTrans Row fun r r' => r.timestamp ≤ r'.timestamp := ⟨fun _ _ _ => le_trans⟩
  List.pairwise_insertionSort _ _

@[simp] theorem latest_nil : latest [] = [] := rfl

theorem latest_concat (rows : List Row) (r : Row) :
    latest (rows ++ [r]) = setLatest (latest rows) r := by
  simp [latest]

theorem mem_setLatest {rs : List Row} :
    r' ∈ setLatest rs r ↔ r' ∈ rs ∧ r'.key ≠ r.key ∨ r' = r := by
  simp [setLatest]

/-- The newest rows are rows. -/
theorem mem_of_mem_latest (h : r ∈ latest rows) : r ∈ rows := by
  induction rows using List.reverseRecOn with
  | nil => exact h
  | append_singleton rows a ih =>
    rw [latest_concat, mem_setLatest] at h
    rcases h with ⟨hmem, _⟩ | rfl
    · exact List.mem_append_left _ (ih hmem)
    · exact List.mem_append_right _ (List.mem_singleton_self _)

/-- There is one newest row for each track. -/
theorem eq_of_mem_latest (h : r ∈ latest rows) (h' : r' ∈ latest rows) (hkey : r.key = r'.key) :
    r = r' := by
  induction rows using List.reverseRecOn with
  | nil => exact absurd h List.not_mem_nil
  | append_singleton rows a ih =>
    rw [latest_concat, mem_setLatest] at h h'
    rcases h with ⟨hmem, hne⟩ | rfl <;> rcases h' with ⟨hmem', hne'⟩ | rfl
    · exact ih hmem hmem'
    · exact absurd hkey hne
    · exact absurd hkey.symm hne'
    · rfl

/-- Every row has a newest row of its track, and that is no older. -/
theorem exists_mem_latest
    (hsorted : rows.Pairwise fun r r' => r.timestamp ≤ r'.timestamp) (h : r ∈ rows) :
    ∃ r' ∈ latest rows, r'.key = r.key ∧ r.timestamp ≤ r'.timestamp := by
  induction rows using List.reverseRecOn with
  | nil => exact absurd h List.not_mem_nil
  | append_singleton rows a ih =>
    rw [List.pairwise_append] at hsorted
    obtain ⟨hrows, _, hlast⟩ := hsorted
    rw [latest_concat]
    by_cases hkey : a.key = r.key
    · refine ⟨a, mem_setLatest.mpr (.inr rfl), hkey, ?_⟩
      rcases List.mem_append.mp h with hr | hr
      · exact hlast r hr a (List.mem_singleton_self a)
      · exact le_of_eq (by rw [List.mem_singleton.mp hr])
    · rcases List.mem_append.mp h with hr | hr
      · obtain ⟨r', hr', hkey', hle⟩ := ih hrows hr
        exact ⟨r', mem_setLatest.mpr (.inl ⟨hr', hkey' ▸ Ne.symm hkey⟩), hkey', hle⟩
      · exact absurd (by rw [List.mem_singleton.mp hr]) hkey

variable {state : Option ℚ} {w : World}

theorem mem_worklist :
    r ∈ worklist o db state w ↔ r ∈ latest (selectRows o db (start o state w) (cutoff o w)) :=
  List.mem_insertionSort _

/-- The rows whose turn comes are in the worklist. -/
theorem mem_of_mem_reached (h : r ∈ reached o db state w) : r ∈ worklist o db state w := by
  unfold reached at h
  split at h
  · exact List.mem_of_mem_take h
  · exact h

end Audit
end LidarrYtdl
end MediaHub

import MediaHub.Lib.FileOps
import MediaHub.Lib.StepRuns
import MediaHub.Lib.Streak
import MediaHub.Lrclib.Lookup
import MediaHub.Subgen.SkipFile
import Mathlib.Algebra.Order.Ring.Rat
import Mathlib.Data.Finset.Insert
import Mathlib.Tactic.Linarith

/-!
# Writing lyrics

`scripts/lrclib-embed-lyrics.py`, `main` and `finish`: the tracks of some folders are looked
up on LRCLIB one after the other, and lyrics are written next to the track, or into it.
After five failed lookups in a row the run waits, and at the third wait it stops.  A track
without lyrics is remembered, and is not asked for again for 30 days.

## Main definitions

* `Options`, `Visit` — what the run is told, and what it meets at a file.
* `outcome`, `writes` — what becomes of a file, and what is done to the files for it.
* `RunState`, `step` — a run, file by file.
* `RunOfScript`, `stepRun` — the script, run after run.

## Main results

* `stopsAfterFifteen` — **a run stops just when fifteen lookups in a row failed.**
* `notAskedAgain` — **a track without lyrics is not looked up again within 30 days.**
-/

namespace MediaHub
namespace Lrclib

open Subgen (splitext)

/-! ### Files and options -/

/-- A file, by its folder and its name. -/
abbrev FilePath (ρ : Type*) := ρ × List Char

inductive LyricsKind where
  | synced
  | plain
  deriving DecidableEq, Repr

def LyricsKind.ext : LyricsKind → List Char
  | .synced => ".lrc".toList
  | .plain => ".txt".toList

/-- `EXTS`. -/
def exts : List (List Char) := [".flac".toList, ".mp3".toList]

/-- `fn.lower().endswith(EXTS)`. -/
def isTrack (fn : List Char) : Bool := exts.any (·.isSuffixOf (fn.map Char.toLower))

variable {ρ κ : Type*} [DecidableEq ρ]

/-- The lyrics next to a track. -/
def sidecar (p : FilePath ρ) (kind : LyricsKind) : FilePath ρ :=
  (p.1, (splitext p.2).1 ++ kind.ext)

def tmp (p : FilePath ρ) : FilePath ρ := (p.1, p.2 ++ ".tmp".toList)

/-- The copy of a track that is written to. -/
def lyricsBak (p : FilePath ρ) : FilePath ρ := (p.1, p.2 ++ ".lyrics-bak".toList)

structure Options (ρ : Type*) where
  apply : Bool
  upgrade : Bool
  embed : Bool
  minAge : ℚ
  backupDir : Option ρ
  /-- The state file, in which the misses are saved. -/
  state : FilePath ρ
  deriving DecidableEq, Repr

structure Tags where
  title : String
  dur : ℚ
  /-- There are lyrics among the tags. -/
  has : Bool
  deriving DecidableEq, Repr

/-- The contents of files. -/
structure Contents (κ : Type*) where
  /-- A text, in UTF-8. -/
  text : List Char → κ
  /-- What `ffmpeg` says of the audio streams. -/
  audio : κ → String

/-- How writing into a track goes. -/
structure Embedding (κ : Type*) where
  /-- `write_lyrics` leaves this, and raises no exception. -/
  written : κ
  raised : Bool
  /-- `ffmpeg` ends well, before and after. -/
  ffmpegBefore : Bool
  ffmpegAfter : Bool
  /-- The copy to the backup folder fails, and leaves this. -/
  backupFails : Option κ
  /-- The first `os.remove(tmp)` raises no exception. -/
  removed : Bool

/-- What the run meets at a file. -/
structure Visit (ρ κ : Type*) where
  path : FilePath ρ
  mtime : ℚ
  now : ℚ
  /-- `tags_of`; `none` if an exception is raised. -/
  tags : Option Tags
  exact : ℕ → Reply Entry
  search : ℕ → Reply (List Entry)
  /-- `time.time()` after the lookup. -/
  later : ℚ
  embedding : Embedding κ

/-! ### What becomes of a file -/

inductive Outcome where
  | ignored
  | skippedNew
  | unreadable
  | skippedHas
  | skippedKnownMiss
  | failed
  | missing
  | instrumental
  | found (kind : LyricsKind) (text : String)
  deriving DecidableEq, Repr

/-- What becomes of a file that is not looked up. -/
def skips : List Outcome := [.ignored, .skippedNew, .unreadable, .skippedHas, .skippedKnownMiss]

/-- `MISS_TTL`. -/
def missTtl : ℚ := 30 * 86400

/-- Where the misses are remembered, and since when. -/
abbrev Misses (ρ : Type*) := FilePath ρ → Option ℚ

variable (U : Characters) (M : Contents κ) (o : Options ρ)

/-- The track has what would be written. -/
def hasTarget (files : Files (FilePath ρ) κ) (v : Visit ρ κ) (tags : Tags) : Bool :=
  if o.embed then tags.has
  else (files (sidecar v.path .synced)).isSome ||
    (files (sidecar v.path .plain)).isSome && !o.upgrade

/-- A lookup with an answer. -/
def answered : Option (Entry × How) → Outcome
  | none => .missing
  | some (hit, _) =>
    if hit.instrumental then .instrumental
    else
      match hit.syncedLyrics.filter (· ≠ ""), hit.plainLyrics.filter (· ≠ "") with
      | some text, _ => .found .synced text
      | none, some text => .found .plain text
      | none, none => .missing

def outcome (files : Files (FilePath ρ) κ) (misses : Misses ρ) (v : Visit ρ κ) : Outcome :=
  if isTrack v.path.2 = false then .ignored
  else if v.now - v.mtime < o.minAge then .skippedNew
  else
    match v.tags with
    | none => .unreadable
    | some tags =>
      if hasTarget o files v tags then .skippedHas
      else if v.now - (misses v.path).getD 0 < missTtl ∧ o.upgrade = false then .skippedKnownMiss
      else
        match lookup U tags.title tags.dur v.exact v.search with
        | none => .failed
        | some hit => answered hit

/-- `text.replace("\r\n", "\n")`. -/
def unixLines : List Char → List Char
  | '\r' :: '\n' :: cs => '\n' :: unixLines cs
  | c :: cs => c :: unixLines cs
  | [] => []

/-- What is done for a file of lyrics. -/
def sidecarOps (files : Files (FilePath ρ) κ) (p : FilePath ρ) (kind : LyricsKind)
    (text : String) : List (FileOp (FilePath ρ) κ) :=
  let side := sidecar p kind
  let txt := sidecar p .plain
  [.write (tmp side) (M.text (unixLines text.toList)), .replace (tmp side) side] ++
    if kind = .synced ∧ (files txt).isSome = true then [.remove txt] else []

/-- The track has new lyrics and the same audio. -/
def verified (files : Files (FilePath ρ) κ) (p : FilePath ρ) (e : Embedding κ) : Bool :=
  !e.raised && e.ffmpegBefore && e.ffmpegAfter && (files p).map M.audio = some (M.audio e.written)

/-- Nothing is left to be undone. -/
def embedded (files : Files (FilePath ρ) κ) (p : FilePath ρ) (e : Embedding κ) : Bool :=
  verified M files p e && (o.backupDir = none || e.backupFails.isNone) && e.removed

/-- What is done for the backup folder. -/
def backupOps (files : Files (FilePath ρ) κ) (p : FilePath ρ) (e : Embedding κ) :
    List (FileOp (FilePath ρ) κ) :=
  match o.backupDir with
  | none => []
  | some dir =>
    if verified M files p e = false then []
    else
      match e.backupFails with
      | none => [.copy (lyricsBak p) (dir, p.2)]
      | some left => [.write (dir, p.2) left]

/-- What is done to write lyrics into a track. -/
def embedOps (files : Files (FilePath ρ) κ) (p : FilePath ρ) (e : Embedding κ) :
    List (FileOp (FilePath ρ) κ) :=
  [.copy p (lyricsBak p), .write p e.written] ++ backupOps M o files p e ++
    (if embedded M o files p e then [] else [.copy (lyricsBak p) p]) ++ [.remove (lyricsBak p)]

/-- What is done to the files. -/
def writes (files : Files (FilePath ρ) κ) (misses : Misses ρ) (v : Visit ρ κ) :
    List (FileOp (FilePath ρ) κ) :=
  match outcome U o files misses v with
  | .found kind text =>
    if o.apply = false then []
    else if o.embed then embedOps M o files v.path v.embedding
    else if o.upgrade = true ∧ kind ≠ .synced then []
    else sidecarOps M files v.path kind text
  | _ => []

/-- What `finish` does to save the misses, which are `saved` in the file. -/
def finishOps (saved : κ) : List (FileOp (FilePath ρ) κ) :=
  if o.apply then [.write (tmp o.state) saved, .replace (tmp o.state) o.state] else []

/-! ### The run -/

/-- What the run counts. -/
inductive Stat where
  | checked
  | skippedHas
  | skippedNew
  | unreadable
  | skippedKnownMiss
  | foundSynced
  | foundPlain
  | instrumental
  | missing
  | written
  | failed
  deriving DecidableEq, Repr

/-- A lookup that was made. -/
structure Lookup (ρ : Type*) where
  path : FilePath ρ
  asked : ℚ
  ended : ℚ
  outcome : Outcome
  deriving DecidableEq

structure RunState (ρ κ : Type*) where
  files : Files (FilePath ρ) κ
  misses : Misses ρ
  streak : ℕ
  cooldowns : ℕ
  stats : Stat → ℕ
  touched : Finset ρ
  /-- LRCLIB is unhealthy, and the run is over. -/
  stopped : Bool
  /-- The lookups so far. -/
  lookups : List (Lookup ρ)

/-- `FAIL_STREAK`. -/
def failStreak : ℕ := 5

/-- `MAX_COOLDOWNS`. -/
def maxCooldowns : ℕ := 3

namespace RunState

def init (files : Files (FilePath ρ) κ) (misses : Misses ρ) : RunState ρ κ where
  files
  misses
  streak := 0
  cooldowns := 0
  stats _ := 0
  touched := ∅
  stopped := false
  lookups := []

def count (s : RunState ρ κ) (k : Stat) : RunState ρ κ :=
  { s with stats := Function.update s.stats k (s.stats k + 1) }

/-- A lookup is made. -/
def looked (s : RunState ρ κ) (v : Visit ρ κ) (outcome : Outcome) : RunState ρ κ :=
  { s.count .checked with lookups := s.lookups ++ [⟨v.path, v.now, v.later, outcome⟩] }

/-- The lookup failed. -/
def failure (s : RunState ρ κ) : RunState ρ κ :=
  if s.streak + 1 < failStreak then { s.count .failed with streak := s.streak + 1 }
  else if s.cooldowns + 1 < maxCooldowns then
    { s.count .failed with streak := 0, cooldowns := s.cooldowns + 1 }
  else
    { s.count .failed with
      streak := s.streak + 1, cooldowns := s.cooldowns + 1, stopped := true }

/-- The lookup had an answer. -/
def success (s : RunState ρ κ) : RunState ρ κ := { s with streak := 0, cooldowns := 0 }

/-- There are no lyrics. -/
def miss (s : RunState ρ κ) (v : Visit ρ κ) : RunState ρ κ :=
  { s with misses := Function.update s.misses v.path (some v.later) }

end RunState

/-- The lyrics are written, or the attempt is undone. -/
def written (s : RunState ρ κ) (v : Visit ρ κ) (kind : LyricsKind) : RunState ρ κ :=
  let done := { s.count .written with touched := insert v.path.1 s.touched }
  if o.apply = false then s
  else if o.embed then if embedded M o s.files v.path v.embedding then done else s.count .failed
  else if o.upgrade = true ∧ kind ≠ .synced then s
  else done

/-- The run goes on to a file. -/
def step (s : RunState ρ κ) (v : Visit ρ κ) : Option (RunState ρ κ) :=
  if s.stopped then none
  else
    let result := outcome U o s.files s.misses v
    let s' :=
      match result with
      | .ignored => s
      | .skippedNew => s.count .skippedNew
      | .unreadable => s.count .unreadable
      | .skippedHas => s.count .skippedHas
      | .skippedKnownMiss => s.count .skippedKnownMiss
      | .failed => (s.looked v result).failure
      | .missing => (((s.looked v result).success).count .missing).miss v
      | .instrumental => (((s.looked v result).success).count .instrumental).miss v
      | .found kind _ =>
        let found := if kind = LyricsKind.synced then Stat.foundSynced else Stat.foundPlain
        written M o (((s.looked v result).success).count found) v kind
    some { s' with files := FileOp.applyAll s.files (writes U M o s.files s.misses v) }

/-! ### The circuit breaker -/

variable {U M o} {s s' : RunState ρ κ} {v : Visit ρ κ} {visits : List (Visit ρ κ)}
  {files : Files (FilePath ρ) κ} {misses : Misses ρ}

/-- The failed lookups since the last one with an answer. -/
def RunState.failures (s : RunState ρ κ) : ℕ :=
  (MediaHub.streak (fun l : Lookup ρ => l.outcome = Outcome.failed) s.lookups).length

/-- Writing does nothing else to the run. -/
theorem written_eq (s : RunState ρ κ) (v : Visit ρ κ) (kind : LyricsKind) :
    ∃ stats touched, written M o s v kind = { s with stats, touched } := by
  unfold written
  dsimp only
  split
  · exact ⟨_, _, rfl⟩
  split
  · split <;> exact ⟨_, _, rfl⟩
  split <;> exact ⟨_, _, rfl⟩

/-- What a step does to the lookups: there is none, it fails, or it has an answer. -/
theorem step_cases (h : step U M o s v = some s') : s.stopped = false ∧
    ((s'.lookups = s.lookups ∧ s'.misses = s.misses ∧ s'.stopped = false ∧
        s'.streak = s.streak ∧ s'.cooldowns = s.cooldowns) ∨
      (s'.lookups = s.lookups ++ [⟨v.path, v.now, v.later, .failed⟩] ∧
        (outcome U o s.files s.misses v = .failed ∧ s'.misses = s.misses) ∧
        (s.streak + 1 < failStreak ∧ s'.stopped = false ∧ s'.streak = s.streak + 1 ∧
            s'.cooldowns = s.cooldowns ∨
          failStreak ≤ s.streak + 1 ∧ s.cooldowns + 1 < maxCooldowns ∧ s'.stopped = false ∧
            s'.streak = 0 ∧ s'.cooldowns = s.cooldowns + 1 ∨
          failStreak ≤ s.streak + 1 ∧ maxCooldowns ≤ s.cooldowns + 1 ∧ s'.stopped = true)) ∨
      ∃ out ∉ skips, out ≠ .failed ∧ s'.lookups = s.lookups ++ [⟨v.path, v.now, v.later, out⟩] ∧
        s'.stopped = false ∧ s'.streak = 0 ∧ s'.cooldowns = 0 ∧
        outcome U o s.files s.misses v = out ∧
        s'.misses = if out = .missing ∨ out = .instrumental then
          Function.update s.misses v.path (some v.later) else s.misses) := by
  obtain ⟨hgoing, h⟩ := Option.ite_none_left_eq_some.mp h
  rw [Bool.not_eq_true] at hgoing
  refine ⟨hgoing, ?_⟩
  cases h
  cases hout : outcome U o s.files s.misses v with
  | ignored | skippedNew | unreadable | skippedHas | skippedKnownMiss =>
    exact .inl ⟨rfl, rfl, hgoing, rfl, rfl⟩
  | failed =>
    refine .inr (.inl ?_)
    dsimp only [RunState.failure, RunState.looked, RunState.count]
    split
    next hlt => exact ⟨rfl, ⟨rfl, rfl⟩, .inl ⟨hlt, hgoing, rfl, rfl⟩⟩
    next hge =>
      split
      next hlt => exact ⟨rfl, ⟨rfl, rfl⟩, .inr (.inl ⟨not_lt.mp hge, hlt, hgoing, rfl, rfl⟩)⟩
      next hmax => exact ⟨rfl, ⟨rfl, rfl⟩, .inr (.inr ⟨not_lt.mp hge, not_lt.mp hmax, rfl⟩)⟩
  | missing =>
    exact .inr (.inr ⟨.missing, by decide, nofun, rfl, hgoing, rfl, rfl, rfl, rfl⟩)
  | instrumental =>
    exact .inr (.inr ⟨.instrumental, by decide, nofun, rfl, hgoing, rfl, rfl, rfl, rfl⟩)
  | found kind text =>
    obtain ⟨stats, touched, heq⟩ := written_eq (M := M) (o := o)
      (((s.looked v (.found kind text)).success).count
        (if kind = LyricsKind.synced then Stat.foundSynced else Stat.foundPlain)) v kind
    refine .inr (.inr ⟨.found kind text, by simp [skips], nofun, ?_⟩)
    dsimp only
    rw [heq]
    exact ⟨rfl, hgoing, rfl, rfl, rfl, rfl⟩

/-- The counters stand for the failed lookups. -/
structure Counts (s : RunState ρ κ) : Prop where
  going : s.stopped = false →
    s.failures = failStreak * s.cooldowns + s.streak ∧ s.streak < failStreak ∧
      s.cooldowns < maxCooldowns
  stopped : s.stopped = true → s.failures = failStreak * maxCooldowns

theorem Counts.step (hc : Counts s) (h : step U M o s v = some s') : Counts s' := by
  obtain ⟨hgoing, hnone | ⟨hlookups, -, hfail⟩ | ⟨out, -, hne, hlookups, hstop, hstreak,
    hcool, -⟩⟩ :=
    step_cases h
  · obtain ⟨hlookups, -, hstop, hstreak, hcool⟩ := hnone
    refine ⟨fun _ => ?_, fun hstop' => absurd hstop' (by simp [hstop])⟩
    rw [RunState.failures, hlookups, hstreak, hcool]
    exact hc.going hgoing
  · obtain ⟨hcount, hlt, hless⟩ := hc.going hgoing
    have hnew : s'.failures = s.failures + 1 := by
      rw [RunState.failures, hlookups, streak_concat]
      rfl
    rcases hfail with ⟨hlow, hstop, hstreak, hcool⟩ | ⟨hfull, hlow, hstop, hstreak, hcool⟩ |
      ⟨hfull, hmax, hstop⟩
    · refine ⟨fun _ => ?_, fun hstop' => absurd hstop' (by simp [hstop])⟩
      rw [hnew, hstreak, hcool, hcount]
      exact ⟨rfl, hlow, hless⟩
    · refine ⟨fun _ => ?_, fun hstop' => absurd hstop' (by simp [hstop])⟩
      rw [hnew, hstreak, hcool, hcount]
      refine ⟨?_, by decide, hlow⟩
      unfold failStreak at *
      omega
    · refine ⟨fun hstop' => absurd hstop' (by simp [hstop]), fun _ => ?_⟩
      rw [hnew, hcount]
      unfold failStreak maxCooldowns at *
      omega
  · refine ⟨fun _ => ?_, fun hstop' => absurd hstop' (by simp [hstop])⟩
    rw [RunState.failures, hlookups, streak_concat, if_neg (by simpa using hne), hstreak, hcool]
    exact ⟨rfl, by decide, by decide⟩

/-- **A run stops just when fifteen lookups in a row failed**, and never makes more of them
in a row. -/
theorem stopsAfterFifteen (hrun : runSteps (step U M o) (.init files misses) visits = some s) :
    s.failures ≤ 15 ∧ (s.stopped = true ↔ s.failures = 15) := by
  have hinit : Counts (RunState.init files misses : RunState ρ κ) :=
    ⟨fun _ => ⟨rfl, Nat.succ_pos 4, Nat.succ_pos 2⟩, nofun⟩
  have hc := invariant_of_runSteps (fun _ _ _ hc h => Counts.step hc h) hinit hrun
  cases hstop : s.stopped with
  | true => exact ⟨(hc.stopped hstop).le, fun _ => hc.stopped hstop, fun _ => rfl⟩
  | false =>
    obtain ⟨hcount, hlt, hless⟩ := hc.going hstop
    unfold failStreak maxCooldowns at *
    exact ⟨by omega, nofun, fun h => absurd h (by omega)⟩

/-! ### A track -/

def asciiCharacters : Characters := ⟨.ascii, Char.isAlphanum⟩

/-- Files of a sound and a text. -/
def soundAndText : Contents String where
  text := String.ofList
  audio c := String.ofList (c.toList.takeWhile (· ≠ '|'))

/-- A track without lyrics, to which LRCLIB replies. -/
def song (now : ℚ) (reply : Reply Entry) : Visit ℕ String where
  path := (0, "song.mp3".toList)
  mtime := 0
  now
  tags := some ⟨"Song", 200, false⟩
  exact _ := reply
  search _ := .json none
  later := now + 1
  embedding := ⟨"sound|words", false, true, true, none, true⟩

def sidecarOptions : Options ℕ := ⟨true, false, false, 3600, none, (9, "misses.json".toList)⟩

def embedOptions : Options ℕ := { sidecarOptions with embed := true }

/-- LRCLIB is down. -/
theorem stopsAfterFifteen_down : ∃ s,
    runSteps (step asciiCharacters soundAndText sidecarOptions)
      (.init (fun _ => none) fun _ => none) (List.replicate 15 (song 9000000 .netError)) = some s ∧
      s.failures = 15 := by
  have hstop : (runSteps (step asciiCharacters soundAndText sidecarOptions)
      (.init (fun _ => none) fun _ => none) (List.replicate 15 (song 9000000 .netError))).map
      RunState.stopped = some true := by decide +kernel
  obtain ⟨s, hrun, hs⟩ := Option.map_eq_some_iff.mp hstop
  exact ⟨s, hrun, (stopsAfterFifteen hrun).2.mp hs⟩

/-! ### Misses that are remembered -/

/-- A run of the script: the files may have changed since the last one, the misses may not be
read, and `finish` may not be able to save them. -/
structure RunOfScript (ρ κ : Type*) where
  options : Options ρ
  files : Files (FilePath ρ) κ
  /-- The state file can be read, if there is one. -/
  readable : Bool
  visits : List (Visit ρ κ)
  saved : Bool

/-- What the run begins with. -/
def RunOfScript.start (run : RunOfScript ρ κ) (misses : Misses ρ) : RunState ρ κ :=
  .init run.files (if run.readable then misses else fun _ => none)

/-- What is known after some runs. -/
structure Memory (ρ : Type*) where
  /-- The state file. -/
  misses : Misses ρ
  /-- All lookups so far. -/
  lookups : List (Lookup ρ)

variable (U M) in
/-- A whole run. -/
def stepRun (m : Memory ρ) (run : RunOfScript ρ κ) : Option (Memory ρ) :=
  (runSteps (step U M run.options) (run.start m.misses) run.visits).map fun s =>
    { misses := if run.options.apply && run.saved then s.misses else m.misses
      lookups := m.lookups ++ s.lookups }

/-- LRCLIB has no lyrics for the track. -/
def Lookup.isMiss (l : Lookup ρ) : Prop := l.outcome = .missing ∨ l.outcome = .instrumental

instance (l : Lookup ρ) : Decidable l.isMiss :=
  inferInstanceAs (Decidable (_ ∨ _))

/-- After a miss the track is left alone for a while, and it is remembered. -/
structure Spares (misses : Misses ρ) (lookups : List (Lookup ρ)) : Prop where
  apart : lookups.Pairwise fun a b => a.path = b.path → a.isMiss → a.ended + missTtl ≤ b.asked
  remembered : ∀ a ∈ lookups, a.isMiss → ∃ t, misses a.path = some t ∧ a.ended ≤ t

omit [DecidableEq ρ] in
/-- A track that is looked up is no known miss. -/
theorem missTtl_le (hupgrade : o.upgrade = false)
    (h : outcome U o files misses v ∉ skips) :
    missTtl ≤ v.now - (misses v.path).getD 0 := by
  unfold outcome at h
  split at h
  · exact absurd h (by decide)
  split at h
  · exact absurd h (by decide)
  split at h
  · exact absurd h (by decide)
  split at h
  · exact absurd h (by decide)
  split at h
  · exact absurd h (by decide)
  next hold => exact not_lt.mp fun hlt => hold ⟨hlt, hupgrade⟩

variable {hist : List (Lookup ρ)}

/-- One more lookup. -/
theorem Spares.concat (hs : Spares misses hist) {l : Lookup ρ} (hclock : l.asked ≤ l.ended)
    (hold : missTtl ≤ l.asked - (misses l.path).getD 0) {misses' : Misses ρ}
    (hmisses : misses' = if l.isMiss then Function.update misses l.path (some l.ended)
      else misses) : Spares misses' (hist ++ [l]) := by
  have hbefore : ∀ a ∈ hist, a.path = l.path → a.isMiss → a.ended + missTtl ≤ l.asked := by
    intro a ha hpath hmiss
    obtain ⟨t, ht, hle⟩ := hs.remembered a ha hmiss
    rw [← hpath, ht, Option.getD_some] at hold
    linarith
  constructor
  · refine List.pairwise_append.mpr ⟨hs.apart, List.pairwise_singleton _ _, ?_⟩
    intro a ha b hb
    rw [List.mem_singleton.mp hb]
    exact hbefore a ha
  · intro a ha hmiss
    rcases List.mem_append.mp ha with ha | ha
    · obtain ⟨t, ht, hle⟩ := hs.remembered a ha hmiss
      rw [hmisses]
      split
      · rcases eq_or_ne a.path l.path with hpath | hpath
        · refine ⟨l.ended, by rw [hpath, Function.update_self], ?_⟩
          have hpos : (0 : ℚ) ≤ missTtl := by decide +kernel
          have := hbefore a ha hpath hmiss
          linarith
        · exact ⟨t, by rw [Function.update_of_ne hpath, ht], hle⟩
      · exact ⟨t, ht, hle⟩
    · obtain rfl := List.mem_singleton.mp ha
      refine ⟨a.ended, ?_, le_rfl⟩
      rw [hmisses, if_pos hmiss, Function.update_self]

theorem Spares.step (hs : Spares s.misses (hist ++ s.lookups)) (hupgrade : o.upgrade = false)
    (hclock : v.now ≤ v.later) (h : step U M o s v = some s') :
    Spares s'.misses (hist ++ s'.lookups) := by
  obtain ⟨-, ⟨hlookups, hmisses, -⟩ | ⟨hlookups, ⟨hout, hmisses⟩, -⟩ |
    ⟨out, hlooked, -, hlookups, -, -, -, hout, hmisses⟩⟩ := step_cases h
  · rw [hlookups, hmisses]
    exact hs
  · rw [hlookups, ← List.append_assoc]
    refine hs.concat hclock (missTtl_le hupgrade (by rw [hout]; decide)) ?_
    rw [if_neg (by simp [Lookup.isMiss]), hmisses]
  · rw [hlookups, ← List.append_assoc]
    exact hs.concat hclock (missTtl_le hupgrade (by rwa [hout])) hmisses

/-- **A track without lyrics is not looked up again within 30 days**: in any runs that read,
write and save what they miss, none of which is to upgrade, whatever becomes of the files. -/
theorem notAskedAgain {runs : List (RunOfScript ρ κ)} {m : Memory ρ}
    (hsaved : ∀ run ∈ runs, run.options.apply = true ∧ run.saved = true)
    (hread : ∀ run ∈ runs, run.readable = true)
    (hupgrade : ∀ run ∈ runs, run.options.upgrade = false)
    (hclock : ∀ run ∈ runs, ∀ v ∈ run.visits, v.now ≤ v.later)
    (hrun : runSteps (stepRun U M) ⟨misses, []⟩ runs = some m) :
    m.lookups.Pairwise fun a b => a.path = b.path → a.isMiss → a.ended + missTtl ≤ b.asked := by
  have hall : AllSteps (stepRun U M) (fun _ run => run ∈ runs) ⟨misses, []⟩ runs :=
    allSteps_of_forall fun run hmem => hmem
  have hinit : Spares (⟨misses, []⟩ : Memory ρ).misses (⟨misses, []⟩ : Memory ρ).lookups :=
    ⟨List.Pairwise.nil, nofun⟩
  refine (invariant_of_allSteps (I := fun m : Memory ρ => Spares m.misses m.lookups) ?_ hinit hall
    hrun).apart
  intro m run m' hm hmem h
  obtain ⟨s, hs, rfl⟩ := Option.map_eq_some_iff.mp h
  obtain ⟨hwrites, hsave⟩ := hsaved run hmem
  have hbegin : run.start m.misses = .init run.files m.misses := by
    rw [RunOfScript.start, if_pos (hread run hmem)]
  rw [hbegin] at hs
  have hvisits : AllSteps (Lrclib.step U M run.options) (fun _ v => v ∈ run.visits)
      (.init run.files m.misses) run.visits := allSteps_of_forall fun v hv => hv
  have hstart : Spares (RunState.init run.files m.misses : RunState ρ κ).misses
      (m.lookups ++ (RunState.init run.files m.misses : RunState ρ κ).lookups) := by
    simpa [RunState.init] using hm
  have hend : Spares s.misses (m.lookups ++ s.lookups) := by
    refine invariant_of_allSteps
      (I := fun s : RunState ρ κ => Spares s.misses (m.lookups ++ s.lookups)) ?_ hstart hvisits hs
    intro s v s' hs hv h
    exact hs.step (hupgrade run hmem) (hclock run hmem v hv) h
  simpa [hwrites, hsave] using hend

/-- LRCLIB has nothing, and is asked again after a month. -/
theorem notAskedAgain_month : ∃ m,
    runSteps (stepRun asciiCharacters soundAndText) ⟨fun _ => none, []⟩
      ([9000000, 9000000 + 86400, 9000000 + 31 * 86400].map fun now =>
        ⟨sidecarOptions, fun _ => none, true, [song now (.json none)], true⟩) = some m ∧
      m.lookups.length = 2 ∧
      m.lookups.Pairwise fun a b => a.path = b.path → a.isMiss → a.ended + missTtl ≤ b.asked := by
  have hlength : (runSteps (stepRun asciiCharacters soundAndText) ⟨fun _ => none, []⟩
      ([9000000, 9000000 + 86400, 9000000 + 31 * 86400].map fun now =>
        ⟨sidecarOptions, fun _ => none, true, [song now (.json none)], true⟩)).map
      (fun m => m.lookups.length) = some 2 := by decide +kernel
  obtain ⟨m, hrun, hm⟩ := Option.map_eq_some_iff.mp hlength
  refine ⟨m, hrun, hm, notAskedAgain ?_ ?_ ?_ ?_ hrun⟩
  · simp [sidecarOptions]
  · simp
  · simp [sidecarOptions]
  · simp [song]

end Lrclib
end MediaHub

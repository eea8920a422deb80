import MediaHub.Lib.StepRuns
import MediaHub.Lib.Streak
import Mathlib.Algebra.Order.Ring.Rat
import Mathlib.Data.List.Nodup

/-!
# Tracks that keep failing

`stacks/lidarr-ytdl/patches/processing.py`, `_compute_deferred_tracks`, `_track_retry_at` and
`_filter_tracks`: the tracks of an album that are tried in a run are those that Lidarr lacks,
that are not on the disk, and that are not backing off.  After each failure in a row the wait
doubles, and after so many of them a track is given up.

The attempts are recorded in the database, whose queries are not part of the repository: how
many times a track failed in a row, and when it did so last, is a parameter.

## Main definitions

* `trackRetryAt`, `computeDeferredTracks`, `filterTracks` — the decisions.
* `step` — a run of an album, with what becomes of the tracks it tries.

## Main results

* `backsOff` — **the failures of a track in a row are as far apart as the waits demand, and
  not more than were allowed.**
* `triedAgain` — **without a limit no track waits for more than the longest wait.**
-/

namespace MediaHub
namespace LidarrYtdl
namespace Backoff

/-! ### The decisions -/

structure Settings where
  /-- `track_retry_backoff`. -/
  trackRetryBackoff : Bool
  /-- `max_track_retries`, `0` for what is no number. -/
  maxTrackRetries : ℤ
  /-- `retry_cooldown_seconds(cfg)`. -/
  retryCooldown : ℚ
  deriving DecidableEq, Repr

/-- `_TRACK_BACKOFF_MAX_SECONDS`. -/
def maxSeconds : ℚ := 30 * 24 * 3600

/-- `_TRACK_BACKOFF_MAX_EXPONENT`. -/
def maxExponent : ℕ := 20

/-- The wait after so many failures. -/
def wait (cfg : Settings) (failures : ℕ) : ℚ :=
  let base := if cfg.retryCooldown = 0 then 24 * 3600 else cfg.retryCooldown
  min (base * 2 ^ min (failures - 1) maxExponent) maxSeconds

/-- `_track_retry_at`; `none` for a track that is given up. -/
def trackRetryAt (failures : ℕ) (lastFailure : ℚ) (cfg : Settings) : Option ℚ :=
  if 0 < cfg.maxTrackRetries ∧ cfg.maxTrackRetries ≤ failures then none
  else if cfg.trackRetryBackoff = false then some 0
  else some (lastFailure + wait cfg failures)

structure Track where
  title : String
  hasFile : Bool
  /-- `os.path.exists(final_file)`. -/
  onDisk : Bool
  deriving DecidableEq, Repr

/-- The values of the map that `_compute_deferred_tracks` returns. -/
structure Deferred where
  failures : ℕ
  retryAt : Option ℚ
  deriving DecidableEq, Repr

/-- `_compute_deferred_tracks`, where `counts` is what `models.get_track_failure_counts` has of
each title, or `none` if it raises an exception. -/
def computeDeferredTracks (cfg : Settings) (albumId : Option ℤ) (tracks : List Track)
    (counts : Option (String → Option (ℕ × ℚ))) (now : ℚ) : List (String × Deferred) :=
  if albumId.all (· < 0) then []
  else if cfg.trackRetryBackoff = false ∧ cfg.maxTrackRetries ≤ 0 then []
  else
    match counts with
    | none => []
    | some counts => tracks.filterMap fun t =>
      (counts t.title).bind fun (failures, lastFailure) =>
        let retryAt := trackRetryAt failures lastFailure cfg
        if retryAt.all (now < ·) then some (t.title, ⟨failures, retryAt⟩) else none

/-- `_filter_tracks`. -/
def filterTracks (tracks : List Track) (force : Bool) (deferred : List (String × Deferred)) :
    List Track :=
  tracks.filter fun t => force ||
    (!t.hasFile && !(deferred.map Prod.fst).contains t.title && !t.onDisk)

/-! ### The runs of an album -/

/-- A recorded attempt. -/
structure Attempt where
  title : String
  time : ℚ
  success : Bool
  deriving DecidableEq, Repr

/-- A run of the album at the time `now`.  What is tried ends at some time, with success or
not; a track that the run does not get to leaves no record. -/
structure AlbumRun where
  now : ℚ
  force : Bool
  ignoreBackoff : Bool
  /-- The database answers what the run asks it. -/
  answers : Bool
  tracks : List Track
  outcome : Track → Option (ℚ × Bool)

variable (cfg : Settings) (counts : List Attempt → String → Option (ℕ × ℚ)) (albumId : ℤ)

/-- The tracks that a run tries. -/
def triedTracks (log : List Attempt) (run : AlbumRun) : List Track :=
  let deferred :=
    if run.force || run.ignoreBackoff then []
    else
      let found := if run.answers then some (counts log) else none
      computeDeferredTracks cfg (some albumId) run.tracks found run.now
  filterTracks run.tracks run.force deferred

/-- What is recorded of the tracks that were tried. -/
def recorded (outcome : Track → Option (ℚ × Bool)) (tracks : List Track) : List Attempt :=
  tracks.filterMap fun t => (outcome t).map fun o => ⟨t.title, o.1, o.2⟩

/-- A run records attempts at the tracks that it tries, and not before it began. -/
def step (log : List Attempt) (run : AlbumRun) : Option (List Attempt) :=
  let new := recorded run.outcome (triedTracks cfg counts albumId log run)
  if ∀ a ∈ new, run.now ≤ a.time then some (log ++ new) else none

/-- The times of the failures of a title since its last success, newest first. -/
def failures (title : String) (log : List Attempt) : List ℚ :=
  (streak (fun a => !a.success) (log.filter fun a => a.title = title)).map Attempt.time

/-- What `models.get_track_failure_counts` answers: the number of failures in a row, and the
time of the last. -/
def CountsFailures : Prop :=
  ∀ log title, counts log title
    = (failures title log).head?.map fun t => ((failures title log).length, t)

/-- A run that was not asked for by hand, of an album without a title twice, and which the
database answers. -/
structure Automatic (run : AlbumRun) : Prop where
  force : run.force = false
  ignoreBackoff : run.ignoreBackoff = false
  answers : run.answers = true
  nodup : (run.tracks.map Track.title).Nodup

variable {cfg counts albumId} {log log' : List Attempt} {run : AlbumRun} {runs : List AlbumRun}
  {title : String}

/-! ### What a run does to a track -/

/-- A track that is tried does not back off. -/
theorem retryAt_le_of_tried (halbum : 0 ≤ albumId) (hauto : Automatic run) {t : Track}
    (ht : t ∈ triedTracks cfg counts albumId log run)
    (hcfg : cfg.trackRetryBackoff = true ∨ 0 < cfg.maxTrackRetries) {n : ℕ} {last : ℚ}
    (hcount : counts log t.title = some (n, last)) :
    ∃ r, trackRetryAt n last cfg = some r ∧ r ≤ run.now := by
  simp only [triedTracks, hauto.force, hauto.ignoreBackoff, hauto.answers, Bool.or_false,
    Bool.false_eq_true, if_false, if_true, filterTracks, Bool.false_or, List.mem_filter,
    Bool.and_eq_true, Bool.not_eq_true'] at ht
  obtain ⟨hin, ⟨-, hdefer⟩, -⟩ := ht
  by_contra hnone
  refine Bool.false_ne_true (hdefer.symm.trans (List.contains_iff_mem.mpr ?_))
  have hall : (trackRetryAt n last cfg).all (run.now < ·) = true := by
    cases hr : trackRetryAt n last cfg with
    | none => rfl
    | some r => exact decide_eq_true (not_le.mp fun hle => hnone ⟨r, hr, hle⟩)
  have hon : ¬(cfg.trackRetryBackoff = false ∧ cfg.maxTrackRetries ≤ 0) := by
    rintro ⟨hoff, hle⟩
    rcases hcfg with hon | hpos
    · exact Bool.false_ne_true (hoff.symm.trans hon)
    · exact absurd hle (not_le.mpr hpos)
  rw [computeDeferredTracks, if_neg (by simpa using halbum), if_neg hon]
  refine List.mem_map.mpr ⟨(t.title, ⟨n, trackRetryAt n last cfg⟩), ?_, rfl⟩
  refine List.mem_filterMap.mpr ⟨t, hin, ?_⟩
  rw [hcount, Option.bind_some]
  exact if_pos hall

/-- There is at most one attempt for a title. -/
theorem filter_recorded {outcome : Track → Option (ℚ × Bool)} {tracks : List Track}
    (hnodup : (tracks.map Track.title).Nodup) (title : String) :
    ((recorded outcome tracks).filter fun a => a.title = title) = [] ∨
      ∃ t ∈ tracks, t.title = title ∧ ∃ a ∈ recorded outcome tracks,
        ((recorded outcome tracks).filter fun a => a.title = title) = [a] := by
  induction tracks with
  | nil => exact .inl rfl
  | cons t tracks ih =>
    obtain ⟨hnew, hrest⟩ := List.nodup_cons.mp hnodup
    cases ho : outcome t with
    | none =>
      have hskip : recorded outcome (t :: tracks) = recorded outcome tracks := by
        simp [recorded, ho]
      rw [hskip]
      refine (ih hrest).imp_right ?_
      rintro ⟨t', ht', htitle⟩
      exact ⟨t', List.mem_cons_of_mem t ht', htitle⟩
    | some o =>
      have hcons : recorded outcome (t :: tracks)
          = ⟨t.title, o.1, o.2⟩ :: recorded outcome tracks := by simp [recorded, ho]
      rw [hcons, List.filter_cons]
      rcases eq_or_ne t.title title with rfl | hne
      · rw [if_pos (decide_eq_true rfl)]
        rcases ih hrest with hnone | ⟨t', ht', hname, -⟩
        · rw [hnone]
          exact .inr ⟨t, List.mem_cons_self, rfl, _, List.mem_cons_self, rfl⟩
        · exact absurd (hname ▸ List.mem_map_of_mem ht') hnew
      · rw [if_neg (by simpa using hne)]
        refine (ih hrest).imp_right ?_
        rintro ⟨t', ht', hname, a, ha, heq⟩
        exact ⟨t', List.mem_cons_of_mem t ht', hname, a, List.mem_cons_of_mem _ ha, heq⟩

/-- What a run makes of the failures of a title. -/
theorem failures_step (hs : step cfg counts albumId log run = some log') (hauto : Automatic run)
    (title : String) :
    failures title log' = failures title log ∨ failures title log' = [] ∨
      ∃ t ∈ triedTracks cfg counts albumId log run, t.title = title ∧
        ∃ time, run.now ≤ time ∧ failures title log' = time :: failures title log := by
  obtain ⟨hnow, hs⟩ := Option.ite_none_right_eq_some.mp hs
  cases hs
  have hnodup : ((triedTracks cfg counts albumId log run).map Track.title).Nodup :=
    hauto.nodup.sublist (List.filter_sublist.map _)
  unfold failures
  rw [List.filter_append]
  rcases filter_recorded hnodup title with hnone | ⟨t, ht, hname, a, ha, hone⟩
  · rw [hnone, List.append_nil]
    exact .inl rfl
  · rw [hone, streak_concat]
    cases hok : a.success with
    | true => exact .inr (.inl rfl)
    | false => exact .inr (.inr ⟨t, ht, hname, a.time, hnow a ha, rfl⟩)

/-! ### All runs -/

/-- The failures of every title are spaced and not too many. -/
structure Kept (cfg : Settings) (log : List Attempt) : Prop where
  spaced : cfg.trackRetryBackoff = true → ∀ title, Spaced (wait cfg) (failures title log)
  limited : 0 < cfg.maxTrackRetries →
    ∀ title, ((failures title log).length : ℤ) ≤ cfg.maxTrackRetries

theorem Kept.step (hcounts : CountsFailures counts) (halbum : 0 ≤ albumId) (h : Kept cfg log)
    (hauto : Automatic run) (hs : step cfg counts albumId log run = some log') :
    Kept cfg log' := by
  have hretry : ∀ t ∈ triedTracks cfg counts albumId log run, ∀ last,
      (cfg.trackRetryBackoff = true ∨ 0 < cfg.maxTrackRetries) →
      (failures t.title log).head? = some last →
        ∃ r, trackRetryAt (failures t.title log).length last cfg = some r ∧ r ≤ run.now := by
    intro t ht last hcfg hlast
    refine retryAt_le_of_tried halbum hauto ht hcfg ?_
    rw [hcounts, hlast, Option.map_some]
  constructor
  · intro hbackoff title
    rcases failures_step hs hauto title with heq | heq | ⟨t, ht, rfl, time, htime, heq⟩
    · rw [heq]
      exact h.spaced hbackoff title
    · rw [heq]
      trivial
    · rw [heq]
      refine (h.spaced hbackoff _).cons fun last hlast => ?_
      obtain ⟨r, hr, hle⟩ := hretry t ht last (.inl hbackoff) hlast
      obtain ⟨-, hr⟩ := Option.ite_none_left_eq_some.mp hr
      rw [if_neg (by simp [hbackoff]), Option.some.injEq] at hr
      rw [hr]
      exact hle.trans htime
  · intro hpos title
    rcases failures_step hs hauto title with heq | heq | ⟨t, ht, rfl, time, -, heq⟩
    · rw [heq]
      exact h.limited hpos title
    · rw [heq]
      exact hpos.le
    · rw [heq, List.length_cons]
      cases hlast : (failures t.title log).head? with
      | none =>
        rw [List.head?_eq_none_iff.mp hlast, List.length_nil]
        omega
      | some last =>
        obtain ⟨r, hr, -⟩ := hretry t ht last (.inr hpos) hlast
        obtain ⟨hmore, -⟩ := Option.ite_none_left_eq_some.mp hr
        have hlt := not_le.mp fun hle => hmore ⟨hpos, hle⟩
        push_cast
        omega

/-- **The failures of a track in a row are as far apart as the waits demand, and not more
than were allowed**: after any automatic runs of an album, with backoff on, the first and
the last of the failures of a title since its last success are at least the sum of the
waits between them apart; and with a limit there are not more of them than that. -/
theorem backsOff (hcounts : CountsFailures counts) (halbum : 0 ≤ albumId)
    (hauto : ∀ run ∈ runs, Automatic run)
    (hrun : runSteps (step cfg counts albumId) [] runs = some log) (title : String) :
    (cfg.trackRetryBackoff = true → ∀ t ts, failures title log = t :: ts →
      (t :: ts).getLast (List.cons_ne_nil t ts) +
        ∑ k ∈ Finset.range ts.length, wait cfg (k + 1) ≤ t) ∧
      (0 < cfg.maxTrackRetries →
        ((failures title log).length : ℤ) ≤ cfg.maxTrackRetries) := by
  have hinit : Kept cfg [] := ⟨fun _ _ => trivial, fun hpos _ => hpos.le⟩
  have hall : AllSteps (step cfg counts albumId) (fun _ run => Automatic run) [] runs :=
    allSteps_of_forall hauto
  have h : Kept cfg log := by
    refine invariant_of_allSteps ?_ hinit hall hrun
    intro log run log' hkept hrun hs
    exact hkept.step hcounts halbum hrun hs
  refine ⟨fun hbackoff t ts heq => ?_, fun hpos => h.limited hpos title⟩
  have hspaced := h.spaced hbackoff title
  rw [heq] at hspaced
  exact hspaced.sum_le

/-- The answer that the database gives. -/
def trackFailureCounts (log : List Attempt) (title : String) : Option (ℕ × ℚ) :=
  (failures title log).head?.map fun t => ((failures title log).length, t)

/-- A song that is not found on three days. -/
theorem backsOff_threeDays :
    let cfg : Settings := ⟨true, 0, 24 * 3600⟩
    let runs : List AlbumRun := [0, 100000, 300000].map fun now =>
      ⟨now, false, false, true, [⟨"Song", false, false⟩], fun _ => some (now + 60, false)⟩
    let log : List Attempt :=
      [⟨"Song", 60, false⟩, ⟨"Song", 100060, false⟩, ⟨"Song", 300060, false⟩]
    runSteps (step cfg trackFailureCounts 7) [] runs = some log ∧
      (60 : ℚ) + ∑ k ∈ Finset.range 2, wait cfg (k + 1) ≤ 300060 := by
  intro cfg runs log
  have hrun : runSteps (step cfg trackFailureCounts 7) [] runs = some log := by decide +kernel
  have hauto : ∀ run ∈ runs, Automatic run := by
    intro run hrun
    obtain ⟨now, -, rfl⟩ := List.mem_map.mp hrun
    exact ⟨rfl, rfl, rfl, List.nodup_singleton _⟩
  have h := (backsOff (fun _ _ => rfl) (by decide) hauto hrun "Song").1 rfl 300060 [100060, 60]
    (by decide +kernel)
  exact ⟨hrun, h⟩

/-- **Without a limit no track waits for more than the longest wait**: a track that Lidarr
lacks and that is not on the disk is tried in every run that comes that long after its last
failure. -/
theorem triedAgain (hcounts : CountsFailures counts) (hmax : cfg.maxTrackRetries ≤ 0)
    {t : Track} (ht : t ∈ run.tracks) (hfile : t.hasFile = false) (hdisk : t.onDisk = false)
    (hlong : ∀ last, (failures t.title log).head? = some last → last + maxSeconds ≤ run.now)
    (hnow : 0 ≤ run.now) : t ∈ triedTracks cfg counts albumId log run := by
  have hnone : ∀ albumId, t.title ∉ (computeDeferredTracks cfg albumId run.tracks
      (if run.answers then some (counts log) else none) run.now).map Prod.fst := by
    intro albumId hin
    obtain ⟨⟨_, d⟩, hd, rfl⟩ := List.mem_map.mp hin
    unfold computeDeferredTracks at hd
    split at hd
    · exact absurd hd List.not_mem_nil
    split at hd
    · exact absurd hd List.not_mem_nil
    split at hd
    · exact absurd hd List.not_mem_nil
    next found hfound =>
    obtain ⟨-, hfound⟩ := Option.ite_none_right_eq_some.mp hfound
    obtain rfl := Option.some.inj hfound
    obtain ⟨t', -, hd⟩ := List.mem_filterMap.mp hd
    obtain ⟨⟨n, last⟩, hcount, hd⟩ := Option.bind_eq_some_iff.mp hd
    obtain ⟨hlater, hd⟩ := Option.ite_none_right_eq_some.mp hd
    have hname : t'.title = t.title := (Prod.ext_iff.mp (Option.some.inj hd)).1
    rw [hname, hcounts] at hcount
    obtain ⟨_, hhead, heq⟩ := Option.map_eq_some_iff.mp hcount
    cases heq
    have hwait : wait cfg (failures t.title log).length ≤ maxSeconds := min_le_right _ _
    rw [trackRetryAt, if_neg fun h => absurd h.1 (not_lt.mpr hmax)] at hlater
    split at hlater
    · exact absurd (of_decide_eq_true hlater) (not_lt.mpr hnow)
    · refine absurd (of_decide_eq_true hlater) (not_lt.mpr ?_)
      exact (add_le_add_right hwait _).trans (hlong _ hhead)
  refine List.mem_filter.mpr ⟨ht, ?_⟩
  rw [hfile, hdisk]
  by_cases hby : run.force || run.ignoreBackoff
  · simp [hby]
  · have hfree := hnone (some albumId)
    rw [← List.contains_iff_mem, Bool.not_eq_true] at hfree
    rw [if_neg hby, hfree]
    exact Bool.or_true run.force

end Backoff
end LidarrYtdl
end MediaHub

import Mathlib.Algebra.Order.Ring.Unbundled.Rat
import Mathlib.Data.Finset.Card

/-!
# The scheduler

`stacks/lidarr-ytdl/patches/scheduler.py`, `_scheduled_check`: the missing albums that
Lidarr lists are queued for download, but for those that are queued, were tried lately or
are being downloaded.  The patch wants one pass first: no album is tried again while some
album was never tried.  What Lidarr, the history and the settings answer are inputs.

## Main definitions

* `scheduledCheck` — the whole check.
* `OnePassFirst` — what the patch promises.
* `passesOver` — all albums that were never tried are held back, and another is not.

## Main results

* `onePassFirst_iff` — **the promise is kept just where no such albums are passed over.**
* `queuedFirst_passedOver` — the album to be tried first waits in the queue.
-/

namespace MediaHub
namespace LidarrYtdl
namespace Scheduler

/-- A missing album, as Lidarr lists it. -/
structure Album where
  id : ℤ
  missingTrackCount : Option ℤ
  deriving DecidableEq, Repr

/-- `album.get("missingTrackCount", 0)`. -/
def Album.missing (a : Album) : ℤ := a.missingTrackCount.getD 0

/-- The settings that are read. -/
structure Settings where
  schedulerInterval : Option ℤ
  /-- `retry_cooldown_seconds(config)`. -/
  retryCooldown : ℚ
  schedulerMaxAlbums : Option ℤ
  schedulerAutoDownload : Option Bool
  deriving DecidableEq, Repr

namespace Settings

/-- `_interval_minutes`. -/
def intervalMinutes (cfg : Settings) : ℤ := max 1 (cfg.schedulerInterval.getD 60)

def maxAlbums (cfg : Settings) : ℤ := cfg.schedulerMaxAlbums.getD 0

def autoDownload (cfg : Settings) : Bool := cfg.schedulerAutoDownload.getD true

end Settings

/-- What a check meets. -/
structure World where
  /-- `download_process["active"]`. -/
  active : Bool
  config : Settings
  albums : List Album
  now : ℚ
  /-- `models.get_history_album_ids_since`. -/
  historySince : ℚ → Finset ℤ
  /-- `models.get_attempted_album_ids_since`. -/
  attemptedSince : ℚ → Finset ℤ
  /-- `download_process.get("album_id")`. -/
  currentDownloadId : Option ℤ
  /-- The albums of `models.get_queue()`. -/
  queuedIds : Finset ℤ
  /-- `_last_reported_ids`. -/
  lastReportedIds : Finset ℤ

structure Notification where
  message : String
  logType : String
  title : String
  description : String
  color : ℕ
  deriving DecidableEq, Repr

/-- What a check does. -/
structure Outcome where
  /-- The albums given to `models.enqueue_album`, in order. -/
  enqueued : List ℤ
  notification : Option Notification
  lastReportedIds : Finset ℤ
  deriving DecidableEq

/-! ### The check -/

variable (w : World)

/-- `recent_history_ids`. -/
def recentHistoryIds : Finset ℤ := w.historySince (w.now - w.config.intervalMinutes * 60 * 2)

/-- `attempted_ids`. -/
def attemptedIds : Finset ℤ :=
  if w.config.retryCooldown ≠ 0 then w.attemptedSince (w.now - w.config.retryCooldown) else ∅

/-- The filters that `new_albums` is made with. -/
def isNew (a : Album) : Bool :=
  a.id ∉ w.queuedIds && a.id ∉ recentHistoryIds w && a.id ∉ attemptedIds w &&
    some a.id ≠ w.currentDownloadId && 0 < a.missing

def newAlbums : List Album := w.albums.filter (isNew w)

/-- `ever_attempted`. -/
def everAttempted : Finset ℤ := w.attemptedSince 0

/-- `fresh_albums`. -/
def freshAlbums : List Album := (newAlbums w).filter (·.id ∉ everAttempted w)

/-- The albums that are queued or reported: the fresh ones if there are any, and as many
as the settings allow. -/
def chosenAlbums : List Album :=
  let chosen := if freshAlbums w ≠ [] then freshAlbums w else newAlbums w
  if 0 < w.config.maxAlbums then chosen.take w.config.maxAlbums.toNat else chosen

/-- `_scheduled_check`. -/
def scheduledCheck : Outcome :=
  let nothing : Outcome := ⟨[], none, w.lastReportedIds⟩
  if w.active then nothing
  else if w.albums = [] then nothing
  else if newAlbums w = [] then nothing
  else
    let chosen := chosenAlbums w
    if w.config.autoDownload then
      { enqueued := chosen.map (·.id)
        notification := some
          { message := "Scheduler: Adding " ++ toString chosen.length ++
              " new missing albums to queue..."
            logType := "download_started"
            title := "Scheduler"
            description := "Adding " ++ toString chosen.length ++ " new missing albums to queue"
            color := 0x3498DB }
        lastReportedIds := w.lastReportedIds }
    else
      let ids := (chosen.map (·.id)).toFinset
      let fresh := (ids \ w.lastReportedIds).card
      if fresh = 0 then ⟨[], none, ids⟩
      else
        { enqueued := []
          notification := some
            { message := "Scheduler: Found " ++ toString fresh ++
                " missing albums (Auto-DL Disabled)"
              logType := "download_started"
              title := "Scheduler"
              description := "Found " ++ toString fresh ++ " missing albums (Auto-DL Disabled)"
              color := 0xE67E22 }
          lastReportedIds := ids }

/-! ### One pass first -/

/-- An album that was tried before is queued only if all albums with missing tracks were. -/
def OnePassFirst : Prop :=
  (∃ id ∈ (scheduledCheck w).enqueued, id ∈ everAttempted w) →
    ∀ a ∈ w.albums, 0 < a.missing → a.id ∈ everAttempted w

/-- The albums that were never tried. -/
def untried : List Album := w.albums.filter fun a => 0 < a.missing && a.id ∉ everAttempted w

/-- An album is queued, has recent history or is being downloaded. -/
def isHeldBack (a : Album) : Bool :=
  a.id ∈ w.queuedIds || a.id ∈ recentHistoryIds w || some a.id = w.currentDownloadId

/-- The check queues albums, all albums that were never tried are held back, and one that
was tried is not. -/
def passesOver : Bool :=
  !w.active && w.config.autoDownload && untried w ≠ [] && (untried w).all (isHeldBack w) &&
    (newAlbums w).any (·.id ∈ everAttempted w)

variable {w}

theorem mem_newAlbums {a : Album} : a ∈ newAlbums w ↔ a ∈ w.albums ∧ isNew w a = true :=
  List.mem_filter

theorem freshAlbums_eq_nil : freshAlbums w = [] ↔ ∀ a ∈ newAlbums w, a.id ∈ everAttempted w := by
  simp [freshAlbums, List.filter_eq_nil_iff]

/-- The cap leaves something of what there is. -/
theorem chosenAlbums_eq_nil : chosenAlbums w = [] ↔ newAlbums w = [] := by
  have hfresh : newAlbums w = [] → freshAlbums w = [] := fun h => by simp [freshAlbums, h]
  unfold chosenAlbums
  dsimp only
  split
  next hcap =>
    have hpos : w.config.maxAlbums.toNat ≠ 0 := by omega
    split
    next hne => simp [hne, hpos, mt hfresh hne]
    next => simp [hpos]
  next =>
    split
    next hne => simp [hne, mt hfresh hne]
    next => rfl

/-- While a fresh album is there, only fresh ones are chosen. -/
theorem mem_chosenAlbums {a : Album} (h : a ∈ chosenAlbums w) :
    a ∈ newAlbums w ∧ (freshAlbums w ≠ [] → a.id ∉ everAttempted w) := by
  have hchosen : a ∈ if freshAlbums w ≠ [] then freshAlbums w else newAlbums w := by
    unfold chosenAlbums at h
    dsimp only at h
    split at h
    · exact List.mem_of_mem_take h
    · exact h
  split at hchosen
  next =>
    have hmem := List.mem_filter.mp hchosen
    exact ⟨hmem.1, fun _ => by simpa using hmem.2⟩
  next hnone => exact ⟨hchosen, fun hne => absurd hne hnone⟩

/-- What is queued is what was chosen, where something is to be queued. -/
theorem enqueued_eq : (scheduledCheck w).enqueued =
    if !w.active && w.config.autoDownload then (chosenAlbums w).map (·.id) else [] := by
  have hnil : newAlbums w = [] → chosenAlbums w = [] := chosenAlbums_eq_nil.mpr
  have hempty : w.albums = [] → newAlbums w = [] := fun h => by simp [newAlbums, h]
  unfold scheduledCheck
  dsimp only
  cases w.active with
  | true => rfl
  | false =>
    split
    next h => cases h
    split
    next h => simp [hnil (hempty h)]
    split
    next h => simp [hnil h]
    split
    next hauto => simp [hauto]
    next hauto => split <;> simp [hauto]

/-- An album that was never tried is new, or it is held back: the cooldown is for albums
that were tried. -/
theorem isNew_of_untried (hever : ∀ t, w.attemptedSince t ⊆ w.attemptedSince 0) {a : Album}
    (hmissing : 0 < a.missing) (huntried : a.id ∉ everAttempted w) :
    isNew w a = !isHeldBack w a := by
  have hcool : a.id ∉ attemptedIds w := by
    unfold attemptedIds
    split
    · exact fun h => huntried (hever _ h)
    · exact Finset.notMem_empty _
  simp [isNew, isHeldBack, hcool, hmissing]

theorem mem_untried {a : Album} :
    a ∈ untried w ↔ a ∈ w.albums ∧ 0 < a.missing ∧ a.id ∉ everAttempted w := by
  simp [untried]

/-- No album is fresh just where all that were never tried are held back. -/
theorem freshAlbums_eq_nil_iff (hever : ∀ t, w.attemptedSince t ⊆ w.attemptedSince 0) :
    freshAlbums w = [] ↔ (untried w).all (isHeldBack w) = true := by
  rw [freshAlbums_eq_nil, List.all_eq_true]
  constructor
  · intro h a ha
    obtain ⟨hmem, hmissing, huntried⟩ := mem_untried.mp ha
    have hnew := isNew_of_untried hever hmissing huntried
    by_contra hfree
    rw [Bool.not_eq_true] at hfree
    exact huntried (h a (mem_newAlbums.mpr ⟨hmem, by rw [hnew, hfree, Bool.not_false]⟩))
  · intro h a ha
    by_contra huntried
    obtain ⟨hmem, hisNew⟩ := mem_newAlbums.mp ha
    have hmissing : 0 < a.missing := by
      simp only [isNew, Bool.and_eq_true, decide_eq_true_eq] at hisNew
      exact hisNew.2
    rw [isNew_of_untried hever hmissing huntried, Bool.not_eq_true'] at hisNew
    rw [h a (mem_untried.mpr ⟨hmem, hmissing, huntried⟩)] at hisNew
    cases hisNew

/-- **When one pass comes first.**  An album that was tried is queued only after all were,
unless the albums that were never tried are all queued, in the recent history or being
downloaded, and one that was tried is none of this. -/
theorem onePassFirst_iff (w : World) (hever : ∀ t, w.attemptedSince t ⊆ w.attemptedSince 0) :
    OnePassFirst w ↔ passesOver w = false := by
  have hfresh := freshAlbums_eq_nil_iff hever
  unfold OnePassFirst
  rw [enqueued_eq]
  constructor
  · intro h
    by_contra hover
    simp only [passesOver, Bool.not_eq_false, Bool.and_eq_true, decide_eq_true_eq,
      List.any_eq_true, Bool.not_eq_true'] at hover
    obtain ⟨⟨⟨⟨hactive, hauto⟩, huntried⟩, hheld⟩, b, hb, _⟩ := hover
    have htried := freshAlbums_eq_nil.mp (hfresh.mpr hheld)
    -- Something is chosen, and all that is chosen was tried.
    obtain ⟨c, hc⟩ := List.exists_mem_of_ne_nil _
      (mt chosenAlbums_eq_nil.mp (List.ne_nil_of_mem hb))
    obtain ⟨a, ha⟩ := List.exists_mem_of_ne_nil _ huntried
    obtain ⟨hmem, hmissing, hnever⟩ := mem_untried.mp ha
    refine hnever (h ⟨c.id, ?_, htried c (mem_chosenAlbums hc).1⟩ a hmem hmissing)
    simpa [hactive, hauto] using ⟨c, hc, rfl⟩
  · intro hover h a ha hmissing
    obtain ⟨id, hid, htried⟩ := h
    by_contra hnever
    split at hid
    next hqueues =>
      obtain ⟨c, hc, rfl⟩ := List.mem_map.mp hid
      obtain ⟨hnew, honly⟩ := mem_chosenAlbums hc
      have hnone : freshAlbums w = [] := by
        by_contra hne
        exact honly hne htried
      have huntried : untried w ≠ [] :=
        List.ne_nil_of_mem (mem_untried.mpr ⟨ha, hmissing, hnever⟩)
      have hany : (newAlbums w).any (·.id ∈ everAttempted w) = true :=
        List.any_eq_true.mpr ⟨c, hnew, by simpa using htried⟩
      simp [passesOver, hqueues, huntried, hfresh.mp hnone, hany] at hover
    next => cases hid

/-! ### An album that waits for its first try -/

/-- Two albums are missing: the first was tried long ago, the second is in the queue. -/
def queuedFirst : World where
  active := false
  config := ⟨none, 72 * 3600, none, none⟩
  albums := [⟨1, some 3⟩, ⟨2, some 10⟩]
  now := 1000000
  historySince _ := ∅
  attemptedSince t := if t < 500000 then {1} else ∅
  currentDownloadId := none
  queuedIds := {2}
  lastReportedIds := ∅

/-- The first album is queued for its second try. -/
theorem queuedFirst_passedOver : ¬ OnePassFirst queuedFirst := by
  intro h
  have hqueued : ∃ id ∈ (scheduledCheck queuedFirst).enqueued, id ∈ everAttempted queuedFirst := by
    decide +kernel
  exact absurd (h hqueued ⟨2, some 10⟩ (by decide) (by decide)) (by decide +kernel)

theorem queuedFirst_attemptedSince (t : ℚ) :
    queuedFirst.attemptedSince t ⊆ queuedFirst.attemptedSince 0 := by
  have hever : queuedFirst.attemptedSince 0 = {1} := by decide +kernel
  rw [hever]
  simp only [queuedFirst]
  split <;> simp

/-- Without the queue the second album comes first. -/
theorem onePassFirst_unqueued : OnePassFirst { queuedFirst with queuedIds := ∅ } :=
  (onePassFirst_iff { queuedFirst with queuedIds := ∅ } queuedFirst_attemptedSince).mpr
    (by decide +kernel)

end Scheduler
end LidarrYtdl
end MediaHub

import MediaHub.LidarrYtdl.Audit

/-!
# Which file the audit deletes

A run judges the file that is linked to a track by the newest row it has selected for
the track.  The file may be that of a newer download, which the selection leaves out
while it settles; its name has the same track number and it was written after the
older row, so it passes for the file of the older row.

## Main definitions

* `DeletesOwnFiles` — no file is deleted because of an older download than its own.
* `LeftOut` — the rows the selection leaves out although they are newer.

## Main results

* `deletesOwnFiles_iff` — **when a run deletes only files of the rows it goes by.**
-/

namespace MediaHub
namespace LidarrYtdl
namespace Audit

variable {o : Options} {db : Database} {state : Option ℚ} {w : World} {r : Row}

/-! ### What is deleted -/

/-- A row is judged when a file is linked to its track and can be probed. -/
theorem turn_eq_judged {ids : List ℕ} {f : TrackFile} {v : Verdict} {why : String} :
    turn o w ids r = .judged f v why ↔ ∃ t actual,
      linkedFile (w.album r.albumId).1 (w.album r.albumId).2 r.trackNumber = some (t, f) ∧
        (w.file r (hostPath f.path)).seconds = some actual ∧
          verdictOn o w ids r t f actual = (v, why) ∧ v ≠ .unverifiable := by
  unfold turn
  dsimp only
  split
  · rename_i hnil
    simp [hnil, linkedFile]
  · split
    · rename_i hnone
      simp [hnone]
    · rename_i t f' hlinked
      split
      · rename_i hseconds
        -- a file that cannot be probed is not judged
        simp only [hlinked, Option.some.injEq, Prod.mk.injEq, reduceCtorEq, false_iff]
        rintro ⟨_, _, ⟨_, rfl⟩, hsome, _⟩
        rw [hseconds] at hsome
        cases hsome
      · rename_i actual hseconds
        constructor
        · intro h
          split at h
          · cases h
          · rename_i hverdict
            cases h
            exact ⟨t, actual, hlinked, hseconds, rfl, hverdict⟩
        · rintro ⟨t', actual', hlinked', hseconds', hverdict, hne⟩
          rw [hlinked] at hlinked'
          cases hlinked'
          rw [hseconds] at hseconds'
          cases hseconds'
          rw [hverdict, if_neg hne]

theorem mem_badFiles {turns : List (Row × Turn)} {d : Row × TrackFile} :
    d ∈ badFiles turns ↔ ∃ why, (d.1, Turn.judged d.2 .delete why) ∈ turns := by
  unfold badFiles
  rw [List.mem_filterMap]
  constructor
  · rintro ⟨⟨r, u⟩, hmem, h⟩
    dsimp only at h
    split at h
    · obtain rfl := Option.some.inj h
      exact ⟨_, hmem⟩
    · cases h
  · rintro ⟨why, hmem⟩
    exact ⟨_, hmem, rfl⟩

/-- A run deletes: the downloader is idle, and it is no dry run. -/
def Deleting (o : Options) (w : World) : Prop :=
  (w.active && !o.noSettle) = false ∧ (o.apply && !o.noDelete) = true

/-- The files a run deletes. -/
theorem mem_deletes {d : Row × TrackFile} :
    d ∈ (main o db state w).deletes ↔ Deleting o w ∧ d.1 ∈ reached o db state w ∧
      ∃ why, turn o w db.lastResortIds d.1 = .judged d.2 .delete why := by
  unfold main Deleting
  cases hbusy : w.active && !o.noSettle with
  | true => simp
  | false =>
    cases hdeletes : o.apply && !o.noDelete with
    | false => simp
    | true =>
      simp only [Bool.false_eq_true, if_false, if_true, mem_badFiles, List.mem_map, Prod.mk.injEq,
        true_and]
      constructor
      · rintro ⟨why, r, hr, rfl, hturn⟩
        exact ⟨hr, why, hturn⟩
      · rintro ⟨hr, why, hturn⟩
        exact ⟨why, _, hr, rfl, hturn⟩

/-! ### Whose file it is -/

/-- The file linked to the track of `r` was written at the time of the row `r'`, a later
download of the same track. -/
structure Overwrote (db : Database) (w : World) (r r' : Row) (f : TrackFile) : Prop where
  mem : r' ∈ db.trackDownloads
  success : r'.success = true
  key : r'.key = r.key
  later : r.timestamp < r'.timestamp
  wrote : (w.file r (hostPath f.path)).mtime = some r'.timestamp

/-- No file is deleted because of an older download than the one that wrote it. -/
def DeletesOwnFiles (o : Options) (db : Database) (state : Option ℚ) (w : World) : Prop :=
  ∀ d ∈ (main o db state w).deletes, ∀ r', ¬ Overwrote db w d.1 r' d.2

/-- The row is newer than the cutoff or marked as deleted. -/
def LeftOut (o : Options) (db : Database) (w : World) (r : Row) : Prop :=
  cutoff o w < r.timestamp ∨ r.id ∈ db.deleted

/-- A later download than the newest selected one of its track is left out. -/
theorem leftOut_of_overwrote {r' : Row} {f : TrackFile} (hr : r ∈ reached o db state w)
    (h : Overwrote db w r r' f) : LeftOut o db w r' := by
  by_contra hsel
  rw [LeftOut, not_or, not_lt] at hsel
  have hlatest := mem_worklist.mp (mem_of_mem_reached hr)
  obtain ⟨_, _, _, hstart, _, halbum⟩ := mem_selectRows.mp (mem_of_mem_latest hlatest)
  have hselected : r' ∈ selectRows o db (start o state w) (cutoff o w) := by
    refine mem_selectRows.mpr ⟨h.mem, h.success, hsel.2, hstart.trans h.later, hsel.1, ?_⟩
    rw [show r'.albumId = r.albumId from congrArg Prod.fst h.key]
    exact halbum
  obtain ⟨r'', hr'', hkey, hnewer⟩ := exists_mem_latest (pairwise_selectRows ..) hselected
  obtain rfl := eq_of_mem_latest hr'' hlatest (hkey.trans h.key)
  exact absurd h.later (not_lt.mpr hnewer)

/-- **When a run deletes only files of the rows it goes by.**  It does, if and only if
`decide` does not say `delete` of a file that was written by a row the selection leaves
out, in the place of the newest selected row of the track. -/
theorem deletesOwnFiles_iff (o : Options) (db : Database) (state : Option ℚ) (w : World) :
    DeletesOwnFiles o db state w ↔
      (Deleting o w → ∀ r ∈ reached o db state w, ∀ r' t f actual, LeftOut o db w r' →
        linkedFile (w.album r.albumId).1 (w.album r.albumId).2 r.trackNumber = some (t, f) →
          Overwrote db w r r' f → (w.file r (hostPath f.path)).seconds = some actual →
            (verdictOn o w db.lastResortIds r t f actual).1 ≠ .delete) := by
  constructor
  · intro h hdeleting r hr r' t f actual _ hlinked hover hseconds hdelete
    have hturn : turn o w db.lastResortIds r =
        .judged f .delete (verdictOn o w db.lastResortIds r t f actual).2 :=
      turn_eq_judged.mpr ⟨t, actual, hlinked, hseconds, Prod.ext hdelete rfl, by simp⟩
    exact h (r, f) (mem_deletes.mpr ⟨hdeleting, hr, _, hturn⟩) r' hover
  · rintro h ⟨r, f⟩ hd r' hover
    obtain ⟨hdeleting, hr, why, hturn⟩ := mem_deletes.mp hd
    obtain ⟨t, actual, hlinked, hseconds, hverdict, _⟩ := turn_eq_judged.mp hturn
    exact h hdeleting r hr r' t f actual (leftOut_of_overwrote hr hover) hlinked hover hseconds
      (by rw [hverdict])

/-! ### A retry that settles -/

/-- The track was downloaded at time 0 from a source of 380 seconds, and again at time 300
from one of 274 seconds. -/
def retried : Database where
  trackDownloads := [⟨1, 1, 1, 0, true, some 380, none⟩, ⟨2, 1, 1, 300, true, some 274, none⟩]
  deleted := []
  candidateAttempts := []

/-- A run at time 400, when the file of the second download is in the library. -/
def worldAfterRetry : World where
  times := ⟨400, 400, 400, le_rfl, le_rfl⟩
  active := false
  tracks _ := some [⟨1, some 7, 379000⟩]
  trackFiles _ := some [⟨7, "/data/music/01 - Song.mp3"⟩]
  file _ _ := ⟨some 300, some 274⟩
  raisesAfter := none

/-- The file of the second download is taken for a truncated file of the first one. -/
theorem retry_deleted :
    ¬ DeletesOwnFiles ⟨true, false, false, 10, none, none⟩ retried none worldAfterRetry := by
  intro h
  have hdeleted : (⟨1, 1, 1, 0, true, some 380, none⟩, ⟨7, "/data/music/01 - Song.mp3"⟩) ∈
      (main ⟨true, false, false, 10, none, none⟩ retried none worldAfterRetry).deletes := by
    decide +kernel
  exact h _ hdeleted ⟨2, 1, 1, 300, true, some 274, none⟩
    ⟨by decide +kernel, rfl, rfl, by decide +kernel, rfl⟩

end Audit
end LidarrYtdl
end MediaHub

import MediaHub.Lib.StepRuns
import MediaHub.LidarrYtdl.Audit

/-!
# The cursor of the audit

The runs of the audit among the downloads, in the order of time.  The saved cursor is
one number that stands for all rows, and a row it has passed is never looked at again.

A run that starts before a row and takes the cursor past it has judged the row, or found
it pending for too long, or was kept from it: by an album filter, or by an answer of
Lidarr without tracks.  The first run, and one that cannot read the cursor, starts
24 hours back.

## Main definitions

* `History` — the tables, the saved cursor and the runs so far.
* `History.step` — a row is recorded, a run takes place, and so on.
* `Past.Passes` — a run took the cursor past a row.

## Main results

* `passed_row_judged` — **the run that takes the cursor past a row has judged it.**
-/

namespace MediaHub
namespace LidarrYtdl
namespace Audit

/-! ### What one run saves -/

variable {o : Options} {db : Database} {state : Option ℚ} {w : World} {r : Row} {c : ℚ}

theorem cutoff_le_times (o : Options) (w : World) : cutoff o w ≤ w.times.cutoff := by
  unfold cutoff SETTLE_SECONDS
  split <;> linarith

/-- A run that saves a cursor has reached its whole worklist. -/
theorem cursor_eq_some (h : (main o db state w).cursor = some c) :
    (main o db state w).turns =
        (worklist o db state w).map (fun r => (r, turn o w db.lastResortIds r)) ∧
      c = nextCursor (main o db state w).turns w.times.save (cutoff o w) := by
  unfold main at h ⊢
  split at h
  · cases h
  · rename_i hfree
    rw [if_neg hfree]
    dsimp only at h
    rw [Option.ite_none_right_eq_some, Bool.and_eq_true, Option.isNone_iff_eq_none] at h
    obtain ⟨⟨_, hnone⟩, hc⟩ := h
    exact ⟨by simp [reached, hnone], (Option.some.inj hc).symm⟩

theorem mem_pendingTs {turns : List (Row × Turn)} {t : ℚ} :
    t ∈ pendingTs turns ↔ ∃ r p, (r, Turn.pending p) ∈ turns ∧ r.timestamp = t := by
  unfold pendingTs
  rw [List.mem_filterMap]
  constructor
  · rintro ⟨⟨r, u⟩, hmem, h⟩
    cases u with
    | pending p => exact ⟨r, p, hmem, Option.some.inj h⟩
    | skipped => cases h
    | judged f v why => cases h
  · rintro ⟨r, p, hmem, rfl⟩
    exact ⟨_, hmem, rfl⟩

/-- A pending row that is passed has expired. -/
theorem expired_of_le_nextCursor {turns : List (Row × Turn)} {p : Pending} {save cut : ℚ}
    (hmem : (r, Turn.pending p) ∈ turns) (hle : r.timestamp ≤ nextCursor turns save cut) :
    r.timestamp + PENDING_EXPIRY ≤ save := by
  by_contra hrecent
  have hin : r.timestamp ∈ (pendingTs turns).filter (save - PENDING_EXPIRY < ·) := by
    rw [List.mem_filter]
    exact ⟨mem_pendingTs.mpr ⟨r, p, hmem, rfl⟩, by simpa using by linarith⟩
  unfold nextCursor at hle
  cases hmin : ((pendingTs turns).filter (save - PENDING_EXPIRY < ·)).min? with
  | none => rw [List.min?_eq_none_iff.mp hmin] at hin; exact absurd hin List.not_mem_nil
  | some t =>
    rw [hmin] at hle
    have hleast : t ≤ r.timestamp := (List.min?_eq_some_iff.mp hmin).2 _ hin
    linarith [show r.timestamp ≤ t - 1 from hle]

/-- The saved cursor is no later than the cutoff. -/
theorem cursor_le (h : (main o db state w).cursor = some c) : c ≤ cutoff o w := by
  obtain ⟨hturns, rfl⟩ := cursor_eq_some h
  unfold nextCursor
  split
  · rename_i t hmin
    have hin := (List.mem_filter.mp (List.min?_mem hmin)).1
    obtain ⟨r, p, hmem, rfl⟩ := mem_pendingTs.mp hin
    rw [hturns, List.mem_map] at hmem
    obtain ⟨r', hr', heq⟩ := hmem
    obtain rfl : r' = r := congrArg Prod.fst heq
    have := (mem_selectRows.mp (mem_of_mem_latest (mem_worklist.mp hr'))).2.2.2.2.1
    linarith
  · exact le_rfl

/-- Only rows of albums without tracks are skipped. -/
theorem turn_ne_skipped {ids : List ℕ} (htracks : (w.album r.albumId).1 ≠ []) :
    turn o w ids r ≠ .skipped := by
  unfold turn
  dsimp only
  rw [if_neg htracks]
  split
  · simp
  · split
    · simp
    · split <;> simp

/-- Rows in the order of time are told apart by their timestamps. -/
theorem eq_of_timestamp_eq {rows : List Row} {r' : Row}
    (hlt : rows.Pairwise fun r r' => r.timestamp < r'.timestamp) (h : r ∈ rows) (h' : r' ∈ rows)
    (heq : r.timestamp = r'.timestamp) : r = r' := by
  induction rows with
  | nil => exact absurd h List.not_mem_nil
  | cons a rows ih =>
    rw [List.pairwise_cons] at hlt
    rcases List.mem_cons.mp h with rfl | hr <;> rcases List.mem_cons.mp h' with rfl | hr'
    · rfl
    · exact absurd heq (hlt.1 _ hr').ne
    · exact absurd heq (hlt.1 _ hr).ne'
    · exact ih hlt.2 hr hr'

/-! ### The history -/

/-- A run and what it met. -/
structure Past where
  options : Options
  db : Database
  /-- The saved cursor before the run, if it can be read. -/
  state : Option ℚ
  world : World

namespace Past

def report (p : Past) : Report := main p.options p.db p.state p.world

def start (p : Past) : ℚ := Audit.start p.options p.state p.world

/-- The run took the saved cursor past the row. -/
def Passes (p : Past) (r : Row) : Prop :=
  (∀ c ∈ p.state, c < r.timestamp) ∧ ∃ c ∈ p.report.cursor, r.timestamp ≤ c

/-- The run judged the row, with a verdict other than `unverifiable`. -/
def Judged (p : Past) (r : Row) : Prop :=
  ∃ x ∈ p.report.turns, x.1 = r ∧ x.2.isJudged = true

/-- The run found the row pending. -/
def FoundPending (p : Past) (r : Row) : Prop :=
  ∃ x ∈ p.report.turns, x.1 = r ∧ x.2.isPending = true

/-- The run found the row pending, and at least `PENDING_EXPIRY` old. -/
def Expired (p : Past) (r : Row) : Prop :=
  p.FoundPending r ∧ r.timestamp + PENDING_EXPIRY ≤ p.world.times.save

instance (p : Past) (r : Row) : Decidable (p.Passes r) := inferInstanceAs (Decidable (_ ∧ _))

instance (p : Past) (r : Row) : Decidable (p.Judged r) :=
  inferInstanceAs (Decidable (∃ x ∈ p.report.turns, _))

instance (p : Past) (r : Row) : Decidable (p.FoundPending r) :=
  inferInstanceAs (Decidable (∃ x ∈ p.report.turns, _))

instance (p : Past) (r : Row) : Decidable (p.Expired r) := inferInstanceAs (Decidable (_ ∧ _))

end Past

/-- The tables and the saved cursor at some time, and the runs before it. -/
structure History where
  clock : ℚ
  db : Database
  state : Option ℚ
  past : List Past

/-- Before anything is recorded. -/
def History.init (clock : ℚ) : History := ⟨clock, ⟨[], [], []⟩, none, []⟩

/-- What can happen. -/
inductive Event where
  /-- The downloader records a download, at the time of its timestamp. -/
  | record (r : Row)
  | recordAttempt (x : CandidateAttempt)
  | markDeleted (id : ℕ)
  /-- The state file is lost or cannot be read any more. -/
  | loseState
  | run (o : Options) (w : World)

/-- A row is recorded after all that was before, and a run starts after it. -/
def History.step (s : History) : Event → Option History
  | .record r =>
    if s.clock < r.timestamp then
      some { s with
        clock := r.timestamp
        db := { s.db with trackDownloads := s.db.trackDownloads ++ [r] } }
    else none
  | .recordAttempt x =>
    some { s with db := { s.db with candidateAttempts := s.db.candidateAttempts ++ [x] } }
  | .markDeleted id => some { s with db := { s.db with deleted := id :: s.db.deleted } }
  | .loseState => some { s with state := none }
  | .run o w =>
    if s.clock < w.times.load then
      some { s with
        clock := w.times.cutoff
        state := (main o s.db s.state w).cursor.or s.state
        past := s.past ++ [⟨o, s.db, s.state, w⟩] }
    else none

/-- Every success row that is never superseded and lies before the saved cursor was
judged, or was found pending when it was older than `PENDING_EXPIRY` by a run that
passed it. -/
def History.NeverSkips (s : History) : Prop :=
  ∀ r ∈ s.db.trackDownloads, r.success = true →
    (∀ r' ∈ s.db.trackDownloads, r'.key = r.key → r'.timestamp ≤ r.timestamp) →
      (∃ c ∈ s.state, r.timestamp ≤ c) →
        (∃ p ∈ s.past, p.Judged r) ∨ ∃ p ∈ s.past,
          p.Passes r ∧ p.FoundPending r ∧ r.timestamp + PENDING_EXPIRY < p.world.times.save

instance (s : History) : Decidable s.NeverSkips :=
  inferInstanceAs (Decidable (∀ r ∈ s.db.trackDownloads, _))

/-! ### The invariant -/

/-- The rows are in the order of time, each run saw those recorded before it, and what
the saved cursor has passed was passed by a run. -/
structure History.Inv (s : History) : Prop where
  rows_le : ∀ r ∈ s.db.trackDownloads, r.timestamp ≤ s.clock
  rows_lt : s.db.trackDownloads.Pairwise fun r r' => r.timestamp < r'.timestamp
  state_le : ∀ c ∈ s.state, c ≤ s.clock
  past_le : ∀ p ∈ s.past, p.world.times.cutoff ≤ s.clock
  past_subset : ∀ p ∈ s.past, p.db.trackDownloads ⊆ s.db.trackDownloads
  past_seen : ∀ p ∈ s.past, ∀ r ∈ s.db.trackDownloads,
    r.timestamp ≤ p.world.times.cutoff → r ∈ p.db.trackDownloads
  passed : ∀ c ∈ s.state, ∀ r ∈ s.db.trackDownloads, r.timestamp ≤ c →
    ∃ p ∈ s.past, p.Passes r

theorem History.inv_init (clock : ℚ) : (History.init clock).Inv := by
  constructor <;> simp [History.init]

variable {s s' : History}

/-- Recording a row keeps the invariant. -/
theorem History.Inv.record (h : s.Inv) (hlt : s.clock < r.timestamp) :
    History.Inv { s with
      clock := r.timestamp
      db := { s.db with trackDownloads := s.db.trackDownloads ++ [r] } } where
  rows_le := by
    intro r' hr'
    rcases List.mem_append.mp hr' with hr' | hr'
    · exact (h.rows_le r' hr').trans hlt.le
    · exact le_of_eq (by rw [List.mem_singleton.mp hr'])
  rows_lt := by
    rw [List.pairwise_append]
    refine ⟨h.rows_lt, List.pairwise_singleton _ _, ?_⟩
    intro r₁ hr₁ r₂ hr₂
    rw [List.mem_singleton.mp hr₂]
    exact (h.rows_le r₁ hr₁).trans_lt hlt
  state_le := fun c hc => (h.state_le c hc).trans hlt.le
  past_le := fun p hp => (h.past_le p hp).trans hlt.le
  past_subset := fun p hp => List.subset_append_of_subset_left _ (h.past_subset p hp)
  past_seen := by
    intro p hp r' hr' hle
    rcases List.mem_append.mp hr' with hr' | hr'
    · exact h.past_seen p hp r' hr' hle
    · rw [List.mem_singleton.mp hr'] at hle
      exact absurd (hle.trans (h.past_le p hp)) (not_le.mpr hlt)
  passed := by
    intro c hc r' hr' hle
    rcases List.mem_append.mp hr' with hr' | hr'
    · exact h.passed c hc r' hr' hle
    · rw [List.mem_singleton.mp hr'] at hle
      exact absurd (hle.trans (h.state_le c hc)) (not_le.mpr hlt)

/-- A run keeps the invariant: what it passes, it passes itself. -/
theorem History.Inv.run (h : s.Inv) (hlt : s.clock < w.times.load) :
    History.Inv { s with
      clock := w.times.cutoff
      state := (main o s.db s.state w).cursor.or s.state
      past := s.past ++ [⟨o, s.db, s.state, w⟩] } := by
  have hclock : s.clock ≤ w.times.cutoff := hlt.le.trans w.times.load_le
  constructor
  · exact fun r hr => (h.rows_le r hr).trans hclock
  · exact h.rows_lt
  · intro c hc
    cases hcursor : (main o s.db s.state w).cursor with
    | none =>
      rw [hcursor] at hc
      exact (h.state_le c hc).trans hclock
    | some c' =>
      rw [hcursor] at hc
      obtain rfl : c' = c := Option.some.inj hc
      exact (cursor_le hcursor).trans (cutoff_le_times o w)
  · intro p hp
    rcases List.mem_append.mp hp with hp | hp
    · exact (h.past_le p hp).trans hclock
    · rw [List.mem_singleton.mp hp]
  · intro p hp
    rcases List.mem_append.mp hp with hp | hp
    · exact h.past_subset p hp
    · rw [List.mem_singleton.mp hp]
      exact List.Subset.refl _
  · intro p hp r hr hle
    rcases List.mem_append.mp hp with hp | hp
    · exact h.past_seen p hp r hr hle
    · rw [List.mem_singleton.mp hp]
      exact hr
  · intro c hc r hr hle
    by_cases hbefore : ∃ c₀ ∈ s.state, r.timestamp ≤ c₀
    · obtain ⟨c₀, hc₀, hle₀⟩ := hbefore
      obtain ⟨p, hp, hpasses⟩ := h.passed c₀ hc₀ r hr hle₀
      exact ⟨p, List.mem_append_left _ hp, hpasses⟩
    · -- The cursor was before the row, or there was none: this run saved the new one.
      push Not at hbefore
      refine ⟨_, List.mem_append_right _ (List.mem_singleton_self _), hbefore, ?_⟩
      cases hcursor : (main o s.db s.state w).cursor with
      | none =>
        rw [hcursor] at hc
        exact absurd hle (not_le.mpr (hbefore c hc))
      | some c' =>
        rw [hcursor] at hc
        obtain rfl : c' = c := Option.some.inj hc
        exact ⟨c', hcursor, hle⟩

/-- Every step keeps the invariant. -/
theorem History.Inv.step {e : Event} (h : s.Inv) (hstep : s.step e = some s') : s'.Inv := by
  cases e with
  | record r =>
    simp only [History.step, Option.ite_none_right_eq_some, Option.some.injEq] at hstep
    obtain ⟨hlt, rfl⟩ := hstep
    exact h.record hlt
  | recordAttempt x =>
    obtain rfl := Option.some.inj hstep
    exact ⟨h.rows_le, h.rows_lt, h.state_le, h.past_le, h.past_subset, h.past_seen, h.passed⟩
  | markDeleted id =>
    obtain rfl := Option.some.inj hstep
    exact ⟨h.rows_le, h.rows_lt, h.state_le, h.past_le, h.past_subset, h.past_seen, h.passed⟩
  | loseState =>
    obtain rfl := Option.some.inj hstep
    refine ⟨h.rows_le, h.rows_lt, ?_, h.past_le, h.past_subset, h.past_seen, ?_⟩
    · exact fun c hc => absurd hc (by simp)
    · exact fun c hc => absurd hc (by simp)
  | run o w =>
    simp only [History.step, Option.ite_none_right_eq_some, Option.some.injEq] at hstep
    obtain ⟨hlt, rfl⟩ := hstep
    exact h.run hlt

/-! ### One row and one run -/

/-- The first track of album 1, downloaded at time 0. -/
def firstRow : Row := ⟨1, 1, 1, 0, true, some 200, none⟩

/-- A run at one time, where Lidarr has the file of the first track. -/
def worldAt (t : ℚ) : World where
  times := ⟨t, t, t, le_rfl, le_rfl⟩
  active := false
  tracks _ := some [⟨1, some 7, 200000⟩]
  trackFiles _ := some [⟨7, "/data/music/01 - Song.mp3"⟩]
  file _ _ := ⟨some 0, some 200⟩
  raisesAfter := none

def applyOptions : Options := ⟨true, false, false, 10, none, none⟩

/-- The first track is downloaded, and then there is one run. -/
def afterRun (o : Options) (w : World) : Option History :=
  runSteps History.step (History.init (-1)) [.record firstRow, .run o w]

/-- **The cursor skips rows.**  The first run starts 24 hours back, `--since` overrides the
cursor, `--album-id` leaves the other albums out, an album whose tracks Lidarr does not
give is passed over, and a pending row expires at the age of `PENDING_EXPIRY` sharp. -/
theorem cursor_skips_rows :
    (∃ s ∈ afterRun applyOptions (worldAt 100000), ¬ s.NeverSkips) ∧
    (∃ s ∈ afterRun { applyOptions with since := some 5 } (worldAt 1000), ¬ s.NeverSkips) ∧
    (∃ s ∈ afterRun { applyOptions with albumId := some 2 } (worldAt 1000), ¬ s.NeverSkips) ∧
    (∃ s ∈ afterRun applyOptions { worldAt 1000 with tracks := fun _ => none }, ¬ s.NeverSkips) ∧
    ∃ s ∈ afterRun applyOptions { worldAt 3600 with trackFiles := fun _ => some [] },
      ¬ s.NeverSkips := by
  decide +kernel

/-! ### The row that is passed -/

/-- What a run that selects the newest row of a track does with it, if it takes the
cursor past it. -/
theorem Past.judged_or_expired {p : Past} (hmem : r ∈ p.db.trackDownloads)
    (hsuccess : r.success = true) (hpasses : p.Passes r) (hdeleted : r.id ∉ p.db.deleted)
    (hstart : p.start < r.timestamp) (halbum : ∀ albumId ∈ p.options.albumId, r.albumId = albumId)
    (htracks : (p.world.album r.albumId).1 ≠ [])
    (hlast : ∀ r' ∈ p.db.trackDownloads, r'.success = true → r'.key = r.key →
      r.timestamp ≤ r'.timestamp → r' = r) : p.Judged r ∨ p.Expired r := by
  obtain ⟨c, hc, hle⟩ := hpasses.2
  obtain ⟨hturns, hcursor⟩ := cursor_eq_some hc
  have hselected : r ∈ selectRows p.options p.db p.start (cutoff p.options p.world) :=
    mem_selectRows.mpr ⟨hmem, hsuccess, hdeleted, hstart, hle.trans (cursor_le hc), halbum⟩
  obtain ⟨r', hr', hkey, hnewer⟩ := exists_mem_latest (pairwise_selectRows ..) hselected
  have hr'sel := mem_selectRows.mp (mem_of_mem_latest hr')
  obtain rfl : r' = r := hlast r' hr'sel.1 hr'sel.2.1 hkey hnewer
  have hturn : (r', turn p.options p.world p.db.lastResortIds r') ∈ p.report.turns := by
    show _ ∈ (main p.options p.db p.state p.world).turns
    rw [hturns]
    exact List.mem_map_of_mem (mem_worklist.mpr hr')
  cases hdo : turn p.options p.world p.db.lastResortIds r' with
  | skipped => exact absurd hdo (turn_ne_skipped htracks)
  | pending why =>
    rw [hdo] at hturn
    exact .inr ⟨⟨_, hturn, rfl, rfl⟩, expired_of_le_nextCursor hturn (hcursor ▸ hle)⟩
  | judged f verdict why =>
    rw [hdo] at hturn
    exact .inl ⟨_, hturn, rfl, rfl⟩

/-- **The run that takes the cursor past a row has judged it.**  In every history, a
success row that is never superseded and lies before the saved cursor was passed by a
run.  Each run that passes it has judged it, or found it pending when it was already
`PENDING_EXPIRY` old, if it started before the row, was not restricted to another album
and got tracks for the album of the row. -/
theorem passed_row_judged {clock : ℚ} {es : List Event} {s : History}
    (hrun : runSteps History.step (History.init clock) es = some s) {r : Row}
    (hmem : r ∈ s.db.trackDownloads) (hsuccess : r.success = true)
    (hlast : ∀ r' ∈ s.db.trackDownloads, r'.success = true → r'.key = r.key →
      r'.timestamp ≤ r.timestamp) {c : ℚ} (hc : s.state = some c) (hle : r.timestamp ≤ c) :
    (∃ p ∈ s.past, p.Passes r) ∧
      ∀ p ∈ s.past, p.Passes r → r.id ∉ p.db.deleted → p.start < r.timestamp →
        (∀ albumId ∈ p.options.albumId, r.albumId = albumId) →
          (p.world.album r.albumId).1 ≠ [] → p.Judged r ∨ p.Expired r := by
  have hinv : s.Inv :=
    invariant_of_runSteps (fun _ _ _ h hstep => h.step hstep) (History.inv_init clock) hrun
  refine ⟨hinv.passed c hc r hmem hle, ?_⟩
  intro p hp hpasses hdeleted hstart halbum htracks
  obtain ⟨c', hc', hle'⟩ := hpasses.2
  have hseen := hinv.past_seen p hp r hmem
    (hle'.trans ((cursor_le hc').trans (cutoff_le_times _ _)))
  refine Past.judged_or_expired hseen hsuccess hpasses hdeleted hstart halbum htracks ?_
  intro r' hr' hsuccess' hkey hnewer
  have hr's := hinv.past_subset p hp hr'
  have hle := hlast r' hr's hsuccess' hkey
  exact eq_of_timestamp_eq hinv.rows_lt hr's hmem (le_antisymm hle hnewer)

theorem passed_row_judged_firstRow :
    ∃ s, afterRun applyOptions (worldAt 1000) = some s ∧ ((∃ p ∈ s.past, p.Passes firstRow) ∧
      ∀ p ∈ s.past, p.Passes firstRow → firstRow.id ∉ p.db.deleted →
        p.start < firstRow.timestamp →
          (∀ albumId ∈ p.options.albumId, firstRow.albumId = albumId) →
            (p.world.album firstRow.albumId).1 ≠ [] → p.Judged firstRow ∨ p.Expired firstRow) := by
  have hrun : ∃ s ∈ afterRun applyOptions (worldAt 1000), firstRow ∈ s.db.trackDownloads ∧
      (∀ r' ∈ s.db.trackDownloads, r'.success = true → r'.key = firstRow.key →
        r'.timestamp ≤ firstRow.timestamp) ∧ s.state = some 700 := by decide +kernel
  obtain ⟨s, hs, hmem, hlast, hstate⟩ := hrun
  exact ⟨s, hs, passed_row_judged hs hmem rfl hlast hstate (by decide +kernel)⟩

end Audit
end LidarrYtdl
end MediaHub

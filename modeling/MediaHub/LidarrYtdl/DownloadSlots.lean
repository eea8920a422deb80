import MediaHub.LidarrYtdl.TrackBody
import MediaHub.Lib.StepRuns
import Mathlib.Data.Int.Notation
import Mathlib.Data.List.Basic
import Mathlib.Data.List.Nodup
import Mathlib.Logic.Function.Basic

/-!
# The album downloads that are under way

`stacks/lidarr-ytdl/patches/processing.py`: manual downloads and the scheduler run in the
foreground state `download_process`, the jobs of Lidarr's download client each in a state of
their own.  `_active_states` has the state of every album that is being downloaded.  All
functions here change the states under `queue_lock`, apart from the run itself, which fills
in its tracks, and the progress hook of a download thread, which may outlive its run.

The titles and the cover in a state are left out, and so is `models.clear_queue`, which
`stop_download` calls under the lock.

## Main definitions

* `DownloadState` — a state, as `_make_download_state` makes it.
* `Slots` — all of them, `_active_states`, and the calls of `process_album_download` that
  are past their entry and before their `finally` block.
* `Slots.step` — a step of one of the threads.

## Main results

* `reportedIsRunning` — **no two runs share an album or a state, and what is reported of the
  downloads is what is under way.**
* `stopReaches` — **a stop reaches the downloads under way, and none that begins later.**
-/

namespace MediaHub
namespace LidarrYtdl

/-! ### The states -/

/-- What the dashboard can change of an entry of `state["tracks"]`, and the status. -/
structure ListedTrack where
  status : Status
  skip : Bool
  deriving DecidableEq, Repr

structure DownloadState where
  active : Bool
  stop : Bool
  albumId : Option ℤ
  tracks : List ListedTrack
  isClient : Bool
  deriving DecidableEq, Repr

def makeDownloadState : DownloadState := ⟨false, false, none, [], false⟩

/-- A call of `process_album_download` that was not `Busy`. -/
structure Run where
  id : ℕ
  albumId : ℤ
  state : ℕ
  isClient : Bool
  deriving DecidableEq, Repr

/-- What `_active_states` has of a run. -/
def Run.entry (r : Run) : ℤ × ℕ := (r.albumId, r.state)

structure Slots where
  /-- The states by their number: 0 is `download_process`, and a state that no one has used
  is as it was made. -/
  states : ℕ → DownloadState
  /-- `_active_states`. -/
  activeStates : List (ℤ × ℕ)
  runs : List Run
  /-- The number of runs so far. -/
  calls : ℕ

namespace Slots

def initial : Slots := ⟨fun _ => makeDownloadState, [], [], 0⟩

/-! ### What is reported -/

/-- `_displayed_state_locked`. -/
def displayedStateLocked (s : Slots) : ℕ :=
  if (s.states 0).active then 0
  else ((s.activeStates.map Prod.snd).find? fun i => (s.states i).active).getD 0

def isAlbumActive (albumId : ℤ) (s : Slots) : Bool :=
  decide (albumId ∈ s.activeStates.map Prod.fst)

def anyDownloadActive (s : Slots) : Bool :=
  (s.states 0).active || s.activeStates.any fun e => (s.states e.2).active

def activeClientAlbumCount (s : Slots) : ℕ :=
  s.activeStates.countP fun e => (s.states e.2).isClient

/-- `album_track_progress`. -/
def albumTrackProgress (albumId : ℤ) (s : Slots) : Option (ℕ × ℕ) :=
  (s.activeStates.lookup albumId).bind fun i =>
    if (s.states i).active then
      some ((s.states i).tracks.countP
        (fun t => t.status = .done ∨ t.status = .failed ∨ t.status = .skipped),
        (s.states i).tracks.length)
    else none

/-! ### What changes them -/

/-- The entry of `process_album_download`, or `none` for `Busy`. -/
def enter (albumId : ℤ) (clientGrab : Bool) (i : ℕ) (s : Slots) : Option Slots :=
  if (s.states i).active ∨ albumId ∈ s.activeStates.map Prod.fst then none
  else some {
    states := Function.update s.states i
      { makeDownloadState with active := true, albumId := some albumId, isClient := clientGrab }
    activeStates := s.activeStates ++ [(albumId, i)]
    runs := s.runs ++ [⟨s.calls, albumId, i, clientGrab⟩]
    calls := s.calls + 1 }

/-- The `finally` block of a run. -/
def leave (r : Run) (s : Slots) : Slots :=
  { s with
    states := Function.update s.states r.state makeDownloadState
    activeStates := s.activeStates.filter fun e => e.1 ≠ r.albumId
    runs := s.runs.filter fun r' => r'.id ≠ r.id }

theorem leave_states (r : Run) (s : Slots) :
    (s.leave r).states = Function.update s.states r.state makeDownloadState := rfl

theorem leave_activeStates (r : Run) (s : Slots) :
    (s.leave r).activeStates = s.activeStates.filter fun e => e.1 ≠ r.albumId := rfl

theorem leave_runs (r : Run) (s : Slots) :
    (s.leave r).runs = s.runs.filter fun r' => r'.id ≠ r.id := rfl

/-- What `stop_download` does to a state. -/
def stopState (d : DownloadState) : DownloadState :=
  { d with
    stop := true
    tracks := d.tracks.map fun t =>
      if t.status = .pending ∨ t.status = .searching ∨ t.status = .downloading ∨
        t.status = .verifying then { t with skip := true } else t }

def stopDownload (s : Slots) : Slots :=
  { s with
    states := fun i =>
      if i = 0 ∨ i ∈ s.activeStates.map Prod.snd then stopState (s.states i) else s.states i }

/-- The track list of a state is changed. -/
def setTracks (i : ℕ) (f : List ListedTrack → List ListedTrack) (s : Slots) : Slots :=
  let d := s.states i
  { s with states := Function.update s.states i { d with tracks := f d.tracks } }

/-- `skip_track`, with the message and the status code it may answer. -/
def skipTrack (trackIndex : ℤ) (s : Slots) : Slots × Option (String × ℕ) :=
  let i := s.displayedStateLocked
  if (s.states i).active = false then (s, some ("No active download", 409))
  else if trackIndex < 0 ∨ (s.states i).tracks.length ≤ trackIndex then
    (s, some ("Invalid track_index", 400))
  else
    (s.setTracks i fun tracks =>
      tracks.modify trackIndex.toNat fun t => { t with skip := true }, none)

inductive SlotLabel where
  /-- A thread calls `process_album_download`. -/
  | enter (albumId : ℤ) (clientGrab : Bool) (i : ℕ)
  /-- The run makes the list of its tracks. -/
  | listTracks (id n : ℕ)
  /-- The run sets the status of a track. -/
  | setStatus (id idx : ℕ) (status : Status)
  /-- The progress hook for a track of a state. -/
  | progress (i idx : ℕ)
  | stopDownload
  | skipTrack (trackIndex : ℤ)
  /-- The run ends. -/
  | leave (id : ℕ)
  deriving DecidableEq, Repr

/-- The run with this number, if it has not ended. -/
def run (id : ℕ) (s : Slots) : Option Run := s.runs.find? fun r => r.id = id

/-- A step of one of the threads. -/
def step (s : Slots) : SlotLabel → Option Slots
  | .enter albumId clientGrab i => some ((s.enter albumId clientGrab i).getD s)
  | .listTracks id n => (s.run id).map fun r =>
      s.setTracks r.state fun _ => List.replicate n ⟨.pending, false⟩
  | .setStatus id idx status => (s.run id).map fun r =>
      s.setTracks r.state fun tracks => tracks.modify idx fun t => { t with status }
  | .progress i idx => some <| s.setTracks i fun tracks =>
      tracks.modify idx fun t => { t with status := .downloading }
  | .stopDownload => some s.stopDownload
  | .skipTrack trackIndex => some (s.skipTrack trackIndex).1
  | .leave id => (s.run id).map s.leave

variable {s s' : Slots} {l : SlotLabel} {ls : List SlotLabel} {r : Run}

/-! ### What a step does -/

/-- A step after which the same runs are under way. -/
structure Keeps (s : Slots) (l : SlotLabel) (s' : Slots) : Prop where
  table : s'.activeStates = s.activeStates
  runs : s'.runs = s.runs
  calls : s'.calls = s.calls
  active : ∀ i, (s'.states i).active = (s.states i).active
  owner : ∀ i, (s'.states i).albumId = (s.states i).albumId ∧
    (s'.states i).isClient = (s.states i).isClient
  stop : ∀ i, (s'.states i).stop = true ↔
    (s.states i).stop = true ∨
      l = .stopDownload ∧ (i = 0 ∨ i ∈ s.activeStates.map Prod.snd)

theorem Keeps.refl (hl : l ≠ .stopDownload) : Keeps s l s where
  table := rfl
  runs := rfl
  calls := rfl
  active _ := rfl
  owner _ := ⟨rfl, rfl⟩
  stop _ := by simp [hl]

theorem keeps_setTracks (hl : l ≠ .stopDownload) (i : ℕ) (f : List ListedTrack → List ListedTrack) :
    Keeps s l (s.setTracks i f) := by
  have hstate : ∀ j, ∃ tracks, (s.setTracks i f).states j = { s.states j with tracks } := by
    intro j
    rcases eq_or_ne j i with rfl | hne
    · exact ⟨_, Function.update_self ..⟩
    · exact ⟨_, Function.update_of_ne hne ..⟩
  constructor
  · rfl
  · rfl
  · rfl
  all_goals
    intro j
    obtain ⟨tracks, hj⟩ := hstate j
    simp [hj, hl]

theorem keeps_skipTrack (hl : l ≠ .stopDownload) (trackIndex : ℤ) :
    Keeps s l (s.skipTrack trackIndex).1 := by
  unfold skipTrack
  dsimp only
  split
  · exact Keeps.refl hl
  · split
    · exact Keeps.refl hl
    · exact keeps_setTracks hl _ _

theorem keeps_stopDownload : Keeps s .stopDownload s.stopDownload := by
  constructor
  · rfl
  · rfl
  · rfl
  all_goals
    intro i
    simp only [stopDownload]
    split <;> simp_all [stopState]

theorem enter_eq_some {albumId : ℤ} {clientGrab : Bool} {i : ℕ}
    (h : s.enter albumId clientGrab i = some s') :
    (s.states i).active = false ∧ albumId ∉ s.activeStates.map Prod.fst ∧ s' = {
      states := Function.update s.states i
        { makeDownloadState with
          active := true, albumId := some albumId, isClient := clientGrab }
      activeStates := s.activeStates ++ [(albumId, i)]
      runs := s.runs ++ [⟨s.calls, albumId, i, clientGrab⟩]
      calls := s.calls + 1 } := by
  obtain ⟨hnot, h⟩ := Option.ite_none_left_eq_some.mp h
  obtain ⟨hfree, hnew⟩ := not_or.mp hnot
  exact ⟨Bool.not_eq_true _ ▸ hfree, hnew, (Option.some.inj h).symm⟩

/-- All that a step can do. -/
inductive Moves (s : Slots) (l : SlotLabel) (s' : Slots) : Prop
  | keeps (h : Keeps s l s')
  | entered (albumId : ℤ) (clientGrab : Bool) (i : ℕ) (hl : l = .enter albumId clientGrab i)
      (henter : s.enter albumId clientGrab i = some s')
  | left (r : Run) (hl : l = .leave r.id) (hr : r ∈ s.runs) (hs : s' = s.leave r)

theorem run_eq_some {id : ℕ} (h : s.run id = some r) : r ∈ s.runs ∧ r.id = id := by
  refine ⟨List.mem_of_find?_eq_some h, ?_⟩
  simpa using List.find?_some h

theorem moves_of_step (h : s.step l = some s') : Moves s l s' := by
  cases l with
  | enter albumId clientGrab i =>
    obtain rfl := Option.some.inj h
    cases hentered : s.enter albumId clientGrab i with
    | none => exact .keeps (Keeps.refl (by nofun))
    | some t => exact .entered albumId clientGrab i rfl hentered
  | listTracks id n =>
    obtain ⟨r, -, rfl⟩ := Option.map_eq_some_iff.mp h
    exact .keeps (keeps_setTracks (by nofun) _ _)
  | setStatus id idx status =>
    obtain ⟨r, -, rfl⟩ := Option.map_eq_some_iff.mp h
    exact .keeps (keeps_setTracks (by nofun) _ _)
  | progress i idx =>
    obtain rfl := Option.some.inj h
    exact .keeps (keeps_setTracks (by nofun) _ _)
  | stopDownload =>
    obtain rfl := Option.some.inj h
    exact .keeps keeps_stopDownload
  | skipTrack trackIndex =>
    obtain rfl := Option.some.inj h
    exact .keeps (keeps_skipTrack (by nofun) _)
  | leave id =>
    obtain ⟨r, hr, rfl⟩ := Option.map_eq_some_iff.mp h
    obtain ⟨hmem, rfl⟩ := run_eq_some hr
    exact .left r rfl hmem rfl

/-! ### One run for an album, one for a state -/

/-- `_active_states` and the states are those of the runs under way. -/
structure Exact (s : Slots) : Prop where
  table : s.activeStates = s.runs.map Run.entry
  albums : (s.runs.map Run.albumId).Nodup
  states : (s.runs.map Run.state).Nodup
  ids : (s.runs.map Run.id).Nodup
  calls : ∀ r ∈ s.runs, r.id < s.calls
  active : ∀ i, (s.states i).active = true ↔ i ∈ s.runs.map Run.state
  owned : ∀ r ∈ s.runs, (s.states r.state).albumId = some r.albumId ∧
    (s.states r.state).isClient = r.isClient

theorem exact_initial : initial.Exact where
  table := rfl
  albums := List.nodup_nil
  states := List.nodup_nil
  ids := List.nodup_nil
  calls := nofun
  active := by simp [initial, makeDownloadState]
  owned := nofun

theorem Exact.keeps (h : s.Exact) (hk : Keeps s l s') : s'.Exact where
  table := by rw [hk.table, hk.runs, h.table]
  albums := hk.runs ▸ h.albums
  states := hk.runs ▸ h.states
  ids := hk.runs ▸ h.ids
  calls := by rw [hk.runs, hk.calls]; exact h.calls
  active i := by rw [hk.active, hk.runs, h.active]
  owned r hr := by
    obtain ⟨halbum, hclient⟩ := hk.owner r.state
    rw [halbum, hclient]
    exact h.owned r (hk.runs ▸ hr)

/-- The albums of the table. -/
theorem Exact.map_fst (h : s.Exact) : s.activeStates.map Prod.fst = s.runs.map Run.albumId := by
  rw [h.table, List.map_map]
  rfl

theorem Exact.map_snd (h : s.Exact) : s.activeStates.map Prod.snd = s.runs.map Run.state := by
  rw [h.table, List.map_map]
  rfl

theorem Exact.entered {albumId : ℤ} {clientGrab : Bool} {i : ℕ} (h : s.Exact)
    (henter : s.enter albumId clientGrab i = some s') : s'.Exact := by
  obtain ⟨hfree, hnew, rfl⟩ := enter_eq_some henter
  have hstate : i ∉ s.runs.map Run.state := by
    rw [← h.active i, hfree]
    exact Bool.false_ne_true
  constructor
  · rw [List.map_append, ← h.table]
    rfl
  · rw [List.map_append, List.map_singleton, ← List.concat_eq_append]
    exact h.albums.concat (h.map_fst ▸ hnew)
  · rw [List.map_append, List.map_singleton, ← List.concat_eq_append]
    exact h.states.concat hstate
  · rw [List.map_append, List.map_singleton, ← List.concat_eq_append]
    refine h.ids.concat fun hin => ?_
    obtain ⟨r, hr, hid⟩ := List.mem_map.mp hin
    exact Nat.ne_of_lt (h.calls r hr) hid
  · intro r hr
    rcases List.mem_append.mp hr with hr | hr
    · exact Nat.lt_succ_of_lt (h.calls r hr)
    · obtain rfl := List.mem_singleton.mp hr
      exact Nat.lt_succ_self _
  · intro j
    rw [List.map_append, List.mem_append, ← h.active j]
    rcases eq_or_ne j i with rfl | hne
    · simp
    · simp [hne]
  · intro r hr
    rcases List.mem_append.mp hr with hr | hr
    · have hne : r.state ≠ i := fun heq => hstate (heq ▸ List.mem_map_of_mem hr)
      simp only [Function.update_of_ne hne]
      exact h.owned r hr
    · obtain rfl := List.mem_singleton.mp hr
      simp

/-- The runs that are left when one has ended are those of the other albums. -/
theorem Exact.id_eq_iff {r' : Run} (h : s.Exact) (hr : r ∈ s.runs) (hr' : r' ∈ s.runs) :
    (r'.id = r.id ↔ r'.albumId = r.albumId) ∧ (r'.id = r.id ↔ r'.state = r.state) := by
  have hid : r'.id = r.id → r' = r := List.inj_on_of_nodup_map h.ids hr' hr
  have halbum : r'.albumId = r.albumId → r' = r := List.inj_on_of_nodup_map h.albums hr' hr
  have hstate : r'.state = r.state → r' = r := List.inj_on_of_nodup_map h.states hr' hr
  exact ⟨⟨fun heq => hid heq ▸ rfl, fun heq => halbum heq ▸ rfl⟩,
    fun heq => hid heq ▸ rfl, fun heq => hstate heq ▸ rfl⟩

theorem Exact.mem_leave {r' : Run} (h : s.Exact) (hr : r ∈ s.runs) :
    r' ∈ (s.leave r).runs ↔ r' ∈ s.runs ∧ r'.state ≠ r.state := by
  rw [leave_runs, List.mem_filter, decide_eq_true_iff]
  exact and_congr_right fun hr' => not_congr (h.id_eq_iff hr hr').2

theorem Exact.left (h : s.Exact) (hr : r ∈ s.runs) : (s.leave r).Exact := by
  have hsub : (s.leave r).runs.Sublist s.runs := List.filter_sublist
  constructor
  · rw [leave_activeStates, leave_runs, h.table, List.filter_map]
    congr 1
    refine List.filter_congr fun r' hr' => ?_
    exact decide_eq_decide.mpr (not_congr (h.id_eq_iff hr hr').1).symm
  · exact h.albums.sublist (hsub.map _)
  · exact h.states.sublist (hsub.map _)
  · exact h.ids.sublist (hsub.map _)
  · exact fun r' hr' => h.calls r' (hsub.subset hr')
  · intro j
    rcases eq_or_ne j r.state with rfl | hne
    · refine iff_of_false (by simp [leave_states, makeDownloadState]) fun hin => ?_
      obtain ⟨r', hr', heq⟩ := List.mem_map.mp hin
      exact ((h.mem_leave hr).mp hr').2 heq
    · rw [leave_states, Function.update_of_ne hne, h.active j, List.mem_map, List.mem_map]
      constructor
      · rintro ⟨r', hr', rfl⟩
        exact ⟨r', (h.mem_leave hr).mpr ⟨hr', hne⟩, rfl⟩
      · rintro ⟨r', hr', rfl⟩
        exact ⟨r', hsub.subset hr', rfl⟩
  · intro r' hr'
    obtain ⟨hin, hne⟩ := (h.mem_leave hr).mp hr'
    rw [leave_states, Function.update_of_ne hne]
    exact h.owned r' hin

theorem Exact.step (h : s.Exact) (hs : s.step l = some s') : s'.Exact := by
  rcases moves_of_step hs with hk | ⟨albumId, clientGrab, i, -, henter⟩ | ⟨r, -, hr, rfl⟩
  · exact h.keeps hk
  · exact h.entered henter
  · exact h.left hr

/-! ### What is reported is under way -/

theorem Exact.isAlbumActive_iff (h : s.Exact) (albumId : ℤ) :
    s.isAlbumActive albumId = true ↔ ∃ r ∈ s.runs, r.albumId = albumId := by
  rw [isAlbumActive, decide_eq_true_iff, h.map_fst, List.mem_map]

theorem Exact.active_of_mem (h : s.Exact) (hr : r ∈ s.runs) : (s.states r.state).active = true :=
  (h.active r.state).mpr (List.mem_map_of_mem hr)

/-- There is a tally of the tracks of the albums under way. -/
theorem Exact.albumTrackProgress_isSome_iff (h : s.Exact) (albumId : ℤ) :
    (s.albumTrackProgress albumId).isSome = true ↔ ∃ r ∈ s.runs, r.albumId = albumId := by
  rw [← h.isAlbumActive_iff, isAlbumActive, decide_eq_true_iff, albumTrackProgress]
  cases hl : s.activeStates.lookup albumId with
  | none =>
    refine iff_of_false (by simp) fun hin => ?_
    obtain ⟨e, he, rfl⟩ := List.mem_map.mp hin
    have hne := List.lookup_eq_none_iff.mp hl e he
    simp at hne
  | some i =>
    obtain ⟨l₁, l₂, heq, -⟩ := List.lookup_eq_some_iff.mp hl
    have hin : (albumId, i) ∈ s.activeStates := heq ▸ List.mem_append_right _ List.mem_cons_self
    have hi : i ∈ s.runs.map Run.state := h.map_snd ▸ List.mem_map_of_mem hin
    rw [Option.bind_some, if_pos ((h.active i).mpr hi)]
    exact iff_of_true rfl (List.mem_map_of_mem hin)

theorem Exact.anyDownloadActive_iff (h : s.Exact) :
    s.anyDownloadActive = true ↔ s.runs ≠ [] := by
  rw [anyDownloadActive, Bool.or_eq_true, List.any_eq_true]
  constructor
  · rintro (h0 | ⟨e, he, -⟩) hnil
    · rw [h.active 0, hnil] at h0
      cases h0
    · rw [h.table, hnil] at he
      cases he
  · intro hne
    obtain ⟨r, hr⟩ := List.exists_mem_of_ne_nil _ hne
    exact .inr ⟨r.entry, h.table ▸ List.mem_map_of_mem hr, h.active_of_mem hr⟩

theorem Exact.activeClientAlbumCount_eq (h : s.Exact) :
    s.activeClientAlbumCount = s.runs.countP Run.isClient := by
  rw [activeClientAlbumCount, h.table, List.countP_map]
  refine List.countP_congr fun r hr => ?_
  rw [Function.comp_apply, Run.entry, (h.owned r hr).2]

/-- The dashboard shows the foreground run, or else the oldest one. -/
theorem Exact.displayedStateLocked_eq (h : s.Exact) :
    s.displayedStateLocked =
      if 0 ∈ s.runs.map Run.state then 0 else (s.runs.head?.map Run.state).getD 0 := by
  unfold displayedStateLocked
  by_cases h0 : (s.states 0).active = true
  · rw [if_pos h0, if_pos ((h.active 0).mp h0)]
  · rw [if_neg h0, if_neg (mt (h.active 0).mpr h0), h.map_snd]
    cases hruns : s.runs with
    | nil => rfl
    | cons r rest =>
      have hact : (s.states r.state).active = true :=
        h.active_of_mem (hruns ▸ List.mem_cons_self)
      have hfind : (r.state :: rest.map Run.state).find? (fun i => (s.states i).active)
          = some r.state := List.find?_cons_of_pos hact
      rw [List.map_cons, hfind, List.head?_cons, Option.map_some]

/-- What the dashboard shows is under way, unless nothing is. -/
theorem Exact.displayed_active_iff (h : s.Exact) :
    (s.states s.displayedStateLocked).active = true ↔ s.runs ≠ [] := by
  rw [h.active, h.displayedStateLocked_eq]
  split
  · next h0 => exact iff_of_true h0 (List.ne_nil_of_mem (List.mem_map.mp h0).choose_spec.1)
  · next h0 =>
    cases hruns : s.runs with
    | nil => exact iff_of_false List.not_mem_nil (fun h => h rfl)
    | cons r rest => exact iff_of_true (List.mem_map_of_mem List.mem_cons_self) (by simp)

theorem Exact.skipTrack_none_iff (h : s.Exact) (trackIndex : ℤ) :
    (s.skipTrack trackIndex).2 = some ("No active download", 409) ↔ s.runs = [] := by
  rw [← not_iff_not, ← ne_eq (a := s.runs), ← h.displayed_active_iff, skipTrack]
  cases (s.states s.displayedStateLocked).active with
  | false => simp
  | true =>
    rw [if_neg (by simp)]
    refine iff_of_true ?_ rfl
    split
    · simp
    · nofun

/-- **No two runs share an album or a state, and what is reported of the downloads is what
is under way**, after every run of the threads. -/
theorem reportedIsRunning (hrun : runSteps step initial ls = some s) :
    (s.runs.map Run.albumId).Nodup ∧ (s.runs.map Run.state).Nodup ∧
      (∀ albumId, s.isAlbumActive albumId = true ↔ ∃ r ∈ s.runs, r.albumId = albumId) ∧
      (∀ albumId, (s.albumTrackProgress albumId).isSome = true ↔
        ∃ r ∈ s.runs, r.albumId = albumId) ∧
      (s.anyDownloadActive = true ↔ s.runs ≠ []) ∧
      s.activeClientAlbumCount = s.runs.countP Run.isClient ∧
      (∀ trackIndex, (s.skipTrack trackIndex).2 = some ("No active download", 409) ↔
        s.runs = []) ∧
      (0 ∈ s.runs.map Run.state → s.displayedStateLocked = 0) ∧
      (∀ r, s.runs.head? = some r → 0 ∉ s.runs.map Run.state →
        s.displayedStateLocked = r.state) := by
  have h : s.Exact := invariant_of_runSteps (fun _ _ _ => Exact.step) exact_initial hrun
  refine ⟨h.albums, h.states, h.isAlbumActive_iff, h.albumTrackProgress_isSome_iff,
    h.anyDownloadActive_iff, h.activeClientAlbumCount_eq, h.skipTrack_none_iff, ?_, ?_⟩
  · intro h0
    rw [h.displayedStateLocked_eq, if_pos h0]
  · intro r hr h0
    rw [h.displayedStateLocked_eq, if_neg h0, hr, Option.map_some, Option.getD_some]

/-- A client job, the same album again in the foreground, and another album there. -/
def clientAndForeground : List SlotLabel :=
  [.enter 7 true 1, .enter 7 false 0, .enter 8 false 0, .listTracks 1 2, .setStatus 1 0 .done,
    .stopDownload, .progress 0 1, .leave 0]

theorem reportedIsRunning_clientAndForeground :
    ∃ s, runSteps step initial clientAndForeground = some s ∧
      s.runs = [⟨1, 8, 0, false⟩] ∧ s.displayedStateLocked = 0 ∧
      (s.anyDownloadActive = true ↔ s.runs ≠ []) :=
  ⟨_, rfl, rfl, rfl, (@reportedIsRunning _ clientAndForeground rfl).2.2.2.2.1⟩

/-! ### A stop reaches what is under way -/

/-- Runs that began before a step and are there after it were there before it. -/
theorem mem_runs_of_step (h : s.step l = some s') :
    s.calls ≤ s'.calls ∧ ∀ r ∈ s'.runs, r.id < s.calls → r ∈ s.runs := by
  rcases moves_of_step h with hk | ⟨albumId, clientGrab, i, -, henter⟩ | ⟨r', -, -, rfl⟩
  · rw [hk.runs, hk.calls]
    exact ⟨Nat.le_refl _, fun r hr _ => hr⟩
  · obtain ⟨-, -, rfl⟩ := enter_eq_some henter
    refine ⟨Nat.le_succ _, fun r hr hid => ?_⟩
    rcases List.mem_append.mp hr with hr | hr
    · exact hr
    · obtain rfl := List.mem_singleton.mp hr
      exact absurd hid (Nat.lt_irrefl _)
  · exact ⟨Nat.le_refl _, fun r hr _ => List.mem_of_mem_filter hr⟩

theorem mem_runs_of_runSteps (h : runSteps step s ls = some s') (hid : r.id < s.calls)
    (hr : r ∈ s'.runs) : r ∈ s.runs := by
  induction ls generalizing s with
  | nil => exact Option.some.inj h ▸ hr
  | cons l ls ih =>
    obtain ⟨t, hst, hrest⟩ := runSteps_cons.mp h
    obtain ⟨hcalls, hmem⟩ := mem_runs_of_step hst
    exact hmem r (ih hrest (Nat.lt_of_lt_of_le hid hcalls)) hid

/-- The stop flag of a run after a step. -/
theorem Exact.stop_step (h : s.Exact) (hs : s.step l = some s') (hr : r ∈ s.runs)
    (hr' : r ∈ s'.runs) :
    (s'.states r.state).stop = true ↔ (s.states r.state).stop = true ∨ l = .stopDownload := by
  rcases moves_of_step hs with hk | ⟨albumId, clientGrab, i, rfl, henter⟩ | ⟨r', rfl, hin, rfl⟩
  · rw [hk.stop r.state, h.map_snd]
    have hmem : r.state ∈ s.runs.map Run.state := List.mem_map_of_mem hr
    simp [hmem]
  · obtain ⟨hfree, -, rfl⟩ := enter_eq_some henter
    have hne : r.state ≠ i := by
      rintro rfl
      rw [h.active_of_mem hr] at hfree
      cases hfree
    simp [Function.update_of_ne hne]
  · rw [leave_states, Function.update_of_ne ((h.mem_leave hin).mp hr').2]
    simp

/-- Once it is set, the flag stays, and only a stop sets it. -/
theorem Exact.stop_of_runSteps (h : s.Exact) (hrun : runSteps Slots.step s ls = some s')
    (hr : r ∈ s.runs) (hr' : r ∈ s'.runs) :
    (s'.states r.state).stop = true ↔
      (s.states r.state).stop = true ∨ .stopDownload ∈ ls := by
  induction ls generalizing s with
  | nil =>
    obtain rfl := Option.some.inj hrun
    simp
  | cons l ls ih =>
    obtain ⟨t, hst, hrest⟩ := runSteps_cons.mp hrun
    have hid : r.id < t.calls :=
      Nat.lt_of_lt_of_le (h.calls r hr) (mem_runs_of_step hst).1
    have ht : r ∈ t.runs := mem_runs_of_runSteps hrest hid hr'
    rw [ih (h.step hst) hrest ht, h.stop_step hst hr ht, or_assoc, List.mem_cons,
      @eq_comm _ l]

/-- **A stop reaches the downloads under way, and none that begins later**: as long as a run
is under way, its state is its own, and its stop flag is set if and only if `stop_download`
was called since it began. -/
theorem stopReaches {albumId : ℤ} {clientGrab : Bool} {i : ℕ} {ls₁ ls₂ : List SlotLabel}
    {s₀ s₁ : Slots} (hbefore : runSteps step initial ls₁ = some s₀)
    (henter : s₀.enter albumId clientGrab i = some s₁)
    (hafter : runSteps step s₁ ls₂ = some s) (hopen : s₀.calls ∈ s.runs.map Run.id) :
    (s.states i).active = true ∧ (s.states i).albumId = some albumId ∧
      ((s.states i).stop = true ↔ .stopDownload ∈ ls₂) := by
  have h₀ : s₀.Exact := invariant_of_runSteps (fun _ _ _ => Exact.step) exact_initial hbefore
  have hs₁ : s₀.step (.enter albumId clientGrab i) = some s₁ := by
    rw [step, henter, Option.getD_some]
  have h₁ : s₁.Exact := h₀.step hs₁
  have h : s.Exact := invariant_of_runSteps (fun _ _ _ => Exact.step) h₁ hafter
  obtain ⟨-, -, rfl⟩ := enter_eq_some henter
  obtain ⟨r, hr, hid⟩ := List.mem_map.mp hopen
  have hr₁ := mem_runs_of_runSteps hafter (hid ▸ Nat.lt_succ_self _) hr
  have hrun : r = ⟨s₀.calls, albumId, i, clientGrab⟩ :=
    List.inj_on_of_nodup_map h₁.ids hr₁ (List.mem_append_right _ List.mem_cons_self) hid
  have hstate : r.state = i := by rw [hrun]
  have hstop := h₁.stop_of_runSteps hafter hr₁ hr
  rw [hstate] at hstop
  refine ⟨hstate ▸ h.active_of_mem hr, ?_, by simpa [makeDownloadState] using hstop⟩
  rw [← hstate, (h.owned r hr).1, hrun]

theorem stopReaches_clientAndForeground :
    ∃ s₀ s₁ s, runSteps step initial [.stopDownload, .enter 7 true 1] = some s₀ ∧
      s₀.enter 8 false 0 = some s₁ ∧ runSteps step s₁ [.stopDownload, .leave 0] = some s ∧
      ((s.states 0).stop = true ↔ .stopDownload ∈ [SlotLabel.stopDownload, .leave 0]) :=
  ⟨_, _, _, rfl, rfl, rfl, (@stopReaches _ 8 false 0 [.stopDownload, .enter 7 true 1]
    [.stopDownload, .leave 0] _ _ rfl rfl rfl (by decide)).2.2⟩

end Slots

end LidarrYtdl
end MediaHub

import MediaHub.Fleet.Healthcheck

/-!
# Containers that did not come back

A container of the snapshot that cannot be started is a problem of the first run after the
boot.  At its end that run writes the snapshot anew, from what is running, so no later run
of the boot knows of the container any more: it is not reported again, and the next message
says that all is well.

## Main definitions

* `Down` — a container does not run during a run.
* `DidNotComeBack` — the first run after a boot cannot start it.
* `StillReported` — a report names it, and does not say that all is well.

## Main results

* `names_iff` — which containers that are down a report names.
* `stillReported_iff` — **a container that did not come back is reported in the first run
  only.**
-/

namespace MediaHub
namespace Fleet

open Mounts (grepx)

/-- The container does not run while the script does. -/
structure Down (c : String) (a : Answers) : Prop where
  before : c ∉ a.before
  after : c ∉ a.after
  listed : ∀ policy, (policy, c) ∉ a.listed
  /-- Its status is that of a container that was stopped. -/
  status : ∀ st, (c, st) ∈ a.status → holds "Restarting" st = false ∧ holds "unhealthy" st = false

/-- The container was running before the reboot, and the first run afterwards cannot start
it. -/
structure DidNotComeBack (host : Host) (files : Files) (first : Answers) (c : String) : Prop where
  name_ne : c ≠ ""
  snapshot : ∃ s, files.snap = some s ∧ s.epoch < first.bootEpoch ∧ c ∈ s.names
  fails : needsMissingMount host first c = true ∨ first.start c = false

/-- A problem of the report is about the container. -/
def Names (c : String) (r : Report) : Prop := ∃ p ∈ r.problems, p.container = some c

/-- The report names the container, and no message says "recovered" or "healthy". -/
def StillReported (c : String) (r : Report) : Prop :=
  Names c r ∧ ¬(r.post.isSome ∧ r.problems = [])

variable {host : Host} {files : Files} {a first : Answers} {later : List Answers} {c : String}
  {p : Problem} {snap : Option Snapshot}

/-! ### What a report names -/

/-- A problem with the network is one of a container that runs. -/
theorem container_of_networkProblem (h : networkProblem a c = some p) : p.container = some c := by
  rw [networkProblem] at h
  split at h
  · split at h
    · cases h
    · cases h
      rfl
  · split at h
    · cases h
      rfl
    · cases h

theorem container_of_statusProblem {st : String} (h : statusProblem c st = some p) :
    p.container = some c ∧ (holds "Restarting" st = true ∨ holds "unhealthy" st = true) := by
  rw [statusProblem] at h
  split at h
  · next hst =>
    cases h
    exact ⟨rfl, Or.inl hst⟩
  · split at h
    · next hst =>
      cases h
      exact ⟨rfl, Or.inr hst⟩
    · cases h

theorem container_of_mem_startProblems :
    (∃ p ∈ startProblems host a snap, p.container = some c) ↔
      c ∈ startList a snap ∧ (needsMissingMount host a c = true ∨ a.start c = false) := by
  constructor
  · rintro ⟨p, hp, hc⟩
    obtain ⟨d, hd, hp⟩ := List.mem_filterMap.mp hp
    split at hp
    · next hheld =>
      cases hp
      cases hc
      exact ⟨hd, Or.inl hheld⟩
    · split at hp
      · cases hp
      · next hstart =>
        cases hp
        cases hc
        exact ⟨hd, Or.inr (Bool.eq_false_of_not_eq_true hstart)⟩
  · rintro ⟨hc, hfails⟩
    by_cases hheld : needsMissingMount host a c = true
    · exact ⟨.heldBack c, List.mem_filterMap.mpr ⟨c, hc, if_pos hheld⟩, rfl⟩
    · have hstart : a.start c = false := hfails.resolve_left hheld
      refine ⟨.notStarted c, List.mem_filterMap.mpr ⟨c, hc, ?_⟩, rfl⟩
      rw [if_neg hheld, if_neg (by simp [hstart])]

/-- The checks that are not about containers name none. -/
theorem container_of_other (h : p ∈ mountProblems host a ∨ p ∈ dnsProblems host a ∨
    p ∈ endpointProblems host a ∨ p ∈ tunerProblems host a) : p.container = none := by
  rcases h with h | h | h | h
  · rcases List.mem_append.mp h with h | h
    · obtain ⟨m, -, rfl⟩ := List.mem_map.mp h
      rfl
    · split at h
      · obtain rfl := List.mem_singleton.mp h
        rfl
      · cases h
  · rw [dnsProblems] at h
    split at h
    · obtain rfl := List.mem_singleton.mp h
      rfl
    · cases h
  · obtain ⟨e, -, h⟩ := List.mem_filterMap.mp h
    rw [endpointProblem] at h
    split at h
    · cases h
    · split at h
      · cases h
        rfl
      · cases h
        rfl
  · rw [tunerProblems] at h
    split at h
    · obtain rfl := List.mem_singleton.mp h
      rfl
    · cases h

/-- A container that does not run is not among the running ones. -/
theorem Down.not_mem_running (h : Down c a) : c ∉ running a snap := by
  unfold running
  split
  · exact h.before
  · split
    · exact h.after
    · exact h.before

/-- **Which containers that are down a report names**: those that the run looks after, and
does not start. -/
theorem names_iff (h : Down c a) :
    Names c (report host a files) ↔
      c ∈ startList a files.snap ∧ (needsMissingMount host a c = true ∨ a.start c = false) := by
  rw [← container_of_mem_startProblems]
  constructor
  · rintro ⟨p, hp, hc⟩
    simp only [report, problems, List.mem_append, or_assoc] at hp
    rcases hp with hp | hp | hp | hp | hp | hp | hp
    · simp [container_of_other (Or.inl hp)] at hc
    · simp [container_of_other (Or.inr (Or.inl hp))] at hc
    · exact ⟨p, hp, hc⟩
    · -- a problem with the network, so the container would be running
      obtain ⟨d, hd, hp⟩ := List.mem_filterMap.mp hp
      obtain rfl : d = c := Option.some.inj ((container_of_networkProblem hp).symm.trans hc)
      exact absurd hd h.not_mem_running
    · obtain ⟨⟨d, st⟩, hd, hp⟩ := List.mem_filterMap.mp hp
      obtain ⟨hcontainer, hst⟩ := container_of_statusProblem hp
      obtain rfl : d = c := Option.some.inj (hcontainer.symm.trans hc)
      obtain ⟨hrestarting, hunhealthy⟩ := h.status st hd
      simp [hrestarting, hunhealthy] at hst
    · simp [container_of_other (Or.inr (Or.inr (Or.inl hp)))] at hc
    · simp [container_of_other (Or.inr (Or.inr (Or.inr hp)))] at hc
  · rintro ⟨p, hp, hc⟩
    refine ⟨p, ?_, hc⟩
    simp only [report, problems, List.mem_append]
    tauto

/-! ### Over the runs of a boot -/

/-- The snapshot that a run writes does not name a container that is down. -/
theorem Down.not_mem_newSnapshot (h : Down c a) (hc : c ≠ "") : c ∉ (newSnapshot a).names := by
  intro hmem
  rw [newSnapshot, mem_sortLines] at hmem
  obtain ⟨⟨policy, name⟩, hlisted, hline⟩ := List.mem_filterMap.mp hmem
  simp only [snapshotLine] at hline
  split at hline
  · cases hline
  · split at hline
    · exact hc (Option.some.inj hline).symm
    · exact h.listed policy (Option.some.inj hline ▸ hlisted)

/-- What the snapshot does not name is not named by any later report, while it is down. -/
theorem not_names_of_not_mem_snapshot (hc : c ≠ "") {runs : List Answers}
    (hdown : ∀ a ∈ runs, Down c a) (hsnap : ∀ s, files.snap = some s → c ∉ s.names) :
    ∀ r ∈ reports host files runs, ¬Names c r := by
  induction runs generalizing files with
  | nil => simp [reports]
  | cons a runs ih =>
    intro r hr
    rcases List.mem_cons.mp hr with rfl | hr
    · intro hnames
      obtain ⟨hstart, -⟩ := (names_iff (hdown a List.mem_cons_self)).mp hnames
      obtain ⟨s, hs, -, hmem, -⟩ := mem_startList.mp hstart
      exact hsnap s hs hmem
    · refine ih (fun b hb => hdown b (List.mem_cons_of_mem _ hb)) ?_ r hr
      rintro s ⟨⟩
      exact (hdown a List.mem_cons_self).not_mem_newSnapshot hc

/-- **A container that did not come back is reported in the first run only**: every report
of the boot names it exactly if there is no later one, and if the first run does not take
another container that runs for it. -/
theorem stillReported_iff (h : DidNotComeBack host files first c)
    (hdown : ∀ a ∈ first :: later, Down c a) :
    (∀ r ∈ reports host files (first :: later), StillReported c r) ↔
      later = [] ∧ ∀ line ∈ first.before, grepx c line = false := by
  obtain ⟨s, hsnap, hepoch, hmem⟩ := h.snapshot
  have hfirst : Names c (report host first files) ↔ _ := names_iff (hdown first List.mem_cons_self)
  constructor
  · intro hall
    constructor
    · cases later with
      | nil => rfl
      | cons a later =>
        have hsnap' : ∀ s, (leaves host first files).snap = some s → c ∉ s.names := by
          rintro s ⟨⟩
          exact (hdown first List.mem_cons_self).not_mem_newSnapshot h.name_ne
        have hnot : ∀ r ∈ reports host (leaves host first files) (a :: later), ¬Names c r :=
          not_names_of_not_mem_snapshot h.name_ne
            (fun b hb => hdown b (List.mem_cons_of_mem _ hb)) hsnap'
        -- the second report cannot name it
        have hsecond := hall (report host a (leaves host first files))
          (by simp [reports, healthcheck])
        exact absurd hsecond.1 (hnot _ (by simp [reports, healthcheck]))
    · obtain ⟨hstart, -⟩ := hfirst.mp (hall _ (by simp [reports, healthcheck])).1
      obtain ⟨-, -, -, -, -, hbefore⟩ := mem_startList.mp hstart
      exact hbefore
  · rintro ⟨rfl, hbefore⟩ r hr
    obtain rfl : r = report host first files := by simpa [reports, healthcheck] using hr
    have hnames : Names c (report host first files) :=
      hfirst.mpr ⟨mem_startList.mpr ⟨s, hsnap, hepoch, hmem, h.name_ne, hbefore⟩, h.fails⟩
    refine ⟨hnames, ?_⟩
    rintro ⟨-, hnone⟩
    obtain ⟨p, hp, -⟩ := hnames
    rw [hnone] at hp
    cases hp

/-- A run in which nothing runs and nothing is wrong, and `docker start` fails. -/
def nothingRuns : Answers where
  mode := .periodic
  webhook := true
  mountpoint _ := true
  mount _ := false
  stillMounted _ := true
  lookupcacheNone := true
  adguard := false
  dig := false
  bootEpoch := 1000
  before := []
  sources _ := []
  start _ := false
  after := []
  inspect _ := ⟨"host", "0", false⟩
  targetRuns _ := true
  recreate _ := false
  status := []
  listed := []
  writtenAt := 1100
  httpCode _ := "200"
  plexToken := false
  tuner _ := "alive"
  delivers := true

/-- What was written before the reboot: one container was running, and all was well. -/
def webWasRunning : Files := ⟨some ⟨900, ["web"]⟩, []⟩

theorem down_nothingRuns : Down "web" nothingRuns := by
  constructor <;> simp [nothingRuns]

theorem didNotComeBack_web :
    DidNotComeBack (hostOf "mediahub-staging") webWasRunning nothingRuns "web" :=
  ⟨by decide, ⟨_, rfl, by decide, by decide⟩, Or.inr rfl⟩

theorem stillReported_web :
    StillReported "web" (report (hostOf "mediahub-staging") nothingRuns webWasRunning) := by
  have hdown : ∀ a ∈ [nothingRuns], Down "web" a := by
    intro a ha
    obtain rfl := List.mem_singleton.mp ha
    exact down_nothingRuns
  exact (stillReported_iff didNotComeBack_web hdown).mpr ⟨rfl, by simp [nothingRuns]⟩ _
    (by simp [reports, healthcheck])

/-- The two messages: the container is missing, and then all is well. -/
def missingThenRecovered : List (List Char) :=
  [("❌ **mediahub-staging**: 1 problem(s)\n" ++
      "• web was running before the reboot and could not be started").toList,
    "✅ **mediahub-staging** recovered: all checks passing".toList]

/-- **Half an hour after the container could not be started, the host has recovered.** -/
theorem web_recovered :
    (∀ a ∈ [nothingRuns, nothingRuns], Down "web" a) ∧
    DidNotComeBack (hostOf "mediahub-staging") webWasRunning nothingRuns "web" ∧
    (reports (hostOf "mediahub-staging") webWasRunning [nothingRuns, nothingRuns]).map (·.post)
      = missingThenRecovered.map some ∧
    ¬∀ r ∈ reports (hostOf "mediahub-staging") webWasRunning [nothingRuns, nothingRuns],
      StillReported "web" r := by
  refine ⟨?_, didNotComeBack_web, by decide +kernel, ?_⟩
  · intro a ha
    obtain rfl : a = nothingRuns := by simpa using ha
    exact down_nothingRuns
  · intro hall
    have hsecond := hall (report (hostOf "mediahub-staging") nothingRuns
      (leaves (hostOf "mediahub-staging") nothingRuns webWasRunning))
      (by simp [reports, healthcheck])
    exact hsecond.2 ⟨by decide +kernel, by decide +kernel⟩

end Fleet
end MediaHub

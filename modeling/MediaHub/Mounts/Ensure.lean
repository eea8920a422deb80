import MediaHub.Lib.StepRuns
import Mathlib.Data.List.Lemmas

/-!
# The mount guard

`scripts/media-mounts-ensure.sh`: while a mount is missing, the containers that bind a guarded
path are stopped, and their names are kept in a file; once the mounts are there, what the file
lists is started.  One step is one command of the script, or something that happens to the
machine in between: the script is killed, the machine reboots, a container comes up, goes down,
is created or removed, or an operator takes a name off the file.

The mounts come and go as they like: what is mounted is part of the step that looks at it.
What a `docker` command comes to is part of its step as well.

## Main definitions

* `Docker`, `dependents`, `bindMountEpoch` — the containers, and what the script asks about them.
* `grepx` — `grep -qx`, for the name of a container.
* `step` — one step.

## Main results

* `starting_run` — a pass through the list starts all of it.
* `later_run_starts` — **a later run with the mounts up starts what is listed.**
-/

namespace MediaHub
namespace Mounts

/-! ### The containers -/

/-- A container. -/
structure Container where
  name : String
  /-- It is running or restarting. -/
  up : Bool
  /-- `HostConfig.RestartPolicy.Name`. -/
  policy : String
  /-- The sources of its mounts. -/
  sources : List String
  deriving DecidableEq, Repr

/-- The containers, as `docker ps` lists them. -/
abbrev Docker := List Container

/-- There is a container of this name. -/
def Docker.has (d : Docker) (c : String) : Bool := d.any fun k => k.name = c

def Docker.isUp (d : Docker) (c : String) : Bool := d.any fun k => k.name = c && k.up

/-- The container `c` comes up or goes down. -/
def Docker.set (d : Docker) (c : String) (up : Bool) : Docker :=
  d.map fun k => if k.name = c then { k with up := up } else k

/-- The machine reboots, and Docker brings the containers `back` up. -/
def Docker.reboot (d : Docker) (back : List String) : Docker :=
  d.map fun k => { k with up := decide (k.name ∈ back) }

variable {d : Docker} {c c' : String} {up : Bool}

theorem Docker.has_set : (d.set c up).has c' = d.has c' := by
  have hname : ∀ k : Container, (if k.name = c then { k with up := up } else k).name = k.name := by
    intro k
    split <;> rfl
  simp only [Docker.has, Docker.set, List.any_map, Function.comp_def, hname]

/-- The other containers stay as they are. -/
theorem Docker.isUp_set_of_ne (hne : c' ≠ c) : (d.set c up).isUp c' = d.isUp c' := by
  have hother : ∀ k : Container,
      (decide ((if k.name = c then { k with up := up } else k).name = c') &&
      (if k.name = c then { k with up := up } else k).up) = (decide (k.name = c') && k.up) := by
    intro k
    split
    next hk => simp [hk, hne.symm]
    next => rfl
  simp only [Docker.isUp, Docker.set, List.any_map, Function.comp_def, hother]

theorem Docker.isUp_set_true (h : d.has c = true) : (d.set c true).isUp c = true := by
  obtain ⟨k, hk, hname⟩ := List.any_eq_true.mp h
  refine List.any_eq_true.mpr ⟨_, List.mem_map_of_mem hk, ?_⟩
  simp [of_decide_eq_true hname]

/-- What the script is told about its host. -/
structure Config where
  mountPaths : List String
  depPaths : List String
  /-- Parallel to `depPaths`. -/
  depUnits : List String
  exclude : List String

def r9 : Config where
  mountPaths := ["/mnt/nas", "/mnt/prod-internal", "/mnt/media"]
  depPaths := ["/mnt/nas", "/mnt/prod-internal", "/mnt/media"]
  depUnits := ["mnt-nas.mount", "mnt-prod-internal.mount", "mnt-media.mount"]
  exclude := []

def production : Config where
  mountPaths := ["/mnt/internal", "/mnt/nas", "/mnt/media"]
  depPaths := ["/mnt/nas", "/mnt/media"]
  depUnits := ["mnt-nas.mount", "mnt-media.mount"]
  exclude := ["netdata", "glances"]

/-- `"$m"|"$m"/*`. -/
def under (m src : String) : Bool := src = m || (m ++ "/").toList.isPrefixOf src.toList

/-- `all_up`, with what is mounted and whether the probe is visible. -/
def allUp (cfg : Config) (mounted : List String) (probe : Bool) : Bool :=
  cfg.mountPaths.all (· ∈ mounted) && probe

/-- `dependents`: what runs, is not excluded, has a restart policy and binds a guarded path. -/
def dependents (cfg : Config) (d : Docker) : List String :=
  (d.filter fun k => k.up && k.name ∉ cfg.exclude && k.policy ≠ "no" &&
    k.sources.any fun src => cfg.depPaths.any fun m => under m src).map (·.name)

/-- `bind_mount_epoch`: the newest activation of the mounts that are bound. -/
def bindMountEpoch (cfg : Config) (activated : String → ℕ) (sources : List String) : ℕ :=
  (sources.flatMap fun src => ((cfg.depPaths.zip cfg.depUnits).filter fun m => under m.1 src).map
    fun m => activated m.2).foldl max 0

/-- The container is older than the mounts that it binds; a time that is not known is `0`. -/
def stale (cfg : Config) (d : Docker) (c : String) (startedAt : ℕ) (activated : String → ℕ) :
    Bool :=
  let mt := bindMountEpoch cfg activated (((d.find? (·.name = c)).map (·.sources)).getD [])
  0 < startedAt && startedAt < mt

/-- `grep -qx` of the name of a container: a dot stands for any character. -/
def grepx (c line : String) : Bool :=
  c.length = line.length && (c.toList.zip line.toList).all fun p => p.1 = '.' || p.1 = p.2

example : grepx "web.app" "web-app" = true := by decide +kernel

/-! ### The script -/

/-- Where the script is. -/
inductive Phase where
  | idle
  /-- It has been called, with `DRYRUN` or without. -/
  | begun (dry : Bool)
  /-- The names `deps` are being recorded, and `rest` is still to come. -/
  | recording (rest deps : List String)
  | stopping (rest : List String)
  | waiting
  /-- `start_held`, with the lines that are still to be read. -/
  | starting (rest : List String)
  /-- Past `start_held`. -/
  | cleared (dry : Bool)
  | restarting (dry : Bool) (rest : List String)
  deriving DecidableEq, Repr

/-- The machine. -/
structure State where
  docker : Docker
  /-- The lines of the file `HELD`. -/
  held : List String
  phase : Phase
  deriving DecidableEq, Repr

/-- What happens. -/
inductive Label where
  | run (dry : Bool)
  | check (mounted : List String) (probe : Bool)
  | record
  /-- `docker stop`. -/
  | stop (ok : Bool)
  /-- `docker start`. -/
  | start (ok : Bool)
  /-- A container is looked at; where it is restarted, it is `up` after that, or left stopped. -/
  | examine (startedAt : ℕ) (activated : String → ℕ) (up : Bool)
  /-- A loop of the script is at its end. -/
  | next
  /-- The script is killed. -/
  | crash
  | reboot (back : List String)
  | comesUp (c : String)
  | goesDown (c : String)
  | create (k : Container)
  | remove (c : String)
  /-- An operator takes a name off the file. -/
  | unlist (c : String)

/-- What the script does once it has looked at the mounts. -/
def checked (cfg : Config) (s : State) (up : Bool) : Option State :=
  match s.phase with
  | .begun dry =>
    if up then some { s with phase := if dry then .cleared true else .starting s.held }
    else if dry then some { s with phase := .idle }
    else some { s with phase := .recording (dependents cfg s.docker) (dependents cfg s.docker) }
  | .waiting => some { s with phase := if up then .starting s.held else .waiting }
  | _ => none

/-- What comes after a loop. -/
def looped (cfg : Config) (s : State) : Option State :=
  match s.phase with
  | .recording [] deps => some { s with phase := .stopping deps }
  | .stopping [] => some { s with phase := .waiting }
  -- `: > "$HELD"`
  | .starting [] => some { s with held := [], phase := .cleared false }
  | .cleared dry => some { s with phase := .restarting dry (dependents cfg s.docker) }
  | .restarting _ [] => some { s with phase := .idle }
  | _ => none

/-- One step. -/
def step (cfg : Config) (s : State) : Label → Option State
  | .run dry => if s.phase = .idle then some { s with phase := .begun dry } else none
  | .check mounted probe => checked cfg s (allUp cfg mounted probe)
  | .record =>
    match s.phase with
    | .recording (c :: rest) deps =>
      some { s with
        held := if s.held.any (grepx c) then s.held else s.held ++ [c]
        phase := .recording rest deps }
    | _ => none
  | .stop ok =>
    match s.phase with
    | .stopping (c :: rest) =>
      some { s with
        docker := if ok then s.docker.set c false else s.docker, phase := .stopping rest }
    | _ => none
  | .start ok =>
    match s.phase with
    | .starting (c :: rest) =>
      -- a container that is not there does not start
      if ok ∧ s.docker.has c = false then none
      else some { s with
        docker := if ok then s.docker.set c true else s.docker, phase := .starting rest }
    | _ => none
  | .examine startedAt activated up =>
    match s.phase with
    | .restarting dry (c :: rest) =>
      some { s with
        docker := if stale cfg s.docker c startedAt activated ∧ dry = false then s.docker.set c up
          else s.docker
        phase := .restarting dry rest }
    | _ => none
  | .next => looped cfg s
  | .crash => some { s with phase := .idle }
  | .reboot back => some { s with docker := s.docker.reboot back, phase := .idle }
  | .comesUp c => some { s with docker := s.docker.set c true }
  | .goesDown c => some { s with docker := s.docker.set c false }
  | .create k => if s.docker.has k.name then none else some { s with docker := k :: s.docker }
  | .remove c => some { s with docker := s.docker.filter (·.name ≠ c) }
  | .unlist c => some { s with held := s.held.filter (· ≠ c) }

/-! ### A later run -/

variable {cfg : Config}

/-- A pass through the list starts all of it. -/
theorem starting_run {s : State} {rest : List String} (hphase : s.phase = .starting rest)
    (hhas : ∀ c ∈ rest, s.docker.has c = true) :
    ∃ s', runSteps (step cfg) s (rest.map fun _ => .start true) = some s' ∧
      (∀ c, s.docker.isUp c = true → s'.docker.isUp c = true) ∧
      ∀ c ∈ rest, s'.docker.isUp c = true := by
  induction rest generalizing s with
  | nil => exact ⟨s, rfl, fun _ h => h, by simp⟩
  | cons c rest ih =>
    let t : State := { s with docker := s.docker.set c true, phase := .starting rest }
    have hc : s.docker.has c = true := hhas c List.mem_cons_self
    have hstep : step cfg s (.start true) = some t := by
      simp [step, hphase, hc, t]
    have hrest : ∀ c' ∈ rest, t.docker.has c' = true := by
      intro c' hc'
      rw [Docker.has_set]
      exact hhas c' (List.mem_cons_of_mem c hc')
    obtain ⟨s', hrun, hkeep, hup⟩ := ih rfl hrest
    have hself : s'.docker.isUp c = true := hkeep c (Docker.isUp_set_true hc)
    refine ⟨s', runSteps_cons.mpr ⟨t, hstep, hrun⟩, ?_, List.forall_mem_cons.mpr ⟨hself, hup⟩⟩
    intro c' hc'
    by_cases hne : c' = c
    · exact hne ▸ hself
    · refine hkeep c' ?_
      rwa [Docker.isUp_set_of_ne hne]

/-- **A later run with the mounts up starts what is listed.** -/
theorem later_run_starts {s : State} {mounted : List String} {probe : Bool}
    (hidle : s.phase = .idle) (hup : allUp cfg mounted probe = true)
    (hhas : ∀ c ∈ s.held, s.docker.has c = true) :
    ∃ s', runSteps (step cfg) s
        (.run false :: .check mounted probe :: s.held.map fun _ => .start true) = some s' ∧
      ∀ c ∈ s.held, s'.docker.isUp c = true := by
  let t : State := { s with phase := .starting s.held }
  obtain ⟨s', hrun, -, hall⟩ := @starting_run cfg t s.held rfl hhas
  refine ⟨s', runSteps_cons.mpr ⟨{ s with phase := .begun false }, by simp [step, hidle], ?_⟩, hall⟩
  exact runSteps_cons.mpr ⟨t, by simp [step, checked, hup, t], hrun⟩

end Mounts
end MediaHub

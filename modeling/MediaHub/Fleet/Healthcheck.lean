import MediaHub.Mounts.Ensure
import Mathlib.Data.List.Infix
import Mathlib.Data.List.Sort
import Mathlib.Data.String.Basic

/-!
# The fleet health check

`scripts/fleet-healthcheck.sh`: a run looks at the mounts, the DNS server, the containers,
the endpoints and the tuner of its host, repairs what it may, and posts what it found when
it was asked to, when it repaired something, or when the problems are not those of the run
before.  Two files carry over from one run to the next: the snapshot of what was running,
and the problems of the last run.

What the commands of a run answer is its input.  A file is its lines, and the text of a
problem is a line: the names, addresses and states in it hold no line break.

## Main definitions

* `Host`, `hostOf` — what the script is told about its host.
* `Problem`, `Fix` — what it reports.
* `Answers` — what the commands of one run answer.
* `healthcheck` — one run: the files it leaves, and its report.

## Main results

* `mem_startList` — which containers the first run after a boot tries to start.
* `named_prefix` — the problems that a message names are in the message.
-/

namespace MediaHub
namespace Fleet

open Mounts (grepx under)

/-! ### Hosts -/

/-- What the script is told about its host. -/
structure Host where
  name : String
  mounts : List String
  /-- `LOOKUPCACHE_MOUNT`, empty where there is none. -/
  lookupcacheMount : String
  /-- The name and the address of each endpoint. -/
  endpoints : List (String × String)

/-- The configuration of a host name. -/
def hostOf (name : String) : Host :=
  if name = "mediahub-production" ∨ name = "mediahub-i7" then
    ⟨name, ["/mnt/nas", "/mnt/media", "/mnt/permissions-canary-control"], "/mnt/nas",
      [("Threadfin", "http://127.0.0.1:34400/discover.json"),
        ("Nextcloud", "https://nextcloud.lan/status.php"),
        ("Uptime Kuma", "http://127.0.0.1:3001"), ("Caddy", "https://plex.lan")]⟩
  else if name = "mediahub-r9" then
    ⟨name, ["/mnt/nas", "/mnt/prod-internal", "/mnt/media"], "/mnt/nas",
      [("Plex", "http://127.0.0.1:32400/identity"),
        ("subgen (tailnet-only)", "http://100.121.244.45:9000/"),
        ("Immich ML (tailnet-only, used by production Immich)", "http://100.121.244.45:3003/ping")]⟩
  else if name = "mediahub-staging" ∨ name = "mediahub-x51" then
    ⟨name, [], "", [("Home Assistant (tailnet-only)", "http://100.124.234.117:8123/")]⟩
  else ⟨name, [], "", []⟩

/-! ### Problems and repairs -/

/-- What a run can find wrong. -/
inductive Problem where
  | notMounted (mount : String)
  | noLookupcache (mount : String)
  | dnsSilent (host : String)
  | heldBack (container : String)
  | notStarted (container : String)
  | networkGone (container : String)
  | noNetwork (container : String)
  | crashLooping (container status : String)
  | unhealthy (container : String)
  | lanEndpoint (name url code : String)
  | endpoint (name url : String)
  | tuner (status : String)
  deriving DecidableEq, Repr

/-- The text of a problem. -/
def Problem.text : Problem → String
  | .notMounted m => s!"{m} is NOT mounted (auto-mount failed)"
  | .noLookupcache m => s!"{m} is mounted WITHOUT lookupcache=none (D12 NAS fix missing)"
  | .dnsSilent host => s!"AdGuard DNS on {host} is not answering"
  | .heldBack c =>
    s!"{c} not started: it binds a mount that is missing (held by media-mounts-ensure)"
  | .notStarted c => s!"{c} was running before the reboot and could not be started"
  | .networkGone c => s!"{c} shares the network of a container that is gone or stopped"
  | .noNetwork c => s!"{c} is running with NO network attached (auto-recreate failed)"
  | .crashLooping c st => s!"{c} is crash-looping ({st})"
  | .unhealthy c => s!"{c} is unhealthy"
  | .lanEndpoint name url code => s!"{name} not answering ({url} -> HTTP {code})"
  | .endpoint name url => s!"{name} not answering ({url})"
  | .tuner st =>
    "Plex Live TV tuner status is '" ++ (if st = "" then "unknown" else st) ++ "' (expected alive)"

/-- The container that a problem is about. -/
def Problem.container : Problem → Option String
  | .heldBack c | .notStarted c | .networkGone c | .noNetwork c | .crashLooping c _
  | .unhealthy c => some c
  | _ => none

/-- What a run can repair. -/
inductive Fix where
  | mounted (mount : String)
  | started (container : String)
  | recreated (container : String)
  deriving DecidableEq, Repr

/-- The text of a repair. -/
def Fix.text : Fix → String
  | .mounted m => s!"mounted {m} (was missing)"
  | .started c => s!"started {c} (was running before the reboot, didn't come back)"
  | .recreated c => s!"recreated {c} (it was running with NO network attached)"

/-! ### What a run is told -/

/-- How the script is called. -/
inductive Mode where
  | periodic
  | boot
  | test
  deriving DecidableEq, Repr

/-- What `docker inspect` says about a running container. -/
structure Inspected where
  /-- `HostConfig.NetworkMode`. -/
  nmode : String
  /-- The number of its networks, as it is printed. -/
  nnets : String
  /-- The compose project has a working directory, and it is there. -/
  workingDir : Bool
  deriving DecidableEq, Repr

/-- What the commands of a run answer. -/
structure Answers where
  mode : Mode
  /-- `FLEET_HEALTH_WEBHOOK` is set. -/
  webhook : Bool
  /-- `mountpoint -q`, at the start. -/
  mountpoint : String → Bool
  /-- `sudo -n mount` of a missing mount, and its mount point afterwards. -/
  mount : String → Bool
  /-- `mountpoint -q`, from then on. -/
  stillMounted : String → Bool
  /-- The mount options hold `lookupcache=none`. -/
  lookupcacheNone : Bool
  /-- `adguardhome` is running. -/
  adguard : Bool
  /-- `dig` got an address. -/
  dig : Bool
  bootEpoch : ℤ
  /-- `docker ps`, at the start. -/
  before : List String
  /-- The sources of the mounts of a container. -/
  sources : String → List String
  /-- `docker start`. -/
  start : String → Bool
  /-- `docker ps`, after the containers were started. -/
  after : List String
  inspect : String → Inspected
  /-- `State.Running` of the container whose network is shared. -/
  targetRuns : String → Bool
  /-- `docker compose up --force-recreate`, and a network afterwards. -/
  recreate : String → Bool
  /-- `docker ps -a` with the status. -/
  status : List (String × String)
  /-- The restart policy and the name of each running container, at the end. -/
  listed : List (String × String)
  /-- When the snapshot is written. -/
  writtenAt : ℤ
  /-- The HTTP code of an address. -/
  httpCode : String → String
  /-- Plex runs on this host and its token was read. -/
  plexToken : Bool
  /-- The status of the tuner at each try. -/
  tuner : ℕ → String
  /-- `curl` delivered the message. -/
  delivers : Bool

/-! ### The checks -/

section

variable (host : Host) (a : Answers)

/-- The text holds this part. -/
def holds (part text : String) : Bool := decide (part.toList <:+: text.toList)

def mountProblems : List Problem :=
  ((host.mounts.filter fun m => !a.mountpoint m && !a.mount m).map .notMounted) ++
    if host.lookupcacheMount ≠ "" ∧ a.stillMounted host.lookupcacheMount ∧ !a.lookupcacheNone then
      [.noLookupcache host.lookupcacheMount]
    else []

def mountFixes : List Fix :=
  (host.mounts.filter fun m => !a.mountpoint m && a.mount m).map .mounted

def dnsProblems : List Problem := if a.adguard ∧ !a.dig then [.dnsSilent host.name] else []

/-- `needs_missing_mount`. -/
def needsMissingMount (c : String) : Bool :=
  (a.sources c).any fun src => host.mounts.any fun m => !a.stillMounted m && under m src

/-- The snapshot: when it was written, and the names in it. -/
structure Snapshot where
  epoch : ℤ
  names : List String
  deriving DecidableEq, Repr

/-- The containers of the snapshot that are looked after: on the first run since a reboot,
those that no running name matches. -/
def startList (snap : Option Snapshot) : List String :=
  match snap with
  | none => []
  | some snap =>
    if snap.epoch < a.bootEpoch then
      snap.names.filter fun c => c ≠ "" && !a.before.any (grepx c)
    else []

def startProblems (snap : Option Snapshot) : List Problem :=
  (startList a snap).filterMap fun c =>
    if needsMissingMount host a c then some (.heldBack c)
    else if a.start c then none else some (.notStarted c)

def startFixes (snap : Option Snapshot) : List Fix :=
  ((startList a snap).filter fun c => !needsMissingMount host a c && a.start c).map .started

/-- The containers that are running when the networks are looked at. -/
def running (snap : Option Snapshot) : List String :=
  match snap with
  | none => a.before
  | some snap => if snap.epoch < a.bootEpoch then a.after else a.before

/-- The container whose network a container shares. -/
def sharedWith (nmode : String) : Option String :=
  if "container:".toList.isPrefixOf nmode.toList then some (String.ofList (nmode.toList.drop 10))
  else none

/-- A container without a network, which is to be recreated. -/
def lacksNetwork (c : String) : Bool :=
  let i := a.inspect c
  i.nmode ≠ "host" && i.nmode ≠ "none" && (sharedWith i.nmode).isNone && i.nnets = "0"

/-- It is recreated. -/
def recreated (c : String) : Bool := (a.inspect c).workingDir && a.recreate c

def networkProblem (c : String) : Option Problem :=
  match sharedWith (a.inspect c).nmode with
  | some target => if a.targetRuns target then none else some (.networkGone c)
  | none => if lacksNetwork a c && !recreated a c then some (.noNetwork c) else none

def networkProblems (snap : Option Snapshot) : List Problem :=
  (running a snap).filterMap (networkProblem a)

def networkFixes (snap : Option Snapshot) : List Fix :=
  ((running a snap).filter fun c => lacksNetwork a c && recreated a c).map .recreated

def statusProblem (c st : String) : Option Problem :=
  if holds "Restarting" st then some (.crashLooping c st)
  else if holds "unhealthy" st then some (.unhealthy c)
  else none

def statusProblems : List Problem := a.status.filterMap fun p => statusProblem p.1 p.2

/-- A line of the new snapshot; `awk` prints the second field, so a name without a policy
before it leaves an empty line. -/
def snapshotLine (policy name : String) : Option String :=
  if policy = "no" then none else some (if policy = "" then "" else name)

/-- `sort`. -/
def sortLines (lines : List String) : List String := lines.insertionSort (· ≤ ·)

/-- The new snapshot. -/
def newSnapshot : Snapshot where
  epoch := a.writtenAt
  names := sortLines (a.listed.filterMap fun p => snapshotLine p.1 p.2)

/-- The codes of an endpoint that answers. -/
def okCodes : List String := ["200", "204", "301", "302", "401"]

/-- `https://*.lan*`. -/
def isLan (url : String) : Bool :=
  "https://".toList.isPrefixOf url.toList && holds ".lan" (String.ofList (url.toList.drop 8))

def endpointProblem (name url : String) : Option Problem :=
  if a.httpCode url ∈ okCodes then none
  else if isLan url then some (.lanEndpoint name url (a.httpCode url))
  else some (.endpoint name url)

def endpointProblems : List Problem := host.endpoints.filterMap fun e => endpointProblem a e.1 e.2

/-- The status after the last of eight tries, or the first that is `alive`. -/
def tunerStatus : String :=
  (((List.range 8).map a.tuner).find? (· = "alive")).getD (a.tuner 7)

def tunerProblems : List Problem :=
  if host.name = "mediahub-r9" ∧ a.plexToken ∧ tunerStatus a ≠ "alive" then
    [.tuner (tunerStatus a)]
  else []

/-- `problems`. -/
def problems (snap : Option Snapshot) : List Problem :=
  mountProblems host a ++ dnsProblems host a ++ startProblems host a snap ++
    networkProblems a snap ++ statusProblems a ++ endpointProblems host a ++ tunerProblems host a

/-- `fixes`. -/
def fixes (snap : Option Snapshot) : List Fix :=
  mountFixes host a ++ startFixes host a snap ++ networkFixes a snap

/-! ### The report -/

/-- The first line of the message. -/
def head (ps : List Problem) (last : List String) : String :=
  if ps = [] ∧ last ≠ [] ∧ a.mode ≠ .boot then s!"✅ **{host.name}** recovered: all checks passing"
  else
    let line :=
      if ps = [] then s!"✅ **{host.name}** healthy"
      else s!"❌ **{host.name}**: {ps.length} problem(s)"
    match a.mode with
    | .periodic => line
    | .boot => line ++ " (after boot)"
    | .test => line ++ " (manual test run)"

/-- A problem in the message. -/
def bullet (p : Problem) : List Char := "\n• ".toList ++ p.text.toList

/-- A repair in the message. -/
def wrench (f : Fix) : List Char := "\n🔧 ".toList ++ f.text.toList

/-- The text that is posted: the first 1900 characters. -/
def content (ps : List Problem) (fs : List Fix) (last : List String) : List Char :=
  ((head host a ps last).toList ++ ps.flatMap bullet ++ fs.flatMap wrench).take 1900

/-- The problems that fit into some room. -/
def fitting : ℕ → List Problem → List Problem
  | _, [] => []
  | room, p :: ps =>
    if (bullet p).length ≤ room then p :: fitting (room - (bullet p).length) ps else []

/-- The problems that a message names. -/
def named (ps : List Problem) (last : List String) : List Problem :=
  fitting (1900 - (head host a ps last).length) ps

/-- The files that a run finds: the snapshot, and the problems of the last run. -/
structure Files where
  snap : Option Snapshot
  last : List String
  deriving DecidableEq, Repr

/-- What a run reports. -/
structure Report where
  problems : List Problem
  fixes : List Fix
  /-- The message that is posted, if any. -/
  post : Option (List Char)
  /-- The problems it names. -/
  named : List Problem
  deriving DecidableEq, Repr

/-- `cur`. -/
def current (snap : Option Snapshot) : List String :=
  sortLines ((problems host a snap).map (·.text))

/-- Nothing asks for a message. -/
def Quiet (files : Files) : Prop :=
  a.mode = .periodic ∧ fixes host a files.snap = [] ∧ current host a files.snap = files.last

instance (files : Files) : Decidable (Quiet host a files) :=
  inferInstanceAs (Decidable (_ ∧ _ ∧ _))

/-- The report of a run. -/
def report (files : Files) : Report where
  problems := problems host a files.snap
  fixes := fixes host a files.snap
  post :=
    if ¬Quiet host a files ∧ a.webhook then
      some (content host a (problems host a files.snap) (fixes host a files.snap) files.last)
    else none
  named := named host a (problems host a files.snap) files.last

/-- The files that a run leaves; the problems are written before they are posted. -/
def leaves (files : Files) : Files where
  snap := some (newSnapshot a)
  last := current host a files.snap

/-- One run: the files it leaves, and its report. -/
def healthcheck (files : Files) : Files × Report := (leaves host a files, report host a files)

/-- The reports of one run after the other. -/
def reports (host : Host) : Files → List Answers → List Report
  | _, [] => []
  | files, a :: runs =>
    (healthcheck host a files).2 :: reports host (healthcheck host a files).1 runs

/-! ### What the checks say -/

variable {host a} {snap : Option Snapshot} {c : String} {p : Problem}

@[simp] theorem mem_sortLines {lines : List String} : c ∈ sortLines lines ↔ c ∈ lines :=
  List.mem_insertionSort _

/-- The first run since a reboot looks after what the snapshot names and nothing that runs
matches. -/
theorem mem_startList :
    c ∈ startList a snap ↔ ∃ s, snap = some s ∧ s.epoch < a.bootEpoch ∧ c ∈ s.names ∧ c ≠ "" ∧
      ∀ line ∈ a.before, grepx c line = false := by
  cases snap with
  | none => simp [startList]
  | some s =>
    rw [startList]
    split
    · next h => simp [h, List.any_eq_false]
    · next h => simp [h]

/-- What fits takes no more than the room. -/
theorem length_fitting_le (room : ℕ) (ps : List Problem) :
    ((fitting room ps).flatMap bullet).length ≤ room := by
  induction ps generalizing room with
  | nil => simp [fitting]
  | cons p ps ih =>
    rw [fitting]
    split
    · next h =>
      rw [List.flatMap_cons, List.length_append]
      have := ih (room - (bullet p).length)
      omega
    · simp

theorem fitting_prefix (room : ℕ) (ps : List Problem) : fitting room ps <+: ps := by
  induction ps generalizing room with
  | nil => simp [fitting]
  | cons p ps ih =>
    rw [fitting]
    split
    · exact (List.prefix_cons_inj p).mpr (ih _)
    · exact List.nil_prefix

/-- The problems that a message names are in the message. -/
theorem named_prefix {ps : List Problem} {fs : List Fix} {last : List String}
    (h : (head host a ps last).length ≤ 1900) :
    (head host a ps last).toList ++ (named host a ps last).flatMap bullet
      <+: content host a ps fs last := by
  obtain ⟨rest, hrest⟩ := fitting_prefix (1900 - (head host a ps last).length) ps
  have hroom := length_fitting_le (1900 - (head host a ps last).length) ps
  have hps : ps.flatMap bullet = (named host a ps last).flatMap bullet ++ rest.flatMap bullet := by
    rw [named, ← List.flatMap_append, hrest]
  rw [content, List.prefix_take_iff]
  constructor
  · refine ⟨rest.flatMap bullet ++ fs.flatMap wrench, ?_⟩
    rw [hps]
    simp only [List.append_assoc]
  · rw [List.length_append, named, String.length_toList]
    omega

end

end Fleet
end MediaHub

import MediaHub.Maintenance.SessionActivity

/-!
# The maintenance window

`scripts/maintenance-window.sh`: the pending updates are applied, and the machine is rebooted
where that is required, unless someone is using it.  The one who watches Plex is asked for over
`ssh`; the other services of the machine are asked by `session-activity.py`, whose exit status
the script throws away.

## Main definitions

* `plexStreams`, `activity` — who is using the machine, as the script sees it.
* `window` — what a run does.
* `Careful` — no guess is made: the contract of the run.
* `Guesses` — what the services do that a run takes for idle without a reason.

## Main results

* `activity_eq_zero_iff` — when the machine is taken for idle.
* `disruptive_iff` — when a run gets to what a user would notice.
* `careful_iff` — **the runs that make no guess.**
-/

namespace MediaHub
namespace Maintenance

/-- The machines, by their host names. -/
inductive Host where
  | production
  | i7
  | r9
  | other
  deriving DecidableEq, Repr

/-- The machines that Plex depends on: these ask before a reboot. -/
def Host.gated (host : Host) : Bool := host ≠ .other

/-- How the question for the sessions of Plex ends. -/
inductive Plex where
  /-- The query is not run on r9. -/
  | unasked
  /-- It is run, and nothing is listening. -/
  | refused
  /-- Plex has accepted the connection, and the one to r9 is lost before there is a count. -/
  | lost
  /-- What `curl` has got of the body, whatever the status. -/
  | answered (status : ℕ) (sent : List UInt8)
  deriving DecidableEq, Repr

/-- A run of the script, with all that it finds. -/
structure Night where
  root : Bool
  /-- The file of the last reboot holds the date of today. -/
  rebootedToday : Bool
  host : Host
  dryRun : Bool
  /-- The packages that are to be upgraded, those of the NVIDIA driver aside. -/
  pending : List String
  /-- `/var/run/reboot-required` is there at the start. -/
  rebootRequired : Bool
  upgradeOk : Bool
  /-- The file is there after the upgrade. -/
  rebootRequiredAfter : Bool
  /-- The services that `needrestart` lists. -/
  needrestart : List String
  services : Services
  plex : Plex
  /-- r9 answers a ping. -/
  ping : Bool

/-- What a run does. -/
inductive Action where
  /-- Someone is using the machine: put off. -/
  | defer (s : String)
  | upgrade (packages : List String)
  | failed
  | restart (services : List String)
  | recordReboot
  | reboot
  deriving DecidableEq, Repr

variable (O : Outside)

/-! ### Is anyone watching? -/

/-- The `size` in the answer: `none` where the query crashes, `some none` where it is left out. -/
def plexSize (sent : List UInt8) : Option (Option Json) :=
  match (O.load sent).bind (Json.item "MediaContainer") with
  | some (.obj fields) => some ((Json.obj fields).item "size")
  | _ => none

/-- `$(..)` drops the newlines at the end. -/
def captured (s : String) : String :=
  String.ofList (s.toList.reverse.dropWhile (· = '\n')).reverse

/-- What the query prints. -/
def plexPrinted : Plex → String
  | .answered _ sent =>
    match plexSize O sent with
    | none => ""
    | some none => "0"
    | some (some size) => captured (O.str size)
  | _ => ""

/-- `^[0-9]+$`. -/
def isCount (s : String) : Bool := s.toList ≠ [] ∧ s.toList.all Char.isDigit

/-- `plex_streams`. -/
def plexStreams (N : Night) : String :=
  let n := plexPrinted O N.plex
  if isCount n then n
  else if N.host ≠ .r9 ∧ N.ping = false then "0"
  else "unknown"

/-- What `activity` makes of the count `p`. -/
def plexOut (p : String) : String :=
  if p = "unknown" then "Plex unknown" else if p ≠ "0" then "Plex streams: " ++ p else ""

/-- `activity`: `0` where everyone is idle. -/
def activity (N : Night) : String :=
  let x := (main O N.services).stdout
  let out := plexOut (plexStreams O N)
  let out := if x ≠ "" then (if out ≠ "" then out ++ "; " else "") ++ x else out
  if out = "" then "0" else out

/-! ### The run -/

/-- What a package starts with whose update restarts the machine or every container. -/
def RESTARTING : List String :=
  ["linux-image", "linux-modules", "docker-ce", "containerd.io", "nvidia-container"]

def needsRestart (packages : List String) : Bool :=
  packages.any fun p => RESTARTING.any fun start => start.toList.isPrefixOf p.toList

/-- `DEFERRED_RE`. -/
def DEFERRED : List String :=
  ["tailscaled.service", "xorg-headless.service", "openbox-headless.service", "sunshine.service"]

/-- `deferred_waiting`, sorted in reverse. -/
def deferredWaiting (N : Night) : List String :=
  (N.needrestart.filter (· ∈ DEFERRED)).mergeSort fun a b => decide (b ≤ a)

/-- The run from where the updates have been applied. -/
def afterUpgrade (N : Night) (rebootNeeded : Bool) : List Action :=
  let s := activity O N
  if rebootNeeded then [.recordReboot, .reboot]
  else if N.rebootRequiredAfter then
    if N.host.gated ∧ s ≠ "0" then [.defer s] else [.recordReboot, .reboot]
  else if deferredWaiting N = [] then []
  else if s ≠ "0" then [.defer s]
  else [.restart (deferredWaiting N)]

/-- The script. -/
def window (N : Night) : List Action :=
  if N.root = false ∨ N.rebootedToday then []
  else
    let rebootNeeded := N.rebootRequired || needsRestart N.pending
    let s := activity O N
    if rebootNeeded ∧ N.host.gated ∧ s ≠ "0" then (if N.dryRun then [] else [.defer s])
    else if N.dryRun then []
    else if N.pending = [] then afterUpgrade O N rebootNeeded
    else .upgrade N.pending :: if N.upgradeOk then afterUpgrade O N rebootNeeded else [.failed]

/-! ### The contract -/

/-- A user of the machine would notice: the upgrade that restarts something, the restart of the
services that were held back, the reboot. -/
def Action.Disruptive : Action → Prop
  | .upgrade packages => needsRestart packages = true
  | .restart _ => True
  | .reboot => True
  | _ => False

/-- What Plex has said to the one who asks it. -/
def Plex.said : Plex → Said
  | .unasked => .nothing
  | .refused => .nothing
  | .lost => .unread
  | .answered status sent =>
    match plexSize O sent with
    | some (some size) =>
      if 400 ≤ status ∨ isCount (captured (O.str size)) = false then .unread
      else if captured (O.str size) = "0" then .idle else .busy
    | _ => .unread

/-- **No guess is made.** -/
structure Careful (N : Night) : Prop where
  /-- What a user would notice is done only where each service that is there says that no one
  is using it. -/
  idle : (∃ a ∈ window O N, a.Disruptive) →
    (∀ s ∈ N.services.said O, s.Free) ∧ (N.plex.said O).Free
  /-- Where a service could not be read, `session-activity.py` says so. -/
  told : (main O N.services).stdout = "" → .unread ∉ N.services.said O

/-- Sunshine has accepted the connection, cannot be read and is still taken for idle. -/
def Http.Misread (h : Http) : Prop := h.TakenForIdle O ∧ h.said O = .unread

/-- The answer of Plex cannot be read, and the run takes it for idle: it has no `size`, or its
status is an error, or it has no count and r9 does not answer a ping. -/
def Night.PlexMisread (N : Night) : Prop :=
  match N.plex with
  | .unasked => False
  | .refused => False
  | .lost => N.host ≠ .r9 ∧ N.ping = false
  | .answered status sent =>
    match plexSize O sent with
    | none => N.host ≠ .r9 ∧ N.ping = false
    | some none => True
    | some (some size) =>
      if isCount (captured (O.str size)) then 400 ≤ status ∧ captured (O.str size) = "0"
      else N.host ≠ .r9 ∧ N.ping = false

/-- Something is to be done that a user would notice. -/
def Night.Due (N : Night) : Prop :=
  (N.root = true ∧ N.rebootedToday = false) ∧
    (needsRestart N.pending = true ∨
      (N.pending = [] ∨ N.upgradeOk = true) ∧
        (N.rebootRequired = true ∨ N.rebootRequiredAfter = true ∨ deferredWaiting N ≠ []))

/-- What is taken for idle without a reason: a Sunshine that makes the probe crash, or that is
misread while no one is on the Minecraft servers; and a Plex that is misread while nothing
else keeps the run from going on. -/
def Guesses (N : Night) : Prop :=
  N.services.sunshine = .garbled ∨
    N.services.Quiet O ∧
      (N.services.sunshine.Misread O ∨
        N.Due ∧ (N.services.sunshine.said O).Free ∧ N.PlexMisread O)

variable {O}

/-! ### When the machine is taken for idle -/

/-- A line tells of Plex unless its count is `0`. -/
theorem plexOut_cases (p : String) : plexOut p = "" ∧ p = "0" ∨ Entry (plexOut p) ∧ p ≠ "0" := by
  by_cases hp : p = "0"
  · exact .inl ⟨by simp [plexOut, hp], hp⟩
  · refine .inr ⟨?_, hp⟩
    rw [plexOut, if_pos hp]
    split
    next => decide +kernel
    next =>
      have hstart : Entry "Plex streams: " := by decide +kernel
      exact hstart.append p

/-- **The machine is taken for idle where both questions are answered so.** -/
theorem activity_eq_zero_iff {N : Night} :
    activity O N = "0" ↔ plexStreams O N = "0" ∧ (main O N.services).stdout = "" := by
  rw [activity]
  obtain hempty | hline := main_stdout (O := O) N.services
  · obtain ⟨hout, hp⟩ | ⟨hout, hp⟩ := plexOut_cases (plexStreams O N)
    · simpa [hempty, hout] using hp
    · simp [hempty, hout.ne_empty, hout.ne_zero, hp]
  · have hx := hline.ne_empty
    obtain ⟨hout, hp⟩ | ⟨hout, hp⟩ := plexOut_cases (plexStreams O N)
    · simp [hx, hout, stdout_ne_zero]
    · have hjoined := (hout.append "; ").append (main O N.services).stdout
      simp [hx, hout.ne_empty, hjoined.ne_zero]

/-- A count is kept; what is none stands for no one where r9 does not answer a ping. -/
theorem plexStreams_eq_zero_iff {N : Night} :
    plexStreams O N = "0" ↔
      if isCount (plexPrinted O N.plex) then plexPrinted O N.plex = "0"
      else N.host ≠ .r9 ∧ N.ping = false := by
  rw [plexStreams]
  by_cases hcount : isCount (plexPrinted O N.plex) = true
  · simp [hcount]
  · by_cases hdown : N.host ≠ .r9 ∧ N.ping = false
    · simp [hcount, hdown]
    · simp [hcount, hdown]

/-- **Without a reason, Plex is taken for idle where it is misread.** -/
theorem plexStreams_of_not_free {N : Night} (h : ¬ (N.plex.said O).Free) :
    plexStreams O N = "0" ↔ N.PlexMisread O := by
  rw [plexStreams_eq_zero_iff, Night.PlexMisread]
  cases hplex : N.plex with
  | unasked => simp [hplex, Plex.said, Said.Free] at h
  | refused => simp [hplex, Plex.said, Said.Free] at h
  | lost => simp [plexPrinted, isCount]
  | answered status sent =>
    rcases hsize : plexSize O sent with _ | _ | size
    · simp [plexPrinted, hsize, isCount]
    · simp [plexPrinted, hsize, isCount]
    · have hprinted : plexPrinted O (.answered status sent) = captured (O.str size) := by
        simp [plexPrinted, hsize]
      simp only [hplex, Plex.said, hsize] at h
      rw [hprinted]
      simp only [hsize]
      by_cases hcount : isCount (captured (O.str size)) = true
      · rw [if_pos hcount, if_pos hcount]
        constructor
        · intro hzero
          refine ⟨?_, hzero⟩
          -- a good status and a count of `0` is what an idle Plex says
          by_contra hstatus
          rw [hzero] at h hcount
          simp [hstatus, hcount, Said.Free] at h
        · exact And.right
      · rw [if_neg hcount, if_neg hcount]

/-! ### When something is done -/

/-- What comes after the upgrade, where the gate has been passed if a reboot was needed. -/
theorem afterUpgrade_disruptive_iff {N : Night} (hhost : N.host.gated = true) {rebootNeeded : Bool}
    (hgate : rebootNeeded = true → activity O N = "0") :
    (∃ a ∈ afterUpgrade O N rebootNeeded, a.Disruptive) ↔
      (rebootNeeded = true ∨ N.rebootRequiredAfter = true ∨ deferredWaiting N ≠ []) ∧
        activity O N = "0" := by
  rw [afterUpgrade]
  cases rebootNeeded with
  | true => simp [Action.Disruptive, hgate]
  | false =>
    by_cases hafter : N.rebootRequiredAfter = true
    · by_cases hs : activity O N = "0" <;> simp [hafter, hhost, hs, Action.Disruptive]
    · by_cases hwaiting : deferredWaiting N = []
      · simp [hafter, hwaiting]
      · by_cases hs : activity O N = "0" <;> simp [hafter, hwaiting, hs, Action.Disruptive]

/-- **A user of the machine notices a run where something is due and the machine is taken for
idle.** -/
theorem disruptive_iff {N : Night} (hhost : N.host.gated = true) (hdry : N.dryRun = false) :
    (∃ a ∈ window O N, a.Disruptive) ↔ N.Due ∧ activity O N = "0" := by
  rw [window, Night.Due]
  by_cases hstart : N.root = false ∨ N.rebootedToday = true
  · have hnot : ¬ (N.root = true ∧ N.rebootedToday = false) := by
      simpa [or_iff_not_imp_left] using hstart
    simp [hstart, hnot]
  have hroot : N.root = true ∧ N.rebootedToday = false := by simpa using hstart
  rw [if_neg hstart]
  simp only [hdry, hhost, hroot, true_and, Bool.false_eq_true, if_false, and_true]
  by_cases hheld : (N.rebootRequired || needsRestart N.pending) = true ∧ activity O N ≠ "0"
  · simp [hheld, Action.Disruptive]
  -- past the first gate
  have hgate : (N.rebootRequired || needsRestart N.pending) = true → activity O N = "0" := by
    intro hneeded
    by_contra hs
    exact hheld ⟨hneeded, hs⟩
  have hrestart : needsRestart N.pending = true → activity O N = "0" := by
    intro hneeded
    exact hgate (by simp [hneeded])
  have hafter := afterUpgrade_disruptive_iff hhost hgate
  rw [if_neg hheld]
  by_cases hpending : N.pending = []
  · rw [if_pos hpending, hafter]
    simp [hpending, needsRestart]
  · rw [if_neg hpending]
    cases hok : N.upgradeOk with
    | false =>
      simpa [hpending, Action.Disruptive] using hrestart
    | true =>
      have hupgrade : (Action.upgrade N.pending).Disruptive ↔ needsRestart N.pending = true :=
        Iff.rfl
      rw [if_pos rfl, List.exists_mem_cons_iff, hafter, hupgrade, Bool.or_eq_true]
      grind

/-! ### The runs that make no guess -/

/-- Sunshine is read, or is misread, where it is taken for idle. -/
theorem Http.free_or_misread {h : Http} (hidle : h.TakenForIdle O) :
    (h.said O).Free ∨ h.Misread O := by
  cases hsaid : h.said O with
  | nothing => exact .inl (.inl rfl)
  | idle => exact .inl (.inr rfl)
  | busy => exact absurd hsaid (Http.said_ne_busy hidle)
  | unread => exact .inr ⟨hidle, hsaid⟩

theorem Night.PlexMisread.not_free {N : Night} (h : N.PlexMisread O) : ¬ (N.plex.said O).Free := by
  rw [Night.PlexMisread] at h
  cases hplex : N.plex with
  | unasked => simp [hplex] at h
  | refused => simp [hplex] at h
  | lost => simp [Plex.said, Said.Free]
  | answered status sent =>
    simp only [hplex] at h
    rw [Plex.said]
    rcases hsize : plexSize O sent with _ | _ | size
    · simp [Said.Free]
    · simp [Said.Free]
    · simp only [hsize] at h ⊢
      by_cases hcount : isCount (captured (O.str size)) = true
      · rw [if_pos hcount] at h
        simp [h.1, Said.Free]
      · simp [hcount, Said.Free]

/-- A service that is there and does not say that no one is using it stops the run, unless
there is a guess. -/
theorem free_of_activity {N : Night} (hdue : N.Due) (hactivity : activity O N = "0")
    (hguess : ¬ Guesses O N) : (∀ s ∈ N.services.said O, s.Free) ∧ (N.plex.said O).Free := by
  rw [activity_eq_zero_iff] at hactivity
  obtain ⟨hstreams, hempty⟩ := hactivity
  obtain hgarbled | ⟨hidle, hquiet⟩ := stdout_eq_empty_iff.mp hempty
  · exact absurd (.inl hgarbled) hguess
  have hsunshine : (N.services.sunshine.said O).Free := by
    refine (Http.free_or_misread hidle).resolve_right ?_
    intro hmisread
    exact hguess (.inr ⟨hquiet, .inl hmisread⟩)
  refine ⟨List.forall_mem_cons.mpr ⟨hsunshine, hquiet⟩, ?_⟩
  by_contra hplex
  exact hguess (.inr ⟨hquiet, .inr ⟨hdue, hsunshine, (plexStreams_of_not_free hplex).mp hstreams⟩⟩)

/-- **A run makes no guess where its condition holds.** -/
theorem careful_iff (O : Outside) (N : Night) (hhost : N.host.gated = true)
    (hdry : N.dryRun = false) : Careful O N ↔ ¬ Guesses O N := by
  constructor
  · intro hcareful hguess
    obtain hgarbled | ⟨hquiet, hmisread | ⟨hdue, hsunshine, hplex⟩⟩ := hguess
    -- the probe of Sunshine has crashed
    · refine hcareful.told (stdout_eq_empty_iff.mpr (.inl hgarbled)) (List.mem_cons.mpr (.inl ?_))
      rw [hgarbled, Http.said]
    · refine hcareful.told (stdout_eq_empty_iff.mpr (.inr ⟨hmisread.1, hquiet⟩)) ?_
      exact List.mem_cons.mpr (.inl hmisread.2.symm)
    · have hempty := stdout_eq_empty_iff.mpr (.inr ⟨Http.takenForIdle_of_free hsunshine, hquiet⟩)
      have hstreams := (plexStreams_of_not_free hplex.not_free).mpr hplex
      have hactivity := activity_eq_zero_iff.mpr ⟨hstreams, hempty⟩
      exact hplex.not_free (hcareful.idle ((disruptive_iff hhost hdry).mpr ⟨hdue, hactivity⟩)).2
  · intro hguess
    refine ⟨?_, ?_⟩
    · intro hdisruptive
      obtain ⟨hdue, hactivity⟩ := (disruptive_iff hhost hdry).mp hdisruptive
      exact free_of_activity hdue hactivity hguess
    · intro hempty hunread
      obtain hgarbled | ⟨hidle, hquiet⟩ := stdout_eq_empty_iff.mp hempty
      · exact hguess (.inl hgarbled)
      obtain hsunshine | hminecraft := List.mem_cons.mp hunread
      · exact hguess (.inr ⟨hquiet, .inl ⟨hidle, hsunshine.symm⟩⟩)
      · simpa [Said.Free] using hquiet _ hminecraft

/-- The answer of a Plex without sessions. -/
def noSessions : List UInt8 :=
  "\x7b\"MediaContainer\":\x7b\"size\":0\x7d\x7d".toList.map fun c => UInt8.ofNat c.toNat

/-- The interpreter, as far as the nights below need it. -/
def asciiOutside : Outside where
  decode bytes := String.ofList (bytes.map fun b => Char.ofNat b.toNat)
  loads _ := none
  load bytes :=
    if bytes = noSessions then some (.obj [("MediaContainer", .obj [("size", .num 0)])]) else none
  intOfText s := (parseInt s).map (↑)
  str value := match value with
    | .num q => toString q.num
    | _ => ""

/-- A night on production where a reboot is required, no game server runs and Plex is idle. -/
def nightWith (sunshine : Http) : Night where
  root := true
  rebootedToday := false
  host := .production
  dryRun := false
  pending := []
  rebootRequired := true
  upgradeOk := true
  rebootRequiredAfter := true
  needrestart := []
  services := ⟨sunshine, fun _ => .refused, fun _ _ => none⟩
  plex := .answered 200 noSessions
  ping := true

theorem careful_iff_refused :
    Careful asciiOutside (nightWith .refused) ∧
      .reboot ∈ window asciiOutside (nightWith .refused) := by
  refine ⟨(careful_iff _ _ rfl rfl).mpr ?_, by decide +kernel⟩
  rintro (hgarbled | ⟨-, hmisread | ⟨-, -, hplex⟩⟩)
  · cases hgarbled
  · exact absurd hmisread.2 (by decide)
  · exact hplex.not_free (by decide +kernel)

/-- The answer of Sunshine is cut short: its probe crashes, nothing is printed, and production
is rebooted. -/
theorem garbled_rebooted :
    .reboot ∈ window asciiOutside (nightWith .garbled) ∧
      ¬ ∀ (O : Outside) (N : Night), N.host.gated = true → N.dryRun = false → Careful O N := by
  have hreboot : Action.reboot ∈ window asciiOutside (nightWith .garbled) := by decide +kernel
  refine ⟨hreboot, ?_⟩
  intro h
  have hidle := ((h asciiOutside (nightWith .garbled) rfl rfl).idle ⟨_, hreboot, trivial⟩).1
  exact absurd (hidle _ List.mem_cons_self) (by decide)

end Maintenance
end MediaHub

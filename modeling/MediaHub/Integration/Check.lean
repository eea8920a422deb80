import Mathlib.Algebra.Order.Floor.Ring
import Mathlib.Data.List.Dedup
import Mathlib.Data.List.Sort
import Mathlib.Data.Rat.Floor
import Mathlib.Data.Finset.Dedup

/-!
# The integration check

`scripts/integration-check.py` tries the links between the services, and
`scripts/log-digest.py --freshness` looks for hosts that send no logs.  Every finding is a
text; a run sorts the texts, compares them with those the last run saved, posts them to
Discord if they differ, and saves them.

What the services answer is the input of a run.  A finding is kept apart from its text: it
says what fails and how, and it carries the details that the text is filled with.

## Main definitions

* `Exn` — an exception, with its message.
* `Finding`, `Finding.text` — what a check finds, and how it is rendered.
* `Failure`, `Finding.failures`, `Finding.details` — what fails, and the rest of the text.
* `checkArrs`, `checkBazarr`, `checkSeerr`, `checkImmich`, `checkLogs` — the checks.
* `main` — one run.

## Main results

* `text_congr` — the text of a finding is its failures and its details.
* `sortedSet_congr` — a sorted set of texts is its members.
-/

namespace MediaHub
namespace Integration

/-! ### Texts -/

/-- `s[:n]`. -/
def cut (n : ℕ) (s : String) : String := String.ofList (s.toList.take n)

/-- The characters before the first occurrence of a separator. -/
def beforeChars (sep : List Char) : List Char → List Char
  | [] => []
  | c :: cs => if sep.isPrefixOf (c :: cs) then [] else c :: beforeChars sep cs

/-- `s.split(sep)[0]`. -/
def before (sep s : String) : String := String.ofList (beforeChars sep.toList s.toList)

/-- `sorted(set(texts))`. -/
def sortedSet (texts : List String) : List String := texts.dedup.insertionSort (· ≤ ·)

/-- An exception: its type, and its message. -/
structure Exn where
  type : String
  message : String
  deriving DecidableEq, Repr

/-! ### The freshness of the logs -/

/-- `ago`, for a time span in seconds. -/
def ago (sec : ℚ) : String :=
  if sec < 5400 then s!"{⌊sec / 60⌋} min"
  else if sec < 172800 then s!"{⌊sec / 3600⌋} h"
  else s!"{⌊sec / 86400⌋} days"

/-- What the freshness check knows about a host. -/
structure Seen where
  host : String
  /-- When its last log line was written, unless there is none in three days. -/
  last : Option ℚ
  /-- The clock when the age is checked, and when it is printed. -/
  checked : ℚ
  printed : ℚ
  deriving DecidableEq, Repr

/-- The host sent no logs for an hour. -/
def Seen.isStale (h : Seen) : Bool := h.last.all fun t => 3600 < h.checked - t

/-- What is said about a stale host. -/
def Seen.age (h : Seen) : String :=
  match h.last with
  | none => "no logs in 3 days"
  | some t => "last log " ++ ago (h.printed - t) ++ " ago"

/-! ### Findings -/

/-- What a check finds. -/
inductive Finding where
  | arrStatus (app : String) (code : ℕ)
  | arrHealth (app message : String)
  | plexTest (app connection : String) (code : ℕ) (message : String)
  | arrCheck (app : String) (e : Exn)
  | bazarrStatus (code : ℕ)
  | bazarrHealth (issue : String)
  | bazarrCheck (e : Exn)
  | seerrNoConnection (label url : String)
  | seerrStatus (label : String) (code : ℕ)
  | seerrCheck (e : Exn)
  | immichUnread (server ml : String)
  | immichMismatch (server ml : String)
  | immichCheck (e : Exn)
  /-- The hosts that send no logs, and what is said about each. -/
  | staleHosts (hosts : List (String × String))
  /-- The freshness check itself failed, with this output. -/
  | freshness (output : String)
  deriving DecidableEq, Repr

/-- The message for an exception. -/
def couldNotRun (check : String) (e : Exn) : String :=
  cut 220 s!"{check}: check could not run ({e.type}: {e.message})"

/-- The line of the freshness check. -/
def staleLine (hosts : List (String × String)) : String :=
  "LOG PIPELINE STALE: " ++ "; ".intercalate (hosts.map fun h => h.1 ++ ": " ++ h.2)

/-- The text of a finding. -/
def Finding.text : Finding → String
  | .arrStatus app code => s!"{app}: /health returned HTTP {code}"
  | .arrHealth app message => cut 220 s!"{app} health: {message}"
  | .plexTest app connection code message =>
    s!"{app} -> Plex connection '{connection}' failed its own test (HTTP {code}): " ++
      cut 140 message
  | .arrCheck app e => couldNotRun app e
  | .bazarrStatus code => s!"bazarr: /system/health returned HTTP {code}"
  | .bazarrHealth issue => cut 220 s!"bazarr health: {issue}"
  | .bazarrCheck e => couldNotRun "bazarr" e
  | .seerrNoConnection label url =>
    s!"Seerr cannot reach {label} at " ++ before "/identity" (before "/api" url) ++
      " (no connection from inside the seer container)"
  | .seerrStatus label code => s!"Seerr -> {label} answered HTTP {code}"
  | .seerrCheck e => couldNotRun "seerr" e
  | .immichUnread server ml => s!"immich: could not read versions (server='{server}', r9 ML='{ml}')"
  | .immichMismatch server ml =>
    s!"immich: server is {server} but r9 machine-learning is {ml}; " ++
      "they must match (re-pin stacks/immich-ml-r9 to v" ++
      String.ofList (server.toList.dropWhile (· = 'v')) ++ "-cuda)"
  | .immichCheck e => couldNotRun "immich" e
  | .staleHosts hosts => "log pipeline: " ++ cut 200 (staleLine hosts)
  | .freshness output => "log pipeline: " ++ cut 200 output

/-- What fails: which app, connection, service or log host, and in which way. -/
inductive Failure where
  | arrStatus (app : String) (code : ℕ)
  | arrHealth (app message : String)
  | plexTest (app connection : String) (code : ℕ)
  | arrCheck (app type : String)
  | bazarrStatus (code : ℕ)
  | bazarrHealth (issue : String)
  | bazarrCheck (type : String)
  | seerrNoConnection (label url : String)
  | seerrStatus (label : String) (code : ℕ)
  | seerrCheck (type : String)
  | immichUnread (server ml : String)
  | immichMismatch (server ml : String)
  | immichCheck (type : String)
  | staleHost (host : String)
  | freshness
  deriving DecidableEq, Repr

/-- What fails, according to a finding. -/
def Finding.failures : Finding → List Failure
  | .arrStatus app code => [.arrStatus app code]
  | .arrHealth app message => [.arrHealth app message]
  | .plexTest app connection code _ => [.plexTest app connection code]
  | .arrCheck app e => [.arrCheck app e.type]
  | .bazarrStatus code => [.bazarrStatus code]
  | .bazarrHealth issue => [.bazarrHealth issue]
  | .bazarrCheck e => [.bazarrCheck e.type]
  | .seerrNoConnection label url => [.seerrNoConnection label url]
  | .seerrStatus label code => [.seerrStatus label code]
  | .seerrCheck e => [.seerrCheck e.type]
  | .immichUnread server ml => [.immichUnread server ml]
  | .immichMismatch server ml => [.immichMismatch server ml]
  | .immichCheck e => [.immichCheck e.type]
  | .staleHosts hosts => hosts.map fun h => .staleHost h.1
  | .freshness _ => [.freshness]

/-- The details of a finding: the answer to a test, the message of an exception, the ages of
the last logs, the output of a check that broke. -/
def Finding.details : Finding → List String
  | .plexTest _ _ _ message => [message]
  | .arrCheck _ e | .bazarrCheck e | .seerrCheck e | .immichCheck e => [e.message]
  | .staleHosts hosts => hosts.map (·.2)
  | .freshness output => [output]
  | _ => []

/-! ### The checks -/

/-- An item of `/health`. -/
structure HealthItem where
  type : String
  message : Option String
  source : Option String
  deriving DecidableEq, Repr

/-- An item of `/notification`, with the answer to its test. -/
structure Notification where
  implementation : String
  name : Option String
  test : Except Exn (ℕ × String)

/-- What one of the apps answers; an exception can come up before each of the answers. -/
structure Arr where
  name : String
  health : Except Exn (ℕ × List HealthItem)
  notifications : Except Exn (ℕ × List Notification)

/-- `h.get('message', h.get('source'))`. -/
def HealthItem.says (h : HealthItem) : String := h.message.getD (h.source.getD "None")

/-- The loop over the notifications: what it finds, and the exception in which it ends. -/
def testNotifications (app : String) : List Notification → List Finding × Option Exn
  | [] => ([], none)
  | n :: notes =>
    if n.implementation ≠ "PlexServer" then testNotifications app notes
    else
      match n.test with
      | .error e => ([], some e)
      | .ok (code, message) =>
        if code = 200 then testNotifications app notes
        else
          match n.name with
          | none => ([], some ⟨"KeyError", "'name'"⟩)
          | some name =>
            let rest := testNotifications app notes
            (.plexTest app name code message :: rest.1, rest.2)

/-- The body of the loop of `check_arrs`, up to an exception. -/
def arrFindings (arr : Arr) : List Finding × Option Exn :=
  match arr.health with
  | .error e => ([], some e)
  | .ok (code, items) =>
    if code ≠ 200 then ([.arrStatus arr.name code], none)
    else
      let health := (items.filter (·.type = "error")).map fun h => .arrHealth arr.name h.says
      if arr.name = "prowlarr" then (health, none)
      else
        match arr.notifications with
        | .error e => (health, some e)
        | .ok (code, notes) =>
          if code = 200 then
            (health ++ (testNotifications arr.name notes).1, (testNotifications arr.name notes).2)
          else (health, none)

/-- A check that could not run is itself a finding. -/
def withExn (found : List Finding × Option Exn) (check : Exn → Finding) : List Finding :=
  found.1 ++ (found.2.map check).toList

def checkArrs (arrs : List Arr) : List Finding :=
  arrs.flatMap fun arr => withExn (arrFindings arr) (.arrCheck arr.name)

/-- `check_bazarr`: the status, and the issues. -/
def checkBazarr : Except Exn (ℕ × List String) → List Finding
  | .error e => [.bazarrCheck e]
  | .ok (code, issues) => if code ≠ 200 then [.bazarrStatus code] else issues.map .bazarrHealth

/-- The loop over the targets of Seerr. -/
def tryTargets : List (String × String × Except Exn (Option ℕ)) → List Finding × Option Exn
  | [] => ([], none)
  | (label, url, answer) :: targets =>
    match answer with
    | .error e => ([], some e)
    | .ok none => (.seerrNoConnection label url :: (tryTargets targets).1, (tryTargets targets).2)
    | .ok (some code) =>
      if 500 ≤ code then (.seerrStatus label code :: (tryTargets targets).1, (tryTargets targets).2)
      else tryTargets targets

/-- `check_seerr`: the targets of the settings, with what is seen of each. -/
def checkSeerr : Except Exn (List (String × String × Except Exn (Option ℕ))) → List Finding
  | .error e => [.seerrCheck e]
  | .ok targets => withExn (tryTargets targets) .seerrCheck

/-- `check_immich`: the two versions. -/
def checkImmich : Except Exn (String × String) → List Finding
  | .error e => [.immichCheck e]
  | .ok (server, ml) =>
    if server = "" ∨ ml = "" then [.immichUnread server ml]
    else if server ≠ ml then [.immichMismatch server ml]
    else []

/-- How `log-digest.py --freshness` ends: with an exception, or with what it knows about the
hosts. -/
abbrev Freshness := Except String (List Seen)

/-- The hosts that it lists. -/
def staleHosts (hosts : List Seen) : List (String × String) :=
  (hosts.filter (·.isStale)).map fun h => (h.host, h.age)

/-- `check_logs`. -/
def checkLogs : Freshness → List Finding
  | .error trace => [.freshness (if trace = "" then "freshness check failed" else trace)]
  | .ok hosts => if staleHosts hosts = [] then [] else [.staleHosts (staleHosts hosts)]

/-! ### A run -/

/-- What a run meets. -/
structure Run where
  dryRun : Bool
  /-- `DISCORD_WEBHOOK_URL` is set. -/
  webhook : Bool
  arrs : List Arr
  bazarr : Except Exn (ℕ × List String)
  seerr : Except Exn (List (String × String × Except Exn (Option ℕ)))
  immich : Except Exn (String × String)
  /-- The freshness check, unless it takes too long. -/
  logs : Option Freshness
  /-- The post succeeds; it raises otherwise. -/
  delivers : Bool

/-- What the checks find, unless the last of them raises. -/
def Run.findings (r : Run) : Option (List Finding) :=
  r.logs.map fun logs => checkArrs r.arrs ++ checkBazarr r.bazarr ++ checkSeerr r.seerr ++
    checkImmich r.immich ++ checkLogs logs

/-- `problems`. -/
def problemsOf (found : List Finding) : List String := sortedSet (found.map (·.text))

/-- The message. -/
def message (problems last : List String) : String :=
  if problems = [] then "**Integration check: all clear again.**"
  else
    let new := problems.filter (· ∉ last)
    "**Integration check: something is up but not working**\n" ++
      "\n".intercalate (problems.map fun p => "- " ++ p) ++
      if new ≠ [] ∧ last ≠ [] then s!"\n({new.length} new since last check)" else ""

/-- `main`: the state file it leaves, and the message it tries to post.  A post that fails
raises before the state is written. -/
def main (r : Run) (last : List String) : List String × Option String :=
  match r.findings with
  | none => (last, none)
  | some found =>
    if r.dryRun then (last, none)
    else if problemsOf found ≠ last ∧ r.webhook then
      (if r.delivers then problemsOf found else last,
        some (cut 1900 (message (problemsOf found) last)))
    else (problemsOf found, none)

/-! ### What the texts say -/

/-- The host of a failure of the log pipeline. -/
def Failure.host : Failure → String
  | .staleHost host => host
  | _ => ""

/-- The finding with some failures and details. -/
def Finding.rebuild : List Failure → List String → Finding
  | [.arrStatus app code], _ => .arrStatus app code
  | [.arrHealth app message], _ => .arrHealth app message
  | [.plexTest app connection code], [message] => .plexTest app connection code message
  | [.arrCheck app type], [message] => .arrCheck app ⟨type, message⟩
  | [.bazarrStatus code], _ => .bazarrStatus code
  | [.bazarrHealth issue], _ => .bazarrHealth issue
  | [.bazarrCheck type], [message] => .bazarrCheck ⟨type, message⟩
  | [.seerrNoConnection label url], _ => .seerrNoConnection label url
  | [.seerrStatus label code], _ => .seerrStatus label code
  | [.seerrCheck type], [message] => .seerrCheck ⟨type, message⟩
  | [.immichUnread server ml], _ => .immichUnread server ml
  | [.immichMismatch server ml], _ => .immichMismatch server ml
  | [.immichCheck type], [message] => .immichCheck ⟨type, message⟩
  | [.freshness], [output] => .freshness output
  | failures, ages => .staleHosts ((failures.map (·.host)).zip ages)

/-- A finding is its failures and its details. -/
theorem rebuild_failures_details (f : Finding) : Finding.rebuild f.failures f.details = f := by
  cases f with
  | staleHosts hosts =>
    have hzip : ((hosts.map fun h => Failure.staleHost h.1).map (·.host)).zip (hosts.map (·.2)) =
        hosts := by
      rw [List.map_map]
      exact (List.zip_of_prod rfl rfl).symm
    -- whatever the number of hosts, it is not one of the other findings
    match hosts, hzip with
    | [], _ => rfl
    | [_], _ => rfl
    | _ :: _ :: _, hzip => exact congrArg Finding.staleHosts hzip
  | _ => rfl

/-- The text of a finding is its failures and its details. -/
theorem text_congr {f g : Finding} (hfailures : f.failures = g.failures)
    (hdetails : f.details = g.details) : f.text = g.text := by
  rw [← rebuild_failures_details f, ← rebuild_failures_details g, hfailures, hdetails]

/-- A sorted set of texts is its members. -/
theorem sortedSet_congr {texts texts' : List String} (h : ∀ t, t ∈ texts ↔ t ∈ texts') :
    sortedSet texts = sortedSet texts' := by
  have hperm : texts.dedup.Perm texts'.dedup := by
    rw [List.perm_ext_iff_of_nodup (List.nodup_dedup _) (List.nodup_dedup _)]
    simpa using h
  have hsorted := (List.perm_insertionSort (· ≤ ·) texts.dedup).trans
    (hperm.trans (List.perm_insertionSort (· ≤ ·) texts'.dedup).symm)
  exact hsorted.eq_of_pairwise' (List.pairwise_insertionSort _ _) (List.pairwise_insertionSort _ _)

end Integration
end MediaHub

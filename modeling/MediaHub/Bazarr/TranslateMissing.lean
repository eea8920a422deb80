import MediaHub.Text
import Mathlib.Algebra.Order.Ring.Unbundled.Rat
import Mathlib.Data.List.Infix
import Mathlib.Logic.Function.Basic

/-!
# Missing Spanish subtitles

`stacks/arr-stack/scripts/bazarr-translate-missing-es.py`: Bazarr is asked to translate the
English subtitles of one item after the other.  What became of a request is read off the
file that should appear, and off Bazarr's own log.  Items that fail are counted in a file,
the blocklist, and left out once they failed in two runs.

What Bazarr, the clock and the files answer are inputs; runs in which something raises are
not modelled, nor is the log that the script itself writes.

## Main definitions

* `classify` — what Bazarr's log says since a time.
* `prepare`, `pollOnce` — the request for an item, and one look at what became of it.
* `processOne` — the whole of one item.
* `main` — a run, over the episodes and then the movies.
-/

namespace MediaHub
namespace Bazarr
namespace TranslateMissing

/-! ### Bazarr's log -/

/-- What is outside the script. -/
structure Platform where
  characters : Unicodedata
  /-- `strptime` of the stripped text, in the zone of Bazarr's log, in UTC seconds. -/
  readStamp : String → Option ℚ
  /-- The next midnight in the zone of the quota. -/
  nextQuotaReset : ℚ → ℚ

variable (P : Platform)

/-- The time at the head of a line, up to the first bar. -/
def stampOf (text : String) : Option ℚ :=
  if '|' ∈ text.toList then
    P.readStamp (String.ofList (text.toList.takeWhile (· ≠ '|')))
  else none

/-- A line of `bazarr.log`.  Its stamp names the second in local time, and of two hours
with the same local times the earlier is read, so it is never read as a later time. -/
structure LogLine where
  loggedAt : ℚ
  text : String
  stamp_le : ∀ t, stampOf P text = some t → t ≤ loggedAt

def RATE_LIMIT_MARKERS : List String := ["rate limited", "RESOURCE_EXHAUSTED"]

def PERMISSION_ERROR_MARKERS : List String := ["PermissionError", "Permission denied"]

def MALFORMED_JSON_MARKERS : List String :=
  ["Gemini returned", "Gemini has returned different indices", "Expecting ','",
    "Expecting value", "Extra data", "Invalid control character", "Invalid \\uXXXX escape"]

/-- `needle in text`. -/
def isIn (needle text : String) : Bool := needle.toList <:+: text.toList

/-- `any(m in line for m in markers)`. -/
def hasMarker (markers : List String) (text : String) : Bool := markers.any (isIn · text)

/-- What a line of the log says about a request. -/
inductive Category where
  | rateLimited
  | permissionError
  | malformedJson
  deriving DecidableEq, Repr

/-- The bytes of the log that are read. -/
def TAIL_BYTES : ℕ := 200000

variable {P} in
/-- The size of a line in bytes, with its end. -/
def LogLine.size (l : LogLine P) : ℕ := l.text.utf8ByteSize + 1

variable {P} in
/-- The lines that fit into so many bytes, from the newest.  A line that is cut has lost
its stamp and is skipped, so it is left out. -/
def newest : ℕ → List (LogLine P) → List (LogLine P)
  | _, [] => []
  | left, l :: ls => if l.size ≤ left then l :: newest (left - l.size) ls else []

/-- The lines from the newest, until one says something or is too old. -/
def scan (cutoff : ℚ) (pathHint : String) : List (LogLine P) → Option Category
  | [] => none
  | l :: ls =>
    match stampOf P l.text with
    | none => scan cutoff pathHint ls
    | some t =>
      if t < cutoff then none
      else if hasMarker RATE_LIMIT_MARKERS l.text then some .rateLimited
      else if hasMarker MALFORMED_JSON_MARKERS l.text then some .malformedJson
      else if pathHint ≠ "" && isIn pathHint l.text &&
          hasMarker PERMISSION_ERROR_MARKERS l.text then some .permissionError
      else scan cutoff pathHint ls

/-- The seconds before a request that its lines may be stamped with. -/
def SLACK : ℚ := 5

/-- `classify_bazarr_log_error_since`; there may be no log. -/
def classify (log : Option (List (LogLine P))) (since : ℚ) (pathHint : String) :
    Option Category :=
  log.bind fun lines => scan P (since - SLACK) pathHint (newest TAIL_BYTES lines.reverse)

/-! ### The request for an item -/

inductive Kind where
  | episode
  | movie
  deriving DecidableEq, Repr

/-- An entry of `missing_subtitles`. -/
structure Missing where
  code2 : String
  forced : Bool
  hi : Bool
  deriving DecidableEq, Repr

/-- An item of Bazarr's wanted list. -/
structure Item where
  /-- `sonarrEpisodeId` or `radarrId`. -/
  id : ℤ
  sonarrSeriesId : Option ℤ
  missingSubtitles : List Missing
  deriving DecidableEq, Repr

structure Subtitle where
  code2 : Option String
  embeddedTrackId : Option ℤ
  path : Option String
  deriving DecidableEq, Repr

/-- What `get_detail` gives: the subtitles that are there. -/
structure Detail where
  subtitles : List Subtitle
  deriving DecidableEq, Repr

/-- `find_english_external_sub`: the path of the subtitle. -/
def findEnglishExternalSub (d : Detail) : Option String :=
  (d.subtitles.find? fun s =>
    s.code2 = some "en" && s.embeddedTrackId = none && s.path.getD "" ≠ "").bind (·.path)

/-- The text before the last `sep`, if there is one. -/
def beforeLast (sep : List Char) : List Char → Option (List Char)
  | [] => none
  | c :: cs =>
    match beforeLast sep cs with
    | some head => some (c :: head)
    | none => if sep.isPrefixOf (c :: cs) then some [] else none

def CONTAINER_MEDIA_PREFIX : List Char := "/data".toList

def HOST_MEDIA_PREFIX : List Char := "/mnt/media".toList

/-- `build_es_target_path`. -/
def buildEsTargetPath (enPath : String) (forced hi : Bool) : String :=
  let path := enPath.toList
  let base := ((beforeLast ".en".toList path).or (beforeLast ".".toList path)).getD path
  let suffix := ".es" ++ (if forced then ".forced" else "") ++ (if hi then ".hi" else "")
  let target := base ++ suffix.toList ++ ".srt".toList
  String.ofList <|
    if CONTAINER_MEDIA_PREFIX.isPrefixOf target then
      HOST_MEDIA_PREFIX ++ target.drop CONTAINER_MEDIA_PREFIX.length
    else target

/-- `patch_data`. -/
structure PatchData where
  action : String
  language : String
  path : String
  type : Kind
  id : ℤ
  forced : String
  hi : String
  seriesid : Option ℤ
  deriving DecidableEq, Repr

/-- What is asked of Bazarr, and the file that is waited for. -/
structure Request where
  patchData : PatchData
  targetPath : String
  deriving DecidableEq, Repr

/-- `str(flag)`. -/
def flagText (flag : Bool) : String := if flag then "True" else "False"

/-- The part of `process_one` before the request; without an English subtitle the item is
skipped. -/
def prepare (kind : Kind) (item : Item) (detail : Option Detail) : Option Request :=
  (detail.bind findEnglishExternalSub).map fun enPath =>
    let wantedEs := item.missingSubtitles.find? (·.code2 = "es")
    let forced := wantedEs.any (·.forced)
    let hi := wantedEs.any (·.hi)
    { patchData :=
        { action := "translate"
          language := "es"
          path := enPath
          type := kind
          id := item.id
          forced := flagText forced
          hi := flagText hi
          seriesid := if kind = .episode then item.sonarrSeriesId else none }
      targetPath := buildEsTargetPath enPath forced hi }

/-! ### What became of it -/

inductive Result where
  | ok
  | fail
  | timeout
  | skip
  | rateLimited
  | permissionError
  | malformedJson
  deriving DecidableEq, Repr

/-- What one poll finds: the content of the file, and Bazarr's log. -/
structure Poll where
  content : Option String
  log : Option (List (LogLine P))

def Category.result : Category → Result
  | .rateLimited => .rateLimited
  | .permissionError => .permissionError
  | .malformedJson => .malformedJson

/-- One turn of the loop that waits, if it ends it. -/
def pollOnce (requestTime : ℚ) (r : Request) (poll : Poll P) : Option Result :=
  if poll.content.any (strip P.characters · ≠ "") then some .ok
  else (classify P poll.log requestTime r.patchData.path).map Category.result

def POLL_INTERVAL : ℕ := 8

def POLL_TIMEOUT : ℕ := 240

/-- The loop that waits, with so many polls left. -/
def pollLoop (requestTime : ℚ) (r : Request) (polls : ℕ → Poll P) : ℕ → ℕ → Result
  | 0, _ => .timeout
  | left + 1, waited =>
    match pollOnce P requestTime r (polls (waited + POLL_INTERVAL)) with
    | some result => result
    | none => pollLoop requestTime r polls left (waited + POLL_INTERVAL)

/-! ### The blocklist -/

/-- The failed runs of each item.  A key of the file is the text of an id, and no two ids
have the same. -/
abbrev Attempts := Kind → ℤ → ℕ

/-- `load_attempts`; the file may be missing, or no JSON. -/
def loadAttempts (blocklist : Option Attempts) : Attempts := blocklist.getD fun _ _ => 0

/-- `record_failure`. -/
def recordFailure (kind : Kind) (id : ℤ) (blocklist : Option Attempts) : Option Attempts :=
  let attempts := loadAttempts blocklist
  some (Function.update attempts kind
    (Function.update (attempts kind) id (attempts kind id + 1)))

def SKIP_AFTER_ATTEMPTS : ℕ := 2

/-! ### One item -/

/-- What is met while an item is processed. -/
structure ItemWorld where
  detail : Option Detail
  requestTime : ℚ
  /-- The status that the request is answered with. -/
  code : PatchData → String
  /-- What is found after so many seconds. -/
  polls : ℕ → Poll P

/-- `process_one`: the result, and the blocklist. -/
def processOne (W : ItemWorld P) (kind : Kind) (item : Item) (blocklist : Option Attempts) :
    Result × Option Attempts :=
  match prepare kind item W.detail with
  | none => (.skip, blocklist)
  | some r =>
    if W.code r.patchData ≠ "204" then (.fail, recordFailure kind item.id blocklist)
    else
      match pollLoop P W.requestTime r W.polls (POLL_TIMEOUT / POLL_INTERVAL) 0 with
      | .malformedJson => (.malformedJson, recordFailure kind item.id blocklist)
      | .timeout => (.timeout, recordFailure kind item.id blocklist)
      | result => (result, blocklist)

/-! ### A run -/

/-- What a run meets. -/
structure RunWorld where
  now : ℚ
  /-- Bazarr's wanted lists. -/
  wanted : Kind → List Item
  items : Kind → ℤ → ItemWorld P
  /-- The time at which a cooldown is written. -/
  limitedAt : ℚ

/-- An item that was processed, with the attempts before and after it. -/
structure Processed where
  kind : Kind
  id : ℤ
  result : Result
  before : Attempts
  after : Attempts

/-- What is left on disk. -/
structure Disk where
  blocklist : Option Attempts
  cooldownUntil : Option ℚ

/-- The locals of `main`. -/
structure Loop where
  disk : Disk
  consecutiveFailures : ℕ
  trace : List Processed
  stopped : Bool

def CONSECUTIVE_FAILURE_LIMIT : ℕ := 5

/-- `get_wanted`. -/
def getWanted (attempts : ℤ → ℕ) (data : List Item) : List Item :=
  data.filter fun x =>
    x.missingSubtitles.any (·.code2 = "es") && !x.missingSubtitles.any (·.code2 = "en") &&
      attempts x.id < SKIP_AFTER_ATTEMPTS

/-- The results that count for the circuit breaker. -/
def Result.isFailure : Result → Bool
  | .fail => true
  | .timeout => true
  | .malformedJson => true
  | .permissionError => true
  | _ => false

variable {P}

/-- The turn of an item. -/
def turn (W : RunWorld P) (kind : Kind) (item : Item) (L : Loop) : Loop :=
  let done := processOne P (W.items kind item.id) kind item L.disk.blocklist
  let processed : Processed :=
    ⟨kind, item.id, done.1, loadAttempts L.disk.blocklist, loadAttempts done.2⟩
  let consecutiveFailures := if done.1.isFailure then L.consecutiveFailures + 1 else 0
  if done.1 = .rateLimited then
    { disk := ⟨done.2, some (P.nextQuotaReset W.limitedAt)⟩
      consecutiveFailures := L.consecutiveFailures
      trace := L.trace ++ [processed]
      stopped := true }
  else
    { disk := { L.disk with blocklist := done.2 }
      consecutiveFailures := consecutiveFailures
      trace := L.trace ++ [processed]
      stopped := CONSECUTIVE_FAILURE_LIMIT ≤ consecutiveFailures }

/-- The loop over a worklist. -/
def processItems (W : RunWorld P) (kind : Kind) : List Item → Loop → Loop
  | [], L => L
  | item :: rest, L =>
    let L := turn W kind item L
    if L.stopped then L else processItems W kind rest L

/-- The loop over a wanted list; the worklist is made before its first item. -/
def processKind (W : RunWorld P) (kind : Kind) (L : Loop) : Loop :=
  processItems W kind (getWanted (loadAttempts L.disk.blocklist kind) (W.wanted kind)) L

/-- `main`: what is on disk after a run, and what was processed in it. -/
def main (W : RunWorld P) (disk : Disk) : Disk × List Processed :=
  if disk.cooldownUntil.any (W.now < ·) then (disk, [])
  else
    let L := processKind W .episode ⟨disk, 0, [], false⟩
    let L := if L.stopped then L else processKind W .movie L
    (L.disk, L.trace)

end TranslateMissing
end Bazarr
end MediaHub

import MediaHub.LidarrYtdl.Audit

/-!
# One track of an album

`stacks/lidarr-ytdl/patches/processing.py`, `_process_track_body`: the candidates for a
track are downloaded one after the other until one is accepted.  A candidate that AcoustID
cannot confirm, or that is a shorter cut or another recording, may be held back and
accepted at the end for want of a better one.  What the download, the probe, AcoustID, the
settings and the requests to skip answer are inputs; runs in which something raises are
not modelled.

What is found out about a candidate (`find`) is kept apart from what is done about it
(`act`), so that conditions on the inputs can speak of the former.

## Main definitions

* `tooShort`, `sameSong` — the checks of the patch.
* `find` — what the turn of a candidate finds out.
* `act` — what it does then.
* `iterate` — the loop, with the search once the album track was not usable.
* `afterLoop` — the fallbacks.
* `processTrackBody` — the whole function.
-/

namespace MediaHub
namespace LidarrYtdl

/-! ### Records -/

/-- `fp_data`. -/
structure FpData where
  acoustidFingerprintId : String
  acoustidScore : ℚ
  acoustidRecordingId : String
  acoustidRecordingTitle : String
  deriving DecidableEq, Repr

/-- `fp_data = {}`: every `get` gives its default. -/
def FpData.empty : FpData := ⟨"", 0, "", ""⟩

/-- A candidate for a track. -/
structure Candidate where
  url : String
  title : String
  channel : String
  score : ℚ
  /-- The listed length, `0` if there is none. -/
  duration : ℚ
  fromOfficialAlbum : Bool
  matchedByPosition : Bool
  deriving DecidableEq, Repr

/-- The members of `CandidateOutcome` that are used. -/
inductive CandidateOutcome where
  | VERIFIED
  | MISMATCH
  | UNVERIFIED
  | DOWNLOAD_FAILED
  | REJECTED_LOW_SCORE
  | ACCEPTED_NO_VERIFY
  | ACCEPTED_UNVERIFIED_FALLBACK
  deriving DecidableEq, Repr

/-- An entry of the buffer of candidate attempts, but for its time. -/
structure Attempt where
  youtubeUrl : String
  youtubeTitle : String
  matchScore : ℚ
  durationSeconds : ℚ
  outcome : CandidateOutcome
  acoustidMatchedId : String
  acoustidMatchedTitle : String
  acoustidScore : ℚ
  expectedRecordingId : String
  errorMessage : String
  deriving DecidableEq, Repr

/-- The result of a successful download. -/
structure DlResult where
  youtubeUrl : String
  youtubeTitle : String
  matchScore : ℚ
  durationSeconds : ℚ
  sourceFormat : String
  deriving DecidableEq, Repr

/-- The temporary name of a download: one for each turn of the loop, and one for the
fallback that is downloaded again. -/
inductive Temp where
  | attempt (ci : ℕ)
  | fallback
  deriving DecidableEq, Repr

/-- The settings that are read. -/
structure Config where
  acoustidEnabled : Bool
  acoustidApiKey : String
  minMatchScore : ℚ
  durationTolerance : ℚ
  deriving DecidableEq, Repr

/-- What `verify_fingerprint` answers, when it answers. -/
inductive VResult where
  | verified (fpData : FpData)
  | mismatch (fpData : FpData) (matchedId : String)
  | unverified
  deriving DecidableEq, Repr

/-- How `_download_candidate_threaded` ends. -/
inductive Download where
  | skipped
  /-- An exception, or no result at all. -/
  | raised
  | failed (errorMessage : String) (postprocessError : Bool)
  /-- Success was reported, but the file is not there; one with another ending may be `left`,
  where the container or the setting `audio_format` has changed. -/
  | missing (left : Bool)
  | done (dlResult : DlResult)
  deriving DecidableEq, Repr

/-- How the fallback is downloaded again. -/
inductive Redownload where
  | skipped
  | failed (errorMessage : Option String)
  | done (dlResult : DlResult)
  deriving DecidableEq, Repr

/-- What the turn of a candidate meets. -/
structure Inputs where
  /-- `_skip_check()`. -/
  skip : Bool
  /-- `_is_live_stream`. -/
  live : Bool
  download : Download
  /-- `_probe_duration_seconds`. -/
  realSec : ℚ
  /-- `load_config()` after the download. -/
  config : Config
  verify : Option VResult
  fingerprint : Option FpData
  deriving DecidableEq, Repr

/-- The track. -/
structure TrackInfo where
  title : String
  artist : String
  /-- The length in milliseconds, `0` if there is none. -/
  durationMs : ℚ
  expectedRecordingId : Option String
  deriving DecidableEq, Repr

def TrackInfo.expectedSec (t : TrackInfo) : ℚ := t.durationMs / 1000

/-- What code outside the repository computes. -/
structure Outside where
  /-- `_extract_video_id`, where it gives one. -/
  extractVideoId : String → Option String
  /-- `unicodedata.normalize("NFKD", text)`, encoded as ASCII. -/
  toAscii : String → String
  /-- `_is_topic_channel` or `_is_official_channel`. -/
  artistChannel : String → String → Bool
  /-- `models.HOST_FAILURE_PREFIX`. -/
  hostFailurePrefix : String
  /-- `models.DISK_FULL_PREFIX`. -/
  diskFullPrefix : String

/-- What a run of `_process_track_body` meets. -/
structure TrackWorld where
  track : TrackInfo
  skipAtStart : Bool
  /-- The album-playlist match, unless it is banned. -/
  albumCandidate : Option Candidate
  /-- What the search finds; it is made once at most. -/
  search : List Candidate
  skipWithoutCandidates : Bool
  /-- `cfg_loop`. -/
  config : Config
  /-- `_skip_check()` before the search for another upload. -/
  skipAtExtend : Bool
  inputs : ℕ → Inputs
  /-- Whether the file held back is still there after the loop. -/
  heldExists : Bool
  redownload : Redownload
  /-- Whether the file of the fallback is there. -/
  fbExists : Bool
  /-- What `_accept_track_file` returns: the size of the file, and the id of the row. -/
  fileSize : ℕ
  trackDownloadId : Option ℕ

/-! ### The checks of the patch -/

open Audit (formatSeconds)

/-- `f"{x:.2f}"` of a score. -/
def formatScore (x : ℚ) : String :=
  let n := (roundTo 2 x * 100).num
  toString (n / 100) ++ "." ++ String.ofList (Audit.formatTwoDigits (n % 100))

/-- `_too_short`: the reason why a file is too short, or nothing. -/
def tooShort (realSec expectedSec listedSec tolerance : ℚ) : String :=
  if realSec ≤ 0 then ""
  else if 0 < expectedSec ∧ realSec < expectedSec - tolerance then
    "file is " ++ formatSeconds realSec ++ "s, shorter than the expected " ++
      formatSeconds expectedSec ++ "s"
  else if listedSec ≠ 0 ∧ realSec < listedSec - tolerance then
    "file is " ++ formatSeconds realSec ++ "s but the source was listed at " ++
      formatSeconds listedSec ++ "s (truncated or shorter cut)"
  else ""

def SHORT_FALLBACK_FRACTION : ℚ := 25 / 100

variable (O : Outside)

/-- `_norm_title`: the runs of letters and digits. -/
def normTitle (text : String) : List (List Char) :=
  (((O.toAscii text).toList.map Char.toLower).splitOnP fun c =>
    !(('a' ≤ c && c ≤ 'z') || c.isDigit)).filter (· ≠ [])

/-- A text of `_norm_title`. -/
def joinTitle (words : List (List Char)) : String := String.ofList ([' '].intercalate words)

/-- `needle in hay`. -/
def containsText (needle hay : String) : Bool :=
  hay.toList.tails.any fun s => needle.toList.isPrefixOf s

/-- `_same_song`. -/
def sameSong (trackTitle matchedTitle artist : String) (c : Candidate) : Bool :=
  let want := normTitle O trackTitle
  if want = [] ∨ want ≠ normTitle O matchedTitle then false
  else
    let artist := joinTitle (normTitle O artist)
    let hay := joinTitle (normTitle O (c.title ++ " " ++ c.channel))
    artist ≠ "" && containsText artist hay

/-- `_build_candidate_attempt`. -/
def buildCandidateAttempt (t : TrackInfo) (c : Candidate) (outcome : CandidateOutcome)
    (fp : FpData) (errorMessage : String) : Attempt where
  youtubeUrl := c.url
  youtubeTitle := c.title
  matchScore := c.score
  durationSeconds := c.duration
  outcome := outcome
  acoustidMatchedId := fp.acoustidRecordingId
  acoustidMatchedTitle := fp.acoustidRecordingTitle
  acoustidScore := fp.acoustidScore
  expectedRecordingId := t.expectedRecordingId.getD ""
  errorMessage := errorMessage

/-- A track can be verified. -/
def Config.verifies (cfg : Config) (t : TrackInfo) : Bool :=
  cfg.acoustidEnabled && cfg.acoustidApiKey ≠ "" && t.expectedRecordingId.getD "" ≠ ""

/-- `no_verify_reason`. -/
def noVerifyReason (cfg : Config) (t : TrackInfo) : String :=
  if cfg.verifies t then ""
  else if !cfg.acoustidEnabled then "AcoustID disabled"
  else if cfg.acoustidApiKey = "" then "AcoustID API key not set"
  else "no MusicBrainz recording id"

/-! ### What is found out about a candidate -/

/-- Why a file that was downloaded is kept, unless it is a shorter cut. -/
inductive Kept where
  /-- `verify_fingerprint` gave no answer. -/
  | noAnswer
  | verified
  /-- A mismatch, on the official album playlist. -/
  | officialMismatch
  /-- No data, on the official album playlist. -/
  | officialUnverified
  /-- It was not to be verified. -/
  | notVerified
  deriving DecidableEq, Repr

/-- What the turn of a candidate finds out. -/
inductive Found where
  | skip
  | lowScore
  | liveStream
  | downloadSkipped
  /-- The download failed, and with what the result said about it. -/
  | downloadFailed (said : Option (String × Bool))
  | missing (left : Bool)
  /-- The file is too short, even for a last resort. -/
  | rejectedLength (r : DlResult) (reason : String)
  /-- Another recording of the same song, near in length. -/
  | otherRecording (r : DlResult) (reason : String) (fp : FpData)
  | mismatch (r : DlResult) (reason : String) (fp : FpData) (matchedId : String)
  | unverified (r : DlResult) (reason : String)
  | kept (r : DlResult) (reason : String) (how : Kept) (fp : FpData)
  deriving DecidableEq, Repr

/-- A file that is too short is near enough to be held as a last resort. -/
def nearEnough (t : TrackInfo) (realSec : ℚ) : Bool :=
  t.expectedSec ≠ 0 && t.expectedSec * (1 - SHORT_FALLBACK_FRACTION) ≤ realSec

/-- A mismatch is another recording of the same song, near in length. -/
def isOtherRecording (t : TrackInfo) (c : Candidate) (realSec : ℚ) (fp : FpData) : Bool :=
  t.expectedSec ≠ 0 && |realSec - t.expectedSec| ≤ t.expectedSec * SHORT_FALLBACK_FRACTION &&
    9 / 10 ≤ fp.acoustidScore && sameSong O t.title fp.acoustidRecordingTitle t.artist c

/-- What AcoustID makes of a file; `reason` is why it is too short, if it is. -/
def check (t : TrackInfo) (c : Candidate) (i : Inputs) (r : DlResult) (reason : String) : Found :=
  if i.config.verifies t then
    match i.verify with
    | none => .kept r reason .noAnswer .empty
    | some (.verified fp) => .kept r reason .verified fp
    | some (.mismatch fp matchedId) =>
      if c.fromOfficialAlbum then .kept r reason .officialMismatch fp
      else if isOtherRecording O t c i.realSec fp then .otherRecording r reason fp
      else .mismatch r reason fp matchedId
    | some .unverified =>
      if c.fromOfficialAlbum then .kept r reason .officialUnverified .empty
      else .unverified r reason
  else if i.config.acoustidEnabled && i.config.acoustidApiKey ≠ "" then
    .kept r reason .notVerified (i.fingerprint.getD .empty)
  else .kept r reason .notVerified .empty

/-- What the turn of a candidate finds out. -/
def find (t : TrackInfo) (cfgLoop : Config) (c : Candidate) (i : Inputs) : Found :=
  if i.skip then .skip
  else if !cfgLoop.verifies t && c.score < cfgLoop.minMatchScore then .lowScore
  else if i.live then .liveStream
  else match i.download with
    | .skipped => .downloadSkipped
    | .raised => .downloadFailed none
    | .failed errorMessage postprocessError =>
      .downloadFailed (some (errorMessage, postprocessError))
    | .missing left => .missing left
    | .done r =>
      let reason := tooShort i.realSec t.expectedSec c.duration i.config.durationTolerance
      if reason ≠ "" && !nearEnough t i.realSec then .rejectedLength r reason
      else check O t c i r reason

/-! ### What is done about it -/

inductive Status where
  | pending | searching | downloading | tagging | verifying | fingerprinting | done | skipped
  | failed
  deriving DecidableEq, Repr

/-- `track_state`. -/
structure TrackState where
  status : Status
  youtubeUrl : String
  youtubeTitle : String
  errorMessage : String
  lastDownloadError : String
  postprocessError : Bool
  deriving DecidableEq, Repr

/-- A track kept without confirmation, for the report. -/
structure UnverifiedKeep where
  track : String
  ytTitle : String
  channel : String
  trusted : Bool
  deriving DecidableEq, Repr

/-- `verify_stats`. -/
structure VerifyStats where
  verifiedCount : ℕ
  acceptedAcoustidScores : List ℚ
  mismatchCount : ℕ
  bestRejectedScore : ℚ
  unverifiedKeeps : List UnverifiedKeep
  deriving DecidableEq, Repr

/-- A last resort that is held back. -/
structure HeldFallback where
  candidate : Candidate
  temp : Temp
  result : DlResult
  fp : FpData
  note : String
  diff : ℚ
  deriving DecidableEq, Repr

/-- The file that `_accept_track_file` is given, with its attempts. -/
structure Accepted where
  temp : Temp
  result : DlResult
  fp : FpData
  attempts : List Attempt
  deriving DecidableEq, Repr

/-- What a run does to the world. -/
inductive Effect where
  /-- A download has left its file. -/
  | downloaded (t : Temp)
  /-- A download has left a file with another ending, which is not looked for. -/
  | misnamed (t : Temp)
  /-- `_note_download_result`. -/
  | noted (ok : Bool) (errorText : String)
  /-- What `_too_short` says about a file. -/
  | measured (t : Temp) (reason : String)
  /-- `_cleanup_temp_files`. -/
  | cleaned (t : Temp)
  /-- `models.add_banned_url`. -/
  | banned (url title : String)
  | accepted (a : Accepted)
  /-- An entry of `succeeded_tracks`. -/
  | succeeded (trackDownloadId : Option ℕ) (youtubeUrl youtubeTitle : String)
  /-- The notification of a last resort, with its note. -/
  | notified (note : String)
  | pausedForFullDisk
  /-- `_record_track_failure`. -/
  | failure (reason : String) (attempts : List Attempt)
  deriving DecidableEq, Repr

/-- The locals of the function, and what it has done. -/
structure Body where
  track : TrackState
  attempts : List Attempt
  bestUnverified : Option Candidate
  heldUnverified : Option (Temp × DlResult)
  heldFallback : Option HeldFallback
  accepted : Bool
  anyDownloaded : Bool
  anyLowScoreSkipped : Bool
  stats : VerifyStats
  totalDownloadedSize : ℕ
  effects : List Effect
  deriving DecidableEq, Repr

namespace Body

@[simp] def log (b : Body) (es : List Effect) : Body := { b with effects := b.effects ++ es }

@[simp] def addAttempt (b : Body) (a : Attempt) : Body := { b with attempts := b.attempts ++ [a] }

@[simp] def setStatus (b : Body) (status : Status) : Body :=
  { b with track := { b.track with status := status } }

/-- The upload that `track_state` shows. -/
@[simp] def setYoutube (b : Body) (url title : String) : Body :=
  { b with track := { b.track with youtubeUrl := url, youtubeTitle := title } }

/-- `_drop_held_unverified`. -/
def dropHeldUnverified (b : Body) : Body :=
  match b.heldUnverified with
  | some (temp, _) => { b.log [.cleaned temp] with heldUnverified := none }
  | none => b

/-- `_drop_held_fallback`. -/
def dropHeldFallback (b : Body) : Body :=
  match b.heldFallback with
  | some fb => { b.log [.cleaned fb.temp] with heldFallback := none }
  | none => b

/-- `_hold_fallback`: of two last resorts the one nearer in length is held. -/
def holdFallback (b : Body) (fb : HeldFallback) : Body :=
  if b.heldFallback.any fun old => old.diff ≤ fb.diff then b.log [.cleaned fb.temp]
  else { b.dropHeldFallback with heldFallback := some fb }

/-- `_accept_track_file`, and what is noted about it. -/
def acceptTrackFile (W : TrackWorld) (b : Body) (temp : Temp) (r : DlResult) (fp : FpData) : Body :=
  { (b.log [.accepted ⟨temp, r, fp, b.attempts⟩,
      .succeeded W.trackDownloadId r.youtubeUrl r.youtubeTitle]).setStatus .done with
    totalDownloadedSize := b.totalDownloadedSize + W.fileSize }

/-- `_note_unverified_keep`. -/
def noteUnverifiedKeep (b : Body) (t : TrackInfo) (c : Candidate) : Body :=
  let trusted := c.fromOfficialAlbum || (c.channel ≠ "" && O.artistChannel c.channel t.artist)
  { b with stats := { b.stats with
      unverifiedKeeps := b.stats.unverifiedKeeps ++ [⟨t.title, c.title, c.channel, trusted⟩] } }

/-- The message of a download that failed. -/
def downloadError (b : Body) : String :=
  if b.track.errorMessage ≠ "" then b.track.errorMessage else b.track.lastDownloadError

/-- A download has left its file, which is measured. -/
@[simp] def downloaded (b : Body) (temp : Temp) (reason : String) : Body :=
  { (b.setStatus .downloading).log [.noted true "", .downloaded temp, .measured temp reason] with
    anyDownloaded := true }

/-- The file is tagged, and checked. -/
@[simp] def tagged (b : Body) (t : TrackInfo) (cfg : Config) (r : DlResult) : Body :=
  (b.setYoutube r.youtubeUrl r.youtubeTitle).setStatus
    (if cfg.verifies t then .verifying
      else if cfg.acoustidEnabled && cfg.acoustidApiKey ≠ "" then .fingerprinting
      else .tagging)

end Body

/-- How a turn of the loop ends. -/
inductive Turned where
  | next (b : Body)
  /-- `break`. -/
  | leave (b : Body)
  /-- `return`. -/
  | stop (b : Body)
  deriving DecidableEq, Repr

/-- `_build_candidate_attempt`, appended to the buffer. -/
@[simp] def Body.note (b : Body) (t : TrackInfo) (c : Candidate) (outcome : CandidateOutcome)
    (fp : FpData) (errorMessage : String) : Body :=
  b.addAttempt (buildCandidateAttempt t c outcome fp errorMessage)

/-- What is noted about a file that is kept. -/
def Body.noteKept (b : Body) (t : TrackInfo) (c : Candidate) (fp : FpData) : Kept → Body
  | .noAnswer => b
  | .verified =>
    { b.note t c .VERIFIED fp "" with stats := { b.stats with
        verifiedCount := b.stats.verifiedCount + 1
        acceptedAcoustidScores := b.stats.acceptedAcoustidScores ++ [fp.acoustidScore] } }
  | .officialMismatch => b.note t c .ACCEPTED_NO_VERIFY fp ""
  | .officialUnverified => b.note t c .ACCEPTED_NO_VERIFY .empty ""
  | .notVerified => (b.note t c .ACCEPTED_NO_VERIFY fp "").noteUnverifiedKeep O t c

/-- The last resort that is made of a candidate. -/
def lastResort (t : TrackInfo) (c : Candidate) (i : Inputs) (temp : Temp) (r : DlResult)
    (fp : FpData) (note : String) : HeldFallback :=
  ⟨c, temp, r, fp, note, |i.realSec - t.expectedSec|⟩

/-- The note of another recording. -/
def otherRecordingNote (t : TrackInfo) (i : Inputs) (fp : FpData) : String :=
  "different recording of the same song: AcoustID heard '" ++ fp.acoustidRecordingTitle ++ "' (" ++
    String.ofList (fp.acoustidRecordingId.toList.take 8) ++ "), file is " ++
      formatSeconds i.realSec ++ "s vs expected " ++ formatSeconds t.expectedSec ++ "s"

/-- What the turn of a candidate does about what it has found out. -/
def act (W : TrackWorld) (ci : ℕ) (c : Candidate) (b : Body) : Found → Turned
  | .skip => .stop (b.dropHeldUnverified.setStatus .skipped)
  | .lowScore =>
    let message := "score " ++ formatScore c.score ++ " < min_match_score " ++
      formatScore W.config.minMatchScore ++ " (" ++ noVerifyReason W.config W.track ++ ")"
    .next { b.note W.track c .REJECTED_LOW_SCORE .empty message with anyLowScoreSkipped := true }
  | .liveStream =>
    .next (((b.setStatus .downloading).note W.track c .REJECTED_LOW_SCORE .empty "live stream").log
      [.banned c.url c.title])
  | .downloadSkipped =>
    let b := (b.setStatus .skipped).log [.cleaned (.attempt ci)]
    .stop (b.note W.track c .DOWNLOAD_FAILED .empty b.downloadError).dropHeldUnverified
  | .downloadFailed said =>
    let b := b.setStatus .downloading
    let b := match said with
      | none => b
      | some (errorMessage, postprocessError) =>
        { b.log [.noted false errorMessage] with
          track := { b.track with
            lastDownloadError := errorMessage
            errorMessage := if postprocessError then errorMessage else b.track.errorMessage
            postprocessError := b.track.postprocessError || postprocessError } }
    let b := b.log [.cleaned (.attempt ci)]
    let b := b.note W.track c .DOWNLOAD_FAILED .empty b.downloadError
    if b.track.postprocessError then .leave b else .next b
  | .missing left =>
    -- nothing is cleaned up here
    let b := (b.setStatus .downloading).log
      (.noted true "" :: if left then [.misnamed (.attempt ci)] else [])
    let b := b.note W.track c .DOWNLOAD_FAILED .empty b.downloadError
    if b.track.postprocessError then .leave b else .next b
  | .rejectedLength _ reason =>
    let b := b.downloaded (.attempt ci) reason
    let b := b.note W.track c .REJECTED_LOW_SCORE .empty ("length: " ++ reason)
    .next ((b.log [.cleaned (.attempt ci), .banned c.url c.title]).setYoutube "" "")
  | .otherRecording r reason fp =>
    let i := W.inputs ci
    let b := (b.downloaded (.attempt ci) reason).tagged W.track i.config r
    let fb := lastResort W.track c i (.attempt ci) r fp (otherRecordingNote W.track i fp)
    .next ((b.holdFallback fb).setYoutube "" "")
  | .mismatch r reason fp matchedId =>
    let b := (b.downloaded (.attempt ci) reason).tagged W.track (W.inputs ci).config r
    let b := { b with stats := { b.stats with
      mismatchCount := b.stats.mismatchCount + 1
      bestRejectedScore := max b.stats.bestRejectedScore fp.acoustidScore } }
    -- the id that AcoustID found goes into the attempt as well
    let a := buildCandidateAttempt W.track c .MISMATCH fp ""
    let b := b.addAttempt { a with acoustidMatchedId := matchedId }
    .next ((b.log [.cleaned (.attempt ci), .banned c.url c.title]).setYoutube "" "")
  | .unverified r reason =>
    let b := (b.downloaded (.attempt ci) reason).tagged W.track (W.inputs ci).config r
    let b := b.note W.track c .UNVERIFIED .empty ""
    if b.bestUnverified.isNone then
      .next { b with bestUnverified := some c, heldUnverified := some (.attempt ci, r) }
    else .next (b.log [.cleaned (.attempt ci)])
  | .kept r reason how fp =>
    let i := W.inputs ci
    let b := (b.downloaded (.attempt ci) reason).tagged W.track i.config r
    let b := b.noteKept O W.track c fp how
    -- a file that is too short is never accepted in the loop
    if reason ≠ "" then
      let fb := lastResort W.track c i (.attempt ci) r fp ("shorter cut, " ++ reason)
      .next ((b.holdFallback fb).setYoutube "" "")
    else
      .leave { b.dropHeldUnverified.acceptTrackFile W (.attempt ci) r fp with accepted := true }

/-- The loop over some candidates, the first of which has the position `ci`. -/
def loop (W : TrackWorld) : ℕ → List Candidate → Body → Turned
  | _, [], b => .next b
  | ci, c :: cs, b =>
    match act O W ci c b (find O W.track W.config c (W.inputs ci)) with
    | .next b => loop W (ci + 1) cs b
    | turned => turned

/-! ### The candidates -/

/-- The candidates to start with, and whether the search was made for them. -/
def startCandidates (W : TrackWorld) : List Candidate × Bool :=
  match W.albumCandidate with
  | some c =>
    -- Only a match by title is flagged.
    ([if c.matchedByPosition then c else { c with fromOfficialAlbum := true }], false)
  | none => (W.search, true)

/-- What uploads are told apart by. -/
def uploadKey (c : Candidate) : String :=
  ((O.extractVideoId c.url).filter (· ≠ "")).getD c.url

/-- The uploads that the search adds. -/
def extraCandidates (W : TrackWorld) : List Candidate :=
  let tried := (startCandidates W).1.map (uploadKey O)
  W.search.filter fun c => uploadKey O c ∉ tried

/-- The search is made when the candidates run out, unless it was made before. -/
def extendsWithSearch (W : TrackWorld) : Bool := !(startCandidates W).2 && !W.skipAtExtend

/-- The loop over the candidates, with those there are at its end. -/
def iterate (W : TrackWorld) (b : Body) : List Candidate × Turned :=
  let candidates := (startCandidates W).1
  match loop O W 0 candidates b with
  | .next b =>
    if extendsWithSearch W then
      (candidates ++ extraCandidates O W, loop O W candidates.length (extraCandidates O W) b)
    else (candidates, .next b)
  | turned => (candidates, turned)

/-! ### After the loop -/

/-- A last resort is kept. -/
def keepLastResort (W : TrackWorld) (b : Body) (fb : HeldFallback) : Body :=
  let b := { b with heldFallback := none }
  let b := b.note W.track fb.candidate .ACCEPTED_UNVERIFIED_FALLBACK fb.fp
    ("last resort: " ++ fb.note)
  let b := (b.setStatus .tagging).setYoutube fb.result.youtubeUrl fb.result.youtubeTitle
  { (b.acceptTrackFile W fb.temp fb.result fb.fp).log [.notified fb.note] with accepted := true }

/-- Why the track failed. -/
def failReason (W : TrackWorld) (tried : ℕ) (lowScoreFallback : Bool) (b : Body) : String :=
  let reason :=
    if b.track.postprocessError then
      let reason := b.track.errorMessage
      if O.hostFailurePrefix.toList.isPrefixOf reason.toList then reason
      else "Audio postprocessing failed (local ffmpeg error)" ++
        (if reason ≠ "" then ": " ++ reason else "")
    else if lowScoreFallback then
      "Unverified fallback below min_match_score=" ++ formatScore W.config.minMatchScore ++
        " (tried " ++ toString tried ++ " candidates)"
    else if b.anyLowScoreSkipped && !b.anyDownloaded then
      "No candidate met min_match_score=" ++ formatScore W.config.minMatchScore ++ " (" ++
        noVerifyReason W.config W.track ++ "; tried " ++ toString tried ++ " candidates)"
    else if !b.anyDownloaded then
      "All candidate downloads failed (tried " ++ toString tried ++ " candidates)" ++
        (if b.track.lastDownloadError ≠ "" then ": " ++ b.track.lastDownloadError else "")
    else
      "AcoustID verification failed: no candidate matched expected recording " ++
        W.track.expectedRecordingId.getD "None" ++ " (tried " ++ toString tried ++ " candidates)"
  if containsText "no space left" (b.track.lastDownloadError.map Char.toLower) then
    O.diskFullPrefix ++ ": " ++ reason
  else reason

/-- `_record_track_failure`. -/
def recordTrackFailure (b : Body) (reason : String) (attempts : List Attempt) : Body :=
  { b.log [.failure reason attempts] with
    track := { b.track with status := .failed, errorMessage := reason } }

/-- The track has failed. -/
def fail (W : TrackWorld) (tried : ℕ) (lowScoreFallback : Bool) (b : Body) : Body :=
  let reason := failReason O W tried lowScoreFallback b
  let b :=
    if containsText "no space left" (b.track.lastDownloadError.map Char.toLower) then
      b.log [.pausedForFullDisk]
    else b
  recordTrackFailure b reason b.attempts

/-- The unverified fallback is kept, or it is not there. -/
def finishFallback (W : TrackWorld) (tried : ℕ) (b : Body) (c : Candidate) (temp : Temp)
    (result : Except (Option String) DlResult) : Body :=
  match result, W.fbExists with
  | .ok r, true =>
    let b := b.note W.track c .ACCEPTED_UNVERIFIED_FALLBACK .empty ""
    let b := b.noteUnverifiedKeep O W.track c
    let b := (b.setStatus .tagging).setYoutube r.youtubeUrl r.youtubeTitle
    b.acceptTrackFile W temp r .empty
  | .ok _, false =>
    let b := b.note W.track c .DOWNLOAD_FAILED .empty "file not found"
    fail O W tried false (b.log [.cleaned temp])
  | .error errorMessage, _ =>
    let b := b.note W.track c .DOWNLOAD_FAILED .empty (errorMessage.getD "file not found")
    fail O W tried false (b.log [.cleaned temp])

/-- The fallback that AcoustID could not confirm: the file that was held back, or the
same candidate downloaded again. -/
def unverifiedFallback (W : TrackWorld) (tried : ℕ) (b : Body) (c : Candidate) : Body :=
  if c.score < W.config.minMatchScore then
    let message := "fallback score " ++ formatScore c.score ++ " < min_match_score " ++
      formatScore W.config.minMatchScore
    let b := b.note W.track c .REJECTED_LOW_SCORE .empty message
    fail O W tried true { b.dropHeldUnverified with bestUnverified := none }
  else
    match b.heldUnverified, W.heldExists with
    | some (temp, r), true =>
      finishFallback O W tried { b with heldUnverified := none } c temp (.ok r)
    | _, _ =>
      let b := b.dropHeldUnverified.setStatus .downloading
      match W.redownload with
      | .skipped => (b.log [.cleaned .fallback]).setStatus .skipped
      | .failed errorMessage => finishFallback O W tried b c .fallback (.error errorMessage)
      | .done r =>
        let b := if W.fbExists then b.log [.downloaded .fallback] else b
        finishFallback O W tried b c .fallback (.ok r)

/-- What follows the loop. -/
def afterLoop (W : TrackWorld) (tried : ℕ) (b : Body) : Body :=
  if b.accepted then b.dropHeldFallback
  else
    match b.heldFallback, b.bestUnverified with
    | some fb, none => keepLastResort W b fb
    | _, some c => unverifiedFallback O W tried b c
    | none, none => fail O W tried false b

/-! ### The function -/

/-- Before anything is done. -/
def Body.init : Body where
  track := ⟨.pending, "", "", "", "", false⟩
  attempts := []
  bestUnverified := none
  heldUnverified := none
  heldFallback := none
  accepted := false
  anyDownloaded := false
  anyLowScoreSkipped := false
  stats := ⟨0, [], 0, 0, []⟩
  totalDownloadedSize := 0
  effects := []

/-- `_process_track_body`. -/
def processTrackBody (W : TrackWorld) : Body :=
  if W.skipAtStart then Body.init.setStatus .skipped
  else
    let b := Body.init.setStatus .searching
    if (startCandidates W).1 = [] then
      if W.skipWithoutCandidates then b.setStatus .skipped
      else recordTrackFailure b
        "No suitable YouTube match found (filtered by duration/forbidden words)" []
    else
      match iterate O W b with
      | (candidates, .next b) => afterLoop O W candidates.length b
      | (candidates, .leave b) => afterLoop O W candidates.length b
      | (_, .stop b) => b

end LidarrYtdl
end MediaHub

import MediaHub.QaVoting.Segments

/-!
# The worker of an ASR request

`stacks/subgen-r9/src/subgen.py`, `asr_task_worker`: an audio request is transcribed
in several passes, the passes that did not fail are reconciled, and the outcome is
put into the container on which the request waits.  The model and the result type
of stable_whisper are parameters.

## Main definitions

* `StableWhisper` — the parts of stable_whisper the worker uses.
* `asrTaskWorker` — the worker, as the list of signals to the container.
* `Delivers` — what a request is promised about its passes.

## Main results

* `passResults_eq` — the passes that count are the successful ones, in ladder order.
* `asrTaskWorker_delivers_iff` — **the worker keeps the promise** unless it appends
  its credit line to a result without segments.
-/

namespace MediaHub
namespace Subgen

open QaVoting

/-! ### Results of stable_whisper -/

/-- A segment of a result.  `start` and `end` delegate to its words. -/
structure Segment where
  /-- The words of the segment. -/
  words : List Word
  /-- The start of a segment without words. -/
  defaultStart : ℚ
  /-- The end of a segment without words. -/
  defaultEnd : ℚ
  /-- The text of the segment. -/
  text : String
  /-- The number of the segment. -/
  id : ℕ
  deriving DecidableEq, Repr

/-- When the segment starts. -/
def Segment.start (s : Segment) : ℚ := (s.words.head?.map (·.start)).getD s.defaultStart

/-- When the segment ends. -/
def Segment.end_ (s : Segment) : ℚ := (s.words.getLast?.map (·.end_)).getD s.defaultEnd

/-- A result of a transcription. -/
structure WhisperResult where
  /-- The segments in order. -/
  segments : List Segment
  /-- The language that was heard. -/
  language : Option String
  deriving DecidableEq, Repr

/-- The audio of a request, as it was uploaded or as samples. -/
inductive Audio where
  | encoded (bytes : List UInt8)
  | samples (values : List ℚ)
  deriving DecidableEq, Repr

/-- The arguments of one call of `model.transcribe`, without those that
`SUBGEN_KWARGS` adds to every call. -/
structure PassArgs where
  /-- `transcribe` or `translate`. -/
  task : String
  /-- The language of the audio, if it is known. -/
  language : Option String
  /-- The audio. -/
  audio : Audio
  /-- The sampling rate, for samples. -/
  inputSr : Option ℕ
  /-- How the segments are to be grouped. -/
  regroup : Option String
  /-- The temperatures of the pass. -/
  temperature : List ℚ
  /-- What the progress is reported under. -/
  progress : String
  deriving DecidableEq, Repr

/-- The parts of stable_whisper the worker uses, and `json.dumps`. -/
structure StableWhisper where
  /-- `model.transcribe`, with the message of the exception where it raises. -/
  transcribe : PassArgs → Except String WhisperResult
  /-- `WhisperResult(segments, force_order=True)`. -/
  whisperResult : List (List Word) → WhisperResult
  /-- `result.regroup(algo)`. -/
  regroup : WhisperResult → String → WhisperResult
  /-- `result.text`. -/
  text : WhisperResult → String
  /-- `result.to_srt_vtt(filepath=None, word_level=…, vtt=…)`. -/
  toSrtVtt : WhisperResult → Bool → Bool → String
  /-- `json.dumps`. -/
  dumps : Json → String

/-! ### The configuration and the task -/

/-- The configuration of the server. -/
structure Config where
  /-- `APPEND`. -/
  append : Bool
  /-- `WHISPER_MODEL`. -/
  whisperModel : String
  /-- `SUBGEN_QA_PASSES`. -/
  qaPasses : ℤ
  /-- `SUBGEN_QA_OVERLAP_THRESHOLD`. -/
  qaOverlapThreshold : ℚ
  /-- `SUBGEN_QA_MAX_GAP`. -/
  qaMaxGap : ℚ
  /-- `CUSTOM_REGROUP`. -/
  customRegroup : String
  /-- `WORD_LEVEL_HIGHLIGHT`. -/
  wordLevelHighlight : Bool
  deriving DecidableEq, Repr

/-- The data of a queued request. -/
structure AsrTask where
  /-- The id of the task, if it has one. -/
  path : Option String
  /-- `transcribe` or `translate`. -/
  task : String
  /-- The language of the audio, if it is known. -/
  language : Option String
  /-- The video the audio belongs to. -/
  videoFile : Option String
  /-- The uploaded bytes. -/
  audioContent : List UInt8
  /-- Whether the bytes are a media file rather than samples. -/
  encode : Bool
  /-- The format of the response, `srt` if it is not given. -/
  outputFormat : Option String
  deriving DecidableEq, Repr

/-- What the worker meets outside: the loading of the model, the start of the audio
stream in a file, and the clock. -/
structure Env where
  /-- `start_model`. -/
  startModel : Except String Unit
  /-- `get_audio_start_time`. -/
  audioStartTime : String → ℚ
  /-- The date and the time of the credit line. -/
  now : String

/-- What the worker puts into the container of the request. -/
inductive Signal where
  | result (formatted : String)
  | error (message : String)
  deriving DecidableEq, Repr

section

variable (U : Unicodedata) (S : StableWhisper) (cfg : Config) (env : Env) (t : AsrTask)

/-- The id under which the request is logged. -/
def AsrTask.taskId : String := t.path.getD "unknown"

/-- The video file, unless its name is empty. -/
def AsrTask.video : Option String := t.videoFile.filter (· ≠ "")

/-- `np.frombuffer(bytes, np.int16) / 32768.0`. -/
def int16Samples : List UInt8 → Except String (List ℚ)
  | [] => .ok []
  | [_] => .error "buffer size must be a multiple of element size"
  | lo :: hi :: bytes => do
    let n : ℤ := lo.toNat + 256 * hi.toNat
    let rest ← int16Samples bytes
    return (if n < 32768 then n else n - 65536) / 32768 :: rest

/-- The regrouping the configuration asks for, if it asks for one. -/
def Config.regroup : Option String :=
  if cfg.customRegroup ≠ "" ∧ U.lower cfg.customRegroup ≠ "default" then some cfg.customRegroup
  else none

/-- `os.path.basename`. -/
def basename (path : String) : String := (path.splitOn "/").getLastD ""

/-! ### The passes -/

/-- The arguments of the passes, but for the temperature and the progress. -/
def baseArgs : Except String PassArgs := do
  env.startModel
  let displayName := (t.video.map basename).getD t.taskId
  if t.encode then
    return ⟨t.task, t.language, .encoded t.audioContent, none, cfg.regroup U, [], displayName⟩
  else
    let samples ← int16Samples t.audioContent
    return ⟨t.task, t.language, .samples samples, some 16000, cfg.regroup U, [], displayName⟩

/-- The arguments of pass number `i`. -/
def passArgs (args : PassArgs) (temperature : List ℚ) (i : ℕ) : PassArgs :=
  { args with
    temperature := temperature
    progress := s!"{args.progress} (pass {i + 1}/{cfg.qaPasses})" }

/-- One turn of the loop over the temperature ladder: a pass that raises is
skipped. -/
def passStep (args : PassArgs) (passResults : List WhisperResult) (p : List ℚ × ℕ) :
    List WhisperResult :=
  match S.transcribe (passArgs cfg args p.1 p.2) with
  | .ok result => passResults ++ [result]
  | .error _ => passResults

/-- The results of the passes that did not raise. -/
def passResults (args : PassArgs) : List WhisperResult :=
  (temperatureLadder cfg.qaPasses).zipIdx.foldl (passStep S cfg args) []

/-- The words of a result. -/
def WhisperResult.words (result : WhisperResult) : List Word := result.segments.flatMap (·.words)

/-- The result of several passes. -/
def reconciledResult (results : List WhisperResult) : WhisperResult :=
  let words := reconcilePasses U (results.map (·.words)) cfg.qaOverlapThreshold
  let result := S.whisperResult (groupIntoSegments words cfg.qaMaxGap)
  match cfg.regroup U with
  | some algo => S.regroup result algo
  | none => result

/-- The result of the request, from the passes that did not raise. -/
def combine : List WhisperResult → Except String WhisperResult
  | [] => .error s!"All {cfg.qaPasses} QA passes failed for ASR request (ID: {t.taskId})"
  | [result] => .ok result
  | results => .ok (reconciledResult U S cfg results)

/-! ### After the passes -/

/-- A word moved by an offset. -/
def shiftWord (offset : ℚ) (w : Word) : Word :=
  { w with start := w.start + offset, end_ := w.end_ + offset }

/-- A segment moved by an offset: its words, or its own times if it has none. -/
def shiftSegment (offset : ℚ) (s : Segment) : Segment :=
  if s.words ≠ [] then { s with words := s.words.map (shiftWord offset) }
  else { s with defaultStart := s.defaultStart + offset, defaultEnd := s.defaultEnd + offset }

/-- `apply_timestamp_offset`. -/
def applyTimestampOffset (result : WhisperResult) (offset : ℚ) : WhisperResult :=
  if offset ≤ 0 then result
  else { result with segments := result.segments.map (shiftSegment offset) }

/-- The offset between the audio and the video. -/
def audioOffset : ℚ := (t.video.map env.audioStartTime).getD 0

/-- The seconds between the last segment and the credit line. -/
def timeOffset : ℚ := 5

/-- The credit line after the last segment. -/
def creditSegment (last : Segment) : Segment where
  words := []
  defaultStart := last.start + timeOffset
  defaultEnd := last.end_ + timeOffset
  text := s!"Transcribed by whisperAI with faster-whisper ({cfg.whisperModel}) on {env.now}"
  id := last.id + 1

/-- `appendLine`: `result.segments[-1]` raises on a result without segments. -/
def appendLine (result : WhisperResult) : Except String WhisperResult :=
  if cfg.append then
    match result.segments.getLast? with
    | none => .error "list index out of range"
    | some last => .ok { result with segments := result.segments ++ [creditSegment cfg env last] }
  else .ok result

/-- A word of a `verbose_json` response. -/
def wordJson (w : Word) : Json :=
  .obj [("word", .str w.word), ("start", .num (roundTo 3 w.start)),
    ("end", .num (roundTo 3 w.end_))]

/-- A segment of a `verbose_json` response. -/
def segmentJson (s : Segment) (i : ℕ) : Json :=
  .obj ([("id", .num i), ("seek", .num 0), ("start", .num (roundTo 3 s.start)),
      ("end", .num (roundTo 3 s.end_)), ("text", .str s.text), ("tokens", .arr []),
      ("temperature", .num 0), ("avg_logprob", .num 0), ("compression_ratio", .num 1),
      ("no_speech_prob", .num 0)]
    ++ if s.words ≠ [] then [("words", .arr (s.words.map wordJson))] else [])

/-- The response in the format of the request. -/
def formatResult (result : WhisperResult) : String :=
  let text := strip U (S.text result)
  match t.outputFormat.getD "srt" with
  | "json" => S.dumps (.obj [("text", .str text)])
  | "text" => text
  | "vtt" => S.toSrtVtt result cfg.wordLevelHighlight true
  | "verbose_json" =>
    S.dumps (.obj [("task", .str t.task),
      ("language", (result.language.map Json.str).getD .null),
      ("duration", .num ((result.segments.getLast?.map fun s => roundTo 3 s.end_).getD 0)),
      ("text", .str text),
      ("segments", .arr (result.segments.zipIdx.map fun p => segmentJson p.1 p.2))])
  | _ => S.toSrtVtt result cfg.wordLevelHighlight false

/-! ### The worker -/

/-- The body of the `try` block. -/
def asrTask : Except String String := do
  let args ← baseArgs U cfg env t
  let result ← combine U S cfg t (passResults S cfg args)
  let offset := audioOffset env t
  let result := if offset > 0 then applyTimestampOffset result offset else result
  let result ← appendLine cfg env result
  return formatResult U S cfg t result

/-- `asr_task_worker`, as the signals it gives the container of the request.  What
`finally` does afterwards concerns the model only. -/
def asrTaskWorker : List Signal :=
  match asrTask U S cfg env t with
  | .ok formatted => [.result formatted]
  | .error message => [.error message]

/-- The container is set once, to a result or an error. -/
theorem asrTaskWorker_eq_singleton : ∃ signal, asrTaskWorker U S cfg env t = [signal] := by
  unfold asrTaskWorker
  split
  · exact ⟨_, rfl⟩
  · exact ⟨_, rfl⟩

/-! ### The promise -/

/-- The results of the successful passes in ladder order; none where the request
does not get to its passes. -/
def successfulPasses : List WhisperResult :=
  match baseArgs U cfg env t with
  | .error _ => []
  | .ok args => (temperatureLadder cfg.qaPasses).zipIdx.filterMap fun p =>
      (S.transcribe (passArgs cfg args p.1 p.2)).toOption

/-- The signal carries a result: moved by the offset of the audio, with nothing added
but a credit line, in the format of the request. -/
def Carries (result : WhisperResult) (signal : Signal) : Prop :=
  let moved := applyTimestampOffset result (audioOffset env t)
  ∃ credit : List Segment, credit.length ≤ 1 ∧ (cfg.append = false → credit = []) ∧
    signal = .result (formatResult U S cfg t { moved with segments := moved.segments ++ credit })

/-- What a request is promised: one signal, which carries the reconciliation of the
successful passes where there are two of them or more, the result of the only
successful pass where there is one, and an error where there is none. -/
def Delivers (signals : List Signal) : Prop :=
  ∃ signal, signals = [signal] ∧
    (successfulPasses U S cfg env t = [] → ∃ message, signal = .error message) ∧
    (∀ result, successfulPasses U S cfg env t = [result] → Carries U S cfg env t result signal) ∧
    (2 ≤ (successfulPasses U S cfg env t).length →
      Carries U S cfg env t (reconciledResult U S cfg (successfulPasses U S cfg env t)) signal)

/-- There is a segment for the credit line to follow, if it is wanted: the only
successful pass has one, or a slot of the successful passes meets the quorum. -/
def CanCredit : Prop :=
  cfg.append = false ∨ successfulPasses U S cfg env t = [] ∨
    (∃ result, successfulPasses U S cfg env t = [result] ∧ result.segments ≠ []) ∨
    (2 ≤ (successfulPasses U S cfg env t).length ∧
      ∃ slot ∈ clusterWordsIntoSlots (pool ((successfulPasses U S cfg env t).map (·.words)))
        cfg.qaOverlapThreshold, 2 ≤ (contributingPasses slot).card)

/-! ### Step by step -/

/-- **The passes that count are the successful ones**, in ladder order. -/
theorem passResults_eq (args : PassArgs) :
    passResults S cfg args = (temperatureLadder cfg.qaPasses).zipIdx.filterMap fun p =>
      (S.transcribe (passArgs cfg args p.1 p.2)).toOption := by
  unfold passResults
  generalize (temperatureLadder cfg.qaPasses).zipIdx = ladder
  induction ladder using List.reverseRecOn with
  | nil => rfl
  | append_singleton ladder p ih =>
    rw [List.foldl_append, ih, List.filterMap_append]
    simp only [List.foldl_cons, List.foldl_nil, passStep]
    cases h : S.transcribe (passArgs cfg args p.1 p.2) with
    | ok result => simp [h, Except.toOption]
    | error message => simp [h, Except.toOption]

/-- The result of the request: the only one, or the reconciliation. -/
theorem combine_eq_ok {results : List WhisperResult} (h : results ≠ []) :
    ∃ result, combine U S cfg t results = .ok result ∧
      (∀ r, results = [r] → result = r) ∧
      (2 ≤ results.length → result = reconciledResult U S cfg results) := by
  cases results with
  | nil => exact absurd rfl h
  | cons r results =>
    cases results with
    | nil =>
      refine ⟨r, rfl, ?_, ?_⟩
      · intro r' hr
        exact (List.cons.inj hr).1
      · intro hlen
        simp at hlen
    | cons r' results =>
      refine ⟨reconciledResult U S cfg (r :: r' :: results), rfl, ?_, fun _ => rfl⟩
      intro r'' hr
      simp at hr

/-- The offset moves segments, and drops none. -/
theorem applyTimestampOffset_eq_nil (result : WhisperResult) (offset : ℚ) :
    (applyTimestampOffset result offset).segments = [] ↔ result.segments = [] := by
  unfold applyTimestampOffset
  split
  · exact Iff.rfl
  · exact List.map_eq_nil_iff

/-- The credit line is added, or not wanted, or there is no segment to follow. -/
theorem appendLine_cases (result : WhisperResult) :
    (∃ credit : List Segment, credit.length ≤ 1 ∧ (cfg.append = false → credit = []) ∧
        appendLine cfg env result = .ok { result with segments := result.segments ++ credit }) ∨
      (cfg.append = true ∧ result.segments = [] ∧
        appendLine cfg env result = .error "list index out of range") := by
  unfold appendLine
  cases happend : cfg.append with
  | false => exact Or.inl ⟨[], by simp, fun _ => rfl, by simp⟩
  | true =>
    cases hlast : result.segments.getLast? with
    | none => exact Or.inr ⟨rfl, List.getLast?_eq_none_iff.mp hlast, rfl⟩
    | some last => exact Or.inl ⟨[creditSegment cfg env last], by simp, by simp, rfl⟩

/-- What becomes of the result of the request. -/
theorem asrTask_eq {args : PassArgs} (hargs : baseArgs U cfg env t = .ok args)
    {result : WhisperResult} (h : combine U S cfg t (passResults S cfg args) = .ok result) :
    asrTask U S cfg env t
      = (appendLine cfg env (applyTimestampOffset result (audioOffset env t))).map
          (formatResult U S cfg t) := by
  have hoffset : (if audioOffset env t > 0 then applyTimestampOffset result (audioOffset env t)
      else result) = applyTimestampOffset result (audioOffset env t) := by
    split
    · rfl
    · next hle => rw [applyTimestampOffset, if_pos (not_lt.mp hle)]
  simp only [asrTask, hargs, h, bind, Except.bind, pure, Except.pure, hoffset]
  cases appendLine cfg env (applyTimestampOffset result (audioOffset env t)) <;> rfl

/-- The reconciled result has no segment exactly when no slot meets the quorum. -/
theorem reconciledResult_segments_eq_nil
    (hresult : ∀ segments, (∀ s ∈ segments, s ≠ []) →
      ((S.whisperResult segments).segments = [] ↔ segments = []))
    (hregroup : ∀ result algo, (S.regroup result algo).segments = [] ↔ result.segments = [])
    (results : List WhisperResult) :
    (reconciledResult U S cfg results).segments = [] ↔
      ¬ ∃ slot ∈ clusterWordsIntoSlots (pool (results.map (·.words))) cfg.qaOverlapThreshold,
        2 ≤ (contributingPasses slot).card := by
  have hregroup' : (reconciledResult U S cfg results).segments = [] ↔ (S.whisperResult
      (groupIntoSegments (reconcilePasses U (results.map (·.words)) cfg.qaOverlapThreshold)
        cfg.qaMaxGap)).segments = [] := by
    unfold reconciledResult
    cases cfg.regroup U with
    | none => exact Iff.rfl
    | some algo => exact hregroup _ algo
  rw [hregroup', hresult _ fun s hs => ne_nil_of_mem_groupIntoSegments hs,
    groupIntoSegments_reconcilePasses_eq_nil]
  push Not
  exact Iff.rfl

/-- The promise, where some pass succeeded with `result` as the outcome. -/
theorem delivers_iff_of_ne_nil {result : WhisperResult} {signals : List Signal}
    (hne : successfulPasses U S cfg env t ≠ [])
    (hone : ∀ r, successfulPasses U S cfg env t = [r] → result = r)
    (hmany : 2 ≤ (successfulPasses U S cfg env t).length →
      result = reconciledResult U S cfg (successfulPasses U S cfg env t)) :
    Delivers U S cfg env t signals ↔
      ∃ signal, signals = [signal] ∧ Carries U S cfg env t result signal := by
  constructor
  · rintro ⟨signal, hsignals, -, hraw, hrec⟩
    refine ⟨signal, hsignals, ?_⟩
    rcases Nat.lt_or_ge (successfulPasses U S cfg env t).length 2 with hlen | hlen
    · obtain ⟨r, hr⟩ : ∃ r, successfulPasses U S cfg env t = [r] := by
        have := List.length_pos_iff.mpr hne
        exact List.length_eq_one_iff.mp (by omega)
      exact hone r hr ▸ hraw r hr
    · exact hmany hlen ▸ hrec hlen
  · rintro ⟨signal, hsignals, hcarries⟩
    refine ⟨signal, hsignals, fun h => absurd h hne, ?_, ?_⟩
    · intro r hr
      exact hone r hr ▸ hcarries
    · intro hlen
      exact hmany hlen ▸ hcarries

/-- The credit line can be added, where some pass succeeded with `result` as the
outcome. -/
theorem canCredit_iff_of_ne_nil
    (hresult : ∀ segments, (∀ s ∈ segments, s ≠ []) →
      ((S.whisperResult segments).segments = [] ↔ segments = []))
    (hregroup : ∀ result algo, (S.regroup result algo).segments = [] ↔ result.segments = [])
    {result : WhisperResult} (hne : successfulPasses U S cfg env t ≠ [])
    (hone : ∀ r, successfulPasses U S cfg env t = [r] → result = r)
    (hmany : 2 ≤ (successfulPasses U S cfg env t).length →
      result = reconciledResult U S cfg (successfulPasses U S cfg env t)) :
    CanCredit U S cfg env t ↔ cfg.append = false ∨ result.segments ≠ [] := by
  have hslots := reconciledResult_segments_eq_nil U S cfg hresult hregroup
    (successfulPasses U S cfg env t)
  unfold CanCredit
  constructor
  · rintro (happend | hnil | ⟨r, hr, hsegments⟩ | ⟨hlen, hslot⟩)
    · exact Or.inl happend
    · exact absurd hnil hne
    · exact Or.inr (hone r hr ▸ hsegments)
    · exact Or.inr (hmany hlen ▸ fun h => hslots.mp h hslot)
  · rintro (happend | hsegments)
    · exact Or.inl happend
    · rcases Nat.lt_or_ge (successfulPasses U S cfg env t).length 2 with hlen | hlen
      · obtain ⟨r, hr⟩ : ∃ r, successfulPasses U S cfg env t = [r] := by
          have := List.length_pos_iff.mpr hne
          exact List.length_eq_one_iff.mp (by omega)
        exact Or.inr (Or.inr (Or.inl ⟨r, hr, hone r hr ▸ hsegments⟩))
      · refine Or.inr (Or.inr (Or.inr ⟨hlen, ?_⟩))
        by_contra hslot
        exact hsegments (hmany hlen ▸ hslots.mpr hslot)

/-- **The worker keeps the promise** unless it appends its credit line to a result
without segments.  Assumed are that a result has segments where it is built from
some, and that regrouping does not lose all segments. -/
theorem asrTaskWorker_delivers_iff
    (hresult : ∀ segments, (∀ s ∈ segments, s ≠ []) →
      ((S.whisperResult segments).segments = [] ↔ segments = []))
    (hregroup : ∀ result algo, (S.regroup result algo).segments = [] ↔ result.segments = []) :
    Delivers U S cfg env t (asrTaskWorker U S cfg env t) ↔ CanCredit U S cfg env t := by
  cases hargs : baseArgs U cfg env t with
  | error message =>
    -- the request does not get to its passes
    have hnone : successfulPasses U S cfg env t = [] := by
      unfold successfulPasses
      rw [hargs]
    have hworker : asrTaskWorker U S cfg env t = [.error message] := by
      simp only [asrTaskWorker, asrTask, hargs, bind, Except.bind]
    refine iff_of_true ⟨.error message, hworker, fun _ => ⟨message, rfl⟩, ?_, ?_⟩
      (Or.inr (Or.inl hnone)) <;> rw [hnone] <;> simp
  | ok args =>
    have hpasses : successfulPasses U S cfg env t = passResults S cfg args := by
      unfold successfulPasses
      rw [hargs, passResults_eq]
    by_cases hne : successfulPasses U S cfg env t = []
    · -- every pass failed
      have hworker : asrTaskWorker U S cfg env t = [.error
          s!"All {cfg.qaPasses} QA passes failed for ASR request (ID: {t.taskId})"] := by
        simp only [asrTaskWorker, asrTask, hargs, bind, Except.bind, ← hpasses, hne, combine]
      refine iff_of_true ⟨_, hworker, fun _ => ⟨_, rfl⟩, ?_, ?_⟩ (Or.inr (Or.inl hne)) <;>
        rw [hne] <;> simp
    · obtain ⟨result, hcombine, hone, hmany⟩ := combine_eq_ok U S cfg t hne
      rw [delivers_iff_of_ne_nil U S cfg env t hne hone hmany,
        canCredit_iff_of_ne_nil U S cfg env t hresult hregroup hne hone hmany]
      have htask := asrTask_eq U S cfg env t hargs (hpasses ▸ hcombine)
      rcases appendLine_cases cfg env (applyTimestampOffset result (audioOffset env t)) with
        ⟨credit, hlen, hoff, hline⟩ | ⟨happend, hnil, hline⟩
      · have hworker : asrTaskWorker U S cfg env t = [.result (formatResult U S cfg t
            { applyTimestampOffset result (audioOffset env t) with
              segments :=
                (applyTimestampOffset result (audioOffset env t)).segments ++ credit })] := by
          rw [asrTaskWorker, htask, hline]
          rfl
        refine iff_of_true ⟨_, hworker, credit, hlen, hoff, rfl⟩ ?_
        cases happend : cfg.append with
        | false => exact Or.inl rfl
        | true =>
          -- a credit line was added, so there was a segment to follow
          refine Or.inr ?_
          intro hsegments
          have hnil := (applyTimestampOffset_eq_nil result (audioOffset env t)).mpr hsegments
          unfold appendLine at hline
          rw [happend, hnil] at hline
          cases hline
      · have hworker : asrTaskWorker U S cfg env t = [.error "list index out of range"] := by
          rw [asrTaskWorker, htask, hline]
          rfl
        refine iff_of_false ?_ ?_
        · rintro ⟨signal, hsignal, credit, -, -, hcarries⟩
          rw [hworker, hcarries] at hsignal
          cases hsignal
        · rw [happend, applyTimestampOffset_eq_nil] at *
          simp [hnil]

end

/-! ### Two requests -/

/-- A result with one segment of one word. -/
def oneWord (w : Word) : WhisperResult := ⟨[⟨[w], w.start, w.end_, w.word, 0⟩], some "en"⟩

/-- A model whose first pass hears `first`, whose second pass fails, and whose third
pass hears `third`. -/
def secondFails (first third : Word) : StableWhisper where
  transcribe args :=
    if args.temperature.head? = some 0 then .ok (oneWord first)
    else if args.temperature.head? = some (3 / 10) then .error "CUDA out of memory"
    else .ok (oneWord third)
  whisperResult segments :=
    ⟨segments.map fun ws => ⟨ws, 0, 0, String.join (ws.map (·.word)), 0⟩, none⟩
  regroup result _ := result
  text result := String.join (result.segments.map (·.text))
  toSrtVtt result _ _ := String.join (result.segments.map (·.text))
  dumps _ := ""

/-- Three passes, and the credit line is wanted. -/
def creditConfig : Config := ⟨true, "medium", 3, 1 / 2, 1 / 2, "default", false⟩

/-- A model that is loaded, and a file whose audio starts with it. -/
def quietEnv : Env := ⟨.ok (), fun _ => 0, "01 Jan 2026 - 00:00:00"⟩

/-- A request for the plain text. -/
def textTask : AsrTask := ⟨some "asr-1", "transcribe", none, none, [], true, some "text"⟩

theorem secondFails_delivers :
    Delivers .ascii (secondFails ⟨0, 1, " hello", 1 / 2⟩ ⟨0, 1, " hello", 3 / 4⟩) creditConfig
      quietEnv textTask
      (asrTaskWorker .ascii (secondFails ⟨0, 1, " hello", 1 / 2⟩ ⟨0, 1, " hello", 3 / 4⟩)
        creditConfig quietEnv textTask) := by
  refine (asrTaskWorker_delivers_iff .ascii _ creditConfig quietEnv textTask ?_ ?_).mpr ?_
  · intro segments _
    exact List.map_eq_nil_iff
  · intro result algo
    exact Iff.rfl
  · exact Or.inr (Or.inr (Or.inr (by decide +kernel)))

/-- **A request can end in an error although two passes succeeded**: they have no word
in common, the reconciled result has no segment, and the credit line has nothing to
follow. -/
theorem asrTaskWorker_error_without_segments :
    asrTaskWorker .ascii (secondFails ⟨0, 1, " hello", 1 / 2⟩ ⟨5, 6, " bye", 3 / 4⟩) creditConfig
        quietEnv textTask = [.error "list index out of range"] ∧
      ¬ Delivers .ascii (secondFails ⟨0, 1, " hello", 1 / 2⟩ ⟨5, 6, " bye", 3 / 4⟩) creditConfig
        quietEnv textTask
        (asrTaskWorker .ascii (secondFails ⟨0, 1, " hello", 1 / 2⟩ ⟨5, 6, " bye", 3 / 4⟩)
          creditConfig quietEnv textTask) := by
  have hworker : asrTaskWorker .ascii (secondFails ⟨0, 1, " hello", 1 / 2⟩ ⟨5, 6, " bye", 3 / 4⟩)
      creditConfig quietEnv textTask = [.error "list index out of range"] := by decide +kernel
  refine ⟨hworker, ?_⟩
  rw [hworker]
  rintro ⟨signal, hsignal, -, -, hmany⟩
  obtain ⟨_, -, -, hresult⟩ := hmany (by decide +kernel)
  rw [hresult] at hsignal
  cases hsignal

end Subgen
end MediaHub

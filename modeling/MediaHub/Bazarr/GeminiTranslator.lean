import MediaHub.Bazarr.Answers
import MediaHub.Lib.SplitRetry
import Mathlib.Data.PNat.Defs
import Mathlib.Logic.Function.Basic

/-!
# The Gemini translator

`stacks/arr-stack/patches/gemini_translator.py`: the subtitles of a file are sent to
Gemini in batches.  A request that is rate limited is sent again with another key; after
any other failure the batch is split in half, and a batch of one is sent again.  The
server, the clock and the user's interrupt are parameters: the reply to every request,
every reading of the clock, and every reading of the flag.  Of the progress the count of the
translated lines is kept; the bar that shows it and the file that it is saved in are left out.

## Main definitions

* `World`, `Config` — what the translator meets outside, and its settings.
* `KeyPool`, `State` — the rotation of the keys, and everything a run changes.
* `attempt` — one request and what is done with the reply.
* `processBatch` — a batch with its retries and its halves.
* `translateWithGemini` — the run over the whole file.

## Main results

* `attempt_cases` — everything an attempt can do.
* `processBatch_spec` — **the code runs split and retry**, and clears a batch that was
  done, which is what ends the run.
-/

namespace MediaHub
namespace Bazarr

/-! ### The outside -/

/-- What a run meets outside. -/
structure World where
  /-- The reply to each request, in the order in which they are sent. -/
  reply : ℕ → Reply
  /-- The readings of `time.time()`. -/
  time : ℕ → ℚ
  /-- The readings of `interrupt_flag` by the loop. -/
  interruptFlag : ℕ → Bool

/-- The settings of a translation. -/
structure Config where
  /-- `api_keys`. -/
  apiKeys : List String
  /-- `target_language`. -/
  targetLanguage : Option String
  /-- `description`. -/
  description : String
  /-- `input_file`. -/
  inputFile : String
  /-- `model_name`. -/
  modelName : String
  /-- `start_line`. -/
  startLine : ℕ+
  /-- `batch_size`, which is at least `1`. -/
  batchSize : ℕ+

/-! ### The keys -/

/-- The keys as a run uses them. -/
structure KeyPool where
  /-- `current_api_key`. -/
  currentApiKey : Option String
  /-- `current_api_index`, `-1` before the first choice. -/
  currentApiIndex : ℤ
  /-- `_GEMINI_KEY_COOLDOWNS`. -/
  cooldowns : String → Option ℚ
  /-- How often the clock has been read. -/
  clock : ℕ

/-- The message of a run without a key. -/
def rateLimitedMessage : String :=
  "All Gemini API keys are currently rate limited. Please wait before retrying."

section

variable (U : Unicodedata) (P : Interpreter) (W : World) (cfg : Config)

/-- `_is_key_on_cooldown`. -/
def isKeyOnCooldown (apiKey : String) (pool : KeyPool) : Bool × KeyPool :=
  let now := W.time pool.clock
  let pool := { pool with clock := pool.clock + 1 }
  match pool.cooldowns apiKey with
  | none => (false, pool)
  | some expiresAt =>
    if expiresAt ≤ now then
      (false, { pool with cooldowns := Function.update pool.cooldowns apiKey none })
    else (true, pool)

/-- The loop of `_select_next_api_key` over the offsets. -/
def selectFrom (startIndex : ℤ) : List ℕ → KeyPool → Option String × KeyPool
  | [], pool => (none, { pool with currentApiKey := none })
  | offset :: offsets, pool =>
    let candidateIndex := (startIndex + offset) % cfg.apiKeys.length
    let candidateKey := cfg.apiKeys.getD candidateIndex.toNat ""
    let (onCooldown, pool) := isKeyOnCooldown W candidateKey pool
    if onCooldown then selectFrom startIndex offsets pool
    else (some candidateKey,
      { pool with currentApiIndex := candidateIndex, currentApiKey := some candidateKey })

/-- `_select_next_api_key`. -/
def selectNextApiKey (pool : KeyPool) : Option String × KeyPool :=
  selectFrom W cfg (max pool.currentApiIndex (-1)) (List.range' 1 cfg.apiKeys.length) pool

/-- `str(error_body.get(key, ""))`. -/
def errorField (key : String) (errorBody : List (String × Json)) : String :=
  pyStr P ((lookup key errorBody).getD (.str ""))

/-- `_is_rate_limited_response`.  Only the first `get` is inside the `try`. -/
def isRateLimitedResponse : Option Response → Except PyError Bool
  | none => .ok false
  | some response =>
    if response.statusCode = 429 then .ok true
    else match response.json with
      | some (.obj body) =>
        match (lookup "error" body).getD (.obj []) with
        | .obj errorBody =>
          let errorStatus := U.upper (errorField P "status" errorBody)
          let errorMessage := U.lower (errorField P "message" errorBody)
          .ok (errorStatus = "RESOURCE_EXHAUSTED" || isSubstring "rate limit" errorMessage ||
            isSubstring "quota" errorMessage)
        | _ => .error .attributeError
      | _ => .ok false

/-- `DEFAULT_GEMINI_KEY_COOLDOWN_SECONDS`. -/
def defaultKeyCooldownSeconds : ℤ := 60

/-- `_get_retry_after_seconds`.  `int` of an infinity raises what is not caught. -/
def getRetryAfterSeconds (response : Option Response) : Except PyError ℤ :=
  match (response.bind (·.retryAfter)).filter (· ≠ "") with
  | none => .ok defaultKeyCooldownSeconds
  | some retryAfter =>
    match P.float retryAfter with
    | some (.finite q) => .ok (max 1 (q.num.tdiv q.den))
    | some .infinite => .error .overflowError
    | some .nan => .ok defaultKeyCooldownSeconds
    | none => .ok defaultKeyCooldownSeconds

/-- `_set_key_cooldown`. -/
def setKeyCooldown (apiKey : String) (cooldownSeconds : ℤ) (pool : KeyPool) : KeyPool :=
  { pool with
    clock := pool.clock + 1
    cooldowns := Function.update pool.cooldowns apiKey
      (some (W.time pool.clock + max 1 cooldownSeconds)) }

/-- `_handle_rate_limited_key`, with the exception it raises, if any. -/
def handleRateLimitedKey (response : Option Response) (pool : KeyPool) :
    Option PyError × KeyPool :=
  match pool.currentApiKey.filter (· ≠ "") with
  | none => (some (.runtimeError rateLimitedMessage), pool)
  | some apiKey =>
    match getRetryAfterSeconds P response with
    | .error e => (some e, pool)
    | .ok cooldownSeconds =>
      let cooled := setKeyCooldown W apiKey cooldownSeconds pool
      let (rotatedKey, pool) := selectNextApiKey W cfg cooled
      match rotatedKey.filter (· ≠ "") with
      | none => (some (.runtimeError rateLimitedMessage), pool)
      | some _ => (none, pool)

/-! ### Requests -/

/-- `get_instruction`. -/
def getInstruction : String :=
  let language := cfg.targetLanguage.getD "None"
  let instruction :=
    s!"You are an assistant that translates subtitles to {language}.\n" ++
    "    You will receive the following JSON type:\n\n" ++
    "    class SubtitleObject(typing.TypedDict):\n" ++
    "        index: str\n" ++
    "        content: str\n\n" ++
    "    Request: list[SubtitleObject]\n\n" ++
    "    The 'index' key is the index of the subtitle dialog.\n" ++
    "    The 'content' key is the dialog to be translated.\n\n" ++
    "    The indices must remain the same in the response as in the request.\n" ++
    "    Dialogs must be translated as they are without any changes.\n" ++
    "    If a line has a comma or multiple sentences, " ++
    "try to keep one line to about 40-50 characters.\n    "
  if cfg.description ≠ "" then
    instruction ++ "\nAdditional user instruction: '" ++ cfg.description ++ "'"
  else instruction

/-- The batch as it is sent. -/
def batchJson (batch : List SubtitleObject) : Json :=
  .arr (batch.map fun x => .obj [("index", .str x.index), ("content", x.content)])

/-- `_build_generate_payload`. -/
def buildGeneratePayload (batch : List SubtitleObject) : Json :=
  .obj [
    ("system_instruction", .obj [("parts", .arr [.obj [("text", .str (getInstruction cfg))]])]),
    ("contents", .arr [.obj [("role", .str "user"),
      ("parts", .arr [.obj [("text", .str (P.dumps (batchJson batch)))]])]])]

/-- The address of a request. -/
def requestUrl (apiKey : Option String) : String :=
  "https://generativelanguage.googleapis.com/v1beta/models/" ++ cfg.modelName ++
    ":generateContent?key=" ++ apiKey.getD "None"

/-- A request with its reply. -/
structure Exchange where
  /-- The address. -/
  url : String
  /-- The data. -/
  payload : String
  /-- The batch that was sent. -/
  batch : List SubtitleObject
  /-- The reply. -/
  reply : Reply

/-! ### Batches -/

/-- What a run changes. -/
structure State where
  /-- The subtitles: `original_subtitle` and `translated_subtitle` share them. -/
  subtitles : List Subtitle
  /-- `current_progress`. -/
  currentProgress : ℕ
  /-- The keys. -/
  pool : KeyPool
  /-- The requests that were sent, in order. -/
  exchanges : List Exchange
  /-- The batches whose request was accepted, in order. -/
  accepted : List (List SubtitleObject)

/-- The message for an answer of the wrong length. -/
def lengthMessage (returned expected : ℕ) : String :=
  s!"Gemini returned {returned} lines instead of expected {expected} lines"

/-- The request for a batch with its reply. -/
def exchange (batch : List SubtitleObject) (st : State) : Exchange where
  url := requestUrl cfg st.pool.currentApiKey
  payload := P.dumps (buildGeneratePayload P cfg batch)
  batch := batch
  reply := W.reply st.exchanges.length

/-- The request and the body of the `try` block of `_process_batch`, with the exception
it raises, if any.  The lines are applied before their number is checked. -/
def attempt (batch : List SubtitleObject) (st : State) : Option PyError × State :=
  let sent := exchange P W cfg batch st
  let st := { st with exchanges := st.exchanges ++ [sent] }
  match answerLines U P sent.reply with
  | .error e => (some e, st)
  | .ok translatedLines =>
    let (e, subtitles) := processTranslatedLines U P batch translatedLines st.subtitles
    let st := { st with subtitles := subtitles }
    match e with
    | some e => (some e, st)
    | none =>
      let st := { st with currentProgress := st.currentProgress + translatedLines.length }
      if translatedLines.length ≠ batch.length then
        (some (.valueError (lengthMessage translatedLines.length batch.length)), st)
      else (none, { st with accepted := st.accepted ++ [batch] })

/-- The head of the `except` block: whether the request was rate limited, and another key
is at hand. -/
def rotateKey (e : PyError) (st : State) : Except PyError Bool × State :=
  match isRateLimitedResponse U P e.response with
  | .error e => (.error e, st)
  | .ok false => (.ok false, st)
  | .ok true =>
    match handleRateLimitedKey P W cfg e.response st.pool with
    | (some e, pool) => (.error e, { st with pool := pool })
    | (none, pool) => (.ok true, { st with pool := pool })

/-- `retry_num` of a batch and of its halves. -/
def retryNum : ℕ := 3

/-- `_process_batch`: the progress it returns or the exception it raises, the batch it
leaves, and the state it leaves. -/
def processBatch (batch : List SubtitleObject) (retry : ℕ) (st : State) :
    Except PyError ℕ × List SubtitleObject × State :=
  match attempt U P W cfg batch st with
  | (none, st) => (.ok st.currentProgress, [], st)
  | (some e, st) =>
    match rotateKey U P W cfg e st with
    | (.error e, st) => (.error e, batch, st)
    | (.ok limited, st) =>
      if limited ∧ 0 < retry then processBatch batch (retry - 1) st
      else if 1 < batch.length then
        let mid := batch.length / 2
        match processBatch (batch.take mid) retryNum st with
        | (.error e, _, st) => (.error e, batch, st)
        | (.ok _, _, st) =>
          match processBatch (batch.drop mid) retryNum st with
          | (.error e, _, st) => (.error e, batch, st)
          | (.ok _, _, st) => (.ok st.currentProgress, [], st)
      else if 0 < retry then processBatch batch (retry - 1) st
      else (.error e, batch, st)
termination_by (batch.length, retry)
decreasing_by all_goals simp_wf; omega

/-! ### What an attempt and a rotation do -/

/-- What an attempt does: there are no lines, or a line is rejected, or the lines are too
few or too many, or the batch is accepted. -/
theorem attempt_cases (batch : List SubtitleObject) (st : State) :
    (∃ e, answerLines U P (exchange P W cfg batch st).reply = .error e ∧
      attempt U P W cfg batch st =
        (some e, { st with exchanges := st.exchanges ++ [exchange P W cfg batch st] })) ∨
    (∃ lines e subtitles, answerLines U P (exchange P W cfg batch st).reply = .ok lines ∧
      processTranslatedLines U P batch lines st.subtitles = (some e, subtitles) ∧
      attempt U P W cfg batch st = (some e, { st with
        exchanges := st.exchanges ++ [exchange P W cfg batch st]
        subtitles := subtitles })) ∨
    (∃ lines subtitles, answerLines U P (exchange P W cfg batch st).reply = .ok lines ∧
      processTranslatedLines U P batch lines st.subtitles = (none, subtitles) ∧
      lines.length ≠ batch.length ∧
      attempt U P W cfg batch st =
        (some (.valueError (lengthMessage lines.length batch.length)), { st with
          exchanges := st.exchanges ++ [exchange P W cfg batch st]
          subtitles := subtitles
          currentProgress := st.currentProgress + lines.length })) ∨
    (∃ lines subtitles, answerLines U P (exchange P W cfg batch st).reply = .ok lines ∧
      processTranslatedLines U P batch lines st.subtitles = (none, subtitles) ∧
      lines.length = batch.length ∧
      attempt U P W cfg batch st = (none, { st with
        exchanges := st.exchanges ++ [exchange P W cfg batch st]
        subtitles := subtitles
        currentProgress := st.currentProgress + lines.length
        accepted := st.accepted ++ [batch] })) := by
  cases hanswer : answerLines U P (exchange P W cfg batch st).reply with
  | error e => exact Or.inl ⟨e, rfl, by simp only [attempt, hanswer]⟩
  | ok lines =>
    cases hlines : processTranslatedLines U P batch lines st.subtitles with
    | mk e subtitles =>
      cases e with
      | some e =>
        refine Or.inr (Or.inl ⟨lines, e, subtitles, rfl, hlines, ?_⟩)
        simp only [attempt, hanswer, hlines]
      | none =>
        -- every line has been read: the number of lines decides
        by_cases hlength : lines.length = batch.length
        · refine Or.inr (Or.inr (Or.inr ⟨lines, subtitles, rfl, hlines, hlength, ?_⟩))
          simp only [attempt, hanswer, hlines, hlength, ne_eq, not_true_eq_false, if_false]
        · refine Or.inr (Or.inr (Or.inl ⟨lines, subtitles, rfl, hlines, hlength, ?_⟩))
          simp only [attempt, hanswer, hlines, hlength, ne_eq, not_false_eq_true, if_true]

/-- A rotation changes nothing but the keys. -/
theorem rotateKey_state {e : PyError} {st st' : State} {next : Except PyError Bool}
    (h : rotateKey U P W cfg e st = (next, st')) : ∃ pool, st' = { st with pool := pool } := by
  obtain rfl : (rotateKey U P W cfg e st).2 = st' := congrArg Prod.snd h
  unfold rotateKey
  split
  · exact ⟨st.pool, rfl⟩
  · exact ⟨st.pool, rfl⟩
  · split
    · exact ⟨_, rfl⟩
    · exact ⟨_, rfl⟩

/-! ### Batches as runs of split and retry -/

/-- Attempts, and the rotation of keys between them. -/
def translation : SplitRetry SubtitleObject State PyError where
  attempt := attempt U P W cfg
  recover := rotateKey U P W cfg
  retries := retryNum

/-- The exception with which a batch ends, if any. -/
def raised : Except PyError ℕ → Option PyError
  | .ok _ => none
  | .error e => some e

/-- The batch is split where it is not sent again. -/
theorem split_of_not_again {limited : Bool} {retry : ℕ} (h : ¬(limited = true ∧ 0 < retry)) :
    limited = false ∨ retry = 0 := by
  cases limited with
  | false => exact Or.inl rfl
  | true => exact Or.inr (Nat.eq_zero_of_not_pos fun hpos => h ⟨rfl, hpos⟩)

/-- **The code runs split and retry**, and a batch that was done is cleared. -/
theorem processBatch_spec (batch : List SubtitleObject) (retry : ℕ) (st : State) :
    (translation U P W cfg).Run batch retry st (raised (processBatch U P W cfg batch retry st).1)
        (processBatch U P W cfg batch retry st).2.2 ∧
      ∀ p, (processBatch U P W cfg batch retry st).1 = .ok p →
        (processBatch U P W cfg batch retry st).2.1 = [] ∧
          p = (processBatch U P W cfg batch retry st).2.2.currentProgress := by
  -- a case for each way out of the code: accepted, aborted, sent again, split, given up
  fun_induction processBatch U P W cfg batch retry st with
  | case1 batch retry st st₁ hattempt =>
    refine ⟨.accept hattempt, fun p hp => ⟨rfl, ?_⟩⟩
    cases hp
    rfl
  | case2 batch retry st e st₁ hattempt e' st₂ hrotate =>
    exact ⟨.abort hattempt hrotate, by simp⟩
  | case3 batch retry st e st₁ hattempt limited st₂ hrotate hretry ih =>
    refine ⟨?_, ih.2⟩
    rw [← Nat.sub_add_cancel hretry.2]
    exact .again hattempt hrotate (Or.inl hretry.1) ih.1
  | case4 batch retry st e st₁ hattempt limited st₂ hrotate hretry hlen mid e' b st₃ hfirst ih =>
    rw [hfirst] at ih
    exact ⟨.firstFails hattempt hrotate (split_of_not_again hretry) hlen ih.1, by simp⟩
  | case5 batch retry st e st₁ hattempt limited st₂ hrotate hretry hlen mid p b st₃ hfirst e' b'
      st₄ hsecond ih₁ ih₂ =>
    rw [hfirst] at ih₁
    rw [hsecond] at ih₂
    exact ⟨.split hattempt hrotate (split_of_not_again hretry) hlen ih₁.1 ih₂.1, by simp⟩
  | case6 batch retry st e st₁ hattempt limited st₂ hrotate hretry hlen mid p b st₃ hfirst p' b'
      st₄ hsecond ih₁ ih₂ =>
    rw [hfirst] at ih₁
    rw [hsecond] at ih₂
    refine ⟨.split hattempt hrotate (split_of_not_again hretry) hlen ih₁.1 ih₂.1, ?_⟩
    intro p hp
    cases hp
    exact ⟨rfl, rfl⟩
  | case7 batch retry st e st₁ hattempt limited st₂ hrotate hretry hlen hpos ih =>
    refine ⟨?_, ih.2⟩
    rw [← Nat.sub_add_cancel hpos]
    exact .again hattempt hrotate (Or.inr (not_lt.mp hlen)) ih.1
  | case8 batch retry st e st₁ hattempt limited st₂ hrotate hretry hlen hpos =>
    cases Nat.eq_zero_of_not_pos hpos
    exact ⟨.giveUp hattempt hrotate (not_lt.mp hlen), by simp⟩

/-- A batch that was done is cleared, and its progress is returned. -/
theorem processBatch_eq_ok {batch b : List SubtitleObject} {retry p : ℕ} {st st' : State}
    (h : processBatch U P W cfg batch retry st = (.ok p, b, st')) :
    b = [] ∧ p = st'.currentProgress := by
  have hdone := (processBatch_spec U P W cfg batch retry st).2 p
  rw [h] at hdone
  exact hdone rfl

/-! ### The file -/

/-- How `_translate_with_gemini` ends. -/
inductive Outcome where
  /-- It returned before it opened the file, with a message. -/
  | notStarted (message : String)
  /-- It left the loop because nothing was left to do. -/
  | finished (st : State)
  /-- It left the loop because of an interrupt. -/
  | interrupted (st : State)
  /-- It raised an exception. -/
  | failed (e : PyError) (st : State)

/-- The loop of `_translate_with_gemini`, at subtitle `i` with the batch so far; `turn`
counts the readings of the flag. -/
def translateLoop (total : ℕ) (batchSize : ℕ+) (turn i : ℕ) (batch : List SubtitleObject)
    (st : State) : Outcome :=
  if i < total ∨ batch ≠ [] then
    if W.interruptFlag turn then .interrupted st
    else if i < total ∧ batch.length < batchSize then
      match st.subtitles[i]? with
      | none => .failed .indexError st
      | some subtitle =>
        translateLoop total batchSize (turn + 1) (i + 1)
          (batch ++ [⟨toString i, subtitle.content⟩]) st
    else
      match _h : processBatch U P W cfg batch retryNum st with
      | (.ok _, batch, st) => translateLoop total batchSize (turn + 1) i batch st
      | (.error e, _, st) => .failed e st
  else .finished st
termination_by (total - i, batch.length)
decreasing_by
  · left
    omega
  · right
    -- the batch is full, or it holds the rest of the file, and it comes back empty
    rw [(processBatch_eq_ok U P W cfg _h).1, List.length_nil, List.length_pos_iff]
    rintro rfl
    simp_all

/-- The state in which a run over some subtitles starts. -/
def State.initial (originalSubtitle : List Subtitle) (pool : KeyPool) : State where
  subtitles := originalSubtitle
  currentProgress := 0
  pool := pool
  exchanges := []
  accepted := []

/-- `_translate_with_gemini` on the subtitles of the file, up to the writing of the new
file. -/
def translateWithGemini (originalSubtitle : List Subtitle) (pool : KeyPool) : Outcome :=
  if cfg.apiKeys = [] then .notStarted "Please provide at least one valid Gemini API key."
  else if pool.currentApiKey.filter (· ≠ "") = none then .notStarted rateLimitedMessage
  else if cfg.targetLanguage.filter (· ≠ "") = none then
    .notStarted "Please provide a target language."
  else if cfg.inputFile = "" then .notStarted "Please provide a subtitle file."
  else
    let total := originalSubtitle.length
    let i := (cfg.startLine : ℕ) - 1
    let st := State.initial originalSubtitle pool
    match h : originalSubtitle[i]? with
    | none => .failed .indexError st
    | some subtitle =>
      have htotal : 0 < total := by
        have := (List.getElem?_eq_some_iff.mp h).1
        omega
      let batchSize := if total < cfg.batchSize then ⟨total, htotal⟩ else cfg.batchSize
      translateLoop U P W cfg total batchSize 0 (i + 1) [⟨toString i, subtitle.content⟩] st

end

end Bazarr
end MediaHub

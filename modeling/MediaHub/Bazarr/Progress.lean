import MediaHub.Bazarr.Partition
import MediaHub.Bazarr.Requests

/-!
# The progress of a translation

`_process_batch` adds the number of lines of an answer to `current_progress` before it
compares this number with the size of the batch.  So an answer whose lines are all
applied, but which has too few or too many of them, is counted, and then the batch is sent
again and counted again.

## Main definitions

* `Exchange.overcount` — the lines of an answer that were counted although it was refused.
* `Exchange.Miscounted` — an answer with such lines.
* `Tallied` — the progress against what was accepted and what was refused.

## Main results

* `processBatch_progress` — the progress of a batch, exactly.
* `translateWithGemini_progress` — **every subtitle is counted once exactly when no answer
  is miscounted**, for a batch and for the whole run.
-/

namespace MediaHub
namespace Bazarr

variable (U : Unicodedata) (P : Interpreter) (W : World) (cfg : Config)

/-! ### Answers that are applied -/

/-- Whether a content can be written depends on the number of subtitles only. -/
theorem setContent_congr {subtitles subtitles' : List Subtitle} (index : String) (content : Json)
    (hlength : subtitles.length = subtitles'.length) :
    (∃ e, setContent subtitles index content = .error e ∧
      setContent subtitles' index content = .error e) ∨
    (∃ after after', setContent subtitles index content = .ok after ∧
      setContent subtitles' index content = .ok after' ∧
      after.length = subtitles.length ∧ after'.length = subtitles.length) := by
  unfold setContent
  cases parseInt index with
  | none => exact Or.inl ⟨_, rfl, rfl⟩
  | some i =>
    dsimp only
    rw [← hlength]
    by_cases hi : i < subtitles.length
    · rw [if_pos hi, if_pos hi]
      exact Or.inr ⟨_, _, rfl, rfl, List.length_modify .., by rw [List.length_modify, hlength]⟩
    · rw [if_neg hi, if_neg hi]
      exact Or.inl ⟨_, rfl, rfl⟩

/-- So does whether the lines of an answer are applied, which keep that number. -/
theorem processTranslatedLines_congr {batch : List SubtitleObject} (lines : List Json)
    {subtitles subtitles' : List Subtitle} (hlength : subtitles.length = subtitles'.length) :
    (processTranslatedLines U P batch lines subtitles).1 =
        (processTranslatedLines U P batch lines subtitles').1 ∧
      (processTranslatedLines U P batch lines subtitles).2.length = subtitles.length := by
  induction lines generalizing subtitles subtitles' with
  | nil => exact ⟨rfl, rfl⟩
  | cons line lines ih =>
    unfold processTranslatedLines
    cases readLine U P batch line with
    | error e => exact ⟨rfl, rfl⟩
    | ok read =>
      cases read with
      | none => exact ⟨rfl, rfl⟩
      | some read =>
        obtain ⟨index, content⟩ := read
        rcases setContent_congr index content hlength with ⟨e, h, h'⟩ |
          ⟨after, after', h, h', hafter, hafter'⟩
        · simp only [h, h', and_self]
        · simp only [h, h']
          rw [← hafter]
          exact ih (hafter.trans hafter'.symm)

/-- The lines of an answer that were counted although it was refused for their number. -/
def Exchange.overcount (subtitles : List Subtitle) (x : Exchange) : ℕ :=
  match answerLines U P x.reply with
  | .error _ => 0
  | .ok lines =>
    match (processTranslatedLines U P x.batch lines subtitles).1 with
    | some _ => 0
    | none => if lines.length = x.batch.length then 0 else lines.length

/-- The answer has lines, they are all applied, and there are too few or too many. -/
def Exchange.Miscounted (subtitles : List Subtitle) (x : Exchange) : Prop :=
  ∃ lines, answerLines U P x.reply = .ok lines ∧ lines ≠ [] ∧ lines.length ≠ x.batch.length ∧
    (processTranslatedLines U P x.batch lines subtitles).1 = none

theorem Exchange.overcount_of_error {subtitles : List Subtitle} {x : Exchange} {e : PyError}
    (h : answerLines U P x.reply = .error e) : x.overcount U P subtitles = 0 := by
  simp only [Exchange.overcount, h]

theorem Exchange.overcount_of_rejected {subtitles : List Subtitle} {x : Exchange}
    {lines : List Json} {e : PyError} (h : answerLines U P x.reply = .ok lines)
    (hlines : (processTranslatedLines U P x.batch lines subtitles).1 = some e) :
    x.overcount U P subtitles = 0 := by
  simp only [Exchange.overcount, h, hlines]

theorem Exchange.overcount_of_applied {subtitles : List Subtitle} {x : Exchange}
    {lines : List Json} (h : answerLines U P x.reply = .ok lines)
    (hlines : (processTranslatedLines U P x.batch lines subtitles).1 = none) :
    x.overcount U P subtitles = if lines.length = x.batch.length then 0 else lines.length := by
  simp only [Exchange.overcount, h, hlines]

theorem Exchange.overcount_eq_zero_iff (subtitles : List Subtitle) (x : Exchange) :
    x.overcount U P subtitles = 0 ↔ ¬ x.Miscounted U P subtitles := by
  unfold Exchange.overcount Exchange.Miscounted
  cases answerLines U P x.reply with
  | error e => simp
  | ok lines =>
    cases hlines : (processTranslatedLines U P x.batch lines subtitles).1 with
    | some e => simp [hlines]
    | none =>
      by_cases hlength : lines.length = x.batch.length
      · simp [hlines, hlength]
      · simp [hlines, hlength]

/-- No line was counted for a refused answer exactly when none was miscounted. -/
theorem sum_overcount_eq_zero_iff (subtitles : List Subtitle) (exchanges : List Exchange) :
    (exchanges.map (Exchange.overcount U P subtitles)).sum = 0 ↔
      ∀ x ∈ exchanges, ¬ x.Miscounted U P subtitles := by
  rw [List.sum_eq_zero_iff_forall_eq_nat]
  simp only [List.forall_mem_map, Exchange.overcount_eq_zero_iff]

/-! ### One batch -/

/-- The number of subtitles in the accepted batches. -/
def State.acceptedCount (st : State) : ℕ := (st.accepted.map List.length).sum

/-- The lines counted for answers that were refused. -/
def State.overcount (subtitles : List Subtitle) (st : State) : ℕ :=
  (st.exchanges.map (Exchange.overcount U P subtitles)).sum

/-- Since a state, the progress has grown by the accepted subtitles, and by the lines that
were counted though refused. -/
structure Tallied (before st : State) : Prop where
  /-- There are as many subtitles as before. -/
  length : st.subtitles.length = before.subtitles.length
  /-- The progress against the counts. -/
  progress : st.currentProgress +
      (before.acceptedCount + before.overcount U P before.subtitles) =
    before.currentProgress + (st.acceptedCount + st.overcount U P before.subtitles)

/-- An exchange enters the tally with the subtitles that were accepted with it, and with the
lines that were counted though refused. -/
theorem Tallied.entered {before st st' : State} {x : Exchange} {pieces : List (List SubtitleObject)}
    {k : ℕ} (h : Tallied U P before st) (hcount : x.overcount U P before.subtitles = k)
    (hexchanges : st'.exchanges = st.exchanges ++ [x])
    (haccepted : st'.accepted = st.accepted ++ pieces)
    (hprogress : st'.currentProgress = st.currentProgress + ((pieces.map List.length).sum + k)) :
    st'.currentProgress + (before.acceptedCount + before.overcount U P before.subtitles) =
      before.currentProgress + (st'.acceptedCount + st'.overcount U P before.subtitles) := by
  have hbefore := h.progress
  simp only [State.acceptedCount, State.overcount] at hbefore ⊢
  simp only [hexchanges, haccepted, List.map_append, List.sum_append, List.map_cons, List.map_nil,
    List.sum_singleton, hcount]
  omega

/-- **Attempts and rotations keep the tally**. -/
theorem translation_keeps_tallied (before : State) :
    (translation U P W cfg).Keeps (fun _ => True) (Tallied U P before) where
  half _ _ := ⟨trivial, trivial⟩
  attempt {batch st o st'} _ h hst := by
    rcases attempt_cases U P W cfg batch st with ⟨e, hanswer, h'⟩ |
      ⟨lines, e, subtitles, hanswer, hlines, h'⟩ |
      ⟨lines, subtitles, hanswer, hlines, hlength, h'⟩ |
      ⟨lines, subtitles, hanswer, hlines, hlength, h'⟩
    all_goals
      have heq := h'.symm.trans h
      cases heq
    · -- there are no lines
      have hcount := @Exchange.overcount_of_error U P before.subtitles _ _ hanswer
      exact ⟨hst.length, hst.entered U P hcount rfl (List.append_nil _).symm (by simp)⟩
    all_goals
      obtain ⟨hfst, hlen⟩ := @processTranslatedLines_congr U P batch lines _ _ hst.length
      rw [hlines] at hfst hlen
      refine ⟨hlen.trans hst.length, ?_⟩
    · -- a line was rejected
      have hcount := Exchange.overcount_of_rejected U P hanswer hfst.symm
      exact hst.entered U P hcount rfl (List.append_nil _).symm (by simp)
    · -- the number of lines is wrong, and was counted
      have hcount := (Exchange.overcount_of_applied U P hanswer hfst.symm).trans (if_neg hlength)
      exact hst.entered U P hcount rfl (List.append_nil _).symm (by simp)
    · -- the answer was accepted
      have hcount := (Exchange.overcount_of_applied U P hanswer hfst.symm).trans (if_pos hlength)
      exact hst.entered U P hcount rfl rfl (by simp [hlength])
  recover {e st next st'} h hst := by
    obtain ⟨pool, rfl⟩ := rotateKey_state U P W cfg h
    exact ⟨hst.length, hst.progress⟩

/-- A state agrees with itself. -/
theorem Tallied.refl (st : State) : Tallied U P st st := ⟨rfl, rfl⟩

variable {U P W cfg}

/-- The progress of a call that returns: the size of the batch, and the lines counted for
the answers that were refused. -/
theorem processBatch_progress {batch b : List SubtitleObject} {retry p : ℕ} {st st' : State}
    (h : processBatch U P W cfg batch retry st = (.ok p, b, st')) :
    ∃ sent, st'.exchanges = st.exchanges ++ sent ∧
      st'.currentProgress = st.currentProgress + batch.length +
        (sent.map (Exchange.overcount U P st.subtitles)).sum := by
  have hrun := (processBatch_spec U P W cfg batch retry st).1
  rw [h] at hrun
  obtain ⟨pieces, haccepted, hflat, -⟩ := processBatch_divides h
  obtain ⟨sent, hsent⟩ := hrun.passes.logged (translation_logged U P W cfg)
  have hprogress := (hrun.invariant (translation_keeps_tallied U P W cfg st) trivial
    (Tallied.refl U P st)).progress
  have hpieces : (pieces.map List.length).sum = batch.length := by
    rw [← hflat, List.length_flatten]
  refine ⟨sent, hsent.symm, ?_⟩
  rw [State.overcount, State.overcount, ← hsent] at hprogress
  simp only [State.acceptedCount, haccepted, List.map_append, List.sum_append, hpieces]
    at hprogress
  omega

/-- The progress of a batch is its size exactly when no answer was miscounted. -/
theorem processBatch_progress_iff {batch b : List SubtitleObject} {retry p : ℕ} {st st' : State}
    (h : processBatch U P W cfg batch retry st = (.ok p, b, st')) :
    ∃ sent, st'.exchanges = st.exchanges ++ sent ∧
      (st'.currentProgress = st.currentProgress + batch.length ↔
        ∀ x ∈ sent, ¬ x.Miscounted U P st.subtitles) := by
  obtain ⟨sent, hsent, hprogress⟩ := processBatch_progress h
  refine ⟨sent, hsent, ?_⟩
  rw [hprogress, Nat.add_eq_left, sum_overcount_eq_zero_iff]

/-! ### The whole run -/

variable {total n : ℕ} {batchSize : ℕ+} {originalSubtitle : List Subtitle} {pool : KeyPool}
  {head next : Head}

/-- Turns of the loop keep the tally. -/
theorem Tallied.turn {before : State}
    (hturn : translateTurn U P W cfg total batchSize head = .inl next)
    (h : Tallied U P before head.st) : Tallied U P before next.st := by
  rcases translateTurn_goes hturn with ⟨subtitle, -, -, -, rfl⟩ | ⟨p, st, -, hprocess, rfl⟩
  · exact h
  · have hrun := (processBatch_spec U P W cfg head.batch retryNum head.st).1
    rw [hprocess] at hrun
    exact hrun.invariant (translation_keeps_tallied U P W cfg before) trivial h

/-- The accepted subtitles and those of the batch are those that the loop has read. -/
theorem Divided.count {first : ℕ} (h : Divided first total batchSize head) :
    head.st.acceptedCount + head.batch.length = head.i - first := by
  have hlength := congrArg List.length h.indices
  rw [List.length_map, List.length_append, List.length_flatten, List.length_map,
    List.length_range'] at hlength
  exact hlength

/-- What has been accepted, at any moment of a batch, is part of the file. -/
theorem Divided.acceptedCount_le {first retry : ℕ} {m : State}
    (h : Divided first total batchSize head)
    (hm : (translation U P W cfg).Passes head.batch retry head.st m) :
    m.acceptedCount ≤ total := by
  obtain ⟨pieces, haccepted, hpieces⟩ := hm.divides translation_books
  have hlength := hpieces.length_le
  have hcount := h.count
  have htotal := h.le_total
  rw [List.length_flatten] at hlength
  simp only [State.acceptedCount, haccepted, List.map_append, List.sum_append] at hcount ⊢
  omega

/-- From the start of a run, the progress is what was accepted exactly when no answer was
miscounted. -/
theorem Tallied.progress_iff {m : State}
    (h : Tallied U P (.initial originalSubtitle pool) m) :
    m.currentProgress = m.acceptedCount ↔
      ∀ x ∈ m.exchanges, ¬ x.Miscounted U P originalSubtitle := by
  have hprogress : m.currentProgress = m.acceptedCount + m.overcount U P originalSubtitle := by
    simpa [State.initial, State.acceptedCount, State.overcount] using h.progress
  rw [hprogress, Nat.add_eq_left, State.overcount, sum_overcount_eq_zero_iff]

variable (U P W cfg)

/-- **Every subtitle is counted once exactly when no answer is miscounted.**  A call that
returns has then added the size of its batch.  At the head of the loop, and at every moment
of the batch that is sent from there, the progress is then the number of accepted subtitles
and does not exceed the total. -/
theorem translateWithGemini_progress :
    (∀ (batch b : List SubtitleObject) (retry p : ℕ) (st st' : State),
      processBatch U P W cfg batch retry st = (.ok p, b, st') →
        ∃ sent, st'.exchanges = st.exchanges ++ sent ∧
          (st'.currentProgress = st.currentProgress + batch.length ↔
            ∀ x ∈ sent, ¬ x.Miscounted U P st.subtitles)) ∧
    (∀ (originalSubtitle : List Subtitle) (pool : KeyPool) (subtitle : Subtitle)
      (batchSize : ℕ+) (n : ℕ) (head : Head) (m : State),
      originalSubtitle[(cfg.startLine : ℕ) - 1]? = some subtitle →
      translateTurns U P W cfg originalSubtitle.length batchSize n
          (.first cfg originalSubtitle pool subtitle) = .inl head →
      (translation U P W cfg).Passes head.batch retryNum head.st m →
        ((m.currentProgress = m.acceptedCount ∧ m.currentProgress ≤ originalSubtitle.length) ↔
          ∀ x ∈ m.exchanges, ¬ x.Miscounted U P originalSubtitle)) := by
  constructor
  · intro batch b retry p st st' h
    exact processBatch_progress_iff h
  · intro originalSubtitle pool subtitle batchSize n head m hsubtitle hturns hm
    have hdivided := translateTurns_invariant (fun _ _ hturn => Divided.turn hturn) hturns
      (Divided.start hsubtitle)
    -- the tally holds at the head of the loop, and from there to the moment in question
    have htallied := translateTurns_invariant
      (I := fun head => Tallied U P (.initial originalSubtitle pool) head.st)
      (fun _ _ hturn h => h.turn hturn) hturns (Tallied.refl U P _)
    have hmoment := hm.invariant (translation_keeps_tallied U P W cfg _) trivial htallied
    have hle := hdivided.acceptedCount_le hm
    rw [← hmoment.progress_iff]
    constructor
    · exact fun h => h.1
    · intro h
      exact ⟨h, h.trans_le hle⟩

/-- A batch that is accepted at once. -/
theorem processBatch_of_accept {batch : List SubtitleObject} {retry : ℕ} {st st' : State}
    (h : attempt U P W cfg batch st = (none, st')) :
    processBatch U P W cfg batch retry st = (.ok st'.currentProgress, [], st') := by
  rw [processBatch, h]

/-- A batch that is refused, and done in halves. -/
theorem processBatch_of_split {batch b b' : List SubtitleObject} {retry p p' : ℕ} {e : PyError}
    {st st₁ st₂ st₃ st₄ : State} (hattempt : attempt U P W cfg batch st = (some e, st₁))
    (hrotate : rotateKey U P W cfg e st₁ = (.ok false, st₂)) (hlen : 1 < batch.length)
    (hfirst : processBatch U P W cfg (batch.take (batch.length / 2)) retryNum st₂ = (.ok p, b, st₃))
    (hsecond :
      processBatch U P W cfg (batch.drop (batch.length / 2)) retryNum st₃ = (.ok p', b', st₄)) :
    processBatch U P W cfg batch retry st = (.ok st₄.currentProgress, [], st₄) := by
  rw [processBatch, hattempt]
  simp [hrotate, hlen, hfirst, hsecond]

theorem translateWithGemini_progress_bothLines :
    (∃ sent, (afterBoth (reading bothLines bothLinesJson) (alwaysAnswering bothLines)).exchanges =
        [] ++ sent ∧
      ((afterBoth (reading bothLines bothLinesJson) (alwaysAnswering bothLines)).currentProgress =
          0 + 2 ↔
        ∀ x ∈ sent, ¬ x.Miscounted .ascii (reading bothLines bothLinesJson) twoSubtitles)) ∧
    (((0 : ℕ) = 0 ∧ 0 ≤ 2) ↔ ∀ x ∈ ([] : List Exchange),
      ¬ x.Miscounted .ascii (reading bothLines bothLinesJson) twoSubtitles) := by
  have hall := translateWithGemini_progress .ascii (reading bothLines bothLinesJson)
    (alwaysAnswering bothLines) spanish
  constructor
  · apply hall.1 [⟨"0", .str "hello"⟩, ⟨"1", .str "bye"⟩] [] retryNum 2
      (.initial twoSubtitles freshPool)
    exact processBatch_of_accept .ascii _ _ spanish (Prod.ext rfl rfl)
  · exact hall.2 twoSubtitles freshPool ⟨1, 0, 1, .str "hello"⟩ 1 0 _ _ rfl rfl .start

/-! ### A batch that is counted too often -/

/-- The answer for the first subtitle alone. -/
def firstLine : String := "[\x7b\"index\": \"0\", \"content\": \"hola\"\x7d]"

/-- The answer for the second one alone. -/
def secondLine : String := "[\x7b\"index\": \"1\", \"content\": \"adios\"\x7d]"

/-- An interpreter that reads both. -/
def readingEach : Interpreter where
  repr _ := ""
  float _ := none
  dumps _ := ""
  jsonTricksLoads s :=
    if s = firstLine then .ok (.arr [.obj [("index", .str "0"), ("content", .str "hola")]])
    else if s = secondLine then
      .ok (.arr [.obj [("index", .str "1"), ("content", .str "adios")]])
    else .error .decodeError

/-- A server that answers the request for both subtitles with the first one alone, and then
each half in full. -/
def oneByOne : World where
  reply n := .ok (answering (if n < 2 then firstLine else secondLine))
  time _ := 0
  interruptFlag _ := false

/-- The state after the request for both, after that for the first half, and at the end. -/
def afterShort : State :=
  (attempt .ascii readingEach oneByOne spanish [⟨"0", .str "hello"⟩, ⟨"1", .str "bye"⟩]
    (.initial twoSubtitles freshPool)).2

def afterFirstHalf : State :=
  (attempt .ascii readingEach oneByOne spanish [⟨"0", .str "hello"⟩] afterShort).2

def afterSecondHalf : State :=
  (attempt .ascii readingEach oneByOne spanish [⟨"1", .str "bye"⟩] afterFirstHalf).2

/-- **A progress of three for two subtitles**: the first answer has a line too few, which is
counted, and then both halves are. -/
theorem processBatch_countedAgain :
    processBatch .ascii readingEach oneByOne spanish
        [⟨"0", .str "hello"⟩, ⟨"1", .str "bye"⟩] retryNum (.initial twoSubtitles freshPool) =
      (.ok 3, [], afterSecondHalf) ∧
    (State.initial twoSubtitles freshPool).currentProgress = 0 ∧
    afterSecondHalf.currentProgress = 3 ∧ afterSecondHalf.acceptedCount = 2 := by
  refine ⟨?_, rfl, rfl, rfl⟩
  have hshort : attempt .ascii readingEach oneByOne spanish
      [⟨"0", .str "hello"⟩, ⟨"1", .str "bye"⟩] (.initial twoSubtitles freshPool) =
      (some (.valueError (lengthMessage 1 2)), afterShort) := Prod.ext rfl rfl
  have hrotate : rotateKey .ascii readingEach oneByOne spanish
      (.valueError (lengthMessage 1 2)) afterShort = (.ok false, afterShort) := rfl
  have hhello : attempt .ascii readingEach oneByOne spanish [⟨"0", .str "hello"⟩] afterShort =
      (none, afterFirstHalf) := Prod.ext rfl rfl
  have hbye : attempt .ascii readingEach oneByOne spanish [⟨"1", .str "bye"⟩] afterFirstHalf =
      (none, afterSecondHalf) := Prod.ext rfl rfl
  exact processBatch_of_split .ascii readingEach oneByOne spanish hshort hrotate (by decide)
    (processBatch_of_accept _ _ _ _ hhello) (processBatch_of_accept _ _ _ _ hbye)

end Bazarr
end MediaHub

import MediaHub.Bazarr.Complete

/-!
# The loop over the file, and what it accepts

The loop of `_translate_with_gemini` goes on while subtitles are left or its batch is not
empty, and only `_process_batch` empties the batch: of the list itself, also where copied
halves of it did the work.  Here the loop is taken turn by turn.

## Main definitions

* `Head`, `translateTurn` — where the loop stands, and one turn of it.
* `translateTurns` — a number of turns.

## Main results

* `translateLoop_turns` — the loop ends after at most two turns for each subtitle.
* `translateWithGemini_partition` — **the accepted batches divide the file**, from the
  first line to the last, in order.
-/

namespace MediaHub
namespace Bazarr

variable (U : Unicodedata) (P : Interpreter) (W : World) (cfg : Config)

/-! ### Turns -/

/-- Where the loop stands at its head. -/
structure Head where
  /-- How often the flag has been read. -/
  turn : ℕ
  /-- The next subtitle. -/
  i : ℕ
  /-- The batch so far. -/
  batch : List SubtitleObject
  /-- What the run has changed. -/
  st : State

/-- One turn of the loop: where it stands after it, or how the loop ends. -/
def translateTurn (total : ℕ) (batchSize : ℕ+) (head : Head) : Head ⊕ Outcome :=
  if head.i < total ∨ head.batch ≠ [] then
    if W.interruptFlag head.turn then .inr (.interrupted head.st)
    else if head.i < total ∧ head.batch.length < batchSize then
      match head.st.subtitles[head.i]? with
      | none => .inr (.failed .indexError head.st)
      | some subtitle => .inl { head with
          turn := head.turn + 1
          i := head.i + 1
          batch := head.batch ++ [⟨toString head.i, subtitle.content⟩] }
    else
      match processBatch U P W cfg head.batch retryNum head.st with
      | (.ok _, batch, st) => .inl { head with turn := head.turn + 1, batch := batch, st := st }
      | (.error e, _, st) => .inr (.failed e st)
  else .inr (.finished head.st)

/-- A number of turns, or fewer if the loop ends before. -/
def translateTurns (total : ℕ) (batchSize : ℕ+) : ℕ → Head → Head ⊕ Outcome
  | 0, head => .inl head
  | n + 1, head =>
    match translateTurn U P W cfg total batchSize head with
    | .inl next => translateTurns total batchSize n next
    | .inr o => .inr o

variable {U P W cfg} {total n : ℕ} {batchSize : ℕ+} {head next : Head} {o : Outcome}

/-- A turn that goes on: a subtitle is added to the batch, or the batch, which is full or
holds the rest of the file, was done. -/
theorem translateTurn_goes (h : translateTurn U P W cfg total batchSize head = .inl next) :
    (∃ subtitle, head.i < total ∧ head.batch.length < batchSize ∧
      head.st.subtitles[head.i]? = some subtitle ∧
      next = { head with
        turn := head.turn + 1
        i := head.i + 1
        batch := head.batch ++ [⟨toString head.i, subtitle.content⟩] }) ∨
    (∃ p st, head.batch ≠ [] ∧
      processBatch U P W cfg head.batch retryNum head.st = (.ok p, [], st) ∧
      next = { head with turn := head.turn + 1, batch := [], st := st }) := by
  unfold translateTurn at h
  split_ifs at h with hwork hflag hroom
  · split at h
    · cases h
    · next subtitle hsubtitle =>
      cases h
      exact Or.inl ⟨subtitle, hroom.1, hroom.2, hsubtitle, rfl⟩
  · split at h
    · next p batch st hprocess =>
      obtain rfl := (processBatch_eq_ok U P W cfg hprocess).1
      refine Or.inr ⟨p, st, ?_, hprocess, by cases h; rfl⟩
      intro hbatch
      simp_all
    · cases h

/-- How the loop ends: nothing is left to do, or it is interrupted, or a subtitle is not
there, or a batch failed. -/
theorem translateTurn_stops (h : translateTurn U P W cfg total batchSize head = .inr o) :
    (total ≤ head.i ∧ head.batch = [] ∧ o = .finished head.st) ∨ o = .interrupted head.st ∨
    o = .failed .indexError head.st ∨
    (∃ e batch st, head.batch ≠ [] ∧
      processBatch U P W cfg head.batch retryNum head.st = (.error e, batch, st) ∧
      o = .failed e st) := by
  unfold translateTurn at h
  split_ifs at h with hwork hflag hroom
  · cases h
    exact Or.inr (Or.inl rfl)
  · split at h
    · cases h
      exact Or.inr (Or.inr (Or.inl rfl))
    · cases h
  · split at h
    · cases h
    · next e batch st hprocess =>
      refine Or.inr (Or.inr (Or.inr ⟨e, batch, st, ?_, hprocess, by cases h; rfl⟩))
      intro hbatch
      simp_all
  · push Not at hwork
    cases h
    exact Or.inl ⟨hwork.1, hwork.2, rfl⟩

/-- What a turn keeps holds wherever the loop stands. -/
theorem translateTurns_invariant {I : Head → Prop}
    (step : ∀ head next, translateTurn U P W cfg total batchSize head = .inl next → I head → I next)
    (h : translateTurns U P W cfg total batchSize n head = .inl next) (hI : I head) : I next := by
  induction n generalizing head with
  | zero =>
    cases h
    exact hI
  | succ n ih =>
    unfold translateTurns at h
    split at h
    · next head' hturn => exact ih h (step _ _ hturn hI)
    · cases h

/-- The loop ends in a turn from somewhere it has stood. -/
theorem translateTurns_last {I : Head → Prop}
    (step : ∀ head next, translateTurn U P W cfg total batchSize head = .inl next → I head → I next)
    (h : translateTurns U P W cfg total batchSize n head = .inr o) (hI : I head) :
    ∃ last, I last ∧ translateTurn U P W cfg total batchSize last = .inr o := by
  induction n generalizing head with
  | zero => cases h
  | succ n ih =>
    unfold translateTurns at h
    split at h
    · next head' hturn => exact ih h (step _ _ hturn hI)
    · next o' hturn =>
      cases h
      exact ⟨head, hI, hturn⟩

/-- **The loop ends**: two turns for each subtitle that is left are enough, and one more
where the batch has some already. -/
theorem translateLoop_turns (turn i : ℕ) (batch : List SubtitleObject) (st : State) :
    ∃ n ≤ 2 * (total - i) + min 1 batch.length + 1,
      translateTurns U P W cfg total batchSize n ⟨turn, i, batch, st⟩ =
        .inr (translateLoop U P W cfg total batchSize turn i batch st) := by
  fun_induction translateLoop U P W cfg total batchSize turn i batch st with
  | case1 turn i batch st hwork hflag =>
    exact ⟨1, by omega, by simp [translateTurns, translateTurn, hwork, hflag]⟩
  | case2 turn i batch st hwork hflag hroom hsubtitle =>
    exact ⟨1, by omega, by simp [translateTurns, translateTurn, hflag, hroom, hsubtitle]⟩
  | case3 turn i batch st hwork hflag hroom subtitle hsubtitle ih =>
    obtain ⟨n, hn, hturns⟩ := ih
    rw [List.length_append, List.length_singleton] at hn
    refine ⟨n + 1, by omega, ?_⟩
    rw [← hturns]
    simp [translateTurns, translateTurn, hflag, hroom, hsubtitle]
  | case4 turn i batch st hwork hflag hroom p batch' st₁ hprocess ih =>
    obtain rfl := (processBatch_eq_ok U P W cfg hprocess).1
    obtain ⟨n, hn, hturns⟩ := ih
    -- the batch was not empty, and it is now
    have hbatch : batch ≠ [] := by
      intro hbatch
      simp_all
    have hlen := List.length_pos_iff.mpr hbatch
    rw [List.length_nil] at hn
    refine ⟨n + 1, by omega, ?_⟩
    rw [← hturns]
    simp [translateTurns, translateTurn, hwork, hflag, hroom, hprocess]
  | case5 turn i batch st hwork hflag hroom e batch' st₁ hprocess =>
    exact ⟨1, by omega, by simp [translateTurns, translateTurn, hwork, hflag, hroom, hprocess]⟩
  | case6 turn i batch st hwork =>
    exact ⟨1, by omega, by simp [translateTurns, translateTurn, hwork]⟩

/-! ### The start -/

/-- Where the loop stands first, with the first subtitle in its batch. -/
def Head.first (cfg : Config) (originalSubtitle : List Subtitle) (pool : KeyPool)
    (subtitle : Subtitle) : Head where
  turn := 0
  i := cfg.startLine
  batch := [⟨toString ((cfg.startLine : ℕ) - 1), subtitle.content⟩]
  st := .initial originalSubtitle pool

/-- The state that a run leaves. -/
def Outcome.state : Outcome → Option State
  | .notStarted _ => none
  | .finished st => some st
  | .interrupted st => some st
  | .failed _ st => some st

/-- A batch size that is no larger than the file. -/
theorem clamped_eq_min {b : ℕ+} (htotal : 0 < total) :
    ((if total < b then Nat.toPNat total htotal else b : ℕ+) : ℕ) = min (b : ℕ) total := by
  by_cases hsmall : total < b
  · rw [if_pos hsmall]
    exact (min_eq_right hsmall.le).symm
  · rw [if_neg hsmall]
    exact (min_eq_left (not_lt.mp hsmall)).symm

/-- A run that leaves a state did not find the first subtitle, or it is the loop, with
batches that are no larger than the file. -/
theorem translateWithGemini_cases {originalSubtitle : List Subtitle} {pool : KeyPool} {st : State}
    (h : (translateWithGemini U P W cfg originalSubtitle pool).state = some st) :
    (originalSubtitle[(cfg.startLine : ℕ) - 1]? = none ∧
      translateWithGemini U P W cfg originalSubtitle pool =
        .failed .indexError (.initial originalSubtitle pool)) ∨
    (∃ subtitle, ∃ batchSize : ℕ+,
      originalSubtitle[(cfg.startLine : ℕ) - 1]? = some subtitle ∧
      (batchSize : ℕ) = min (cfg.batchSize : ℕ) originalSubtitle.length ∧
      ∃ n ≤ 2 * originalSubtitle.length,
        translateTurns U P W cfg originalSubtitle.length batchSize n
            (.first cfg originalSubtitle pool subtitle) =
          .inr (translateWithGemini U P W cfg originalSubtitle pool)) := by
  have hstart : (cfg.startLine : ℕ) - 1 + 1 = cfg.startLine := Nat.sub_add_cancel cfg.startLine.pos
  unfold translateWithGemini at h ⊢
  -- a check that fails leaves no state
  split_ifs at h ⊢ with hkeys hpool hlanguage hfile
  · cases h
  · cases h
  · cases h
  · cases h
  dsimp only at h ⊢
  split at h
  · next hnone => exact Or.inl ⟨hnone, rfl⟩
  · next subtitle hsubtitle =>
    have hlt := (List.getElem?_eq_some_iff.mp hsubtitle).1
    have hpos := cfg.startLine.pos
    refine Or.inr ⟨subtitle, if originalSubtitle.length < cfg.batchSize then
      Nat.toPNat originalSubtitle.length (Nat.zero_lt_of_lt hlt) else cfg.batchSize,
      hsubtitle, ?_, ?_⟩
    · exact clamped_eq_min (Nat.zero_lt_of_lt hlt)
    · obtain ⟨n, hn, hturns⟩ := translateLoop_turns 0 (cfg.startLine : ℕ)
        [⟨toString ((cfg.startLine : ℕ) - 1), subtitle.content⟩]
        (.initial originalSubtitle pool)
      rw [List.length_singleton] at hn
      rw [hstart]
      exact ⟨n, by omega, hturns⟩

/-! ### The division -/

/-- The accepted batches are entered among the accepted ones, and nothing else is. -/
theorem translation_books : (translation U P W cfg).Books (·.accepted) where
  accept {batch st st'} h := by
    rcases attempt_cases U P W cfg batch st with ⟨e, -, hst⟩ | ⟨lines, e, subtitles, -, -, hst⟩ |
      ⟨lines, subtitles, -, -, -, hst⟩ | ⟨lines, subtitles, -, -, -, hst⟩
    all_goals
      have heq := hst.symm.trans h
      cases heq
    rfl
  fail {batch st e st'} h := by
    rcases attempt_cases U P W cfg batch st with ⟨e, -, hst⟩ | ⟨lines, e, subtitles, -, -, hst⟩ |
      ⟨lines, subtitles, -, -, -, hst⟩ | ⟨lines, subtitles, -, -, -, hst⟩
    all_goals
      have heq := hst.symm.trans h
      cases heq
      try rfl
  recover {e st next st'} h := by
    obtain ⟨pool, rfl⟩ := rotateKey_state U P W cfg h
    rfl

/-- The batch of a call that returns is accepted in pieces, none of them empty. -/
theorem processBatch_divides {batch b : List SubtitleObject} {retry p : ℕ} {st st' : State}
    (h : processBatch U P W cfg batch retry st = (.ok p, b, st')) :
    ∃ pieces, st'.accepted = st.accepted ++ pieces ∧ pieces.flatten = batch ∧
      (batch ≠ [] → ∀ piece ∈ pieces, piece ≠ []) := by
  have hrun := (processBatch_spec U P W cfg batch retry st).1
  rw [h] at hrun
  exact hrun.divides translation_books rfl

/-- The loop has read the subtitles from the first one up to the next: those of the
accepted batches, and then those of its batch. -/
structure Divided (first total batchSize : ℕ) (head : Head) : Prop where
  /-- The next subtitle comes after the first one. -/
  first_le : first ≤ head.i
  /-- Nothing is read beyond the file. -/
  le_total : head.i ≤ total
  /-- Each subtitle has been read once, in order. -/
  indices : (head.st.accepted.flatten ++ head.batch).map (·.index) =
    (List.range' first (head.i - first)).map toString
  /-- The batch is not too large. -/
  batch_le : head.batch.length ≤ batchSize
  /-- No accepted batch is empty, or too large. -/
  accepted : ∀ b ∈ head.st.accepted, b ≠ [] ∧ b.length ≤ batchSize

/-- **A turn keeps the division**. -/
theorem Divided.turn {first : ℕ} (h : translateTurn U P W cfg total batchSize head = .inl next)
    (hdivided : Divided first total batchSize head) : Divided first total batchSize next := by
  have hfirst := hdivided.first_le
  rcases translateTurn_goes h with ⟨subtitle, hi, hlen, -, rfl⟩ | ⟨p, st, hbatch, hprocess, rfl⟩
  · -- the next subtitle joins the batch
    refine ⟨by dsimp only; omega, hi, ?_, ?_, hdivided.accepted⟩
    · have hsub : head.i + 1 - first = head.i - first + 1 := by omega
      dsimp only
      rw [← List.append_assoc, List.map_append, hdivided.indices, hsub, List.range'_concat,
        List.map_append]
      simp [Nat.add_sub_cancel' hfirst]
    · dsimp only
      rw [List.length_append, List.length_singleton]
      exact hlen
  · -- the pieces of the batch join the accepted ones
    obtain ⟨pieces, haccepted, hflat, hne⟩ := processBatch_divides hprocess
    refine ⟨hfirst, hdivided.le_total, ?_, Nat.zero_le _, ?_⟩
    · dsimp only
      rw [List.append_nil, haccepted, List.flatten_append, hflat, hdivided.indices]
    · intro b hb
      dsimp only at hb
      rw [haccepted] at hb
      rcases List.mem_append.mp hb with hb | hb
      · exact hdivided.accepted b hb
      · refine ⟨hne hbatch b hb, le_trans ?_ hdivided.batch_le⟩
        rw [← hflat]
        exact (List.sublist_flatten_of_mem hb).length_le

/-- The loop starts with a division. -/
theorem Divided.start {originalSubtitle : List Subtitle} {pool : KeyPool} {subtitle : Subtitle}
    (hsubtitle : originalSubtitle[(cfg.startLine : ℕ) - 1]? = some subtitle) :
    Divided ((cfg.startLine : ℕ) - 1) originalSubtitle.length batchSize
      (.first cfg originalSubtitle pool subtitle) := by
  have hlt := (List.getElem?_eq_some_iff.mp hsubtitle).1
  have hpos := cfg.startLine.pos
  have hone : (cfg.startLine : ℕ) - ((cfg.startLine : ℕ) - 1) = 1 := by omega
  refine ⟨Nat.sub_le _ _, ?_, ?_, batchSize.pos, by simp [Head.first, State.initial]⟩
  · show (cfg.startLine : ℕ) ≤ originalSubtitle.length
    omega
  · simp [Head.first, State.initial, hone]

/-- **The accepted batches divide the file**: in the order in which they were accepted
they hold the positions from `start_line - 1` to the last one, each once and in order,
none of them is empty or larger than `batch_size`, and the loop has ended after at most
two turns for each subtitle. -/
theorem translateWithGemini_partition {originalSubtitle : List Subtitle} {pool : KeyPool}
    {st : State} (h : translateWithGemini U P W cfg originalSubtitle pool = .finished st) :
    st.accepted.flatten.map (·.index) =
        (List.range' ((cfg.startLine : ℕ) - 1)
          (originalSubtitle.length - ((cfg.startLine : ℕ) - 1))).map toString ∧
      (∀ b ∈ st.accepted, b ≠ [] ∧ b.length ≤ cfg.batchSize) ∧
      ∃ subtitle, ∃ batchSize : ℕ+,
        originalSubtitle[(cfg.startLine : ℕ) - 1]? = some subtitle ∧
        (batchSize : ℕ) = min (cfg.batchSize : ℕ) originalSubtitle.length ∧
        ∃ n ≤ 2 * originalSubtitle.length,
          translateTurns U P W cfg originalSubtitle.length batchSize n
              (.first cfg originalSubtitle pool subtitle) = .inr (.finished st) := by
  have hstate : (translateWithGemini U P W cfg originalSubtitle pool).state = some st := by
    rw [h]
    rfl
  rcases translateWithGemini_cases hstate with ⟨-, hfailed⟩ |
    ⟨subtitle, batchSize, hsubtitle, hsize, n, hn, hturns⟩
  · rw [hfailed] at h
    cases h
  · rw [h] at hturns
    obtain ⟨last, hdivided, hlast⟩ := translateTurns_last
      (fun _ _ hturn => Divided.turn hturn) hturns (Divided.start hsubtitle)
    -- the loop has ended at the total with no batch left, or the run would not be finished
    rcases translateTurn_stops hlast with ⟨htotal, hbatch, hst⟩ | hst | hst |
      ⟨e, batch, st', -, -, hst⟩
    · cases hst
      have hi : last.i = originalSubtitle.length := le_antisymm hdivided.le_total htotal
      have hindices := hdivided.indices
      rw [hbatch, List.append_nil, hi] at hindices
      refine ⟨hindices, ?_, subtitle, batchSize, hsubtitle, hsize, n, hn, hturns⟩
      intro b hb
      obtain ⟨hne, hlen⟩ := hdivided.accepted b hb
      exact ⟨hne, by omega⟩
    all_goals cases hst

theorem translateWithGemini_partition_bothLines :
    (afterBoth (reading bothLines bothLinesJson) (alwaysAnswering bothLines)).accepted.flatten.map
        (·.index) = ["0", "1"] :=
  (@translateWithGemini_partition _ _ _ spanish twoSubtitles freshPool _
    (translateWithGemini_twoSubtitles (P := reading bothLines bothLinesJson)
      (W := alwaysAnswering bothLines) (fun _ => rfl) rfl)).1

end Bazarr
end MediaHub

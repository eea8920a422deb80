import MediaHub.Bazarr.Partition

/-!
# What a response can change

`translated_subtitle` is a shallow copy, so what a response writes shows in the list from
which the next batches are built.  Yet every request carries the original text of its
lines: a response writes only where its own batch has an index, whichever way its batch
ends, and those lines are not read again.

## Main definitions

* `Subtitle.place` — the number and the timing of a subtitle.
* `Confined` — nothing but the contents of a batch has changed, and only it was sent.
* `OriginalLine` — a line of a batch as the file has it.

## Main results

* `processBatch_confined` — **a batch changes only its own contents**, also if it fails.
* `translateWithGemini_originals` — **every request carries the original text**.
-/

namespace MediaHub
namespace Bazarr

variable (U : Unicodedata) (P : Interpreter) (W : World) (cfg : Config)

/-! ### One batch -/

/-- The number and the timing of a subtitle. -/
def Subtitle.place (subtitle : Subtitle) : ℕ × ℚ × ℚ :=
  (subtitle.number, subtitle.start, subtitle.end_)

/-- Writing a content leaves every number and timing. -/
theorem map_place_modify (subtitles : List Subtitle) (i : ℕ) (content : Json) :
    (subtitles.modify i fun subtitle => { subtitle with content := content }).map Subtitle.place =
      subtitles.map Subtitle.place := by
  apply List.ext_getElem?
  intro j
  rw [List.getElem?_map, List.getElem?_map, List.getElem?_modify]
  by_cases hij : i = j
  · cases subtitles[j]? with
    | none => rfl
    | some subtitle => simp [hij, Subtitle.place]
  · simp [hij]

/-- The lines of an answer write the contents of the batch, and nothing else. -/
theorem processTranslatedLines_confined {batch : List SubtitleObject} (hbatch : Numbered batch)
    (lines : List Json) (subtitles : List Subtitle) :
    (processTranslatedLines U P batch lines subtitles).2.map Subtitle.place =
        subtitles.map Subtitle.place ∧
      ∀ j : ℕ, toString j ∉ batch.map (·.index) →
        (processTranslatedLines U P batch lines subtitles).2[j]? = subtitles[j]? := by
  induction lines generalizing subtitles with
  | nil => exact ⟨rfl, fun _ _ => rfl⟩
  | cons line lines ih =>
    unfold processTranslatedLines
    split
    · exact ⟨rfl, fun _ _ => rfl⟩
    · exact ⟨rfl, fun _ _ => rfl⟩
    · next index content hline =>
      -- the line has been read, so its index is one of the batch
      have hindex := (says_of_readLine U P hline).1
      obtain ⟨x, hx, rfl⟩ := List.mem_map.mp hindex
      obtain ⟨i, hi⟩ := hbatch x hx
      rw [hi] at hindex ⊢
      split
      · exact ⟨rfl, fun _ _ => rfl⟩
      · next subtitles' hset =>
        obtain ⟨-, rfl⟩ := setContent_eq_ok hset
        obtain ⟨hplaces, hothers⟩ := ih (subtitles.modify i fun subtitle =>
          { subtitle with content := content })
        refine ⟨by rw [hplaces, map_place_modify], ?_⟩
        intro j hj
        have hij : i ≠ j := by
          rintro rfl
          exact hj hindex
        rw [hothers j hj, List.getElem?_modify_ne _ _ hij]

/-- Since a state nothing has changed but the contents of a batch, and requests were sent
only for parts of it. -/
structure Confined (batch : List SubtitleObject) (before st : State) : Prop where
  /-- Every number and timing is as it was. -/
  places : st.subtitles.map Subtitle.place = before.subtitles.map Subtitle.place
  /-- So is every other content. -/
  others : ∀ j : ℕ, toString j ∉ batch.map (·.index) → st.subtitles[j]? = before.subtitles[j]?
  /-- A request was sent before, or it carries lines of the batch. -/
  sent : ∀ x ∈ st.exchanges, x ∈ before.exchanges ∨
    (x.batch ⊆ batch ∧ x.payload = P.dumps (buildGeneratePayload P cfg x.batch))

/-- What is changed by the lines that a part of the batch was answered with. -/
theorem Confined.lines {batch part : List SubtitleObject} {before st : State}
    (hbatch : Numbered batch) (hpart : part ⊆ batch) (h : Confined P cfg batch before st)
    {lines : List Json} {subtitles : List Subtitle} {e : Option PyError}
    (hlines : processTranslatedLines U P part lines st.subtitles = (e, subtitles)) :
    Confined P cfg batch before { st with subtitles := subtitles } := by
  obtain ⟨hplaces, hothers⟩ :=
    processTranslatedLines_confined U P (hbatch.subset hpart) lines st.subtitles
  rw [hlines] at hplaces hothers
  refine ⟨hplaces.trans h.places, ?_, h.sent⟩
  intro j hj
  have hjpart : toString j ∉ part.map (·.index) := fun hmem => hj (List.map_subset _ hpart hmem)
  exact (hothers j hjpart).trans (h.others j hj)

/-- A request for a part of the batch. -/
theorem Confined.exchange {batch part : List SubtitleObject} {before st : State}
    (hpart : part ⊆ batch) (h : Confined P cfg batch before st) :
    Confined P cfg batch before
      { st with exchanges := st.exchanges ++ [exchange P W cfg part st] } := by
  refine ⟨h.places, h.others, ?_⟩
  intro x hx
  rcases List.mem_append.mp hx with hx | hx
  · exact h.sent x hx
  · obtain rfl := List.mem_singleton.mp hx
    exact Or.inr ⟨hpart, rfl⟩

/-- Attempts at parts of a batch and rotations of the keys are confined to it. -/
theorem translation_keeps_confined {batch : List SubtitleObject} (hbatch : Numbered batch)
    (before : State) :
    (translation U P W cfg).Keeps (· ⊆ batch) (Confined P cfg batch before) where
  half hpart _ :=
    ⟨List.Subset.trans (List.take_subset _ _) hpart, List.Subset.trans (List.drop_subset _ _) hpart⟩
  attempt {part st o st'} hpart h hst := by
    have hsent := hst.exchange P W cfg hpart
    rcases attempt_cases U P W cfg part st with ⟨e, -, h'⟩ | ⟨lines, e, subtitles, -, hlines, h'⟩ |
      ⟨lines, subtitles, -, hlines, -, h'⟩ | ⟨lines, subtitles, -, hlines, -, h'⟩
    all_goals
      have heq := h'.symm.trans h
      cases heq
    · exact hsent
    all_goals
      obtain ⟨hplaces, hothers, hrequests⟩ := hsent.lines U P cfg hbatch hpart hlines
      exact ⟨hplaces, hothers, hrequests⟩
  recover {e st next st'} h hst := by
    obtain ⟨pool, rfl⟩ := rotateKey_state U P W cfg h
    exact ⟨hst.places, hst.others, hst.sent⟩

/-- **A batch changes only its own contents**, whatever is answered and whichever way it
ends: no number or timing changes, no other content does, and only its lines are sent. -/
theorem processBatch_confined {batch : List SubtitleObject} (hbatch : Numbered batch) (retry : ℕ)
    (st : State) :
    Confined P cfg batch st (processBatch U P W cfg batch retry st).2.2 :=
  (processBatch_spec U P W cfg batch retry st).1.invariant
    (translation_keeps_confined U P W cfg hbatch st) (List.Subset.refl batch)
    ⟨rfl, fun _ _ => rfl, fun _ hx => Or.inl hx⟩

/-! ### The whole file -/

/-- A line of a batch is a subtitle before position `i` as the file has it. -/
def OriginalLine (originalSubtitle : List Subtitle) (i : ℕ) (x : SubtitleObject) : Prop :=
  ∃ j < i, ∃ subtitle, originalSubtitle[j]? = some subtitle ∧
    x = ⟨toString j, subtitle.content⟩

theorem OriginalLine.mono {originalSubtitle : List Subtitle} {i i' : ℕ} {x : SubtitleObject}
    (h : OriginalLine originalSubtitle i x) (hi : i ≤ i') :
    OriginalLine originalSubtitle i' x := by
  obtain ⟨j, hj, hx⟩ := h
  exact ⟨j, hj.trans_le hi, hx⟩

/-- The requests carry original lines, in the data that is sent. -/
def OriginalRequests (originalSubtitle : List Subtitle) (st : State) : Prop :=
  ∀ x ∈ st.exchanges, x.payload = P.dumps (buildGeneratePayload P cfg x.batch) ∧
    ∀ y ∈ x.batch, OriginalLine originalSubtitle originalSubtitle.length y

/-- Where the loop stands, what lies ahead is as in the file, and so are the lines of the
batch and of the requests. -/
structure Faithful (originalSubtitle : List Subtitle) (head : Head) : Prop where
  /-- Every number and timing is as in the file. -/
  places : head.st.subtitles.map Subtitle.place = originalSubtitle.map Subtitle.place
  /-- The subtitles from the next one on are as in the file. -/
  ahead : ∀ j, head.i ≤ j → head.st.subtitles[j]? = originalSubtitle[j]?
  /-- The batch has lines of the file. -/
  batch : ∀ x ∈ head.batch, OriginalLine originalSubtitle head.i x
  /-- So have the requests. -/
  sent : OriginalRequests P cfg originalSubtitle head.st

variable {U P W cfg} {total : ℕ} {batchSize : ℕ+} {originalSubtitle : List Subtitle}
  {head next : Head}

/-- The lines of the file have different indices. -/
theorem index_ne_of_le {i j : ℕ} {batch : List SubtitleObject}
    (hbatch : ∀ x ∈ batch, OriginalLine originalSubtitle i x) (hj : i ≤ j) :
    toString j ∉ batch.map (·.index) := by
  intro hmem
  obtain ⟨x, hx, hindex⟩ := List.mem_map.mp hmem
  obtain ⟨k, hk, subtitle, -, rfl⟩ := hbatch x hx
  have hparse := congrArg parseInt hindex
  simp only [parseInt_toString, Option.some.injEq] at hparse
  omega

theorem numbered_of_originalLine {i : ℕ} {batch : List SubtitleObject}
    (hbatch : ∀ x ∈ batch, OriginalLine originalSubtitle i x) : Numbered batch := by
  intro x hx
  obtain ⟨j, -, subtitle, -, rfl⟩ := hbatch x hx
  exact ⟨j, rfl⟩

/-- The lines of a file are among its subtitles. -/
theorem OriginalLine.lt_length {i : ℕ} {x : SubtitleObject}
    (h : OriginalLine originalSubtitle i x) :
    OriginalLine originalSubtitle originalSubtitle.length x := by
  obtain ⟨j, -, subtitle, hsubtitle, hx⟩ := h
  exact ⟨j, (List.getElem?_eq_some_iff.mp hsubtitle).1, subtitle, hsubtitle, hx⟩

/-- Whichever way a batch ends, what lies ahead and what was sent are as in the file. -/
theorem Faithful.processed (h : Faithful P cfg originalSubtitle head) :
    Faithful P cfg originalSubtitle
      { head with
        batch := []
        st := (processBatch U P W cfg head.batch retryNum head.st).2.2 } := by
  have hconfined := processBatch_confined U P W cfg (numbered_of_originalLine h.batch) retryNum
    head.st
  refine ⟨hconfined.places.trans h.places, ?_, by simp, ?_⟩
  · intro j hj
    exact (hconfined.others j (index_ne_of_le h.batch hj)).trans (h.ahead j hj)
  · intro x hx
    rcases hconfined.sent x hx with hbefore | ⟨hpart, hpayload⟩
    · exact h.sent x hbefore
    · exact ⟨hpayload, fun y hy => (h.batch y (hpart hy)).lt_length⟩

/-- **A turn of the loop stays faithful to the file**. -/
theorem Faithful.turn (hturn : translateTurn U P W cfg total batchSize head = .inl next)
    (h : Faithful P cfg originalSubtitle head) : Faithful P cfg originalSubtitle next := by
  rcases translateTurn_goes hturn with ⟨subtitle, -, -, hsubtitle, rfl⟩ |
    ⟨p, st, -, hprocess, rfl⟩
  · refine ⟨h.places, fun j hj => h.ahead j (Nat.le_of_succ_le hj), ?_, h.sent⟩
    intro x hx
    rcases List.mem_append.mp hx with hx | hx
    · exact (h.batch x hx).mono (Nat.le_succ _)
    · -- the next subtitle has not been written to
      rw [h.ahead head.i le_rfl] at hsubtitle
      exact ⟨head.i, Nat.lt_succ_self _, subtitle, hsubtitle, List.mem_singleton.mp hx⟩
  · have hprocessed := h.processed (U := U) (W := W)
    rw [hprocess] at hprocessed
    exact ⟨hprocessed.places, hprocessed.ahead, hprocessed.batch, hprocessed.sent⟩

theorem Faithful.start {pool : KeyPool} {subtitle : Subtitle}
    (hsubtitle : originalSubtitle[(cfg.startLine : ℕ) - 1]? = some subtitle) :
    Faithful P cfg originalSubtitle (.first cfg originalSubtitle pool subtitle) := by
  refine ⟨rfl, fun _ _ => rfl, ?_, by simp [OriginalRequests, Head.first, State.initial]⟩
  intro x hx
  exact ⟨_, Nat.sub_lt cfg.startLine.pos Nat.one_pos, subtitle, hsubtitle, List.mem_singleton.mp hx⟩

/-- What a run leaves, whichever way it ends: the numbers and timings of the file, and
requests that carried its lines. -/
theorem translateWithGemini_faithful {pool : KeyPool} {st : State}
    (h : (translateWithGemini U P W cfg originalSubtitle pool).state = some st) :
    st.subtitles.map Subtitle.place = originalSubtitle.map Subtitle.place ∧
      OriginalRequests P cfg originalSubtitle st := by
  rcases translateWithGemini_cases h with ⟨-, hfailed⟩ |
    ⟨subtitle, batchSize, hsubtitle, -, n, -, hturns⟩
  · rw [hfailed] at h
    cases h
    exact ⟨rfl, by simp [OriginalRequests, State.initial]⟩
  · obtain ⟨last, hlast, hstop⟩ := translateTurns_last
      (fun _ _ hturn => Faithful.turn hturn) hturns (Faithful.start hsubtitle)
    rcases translateTurn_stops hstop with ⟨-, -, ho⟩ | ho | ho | ⟨e, batch, st', -, hprocess, ho⟩
    all_goals
      rw [ho] at h
      cases h
    · exact ⟨hlast.places, hlast.sent⟩
    · exact ⟨hlast.places, hlast.sent⟩
    · exact ⟨hlast.places, hlast.sent⟩
    · have hprocessed := hlast.processed (U := U) (W := W)
      rw [hprocess] at hprocessed
      exact ⟨hprocessed.places, hprocessed.sent⟩

variable (U P W cfg)

/-- **A response touches only its own batch**, and every request carries the original text
of its lines.  Whichever way a batch ends, the subtitles without an index in it are as they
were, and no number or timing changes.  Whichever way a run ends, the data of every request
were built from lines of the file, with the contents they have there. -/
theorem translateWithGemini_originals :
    (∀ (batch : List SubtitleObject) (retry : ℕ) (st : State), Numbered batch →
      (∀ j : ℕ, toString j ∉ batch.map (·.index) →
        (processBatch U P W cfg batch retry st).2.2.subtitles[j]? = st.subtitles[j]?) ∧
      (processBatch U P W cfg batch retry st).2.2.subtitles.map Subtitle.place =
        st.subtitles.map Subtitle.place) ∧
    (∀ (originalSubtitle : List Subtitle) (pool : KeyPool) (st : State),
      (translateWithGemini U P W cfg originalSubtitle pool).state = some st →
        ∀ x ∈ st.exchanges, x.payload = P.dumps (buildGeneratePayload P cfg x.batch) ∧
          ∀ y ∈ x.batch, ∃ (j : ℕ) (subtitle : Subtitle), originalSubtitle[j]? = some subtitle ∧
            y = ⟨toString j, subtitle.content⟩) := by
  constructor
  · intro batch retry st hbatch
    have hconfined := processBatch_confined U P W cfg hbatch retry st
    exact ⟨hconfined.others, hconfined.places⟩
  · intro originalSubtitle pool st h x hx
    obtain ⟨hpayload, hlines⟩ := (translateWithGemini_faithful h).2 x hx
    refine ⟨hpayload, ?_⟩
    intro y hy
    obtain ⟨j, -, hline⟩ := hlines y hy
    exact ⟨j, hline⟩

theorem translateWithGemini_originals_bothLines :
    (processBatch .ascii (reading bothLines bothLinesJson) (alwaysAnswering bothLines) spanish
        [⟨"0", .str "hello"⟩] retryNum (.initial twoSubtitles freshPool)).2.2.subtitles[1]? =
      some ⟨2, 1, 2, .str "bye"⟩ ∧
    ∀ x ∈ (afterBoth (reading bothLines bothLinesJson) (alwaysAnswering bothLines)).exchanges,
      ∀ y ∈ x.batch, ∃ (j : ℕ) (subtitle : Subtitle), twoSubtitles[j]? = some subtitle ∧
        y = ⟨toString j, subtitle.content⟩ := by
  have hall := translateWithGemini_originals .ascii (reading bothLines bothLinesJson)
    (alwaysAnswering bothLines) spanish
  constructor
  · refine (hall.1 [⟨"0", .str "hello"⟩] retryNum (.initial twoSubtitles freshPool) ?_).1 1 ?_
    · intro x hx
      exact ⟨0, by rw [List.mem_singleton.mp hx]; rfl⟩
    · decide
  · intro x hx
    refine (hall.2 twoSubtitles freshPool _ ?_ x hx).2
    rw [translateWithGemini_twoSubtitles (fun _ => rfl) rfl]
    rfl

end Bazarr
end MediaHub

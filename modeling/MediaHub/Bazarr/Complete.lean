import MediaHub.Bazarr.GeminiTranslator
import Mathlib.Data.List.Perm.Subperm
import Mathlib.Data.List.Nodup

/-!
# Completeness of a translation

A batch counts as done when the answer has as many lines as the batch.  The lines are
applied one by one until one of them lacks a field, and an index can be repeated, so a
batch can be done although a subtitle of it was left as it was.

## Main definitions

* `Says`, `Returned` — what a line, and what a reply, says for an index.
* `Translated` — a subtitle holds what some reply said for its own index.
* `LosslessLines`, `Exchange.Lossless` — no line is wasted, unless the code rejects one.

## Main results

* `processTranslatedLines_getElem?` — what the lines of an answer can do to a subtitle.
* `losslessLines_iff_covers` — an accepted answer covers its batch **exactly when** it is
  lossless.
* `translateWithGemini_complete` — **a run that ends without an interrupt has translated
  every subtitle** if every answer was lossless.
-/

namespace MediaHub
namespace Bazarr

section

variable (U : Unicodedata) (P : Interpreter) (W : World) (cfg : Config)

/-! ### What is asked for -/

/-- The line says that a content, marked where it runs from right to left, belongs to an
index. -/
def Says (line : Json) (index : String) (content : Json) : Prop :=
  getItem "index" line = .ok (.str index) ∧
    ∃ c, getItem "content" line = .ok c ∧ withMarks U P c = .ok content

/-- A line of the reply says so. -/
def Returned (reply : Reply) (index : String) (content : Json) : Prop :=
  ∃ lines, answerLines U P reply = .ok lines ∧ ∃ line ∈ lines, Says U P line index content

/-- A subtitle holds a content that some reply returned for its own index. -/
def Translated (st : State) (i : ℕ) : Prop :=
  ∃ subtitle, st.subtitles[i]? = some subtitle ∧
    ∃ x ∈ st.exchanges, Returned U P x.reply (toString i) subtitle.content

/-- Up to the first line that the code rejects, no line lacks a field, and none repeats an
index that was `seen`. -/
def LosslessLines (batch : List SubtitleObject) : List String → List Json → Prop
  | _, [] => True
  | seen, line :: lines =>
    match readLine U P batch line with
    | .error _ => True
    | .ok none => False
    | .ok (some (index, _)) => index ∉ seen ∧ LosslessLines batch (index :: seen) lines

/-- The answer, if it has as many lines as the batch, wastes none of them. -/
def Exchange.Lossless (x : Exchange) : Prop :=
  ∀ lines, answerLines U P x.reply = .ok lines → lines.length = x.batch.length →
    LosslessLines U P x.batch [] lines

/-! ### The lines of an answer -/

/-- The indices of a batch are positions. -/
def Numbered (batch : List SubtitleObject) : Prop := ∀ x ∈ batch, ∃ i : ℕ, x.index = toString i

theorem Numbered.subset {batch batch' : List SubtitleObject} (h : Numbered batch)
    (hsub : batch' ⊆ batch) : Numbered batch' := fun x hx => h x (hsub hx)

/-- A computation succeeds when its parts do. -/
theorem bind_eq_ok {ε : Type*} {α β : Type} {x : Except ε α} {f : α → Except ε β} {b : β} :
    (x >>= f) = .ok b ↔ ∃ a, x = .ok a ∧ f a = .ok b := by
  cases x with
  | error e => simp [bind, Except.bind]
  | ok a => simp [bind, Except.bind]

/-- A line that is read belongs to the batch. -/
theorem says_of_readLine {batch : List SubtitleObject} {line content : Json} {index : String}
    (h : readLine U P batch line = .ok (some (index, content))) :
    index ∈ batch.map (·.index) ∧ Says U P line index content := by
  unfold readLine at h
  obtain ⟨hasContent, -, h⟩ := bind_eq_ok.mp h
  cases hasContent with
  | false => cases h
  | true =>
    obtain ⟨hasIndex, -, h⟩ := bind_eq_ok.mp h
    cases hasIndex with
    | false => cases h
    | true =>
      obtain ⟨value, hvalue, h⟩ := bind_eq_ok.mp h
      split at h
      · next s =>
        by_cases hs : s ∈ batch.map (·.index)
        · rw [if_pos hs] at h
          obtain ⟨c, hc, h⟩ := bind_eq_ok.mp h
          obtain ⟨marked, hmarked, h⟩ := bind_eq_ok.mp h
          cases h
          exact ⟨hs, hvalue, c, hc, hmarked⟩
        · rw [if_neg hs] at h
          cases h
      · cases h

/-- Writing a content moves nothing and touches one subtitle. -/
theorem setContent_eq_ok {subtitles subtitles' : List Subtitle} {i : ℕ} {content : Json}
    (h : setContent subtitles (toString i) content = .ok subtitles') :
    i < subtitles.length ∧
      subtitles' = subtitles.modify i fun subtitle => { subtitle with content := content } := by
  unfold setContent at h
  rw [parseInt_toString] at h
  by_cases hi : i < subtitles.length
  · simp only [if_pos hi] at h
    cases h
    exact ⟨hi, rfl⟩
  · simp only [if_neg hi] at h
    cases h

/-- A subtitle has what one of the lines says for it. -/
def SaidBy (lines : List Json) (subtitles : List Subtitle) (i : ℕ) : Prop :=
  ∃ subtitle, subtitles[i]? = some subtitle ∧
    ∃ line ∈ lines, Says U P line (toString i) subtitle.content

theorem SaidBy.cons {line : Json} {lines : List Json} {subtitles : List Subtitle} {i : ℕ}
    (h : SaidBy U P lines subtitles i) : SaidBy U P (line :: lines) subtitles i := by
  obtain ⟨subtitle, hsubtitle, line', hline', hsaid⟩ := h
  exact ⟨subtitle, hsubtitle, line', List.mem_cons_of_mem line hline', hsaid⟩

/-- A line writes to a subtitle, and later lines may write to it again. -/
theorem saidBy_of_modify {line content : Json} {lines : List Json}
    {subtitles after : List Subtitle} {i : ℕ} (hsaid : Says U P line (toString i) content)
    (hlt : i < subtitles.length)
    (h : after[i]? = (subtitles.modify i fun subtitle => { subtitle with content := content })[i]? ∨
      SaidBy U P lines after i) : SaidBy U P (line :: lines) after i := by
  rcases h with hsame | hlater
  · refine ⟨{ subtitles[i] with content := content }, ?_, line, by simp, hsaid⟩
    rw [hsame]
    simp [hlt]
  · exact hlater.cons

/-- What the lines can do to a subtitle: it is as before, or it has what a line says for
it. -/
theorem processTranslatedLines_getElem? {batch : List SubtitleObject} (hbatch : Numbered batch)
    (lines : List Json) (subtitles : List Subtitle) (i : ℕ) :
    (processTranslatedLines U P batch lines subtitles).2[i]? = subtitles[i]? ∨
      SaidBy U P lines (processTranslatedLines U P batch lines subtitles).2 i := by
  induction lines generalizing subtitles with
  | nil => exact Or.inl rfl
  | cons line lines ih =>
    unfold processTranslatedLines
    split
    · exact Or.inl rfl
    · exact Or.inl rfl
    · next index content hline =>
      obtain ⟨hindex, hsaid⟩ := says_of_readLine U P hline
      obtain ⟨x, hx, rfl⟩ := List.mem_map.mp hindex
      obtain ⟨j, hj⟩ := hbatch x hx
      rw [hj] at hsaid ⊢
      split
      · exact Or.inl rfl
      · next subtitles' hset =>
        obtain ⟨hlt, rfl⟩ := setContent_eq_ok hset
        have hrest := ih (subtitles.modify j fun subtitle => { subtitle with content := content })
        by_cases hij : i = j
        · subst hij
          exact Or.inr (saidBy_of_modify U P hsaid hlt hrest)
        · rw [List.getElem?_modify_ne _ _ (Ne.symm hij)] at hrest
          exact hrest.imp_right (·.cons)

/-- The index of a line that is read. -/
def readIndex (batch : List SubtitleObject) (line : Json) : Option String :=
  match readLine U P batch line with
  | .ok (some (index, _)) => some index
  | _ => none

/-- Where no line is rejected, lossless lines are those that are all read, with different
indices. -/
theorem losslessLines_iff {batch : List SubtitleObject} {lines : List Json}
    {subtitles : List Subtitle} {seen : List String}
    (hnone : (processTranslatedLines U P batch lines subtitles).1 = none) :
    LosslessLines U P batch seen lines ↔
      (∀ line ∈ lines, (readIndex U P batch line).isSome) ∧
        (lines.filterMap (readIndex U P batch)).Nodup ∧
        ∀ index ∈ lines.filterMap (readIndex U P batch), index ∉ seen := by
  induction lines generalizing subtitles seen with
  | nil => simp [LosslessLines]
  | cons line lines ih =>
    unfold processTranslatedLines at hnone
    unfold LosslessLines
    cases hline : readLine U P batch line with
    | error e => simp [hline] at hnone
    | ok read =>
      cases read with
      | none => simp [readIndex, hline]
      | some read =>
        obtain ⟨index, content⟩ := read
        have hindex : readIndex U P batch line = some index := by simp only [readIndex, hline]
        simp only [hline] at hnone
        cases hset : setContent subtitles index content with
        | error e => simp [hset] at hnone
        | ok subtitles' =>
          simp only [hset] at hnone
          -- the head is new if and only if no later line repeats it
          show index ∉ seen ∧ LosslessLines U P batch (index :: seen) lines ↔ _
          rw [ih hnone, List.filterMap_cons_some hindex, List.nodup_cons, List.forall_mem_cons,
            List.forall_mem_cons, hindex]
          constructor
          · rintro ⟨hhead, hread, hnodup, hseen⟩
            refine ⟨⟨rfl, hread⟩, ⟨fun h => hseen index h (by simp), hnodup⟩, hhead, ?_⟩
            exact fun x hx h => hseen x hx (List.mem_cons_of_mem _ h)
          · rintro ⟨⟨-, hread⟩, ⟨hfresh, hnodup⟩, hhead, hseen⟩
            refine ⟨hhead, hread, hnodup, ?_⟩
            intro x hx h
            rcases List.mem_cons.mp h with rfl | h
            · exact hfresh hx
            · exact hseen x hx h

/-- Where every line is read and applied, the subtitle of each of them is done. -/
theorem done_of_readIndex {batch : List SubtitleObject} (hbatch : Numbered batch)
    {lines : List Json} {subtitles : List Subtitle}
    (hnone : (processTranslatedLines U P batch lines subtitles).1 = none)
    (hread : ∀ line ∈ lines, (readIndex U P batch line).isSome) {i : ℕ}
    (hi : toString i ∈ lines.filterMap (readIndex U P batch)) :
    SaidBy U P lines (processTranslatedLines U P batch lines subtitles).2 i := by
  induction lines generalizing subtitles with
  | nil => simp at hi
  | cons line lines ih =>
    unfold processTranslatedLines at hnone ⊢
    cases hline : readLine U P batch line with
    | error e => simp [hline] at hnone
    | ok read =>
      cases read with
      | none =>
        have := hread line (by simp)
        simp [readIndex, hline] at this
      | some read =>
        obtain ⟨index, content⟩ := read
        have hindex : readIndex U P batch line = some index := by simp only [readIndex, hline]
        obtain ⟨hmem, hsaid⟩ := says_of_readLine U P hline
        simp only [hline] at hnone ⊢
        cases hset : setContent subtitles index content with
        | error e => simp [hset] at hnone
        | ok subtitles' =>
          simp only [hset] at hnone ⊢
          rw [List.filterMap_cons_some hindex] at hi
          -- the line that says `i` is the head, or a later one
          rcases List.mem_cons.mp hi with rfl | htail
          · obtain ⟨hlt, rfl⟩ := setContent_eq_ok hset
            exact saidBy_of_modify U P hsaid hlt
              (processTranslatedLines_getElem? U P hbatch lines _ i)
          · exact (ih hnone (fun line h => hread line (List.mem_cons_of_mem _ h)) htail).cons

/-- The indices that are read belong to the batch. -/
theorem filterMap_readIndex_subset (batch : List SubtitleObject) (lines : List Json) :
    lines.filterMap (readIndex U P batch) ⊆ batch.map (·.index) := by
  intro index hindex
  obtain ⟨line, -, hline⟩ := List.mem_filterMap.mp hindex
  unfold readIndex at hline
  split at hline
  · next content hread =>
    cases hline
    exact (says_of_readLine U P hread).1
  · cases hline

/-- Lossless lines, as many as the batch has subtitles, are read for all of them. -/
theorem LosslessLines.subset {batch : List SubtitleObject} {lines : List Json}
    {subtitles : List Subtitle} (hlossless : LosslessLines U P batch [] lines)
    (hnone : (processTranslatedLines U P batch lines subtitles).1 = none)
    (hlength : lines.length = batch.length) :
    batch.map (·.index) ⊆ lines.filterMap (readIndex U P batch) := by
  obtain ⟨hread, hnodup, -⟩ := (losslessLines_iff U P hnone).mp hlossless
  have hlen : (lines.filterMap (readIndex U P batch)).length = lines.length :=
    List.filterMap_length_eq_length.mpr hread
  have hsub := List.subperm_of_subset hnodup (filterMap_readIndex_subset U P batch lines)
  exact (hsub.perm_of_length_le (by simp [hlen, hlength])).symm.subset

/-- **An accepted answer covers its batch exactly when it is lossless.** -/
theorem losslessLines_iff_covers {batch : List SubtitleObject} {lines : List Json}
    {subtitles : List Subtitle} (hbatch : (batch.map (·.index)).Nodup)
    (hnone : (processTranslatedLines U P batch lines subtitles).1 = none)
    (hlength : lines.length = batch.length) :
    LosslessLines U P batch [] lines ↔
      batch.map (·.index) ⊆ lines.filterMap (readIndex U P batch) := by
  constructor
  · exact fun h => h.subset U P hnone hlength
  · intro hcovers
    have hle := List.length_filterMap_le (readIndex U P batch) lines
    have hperm := (List.subperm_of_subset hbatch hcovers).perm_of_length_le
      (by simpa [hlength] using hle)
    rw [losslessLines_iff U P hnone]
    refine ⟨?_, hperm.nodup_iff.mp hbatch, by simp⟩
    apply List.filterMap_length_eq_length.mp
    rw [← hperm.length_eq, List.length_map, hlength]

/-! ### Attempts, rotations and batches -/

/-- What never gets lost: the requests that were sent, and what was translated. -/
structure Evolves (st st' : State) : Prop where
  /-- Requests are only added. -/
  sent : st.exchanges <+: st'.exchanges
  /-- A translated subtitle stays translated. -/
  kept {i : ℕ} : Translated U P st i → Translated U P st' i

theorem Evolves.trans {st₁ st₂ st₃ : State} (h : Evolves U P st₁ st₂) (h' : Evolves U P st₂ st₃) :
    Evolves U P st₁ st₃ := ⟨h.sent.trans h'.sent, h'.kept ∘ h.kept⟩

/-- The batch was done: if every answer so far was lossless, its subtitles are
translated. -/
def Done (batch : List SubtitleObject) (st st' : State) : Prop :=
  Evolves U P st st' ∧ ((∀ x ∈ st'.exchanges, x.Lossless U P) →
    ∀ i : ℕ, toString i ∈ batch.map (·.index) → Translated U P st' i)

/-- What a line of a reply says for a subtitle makes it translated. -/
theorem translated_of_saidBy {st : State} {x : Exchange} {lines : List Json} {i : ℕ}
    (hx : x ∈ st.exchanges) (hlines : answerLines U P x.reply = .ok lines)
    (h : SaidBy U P lines st.subtitles i) : Translated U P st i := by
  obtain ⟨subtitle, hsubtitle, line, hline, hsaid⟩ := h
  exact ⟨subtitle, hsubtitle, x, hx, lines, hlines, line, hline, hsaid⟩

/-- A request that changes no subtitle. -/
theorem evolves_of_sent {st st' : State} {x : Exchange}
    (hexchanges : st'.exchanges = st.exchanges ++ [x]) (hsubtitles : st'.subtitles = st.subtitles) :
    Evolves U P st st' := by
  refine ⟨⟨[x], hexchanges.symm⟩, ?_⟩
  rintro i ⟨subtitle, hsubtitle, y, hy, hreturned⟩
  refine ⟨subtitle, hsubtitles ▸ hsubtitle, y, ?_, hreturned⟩
  rw [hexchanges]
  exact List.mem_append_left _ hy

/-- A request whose lines are applied, to whatever point. -/
theorem evolves_of_lines {st st' : State} {x : Exchange} {batch : List SubtitleObject}
    {lines : List Json} (hbatch : Numbered batch) (hlines : answerLines U P x.reply = .ok lines)
    (hexchanges : st'.exchanges = st.exchanges ++ [x])
    (hsubtitles : st'.subtitles = (processTranslatedLines U P batch lines st.subtitles).2) :
    Evolves U P st st' := by
  refine ⟨⟨[x], hexchanges.symm⟩, ?_⟩
  rintro i ⟨subtitle, hsubtitle, y, hy, hreturned⟩
  rcases processTranslatedLines_getElem? U P hbatch lines st.subtitles i with hsame | hsaid
  · refine ⟨subtitle, ?_, y, ?_, hreturned⟩
    · rw [hsubtitles, hsame, hsubtitle]
    · rw [hexchanges]
      exact List.mem_append_left _ hy
  · apply translated_of_saidBy U P (x := x) _ hlines
    · rw [hsubtitles]
      exact hsaid
    · simp [hexchanges]

/-- An attempt loses nothing. -/
theorem attempt_evolves {batch : List SubtitleObject} (hbatch : Numbered batch) (st : State) :
    Evolves U P st (attempt U P W cfg batch st).2 := by
  rcases attempt_cases U P W cfg batch st with ⟨e, -, h⟩ | ⟨lines, e, subtitles, hlines, hread, h⟩ |
    ⟨lines, subtitles, hlines, hread, -, h⟩ | ⟨lines, subtitles, hlines, hread, -, h⟩ <;> rw [h]
  · exact evolves_of_sent U P rfl rfl
  all_goals exact evolves_of_lines U P hbatch hlines rfl (by rw [hread])

/-- An attempt that is accepted does its batch. -/
theorem attempt_done {batch : List SubtitleObject} (hbatch : Numbered batch) {st st' : State}
    (h : attempt U P W cfg batch st = (none, st')) : Done U P batch st st' := by
  have hevolves := attempt_evolves U P W cfg hbatch st
  rw [h] at hevolves
  refine ⟨hevolves, ?_⟩
  intro hlossless i hi
  rcases attempt_cases U P W cfg batch st with ⟨e, -, h'⟩ | ⟨lines, e, subtitles, -, -, h'⟩ |
    ⟨lines, subtitles, -, -, -, h'⟩ | ⟨lines, subtitles, hlines, hread, hlength, h'⟩ <;>
    rw [h] at h' <;> cases h'
  have hnone : (processTranslatedLines U P batch lines st.subtitles).1 = none := by rw [hread]
  have hread' := hlossless (exchange P W cfg batch st) (by simp) lines hlines hlength
  have hindex := hread'.subset U P hnone hlength hi
  have hall := ((losslessLines_iff U P hnone).mp hread').1
  have hdone := done_of_readIndex U P hbatch hnone hall hindex
  rw [hread] at hdone
  exact translated_of_saidBy U P (by simp) hlines hdone

/-- A rotation of keys loses nothing. -/
theorem rotateKey_evolves {e : PyError} {st st' : State} {next : Except PyError Bool}
    (h : rotateKey U P W cfg e st = (next, st')) : Evolves U P st st' := by
  obtain ⟨pool, rfl⟩ := rotateKey_state U P W cfg h
  exact ⟨List.prefix_refl _, id⟩

/-- The rules of split and retry, for what never gets lost and what was done. -/
theorem translation_rules :
    (translation U P W cfg).Rules Numbered (Evolves U P) (Done U P) where
  half hbatch _ := ⟨hbatch.subset (List.take_subset _ _), hbatch.subset (List.drop_subset _ _)⟩
  trans h h' := h.trans U P h'
  fail {b s e s'} hbatch h := by
    have hevolves := attempt_evolves U P W cfg hbatch s
    rwa [show attempt U P W cfg b s = (some e, s') from h] at hevolves
  recover h := rotateKey_evolves U P W cfg h
  respects h := h.1
  accept hbatch h := attempt_done U P W cfg hbatch h
  after h h' := ⟨h.trans U P h'.1, h'.2⟩
  halves {b s₁ s₂ s₃} _ _ h h' := by
    refine ⟨h.1.trans U P h'.1, ?_⟩
    intro hlossless i hi
    rw [← List.take_append_drop (b.length / 2) b, List.map_append] at hi
    rcases List.mem_append.mp hi with hfirst | hsecond
    · exact h'.1.kept (h.2 (fun x hx => hlossless x (h'.1.sent.subset hx)) i hfirst)
    · exact h'.2 hlossless i hsecond

/-- Whatever becomes of a batch, nothing that was translated is lost. -/
theorem processBatch_evolves {batch : List SubtitleObject} (hbatch : Numbered batch) (retry : ℕ)
    (st : State) : Evolves U P st (processBatch U P W cfg batch retry st).2.2 :=
  (processBatch_spec U P W cfg batch retry st).1.related (translation_rules U P W cfg) hbatch

/-- A batch that was done, at any depth of retries and halves. -/
theorem processBatch_done {batch b : List SubtitleObject} (hbatch : Numbered batch)
    {retry p : ℕ} {st st' : State}
    (h : processBatch U P W cfg batch retry st = (.ok p, b, st')) : Done U P batch st st' := by
  have hrun := (processBatch_spec U P W cfg batch retry st).1
  rw [h] at hrun
  exact hrun.done (translation_rules U P W cfg) hbatch

/-! ### The whole file -/

/-- From the first subtitle on, every subtitle before `i` is in the batch, or it is
translated if every answer so far was lossless. -/
def Covered (first i : ℕ) (batch : List SubtitleObject) (st : State) : Prop :=
  ∀ j, first ≤ j → j < i → toString j ∈ batch.map (·.index) ∨
    ((∀ x ∈ st.exchanges, x.Lossless U P) → Translated U P st j)

/-- **The loop keeps every subtitle covered** until none is left. -/
theorem translateLoop_translated {total first : ℕ} {batchSize : ℕ+} {turn i : ℕ}
    {batch : List SubtitleObject} {st st' : State} (hbatch : Numbered batch)
    (hcovered : Covered U P first i batch st)
    (h : translateLoop U P W cfg total batchSize turn i batch st = .finished st')
    (hlossless : ∀ x ∈ st'.exchanges, x.Lossless U P) :
    ∀ j, first ≤ j → j < total → Translated U P st' j := by
  fun_induction translateLoop U P W cfg total batchSize turn i batch st with
  | case1 => cases h
  | case2 => cases h
  | case3 turn i batch st hwork hflag hroom subtitle hsubtitle ih =>
    -- a subtitle is added to the batch
    refine ih ?_ ?_ h
    · intro x hx
      rcases List.mem_append.mp hx with hx | hx
      · exact hbatch x hx
      · exact ⟨i, by rw [List.mem_singleton.mp hx]⟩
    · intro j hfirst hj
      rw [List.map_append]
      rcases Nat.lt_succ_iff_lt_or_eq.mp hj with hj | rfl
      · rcases hcovered j hfirst hj with hmem | hdone
        · exact Or.inl (List.mem_append_left _ hmem)
        · exact Or.inr hdone
      · exact Or.inl (by simp)
  | case4 turn i batch st hwork hflag hroom p batch' st₁ hprocess ih =>
    -- the batch is sent, and is empty after that
    obtain rfl := (processBatch_eq_ok U P W cfg hprocess).1
    obtain ⟨hevolves, hdone⟩ := processBatch_done U P W cfg hbatch hprocess
    refine ih (by simp [Numbered]) ?_ h
    intro j hfirst hj
    refine Or.inr ?_
    intro hall
    rcases hcovered j hfirst hj with hmem | hbefore
    · exact hdone hall j hmem
    · exact hevolves.kept (hbefore fun x hx => hall x (hevolves.sent.subset hx))
  | case5 => cases h
  | case6 turn i batch st hwork =>
    cases h
    intro j hfirst hj
    push Not at hwork
    rcases hcovered j hfirst (lt_of_lt_of_le hj hwork.1) with hmem | hdone
    · simp [hwork.2] at hmem
    · exact hdone hlossless

/-- **A translation that completes is complete** if every answer was lossless. -/
theorem translateWithGemini_complete {originalSubtitle : List Subtitle} {pool : KeyPool}
    {st : State} (h : translateWithGemini U P W cfg originalSubtitle pool = .finished st)
    (hlossless : ∀ x ∈ st.exchanges, x.Lossless U P) {i : ℕ}
    (hfirst : (cfg.startLine : ℕ) - 1 ≤ i) (hi : i < originalSubtitle.length) :
    Translated U P st i := by
  unfold translateWithGemini at h
  split_ifs at h
  dsimp only at h
  split at h
  · cases h
  · next subtitle _ =>
    refine translateLoop_translated U P W cfg ?_ ?_ h hlossless i hfirst hi
    · intro x hx
      exact ⟨_, by rw [List.mem_singleton.mp hx]⟩
    · intro j hj hlt
      obtain rfl : j = (cfg.startLine : ℕ) - 1 := by omega
      exact Or.inl (by simp)

/-- The last batch, if it is accepted at once, ends the run. -/
theorem translateLoop_of_accept {total turn : ℕ} {batchSize : ℕ+} {batch : List SubtitleObject}
    {st st' : State} (hbatch : batch ≠ []) (hflag : W.interruptFlag turn = false)
    (h : attempt U P W cfg batch st = (none, st')) :
    translateLoop U P W cfg total batchSize turn total batch st = .finished st' := by
  have hprocess :
      processBatch U P W cfg batch retryNum st = (.ok st'.currentProgress, [], st') := by
    rw [processBatch, h]
  rw [translateLoop, if_pos (Or.inr hbatch), hflag, if_neg (by simp), if_neg (by simp)]
  split
  · next h' =>
    rw [hprocess] at h'
    cases h'
    rw [translateLoop, if_neg (by simp)]
  · next h' =>
    rw [hprocess] at h'
    cases h'

end

/-! ### Two runs -/

/-- A response with a text of the model. -/
def answering (text : String) : Response where
  statusCode := 200
  retryAfter := none
  text := some (.obj [("candidates", .arr [.obj [("content",
    .obj [("parts", .arr [.obj [("text", .str text)]])])]])])
  json := none

/-- A server that always answers so. -/
def alwaysAnswering (text : String) : World :=
  ⟨fun _ => .ok (answering text), fun _ => 0, fun _ => false⟩

/-- An interpreter that reads one JSON text. -/
def reading (text : String) (value : Json) : Interpreter where
  repr _ := ""
  float _ := none
  dumps _ := ""
  jsonTricksLoads s := if s = text then .ok value else .error .decodeError

/-- The settings of a translation to Spanish. -/
def spanish : Config := ⟨["key"], some "Spanish", "", "movie.en.srt", "gemini-2.0-flash", 1, 300⟩

/-- A key that was never used. -/
def freshPool : KeyPool := ⟨some "key", 0, fun _ => none, 0⟩

/-- A file with two subtitles. -/
def twoSubtitles : List Subtitle := [⟨1, 0, 1, .str "hello"⟩, ⟨2, 1, 2, .str "bye"⟩]

/-- The state after the first request for both subtitles. -/
def afterBoth (P : Interpreter) (W : World) : State :=
  (attempt .ascii P W spanish [⟨"0", .str "hello"⟩, ⟨"1", .str "bye"⟩]
    (.initial twoSubtitles freshPool)).2

/-- If the request for both subtitles is accepted, the run ends after it. -/
theorem translateWithGemini_twoSubtitles {P : Interpreter} {W : World}
    (hflag : ∀ turn, W.interruptFlag turn = false)
    (h : (attempt .ascii P W spanish [⟨"0", .str "hello"⟩, ⟨"1", .str "bye"⟩]
      (.initial twoSubtitles freshPool)).1 = none) :
    translateWithGemini .ascii P W spanish twoSubtitles freshPool = .finished (afterBoth P W) := by
  unfold translateWithGemini
  rw [if_neg (by decide), if_neg (by decide), if_neg (by decide), if_neg (by decide)]
  show translateLoop _ _ _ _ 2 2 0 1 [⟨"0", .str "hello"⟩] (.initial twoSubtitles freshPool) = _
  rw [translateLoop, if_pos (by decide), hflag, if_neg (by decide), if_pos (by decide)]
  apply translateLoop_of_accept
  · simp
  · exact hflag 1
  · exact Prod.ext h rfl

/-- The answer that translates both subtitles. -/
def bothLines : String :=
  "[\x7b\"index\": \"0\", \"content\": \"hola\"\x7d, " ++
    "\x7b\"index\": \"1\", \"content\": \"adios\"\x7d]"

/-- The value of that answer. -/
def bothLinesJson : Json :=
  .arr [.obj [("index", .str "0"), ("content", .str "hola")],
    .obj [("index", .str "1"), ("content", .str "adios")]]

theorem translateWithGemini_complete_bothLines :
    translateWithGemini .ascii (reading bothLines bothLinesJson) (alwaysAnswering bothLines) spanish
        twoSubtitles freshPool
      = .finished (afterBoth (reading bothLines bothLinesJson) (alwaysAnswering bothLines)) ∧
    Translated .ascii (reading bothLines bothLinesJson)
      (afterBoth (reading bothLines bothLinesJson) (alwaysAnswering bothLines)) 1 := by
  have hrun : translateWithGemini .ascii (reading bothLines bothLinesJson)
      (alwaysAnswering bothLines) spanish twoSubtitles freshPool
      = .finished (afterBoth (reading bothLines bothLinesJson) (alwaysAnswering bothLines)) :=
    translateWithGemini_twoSubtitles (fun _ => rfl) rfl
  refine ⟨hrun, translateWithGemini_complete .ascii _ _ spanish hrun ?_ (by decide) (by decide)⟩
  intro x hx lines hlines _
  obtain rfl := List.mem_singleton.mp hx
  cases hlines
  show "0" ∉ [] ∧ "1" ∉ ["0"] ∧ True
  decide

/-- An answer whose second line was cut off. -/
def cutOff : String :=
  "[\x7b\"index\": \"0\", \"content\": \"hola\"\x7d, \x7b\"index\": \"1\"\x7d]"

/-- The value of that answer. -/
def cutOffJson : Json :=
  .arr [.obj [("index", .str "0"), ("content", .str "hola")], .obj [("index", .str "1")]]

/-- **A run can end with a subtitle left as it was**: the answer has as many lines as the
batch, but the second one has no content. -/
theorem translateWithGemini_cutOff :
    translateWithGemini .ascii (reading cutOff cutOffJson) (alwaysAnswering cutOff) spanish
        twoSubtitles freshPool
      = .finished (afterBoth (reading cutOff cutOffJson) (alwaysAnswering cutOff)) ∧
    (afterBoth (reading cutOff cutOffJson) (alwaysAnswering cutOff)).subtitles[1]?
      = some ⟨2, 1, 2, .str "bye"⟩ ∧
    ¬ Translated .ascii (reading cutOff cutOffJson)
      (afterBoth (reading cutOff cutOffJson) (alwaysAnswering cutOff)) 1 := by
  refine ⟨translateWithGemini_twoSubtitles (fun _ => rfl) rfl, rfl, ?_⟩
  rintro ⟨subtitle, -, x, hx, lines, hlines, line, hline, hindex, c, hc, -⟩
  obtain rfl := List.mem_singleton.mp hx
  cases hlines
  rcases List.mem_pair.mp hline with rfl | rfl
  · have hindex' : "0" = "1" := Json.str.inj (Except.ok.inj hindex)
    exact absurd hindex' (by decide)
  · cases hc

end Bazarr
end MediaHub

import MediaHub.Subgen.SrtCues
import MediaHub.Subgen.WerCer

/-!
# The scores of two subtitle files

`stacks/subgen-r9/scripts/score_subtitles.py` takes the transcripts of two files and scores one
against the other.  The cues of two tracks rarely line up, so the scores are meant to depend on
the words alone.

## Main definitions

* `scorePair` — `score_pair`, on the texts of the two files.

## Main results

* `transcript_eq_words` — the text of the cues is their words with single spaces in between.
* `scorePair_self` — a transcript has no errors against itself.
* `scorePair_iff` — **two files are read right, and then scored by their words, exactly if both
  are clean.**
-/

namespace MediaHub
namespace SrtText

open Re WerCer

/-- The result of `score_pair`. -/
structure Score where
  wer : WordErrorRate
  cer : CharErrorRate

variable (U : Unicodedata)

/-- `score_pair`; `reference` and `hypothesis` are what is in the files. -/
def scorePair (reference hypothesis : Text) : Option Score := do
  let refText := String.ofList (extractText reference)
  let hypText := String.ofList (extractText hypothesis)
  let werResult ← wordErrorRate U refText hypText
  let cerResult := charErrorRate U refText hypText
  return ⟨werResult, cerResult⟩

/-! ### Equal transcripts -/

theorem wordErrorRate_self (text : String) :
    ∃ score, wordErrorRate U text text = some score ∧ score.wer = 0 := by
  obtain ⟨score, hscore, -, -, hwer⟩ := wordErrorRate_eq U text text
  refine ⟨score, hscore, ?_⟩
  rw [hwer, dist_self]
  split <;> simp

theorem charErrorRate_self (text : String) : (charErrorRate U text text).cer = 0 := by
  unfold charErrorRate
  generalize (normalize U text).toList = chars
  by_cases hnil : chars = []
  · simp [hnil]
  · simp [hnil, editDistance_eq]

/-- A transcript has no errors against itself. -/
theorem scorePair_self {reference hypothesis : Text}
    (h : extractText reference = extractText hypothesis) :
    ∃ score, scorePair U reference hypothesis = some score ∧
      score.wer.wer = 0 ∧ score.cer.cer = 0 := by
  rw [scorePair, h]
  generalize String.ofList (extractText hypothesis) = text
  obtain ⟨score, hscore, hwer⟩ := wordErrorRate_self U text
  refine ⟨⟨score, charErrorRate U text text⟩, ?_, hwer, charErrorRate_self U text⟩
  rw [hscore]
  rfl

/-! ### Equal words -/

theorem Cue.words_ne_nil (c : Cue) : c.texts.flatMap (MediaHub.words isspace) ≠ [] := by
  intro hnil
  have hlast := List.flatMap_eq_nil_iff.mp hnil c.lastText c.lastText_mem
  exact c.lastText_not_blank (words_eq_nil.mp hlast)

/-- The text of the cues is their words with single spaces in between. -/
theorem Rendering.transcript_eq_words (r : Rendering) : r.transcript = joinLines ' ' r.words := by
  have hsaid : ∀ p : Piece,
      p.cue.said = [' '].intercalate (p.cue.texts.flatMap (MediaHub.words isspace)) := by
    intro p
    rw [Cue.said, collapse, words_joinLines (by decide)]
  have hne : ∀ l ∈ r.pieces.map fun p => p.cue.texts.flatMap (MediaHub.words isspace),
      l ≠ [] := by
    intro l hl
    obtain ⟨p, -, rfl⟩ := List.mem_map.mp hl
    exact p.cue.words_ne_nil
  rw [Rendering.transcript, joinLines, joinLines, Rendering.words, List.flatMap_def,
    ← intercalate_flatten ' ' hne, List.map_map]
  exact congrArg _ (List.map_congr_left fun p _ => hsaid p)

/-- **Two files are read right exactly if both are clean**, and then equal words make equal
transcripts and no errors. -/
theorem scorePair_iff (r r' : Rendering) :
    (extractText r.text = r.transcript ∧ extractText r'.text = r'.transcript ∧
      (r.words = r'.words → extractText r.text = extractText r'.text ∧
        ∃ score, scorePair U r.text r'.text = some score ∧
          score.wer.wer = 0 ∧ score.cer.cer = 0)) ↔
    r.Clean ∧ r'.Clean := by
  rw [← extractText_eq_iff, ← extractText_eq_iff]
  constructor
  · rintro ⟨h, h', -⟩
    exact ⟨h, h'⟩
  · rintro ⟨h, h'⟩
    refine ⟨h, h', fun hwords => ?_⟩
    have hsame : extractText r.text = extractText r'.text := by
      rw [h, h', r.transcript_eq_words, r'.transcript_eq_words, hwords]
    exact ⟨hsame, scorePair_self U hsame⟩

/-- A first cue. -/
def helloThere : Cue where
  index := ['1']
  time := "00:00:01,000 --> 00:00:02,000".toList
  texts := ["Hello there.".toList]
  lines := by decide +kernel
  heading := by decide +kernel
  texts_ne := List.cons_ne_nil _ _
  untagged := by decide +kernel

/-- A second one. -/
def generalKenobi : Cue where
  index := ['2']
  time := "00:00:03,000 --> 00:00:04,000".toList
  texts := ["General Kenobi.".toList]
  lines := by decide +kernel
  heading := by decide +kernel
  texts_ne := List.cons_ne_nil _ _
  untagged := by decide +kernel

/-- The two cues with two empty lines in between. -/
def twoBlanks : Rendering where
  pieces := [⟨[], helloThere, by decide +kernel⟩, ⟨[[], []], generalKenobi, by decide +kernel⟩]
  after := [[]]
  gaps := by decide +kernel
  blank := by decide +kernel

/-- The time line of the second cue is taken for text. -/
theorem extractText_twoBlanks : extractText twoBlanks.text ≠ twoBlanks.transcript ∧
    extractText twoBlanks.text =
      "Hello there. 00:00:03,000 --> 00:00:04,000 General Kenobi.".toList := by
  decide +kernel

end SrtText
end MediaHub

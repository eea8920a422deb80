import Mathlib.Algebra.Order.Ring.Rat
import Mathlib.Data.Finset.Card
import Mathlib.Data.List.MinMax
import Mathlib.Data.List.ModifyLast
import Mathlib.Data.List.Sort
import Mathlib.Data.Prod.Lex
import MediaHub.Lib.Groups
import MediaHub.Text
import MediaHub.Values

/-!
# Reconciling transcription passes

`stacks/subgen-r9/src/qa_voting.py`: several Whisper passes of the same audio are pooled,
cut into time slots, voted on slot by slot, and the winners are repaired so that
no two of them overlap.  Times, probabilities and temperatures are rationals
here where the program has floating point numbers, and only the sum of the
probabilities, which the vote compares, is rounded as the program rounds it.

## Main definitions

* `clusterWordsIntoSlots` — the greedy sweep over the pooled words.
* `voteSlot` — quorum and majority vote in one slot.
* `resolveOverlaps` — the repair of overlapping winners.
* `reconcilePasses` — the whole of it.
* `groupIntoSegments`, `temperatureLadder` — what the caller wraps around it.
-/

namespace MediaHub
namespace QaVoting

/-- A word of a transcription pass. -/
structure Word where
  /-- When the word starts. -/
  start : ℚ
  /-- When the word ends. -/
  end_ : ℚ
  /-- The text as it was heard. -/
  word : String
  /-- How sure the pass was. -/
  probability : ℚ
  deriving DecidableEq, Repr

/-- A word in the pool, with the pass it came from. -/
structure PooledWord extends Word where
  /-- The position of the pass in the list of passes. -/
  passId : ℕ
  deriving DecidableEq, Repr

/-- `_normalize`: for the comparison of texts only. -/
def normalize (U : Unicodedata) (text : String) : String :=
  U.lower (strip U (stripPunctuation U text))

/-! ### Slots -/

/-- The overlap of a word with the running span of a slot, relative to the
shorter of the two. -/
def overlapRatio (slotSpan : ℚ × ℚ) (word : PooledWord) : ℚ :=
  let overlap := max 0 (min slotSpan.2 word.end_ - max slotSpan.1 word.start)
  let wordDuration := word.end_ - word.start
  let slotDuration := slotSpan.2 - slotSpan.1
  let shorter := min wordDuration slotDuration
  if shorter > 0 then overlap / shorter else 0

/-- One turn of the loop of `_cluster_words_into_slots`: the slots so far and the
union span of the current one. -/
def clusterStep (overlapThreshold : ℚ) (acc : List (List PooledWord) × Option (ℚ × ℚ))
    (word : PooledWord) : List (List PooledWord) × Option (ℚ × ℚ) :=
  match acc.2 with
  | none => (acc.1 ++ [[word]], some (word.start, word.end_))
  | some slotSpan =>
    if overlapRatio slotSpan word ≥ overlapThreshold then
      (acc.1.modifyLast (· ++ [word]),
        some (min slotSpan.1 word.start, max slotSpan.2 word.end_))
    else (acc.1 ++ [[word]], some (word.start, word.end_))

/-- `_cluster_words_into_slots`. -/
def clusterWordsIntoSlots (words : List PooledWord) (overlapThreshold : ℚ) :
    List (List PooledWord) :=
  (words.foldl (clusterStep overlapThreshold) ([], none)).1

/-! ### The vote -/

/-- The words of a slot by normalized text, in the order the texts come up. -/
def voteGroups (U : Unicodedata) (slot : List PooledWord) : List (String × List PooledWord) :=
  groupsBy (fun word => normalize U word.word) slot

/-- What the vote compares: the number of words, then the sum of their
probabilities, which is taken in the order of the slot. -/
def groupKey (group : List PooledWord) : ℕ ×ₗ ℚ :=
  toLex (group.length, floatSum (group.map (·.probability)))

/-- The passes that contributed to a slot. -/
def contributingPasses (slot : List PooledWord) : Finset ℕ :=
  (slot.map (·.passId)).toFinset

/-- `_vote_slot`: the winning word of a slot, if its quorum is met.  `argmax`
keeps the first of several equal maxima, as `max` does. -/
def voteSlot (U : Unicodedata) (slot : List PooledWord) : Option PooledWord :=
  if (contributingPasses slot).card < 2 then none
  else
    match (voteGroups U slot).argmax fun group => groupKey group.2 with
    | none => none
    | some best => best.2.argmax (·.probability)

/-! ### Overlap repair -/

/-- A winner moved behind the word kept before it. -/
def clampAfter (last winner : Word) : Word :=
  let winner := { winner with start := last.end_ }
  if winner.start > winner.end_ then { winner with end_ := winner.start } else winner

/-- One turn of the loop of `_resolve_overlaps`. -/
def resolveStep (U : Unicodedata) (resolved : List Word) (winner : Word) : List Word :=
  match resolved.getLast? with
  | none => resolved ++ [winner]
  | some last =>
    if winner.start < last.end_ then
      if normalize U winner.word = normalize U last.word then resolved
      else resolved ++ [clampAfter last winner]
    else resolved ++ [winner]

/-- `_resolve_overlaps`. -/
def resolveOverlaps (U : Unicodedata) (winners : List Word) : List Word :=
  winners.foldl (resolveStep U) []

/-! ### The reconciliation -/

/-- The words of one pass, marked with its position. -/
def markPass (passWords : List Word) (passId : ℕ) : List PooledWord :=
  passWords.map fun word => { word with passId := passId }

/-- `sort(key=lambda word: word["start"])`, which is stable. -/
def sortByStart (words : List PooledWord) : List PooledWord :=
  words.insertionSort fun a b => a.start ≤ b.start

/-- All words of all passes, sorted by start. -/
def pool (passes : List (List Word)) : List PooledWord :=
  sortByStart (passes.zipIdx.flatMap fun p => markPass p.1 p.2)

/-- The winners of the slots, sorted by start. -/
def sortedWinners (U : Unicodedata) (slots : List (List PooledWord)) : List Word :=
  ((slots.filterMap (voteSlot U)).map (·.toWord)).insertionSort fun a b => a.start ≤ b.start

/-- `reconcile_passes`. -/
def reconcilePasses (U : Unicodedata) (passes : List (List Word)) (overlapThreshold : ℚ) :
    List Word :=
  resolveOverlaps U (sortedWinners U (clusterWordsIntoSlots (pool passes) overlapThreshold))

/-! ### Around the reconciliation -/

/-- One turn of the loop of `group_into_segments`. -/
def segmentStep (maxGap : ℚ) (segments : List (List Word)) (pair : Word × Word) :
    List (List Word) :=
  let segments := if pair.2.start - pair.1.end_ > maxGap then segments ++ [[]] else segments
  segments.modifyLast (· ++ [pair.2])

/-- `group_into_segments`. -/
def groupIntoSegments (words : List Word) (maxGap : ℚ) : List (List Word) :=
  match words with
  | [] => []
  | first :: rest => (words.zip rest).foldl (segmentStep maxGap) [[first]]

/-- The standard fallback temperatures of faster-whisper. -/
def standardFallback : List ℚ := [0, 1 / 5, 2 / 5, 3 / 5, 4 / 5, 1]

/-- `temperature_ladder`: the temperatures of each pass. -/
def temperatureLadder (passes : ℤ) : List (List ℚ) :=
  if passes ≤ 1 then [standardFallback]
  else
    let step := min (3 / 10) (1 / ((passes - 1 : ℤ) : ℚ))
    let starts := (List.range passes.toNat).map fun i => roundTo 2 (min (i * step) 1)
    starts.map fun start => start :: standardFallback.filter fun t => t > start + 1 / 10 ^ 9

end QaVoting
end MediaHub

import Mathlib.Algebra.BigOperators.Group.Finset.Basic
import Mathlib.Algebra.BigOperators.Group.List.Basic
import MediaHub.QaVoting.Vote

/-!
# The vote by passes

What the design asks of the vote in a slot: the text backed by the most passes wins, and
among texts backed by as many the one with the single most probable candidate.  The code
counts words, so a pass that splits a word votes more than once, and among texts with as
many words it takes the larger sum of probabilities, then the text that came up first.

## Main definitions

* `backers`, `splitWords` — the passes behind a text, and the words they add by splitting.
* `DesignWins` — the texts the design elects.
* `VotedByPasses` — the vote as the design has it.
* `Undisturbed` — neither split words nor tied counts lift a text over the design's choice.

## Main results

* `length_wordsWith` — the words of a text are its passes and the words they split.
* `voteSlot_byPasses_iff` — **when the vote is by passes.**
* `voteSlot_byPasses_of_unsplit` — without split words and tied counts it is.
* `voteSlot_sums_ties` — a tie that the sum of the probabilities decides.
-/

namespace MediaHub
namespace QaVoting

variable (U : Unicodedata)

/-- The passes that back a text. -/
def backers (slot : List PooledWord) (text : String) : Finset ℕ :=
  contributingPasses (wordsWith U slot text)

/-- The design elects the text: none is backed by more passes, and among the texts backed
by as many it has a candidate of the highest probability. -/
structure DesignWins (slot : List PooledWord) (text : String) : Prop where
  /-- No text is backed by more passes. -/
  most : ∀ v ∈ slot, (backers U slot (normalize U v.word)).card ≤ (backers U slot text).card
  /-- It has the most probable candidate among the texts backed by as many passes. -/
  best : ∃ w ∈ wordsWith U slot text, ∀ v ∈ slot,
    (backers U slot (normalize U v.word)).card = (backers U slot text).card →
      v.probability ≤ w.probability

/-- The vote as the design has it. -/
structure VotedByPasses (slot : List PooledWord) (result : Option PooledWord) : Prop where
  /-- There is no winner exactly when the quorum is missed. -/
  none_iff : result = none ↔ (contributingPasses slot).card < 2
  /-- The winner is a word of the slot. -/
  mem : ∀ w, result = some w → w ∈ slot
  /-- The design elects its text. -/
  text : ∀ w, result = some w → DesignWins U slot (normalize U w.word)
  /-- No candidate with its text is more probable. -/
  probability_le : ∀ w, result = some w →
    ∀ v ∈ wordsWith U slot (normalize U w.word), v.probability ≤ w.probability

/-- The words of a text past the first of each pass: what the passes add to its count by
splitting a word. -/
def splitWords (slot : List PooledWord) (text : String) : ℕ :=
  ∑ pass ∈ backers U slot text, ((wordsWith U slot text).countP (·.passId = pass) - 1)

/-- The design elects the text, and no text that the design passes over gets past it. -/
structure Undisturbed (slot : List PooledWord) (text : String) : Prop where
  /-- The design elects it. -/
  wins : DesignWins U slot text
  /-- Split words do not make up for the passes that another text lacks. -/
  splits : ∀ v ∈ slot, ¬DesignWins U slot (normalize U v.word) →
    (backers U slot (normalize U v.word)).card + splitWords U slot (normalize U v.word)
      ≤ (backers U slot text).card + splitWords U slot text
  /-- Where they just make up for them, or there is nothing to make up for, the sum of the
  probabilities is smaller, or it is the same and the text comes up later. -/
  ties : ∀ v ∈ slot, ¬DesignWins U slot (normalize U v.word) →
    (backers U slot (normalize U v.word)).card + splitWords U slot (normalize U v.word)
      = (backers U slot text).card + splitWords U slot text →
    floatSum ((wordsWith U slot (normalize U v.word)).map (·.probability))
        < floatSum ((wordsWith U slot text).map (·.probability)) ∨
      floatSum ((wordsWith U slot (normalize U v.word)).map (·.probability))
          = floatSum ((wordsWith U slot text).map (·.probability)) ∧
        (slot.map fun w => normalize U w.word).idxOf text
          < (slot.map fun w => normalize U w.word).idxOf (normalize U v.word)

variable {slot : List PooledWord} {w : PooledWord}

/-- The groups come in the order in which their texts come up. -/
theorem pairwise_voteGroups_idxOf (slot : List PooledWord) :
    (voteGroups U slot).Pairwise fun g g' =>
      (slot.map fun w => normalize U w.word).idxOf g.1
        < (slot.map fun w => normalize U w.word).idxOf g'.1 := by
  rw [voteGroups_eq, List.pairwise_map]
  exact pairwise_idxOf_eraseDups _

/-- The winner's text against any other text of the slot. -/
theorem beats_of_voteSlot (h : voteSlot U slot = some w) {v : PooledWord} (hv : v ∈ slot) :
    groupKey (wordsWith U slot (normalize U v.word))
        < groupKey (wordsWith U slot (normalize U w.word)) ∨
      normalize U v.word = normalize U w.word ∨
      groupKey (wordsWith U slot (normalize U v.word))
          = groupKey (wordsWith U slot (normalize U w.word)) ∧
        (slot.map fun w => normalize U w.word).idxOf (normalize U w.word)
          < (slot.map fun w => normalize U w.word).idxOf (normalize U v.word) := by
  obtain ⟨-, ⟨text, words⟩, hbest, hw⟩ := (voteSlot_eq_some_iff U).mp h
  obtain ⟨-, hwords⟩ := (mem_voteGroups_iff U).mp (List.argmax_mem hbest)
  simp only at hwords hw
  subst hwords
  obtain ⟨-, rfl⟩ := (mem_wordsWith U).mp (List.argmax_mem hw)
  have hgroup : (normalize U v.word, wordsWith U slot (normalize U v.word)) ∈ voteGroups U slot :=
    (mem_voteGroups_iff U).mpr ⟨⟨v, hv, rfl⟩, rfl⟩
  have hle : groupKey (wordsWith U slot (normalize U v.word))
      ≤ groupKey (wordsWith U slot (normalize U w.word)) :=
    List.le_of_mem_argmax (f := fun g : String × List PooledWord => groupKey g.2) hgroup hbest
  rcases rel_of_mem_argmax (pairwise_voteGroups_idxOf U slot) hbest _ hgroup with hlt | heq | hidx
  · exact Or.inl hlt
  · exact Or.inr (Or.inl (congrArg Prod.fst heq))
  · rcases lt_or_eq_of_le hle with hlt | heq
    · exact Or.inl hlt
    · exact Or.inr (Or.inr ⟨heq, hidx⟩)

/-- The words of a list, counted pass by pass. -/
theorem sum_countP_eq_length (ws : List PooledWord) :
    ∑ pass ∈ contributingPasses ws, ws.countP (·.passId = pass) = ws.length := by
  have hcount : ∀ pass, ws.countP (·.passId = pass) = (ws.map (·.passId)).count pass := by
    intro pass
    rw [List.count, List.countP_map]
    rfl
  simp only [hcount, contributingPasses, List.sum_toFinset_count_eq_length, List.length_map]

/-- **The words of a text are its passes and the words they split.** -/
theorem length_wordsWith (slot : List PooledWord) (text : String) :
    (wordsWith U slot text).length = (backers U slot text).card + splitWords U slot text := by
  have hpos : ∀ pass ∈ backers U slot text,
      1 + ((wordsWith U slot text).countP (·.passId = pass) - 1)
        = (wordsWith U slot text).countP (·.passId = pass) := by
    intro pass hpass
    obtain ⟨w, hw, rfl⟩ := List.mem_map.mp (List.mem_toFinset.mp hpass)
    have := List.countP_pos_iff (p := fun v : PooledWord => v.passId = w.passId)
      |>.mpr ⟨w, hw, by simp⟩
    omega
  calc (wordsWith U slot text).length
      = ∑ pass ∈ backers U slot text, (wordsWith U slot text).countP (·.passId = pass) :=
        (sum_countP_eq_length _).symm
    _ = ∑ pass ∈ backers U slot text,
          (1 + ((wordsWith U slot text).countP (·.passId = pass) - 1)) :=
        Finset.sum_congr rfl fun pass hpass => (hpos pass hpass).symm
    _ = (backers U slot text).card + splitWords U slot text := by
        rw [Finset.sum_add_distrib, Finset.sum_const, Nat.nsmul_eq_mul, mul_one, splitWords]

/-- No candidate with the winner's text is more probable. -/
theorem probability_le_of_voteSlot (h : voteSlot U slot = some w) :
    ∀ v ∈ wordsWith U slot (normalize U w.word), v.probability ≤ w.probability := by
  obtain ⟨-, ⟨text, words⟩, hbest, hw⟩ := (voteSlot_eq_some_iff U).mp h
  obtain ⟨-, hwords⟩ := (mem_voteGroups_iff U).mp (List.argmax_mem hbest)
  simp only at hwords hw
  subst hwords
  obtain ⟨-, rfl⟩ := (mem_wordsWith U).mp (List.argmax_mem hw)
  intro v hv
  exact List.le_of_mem_argmax (f := fun w : PooledWord => w.probability) hv hw

/-- **When the vote is by passes**: in a slot with a quorum, some text that the design elects
is not disturbed by split words and tied counts. -/
theorem voteSlot_byPasses_iff (slot : List PooledWord) :
    VotedByPasses U slot (voteSlot U slot) ↔
      (2 ≤ (contributingPasses slot).card →
        ∃ v ∈ slot, Undisturbed U slot (normalize U v.word)) := by
  have hnone : voteSlot U slot = none ↔ (contributingPasses slot).card < 2 := by
    rw [← Option.not_isSome_iff_eq_none, isSome_voteSlot_iff, Nat.not_le]
  constructor
  · intro hvoted hquorum
    obtain ⟨w, hw⟩ := Option.isSome_iff_exists.mp ((isSome_voteSlot_iff U).mpr hquorum)
    have hdesign := hvoted.text w hw
    refine ⟨w, mem_of_voteSlot U hw, hdesign, ?_, ?_⟩
    · intro v hv hnot
      rw [← length_wordsWith, ← length_wordsWith]
      rcases beats_of_voteSlot U hw hv with hlt | heq | ⟨heq, -⟩
      · exact (groupKey_lt_iff.mp hlt).elim le_of_lt fun h => h.1.le
      · rw [heq] at hnot
        exact absurd hdesign hnot
      · exact (groupKey_eq_iff.mp heq).1.le
    · intro v hv hnot hcount
      rw [← length_wordsWith, ← length_wordsWith] at hcount
      rcases beats_of_voteSlot U hw hv with hlt | heq | ⟨heq, hidx⟩
      · exact (groupKey_lt_iff.mp hlt).elim (fun h => absurd hcount h.ne) fun h => Or.inl h.2
      · rw [heq] at hnot
        exact absurd hdesign hnot
      · exact Or.inr ⟨(groupKey_eq_iff.mp heq).2, hidx⟩
  · intro hcond
    refine ⟨hnone, fun w hw => mem_of_voteSlot U hw, ?_, fun w hw =>
      probability_le_of_voteSlot U hw⟩
    intro w hw
    have hmem := mem_of_voteSlot U hw
    obtain ⟨d, hd, hund⟩ := hcond ((voteSlot_eq_some_iff U).mp hw).1
    by_contra hnot
    -- the winner's text is passed over by the design, so the design's choice beats it
    have hsplits := hund.splits w hmem hnot
    have hties := hund.ties w hmem hnot
    rw [← length_wordsWith, ← length_wordsWith] at hsplits hties
    rcases beats_of_voteSlot U hw hd with hlt | heq | ⟨heq, hidx⟩
    · rcases groupKey_lt_iff.mp hlt with hlen | ⟨hlen, hsum⟩
      · exact absurd hsplits (not_le.mpr hlen)
      · rcases hties hlen.symm with hlt' | ⟨heq', -⟩
        · exact absurd hsum (not_lt_of_gt hlt')
        · exact absurd heq' hsum.ne'
    · rw [heq] at hund
      exact hnot hund.wins
    · obtain ⟨hlen, hsum⟩ := groupKey_eq_iff.mp heq
      rcases hties hlen.symm with hlt' | ⟨-, hidx'⟩
      · exact absurd hsum hlt'.ne'
      · exact absurd hidx (not_lt_of_gt hidx')

/-- **Without split words and tied counts the vote is by passes**: no pass has two words of one
text in the slot, and one text is backed by more passes than any other. -/
theorem voteSlot_byPasses_of_unsplit
    (hunsplit : ∀ v ∈ slot, splitWords U slot (normalize U v.word) = 0) (hw : w ∈ slot)
    (hmost : ∀ v ∈ slot, normalize U v.word ≠ normalize U w.word →
      (backers U slot (normalize U v.word)).card < (backers U slot (normalize U w.word)).card) :
    VotedByPasses U slot (voteSlot U slot) := by
  have hself : (wordsWith U slot (normalize U w.word)) ≠ [] :=
    List.ne_nil_of_mem ((mem_wordsWith U).mpr ⟨hw, rfl⟩)
  obtain ⟨u, hu⟩ := exists_argmax (fun v : PooledWord => v.probability) hself
  have hdesign : DesignWins U slot (normalize U w.word) := by
    refine ⟨fun v hv => ?_, u, List.argmax_mem hu, fun v hv hcard => ?_⟩
    · by_cases heq : normalize U v.word = normalize U w.word
      · rw [heq]
      · exact (hmost v hv heq).le
    · have heq : normalize U v.word = normalize U w.word := by
        by_contra hne
        exact absurd hcard (hmost v hv hne).ne
      exact List.le_of_mem_argmax (f := fun v : PooledWord => v.probability)
        ((mem_wordsWith U).mpr ⟨hv, heq⟩) hu
  have hlt : ∀ v ∈ slot, ¬DesignWins U slot (normalize U v.word) →
      (backers U slot (normalize U v.word)).card + splitWords U slot (normalize U v.word)
        < (backers U slot (normalize U w.word)).card + splitWords U slot (normalize U w.word) := by
    intro v hv hnot
    rw [hunsplit v hv, hunsplit w hw]
    exact hmost v hv fun heq => hnot (by rw [heq]; exact hdesign)
  refine (voteSlot_byPasses_iff U slot).mpr fun _ => ⟨w, hw, hdesign, ?_, ?_⟩
  · exact fun v hv hnot => (hlt v hv hnot).le
  · exact fun v hv hnot heq => absurd heq (hlt v hv hnot).ne

/-- Two passes hear one text and two another, and one of the latter is the surest. -/
def surestLoses : List PooledWord :=
  [⟨⟨0, 1, "no", 3 / 5⟩, 0⟩, ⟨⟨0, 1, "no", 3 / 5⟩, 1⟩, ⟨⟨0, 1, "yes", 9 / 10⟩, 2⟩,
    ⟨⟨0, 1, "yes", 1 / 10⟩, 3⟩]

/-- **The sum of the probabilities decides a tie**, not the single candidate of highest
probability. -/
theorem voteSlot_sums_ties : ¬VotedByPasses .ascii surestLoses (voteSlot .ascii surestLoses) := by
  intro h
  have hno : voteSlot .ascii surestLoses = some ⟨⟨0, 1, "no", 3 / 5⟩, 0⟩ := by decide +kernel
  obtain ⟨w, hw, hbest⟩ := (h.text _ hno).best
  have hyes := hbest ⟨⟨0, 1, "yes", 9 / 10⟩, 2⟩ (by decide +kernel) (by decide +kernel)
  have hle := probability_le_of_voteSlot .ascii hno w hw
  exact absurd (le_trans hyes hle) (by decide +kernel)

end QaVoting
end MediaHub

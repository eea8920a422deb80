import Mathlib.Data.List.Permutation
import MediaHub.QaVoting.Vote

/-!
# What the vote takes from the order of a slot

The vote reads the words of a slot in order: it adds the probabilities of a text one
after the other, and where two texts are equally supported the one that came up first
wins.  Of the order it takes no more than that: two slots that hold the same words, each
sorted by start, vote the same as long as of two texts with as many words the same one
is ahead in every such order.

## Main definitions

* `saying`, `support` — the words with a text, and what the vote compares.
* `orderedSums` — the sums that the order of words that start together can give.
* `Wins` — what the vote says about the winner.
* `TieFree` — no two texts of a slot are tied.

## Main results

* `wins_of_voteSlot` — the winner of a sorted slot.
* `voteSlot_congr` — **the vote depends on the words of the slot only.**
-/

namespace MediaHub
namespace QaVoting

variable (U : Unicodedata)

/-- The words with a given normalized text. -/
def saying (ws : List Word) (text : String) : List Word :=
  ws.filter fun w => normalize U w.word = text

@[simp] theorem mem_saying {ws : List Word} {text : String} {w : Word} :
    w ∈ saying U ws text ↔ w ∈ ws ∧ normalize U w.word = text := by
  simp [saying]

/-- The number of words and the sum of their probabilities. -/
def support (ws : List Word) : ℕ ×ₗ ℚ := toLex (ws.length, floatSum (ws.map (·.probability)))

theorem map_toWord_wordsWith (slot : List PooledWord) (text : String) :
    (wordsWith U slot text).map (·.toWord) = saying U (slot.map (·.toWord)) text := by
  rw [saying, wordsWith, List.filter_map]
  rfl

theorem groupKey_wordsWith (slot : List PooledWord) (text : String) :
    groupKey (wordsWith U slot text) = support (saying U (slot.map (·.toWord)) text) := by
  rw [← map_toWord_wordsWith, groupKey, support, List.length_map, List.map_map]
  rfl

/-- What the vote says about the winner `w` of the words `ws`: no word of its text is
more probable, no text has more support, and a text with the same support does not
come up before it. -/
structure Wins (ws : List Word) (w : Word) : Prop where
  /-- The winner is one of the words. -/
  mem : w ∈ ws
  /-- No word with its text is more probable. -/
  probability_le : ∀ v ∈ saying U ws (normalize U w.word), v.probability ≤ w.probability
  /-- No text has more support. -/
  support_le : ∀ v ∈ ws,
    support (saying U ws (normalize U v.word)) ≤ support (saying U ws (normalize U w.word))
  /-- No text with the same support comes up before. -/
  first : ∀ v ∈ ws,
    support (saying U ws (normalize U v.word)) = support (saying U ws (normalize U w.word)) →
    ∀ b ∈ saying U ws (normalize U v.word), ∃ a ∈ saying U ws (normalize U w.word),
      a.start ≤ b.start

/-- The groups come in the order of their first words. -/
theorem pairwise_voteGroups {slot : List PooledWord}
    (hs : slot.Pairwise fun a b => a.start ≤ b.start) :
    (voteGroups U slot).Pairwise fun g g' => ∀ b ∈ g'.2, ∃ a ∈ g.2, a.start ≤ b.start := by
  rw [voteGroups_eq, List.pairwise_map]
  refine (pairwise_eraseDups_map (fun w : PooledWord => normalize U w.word) hs).imp ?_
  intro k k' h b hb
  obtain ⟨hb, hbk⟩ := (mem_wordsWith U).mp hb
  obtain ⟨a, ha, hak, hab⟩ := h b hb hbk
  exact ⟨a, (mem_wordsWith U).mpr ⟨ha, hak⟩, hab⟩

/-- **The winner of a sorted slot.** -/
theorem wins_of_voteSlot {slot : List PooledWord}
    (hs : slot.Pairwise fun a b => a.start ≤ b.start) {w : PooledWord}
    (h : voteSlot U slot = some w) : Wins U (slot.map (·.toWord)) w.toWord := by
  obtain ⟨-, best, hbest, hw⟩ := (voteSlot_eq_some_iff U).mp h
  obtain ⟨k, words⟩ := best
  obtain ⟨-, hwords⟩ := (mem_voteGroups_iff U).mp (List.argmax_mem hbest)
  simp only at hwords hw
  rw [hwords] at hw hbest
  obtain ⟨hmem, rfl⟩ := (mem_wordsWith U).mp (List.argmax_mem hw)
  -- the group of any word of the slot is among the groups
  have hgroup : ∀ v ∈ slot,
      (normalize U v.word, wordsWith U slot (normalize U v.word)) ∈ voteGroups U slot :=
    fun v hv => (mem_voteGroups_iff U).mpr ⟨⟨v, hv, rfl⟩, rfl⟩
  refine ⟨List.mem_map_of_mem hmem, ?_, ?_, ?_⟩
  · intro v hv
    rw [← map_toWord_wordsWith] at hv
    obtain ⟨v, hvs, rfl⟩ := List.mem_map.mp hv
    exact List.le_of_mem_argmax (f := fun w : PooledWord => w.probability) hvs hw
  · intro v hv
    obtain ⟨v, hvs, rfl⟩ := List.mem_map.mp hv
    rw [← groupKey_wordsWith, ← groupKey_wordsWith]
    exact List.le_of_mem_argmax (f := fun g : String × List PooledWord => groupKey g.2)
      (hgroup v hvs) hbest
  · intro v hv hsupport b hb
    obtain ⟨v, hvs, rfl⟩ := List.mem_map.mp hv
    rw [← groupKey_wordsWith, ← groupKey_wordsWith] at hsupport
    rw [← map_toWord_wordsWith] at hb ⊢
    obtain ⟨b, hbs, rfl⟩ := List.mem_map.mp hb
    obtain ⟨a, ha, hab⟩ : ∃ a ∈ wordsWith U slot (normalize U w.word), a.start ≤ b.start := by
      rcases rel_of_mem_argmax (pairwise_voteGroups U hs) hbest _ (hgroup v hvs) with h | h | h
      · simp only [hsupport, lt_self_iff_false] at h
      · exact ⟨b, (Prod.mk.inj h).2 ▸ hbs, le_rfl⟩
      · exact h b hbs
    exact ⟨a.toWord, List.mem_map_of_mem ha, hab⟩

/-- The sums of the probabilities of the words, one for each order of the words that is
sorted by start.  An addition of `float`s rounds, so the orders can differ in the last bit. -/
def orderedSums (ws : List Word) : List ℚ :=
  (ws.permutations'.filter fun l => l.Pairwise fun a b => a.start ≤ b.start).map
    fun l => floatSum (l.map (·.probability))

theorem mem_orderedSums {ws l : List Word} (hperm : l.Perm ws)
    (hs : l.Pairwise fun a b => a.start ≤ b.start) :
    floatSum (l.map (·.probability)) ∈ orderedSums ws := by
  refine List.mem_map.mpr ⟨l, ?_, rfl⟩
  rw [List.mem_filter, List.mem_permutations']
  exact ⟨hperm, by simpa using hs⟩

/-- The words `ws` are ahead of the words `ws'` in every order: their sum is larger, or it is
the same and they start first. -/
def Ahead (ws ws' : List Word) : Prop :=
  ∀ s ∈ orderedSums ws, ∀ s' ∈ orderedSums ws',
    s' < s ∨ s' = s ∧ ∃ a ∈ ws, ∀ b ∈ ws', a.start < b.start

instance (ws ws' : List Word) : Decidable (Ahead ws ws') :=
  inferInstanceAs (Decidable (∀ s ∈ orderedSums ws, ∀ s' ∈ orderedSums ws', _ ∨ _ ∧ _))

/-- No two texts of a slot are tied: of two texts with the same number of words, one is ahead
of the other in whatever order the words that start together are taken. -/
def TieFree (slot : List PooledWord) : Prop :=
  ∀ v ∈ slot, ∀ w ∈ slot, normalize U v.word ≠ normalize U w.word →
    (wordsWith U slot (normalize U v.word)).length
      = (wordsWith U slot (normalize U w.word)).length →
    Ahead (saying U (slot.map (·.toWord)) (normalize U v.word))
        (saying U (slot.map (·.toWord)) (normalize U w.word)) ∨
      Ahead (saying U (slot.map (·.toWord)) (normalize U w.word))
        (saying U (slot.map (·.toWord)) (normalize U v.word))

instance (slot : List PooledWord) : Decidable (TieFree U slot) :=
  inferInstanceAs (Decidable (∀ v ∈ slot, ∀ w ∈ slot, _ → _ → _ ∨ _))

/-- A text with as many words that is ahead in every order would have won. -/
theorem Wins.not_ahead {ws ws' : List Word} {w v : Word} (hw : Wins U ws' w)
    (hperm : ws'.Perm ws) (hs : ws'.Pairwise fun a b => a.start ≤ b.start) (hv : v ∈ ws')
    (hlen : (saying U ws' (normalize U v.word)).length
      = (saying U ws' (normalize U w.word)).length) :
    ¬Ahead (saying U ws (normalize U v.word)) (saying U ws (normalize U w.word)) := by
  intro hahead
  have hsaying : ∀ k, (saying U ws' k).Perm (saying U ws k) := fun k => hperm.filter _
  have hsum : ∀ k, floatSum ((saying U ws' k).map (·.probability))
      ∈ orderedSums (saying U ws k) := fun k =>
    mem_orderedSums (hsaying k) (hs.sublist List.filter_sublist)
  have hle := hw.support_le v hv
  rcases hahead _ (hsum _) _ (hsum _) with hlt | ⟨heq, a, ha, hfirst⟩
  · -- as many words and a larger sum
    refine absurd hle (not_le.mpr (Prod.Lex.toLex_lt_toLex.mpr (Or.inr ⟨hlen.symm, hlt⟩)))
  · -- the same support, and it starts first
    have hsupport : support (saying U ws' (normalize U v.word))
        = support (saying U ws' (normalize U w.word)) := by
      rw [support, support, hlen, heq]
    obtain ⟨b, hb, hba⟩ := hw.first v hv hsupport a ((hsaying _).mem_iff.mpr ha)
    exact absurd (hfirst b ((hsaying _).mem_iff.mp hb)) (not_lt.mpr hba)

/-- The winner's text has the most words. -/
theorem Wins.length_le {ws : List Word} {w v : Word} (hw : Wins U ws w) (hv : v ∈ ws) :
    (saying U ws (normalize U v.word)).length ≤ (saying U ws (normalize U w.word)).length := by
  rcases Prod.Lex.toLex_le_toLex.mp (hw.support_le v hv) with hlt | ⟨heq, -⟩
  · exact hlt.le
  · exact heq.le

/-- Two winners of the same words are the same, if the words have different
probabilities and no two texts are tied. -/
theorem Wins.unique {slot : List PooledWord} {ws' : List Word} {w w' : Word}
    (hperm : (slot.map (·.toWord)).Perm ws')
    (hs : (slot.map (·.toWord)).Pairwise fun a b => a.start ≤ b.start)
    (hs' : ws'.Pairwise fun a b => a.start ≤ b.start) (htie : TieFree U slot)
    (hprob : (slot.map (·.probability)).Nodup) (hw : Wins U (slot.map (·.toWord)) w)
    (hw' : Wins U ws' w') : w = w' := by
  have hsaying : ∀ k, (saying U (slot.map (·.toWord)) k).length = (saying U ws' k).length :=
    fun k => (hperm.filter _).length_eq
  have hmem : w' ∈ slot.map (·.toWord) := hperm.mem_iff.mpr hw'.mem
  have hmem' : w ∈ ws' := hperm.mem_iff.mp hw.mem
  have htext : normalize U w'.word = normalize U w.word := by
    by_contra hne
    -- the two texts have as many words, so one of them is ahead in both slots
    have hlen : (saying U ws' (normalize U w.word)).length
        = (saying U ws' (normalize U w'.word)).length := by
      refine le_antisymm (hw'.length_le U hmem') ?_
      rw [← hsaying, ← hsaying]
      exact hw.length_le U hmem
    have hlen' : (saying U (slot.map (·.toWord)) (normalize U w'.word)).length
        = (saying U (slot.map (·.toWord)) (normalize U w.word)).length := by
      rw [hsaying, hsaying, hlen]
    obtain ⟨u, hu, rfl⟩ := List.mem_map.mp hw.mem
    obtain ⟨u', hu', rfl⟩ := List.mem_map.mp hmem
    have hwords : (wordsWith U slot (normalize U u'.word)).length
        = (wordsWith U slot (normalize U u.word)).length := by
      rw [← map_toWord_wordsWith, ← map_toWord_wordsWith, List.length_map,
        List.length_map] at hlen'
      exact hlen'
    rcases htie u' hu' u hu hne hwords with hahead | hahead
    · exact hw.not_ahead U (List.Perm.refl _) hs hmem hlen' hahead
    · exact hw'.not_ahead U hperm.symm hs' hmem' hlen hahead
  have hprob' : w.probability = w'.probability := by
    refine le_antisymm ?_ ?_
    · exact hw'.probability_le w ((mem_saying U).mpr ⟨hmem', htext.symm⟩)
    · exact hw.probability_le w' ((mem_saying U).mpr ⟨hmem, htext⟩)
  have hnodup : ((slot.map (·.toWord)).map (·.probability)).Nodup := by
    rw [List.map_map]; exact hprob
  exact List.inj_on_of_nodup_map hnodup hw.mem hmem hprob'

/-- **The vote depends on the words of the slot only**: two sorted slots with the same
words and the same quorum have the same winner, if the words have different
probabilities and no two texts are tied. -/
theorem voteSlot_congr {slot slot' : List PooledWord}
    (hperm : (slot.map (·.toWord)).Perm (slot'.map (·.toWord)))
    (hquorum : (contributingPasses slot).card = (contributingPasses slot').card)
    (hs : slot.Pairwise fun a b => a.start ≤ b.start)
    (hs' : slot'.Pairwise fun a b => a.start ≤ b.start) (htie : TieFree U slot)
    (hprob : (slot.map (·.probability)).Nodup) :
    (voteSlot U slot).map (·.toWord) = (voteSlot U slot').map (·.toWord) := by
  have hsome : (voteSlot U slot).isSome ↔ (voteSlot U slot').isSome := by
    rw [isSome_voteSlot_iff, isSome_voteSlot_iff, hquorum]
  cases hw : voteSlot U slot with
  | none =>
    cases hw' : voteSlot U slot' with
    | none => rfl
    | some w' => simp [hw, hw'] at hsome
  | some w =>
    cases hw' : voteSlot U slot' with
    | none => simp [hw, hw'] at hsome
    | some w' =>
      rw [Option.map_some, Option.map_some, Option.some.injEq]
      exact Wins.unique U hperm (List.pairwise_map.mpr hs) (List.pairwise_map.mpr hs') htie hprob
        (wins_of_voteSlot U hs hw) (wins_of_voteSlot U hs' hw')

end QaVoting
end MediaHub

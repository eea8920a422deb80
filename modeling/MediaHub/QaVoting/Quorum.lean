import Mathlib.Tactic.NormNum
import MediaHub.QaVoting.Track

/-!
# What a slot vouches for

The quorum is counted per slot, and a slot is held together by its union span.
That a slot with a winner vouches for each of its words is a fact about the sweep:
every word of it overlaps a word of another pass.  What a slot does not promise is
that two of its words from one pass were heard as one word by another: the union
span can grow along a run of words that are shifted against each other.

## Main results

* `reconcilePasses_quorum_sound` — **every word of the track was heard by a second
  pass.**
* `slot_swallows_run` — a slot can hold a whole run of separately spoken words.
* `linked_of_mem_slot` — **the words of a slot are linked by overlaps between
  different passes**; with two passes, neighbours of one pass in one slot are
  bridged by a single word of the other.
-/

namespace MediaHub
namespace QaVoting

variable (U : Unicodedata)

/-- The winner of a slot overlaps a word of another pass. -/
theorem heard_twice_of_voteSlot {θ : ℚ} (hθ : 0 < θ) {passes : List (List Word)}
    (hp : ∀ ws ∈ passes, IsPass ws) {slot : List PooledWord} {w : PooledWord}
    (hslot : slot ∈ clusterWordsIntoSlots (pool passes) θ) (h : voteSlot U slot = some w) :
    ∃ q v, q ≠ w.passId ∧ Heard passes q v ∧ 0 < Span.overlap w.span v.span := by
  obtain ⟨m, hm, hid, hpos⟩ :=
    exists_neighbour hθ hp hslot (two_le_length_of_voteSlot U h) (mem_of_voteSlot U h)
  exact ⟨m.passId, m.toWord, hid, mem_pool_iff.mp ((sublist_of_mem_cluster hslot).subset hm), hpos⟩

/-- **Every word of the track was heard by a second pass.**  Each word that comes out
carries the text and the probability of a word some pass heard, and that word
overlaps a word of a different pass; a word over the silence of all other passes
wins no slot. -/
theorem reconcilePasses_quorum_sound (θ : ℚ) (hθ : 0 < θ) (passes : List (List Word))
    (hp : ∀ ws ∈ passes, IsPass ws) :
    (∀ out ∈ reconcilePasses U passes θ, ∃ p w, Heard passes p w ∧ out.word = w.word ∧
      out.probability = w.probability ∧
      ∃ q v, q ≠ p ∧ Heard passes q v ∧ 0 < Span.overlap w.span v.span) ∧
    ∀ w : PooledWord,
      (∀ q v, q ≠ w.passId → Heard passes q v → Span.overlap w.span v.span = 0) →
      ∀ slot ∈ clusterWordsIntoSlots (pool passes) θ, voteSlot U slot ≠ some w := by
  constructor
  · intro out hout
    obtain ⟨v, hv, hword, hprob⟩ := exists_winner_of_mem_reconcilePasses U
      (fun ws hws => (hp ws hws).start_le_end) hout
    obtain ⟨slot, hslot, w, hvote, rfl⟩ := (mem_sortedWinners_iff U).mp hv
    exact ⟨w.passId, w.toWord, heard_of_voteSlot U hslot hvote, hword, hprob,
      heard_twice_of_voteSlot U hθ hp hslot hvote⟩
  · intro w hlone slot hslot hvote
    obtain ⟨q, v, hq, hv, hpos⟩ := heard_twice_of_voteSlot U hθ hp hslot hvote
    exact absurd (hlone q v hq hv) hpos.ne'

/-- Two passes that agree on one word, and a third word heard by one of them only. -/
def agreeOnOne : List (List Word) :=
  [[⟨0, 1, "hello", 1 / 2⟩, ⟨5, 6, "ghost", 3 / 4⟩], [⟨1 / 10, 1, "hello", 2 / 3⟩]]

theorem reconcilePasses_agreeOnOne :
    reconcilePasses .ascii agreeOnOne (1 / 2) = [⟨1 / 10, 1, "hello", 2 / 3⟩] ∧
    ((∀ out ∈ reconcilePasses .ascii agreeOnOne (1 / 2), ∃ p w, Heard agreeOnOne p w ∧
      out.word = w.word ∧ out.probability = w.probability ∧
      ∃ q v, q ≠ p ∧ Heard agreeOnOne q v ∧ 0 < Span.overlap w.span v.span) ∧
    ∀ w : PooledWord,
      (∀ q v, q ≠ w.passId → Heard agreeOnOne q v → Span.overlap w.span v.span = 0) →
      ∀ slot ∈ clusterWordsIntoSlots (pool agreeOnOne) (1 / 2),
        voteSlot .ascii slot ≠ some w) :=
  ⟨by decide +kernel, reconcilePasses_quorum_sound .ascii (1 / 2) (by norm_num) agreeOnOne
    (by decide +kernel)⟩

/-! ### Runs inside one slot -/

/-- Two passes shifted against each other by half a word. -/
def shiftedByHalf : List (List Word) :=
  [[⟨0, 2, "one", 1 / 2⟩, ⟨2, 4, "two", 1 / 2⟩, ⟨4, 6, "three", 1 / 2⟩],
   [⟨1, 3, "uno", 1 / 2⟩, ⟨3, 5, "dos", 1 / 2⟩]]

/-- **A slot can hold a whole run of separately spoken words**: at threshold 1/2 all
five words of `shiftedByHalf` land in one slot, and no word of the second pass
overlaps both the first and the last word of the first one. -/
theorem slot_swallows_run :
    (∀ ws ∈ shiftedByHalf, IsPass ws ∧ ∀ w ∈ ws, w.start < w.end_) ∧
    ∃ slot ∈ clusterWordsIntoSlots (pool shiftedByHalf) (1 / 2), ∃ a ∈ slot, ∃ b ∈ slot,
      a.passId = b.passId ∧ a ≠ b ∧ ¬ ∃ q v, q ≠ a.passId ∧ Heard shiftedByHalf q v ∧
        0 < Span.overlap v.span a.span ∧ 0 < Span.overlap v.span b.span := by
  constructor
  · decide +kernel
  · refine ⟨pool shiftedByHalf, by decide +kernel, ⟨⟨0, 2, "one", 1 / 2⟩, 0⟩, by decide +kernel,
      ⟨⟨4, 6, "three", 1 / 2⟩, 0⟩, by decide +kernel, rfl, by decide +kernel, ?_⟩
    rintro ⟨q, v, -, ⟨ws, hws, hv⟩, hpos⟩
    have hnone : ∀ ws ∈ shiftedByHalf, ∀ v ∈ ws,
        ¬ (0 < Span.overlap v.span ((0 : ℚ), (2 : ℚ)) ∧
          0 < Span.overlap v.span ((4 : ℚ), (6 : ℚ))) := by decide +kernel
    exact hnone ws (List.mem_of_getElem? hws) v hv hpos

/-- No word of a pass lies between two neighbours. -/
theorem IsPass.end_le_or_start_le {u v : List Word} {a b : Word} (h : IsPass (u ++ a :: b :: v))
    (hpos : ∀ w ∈ u ++ a :: b :: v, w.start < w.end_) :
    a.end_ ≤ b.start ∧ ∀ x ∈ u ++ a :: b :: v, x.end_ ≤ a.end_ ∨ b.start ≤ x.start := by
  have hfollow := h.follow hpos
  rw [List.pairwise_append, List.pairwise_cons, List.pairwise_cons] at hfollow
  obtain ⟨-, ⟨hab, hbv, -⟩, hu⟩ := hfollow
  have ha := (hpos a (by simp)).le
  have hb := (hpos b (by simp)).le
  refine ⟨hab b List.mem_cons_self, ?_⟩
  intro x hx
  rw [List.mem_append, List.mem_cons, List.mem_cons] at hx
  rcases hx with hx | rfl | rfl | hx
  · exact Or.inl (le_trans (hu x hx a List.mem_cons_self) ha)
  · exact Or.inl le_rfl
  · exact Or.inr le_rfl
  · exact Or.inr (le_trans hb (hbv x hx))

section

variable {θ : ℚ} {passes : List (List Word)} {slot pre post : List PooledWord} {w m : PooledWord}

/-- A word of a slot that starts before another one comes before it. -/
theorem mem_pre_of_start_lt (hslot : slot ∈ clusterWordsIntoSlots (pool passes) θ)
    (heq : slot = pre ++ w :: post) (hm : m ∈ slot) (hlt : m.start < w.start) : m ∈ pre := by
  have hsorted := (sorted_pool passes).sublist (sublist_of_mem_cluster hslot)
  rw [heq, List.pairwise_append, List.pairwise_cons] at hsorted
  rw [heq] at hm
  rcases List.mem_append.mp hm with hm | hm
  · exact hm
  · rcases List.mem_cons.mp hm with rfl | hm
    · exact absurd hlt (lt_irrefl _)
    · exact absurd (hsorted.2.1.1 m hm) (not_le.mpr hlt)

/-- A word that comes before another word of its pass does not overlap it. -/
theorem overlap_eq_zero_of_mem_pre (hp : ∀ ws ∈ passes, IsPass ws)
    (hslot : slot ∈ clusterWordsIntoSlots (pool passes) θ) (heq : slot = pre ++ w :: post)
    (hm : m ∈ pre) (hid : m.passId = w.passId) :
    m.start ≤ w.start ∧ Span.overlap m.span w.span = 0 := by
  have hsub := sublist_of_mem_cluster hslot
  have hsorted := (sorted_pool passes).sublist hsub
  have hpass := (pairwise_ne_passId_of_overlap hp).sublist hsub
  rw [heq, List.pairwise_append] at hsorted hpass
  refine ⟨hsorted.2.2 m hm w List.mem_cons_self, ?_⟩
  by_contra hne
  have hpos : 0 < Span.overlap m.span w.span :=
    lt_of_le_of_ne (Span.overlap_nonneg _ _) (Ne.symm hne)
  exact hpass.2.2 m hm w List.mem_cons_self hpos hid

theorem heard_of_mem_slot (hslot : slot ∈ clusterWordsIntoSlots (pool passes) θ) (hw : w ∈ slot) :
    Heard passes w.passId w.toWord :=
  mem_pool_iff.mp ((sublist_of_mem_cluster hslot).subset hw)

theorem passId_lt_of_mem_slot (hslot : slot ∈ clusterWordsIntoSlots (pool passes) θ)
    (hw : w ∈ slot) : w.passId < passes.length := by
  obtain ⟨ws, hws, -⟩ := heard_of_mem_slot hslot hw
  exact (List.getElem?_eq_some_iff.mp hws).1

theorem start_lt_end_of_mem_slot (hpos : ∀ ws ∈ passes, ∀ w ∈ ws, w.start < w.end_)
    (hslot : slot ∈ clusterWordsIntoSlots (pool passes) θ) (hw : w ∈ slot) : w.start < w.end_ := by
  obtain ⟨ws, hws, hmem⟩ := heard_of_mem_slot hslot hw
  exact hpos ws (List.mem_of_getElem? hws) _ hmem

/-- Neighbours of one pass that share a slot, when there are two passes, are bridged
by a single word of the other. -/
theorem exists_bridge (hθ : 0 < θ) (htwo : passes.length = 2) (hp : ∀ ws ∈ passes, IsPass ws)
    (hpos : ∀ ws ∈ passes, ∀ w ∈ ws, w.start < w.end_)
    (hslot : slot ∈ clusterWordsIntoSlots (pool passes) θ) {u v : List Word} {a b : PooledWord}
    (hws : passes[a.passId]? = some (u ++ a.toWord :: b.toWord :: v)) (hid : b.passId = a.passId)
    (ha : a ∈ slot) (hb : b ∈ slot) :
    ∃ m ∈ slot, m.passId ≠ a.passId ∧ 0 < Span.overlap m.span a.span ∧
      0 < Span.overlap m.span b.span := by
  have hmem := List.mem_of_getElem? hws
  obtain ⟨hab, hinner⟩ := (hp _ hmem).end_le_or_start_le (hpos _ hmem)
  have hapos := start_lt_end_of_mem_slot hpos hslot ha
  -- `b` joined through a word `m` of the other pass that comes before it
  obtain ⟨pre, post, heq⟩ := List.append_of_mem hb
  have hapre : a ∈ pre := mem_pre_of_start_lt hslot heq ha (lt_of_lt_of_le hapos hab)
  obtain ⟨m, hm, hmb, hov⟩ := exists_earlier_neighbour hθ hp hslot heq (List.ne_nil_of_mem hapre)
  have hmslot : m ∈ slot := by rw [heq]; exact List.mem_append_left _ hm
  obtain ⟨hmpos, -, hbm, -⟩ := Span.overlap_pos_iff.mp hov
  refine ⟨m, hmslot, hid ▸ hmb, Span.overlap_pos_iff.mpr ⟨hmpos, ?_, ?_, hapos⟩, hov⟩
  · by_contra hlate
    have hlate : a.end_ ≤ m.start := not_lt.mp hlate
    -- otherwise `m` joined through a word `m'` of the first pass, between the neighbours
    obtain ⟨pre', post', hpre⟩ := List.append_of_mem hm
    have hsplit : slot = pre' ++ m :: (post' ++ b :: post) := by rw [heq, hpre]; simp
    have hapre' : a ∈ pre' := mem_pre_of_start_lt hslot hsplit ha (lt_of_lt_of_le hapos hlate)
    obtain ⟨m', hm', hmm', hov'⟩ :=
      exists_earlier_neighbour hθ hp hslot hsplit (List.ne_nil_of_mem hapre')
    have hm'slot : m' ∈ slot := by rw [hsplit]; exact List.mem_append_left _ hm'
    have hm'id : m'.passId = b.passId := by
      have h1 := passId_lt_of_mem_slot hslot hm'slot
      have h2 := passId_lt_of_mem_slot hslot hmslot
      have h3 := passId_lt_of_mem_slot hslot hb
      omega
    obtain ⟨ws, hws', hm'ws⟩ := heard_of_mem_slot hslot hm'slot
    rw [hm'id, hid, hws, Option.some.injEq] at hws'
    obtain ⟨hm'pos, -, hlt, -⟩ := Span.overlap_pos_iff.mp hov'
    rcases hinner _ (hws' ▸ hm'ws) with h | h
    · exact absurd (lt_of_lt_of_le hlt h) (not_lt.mpr hlate)
    · -- but a word of the first pass not before `b` comes after it
      have hm'pre : m' ∈ pre := by rw [hpre]; exact List.mem_append_left _ hm'
      obtain ⟨hle, hzero⟩ := overlap_eq_zero_of_mem_pre hp hslot heq hm'pre hm'id
      have hbpos := start_lt_end_of_mem_slot hpos hslot hb
      have hov'' : 0 < Span.overlap m'.span b.span := Span.overlap_pos_iff.mpr
        ⟨hm'pos, lt_of_le_of_lt hle hbpos, lt_of_le_of_lt h hm'pos, hbpos⟩
      exact absurd hzero hov''.ne'
  · exact lt_of_lt_of_le hapos (le_trans hab hbm.le)

end

/-- **The words of a slot are linked by overlaps between different passes.**  Any two
of them, from one pass or not, are joined by a chain of words of the slot in which
each overlaps the next and belongs to another pass; and where there are two passes
only, two neighbours of one pass are bridged by a single word of the other. -/
theorem linked_of_mem_slot (θ : ℚ) (hθ : 0 < θ) (passes : List (List Word))
    (hp : ∀ ws ∈ passes, IsPass ws) (hpos : ∀ ws ∈ passes, ∀ w ∈ ws, w.start < w.end_) :
    ∀ slot ∈ clusterWordsIntoSlots (pool passes) θ, ∀ a ∈ slot, ∀ b ∈ slot,
      Relation.ReflTransGen
        (fun x y : PooledWord => x ∈ slot ∧ y ∈ slot ∧ x.passId ≠ y.passId ∧
          0 < Span.overlap x.span y.span) a b ∧
      (passes.length = 2 → a.passId = b.passId →
        (∃ u v, passes[a.passId]? = some (u ++ a.toWord :: b.toWord :: v)) →
        ∃ m ∈ slot, m.passId ≠ a.passId ∧ 0 < Span.overlap m.span a.span ∧
          0 < Span.overlap m.span b.span) := by
  intro slot hslot a ha b hb
  refine ⟨neighbour_chain hθ hp hslot ha hb, ?_⟩
  rintro htwo hid ⟨u, v, hws⟩
  exact exists_bridge hθ htwo hp hpos hslot hws hid.symm ha hb

theorem linked_shiftedByHalf :
    Relation.ReflTransGen
        (fun x y : PooledWord => x ∈ pool shiftedByHalf ∧ y ∈ pool shiftedByHalf ∧
          x.passId ≠ y.passId ∧ 0 < Span.overlap x.span y.span)
        ⟨⟨0, 2, "one", 1 / 2⟩, 0⟩ ⟨⟨2, 4, "two", 1 / 2⟩, 0⟩ ∧
      ∃ m ∈ pool shiftedByHalf, m.passId ≠ 0 ∧ 0 < Span.overlap m.span ((0 : ℚ), (2 : ℚ)) ∧
        0 < Span.overlap m.span ((2 : ℚ), (4 : ℚ)) := by
  obtain ⟨hlinked, hbridge⟩ := linked_of_mem_slot (1 / 2) (by norm_num) shiftedByHalf
    (by decide +kernel) (by decide +kernel) (pool shiftedByHalf) (by decide +kernel)
    ⟨⟨0, 2, "one", 1 / 2⟩, 0⟩ (by decide +kernel) ⟨⟨2, 4, "two", 1 / 2⟩, 0⟩ (by decide +kernel)
  exact ⟨hlinked, hbridge rfl rfl ⟨[], [⟨4, 6, "three", 1 / 2⟩], rfl⟩⟩

end QaVoting
end MediaHub

import MediaHub.Lib.Sorting
import MediaHub.QaVoting.Overlaps

/-!
# The reconciled track

What `reconcilePasses` returns, as a whole: a track of words that do not overlap,
made of the winners of the slots in the order of their starts.

## Main definitions

* `slotWinners` — the winners, each with the number of its slot.

## Main results

* `nodup_slotWinners` — a slot has one winner at most.
* `reconcilePasses_shape` — **the shape of the reconciled track.**
-/

namespace MediaHub
namespace QaVoting

variable (U : Unicodedata)

/-- The winners of the slots, each with the number of its slot. -/
def slotWinners (slots : List (List PooledWord)) : List (ℕ × Word) :=
  slots.zipIdx.filterMap fun p => (voteSlot U p.1).map fun w => (p.2, w.toWord)

theorem map_snd_slotWinners (slots : List (List PooledWord)) :
    (slotWinners U slots).map Prod.snd = (slots.filterMap (voteSlot U)).map (·.toWord) := by
  have hfst : slots = slots.zipIdx.map Prod.fst := (List.zipIdx_map_fst 0 slots).symm
  rw [slotWinners, List.map_filterMap, List.map_filterMap]
  conv_rhs => rw [hfst, List.filterMap_map]
  congr 1
  funext p
  cases h : voteSlot U p.1 <;> simp [h]

/-- A slot has one winner at most. -/
theorem nodup_slotWinners (slots : List (List PooledWord)) :
    ((slotWinners U slots).map Prod.fst).Nodup := by
  have hidx : (slots.zipIdx.map Prod.snd).Nodup := by
    rw [List.zipIdx_map_snd]
    exact List.nodup_range'
  rw [List.Nodup, List.pairwise_map] at hidx
  rw [slotWinners, List.Nodup, List.pairwise_map, List.pairwise_filterMap]
  apply hidx.imp
  intro p q hpq b hb c hc
  obtain ⟨v, -, rfl⟩ := Option.map_eq_some_iff.mp hb
  obtain ⟨w, -, rfl⟩ := Option.map_eq_some_iff.mp hc
  exact hpq

theorem sorted_sortedWinners (slots : List (List PooledWord)) :
    (sortedWinners U slots).Pairwise fun a b => a.start ≤ b.start :=
  List.pairwise_insertionSort _ _

theorem perm_sortedWinners (slots : List (List PooledWord)) :
    (sortedWinners U slots).Perm ((slots.filterMap (voteSlot U)).map (·.toWord)) :=
  List.perm_insertionSort _ _

/-- A word among the winners won one of the slots. -/
theorem mem_sortedWinners_iff {slots : List (List PooledWord)} {w : Word} :
    w ∈ sortedWinners U slots ↔ ∃ slot ∈ slots, ∃ v, voteSlot U slot = some v ∧ v.toWord = w := by
  rw [(perm_sortedWinners U slots).mem_iff, List.mem_map]
  constructor
  · rintro ⟨v, hv, rfl⟩
    obtain ⟨slot, hslot, hvote⟩ := List.mem_filterMap.mp hv
    exact ⟨slot, hslot, v, hvote, rfl⟩
  · rintro ⟨slot, hslot, v, hvote, rfl⟩
    exact ⟨v, List.mem_filterMap.mpr ⟨slot, hslot, hvote⟩, rfl⟩

/-- The winners were heard by some pass. -/
theorem heard_of_voteSlot {passes : List (List Word)} {θ : ℚ} {slot : List PooledWord}
    {w : PooledWord} (hslot : slot ∈ clusterWordsIntoSlots (pool passes) θ)
    (h : voteSlot U slot = some w) : Heard passes w.passId w.toWord :=
  mem_pool_iff.mp ((sublist_of_mem_cluster hslot).subset (mem_of_voteSlot U h))

theorem start_le_end_of_mem_sortedWinners {passes : List (List Word)} {θ : ℚ}
    (h : ∀ ws ∈ passes, ∀ w ∈ ws, w.start ≤ w.end_) :
    ∀ w ∈ sortedWinners U (clusterWordsIntoSlots (pool passes) θ), w.start ≤ w.end_ := by
  intro w hw
  obtain ⟨slot, hslot, v, hvote, rfl⟩ := (mem_sortedWinners_iff U).mp hw
  obtain ⟨ws, hws, hmem⟩ := heard_of_voteSlot U hslot hvote
  exact h ws (List.mem_of_getElem? hws) _ hmem

/-- A word of the track carries the text and the probability of a winner. -/
theorem exists_winner_of_mem_reconcilePasses {passes : List (List Word)} {θ : ℚ}
    (h : ∀ ws ∈ passes, ∀ w ∈ ws, w.start ≤ w.end_) {out : Word}
    (hout : out ∈ reconcilePasses U passes θ) :
    ∃ w ∈ sortedWinners U (clusterWordsIntoSlots (pool passes) θ),
      out.word = w.word ∧ out.probability = w.probability := by
  obtain ⟨idx, hrep, -⟩ := repaired_resolveOverlaps U (start_le_end_of_mem_sortedWinners U h)
  obtain ⟨j, hj, rfl⟩ := List.getElem_of_mem hout
  have hlt : j < idx.length := by rw [hrep.length_eq]; exact hj
  obtain ⟨w, hw, -, hout⟩ := hrep.kept j idx[j] (List.getElem?_eq_getElem hlt)
  refine ⟨w, List.mem_of_getElem? hw, ?_⟩
  have hj' := (List.getElem?_eq_some_iff.mp hout).2
  simp only [reconcilePasses, hj', word_placedAfter, probability_placedAfter, and_self]

/-- **The shape of the reconciled track.**  Its words are sorted by start and do not
overlap.  They are the winners of the slots in the order of their starts, each
slot giving one at most: `idx` lists the winners that were kept, with text and
probability unchanged and a start that is never earlier.  A winner is missing
only as a duplicate of the last word kept before it. -/
theorem reconcilePasses_shape (θ : ℚ) (passes : List (List Word))
    (h : ∀ ws ∈ passes, ∀ w ∈ ws, w.start ≤ w.end_) :
    (reconcilePasses U passes θ).Pairwise (fun a b => a.start ≤ b.start) ∧
    (∀ w ∈ reconcilePasses U passes θ, w.start ≤ w.end_) ∧
    (reconcilePasses U passes θ).IsChain (fun a b => a.end_ ≤ b.start) ∧
    ∃ winners : List (ℕ × Word),
      winners.Perm (slotWinners U (clusterWordsIntoSlots (pool passes) θ)) ∧
      (winners.map Prod.fst).Nodup ∧ winners.Pairwise (fun a b => a.2.start ≤ b.2.start) ∧
      ∃ idx : List ℕ, idx.length = (reconcilePasses U passes θ).length ∧ idx.Pairwise (· < ·) ∧
        (∀ j i : ℕ, idx[j]? = some i → ∃ n w r, winners[i]? = some (n, w) ∧
          (reconcilePasses U passes θ)[j]? = some r ∧
          r.word = w.word ∧ r.probability = w.probability ∧ w.start ≤ r.start) ∧
        ∀ (i n : ℕ) (w : Word), winners[i]? = some (n, w) → i ∉ idx → ∃ (j k : ℕ) (last : Word),
          idx[j]? = some k ∧ (reconcilePasses U passes θ)[j]? = some last ∧ k < i ∧
          (∀ k' ∈ idx, k < k' → i < k') ∧ w.start < last.end_ ∧
          normalize U w.word = normalize U last.word := by
  have hle := start_le_end_of_mem_sortedWinners U (θ := θ) h
  obtain ⟨hchain, hends⟩ := isChain_resolveOverlaps U hle
  have hsorted : (reconcilePasses U passes θ).Pairwise fun a b => a.start ≤ b.start := by
    refine List.isChain_iff_pairwise.mp (hchain.imp_of_mem_imp ?_)
    intro a b ha _ hab
    exact le_trans (hends a ha) hab
  -- the sorted winners, each with the number of its slot
  obtain ⟨winners, hperm, hmap⟩ := exists_perm_of_perm_map Prod.snd
    ((perm_sortedWinners U (clusterWordsIntoSlots (pool passes) θ)).trans
      (by rw [← map_snd_slotWinners]))
  have hget : ∀ (i : ℕ) w, (sortedWinners U (clusterWordsIntoSlots (pool passes) θ))[i]? = some w ↔
      ∃ n, winners[i]? = some (n, w) := by
    intro i w
    rw [← hmap, List.getElem?_map, Option.map_eq_some_iff]
    simp
  obtain ⟨idx, hrep, -⟩ := repaired_resolveOverlaps U hle
  refine ⟨hsorted, hends, hchain, winners, hperm, ?_, ?_, idx, hrep.length_eq, hrep.increasing,
    ?_, ?_⟩
  · exact (hperm.map Prod.fst).nodup_iff.mpr (nodup_slotWinners U _)
  · have := sorted_sortedWinners U (clusterWordsIntoSlots (pool passes) θ)
    rwa [← hmap, List.pairwise_map] at this
  · intro j i hj
    obtain ⟨w, hw, -, hout⟩ := hrep.kept j i hj
    obtain ⟨n, hn⟩ := (hget i w).mp hw
    exact ⟨n, w, _, hn, hout, by simp, by simp, start_le_placedAfter _ _⟩
  · intro i n w hw hi
    obtain ⟨j, k, last, hj, hout, hki, hnext, hdup⟩ :=
      hrep.dropped i w ((hget i w).mpr ⟨n, hw⟩) hi
    exact ⟨j, k, last, hj, hout, hki, hnext, hdup⟩

/-- Two skewed passes, the first one out of order, whose winners overlap. -/
def skewed : List (List Word) :=
  [[⟨3, 6, "there", 1 / 4⟩, ⟨0, 4, "hello", 3 / 4⟩],
    [⟨1, 3, "hallo", 1 / 2⟩, ⟨3, 7, "there", 1 / 2⟩]]

theorem reconcilePasses_shape_skewed :
    (reconcilePasses .ascii skewed (4 / 5)).Pairwise (fun a b => a.start ≤ b.start) ∧
    (∀ w ∈ reconcilePasses .ascii skewed (4 / 5), w.start ≤ w.end_) ∧
    (reconcilePasses .ascii skewed (4 / 5)).IsChain (fun a b => a.end_ ≤ b.start) := by
  obtain ⟨hsorted, hends, hchain, -⟩ :=
    reconcilePasses_shape .ascii (4 / 5) skewed (by decide +kernel)
  exact ⟨hsorted, hends, hchain⟩

example : reconcilePasses .ascii skewed (4 / 5)
    = [⟨0, 4, "hello", 3 / 4⟩, ⟨4, 7, "there", 1 / 2⟩] := by decide +kernel

end QaVoting
end MediaHub

import MediaHub.QaVoting.Quorum
import MediaHub.QaVoting.Unanimous

/-!
# Identical passes

Copies of one pass are passes that agree without any jitter, so the track is the
pass itself — as long as every word of it has a length.  A word without length is
in no slot but its own: its ratio to any slot is zero, the slot it opens has no
length either, and it never meets the quorum.

## Main results

* `reconcilePasses_replicate` — **identical passes are reproduced** exactly when
  each word has a length.
* `touchedWord_lost` — a word without length is lost although all passes heard it.
-/

namespace MediaHub
namespace QaVoting

variable (U : Unicodedata)

/-- A pass in which each word ends before the next one starts. -/
theorem pairwise_follow {ws : List Word} (hle : ∀ w ∈ ws, w.start ≤ w.end_)
    (hchain : ws.IsChain fun a b => a.end_ ≤ b.start) :
    ws.Pairwise fun a b => a.end_ ≤ b.start := by
  induction ws with
  | nil => exact .nil
  | cons a ws ih =>
    have hws := ih (fun w hw => hle w (List.mem_cons_of_mem _ hw)) hchain.tail
    refine List.pairwise_cons.mpr ⟨?_, hws⟩
    cases ws with
    | nil => simp
    | cons b ws =>
      have hab : a.end_ ≤ b.start := (List.isChain_cons_cons.mp hchain).1
      intro c hc
      rcases List.mem_cons.mp hc with rfl | hc
      · exact hab
      · calc a.end_ ≤ b.start := hab
          _ ≤ b.end_ := hle b (by simp)
          _ ≤ c.start := (List.pairwise_cons.mp hws).1 c hc

theorem isPass_of_follow {ws : List Word} (hle : ∀ w ∈ ws, w.start ≤ w.end_)
    (h : ws.Pairwise fun a b => a.end_ ≤ b.start) : IsPass ws where
  sorted := h.imp_of_mem fun ha _ hab => le_trans (hle _ ha) hab
  start_le_end := hle
  disjoint := h.imp fun hab => Span.overlap_eq_zero_of_le hab

/-- **Copies of a pass agree**, if each word has a length. -/
theorem unanimous_replicate {θ : ℚ} (hθ1 : θ ≤ 1) {ws : List Word} (N : ℕ)
    (hpos : ∀ w ∈ ws, w.start < w.end_) (h : ws.Pairwise fun a b => a.end_ ≤ b.start) :
    Unanimous U θ (List.replicate N ws) (ws.map fun w => normalize U w.word) := by
  have heq : ∀ P ∈ List.replicate N ws, P = ws := by
    intro P hP
    exact List.eq_of_mem_replicate hP
  refine ⟨?_, ?_, ?_, ?_, ?_⟩
  · intro P hP
    rw [heq P hP]
  · intro P hP
    rw [heq P hP]
    exact isPass_of_follow (fun w hw => (hpos w hw).le) h
  · intro P hP
    rw [heq P hP]
    exact hpos
  · rintro P hP Q hQ ⟨x, y⟩ hxy
    rw [heq P hP, heq Q hQ] at hxy
    obtain ⟨k, hk⟩ := List.mem_iff_getElem?.mp hxy
    obtain ⟨hx, hy⟩ := List.getElem?_zip_eq_some.mp hk
    rw [hx, Option.some.injEq] at hy
    obtain rfl : x = y := hy
    have hx := hpos x (List.mem_of_getElem? hx)
    -- a word is as long as what it has in common with itself
    have hratio : Span.ratio x.span x.span = 1 := Span.ratio_eq_one_of_subset hx le_rfl le_rfl
    rcases le_or_gt θ 0 with hθ | hθ
    · calc θ * Span.shorter x.span x.span ≤ 0 :=
            mul_nonpos_of_nonpos_of_nonneg hθ (Span.shorter_pos_iff.mpr ⟨hx, hx⟩).le
        _ ≤ Span.overlap x.span x.span := Span.overlap_nonneg _ _
    · exact ((Span.le_ratio_iff hθ).mp (hratio ▸ hθ1)).2
  · intro P hP Q hQ hPQ
    exact absurd ((heq P hP).trans (heq Q hQ).symm) hPQ

/-- The repair changes no winner, where two winners are equal or apart. -/
theorem mem_of_mem_resolveOverlaps {winners : List Word} (hpos : ∀ w ∈ winners, w.start < w.end_)
    (hsorted : winners.Pairwise fun a b => a.start ≤ b.start)
    (hapart : ∀ a ∈ winners, ∀ b ∈ winners, a = b ∨ a.end_ ≤ b.start ∨ b.end_ ≤ a.start) :
    ∀ r ∈ resolveOverlaps U winners, r ∈ winners := by
  induction winners using List.reverseRecOn with
  | nil => simp
  | append_singleton ws w ih =>
    rw [List.pairwise_append] at hsorted
    have ih := ih (fun v hv => hpos v (List.mem_append_left _ hv)) hsorted.1
      fun a ha b hb => hapart a (List.mem_append_left _ ha) b (List.mem_append_left _ hb)
    have hw : w.start < w.end_ := hpos w (by simp)
    rw [resolveOverlaps_concat]
    rcases resolveStep_cases U (resolveOverlaps U ws) hw.le with
      ⟨_, _, _, heq⟩ | ⟨hdup, heq⟩
    · rw [heq]
      exact fun r hr => List.mem_append_left _ (ih r hr)
    · rw [heq]
      intro r hr
      rcases List.mem_append.mp hr with hr | hr
      · exact List.mem_append_left _ (ih r hr)
      · obtain rfl : r = placedAfter (resolveOverlaps U ws).getLast? w := by simpa using hr
        cases hlast : (resolveOverlaps U ws).getLast? with
        | none => simp [placedAfter]
        | some last =>
          have hmem : last ∈ ws := ih last (List.mem_of_getLast? hlast)
          -- the new winner is apart from the last one, or equal to it and a duplicate
          have hle : last.end_ ≤ w.start := by
            rcases hapart last (List.mem_append_left _ hmem) w (by simp) with rfl | h | h
            · exact absurd ⟨hw, rfl⟩ (hdup last hlast)
            · exact h
            · exact absurd (hsorted.2.2 last hmem w (by simp)) (not_le.mpr (lt_of_lt_of_le hw h))
          rw [placedAfter_eq_self hle hw.le]
          simp

/-- The winners among copies of a pass are words of the pass that have a length. -/
theorem mem_sortedWinners_replicate {θ : ℚ} (hθ : 0 < θ) {ws : List Word} (hp : IsPass ws) {N : ℕ}
    {w : Word} (hw : w ∈ sortedWinners U (clusterWordsIntoSlots (pool (List.replicate N ws)) θ)) :
    w ∈ ws ∧ w.start < w.end_ := by
  obtain ⟨slot, hslot, v, hvote, rfl⟩ := (mem_sortedWinners_iff U).mp hw
  have hpasses : ∀ P ∈ List.replicate N ws, IsPass P := by
    intro P hP
    rwa [List.eq_of_mem_replicate hP]
  obtain ⟨P, hP, hmem⟩ := heard_of_voteSlot U hslot hvote
  rw [List.eq_of_mem_replicate (List.mem_of_getElem? hP)] at hmem
  obtain ⟨_, _, _, _, hpos⟩ := heard_twice_of_voteSlot U hθ hpasses hslot hvote
  exact ⟨hmem, (Span.overlap_pos_iff.mp hpos).1⟩

/-- **Identical passes are reproduced** exactly when each word has a length. -/
theorem reconcilePasses_replicate (θ : ℚ) (hθ : 0 < θ) (hθ1 : θ ≤ 1) (N : ℕ) (hN : 2 ≤ N)
    (ws : List Word) (hle : ∀ w ∈ ws, w.start ≤ w.end_)
    (hchain : ws.IsChain fun a b => a.end_ ≤ b.start) :
    reconcilePasses U (List.replicate N ws) θ = ws ↔ ∀ w ∈ ws, w.start < w.end_ := by
  have hfollow := pairwise_follow hle hchain
  constructor
  · intro heq w hw
    -- the repair hands on winners, and these have a length
    have hwin := @mem_sortedWinners_replicate U θ hθ ws (isPass_of_follow hle hfollow) N
    rw [← heq, reconcilePasses] at hw
    refine (hwin (mem_of_mem_resolveOverlaps U (fun v hv => (hwin hv).2)
      (sorted_sortedWinners U _) ?_ w hw)).2
    intro a ha b hb
    obtain ⟨i, hi, rfl⟩ := List.getElem_of_mem (hwin ha).1
    obtain ⟨j, hj, rfl⟩ := List.getElem_of_mem (hwin hb).1
    have hf := List.pairwise_iff_getElem.mp hfollow
    rcases Nat.lt_trichotomy i j with hij | rfl | hij
    · exact Or.inr (Or.inl (hf i j hi hj hij))
    · exact Or.inl rfl
    · exact Or.inr (Or.inr (hf j i hj hi hij))
  · intro hpos
    have hu := unanimous_replicate U hθ1 N hpos hfollow
    obtain ⟨hlen, hW⟩ := hu.winners_eq hθ hθ1 (by rw [List.length_replicate]; exact hN)
    have hwinners :
        sortedWinners U (clusterWordsIntoSlots (pool (List.replicate N ws)) θ) = ws := by
      rw [List.length_map] at hlen
      apply List.ext_getElem hlen
      intro k hk hk'
      obtain ⟨P, hP, hget⟩ := (hW k _ (List.getElem?_eq_getElem hk)).1
      rw [List.eq_of_mem_replicate hP] at hget
      exact (List.getElem?_eq_some_iff.mp hget).2.symm
    rw [reconcilePasses, hwinners]
    exact resolveOverlaps_eq_self U hle hchain

theorem reconcilePasses_replicate_hello :
    reconcilePasses .ascii
        (List.replicate 3 [⟨0, 1, "hello", 1 / 2⟩, ⟨1, 2, "hello", 3 / 4⟩]) (1 / 2)
        = [⟨0, 1, "hello", 1 / 2⟩, ⟨1, 2, "hello", 3 / 4⟩] ↔
      ∀ w ∈ ([⟨0, 1, "hello", 1 / 2⟩, ⟨1, 2, "hello", 3 / 4⟩] : List Word), w.start < w.end_ :=
  reconcilePasses_replicate .ascii (1 / 2) (by norm_num) (by norm_num) 3 (by decide) _
    (by decide +kernel) (by decide +kernel)

/-- A pass in which the second word has no length. -/
def touchedWord : List Word := [⟨0, 1, "a", 1 / 2⟩, ⟨1, 1, "b", 1 / 2⟩, ⟨1, 2, "c", 1 / 2⟩]

/-- **A word without length is lost although all passes heard it**, and it takes the
word that starts with it along. -/
theorem touchedWord_lost :
    ((∀ w ∈ touchedWord, w.start ≤ w.end_) ∧
        touchedWord.IsChain fun a b => a.end_ ≤ b.start) ∧
      reconcilePasses .ascii (List.replicate 2 touchedWord) (1 / 2) = [⟨0, 1, "a", 1 / 2⟩] ∧
      reconcilePasses .ascii (List.replicate 2 touchedWord) (1 / 2) ≠ touchedWord := by
  decide +kernel

end QaVoting
end MediaHub

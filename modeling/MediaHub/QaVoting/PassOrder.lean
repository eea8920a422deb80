import Mathlib.Tactic.NormNum
import MediaHub.Lib.Sorting
import MediaHub.Lib.Swaps
import MediaHub.QaVoting.Track
import MediaHub.QaVoting.VoteOrder

/-!
# The order of the passes

The position of a pass enters the reconciliation in three places: in the order of
pooled words that start together, in the pass ids, and in the order of the texts of
a slot.  Words that start together and end together can be swapped without moving
the bounds of a slot, so the slots keep their words; the ids are only counted; and
the order of the texts matters for ties only.

## Main definitions

* `SameSpan` — words that may be swapped in the pool.
* `poolOf` — the pool of passes with given ids.
* `relabel` — a change of pass ids.

## Main results

* `swaps_poolOf` — a permutation of the passes swaps words of the same span.
* `slots_of_swaps` — such swaps only reorder the words within the slots.
* `reconcilePasses_perm` — **the order of the passes does not matter**, if words of
  different passes that start together end together and no slot has a tie.
* `passOrder_matters` — both conditions are needed.
-/

namespace MediaHub
namespace QaVoting

/-- Words that may be swapped in the pool. -/
def SameSpan (a b : PooledWord) : Prop := a.span = b.span

/-! ### Slots under swaps -/

section

variable {θ : ℚ} {cur cur' l l' : List PooledWord} {x y w : PooledWord}

/-- The slots that can meet the quorum, as far as their length goes. -/
def longSlots (slots : List (List PooledWord)) : List (List PooledWord) :=
  slots.filter fun slot => 2 ≤ slot.length

/-- The same slots up to the order of the words within them. -/
def SameSlots (slots slots' : List (List PooledWord)) : Prop :=
  List.Forall₂ List.Perm (longSlots slots) (longSlots slots')

theorem SameSlots.cons {s s' : List PooledWord} {slots slots' : List (List PooledWord)}
    (hs : s.Perm s') (h : SameSlots slots slots') : SameSlots (s :: slots) (s' :: slots') := by
  rw [SameSlots, longSlots, longSlots]
  by_cases hlen : 2 ≤ s.length
  · have hlen' : 2 ≤ s'.length := hs.length_eq ▸ hlen
    rw [List.filter_cons_of_pos (by simpa using hlen),
      List.filter_cons_of_pos (by simpa using hlen')]
    exact .cons hs h
  · have hlen' : ¬ 2 ≤ s'.length := hs.length_eq ▸ hlen
    rw [List.filter_cons_of_neg (by simpa using hlen),
      List.filter_cons_of_neg (by simpa using hlen')]
    exact h

theorem SameSlots.refl (slots : List (List PooledWord)) : SameSlots slots slots :=
  List.forall₂_same.mpr fun s _ => List.Perm.refl s

theorem SameSlots.trans {s₁ s₂ s₃ : List (List PooledWord)} (h₁ : SameSlots s₁ s₂)
    (h₂ : SameSlots s₂ s₃) : SameSlots s₁ s₃ :=
  forall₂_trans (fun hab hbc => hab.trans hbc) h₁ h₂

theorem joins_congr (hspan : runningSpan cur = runningSpan cur') (hxy : x.span = y.span) :
    Joins θ cur x ↔ Joins θ cur' y := by
  rw [Joins, Joins, overlapRatio_eq, overlapRatio_eq, hspan, hxy]

/-- Only a word with a length joins a slot. -/
theorem start_lt_end_of_joins (hθ : 0 < θ) (h : Joins θ cur w) : w.start < w.end_ := by
  rw [Joins, overlapRatio_eq] at h
  exact (Span.overlap_pos_iff.mp (Span.overlap_pos_of_le_ratio hθ h)).2.2.2

/-- A word with the span of a word of the slot joins it, if it has a length. -/
theorem joins_of_span_eq (hθ1 : θ ≤ 1) (hx : x ∈ cur) (hxy : x.span = y.span)
    (hy : y.start < y.end_) : Joins θ cur y := by
  have h1 : (runningSpan cur).1 ≤ y.span.1 := by
    rw [← hxy]; exact runningSpan_le_start x hx
  have h2 : y.span.2 ≤ (runningSpan cur).2 := by
    rw [← hxy]; exact end_le_runningSpan x hx
  rw [Joins, overlapRatio_eq, Span.ratio_eq_one_of_subset hy h1 h2]
  exact hθ1

/-- A word without length is alone in its slot. -/
theorem runsFrom_of_end_le (hθ : 0 < θ) (hw : w.end_ ≤ w.start) :
    runsFrom (Joins θ) [w] l = [w] :: runs (Joins θ) l := by
  cases l with
  | nil => rfl
  | cons a l =>
    rw [runsFrom, if_neg, runs]
    rw [Joins, overlapRatio_eq, runningSpan_singleton, Span.ratio_eq_zero_of_le (Or.inl hw)]
    exact not_le.mpr hθ

theorem runsFrom_sameSlots_self (hcur : cur.Perm cur')
    (hspan : runningSpan cur = runningSpan cur') (hne : cur ≠ []) (l : List PooledWord) :
    SameSlots (runsFrom (Joins θ) cur l) (runsFrom (Joins θ) cur' l) := by
  induction l generalizing cur cur' with
  | nil => exact SameSlots.cons hcur (SameSlots.refl [])
  | cons a l ih =>
    have hne' : cur' ≠ [] := by
      intro h
      exact hne (h ▸ hcur).eq_nil
    have hiff : Joins θ cur a ↔ Joins θ cur' a := joins_congr hspan rfl
    rw [runsFrom, runsFrom]
    by_cases hj : Joins θ cur a
    · rw [if_pos hj, if_pos (hiff.mp hj)]
      refine ih (hcur.append_right [a]) ?_ (by simp)
      rw [runningSpan_concat hne, runningSpan_concat hne', hspan]
    · rw [if_neg hj, if_neg (mt hiff.mpr hj)]
      exact SameSlots.cons hcur (SameSlots.refl _)

/-- Two words of the same span that open a slot can be swapped. -/
theorem runsFrom_sameSlots_swap (hθ : 0 < θ) (hθ1 : θ ≤ 1) (hxy : SameSpan x y)
    (l : List PooledWord) :
    SameSlots (runsFrom (Joins θ) [x] (y :: l)) (runsFrom (Joins θ) [y] (x :: l)) := by
  have hstart : x.start = y.start := (Prod.mk.inj hxy).1
  have hend : x.end_ = y.end_ := (Prod.mk.inj hxy).2
  rcases lt_or_ge x.start x.end_ with hx | hx
  · have hy : y.start < y.end_ := hstart ▸ hend ▸ hx
    rw [runsFrom, runsFrom, if_pos (joins_of_span_eq hθ1 (by simp) hxy hy),
      if_pos (joins_of_span_eq hθ1 (by simp) hxy.symm hx)]
    refine runsFrom_sameSlots_self (List.Perm.swap y x []) ?_ (by simp) l
    exact Prod.ext (by simp [runningSpan, hstart]) (by simp [runningSpan, hend])
  · -- without a length, each of the two is alone
    have hy : y.end_ ≤ y.start := hstart ▸ hend ▸ hx
    have hx' : ¬ Joins θ [y] x := by
      intro h
      exact absurd (start_lt_end_of_joins hθ h) (not_lt.mpr hx)
    have hy' : ¬ Joins θ [x] y := by
      intro h
      exact absurd (start_lt_end_of_joins hθ h) (not_lt.mpr hy)
    rw [runsFrom, runsFrom, if_neg hx', if_neg hy', runsFrom_of_end_le hθ hx,
      runsFrom_of_end_le hθ hy]
    exact SameSlots.refl (runs (Joins θ) l)

theorem runsFrom_sameSlots (hθ : 0 < θ) (hθ1 : θ ≤ 1) (h : Swaps SameSpan l l') :
    ∀ {cur cur' : List PooledWord}, cur.Perm cur' → runningSpan cur = runningSpan cur' →
      cur ≠ [] → SameSlots (runsFrom (Joins θ) cur l) (runsFrom (Joins θ) cur' l') := by
  induction h with
  | nil =>
    intro cur cur' hcur _ _
    exact SameSlots.cons hcur (SameSlots.refl [])
  | @cons a l l' hl ih =>
    intro cur cur' hcur hspan hne
    have hne' : cur' ≠ [] := by
      intro h
      exact hne (h ▸ hcur).eq_nil
    have hiff : Joins θ cur a ↔ Joins θ cur' a := joins_congr hspan rfl
    rw [runsFrom, runsFrom]
    by_cases hj : Joins θ cur a
    · rw [if_pos hj, if_pos (hiff.mp hj)]
      refine ih (hcur.append_right [a]) ?_ (by simp)
      rw [runningSpan_concat hne, runningSpan_concat hne', hspan]
    · rw [if_neg hj, if_neg (mt hiff.mpr hj)]
      exact SameSlots.cons hcur (ih (List.Perm.refl [a]) rfl (by simp))
  | @swap x y l hxy =>
    intro cur cur' hcur hspan hne
    have hne' : cur' ≠ [] := by
      intro h
      exact hne (h ▸ hcur).eq_nil
    have hstart : x.start = y.start := (Prod.mk.inj hxy).1
    have hend : x.end_ = y.end_ := (Prod.mk.inj hxy).2
    have hiff : Joins θ cur x ↔ Joins θ cur' y := joins_congr hspan hxy
    by_cases hj : Joins θ cur x
    · -- both words join the open slot
      have hx := start_lt_end_of_joins hθ hj
      have hy : y.start < y.end_ := hstart ▸ hend ▸ hx
      have hjy : Joins θ (cur ++ [x]) y := joins_of_span_eq hθ1 (by simp) hxy hy
      have hjx : Joins θ (cur' ++ [y]) x := joins_of_span_eq hθ1 (by simp) hxy.symm hx
      rw [runsFrom, runsFrom, if_pos hj, if_pos hjy, runsFrom, runsFrom, if_pos (hiff.mp hj),
        if_pos hjx]
      refine runsFrom_sameSlots_self ?_ ?_ (by simp) l
      · rw [List.append_assoc, List.append_assoc]
        exact hcur.append (List.Perm.swap y x [])
      · have happend : ∀ (c : List PooledWord) (v : PooledWord), c ++ [v] ≠ [] := by simp
        rw [runningSpan_concat (happend cur x), runningSpan_concat (happend cur' y),
          runningSpan_concat hne, runningSpan_concat hne', hspan]
        exact Prod.ext (by simp [hstart]) (by simp [hend])
    · rw [runsFrom, if_neg hj]
      conv => rhs; rw [runsFrom, if_neg (mt hiff.mpr hj)]
      exact SameSlots.cons hcur (runsFrom_sameSlots_swap hθ hθ1 hxy l)
  | @trans l₁ l₂ l₃ _ _ ih₁ ih₂ =>
    intro cur cur' hcur hspan hne
    exact (ih₁ (List.Perm.refl cur) rfl hne).trans (ih₂ hcur hspan hne)

/-- **Swapping words of the same span only reorders the words within the slots**, as
far as slots of two words and more go. -/
theorem slots_of_swaps (hθ : 0 < θ) (hθ1 : θ ≤ 1) (h : Swaps SameSpan l l') :
    SameSlots (clusterWordsIntoSlots l θ) (clusterWordsIntoSlots l' θ) := by
  rw [clusterWordsIntoSlots_eq_runs, clusterWordsIntoSlots_eq_runs]
  induction h with
  | nil => exact SameSlots.refl []
  | cons a hl _ => exact runsFrom_sameSlots hθ hθ1 hl (List.Perm.refl [a]) rfl (by simp)
  | swap l hxy => exact runsFrom_sameSlots_swap hθ hθ1 hxy l
  | trans _ _ ih₁ ih₂ => exact ih₁.trans ih₂

end

/-! ### The pool of permuted passes -/

/-- The pool of passes with given ids. -/
def poolOf (marked : List (List Word × ℕ)) : List PooledWord :=
  sortByStart (marked.flatMap fun p => markPass p.1 p.2)

theorem pool_eq_poolOf (passes : List (List Word)) : pool passes = poolOf passes.zipIdx := rfl

section

variable {m m' : List (List Word × ℕ)} {a b : PooledWord}

theorem perm_poolOf (m : List (List Word × ℕ)) :
    (poolOf m).Perm (m.flatMap fun p => markPass p.1 p.2) :=
  List.perm_insertionSort _ _

theorem sorted_poolOf (m : List (List Word × ℕ)) :
    (poolOf m).Pairwise fun a b => a.start ≤ b.start :=
  List.pairwise_insertionSort _ _

theorem nodup_probability_poolOf (h : ((m.flatMap Prod.fst).map (·.probability)).Nodup) :
    ((poolOf m).map (·.probability)).Nodup := by
  apply (((perm_poolOf m).map _).nodup_iff).mpr
  rw [List.map_flatMap] at h ⊢
  have hmark : ∀ p : List Word × ℕ,
      (markPass p.1 p.2).map (·.probability) = p.1.map (·.probability) := by
    intro p
    rw [markPass, List.map_map]
    rfl
  simpa only [hmark] using h

/-- Words of one pass that start together stay in the order of the pass. -/
theorem pair_sublist_poolOf {p : List Word × ℕ} (hp : p ∈ m) (hab : a.start ≤ b.start)
    (h : [a, b].Sublist (markPass p.1 p.2)) : [a, b].Sublist (poolOf m) := by
  refine List.pair_sublist_insertionSort (r := fun a b : PooledWord => a.start ≤ b.start) hab ?_
  exact h.trans (List.sublist_flatten_of_mem (List.mem_map_of_mem hp))

/-- **A permutation of the passes swaps words of the same span only**, if words of
different passes that start together end together. -/
theorem swaps_poolOf (hperm : m.Perm m')
    (hprob : ((m.flatMap Prod.fst).map (·.probability)).Nodup)
    (hspan : m.Pairwise fun p q => ∀ v ∈ p.1, ∀ w ∈ q.1, v.start = w.start → v.end_ = w.end_) :
    Swaps SameSpan (poolOf m) (poolOf m') := by
  have hpool : (poolOf m).Perm (poolOf m') :=
    (perm_poolOf m).trans ((hperm.flatMap_right _).trans (perm_poolOf m').symm)
  have hnodup : (poolOf m).Nodup := (nodup_probability_poolOf hprob).of_map
  have hnodup' : (poolOf m').Nodup := hpool.nodup_iff.mp hnodup
  apply swaps_of_perm hpool
  intro a b hab hba
  have hstart : a.start = b.start := le_antisymm
    (List.pairwise_iff_forall_sublist.mp (sorted_poolOf m) hab)
    (List.pairwise_iff_forall_sublist.mp (sorted_poolOf m') hba)
  have hne : a ≠ b := List.pairwise_iff_forall_sublist.mp hnodup hab
  have hmem : ∀ w ∈ poolOf m, ∃ p ∈ m, w ∈ markPass p.1 p.2 := by
    intro w hw
    exact List.mem_flatMap.mp ((perm_poolOf m).mem_iff.mp hw)
  obtain ⟨p, hp, hap⟩ := hmem a (hab.subset (by simp))
  obtain ⟨q, hq, hbq⟩ := hmem b (hab.subset (by simp))
  by_cases hpq : p = q
  · -- two words of one pass keep their order
    subst hpq
    rcases pair_sublist_or hap hbq hne with h | h
    · have := pair_sublist_poolOf (hperm.mem_iff.mp hp) hstart.le h
      exact absurd hba (not_pair_sublist_of_nodup hnodup' this)
    · have := pair_sublist_poolOf hp hstart.ge h
      exact absurd this (not_pair_sublist_of_nodup hnodup hab)
  · have : Std.Symm fun p q : List Word × ℕ =>
        ∀ v ∈ p.1, ∀ w ∈ q.1, v.start = w.start → v.end_ = w.end_ :=
      ⟨fun p q h v hv w hw hvw => (h w hw v hv hvw.symm).symm⟩
    have hend : a.end_ = b.end_ :=
      hspan.forall hp hq hpq _ (mem_markPass.mp hap).1 _ (mem_markPass.mp hbq).1 hstart
    exact Prod.ext hstart hend

end

/-! ### Pass ids -/

/-- A word with its pass id changed. -/
def relabel (f : ℕ → ℕ) (w : PooledWord) : PooledWord := { w with passId := f w.passId }

section

variable {f : ℕ → ℕ}

theorem poolOf_map (f : ℕ → ℕ) (m : List (List Word × ℕ)) :
    poolOf (m.map fun p => (p.1, f p.2)) = (poolOf m).map (relabel f) := by
  have hmark : ∀ p : List Word × ℕ, markPass p.1 (f p.2) = (markPass p.1 p.2).map (relabel f) := by
    intro p
    rw [markPass, markPass, List.map_map]
    rfl
  have hsort : ∀ l : List PooledWord, (sortByStart l).map (relabel f)
      = sortByStart (l.map (relabel f)) := fun l =>
    List.map_insertionSort (fun a b : PooledWord => a.start ≤ b.start)
      (fun a b : PooledWord => a.start ≤ b.start) (relabel f) l fun _ _ _ _ => Iff.rfl
  rw [poolOf, poolOf, hsort, List.flatMap_map, List.map_flatMap]
  simp only [hmark]

theorem runningSpan_map_relabel (f : ℕ → ℕ) (slot : List PooledWord) :
    runningSpan (slot.map (relabel f)) = runningSpan slot := by
  cases slot with
  | nil => rfl
  | cons w slot => rw [List.map_cons, runningSpan, runningSpan, List.foldl_map]; rfl

/-- The clustering does not look at the pass ids. -/
theorem clusterWordsIntoSlots_map_relabel (f : ℕ → ℕ) (l : List PooledWord) (θ : ℚ) :
    clusterWordsIntoSlots (l.map (relabel f)) θ
      = (clusterWordsIntoSlots l θ).map (List.map (relabel f)) := by
  rw [clusterWordsIntoSlots_eq_runs, clusterWordsIntoSlots_eq_runs]
  exact runs_map (fun cur a => joins_congr (runningSpan_map_relabel f cur) rfl) l

/-- The quorum only counts pass ids. -/
theorem card_contributingPasses_relabel {slot : List PooledWord}
    (hf : ∀ a ∈ slot, ∀ b ∈ slot, f a.passId = f b.passId → a.passId = b.passId) :
    (contributingPasses (slot.map (relabel f))).card = (contributingPasses slot).card := by
  have himage : contributingPasses (slot.map (relabel f)) = (contributingPasses slot).image f := by
    rw [contributingPasses, contributingPasses, List.map_map]
    ext p
    simp [relabel]
  rw [himage, Finset.card_image_of_injOn]
  intro a ha b hb hab
  rw [Finset.mem_coe, contributingPasses, List.mem_toFinset, List.mem_map] at ha hb
  obtain ⟨v, hv, rfl⟩ := ha
  obtain ⟨w, hw, rfl⟩ := hb
  exact hf v hv w hw hab

theorem card_contributingPasses_perm {slot slot' : List PooledWord} (h : slot.Perm slot') :
    (contributingPasses slot).card = (contributingPasses slot').card := by
  rw [contributingPasses, contributingPasses, List.toFinset_eq_of_perm _ _ (h.map _)]

end

/-! ### The reconciliation -/

section

variable (U : Unicodedata)

/-- The winning word of a slot, without its pass id. -/
def winner (slot : List PooledWord) : Option Word := (voteSlot U slot).map (·.toWord)

theorem sortedWinners_eq (slots : List (List PooledWord)) :
    sortedWinners U slots
      = (slots.filterMap (winner U)).insertionSort fun a b => a.start ≤ b.start := by
  rw [sortedWinners, List.map_filterMap]
  rfl

theorem winner_of_short {slot : List PooledWord} (h : ¬ 2 ≤ slot.length) :
    winner U slot = none := by
  rw [winner]
  cases hw : voteSlot U slot with
  | none => rfl
  | some w => exact absurd (two_le_length_of_voteSlot U hw) h

/-- Short slots do not count, where they have no winner. -/
theorem filterMap_longSlots {g : List PooledWord → Option Word}
    (hg : ∀ slot, ¬ 2 ≤ slot.length → g slot = none) (slots : List (List PooledWord)) :
    (longSlots slots).filterMap g = slots.filterMap g := by
  induction slots with
  | nil => rfl
  | cons slot slots ih =>
    rw [longSlots] at ih ⊢
    by_cases hlen : 2 ≤ slot.length
    · rw [List.filter_cons_of_pos (by simpa using hlen), List.filterMap_cons,
        List.filterMap_cons, ih]
    · rw [List.filter_cons_of_neg (by simpa using hlen),
        List.filterMap_cons_none (hg slot hlen), ih]

/-- The winners are the same for words that change places with others that start and end with
them, and for other ids of the passes. -/
theorem filterMap_winner_relabel {θ : ℚ} (hθ : 0 < θ) (hθ1 : θ ≤ 1)
    {m m' : List (List Word × ℕ)} (hswaps : Swaps SameSpan (poolOf m) (poolOf m'))
    (hprob : ((poolOf m).map (·.probability)).Nodup)
    (htie : ∀ slot ∈ clusterWordsIntoSlots (poolOf m) θ, TieFree U slot) {f : ℕ → ℕ}
    (hf : ∀ a ∈ m'.map Prod.snd, ∀ b, f a = f b → a = b) :
    (clusterWordsIntoSlots (poolOf m) θ).filterMap (winner U)
      = (clusterWordsIntoSlots (poolOf m') θ).filterMap (winner U ∘ List.map (relabel f)) := by
  have hshort : ∀ slot : List PooledWord, ¬ 2 ≤ slot.length →
      (winner U ∘ List.map (relabel f)) slot = none := fun slot h =>
    winner_of_short U (by rwa [List.length_map])
  rw [← filterMap_longSlots (fun slot h => winner_of_short U h), ← filterMap_longSlots hshort]
  apply filterMap_eq_of_forall₂ (slots_of_swaps hθ hθ1 hswaps)
  intro slot hslot slot' hslot' hs
  have hsub := sublist_of_mem_cluster (List.mem_of_mem_filter hslot)
  have hsub' := sublist_of_mem_cluster (List.mem_of_mem_filter hslot')
  refine voteSlot_congr U ?_ ?_ ((sorted_poolOf _).sublist hsub) ?_
    (htie slot (List.mem_of_mem_filter hslot)) (hprob.sublist (hsub.map _))
  · rw [List.map_map]
    exact hs.map _
  · rw [card_contributingPasses_relabel, card_contributingPasses_perm hs]
    have hid : ∀ w ∈ slot', w.passId ∈ m'.map Prod.snd := by
      intro w hw
      obtain ⟨p, hp, hwp⟩ := List.mem_flatMap.mp ((perm_poolOf m').mem_iff.mp (hsub'.subset hw))
      rw [(mem_markPass.mp hwp).2]
      exact List.mem_map_of_mem hp
    intro a ha b _ hab
    exact hf _ (hid a ha) _ hab
  · rw [List.pairwise_map]
    exact (sorted_poolOf m').sublist hsub'

/-- **The order of the passes does not matter**, if words of different passes that
start together end together and no slot has a tie. -/
theorem reconcilePasses_perm (θ : ℚ) (hθ : 0 < θ) (hθ1 : θ ≤ 1) (passes passes' : List (List Word))
    (hperm : passes'.Perm passes) (hprob : (passes.flatten.map (·.probability)).Nodup)
    (hspan : passes.Pairwise fun P Q => ∀ v ∈ P, ∀ w ∈ Q, v.start = w.start → v.end_ = w.end_)
    (htie : ∀ slot ∈ clusterWordsIntoSlots (pool passes) θ, TieFree U slot) :
    reconcilePasses U passes' θ = reconcilePasses U passes θ := by
  -- the permuted passes with their old ids, and the change of ids that makes them new
  obtain ⟨m, hm, rfl⟩ := exists_perm_of_perm_map Prod.fst
    (hperm.trans (List.Perm.of_eq (List.zipIdx_map_fst 0 passes).symm))
  have hids : (m.map Prod.snd).Nodup := by
    apply (hm.map Prod.snd).nodup_iff.mpr
    rw [List.zipIdx_map_snd]
    exact List.nodup_range'
  let f : ℕ → ℕ := fun p => (m.map Prod.snd).idxOf p
  have hnew : (m.map Prod.fst).zipIdx = m.map fun p => (p.1, f p.2) := by
    apply List.ext_getElem (by simp)
    intro k hk hk'
    rw [List.length_map] at hk'
    have hidx : f m[k].2 = k := by
      have := hids.idxOf_getElem k (by rwa [List.length_map])
      rwa [List.getElem_map] at this
    simp [hidx]
  have hpool : pool (m.map Prod.fst) = (poolOf m).map (relabel f) := by
    rw [pool_eq_poolOf, hnew, poolOf_map]
  have hflat : passes.zipIdx.flatMap Prod.fst = passes.flatten := by
    rw [List.flatMap_def, List.zipIdx_map_fst]
  have hprob' : ((poolOf passes.zipIdx).map (·.probability)).Nodup :=
    nodup_probability_poolOf (hflat ▸ hprob)
  have hswaps : Swaps SameSpan (poolOf passes.zipIdx) (poolOf m) := by
    apply swaps_poolOf hm.symm (hflat ▸ hprob)
    rw [← List.zipIdx_map_fst 0 passes, List.pairwise_map] at hspan
    exact hspan
  have hwinners : (clusterWordsIntoSlots (pool passes) θ).filterMap (winner U)
      = (clusterWordsIntoSlots (poolOf m) θ).filterMap (winner U ∘ List.map (relabel f)) :=
    filterMap_winner_relabel U hθ hθ1 hswaps hprob' htie
      fun a ha b hab => (List.idxOf_inj ha).mp hab
  rw [reconcilePasses, reconcilePasses, sortedWinners_eq, sortedWinners_eq, hpool,
    clusterWordsIntoSlots_map_relabel, List.filterMap_map, hwinners]

end

/-- Three passes, two of which start their word together. -/
def startTogether : List (List Word) :=
  [[⟨0, 1, "hello", 1 / 2⟩], [⟨1 / 10, 1, "hallo", 3 / 4⟩], [⟨0, 1, "hello.", 1 / 3⟩]]

theorem reconcilePasses_perm_startTogether :
    reconcilePasses .ascii startTogether.reverse (1 / 2)
      = reconcilePasses .ascii startTogether (1 / 2) :=
  reconcilePasses_perm .ascii (1 / 2) (by norm_num) (by norm_num) startTogether
    startTogether.reverse (List.reverse_perm _) (by decide +kernel) (by decide +kernel)
    (by decide +kernel)

/-- Three passes, two of which start a word together but do not end it together. -/
def startTogetherOnly : List (List Word) :=
  [[⟨0, 10, "a", 1 / 2⟩], [⟨9, 21 / 2, "b", 1 / 3⟩], [⟨9, 20, "c", 1 / 4⟩]]

/-- Four passes that are tied between two texts. -/
def tiedPasses : List (List Word) :=
  [[⟨0, 1, "a", 1 / 2⟩], [⟨0, 1, "a", 1 / 4⟩], [⟨0, 1, "b", 9 / 20⟩], [⟨0, 1, "b", 3 / 10⟩]]

/-- Six passes that are tied between two texts but for the rounding of the sums. -/
def roundedPasses : List (List Word) :=
  [[⟨0, 1, "no", 71 / 100⟩], [⟨0, 1, "no", 37 / 100⟩], [⟨0, 1, "no", 9 / 100⟩],
    [⟨0, 1, "yes", 11 / 100⟩], [⟨0, 1, "yes", 91 / 100⟩], [⟨0, 1, "yes", 15 / 100⟩]]

/-- **The order of the passes can matter**: in the first case it decides which of two
words is the first to be compared with the open slot, in the second which text
comes up first, and in the third how the sums are rounded. -/
theorem passOrder_matters :
    (∀ passes ∈ [startTogetherOnly, tiedPasses, roundedPasses],
      (∀ ws ∈ passes, ∀ w ∈ ws, w.start ≤ w.end_) ∧
      (passes.flatten.map (·.probability)).Nodup ∧ passes.reverse.Perm passes ∧
      reconcilePasses .ascii passes.reverse (1 / 2) ≠ reconcilePasses .ascii passes (1 / 2)) ∧
    reconcilePasses .ascii tiedPasses (1 / 2) = [⟨0, 1, "a", 1 / 2⟩] ∧
    reconcilePasses .ascii tiedPasses.reverse (1 / 2) = [⟨0, 1, "b", 9 / 20⟩] ∧
    reconcilePasses .ascii roundedPasses (1 / 2) = [⟨0, 1, "no", 71 / 100⟩] ∧
    reconcilePasses .ascii roundedPasses.reverse (1 / 2) = [⟨0, 1, "yes", 91 / 100⟩] := by
  decide +kernel

end QaVoting
end MediaHub

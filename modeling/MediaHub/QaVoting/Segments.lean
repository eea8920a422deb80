import MediaHub.QaVoting.Track

/-!
# Segments of the reconciled track

The reconciled words are cut at pauses before they go back to the caller.  This is
a greedy sweep again: a word stays in the open segment unless it starts too long
after the last word of it.

## Main definitions

* `Follows` — a word that stays in the open segment.
* `Division` — a division of words at the pauses between them.

## Main results

* `groupIntoSegments_eq_runs` — **the segments are the runs of that sweep.**
* `division_iff_eq` — **the segments are the only division of the words at their pauses.**
* `groupIntoSegments_reconcilePasses` — so are those of the track, and they come one after
  another.
* `groupIntoSegments_reconcilePasses_eq_nil` — when there is nothing to return.
-/

namespace MediaHub
namespace QaVoting

/-- A word stays in the open segment when the pause before it is short enough. -/
def Follows (maxGap : ℚ) (segment : List Word) (word : Word) : Prop :=
  ∀ last ∈ segment.getLast?, word.start - last.end_ ≤ maxGap

instance (maxGap : ℚ) (segment : List Word) (word : Word) :
    Decidable (Follows maxGap segment word) := by
  unfold Follows
  cases segment.getLast? with
  | none => exact isTrue (by simp)
  | some last => exact decidable_of_iff (word.start - last.end_ ≤ maxGap) (by simp)

theorem follows_concat {maxGap : ℚ} {segment : List Word} {last word : Word} :
    Follows maxGap (segment ++ [last]) word ↔ word.start - last.end_ ≤ maxGap := by
  simp [Follows]

/-- What one turn of the loop does to the open segment. -/
theorem segmentStep_concat (maxGap : ℚ) (done : List (List Word)) (segment : List Word)
    (last word : Word) :
    segmentStep maxGap (done ++ [segment ++ [last]]) (last, word)
      = if Follows maxGap (segment ++ [last]) word then
          done ++ [segment ++ [last] ++ [word]]
        else done ++ [segment ++ [last]] ++ [[word]] := by
  unfold segmentStep
  by_cases hgap : word.start - last.end_ > maxGap
  · rw [if_pos hgap, if_neg (mt follows_concat.mp (not_le.mpr hgap)), List.modifyLast_concat]
    rfl
  · rw [if_neg hgap, if_pos (follows_concat.mpr (not_lt.mp hgap)), List.modifyLast_concat]

theorem foldl_segmentStep (maxGap : ℚ) (rest : List Word) :
    ∀ (done : List (List Word)) (segment : List Word) (last : Word),
      ((last :: rest).zip rest).foldl (segmentStep maxGap) (done ++ [segment ++ [last]])
        = done ++ runsFrom (Follows maxGap) (segment ++ [last]) rest := by
  induction rest with
  | nil => intro done segment last; rfl
  | cons word rest ih =>
    intro done segment last
    rw [List.zip_cons_cons, List.foldl_cons, segmentStep_concat, runsFrom]
    by_cases hf : Follows maxGap (segment ++ [last]) word
    · rw [if_pos hf, if_pos hf]
      exact ih done (segment ++ [last]) word
    · rw [if_neg hf, if_neg hf]
      have h := ih (done ++ [segment ++ [last]]) [] word
      rw [List.nil_append] at h
      rw [h, List.append_assoc, List.singleton_append]

/-- **The segments are the runs of the sweep.** -/
theorem groupIntoSegments_eq_runs (words : List Word) (maxGap : ℚ) :
    groupIntoSegments words maxGap = runs (Follows maxGap) words := by
  cases words with
  | nil => rfl
  | cons first rest => exact foldl_segmentStep maxGap rest [] [] first

/-- No segment is empty. -/
theorem ne_nil_of_mem_groupIntoSegments {words segment : List Word} {maxGap : ℚ}
    (h : segment ∈ groupIntoSegments words maxGap) : segment ≠ [] := by
  rw [groupIntoSegments_eq_runs] at h
  exact ne_nil_of_mem_runs h

@[simp] theorem groupIntoSegments_eq_nil {words : List Word} {maxGap : ℚ} :
    groupIntoSegments words maxGap = [] ↔ words = [] := by
  rw [groupIntoSegments_eq_runs, runs_eq_nil]

/-! ### The only division -/

/-- A division of words into segments: a pause within a segment is at most as long as
`maxGap`, and one between two segments is longer. -/
structure Division (maxGap : ℚ) (words : List Word) (segments : List (List Word)) : Prop where
  flatten : segments.flatten = words
  ne_nil : ∀ segment ∈ segments, segment ≠ []
  within : ∀ segment ∈ segments,
    segment.IsChain fun previous current => current.start - previous.end_ ≤ maxGap
  between : segments.IsChain fun segment next =>
    ∀ previous ∈ segment.getLast?, ∀ current ∈ next.head?, current.start - previous.end_ > maxGap

theorem within_iff {maxGap : ℚ} {segment : List Word} :
    (segment.IsChain fun previous current => current.start - previous.end_ ≤ maxGap) ↔
      ∀ pre word post, segment = pre ++ word :: post → pre ≠ [] → Follows maxGap pre word := by
  constructor
  · rintro h pre word post rfl - last hlast
    exact (List.isChain_append.mp h).2.2 last hlast word rfl
  · intro h
    rw [List.isChain_iff_forall_rel_of_append_cons_cons]
    rintro previous current pre post rfl
    exact follows_concat.mp (h (pre ++ [previous]) current post (by simp) (by simp))

/-- A division is what the sweep is described by. -/
theorem division_iff_isRuns {maxGap : ℚ} {words : List Word} {segments : List (List Word)} :
    Division maxGap words segments ↔ IsRuns (Follows maxGap) words segments := by
  have hbroken : ∀ segment next : List Word, segment ≠ [] →
      ((∀ previous ∈ segment.getLast?, ∀ current ∈ next.head?,
        current.start - previous.end_ > maxGap) ↔
      ∀ current ∈ next.head?, ¬ Follows maxGap segment current) := by
    intro segment next hne
    obtain ⟨pre, last, rfl⟩ := (List.eq_nil_or_concat segment).resolve_left hne
    simp [Follows, lt_sub_iff_add_lt]
  constructor
  · intro h
    refine ⟨h.flatten, h.ne_nil, fun r hr => within_iff.mp (h.within r hr), ?_⟩
    exact h.between.imp_of_mem_imp fun r s hr _ => (hbroken r s (h.ne_nil r hr)).mp
  · intro h
    refine ⟨h.flatten, h.ne_nil, fun r hr => within_iff.mpr (h.joined r hr), ?_⟩
    exact h.broken.imp_of_mem_imp fun r s hr _ => (hbroken r s (h.ne_nil r hr)).mpr

/-- **The segments are the only division of the words at their pauses.** -/
theorem division_iff_eq {maxGap : ℚ} {words : List Word} {segments : List (List Word)} :
    Division maxGap words segments ↔ segments = groupIntoSegments words maxGap := by
  rw [division_iff_isRuns, groupIntoSegments_eq_runs]
  refine ⟨IsRuns.eq_runs, ?_⟩
  rintro rfl
  exact isRuns_runs words

/-! ### When there is nothing to return -/

variable (U : Unicodedata)

theorem resolveOverlaps_eq_nil {winners : List Word} :
    resolveOverlaps U winners = [] ↔ winners = [] := by
  constructor
  · intro h
    cases winners with
    | nil => rfl
    | cons w ws =>
      -- the first winner is kept, and nothing kept is given up again
      have hkeep : ∀ (ws out : List Word), out ≠ [] → ws.foldl (resolveStep U) out ≠ [] := by
        intro ws
        induction ws with
        | nil => intro out hout; exact hout
        | cons v ws ih =>
          intro out hout
          apply ih _
          unfold resolveStep
          split
          · simp
          · split
            · split
              · exact hout
              · simp
            · simp
      exact absurd h (hkeep ws [w] (by simp))
  · rintro rfl
    rfl

/-- **Nothing is returned** exactly when no slot holds words of two passes. -/
theorem groupIntoSegments_reconcilePasses_eq_nil {passes : List (List Word)} {θ maxGap : ℚ} :
    groupIntoSegments (reconcilePasses U passes θ) maxGap = [] ↔
      ∀ slot ∈ clusterWordsIntoSlots (pool passes) θ, (contributingPasses slot).card < 2 := by
  rw [groupIntoSegments_eq_nil, reconcilePasses, resolveOverlaps_eq_nil,
    ← List.length_eq_zero_iff, (perm_sortedWinners U _).length_eq, List.length_map,
    List.length_eq_zero_iff, List.filterMap_eq_nil_iff]
  apply forall₂_congr
  intro slot _
  rw [← Option.not_isSome_iff_eq_none, isSome_voteSlot_iff, Nat.not_le]

/-! ### The segments of the track -/

/-- The time from the first start to the last end of a segment. -/
def InSpan (segment : List Word) (t : ℚ) : Prop :=
  (∃ word ∈ segment, word.start ≤ t) ∧ ∃ word ∈ segment, t ≤ word.end_

/-- The words of the track come one after another. -/
theorem pairwise_reconcilePasses {passes : List (List Word)} (θ : ℚ)
    (h : ∀ ws ∈ passes, ∀ w ∈ ws, w.start ≤ w.end_) :
    (reconcilePasses U passes θ).Pairwise (fun a b => a.end_ ≤ b.start) ∧
      ∀ w ∈ reconcilePasses U passes θ, w.start ≤ w.end_ := by
  obtain ⟨hchain, hends⟩ :=
    isChain_resolveOverlaps U (start_le_end_of_mem_sortedWinners U (θ := θ) h)
  refine ⟨?_, hends⟩
  -- behind a word that has ended, what follows has not started yet
  let R : Word → Word → Prop := fun a b => a.end_ ≤ b.start ∧ b.start ≤ b.end_
  have htrans : Trans R R R := ⟨fun hab hbc => ⟨(hab.1.trans hab.2).trans hbc.1, hbc.2⟩⟩
  have hR : (reconcilePasses U passes θ).IsChain R :=
    hchain.imp_of_mem_imp fun a b _ hb hab => ⟨hab, hends b hb⟩
  exact (List.isChain_iff_pairwise.mp hR).imp And.left

/-- In a division of words that come one after another, so do the segments, with time
between them. -/
theorem Division.pairwise {maxGap : ℚ} {words : List Word} {segments : List (List Word)}
    (h : Division maxGap words segments) (hgap : 0 ≤ maxGap)
    (hends : ∀ w ∈ words, w.start ≤ w.end_)
    (hwords : words.Pairwise fun a b => a.end_ ≤ b.start) :
    segments.Pairwise fun segment next =>
      ∀ previous ∈ segment, ∀ current ∈ next, previous.end_ < current.start := by
  induction segments generalizing words with
  | nil => exact List.Pairwise.nil
  | cons segment rest ih =>
    obtain rfl : segment ++ rest.flatten = words := h.flatten
    obtain ⟨hsegment, hrest, -⟩ := List.pairwise_append.mp hwords
    have htail : Division maxGap rest.flatten rest :=
      ⟨rfl, fun s hs => h.ne_nil s (List.mem_cons_of_mem _ hs),
        fun s hs => h.within s (List.mem_cons_of_mem _ hs), h.between.tail⟩
    refine List.pairwise_cons.mpr ⟨?_, ih htail (fun w hw => hends w (List.mem_append_right _ hw))
      hrest⟩
    intro next hnext previous hprevious current hcurrent
    obtain ⟨s, rest, rfl⟩ : ∃ s rest', rest = s :: rest' :=
      List.exists_cons_of_ne_nil (List.ne_nil_of_mem hnext)
    obtain ⟨first, s, rfl⟩ := List.exists_cons_of_ne_nil (htail.ne_nil s List.mem_cons_self)
    obtain ⟨pre, last, rfl⟩ :=
      (List.eq_nil_or_concat segment).resolve_left (h.ne_nil segment List.mem_cons_self)
    -- the pause is between the last word of the segment and the first word beyond it
    have hpause : last.end_ < first.start := by
      have hbetween := (List.isChain_cons_cons.mp h.between).1 last (by simp) first rfl
      linarith
    have hbefore : previous.end_ ≤ last.end_ := by
      rcases List.mem_append.mp (List.concat_eq_append ▸ hprevious) with hpre | hlast
      · rw [List.concat_eq_append] at hsegment
        refine ((List.pairwise_append.mp hsegment).2.2 previous hpre last (by simp)).trans ?_
        exact hends last (by simp)
      · obtain rfl := List.mem_singleton.mp hlast
        exact le_rfl
    have hafter : first.start ≤ current.start := by
      have hmem : current ∈ first :: (s ++ rest.flatten) :=
        List.mem_flatten.mpr ⟨next, hnext, hcurrent⟩
      rcases List.mem_cons.mp hmem with rfl | hmem
      · exact le_rfl
      · exact (hends first (by simp)).trans ((List.pairwise_cons.mp hrest).1 current hmem)
    exact (hbefore.trans_lt hpause).trans_le hafter

/-- **The segments of the track** are the only division of it at the pauses that are longer
than `maxGap`, and their times come one after another without meeting. -/
theorem groupIntoSegments_reconcilePasses {passes : List (List Word)}
    (h : ∀ ws ∈ passes, ∀ w ∈ ws, w.start ≤ w.end_) (θ : ℚ) {maxGap : ℚ} (hgap : 0 ≤ maxGap) :
    Division maxGap (reconcilePasses U passes θ)
        (groupIntoSegments (reconcilePasses U passes θ) maxGap) ∧
      (groupIntoSegments (reconcilePasses U passes θ) maxGap).Pairwise (fun segment next =>
        ∀ s t, InSpan segment s → InSpan next t → s < t) ∧
      ∀ segments, Division maxGap (reconcilePasses U passes θ) segments →
        segments = groupIntoSegments (reconcilePasses U passes θ) maxGap := by
  have hdivision := division_iff_eq.mpr (rfl : groupIntoSegments (reconcilePasses U passes θ) maxGap
    = groupIntoSegments (reconcilePasses U passes θ) maxGap)
  obtain ⟨hpairwise, hends⟩ := pairwise_reconcilePasses U θ h
  refine ⟨hdivision, ?_, fun segments hsegments => division_iff_eq.mp hsegments⟩
  refine (hdivision.pairwise hgap hends hpairwise).imp ?_
  rintro segment next hbefore s t ⟨-, v, hv, hsv⟩ ⟨⟨w, hw, hwt⟩, -⟩
  exact (hsv.trans_lt (hbefore v hv w hw)).trans_le hwt

/-- Two passes of three words, with a pause before the last one. -/
def paused : List (List Word) :=
  [[⟨0, 1, "good", 3 / 4⟩, ⟨1, 2, "morning", 3 / 4⟩, ⟨4, 5, "hello", 3 / 4⟩],
    [⟨0, 1, "good", 1 / 2⟩, ⟨1, 2, "morning", 1 / 2⟩, ⟨4, 5, "hello", 1 / 2⟩]]

theorem groupIntoSegments_reconcilePasses_paused :
    Division (1 / 2) (reconcilePasses .ascii paused (1 / 2))
        (groupIntoSegments (reconcilePasses .ascii paused (1 / 2)) (1 / 2)) ∧
      groupIntoSegments (reconcilePasses .ascii paused (1 / 2)) (1 / 2) =
        [[⟨0, 1, "good", 3 / 4⟩, ⟨1, 2, "morning", 3 / 4⟩], [⟨4, 5, "hello", 3 / 4⟩]] :=
  ⟨(groupIntoSegments_reconcilePasses .ascii (by decide +kernel : ∀ ws ∈ paused, ∀ w ∈ ws,
    w.start ≤ w.end_) (1 / 2) (by norm_num)).1, by decide +kernel⟩

end QaVoting
end MediaHub

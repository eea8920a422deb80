import MediaHub.QaVoting.Track

/-!
# Passes that agree

Where every pass heard the same words and the passes differ only by a jitter too
small to confuse neighbours, the slots are the columns of the table of passes: the
`k`-th slot holds the `k`-th word of each pass.  The winners then spell the text
the passes agree on, and what the repair can drop is a repeated word whose winner
runs into the winner before it.

## Main definitions

* `Unanimous` — passes that agree on a text up to jitter.
* `column` — the `k`-th words of the passes.

## Main results

* `Unanimous.slots_eq` — **the slots are the columns.**
* `reconcilePasses_unanimous` — **the track spells the text**, up to repeated words.
-/

namespace MediaHub
namespace QaVoting

/-- Passes that agree on the text `t` up to jitter: in every pass the `k`-th word has
the `k`-th text; it is closer to the `k`-th word of any other pass than the
threshold asks for, and farther from the next word of any other pass. -/
structure Unanimous (U : Unicodedata) (θ : ℚ) (passes : List (List Word)) (t : List String) :
    Prop where
  /-- Every pass spells the text. -/
  texts : ∀ ws ∈ passes, ws.map (fun w => normalize U w.word) = t
  /-- Each pass is sorted, without overlaps. -/
  isPass : ∀ ws ∈ passes, IsPass ws
  /-- Each word has a length. -/
  start_lt_end : ∀ ws ∈ passes, ∀ w ∈ ws, w.start < w.end_
  /-- The `k`-th words of two passes overlap by the threshold. -/
  close : ∀ P ∈ passes, ∀ Q ∈ passes, ∀ xy ∈ P.zip Q,
    θ * Span.shorter xy.1.span xy.2.span ≤ Span.overlap xy.1.span xy.2.span
  /-- The `k`-th word of a pass and the `k + 1`-th word of another do not. -/
  apart : ∀ P ∈ passes, ∀ Q ∈ passes, P ≠ Q → ∀ xy ∈ P.zip Q.tail,
    Span.overlap xy.1.span xy.2.span < θ * Span.shorter xy.1.span xy.2.span

/-- The `k`-th word of some pass. -/
def At (passes : List (List Word)) (k : ℕ) (w : Word) : Prop := ∃ ws ∈ passes, ws[k]? = some w

/-! ### Words of one column and of different columns -/

namespace Unanimous

variable {U : Unicodedata} {θ : ℚ} {passes : List (List Word)} {t : List String}
  {k l : ℕ} {x y : Word}

theorem length_eq (h : Unanimous U θ passes t) {ws : List Word} (hws : ws ∈ passes) :
    ws.length = t.length := by
  rw [← h.texts ws hws, List.length_map]

theorem text_eq (h : Unanimous U θ passes t) (hx : At passes k x) :
    t[k]? = some (normalize U x.word) := by
  obtain ⟨ws, hws, hk⟩ := hx
  rw [← h.texts ws hws, List.getElem?_map, hk, Option.map_some]

/-- Every pass has a `k`-th word, if some pass does. -/
theorem exists_getElem? (h : Unanimous U θ passes t) (hx : At passes k x) {ws : List Word}
    (hws : ws ∈ passes) : ∃ w, ws[k]? = some w := by
  obtain ⟨P, hP, hk⟩ := hx
  have hlt := (List.getElem?_eq_some_iff.mp hk).1
  rw [h.length_eq hP, ← h.length_eq hws] at hlt
  exact ⟨ws[k], List.getElem?_eq_getElem hlt⟩

theorem start_lt_end_of_at (h : Unanimous U θ passes t) (hx : At passes k x) :
    x.start < x.end_ := by
  obtain ⟨P, hP, hk⟩ := hx
  exact h.start_lt_end P hP x (List.mem_of_getElem? hk)

/-- Words of one column overlap by the threshold. -/
theorem le_overlap (h : Unanimous U θ passes t) (hx : At passes k x) (hy : At passes k y) :
    θ * Span.shorter x.span y.span ≤ Span.overlap x.span y.span := by
  obtain ⟨P, hP, hk⟩ := hx
  obtain ⟨Q, hQ, hl⟩ := hy
  have hzip : (P.zip Q)[k]? = some (x, y) := List.getElem?_zip_eq_some.mpr ⟨hk, hl⟩
  exact h.close P hP Q hQ (x, y) (List.mem_of_getElem? hzip)

theorem start_lt_end_of_close (h : Unanimous U θ passes t) (hθ : 0 < θ) (hx : At passes k x)
    (hy : At passes k y) : x.start < y.end_ := by
  have hpos : 0 < Span.shorter x.span y.span :=
    Span.shorter_pos_iff.mpr ⟨h.start_lt_end_of_at hx, h.start_lt_end_of_at hy⟩
  have := lt_of_lt_of_le (mul_pos hθ hpos) (h.le_overlap hx hy)
  exact (Span.overlap_pos_iff.mp this).2.1

/-- In one pass a later word starts after the end of an earlier one. -/
theorem follow (h : Unanimous U θ passes t) {ws : List Word} (hws : ws ∈ passes)
    (hk : ws[k]? = some x) (hl : ws[l]? = some y) (hkl : k < l) : x.end_ ≤ y.start := by
  obtain ⟨hk', rfl⟩ := List.getElem?_eq_some_iff.mp hk
  obtain ⟨hl', rfl⟩ := List.getElem?_eq_some_iff.mp hl
  exact List.pairwise_iff_getElem.mp ((h.isPass ws hws).follow (h.start_lt_end ws hws))
    k l hk' hl' hkl

/-- A word of a later column starts later. -/
theorem start_lt (h : Unanimous U θ passes t) (hθ : 0 < θ) (hx : At passes k x)
    (hy : At passes l y) (hkl : k < l) : x.start < y.start := by
  obtain ⟨Q, hQ, hl⟩ := hy
  obtain ⟨z, hz⟩ := h.exists_getElem? hx hQ
  calc x.start < z.end_ := h.start_lt_end_of_close hθ hx ⟨Q, hQ, hz⟩
    _ ≤ y.start := h.follow hQ hz hl hkl

/-- A word of a later column ends later. -/
theorem end_lt (h : Unanimous U θ passes t) (hθ : 0 < θ) (hx : At passes k x)
    (hy : At passes l y) (hkl : k < l) : x.end_ < y.end_ := by
  obtain ⟨P, hP, hk⟩ := hx
  obtain ⟨z, hz⟩ := h.exists_getElem? hy hP
  calc x.end_ ≤ z.start := h.follow hP hk hz hkl
    _ < y.end_ := h.start_lt_end_of_close hθ ⟨P, hP, hz⟩ hy

/-- A word ends before a word of the column after the next one starts. -/
theorem end_le_start (h : Unanimous U θ passes t) (hθ : 0 < θ) (hx : At passes k x)
    (hy : At passes l y) (hkl : k + 2 ≤ l) : x.end_ ≤ y.start := by
  obtain ⟨P, hP, hk⟩ := hx
  obtain ⟨v, hv⟩ := h.exists_getElem? hy hP
  have hlt := (List.getElem?_eq_some_iff.mp hv).1
  have hz : P[k + 1]? = some P[k + 1] := List.getElem?_eq_getElem (by omega)
  calc x.end_ ≤ P[k + 1].start := h.follow hP hk hz (by omega)
    _ ≤ y.start := (h.start_lt hθ ⟨P, hP, hz⟩ hy (by omega)).le

/-- Words of neighbouring columns stay below the threshold. -/
theorem overlap_lt (h : Unanimous U θ passes t) (hθ : 0 < θ) (hx : At passes k x)
    (hy : At passes (k + 1) y) :
    Span.overlap x.span y.span < θ * Span.shorter x.span y.span := by
  have hpos : 0 < Span.shorter x.span y.span :=
    Span.shorter_pos_iff.mpr ⟨h.start_lt_end_of_at hx, h.start_lt_end_of_at hy⟩
  obtain ⟨P, hP, hk⟩ := hx
  obtain ⟨Q, hQ, hl⟩ := hy
  by_cases hPQ : P = Q
  · subst hPQ
    rw [Span.overlap_eq_zero_of_le (h.follow hP hk hl (by omega))]
    exact mul_pos hθ hpos
  · have hzip : (P.zip Q.tail)[k]? = some (x, y) :=
      List.getElem?_zip_eq_some.mpr ⟨hk, by rwa [List.getElem?_tail]⟩
    exact h.apart P hP Q hQ hPQ (x, y) (List.mem_of_getElem? hzip)

end Unanimous

/-! ### The columns -/

/-- The `k`-th word of one pass, marked with its position. -/
def cell (p : List Word × ℕ) (k : ℕ) : List PooledWord :=
  (p.1[k]?.map fun word => { word with passId := p.2 }).toList

/-- The `k`-th words of the passes. -/
def column (passes : List (List Word)) (k : ℕ) : List PooledWord :=
  passes.zipIdx.flatMap fun p => cell p k

theorem mem_cell {p : List Word × ℕ} {k : ℕ} {w : PooledWord} :
    w ∈ cell p k ↔ p.1[k]? = some w.toWord ∧ w.passId = p.2 := by
  rw [cell, Option.mem_toList, Option.map_eq_some_iff]
  constructor
  · rintro ⟨v, hv, rfl⟩
    exact ⟨hv, rfl⟩
  · rintro ⟨hw, hid⟩
    exact ⟨w.toWord, hw, by rw [← hid]⟩

/-- A column holds the `k`-th words of the passes, each marked with its pass. -/
theorem mem_column {passes : List (List Word)} {k : ℕ} {w : PooledWord} :
    w ∈ column passes k ↔ ∃ ws, passes[w.passId]? = some ws ∧ ws[k]? = some w.toWord := by
  rw [column, List.mem_flatMap]
  constructor
  · rintro ⟨⟨ws, p⟩, hp, hw⟩
    obtain ⟨hk, rfl⟩ := mem_cell.mp hw
    exact ⟨ws, List.mem_zipIdx_iff_getElem?.mp hp, hk⟩
  · rintro ⟨ws, hp, hk⟩
    exact ⟨(ws, w.passId), List.mem_zipIdx_iff_getElem?.mpr hp, mem_cell.mpr ⟨hk, rfl⟩⟩

theorem at_of_mem_column {passes : List (List Word)} {k : ℕ} {w : PooledWord}
    (h : w ∈ column passes k) : At passes k w.toWord := by
  obtain ⟨ws, hws, hk⟩ := mem_column.mp h
  exact ⟨ws, List.mem_of_getElem? hws, hk⟩

/-- A pass is the list of its cells. -/
theorem markPass_eq_flatMap_cell (ws : List Word) (p : ℕ) :
    markPass ws p = (List.range ws.length).flatMap (cell (ws, p)) := by
  induction ws using List.reverseRecOn with
  | nil => rfl
  | append_singleton ws w ih =>
    have hold : ∀ k ∈ List.range ws.length, cell (ws ++ [w], p) k = cell (ws, p) k := by
      intro k hk
      rw [cell, cell, List.getElem?_append_left (List.mem_range.mp hk)]
    rw [List.length_append, List.length_singleton, List.range_succ, List.flatMap_append,
      List.flatMap_congr hold, ← ih, markPass, markPass, List.map_append]
    simp [cell]

/-- **The pool is the columns, rearranged.** -/
theorem perm_pool_columns {passes : List (List Word)} {n : ℕ}
    (h : ∀ ws ∈ passes, ws.length = n) :
    (pool passes).Perm ((List.range n).map (column passes)).flatten := by
  have hmark : ∀ p ∈ passes.zipIdx, markPass p.1 p.2 = (List.range n).flatMap (cell p) := by
    intro p hp
    have hws : p.1 ∈ passes := List.mem_of_getElem? (List.mem_zipIdx_iff_getElem?.mp hp)
    rw [markPass_eq_flatMap_cell, h p.1 hws]
  apply (perm_pool passes).trans
  rw [List.flatMap_congr hmark, ← List.flatMap_def]
  exact perm_flatMap_flatMap _ _ _

/-! ### The slots are the columns -/

section

variable {U : Unicodedata} {θ : ℚ} {passes : List (List Word)} {t : List String}

/-- A column has a word of every pass. -/
theorem Unanimous.exists_mem_column (h : Unanimous U θ passes t) {k : ℕ} (hk : k < t.length)
    {p : ℕ} (hp : p < passes.length) : ∃ w ∈ column passes k, w.passId = p := by
  have hlen := h.length_eq (List.getElem_mem hp)
  exact ⟨{ passes[p][k] with passId := p }, mem_column.mpr
    ⟨passes[p], List.getElem?_eq_getElem hp, List.getElem?_eq_getElem (by omega)⟩, rfl⟩

/-- **The slots are the columns**, each sorted by start. -/
theorem Unanimous.slots_eq (h : Unanimous U θ passes t) (hθ : 0 < θ) (hθ1 : θ ≤ 1)
    (hne : passes ≠ []) : (clusterWordsIntoSlots (pool passes) θ).length = t.length ∧
      ∀ (k : ℕ) slot, (clusterWordsIntoSlots (pool passes) θ)[k]? = some slot →
        slot.Perm (column passes k) := by
  -- cut the pool along the columns
  obtain ⟨rs, hflat, hperm⟩ := @exists_blocks_of_perm_flatten _ _ _ (fun w => w.start) _ _
    (sorted_pool passes) (perm_pool_columns fun ws hws => h.length_eq hws) (by
      rw [List.pairwise_map]
      apply List.pairwise_lt_range.imp
      intro k l hkl x hx y hy
      exact h.start_lt hθ (at_of_mem_column hx) (at_of_mem_column hy) hkl)
  rw [List.forall₂_map_right_iff, List.forall₂_iff_get] at hperm
  obtain ⟨hlen, hcol⟩ := hperm
  rw [List.length_range] at hlen
  have hcolumn : ∀ (k : ℕ) r, rs[k]? = some r → k < t.length ∧ r.Perm (column passes k) := by
    intro k r hk
    obtain ⟨hlt, rfl⟩ := List.getElem?_eq_some_iff.mp hk
    have := hcol k hlt (by rw [List.length_range, ← hlen]; exact hlt)
    simp only [List.get_eq_getElem, List.getElem_range] at this
    exact ⟨hlen ▸ hlt, this⟩
  have hnil : ∀ r ∈ rs, r ≠ [] := by
    intro r hr
    obtain ⟨k, hk⟩ := List.mem_iff_getElem?.mp hr
    obtain ⟨hlt, hp⟩ := hcolumn k r hk
    obtain ⟨w, hw, -⟩ := h.exists_mem_column hlt (List.length_pos_iff.mpr hne)
    exact List.ne_nil_of_mem (hp.mem_iff.mpr hw)
  -- and these are the runs of the sweep
  have hruns : IsRuns (Joins θ) (pool passes) rs := by
    refine ⟨hflat, hnil, ?_, List.isChain_iff_getElem.mpr ?_⟩
    · intro r hr pre w post heq hpre
      obtain ⟨f, pre, rfl⟩ := List.exists_cons_of_ne_nil hpre
      obtain ⟨k, hk⟩ := List.mem_iff_getElem?.mp hr
      have hp := (hcolumn k r hk).2
      have hf := at_of_mem_column (hp.mem_iff.mp (by simp [heq] : f ∈ r))
      have hw := at_of_mem_column (hp.mem_iff.mp (by simp [heq] : w ∈ r))
      have hsorted := (sorted_pool passes).sublist (hflat ▸ List.sublist_flatten_of_mem hr)
      rw [heq, List.cons_append, List.pairwise_cons] at hsorted
      exact joins_of_close hθ hθ1 (fun m hm => hsorted.1 m (List.mem_append_left _ hm))
        (h.start_lt_end_of_at hf) (h.start_lt_end_of_at hw) (hsorted.1 w (by simp))
        (h.le_overlap hf hw)
    · intro k hk w hw
      have hp := (hcolumn k _ (List.getElem?_eq_getElem (by omega))).2
      have hp' := (hcolumn (k + 1) _ (List.getElem?_eq_getElem hk)).2
      have hwat := at_of_mem_column (hp'.mem_iff.mp (List.mem_of_mem_head? hw))
      refine not_joins_of_apart hθ (hnil _ (List.getElem_mem _)) ?_ ?_
      · intro m hm
        exact (h.start_lt hθ (at_of_mem_column (hp.mem_iff.mp hm)) hwat (by omega)).le
      · intro m hm
        exact h.overlap_lt hθ (at_of_mem_column (hp.mem_iff.mp hm)) hwat
  rw [clusterWordsIntoSlots_eq_runs, ← hruns.eq_runs]
  exact ⟨hlen, fun k slot hk => (hcolumn k slot hk).2⟩

/-- Every `k`-th word of a pass is in the column. -/
theorem exists_mem_column_of_at {k : ℕ} {v : Word} (hv : At passes k v) :
    ∃ w ∈ column passes k, w.toWord = v := by
  obtain ⟨ws, hws, hk⟩ := hv
  obtain ⟨p, hp⟩ := List.mem_iff_getElem?.mp hws
  exact ⟨{ v with passId := p }, mem_column.mpr ⟨ws, hp, hk⟩, rfl⟩

/-- With two passes or more, a column is won by a word of highest probability. -/
theorem Unanimous.exists_voteSlot (h : Unanimous U θ passes t) (hN : 2 ≤ passes.length) {k : ℕ}
    (hk : k < t.length) {slot : List PooledWord} (hslot : slot.Perm (column passes k)) :
    ∃ w, voteSlot U slot = some w ∧ At passes k w.toWord ∧
      ∀ v, At passes k v → v.probability ≤ w.probability := by
  have hpass : ∀ p < passes.length, p ∈ contributingPasses slot := by
    intro p hp
    obtain ⟨w, hw, rfl⟩ := h.exists_mem_column hk hp
    rw [contributingPasses, List.mem_toFinset]
    exact List.mem_map_of_mem (hslot.mem_iff.mpr hw)
  have hquorum : 2 ≤ (contributingPasses slot).card :=
    Finset.one_lt_card.mpr ⟨0, hpass 0 (by omega), 1, hpass 1 (by omega), by omega⟩
  have htext : ∀ w ∈ slot, normalize U w.word = t[k] := by
    intro w hw
    have := h.text_eq (at_of_mem_column (hslot.mem_iff.mp hw))
    rw [List.getElem?_eq_getElem hk, Option.some.injEq] at this
    exact this.symm
  obtain ⟨w, hw⟩ := Option.isSome_iff_exists.mp ((isSome_voteSlot_iff U).mpr hquorum)
  refine ⟨w, hw, at_of_mem_column (hslot.mem_iff.mp (mem_of_voteSlot U hw)), ?_⟩
  intro v hv
  obtain ⟨v, hmem, rfl⟩ := exists_mem_column_of_at hv
  rw [voteSlot_of_unanimous U hquorum htext] at hw
  exact List.le_of_mem_argmax (f := fun w : PooledWord => w.probability)
    (hslot.mem_iff.mpr hmem) hw

/-- The winners of slots that all meet the quorum, slot by slot. -/
theorem map_some_filterMap_voteSlot {slots : List (List PooledWord)}
    (h : ∀ slot ∈ slots, (voteSlot U slot).isSome) :
    (slots.filterMap (voteSlot U)).map some = slots.map (voteSlot U) := by
  induction slots with
  | nil => rfl
  | cons slot slots ih =>
    obtain ⟨w, hw⟩ := Option.isSome_iff_exists.mp (h slot List.mem_cons_self)
    rw [List.filterMap_cons_some hw, List.map_cons, List.map_cons, hw,
      ih fun s hs => h s (List.mem_cons_of_mem _ hs)]

/-- **The winners of passes that agree**: one for each column, a word of highest
probability. -/
theorem Unanimous.winners_eq (h : Unanimous U θ passes t) (hθ : 0 < θ) (hθ1 : θ ≤ 1)
    (hN : 2 ≤ passes.length) :
    (sortedWinners U (clusterWordsIntoSlots (pool passes) θ)).length = t.length ∧
      ∀ (k : ℕ) w, (sortedWinners U (clusterWordsIntoSlots (pool passes) θ))[k]? = some w →
        At passes k w ∧ ∀ v, At passes k v → v.probability ≤ w.probability := by
  have hne : passes ≠ [] := List.ne_nil_of_length_pos (by omega)
  obtain ⟨hlen, hcol⟩ := h.slots_eq hθ hθ1 hne
  rw [sortedWinners]
  generalize clusterWordsIntoSlots (pool passes) θ = slots at hlen hcol ⊢
  have hvote : ∀ (k : ℕ) slot, slots[k]? = some slot → ∃ w, voteSlot U slot = some w ∧
      At passes k w.toWord ∧ ∀ v, At passes k v → v.probability ≤ w.probability := by
    intro k slot hk
    exact h.exists_voteSlot hN (hlen ▸ (List.getElem?_eq_some_iff.mp hk).1) (hcol k slot hk)
  -- every slot has a winner, so none is lost on the way
  have hmap : (slots.filterMap (voteSlot U)).map some = slots.map (voteSlot U) := by
    apply map_some_filterMap_voteSlot
    intro slot hslot
    obtain ⟨k, hk⟩ := List.mem_iff_getElem?.mp hslot
    obtain ⟨w, hw, -⟩ := hvote k slot hk
    exact Option.isSome_iff_exists.mpr ⟨w, hw⟩
  have hget : ∀ (k : ℕ) w, ((slots.filterMap (voteSlot U)).map (·.toWord))[k]? = some w →
      At passes k w ∧ ∀ v, At passes k v → v.probability ≤ w.probability := by
    intro k w hw
    obtain ⟨v, hv, rfl⟩ := Option.map_eq_some_iff.mp (List.getElem?_map ▸ hw)
    have hk : (slots.map (voteSlot U))[k]? = some (some v) := by
      rw [← hmap, List.getElem?_map, hv, Option.map_some]
    obtain ⟨slot, hslot, hvs⟩ := Option.map_eq_some_iff.mp (List.getElem?_map ▸ hk)
    obtain ⟨v', hv', hat, hmax⟩ := hvote k slot hslot
    obtain rfl : v = v' := by rw [hvs, Option.some.injEq] at hv'; exact hv'
    exact ⟨hat, hmax⟩
  have hsorted : ((slots.filterMap (voteSlot U)).map (·.toWord)).Pairwise
      fun a b => a.start ≤ b.start := by
    apply List.pairwise_iff_getElem.mpr
    intro i j hi hj hij
    exact (h.start_lt hθ (hget i _ (List.getElem?_eq_getElem hi)).1
      (hget j _ (List.getElem?_eq_getElem hj)).1 hij).le
  -- columns follow one another, so sorting changes nothing
  rw [hsorted.insertionSort_eq]
  refine ⟨?_, hget⟩
  have := congrArg List.length hmap
  rw [List.length_map, List.length_map] at this
  rw [List.length_map, this, hlen]

/-- What the repair keeps of winners `W` that agree with the text. -/
theorem Unanimous.exists_kept (h : Unanimous U θ passes t) (hθ : 0 < θ) {W : List Word}
    (hlen : W.length = t.length) (hat : ∀ (k : ℕ) w, W[k]? = some w → At passes k w) :
    ∃ kept : List ℕ, kept.Pairwise (· < ·) ∧ (∀ k ∈ kept, k < t.length) ∧
      (resolveOverlaps U W).map (fun w => some (normalize U w.word)) = kept.map (t[·]?) ∧
      ∀ (k : ℕ) w, W[k]? = some w → (k ∉ kept ↔ ∃ l v, k = l + 1 ∧ l ∈ kept ∧ W[l]? = some v ∧
        t[l]? = t[k]? ∧ w.start < v.end_) := by
  have htext : ∀ (k : ℕ) w, W[k]? = some w → t[k]? = some (normalize U w.word) :=
    fun k w hw => h.text_eq (hat k w hw)
  have hle : ∀ w ∈ W, w.start ≤ w.end_ := by
    intro w hw
    obtain ⟨k, hk⟩ := List.mem_iff_getElem?.mp hw
    exact (h.start_lt_end_of_at (hat k w hk)).le
  have hends : W.Pairwise fun a b => a.end_ ≤ b.end_ := by
    apply List.pairwise_iff_getElem.mpr
    intro i j hi hj hij
    exact (h.end_lt hθ (hat i _ (List.getElem?_eq_getElem hi))
      (hat j _ (List.getElem?_eq_getElem hj)) hij).le
  -- only neighbours can overlap
  have hgap : ∀ (i j : ℕ) v w, i + 2 ≤ j → W[i]? = some v → W[j]? = some w → v.end_ ≤ w.start :=
    fun i j v w hij hv hw => h.end_le_start hθ (hat i v hv) (hat j w hw) hij
  obtain ⟨kept, hrep, hbound⟩ := repaired_resolveOverlaps U hle
  refine ⟨kept, hrep.increasing, fun k hk => hlen ▸ hbound k hk, ?_, ?_⟩
  · apply List.ext_getElem (by simp [hrep.length_eq])
    intro j hj hj'
    rw [List.length_map] at hj hj'
    obtain ⟨w, hw, -, hout⟩ := hrep.kept j _ (List.getElem?_eq_getElem hj')
    rw [List.getElem?_eq_getElem hj, Option.some.injEq] at hout
    rw [List.getElem_map, List.getElem_map, hout, word_placedAfter, htext _ w hw]
  · intro k w hw
    rw [hrep.not_mem_iff hends hgap hw]
    constructor
    · rintro ⟨l, v, hk, hl, hv, hdup⟩
      exact ⟨l, v, hk, hl, hv, by rw [htext l v hv, htext k w hw, hdup.2], hdup.1⟩
    · rintro ⟨l, v, hk, hl, hv, ht, hlt⟩
      rw [htext l v hv, htext k w hw, Option.some.injEq] at ht
      exact ⟨l, v, hk, hl, hv, hlt, ht.symm⟩

end

/-- **The track spells the text the passes agree on**, in order, nothing duplicated.
The `k`-th word comes from a `k`-th word of highest probability, `W[k]`.  It is lost
only where it repeats the word before it, which was kept, and `W[k]` starts before
that word's end; so the track is the text where no word of one pass runs into its
repetition in another. -/
theorem reconcilePasses_unanimous (U : Unicodedata) (θ : ℚ) (hθ : 0 < θ) (hθ1 : θ ≤ 1)
    (passes : List (List Word)) (t : List String) (hN : 2 ≤ passes.length)
    (h : Unanimous U θ passes t) :
    (∃ (W : List Word) (kept : List ℕ), W.length = t.length ∧
      (∀ (k : ℕ) w, W[k]? = some w → At passes k w ∧
        ∀ v, At passes k v → v.probability ≤ w.probability) ∧
      kept.Pairwise (· < ·) ∧ (∀ k ∈ kept, k < t.length) ∧
      (reconcilePasses U passes θ).map (fun w => some (normalize U w.word))
        = kept.map (t[·]?) ∧
      ∀ (k : ℕ) w, W[k]? = some w → (k ∉ kept ↔ ∃ l v, k = l + 1 ∧ l ∈ kept ∧ W[l]? = some v ∧
        t[l]? = t[k]? ∧ w.start < v.end_)) ∧
    ((∀ k x y, At passes k x → At passes (k + 1) y → t[k]? = t[k + 1]? → x.end_ ≤ y.start) →
      (reconcilePasses U passes θ).map (fun w => normalize U w.word) = t) := by
  obtain ⟨hlen, hW⟩ := h.winners_eq hθ hθ1 hN
  obtain ⟨kept, hinc, hbound, htexts, hkept⟩ :=
    h.exists_kept hθ hlen fun k w hw => (hW k w hw).1
  refine ⟨⟨_, kept, hlen, hW, hinc, hbound, htexts, hkept⟩, ?_⟩
  intro hrepeat
  -- no repeated winner runs into the one before it, so all are kept
  have hmem : ∀ k, k ∈ kept ↔ k ∈ List.range t.length := by
    intro k
    rw [List.mem_range]
    refine ⟨hbound k, ?_⟩
    intro hk
    by_contra hnot
    have hw := List.getElem?_eq_getElem (hlen ▸ hk)
    obtain ⟨l, v, rfl, -, hv, ht, hlt⟩ := (hkept k _ hw).mp hnot
    exact absurd (hrepeat l v _ (hW l v hv).1 (hW _ _ hw).1 ht) (not_le.mpr hlt)
  have hall : kept = List.range t.length := hinc.eq_of_mem_iff List.pairwise_lt_range hmem
  have hmap : ((reconcilePasses U passes θ).map fun w => normalize U w.word).map some
      = t.map some := by
    rw [List.map_map, reconcilePasses]
    apply htexts.trans
    rw [hall]
    exact List.ext_getElem (by simp) (by simp)
  exact List.map_injective_iff.mpr (Option.some_injective _) hmap

/-- Two passes that agree on two words, shifted against each other. -/
def jittered : List (List Word) :=
  [[⟨0, 1, "hello", 1 / 2⟩, ⟨1, 2, "world", 3 / 4⟩],
   [⟨1 / 10, 11 / 10, "Hello", 3 / 4⟩, ⟨11 / 10, 21 / 10, "world.", 1 / 2⟩]]

theorem unanimous_jittered : Unanimous .ascii (1 / 2) jittered ["hello", "world"] where
  texts := by decide +kernel
  isPass := by decide +kernel
  start_lt_end := by decide +kernel
  close := by decide +kernel
  apart := by decide +kernel

theorem reconcilePasses_jittered :
    (reconcilePasses .ascii jittered (1 / 2)).map (fun w => normalize .ascii w.word)
      = ["hello", "world"] := by
  refine (reconcilePasses_unanimous .ascii (1 / 2) (by norm_num) (by norm_num) jittered
    ["hello", "world"] (by decide) unanimous_jittered).2 ?_
  rintro k x y - ⟨ws, hws, hk⟩ ht
  have hlt := (List.getElem?_eq_some_iff.mp hk).1
  rw [unanimous_jittered.length_eq hws] at hlt
  obtain rfl : k = 0 := by simp at hlt; omega
  exact absurd ht (by decide)

/-- Two passes that agree on a repeated word, the second starting in one pass before
the first ends in the other. -/
def repeatedNo : List (List Word) :=
  [[⟨0, 10, "no", 1 / 2⟩, ⟨10, 20, "no", 3 / 4⟩], [⟨1, 11, "no", 3 / 4⟩, ⟨11, 21, "no", 1 / 2⟩]]

/-- **A repeated word can be lost**: the winner of the first `no` ends at 11, the winner
of the second starts at 10, and the repair takes it for a duplicate. -/
theorem repeatedNo_loses_word :
    Unanimous .ascii (1 / 2) repeatedNo ["no", "no"] ∧
      (reconcilePasses .ascii repeatedNo (1 / 2)).map (fun w => normalize .ascii w.word)
        = ["no"] := by
  refine ⟨⟨?_, ?_, ?_, ?_, ?_⟩, ?_⟩ <;> decide +kernel

end QaVoting
end MediaHub

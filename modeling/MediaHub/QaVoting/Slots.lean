import Mathlib.Logic.Relation
import MediaHub.Lib.Runs
import MediaHub.Lib.Span
import MediaHub.QaVoting.Defs

/-!
# The slots of the clustering

The clustering is a greedy sweep in the sense of `MediaHub.Lib.Runs`: a word joins
when it is close enough to the union span of the open slot.  As the pool is
sorted by start, a word that joins overlaps the word of the slot that ends last,
and inside one pass no two words overlap — so that word comes from another pass.
Everything about slots rests on this.

## Main definitions

* `Word.span`, `Heard` — the span of a word, and an input word with its pass.
* `IsPass` — what a pass looks like: sorted, without overlaps.
* `runningSpan`, `Joins` — the union span of a slot, and the test of the sweep.

## Main results

* `clusterWordsIntoSlots_eq_runs` — the clustering is the sweep.
* `mem_pool_iff`, `pairwise_pool` — the pool holds the words of the passes.
* `exists_overlap_of_joins` — a word that joins overlaps a word of the slot.
* `joins_of_close`, `not_joins_of_apart` — which words join for certain, and which
  do not.
* `exists_neighbour` — in a slot of two or more words, every word overlaps a word
  of another pass.
* `neighbour_chain` — any two words of a slot are linked by such overlaps.
-/

namespace MediaHub
namespace QaVoting

/-- The span of a word. -/
def Word.span (w : Word) : ℚ × ℚ := (w.start, w.end_)

/-- `Heard passes p w`: pass number `p` heard the word `w`. -/
def Heard (passes : List (List Word)) (p : ℕ) (w : Word) : Prop :=
  ∃ ws, passes[p]? = some ws ∧ w ∈ ws

/-- A pass as the program describes it: sorted by start, each word with its start
before its end, no two words overlapping. -/
structure IsPass (ws : List Word) : Prop where
  /-- The words are sorted by start. -/
  sorted : ws.Pairwise fun a b => a.start ≤ b.start
  /-- No word ends before it starts. -/
  start_le_end : ∀ w ∈ ws, w.start ≤ w.end_
  /-- No two words overlap. -/
  disjoint : ws.Pairwise fun a b => Span.overlap a.span b.span = 0

theorem isPass_iff (ws : List Word) : IsPass ws ↔ ws.Pairwise (fun a b => a.start ≤ b.start) ∧
    (∀ w ∈ ws, w.start ≤ w.end_) ∧ ws.Pairwise fun a b => Span.overlap a.span b.span = 0 := by
  constructor
  · intro h
    exact ⟨h.sorted, h.start_le_end, h.disjoint⟩
  · rintro ⟨hsorted, hends, hdisjoint⟩
    exact ⟨hsorted, hends, hdisjoint⟩

instance (ws : List Word) : Decidable (IsPass ws) :=
  decidable_of_iff _ (isPass_iff ws).symm

/-- The words of a pass follow one another, where they have a length. -/
theorem IsPass.follow {ws : List Word} (h : IsPass ws) (hpos : ∀ w ∈ ws, w.start < w.end_) :
    ws.Pairwise fun x y => x.end_ ≤ y.start := by
  apply (h.sorted.and h.disjoint).imp_of_mem
  intro x y hx hy hxy
  exact Span.le_of_overlap_eq_zero (hpos x hx) (hpos y hy) hxy.1 hxy.2

/-! ### The clustering is a greedy sweep -/

/-- The union span of a slot, as the loop carries it along. -/
def runningSpan : List PooledWord → ℚ × ℚ
  | [] => (0, 0)
  | w :: ws => ws.foldl (fun s w => (min s.1 w.start, max s.2 w.end_)) (w.start, w.end_)

/-- A word joins a slot when it is close enough to its union span. -/
def Joins (θ : ℚ) (slot : List PooledWord) (word : PooledWord) : Prop :=
  θ ≤ overlapRatio (runningSpan slot) word

instance (θ : ℚ) (slot : List PooledWord) (word : PooledWord) : Decidable (Joins θ slot word) :=
  inferInstanceAs (Decidable (_ ≤ _))

theorem overlapRatio_eq (s : ℚ × ℚ) (w : PooledWord) : overlapRatio s w = Span.ratio s w.span := by
  rw [overlapRatio, Span.ratio, Span.shorter_comm]
  rfl

@[simp] theorem runningSpan_singleton (w : PooledWord) : runningSpan [w] = w.span := rfl

theorem runningSpan_concat {slot : List PooledWord} (h : slot ≠ []) (w : PooledWord) :
    runningSpan (slot ++ [w])
      = (min (runningSpan slot).1 w.start, max (runningSpan slot).2 w.end_) := by
  cases slot with
  | nil => exact absurd rfl h
  | cons v slot => simp [runningSpan]

/-- **The clustering is the greedy sweep.** -/
theorem clusterWordsIntoSlots_eq_runs (words : List PooledWord) (θ : ℚ) :
    clusterWordsIntoSlots words θ = runs (Joins θ) words := by
  have hstep : clusterStep θ
      = runsStep (fun s w => decide (θ ≤ overlapRatio s w))
          (fun s w => (min s.1 w.start, max s.2 w.end_)) (fun w => (w.start, w.end_)) := by
    funext acc w
    obtain ⟨slots, s⟩ := acc
    cases s <;> simp [clusterStep, runsStep]
  rw [clusterWordsIntoSlots, hstep]
  exact foldl_runsStep_eq_runs (fun w => runningSpan_singleton w)
    (fun _ w h => runningSpan_concat h w) (fun _ _ _ => by simp [Joins]) words

theorem ne_nil_of_mem_cluster {words slot : List PooledWord} {θ : ℚ}
    (h : slot ∈ clusterWordsIntoSlots words θ) : slot ≠ [] := by
  rw [clusterWordsIntoSlots_eq_runs] at h
  exact ne_nil_of_mem_runs h

@[simp] theorem flatten_cluster (words : List PooledWord) (θ : ℚ) :
    (clusterWordsIntoSlots words θ).flatten = words := by
  rw [clusterWordsIntoSlots_eq_runs, flatten_runs]

/-- A slot is a stretch of the pool. -/
theorem sublist_of_mem_cluster {words slot : List PooledWord} {θ : ℚ}
    (h : slot ∈ clusterWordsIntoSlots words θ) : slot.Sublist words := by
  have := List.sublist_flatten_of_mem h
  rwa [flatten_cluster] at this

/-- Within a slot every word but the first joined what came before it. -/
theorem joins_of_mem_cluster {words slot pre post : List PooledWord} {θ : ℚ} {w : PooledWord}
    (h : slot ∈ clusterWordsIntoSlots words θ) (heq : slot = pre ++ w :: post) (hpre : pre ≠ []) :
    Joins θ pre w := by
  rw [clusterWordsIntoSlots_eq_runs] at h
  exact (isRuns_runs words).joined slot h pre w post heq hpre

/-! ### The union span of a slot -/

/-- The union span starts where the first word of a sorted slot does. -/
theorem runningSpan_fst {f : PooledWord} {slot : List PooledWord}
    (h : ∀ w ∈ slot, f.start ≤ w.start) : (runningSpan (f :: slot)).1 = f.start := by
  induction slot using List.reverseRecOn with
  | nil => rfl
  | append_singleton slot w ih =>
    rw [← List.cons_append, runningSpan_concat (by simp)]
    simp only
    rw [ih fun v hv => h v (List.mem_append_left _ hv), min_eq_left (h w (by simp))]

/-- Some word of the slot ends where the union span does. -/
theorem exists_end_eq {slot : List PooledWord} (h : slot ≠ []) :
    ∃ m ∈ slot, m.end_ = (runningSpan slot).2 := by
  induction slot using List.reverseRecOn with
  | nil => exact absurd rfl h
  | append_singleton slot w ih =>
    by_cases hs : slot = []
    · subst hs; exact ⟨w, by simp, rfl⟩
    · obtain ⟨m, hm, hme⟩ := ih hs
      rw [runningSpan_concat hs]
      rcases le_total w.end_ (runningSpan slot).2 with hle | hle
      · exact ⟨m, List.mem_append_left _ hm, by rw [hme]; exact (max_eq_left hle).symm⟩
      · exact ⟨w, by simp, (max_eq_right hle).symm⟩

/-- No word of the slot ends after the union span. -/
theorem end_le_runningSpan {slot : List PooledWord} :
    ∀ m ∈ slot, m.end_ ≤ (runningSpan slot).2 := by
  induction slot using List.reverseRecOn with
  | nil => simp
  | append_singleton slot w ih =>
    intro m hm
    by_cases hs : slot = []
    · subst hs
      obtain rfl : m = w := by simpa using hm
      exact le_rfl
    · rw [runningSpan_concat hs]
      rcases List.mem_append.mp hm with hm | hm
      · exact le_trans (ih m hm) (le_max_left _ _)
      · obtain rfl : m = w := by simpa using hm
        exact le_max_right _ _

/-- No word of the slot starts before the union span. -/
theorem runningSpan_le_start {slot : List PooledWord} :
    ∀ m ∈ slot, (runningSpan slot).1 ≤ m.start := by
  induction slot using List.reverseRecOn with
  | nil => simp
  | append_singleton slot w ih =>
    intro m hm
    by_cases hs : slot = []
    · subst hs
      obtain rfl : m = w := by simpa using hm
      exact le_rfl
    · rw [runningSpan_concat hs]
      rcases List.mem_append.mp hm with hm | hm
      · exact le_trans (min_le_left _ _) (ih m hm)
      · obtain rfl : m = w := by simpa using hm
        exact min_le_right _ _

/-- **A word that joins a slot overlaps the word of the slot that ends last**, as
long as no word of the slot starts after it. -/
theorem exists_overlap_of_joins {θ : ℚ} (hθ : 0 < θ) {slot : List PooledWord} {w : PooledWord}
    (hne : slot ≠ []) (hsort : ∀ m ∈ slot, m.start ≤ w.start) (h : Joins θ slot w) :
    ∃ m ∈ slot, m.end_ = (runningSpan slot).2 ∧ 0 < Span.overlap m.span w.span := by
  rw [Joins, overlapRatio_eq] at h
  obtain ⟨-, -, hlt, hw⟩ := Span.overlap_pos_iff.mp (Span.overlap_pos_of_le_ratio hθ h)
  obtain ⟨m, hm, hme⟩ := exists_end_eq hne
  refine ⟨m, hm, hme, Span.overlap_pos_iff.mpr ⟨?_, ?_, ?_, hw⟩⟩
  · exact lt_of_le_of_lt (hsort m hm) (by rw [← hme] at hlt; exact hlt)
  · exact lt_of_le_of_lt (hsort m hm) hw
  · rw [← hme] at hlt; exact hlt

/-- A word close enough to the first word of a sorted slot joins the slot. -/
theorem joins_of_close {θ : ℚ} (hθ : 0 < θ) (hθ1 : θ ≤ 1) {f w : PooledWord}
    {slot : List PooledWord} (hsort : ∀ m ∈ slot, f.start ≤ m.start) (hf : f.start < f.end_)
    (hw : w.start < w.end_) (hfw : f.start ≤ w.start)
    (h : θ * Span.shorter f.span w.span ≤ Span.overlap f.span w.span) :
    Joins θ (f :: slot) w := by
  have hend : f.end_ ≤ (runningSpan (f :: slot)).2 := end_le_runningSpan f List.mem_cons_self
  have hspan : (f.span.1, (runningSpan (f :: slot)).2) = runningSpan (f :: slot) :=
    Prod.ext (runningSpan_fst hsort).symm rfl
  have hclose := Span.le_overlap_hull hθ hθ1 hf hw hfw hend h
  rw [hspan] at hclose
  have hlen : (runningSpan (f :: slot)).1 < (runningSpan (f :: slot)).2 := by
    rw [runningSpan_fst hsort]
    exact lt_of_lt_of_le hf hend
  rw [Joins, overlapRatio_eq, Span.le_ratio_iff hθ]
  exact ⟨Span.shorter_pos_iff.mpr ⟨hlen, hw⟩, hclose⟩

/-- A word too far from every word of a slot does not join it. -/
theorem not_joins_of_apart {θ : ℚ} (hθ : 0 < θ) {slot : List PooledWord} {w : PooledWord}
    (hne : slot ≠ []) (hsort : ∀ m ∈ slot, m.start ≤ w.start)
    (h : ∀ m ∈ slot, Span.overlap m.span w.span < θ * Span.shorter m.span w.span) :
    ¬ Joins θ slot w := by
  obtain ⟨m, hm, hme⟩ := exists_end_eq hne
  have hspan : ((runningSpan slot).1, m.span.2) = runningSpan slot := Prod.ext rfl hme
  have hfar := Span.overlap_hull_lt hθ (runningSpan_le_start m hm) (hsort m hm) (h m hm)
  rw [hspan] at hfar
  rw [Joins, overlapRatio_eq, Span.le_ratio_iff hθ]
  rintro ⟨-, hclose⟩
  exact absurd hclose (not_le.mpr hfar)

/-! ### The pool -/

theorem mem_markPass {ws : List Word} {p : ℕ} {w : PooledWord} :
    w ∈ markPass ws p ↔ w.toWord ∈ ws ∧ w.passId = p := by
  rw [markPass, List.mem_map]
  constructor
  · rintro ⟨v, hv, rfl⟩
    exact ⟨hv, rfl⟩
  · rintro ⟨hv, rfl⟩
    exact ⟨w.toWord, hv, rfl⟩

theorem perm_pool (passes : List (List Word)) :
    (pool passes).Perm (passes.zipIdx.flatMap fun p => markPass p.1 p.2) :=
  List.perm_insertionSort _ _

/-- The pool holds the words of the passes, each marked with its pass. -/
theorem mem_pool_iff {passes : List (List Word)} {w : PooledWord} :
    w ∈ pool passes ↔ Heard passes w.passId w.toWord := by
  rw [(perm_pool passes).mem_iff, List.mem_flatMap, Heard]
  constructor
  · rintro ⟨⟨ws, p⟩, hp, hw⟩
    obtain ⟨hw, rfl⟩ := mem_markPass.mp hw
    exact ⟨ws, List.mem_zipIdx_iff_getElem?.mp hp, hw⟩
  · rintro ⟨ws, hp, hw⟩
    exact ⟨(ws, w.passId), List.mem_zipIdx_iff_getElem?.mpr hp, mem_markPass.mpr ⟨hw, rfl⟩⟩

theorem sorted_pool (passes : List (List Word)) :
    (pool passes).Pairwise fun a b => a.start ≤ b.start :=
  List.pairwise_insertionSort _ _

/-- What holds between any two words of a pass holds between any two words of the
pool that come from the same pass. -/
theorem pairwise_pool {R : Word → Word → Prop} (hR : ∀ a b, R a b → R b a)
    {passes : List (List Word)} (h : ∀ ws ∈ passes, ws.Pairwise R) :
    (pool passes).Pairwise fun a b => a.passId = b.passId → R a.toWord b.toWord := by
  have hsymm : ∀ {a b : PooledWord}, (a.passId = b.passId → R a.toWord b.toWord) →
      b.passId = a.passId → R b.toWord a.toWord := fun hab hba => hR _ _ (hab hba.symm)
  apply ((perm_pool passes).pairwise_iff hsymm).mpr
  rw [List.pairwise_flatMap]
  constructor
  · rintro ⟨ws, p⟩ hp
    have hws : ws ∈ passes := (List.mem_zipIdx_iff_getElem?.mp hp) |> List.mem_of_getElem?
    rw [markPass, List.pairwise_map]
    apply (h ws hws).imp
    intro a b hab _
    exact hab
  · -- words of two different entries have different pass ids
    rw [List.zipIdx_eq_zip_range', List.pairwise_iff_getElem]
    intro i j hi hj hij a ha b hb hab
    have hai := (mem_markPass.mp ha).2
    have hbj := (mem_markPass.mp hb).2
    simp only [List.getElem_zip, List.getElem_range'] at hai hbj
    omega

/-! ### Neighbours -/

section

variable {passes : List (List Word)} {θ : ℚ} {slot : List PooledWord}

/-- Two words of the pool that overlap come from different passes, or are the
same entry of it. -/
theorem pairwise_ne_passId_of_overlap (hp : ∀ ws ∈ passes, IsPass ws) :
    (pool passes).Pairwise fun a b => 0 < Span.overlap a.span b.span → a.passId ≠ b.passId := by
  refine (pairwise_pool ?_ fun ws hws => (hp ws hws).disjoint).imp ?_
  · intro a b h
    rw [Span.overlap_comm]; exact h
  · intro a b hab hpos hid
    exact absurd (hab hid) hpos.ne'

/-- **A word that joined a slot overlaps an earlier word of the slot, which comes
from another pass.** -/
theorem exists_earlier_neighbour (hθ : 0 < θ) (hp : ∀ ws ∈ passes, IsPass ws)
    (hslot : slot ∈ clusterWordsIntoSlots (pool passes) θ) {pre post : List PooledWord}
    {w : PooledWord} (heq : slot = pre ++ w :: post) (hpre : pre ≠ []) :
    ∃ m ∈ pre, m.passId ≠ w.passId ∧ 0 < Span.overlap m.span w.span := by
  have hsub := sublist_of_mem_cluster hslot
  have hsorted := (sorted_pool passes).sublist hsub
  have hpass := (pairwise_ne_passId_of_overlap hp).sublist hsub
  rw [heq, List.pairwise_append] at hsorted hpass
  obtain ⟨m, hm, -, hpos⟩ := exists_overlap_of_joins hθ hpre
    (fun m hm => hsorted.2.2 m hm w List.mem_cons_self) (joins_of_mem_cluster hslot heq hpre)
  exact ⟨m, hm, hpass.2.2 m hm w List.mem_cons_self hpos, hpos⟩

/-- **In a slot of two or more words every word overlaps a word of another pass.** -/
theorem exists_neighbour (hθ : 0 < θ) (hp : ∀ ws ∈ passes, IsPass ws)
    (hslot : slot ∈ clusterWordsIntoSlots (pool passes) θ) (hlen : 2 ≤ slot.length)
    {w : PooledWord} (hw : w ∈ slot) :
    ∃ m ∈ slot, m.passId ≠ w.passId ∧ 0 < Span.overlap w.span m.span := by
  obtain ⟨pre, post, heq⟩ := List.append_of_mem hw
  cases pre with
  | cons v pre =>
    obtain ⟨m, hm, hid, hpos⟩ := exists_earlier_neighbour hθ hp hslot heq (by simp)
    refine ⟨m, by rw [heq]; exact List.mem_append_left _ hm, hid, ?_⟩
    rwa [Span.overlap_comm]
  | nil =>
    -- the first word of the slot: the second one joined it alone
    cases post with
    | nil => simp [heq] at hlen
    | cons v post =>
      have hv : slot = [w] ++ v :: post := heq
      obtain ⟨m, hm, hid, hpos⟩ := exists_earlier_neighbour hθ hp hslot hv (by simp)
      obtain rfl : m = w := by simpa using hm
      exact ⟨v, by simp [heq], hid.symm, hpos⟩

/-- Two words of a slot, from different passes, that overlap. -/
def Linked (slot : List PooledWord) (a b : PooledWord) : Prop :=
  a ∈ slot ∧ b ∈ slot ∧ a.passId ≠ b.passId ∧ 0 < Span.overlap a.span b.span

instance : Std.Symm (Linked slot) :=
  ⟨fun _ _ h => ⟨h.2.1, h.1, h.2.2.1.symm, by rw [Span.overlap_comm]; exact h.2.2.2⟩⟩

/-- **Any two words of a slot are linked by overlaps between different passes.** -/
theorem neighbour_chain (hθ : 0 < θ) (hp : ∀ ws ∈ passes, IsPass ws)
    (hslot : slot ∈ clusterWordsIntoSlots (pool passes) θ) {a b : PooledWord} (ha : a ∈ slot)
    (hb : b ∈ slot) : Relation.ReflTransGen (Linked slot) a b := by
  obtain ⟨f, rest, hf⟩ : ∃ f rest, slot = f :: rest :=
    List.exists_cons_of_ne_nil (ne_nil_of_mem_cluster hslot)
  -- by induction on how far the slot had grown: every word so far is linked to the first
  have key : ∀ pre post, slot = pre ++ post → ∀ w ∈ pre,
      Relation.ReflTransGen (Linked slot) f w := by
    intro pre
    induction pre using List.reverseRecOn with
    | nil => intro post _ w hw; simp at hw
    | append_singleton pre v ih =>
      intro post heq w hw
      rw [List.append_assoc, List.singleton_append] at heq
      rcases List.mem_append.mp hw with hw | hw
      · exact ih _ heq w hw
      · obtain rfl : w = v := by simpa using hw
        by_cases hpre : pre = []
        · subst hpre
          obtain rfl : f = w := by
            rw [hf, List.nil_append] at heq
            exact (List.cons.inj heq).1
          exact Relation.ReflTransGen.refl
        · obtain ⟨m, hm, hid, hpos⟩ := exists_earlier_neighbour hθ hp hslot heq hpre
          refine (ih _ heq m hm).tail ⟨?_, ?_, hid, hpos⟩ <;> rw [heq]
          · exact List.mem_append_left _ hm
          · simp
  have haf : Relation.ReflTransGen (Linked slot) a f :=
    Relation.ReflTransGen.stdSymm.symm _ _ (key slot [] (by simp) a ha)
  exact haf.trans (key slot [] (by simp) b hb)

end

end QaVoting
end MediaHub

import Mathlib.Data.List.Basic
import Mathlib.Data.List.Forall2
import Mathlib.Data.List.ModifyLast

/-!
# Greedy runs

A single sweep cuts a list into consecutive **runs**: each element either joins
the run that is open, or closes it and opens the next one.  What decides is a
test `joins` that may look at the whole open run, so the same sweep covers a
test against the last element (a gap) and one against a running summary of the
run (a union of intervals).

## Main definitions

* `runs joins l` — the runs of the sweep.
* `IsRuns joins l rs` — what it means for `rs` to be the runs of `l`.

## Main results

* `isRuns_runs`, `IsRuns.eq_runs` — **the sweep returns the only list of lists
  with that description.**
* `foldl_runsStep_eq_runs` — the sweep as a loop that appends to its last run.
-/

namespace MediaHub

variable {α σ : Type*}

/-! ### The sweep -/

/-- The runs of a sweep whose open run is `cur`. -/
def runsFrom (joins : List α → α → Prop) [∀ c a, Decidable (joins c a)] :
    List α → List α → List (List α)
  | cur, [] => [cur]
  | cur, a :: l =>
    if joins cur a then runsFrom joins (cur ++ [a]) l else cur :: runsFrom joins [a] l

/-- The runs of a greedy sweep: `joins cur a` says that `a` joins the open run `cur`. -/
def runs (joins : List α → α → Prop) [∀ c a, Decidable (joins c a)] : List α → List (List α)
  | [] => []
  | a :: l => runsFrom joins [a] l

/-- The description of the runs of a sweep: they are nonempty, they make up the
list, each element but the first of a run joined what came before it, and the
first element of a run did not join the run before. -/
structure IsRuns (joins : List α → α → Prop) (l : List α) (rs : List (List α)) : Prop where
  /-- The runs in order are the list. -/
  flatten : rs.flatten = l
  /-- No run is empty. -/
  ne_nil : ∀ r ∈ rs, r ≠ []
  /-- Within a run, each element joined the part of the run before it. -/
  joined : ∀ r ∈ rs, ∀ pre a post, r = pre ++ a :: post → pre ≠ [] → joins pre a
  /-- The first element of a run did not join the run before. -/
  broken : rs.IsChain fun r s => ∀ a ∈ s.head?, ¬ joins r a

section

variable {joins : List α → α → Prop} [∀ c a, Decidable (joins c a)]

/-- The open run is a prefix of the first run. -/
theorem exists_runsFrom_eq (cur l : List α) :
    ∃ t rs, runsFrom joins cur l = (cur ++ t) :: rs := by
  induction l generalizing cur with
  | nil => exact ⟨[], [], by simp [runsFrom]⟩
  | cons a l ih =>
    rw [runsFrom]
    split
    · obtain ⟨t, rs, h⟩ := ih (cur ++ [a])
      exact ⟨a :: t, rs, by rw [h]; simp⟩
    · exact ⟨[], _, by rw [List.append_nil]⟩

@[simp] theorem flatten_runsFrom (cur l : List α) : (runsFrom joins cur l).flatten = cur ++ l := by
  induction l generalizing cur with
  | nil => simp [runsFrom]
  | cons a l ih =>
    rw [runsFrom]
    split <;> simp [ih]

@[simp] theorem flatten_runs (l : List α) : (runs joins l).flatten = l := by
  cases l <;> simp [runs]

theorem ne_nil_of_mem_runsFrom {cur : List α} (hcur : cur ≠ []) (l : List α) :
    ∀ r ∈ runsFrom joins cur l, r ≠ [] := by
  induction l generalizing cur with
  | nil => simpa [runsFrom] using hcur
  | cons a l ih =>
    intro r hr
    rw [runsFrom] at hr
    split at hr
    · exact ih (by simp) r hr
    · rcases List.mem_cons.mp hr with rfl | hr
      · exact hcur
      · exact ih (by simp) r hr

theorem ne_nil_of_mem_runs {l : List α} {r : List α} (hr : r ∈ runs joins l) : r ≠ [] := by
  cases l with
  | nil => simp [runs] at hr
  | cons a l => exact ne_nil_of_mem_runsFrom (by simp) l r hr

@[simp] theorem runs_eq_nil {l : List α} : runs joins l = [] ↔ l = [] := by
  constructor
  · intro h
    have hfl : (runs joins l).flatten = l := flatten_runs l
    rw [← hfl, h, List.flatten_nil]
  · rintro rfl
    rfl

/-- The elements of a run joined the part of it before them, provided the open
run was built so. -/
theorem joined_of_mem_runsFrom {cur : List α}
    (hcur : ∀ pre a post, cur = pre ++ a :: post → pre ≠ [] → joins pre a) (hne : cur ≠ [])
    (l : List α) : ∀ r ∈ runsFrom joins cur l,
      ∀ pre a post, r = pre ++ a :: post → pre ≠ [] → joins pre a := by
  induction l generalizing cur with
  | nil =>
    intro r hr
    rw [runsFrom, List.mem_singleton] at hr
    subst hr
    exact hcur
  | cons b l ih =>
    intro r hr
    rw [runsFrom] at hr
    split at hr
    · next hj =>
      refine @ih (cur ++ [b]) ?_ (by simp) r hr
      intro pre a post heq hpre
      -- the last element of the open run has just joined it
      rcases List.eq_nil_or_concat post with rfl | ⟨post', c, rfl⟩
      · obtain ⟨rfl, hab⟩ := List.append_inj' heq rfl
        obtain rfl : b = a := by simpa using hab
        exact hj
      · have heq' : cur ++ [b] = (pre ++ a :: post') ++ [c] := by simpa using heq
        exact hcur pre a post' (List.append_inj' heq' rfl).1 hpre
    · rcases List.mem_cons.mp hr with rfl | hr
      · exact hcur
      · refine @ih [b] ?_ (by simp) r hr
        intro pre a post heq hpre
        cases pre with
        | nil => exact absurd rfl hpre
        | cons c pre => simp at heq

theorem isChain_runsFrom (cur l : List α) :
    (runsFrom joins cur l).IsChain fun r s => ∀ a ∈ s.head?, ¬ joins r a := by
  induction l generalizing cur with
  | nil => simp [runsFrom]
  | cons b l ih =>
    rw [runsFrom]
    split
    · exact ih _
    · next hj =>
      obtain ⟨t, rs, h⟩ : ∃ t rs, runsFrom joins [b] l = ([b] ++ t) :: rs :=
        exists_runsFrom_eq [b] l
      have hchain := ih [b]
      rw [h] at hchain ⊢
      refine List.isChain_cons_cons.mpr ⟨?_, hchain⟩
      simpa using hj

/-- **The sweep meets its description.** -/
theorem isRuns_runs (l : List α) : IsRuns joins l (runs joins l) := by
  refine ⟨flatten_runs l, fun r hr => ne_nil_of_mem_runs hr, ?_, ?_⟩
  · cases l with
    | nil => simp [runs]
    | cons b l =>
      refine joined_of_mem_runsFrom ?_ (by simp) l
      intro pre a post heq hpre
      cases pre with
      | nil => exact absurd rfl hpre
      | cons c pre => simp at heq
  · cases l with
    | nil => simp [runs]
    | cons b l => exact isChain_runsFrom [b] l

/-- A described list of runs is what the sweep computes from any point inside
its first run. -/
theorem IsRuns.eq_runsFrom {rs : List (List α)} :
    ∀ {cur rest : List α}, cur ≠ [] →
      IsRuns joins (cur ++ rest ++ rs.flatten) ((cur ++ rest) :: rs) →
      runsFrom joins cur (rest ++ rs.flatten) = (cur ++ rest) :: rs := by
  induction rs with
  | nil =>
    intro cur rest
    induction rest generalizing cur with
    | nil => intro _ _; simp [runsFrom]
    | cons a rest ih =>
      intro hcur h
      have hj : joins cur a := h.joined _ List.mem_cons_self cur a rest (by simp) hcur
      rw [List.cons_append, runsFrom, if_pos hj, ih (by simp) (by simpa using h)]
      simp
  | cons s rs ihrs =>
    intro cur rest
    induction rest generalizing cur with
    | nil =>
      intro hcur h
      -- the next run starts here, and its first element did not join
      obtain ⟨a, s, rfl⟩ : ∃ a s', s = a :: s' :=
        List.exists_cons_of_ne_nil (h.ne_nil s (by simp))
      have hchain := h.broken
      rw [List.isChain_cons_cons] at hchain
      have hj : ¬ joins cur a := by simpa using hchain.1
      have htail : IsRuns joins ([a] ++ s ++ rs.flatten) (([a] ++ s) :: rs) :=
        ⟨by simp, fun r hr => h.ne_nil r (List.mem_cons_of_mem _ hr),
          fun r hr => h.joined r (List.mem_cons_of_mem _ hr), hchain.2⟩
      have hrec := @ihrs [a] s (by simp) htail
      simp only [List.nil_append, List.flatten_cons, List.cons_append, runsFrom, if_neg hj,
        List.append_nil]
      rw [hrec]
      simp
    | cons a rest ih =>
      intro hcur h
      have hj : joins cur a := h.joined _ List.mem_cons_self cur a rest (by simp) hcur
      rw [List.cons_append, runsFrom, if_pos hj, ih (by simp) (by simpa using h)]
      simp

/-- **The sweep is the only list of runs meeting the description.** -/
theorem IsRuns.eq_runs {l : List α} {rs : List (List α)} (h : IsRuns joins l rs) :
    rs = runs joins l := by
  cases rs with
  | nil =>
    obtain rfl : l = [] := by simpa using h.flatten.symm
    rfl
  | cons r rs =>
    obtain ⟨a, r, rfl⟩ : ∃ a r', r = a :: r' :=
      List.exists_cons_of_ne_nil (h.ne_nil r (by simp))
    have hl : l = a :: (r ++ rs.flatten) := by simpa using h.flatten.symm
    have h' : IsRuns joins ([a] ++ r ++ rs.flatten) (([a] ++ r) :: rs) := by
      subst hl; simpa using h
    subst hl
    rw [runs, h'.eq_runsFrom (by simp)]
    simp

end

/-! ### Relabelling -/

theorem runsFrom_map {β : Type*} {joins : List α → α → Prop} [∀ c a, Decidable (joins c a)]
    {joins' : List β → β → Prop} [∀ c b, Decidable (joins' c b)] {f : α → β}
    (h : ∀ cur a, joins' (cur.map f) (f a) ↔ joins cur a) (cur l : List α) :
    runsFrom joins' (cur.map f) (l.map f) = (runsFrom joins cur l).map (List.map f) := by
  induction l generalizing cur with
  | nil => rfl
  | cons a l ih =>
    rw [List.map_cons, runsFrom, runsFrom]
    by_cases hj : joins cur a
    · rw [if_pos hj, if_pos ((h cur a).mpr hj),
        show cur.map f ++ [f a] = (cur ++ [a]).map f by simp, ih]
    · rw [if_neg hj, if_neg (mt (h cur a).mp hj), show [f a] = [a].map f from rfl, ih,
        List.map_cons]

/-- The sweep does not see what the test does not look at. -/
theorem runs_map {β : Type*} {joins : List α → α → Prop} [∀ c a, Decidable (joins c a)]
    {joins' : List β → β → Prop} [∀ c b, Decidable (joins' c b)] {f : α → β}
    (h : ∀ cur a, joins' (cur.map f) (f a) ↔ joins cur a) (l : List α) :
    runs joins' (l.map f) = (runs joins l).map (List.map f) := by
  cases l with
  | nil => rfl
  | cons a l => exact runsFrom_map h [a] l

/-! ### The sweep as a loop

A program keeps the runs found so far in a list, appends to its last entry, and
carries a summary of the open run instead of looking at it again. -/

/-- One turn of the loop: `summary` is the summary of the open run, if there is
one. -/
def runsStep (test : σ → α → Bool) (grow : σ → α → σ) (fresh : α → σ)
    (acc : List (List α) × Option σ) (a : α) : List (List α) × Option σ :=
  match acc.2 with
  | none => (acc.1 ++ [[a]], some (fresh a))
  | some s =>
    if test s a then (acc.1.modifyLast (· ++ [a]), some (grow s a))
    else (acc.1 ++ [[a]], some (fresh a))

theorem foldl_runsStep {test : σ → α → Bool} {grow : σ → α → σ} {fresh : α → σ}
    {summary : List α → σ} {joins : List α → α → Prop} [∀ c a, Decidable (joins c a)]
    (hfresh : ∀ a, summary [a] = fresh a)
    (hgrow : ∀ cur a, cur ≠ [] → summary (cur ++ [a]) = grow (summary cur) a)
    (htest : ∀ cur a, cur ≠ [] → (test (summary cur) a = true ↔ joins cur a)) (l : List α) :
    ∀ (done : List (List α)) (cur : List α), cur ≠ [] →
      (l.foldl (runsStep test grow fresh) (done ++ [cur], some (summary cur))).1
        = done ++ runsFrom joins cur l := by
  induction l with
  | nil => intro done cur _; simp [runsFrom]
  | cons a l ih =>
    intro done cur hcur
    rw [List.foldl_cons, runsFrom]
    by_cases hj : joins cur a
    · have hstep : runsStep test grow fresh (done ++ [cur], some (summary cur)) a
          = (done ++ [cur ++ [a]], some (summary (cur ++ [a]))) := by
        simp [runsStep, (htest cur a hcur).mpr hj, hgrow cur a hcur, List.modifyLast_concat]
      rw [if_pos hj, hstep]
      exact ih done (cur ++ [a]) (by simp)
    · have hstep : runsStep test grow fresh (done ++ [cur], some (summary cur)) a
          = (done ++ [cur] ++ [[a]], some (summary [a])) := by
        simp [runsStep, mt (htest cur a hcur).mp hj, hfresh]
      rw [if_neg hj, hstep, ih (done ++ [cur]) [a] (by simp)]
      simp

/-- **The loop computes the sweep.** -/
theorem foldl_runsStep_eq_runs {test : σ → α → Bool} {grow : σ → α → σ} {fresh : α → σ}
    {summary : List α → σ} {joins : List α → α → Prop} [∀ c a, Decidable (joins c a)]
    (hfresh : ∀ a, summary [a] = fresh a)
    (hgrow : ∀ cur a, cur ≠ [] → summary (cur ++ [a]) = grow (summary cur) a)
    (htest : ∀ cur a, cur ≠ [] → (test (summary cur) a = true ↔ joins cur a)) (l : List α) :
    (l.foldl (runsStep test grow fresh) ([], none)).1 = runs joins l := by
  cases l with
  | nil => rfl
  | cons a l =>
    have h := foldl_runsStep hfresh hgrow htest l [] [a] (by simp)
    rw [hfresh a] at h
    simpa [runs, runsStep] using h

end MediaHub

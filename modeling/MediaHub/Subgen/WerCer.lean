import Mathlib.Algebra.Order.Monoid.Unbundled.WithTop
import Mathlib.Algebra.Order.Ring.Rat
import MediaHub.Lib.EditScript
import MediaHub.Lib.Loops
import MediaHub.Text

/-!
# Word and character error rates

`stacks/subgen-r9/scripts/wer_cer.py`: subtitles are scored against a reference by
the edit distance of their words, with the operations recounted by a walk back
through the full table, or of their characters, with one row of the table at a
time.

## Main definitions

* `editTable`, `backtrace`, `editOps` — `_edit_ops`.
* `editDistance` — `_edit_distance`.
* `wordErrorRate`, `charErrorRate` — the scores.

## Main results

* `getCell_editTable` — a cell of the table is the distance of two prefixes.
* `editOps_optimal` — **the operations are those of an optimal edit script.**
* `editDistance_eq_editOps` — **the rolling row agrees with the table.**
-/

namespace MediaHub
namespace WerCer

variable {α : Type*} [DecidableEq α]

/-! ### The table -/

/-- `dp[i][j]`. -/
def getCell (dp : List (List ℕ)) (i j : ℕ) : ℕ := (dp.getD i []).getD j 0

/-- `dp[i][j] = v`. -/
def setCell (dp : List (List ℕ)) (i j v : ℕ) : List (List ℕ) := dp.modify i fun row => row.set j v

/-- The body of the double loop. -/
def fillCell (ref hyp : List α) (i : ℕ) (dp : List (List ℕ)) (j : ℕ) : List (List ℕ) :=
  if ref[i - 1]? = hyp[j - 1]? then setCell dp i j (getCell dp (i - 1) (j - 1))
  else setCell dp i j
    (1 + min (getCell dp (i - 1) (j - 1)) (min (getCell dp (i - 1) j) (getCell dp i (j - 1))))

/-- The table of `_edit_ops`. -/
def editTable (ref hyp : List α) : List (List ℕ) :=
  let n := ref.length
  let m := hyp.length
  let dp := List.replicate (n + 1) (List.replicate (m + 1) 0)
  let dp := (List.range (n + 1)).foldl (fun dp i => setCell dp i 0 i) dp
  let dp := (List.range (m + 1)).foldl (fun dp j => setCell dp 0 j j) dp
  (List.range' 1 n).foldl (fun dp i => (List.range' 1 m).foldl (fillCell ref hyp i) dp) dp

/-- The walk back through the table, with the substitutions, deletions and insertions
counted so far; `none` where it would leave the table. -/
def backtrace (ref hyp : List α) (dp : List (List ℕ)) (i j s d ins : ℕ) : Option (ℕ × ℕ × ℕ) :=
  if i > 0 ∨ j > 0 then
    if i > 0 ∧ j > 0 ∧ ref[i - 1]? = hyp[j - 1]? then
      backtrace ref hyp dp (i - 1) (j - 1) s d ins
    else if i > 0 ∧ j > 0 ∧ getCell dp i j = getCell dp (i - 1) (j - 1) + 1 then
      backtrace ref hyp dp (i - 1) (j - 1) (s + 1) d ins
    else if i > 0 ∧ getCell dp i j = getCell dp (i - 1) j + 1 then
      backtrace ref hyp dp (i - 1) j s (d + 1) ins
    else if j > 0 then backtrace ref hyp dp i (j - 1) s d (ins + 1)
    else none
  else some (s, d, ins)
termination_by i + j

/-- `_edit_ops`. -/
def editOps (ref hyp : List α) : Option (ℕ × ℕ × ℕ) :=
  backtrace ref hyp (editTable ref hyp) ref.length hyp.length 0 0 0

/-! ### The rolling row -/

/-- The body of the inner loop of `_edit_distance`. -/
def fillRowCell (ref hyp : List α) (previous : List ℕ) (i : ℕ) (current : List ℕ) (j : ℕ) :
    List ℕ :=
  if ref[i - 1]? = hyp[j - 1]? then current.set j (previous.getD (j - 1) 0)
  else current.set j
    (1 + min (previous.getD (j - 1) 0) (min (previous.getD j 0) (current.getD (j - 1) 0)))

/-- One turn of the outer loop: the next row. -/
def nextRow (ref hyp : List α) (previous : List ℕ) (i : ℕ) : List ℕ :=
  (List.range' 1 hyp.length).foldl (fillRowCell ref hyp previous i)
    (i :: List.replicate hyp.length 0)

/-- The rolling row from the first row on. -/
def rollingRow (ref hyp : List α) : List ℕ :=
  (List.range' 1 ref.length).foldl (nextRow ref hyp) (List.range (hyp.length + 1))

/-- `_edit_distance`: the shorter sequence goes along the row. -/
def editDistance (ref hyp : List α) : ℕ :=
  if ref.length < hyp.length then (rollingRow hyp ref).getD ref.length 0
  else (rollingRow ref hyp).getD hyp.length 0

/-! ### The scores -/

/-- `_normalize`. -/
def normalize (U : Unicodedata) (text : String) : String :=
  " ".intercalate (split U (stripPunctuation U (U.lower (U.nfkc text))))

/-- The result of `word_error_rate`; infinity is `⊤`. -/
structure WordErrorRate where
  /-- The rate. -/
  wer : WithTop ℚ
  /-- How many words were replaced. -/
  substitutions : ℕ
  /-- How many words are missing. -/
  deletions : ℕ
  /-- How many words are too much. -/
  insertions : ℕ
  /-- The number of words of the reference. -/
  refWordCount : ℕ

/-- `word_error_rate`. -/
def wordErrorRate (U : Unicodedata) (reference hypothesis : String) : Option WordErrorRate := do
  let refTokens := split U (normalize U reference)
  let hypTokens := split U (normalize U hypothesis)
  let (substitutions, deletions, insertions) ← editOps refTokens hypTokens
  let n := refTokens.length
  let wer : WithTop ℚ :=
    if n = 0 then (if hypTokens = [] then 0 else ⊤)
    else (((substitutions + deletions + insertions : ℕ) / n : ℚ) : WithTop ℚ)
  return ⟨wer, substitutions, deletions, insertions, n⟩

/-- The result of `char_error_rate`; infinity is `⊤`. -/
structure CharErrorRate where
  /-- The rate. -/
  cer : WithTop ℚ
  /-- The edit distance. -/
  editDistance : ℕ
  /-- The number of characters of the reference. -/
  refCharCount : ℕ

/-- `char_error_rate`. -/
def charErrorRate (U : Unicodedata) (reference hypothesis : String) : CharErrorRate :=
  let refChars := (normalize U reference).toList
  let hypChars := (normalize U hypothesis).toList
  let n := refChars.length
  if n = 0 then ⟨if hypChars = [] then 0 else ⊤, hypChars.length, n⟩
  else ⟨((editDistance refChars hypChars / n : ℚ) : WithTop ℚ), editDistance refChars hypChars, n⟩

/-! ### Cells -/

/-- A table with `n + 1` rows of `m + 1` cells. -/
def Shape (n m : ℕ) (dp : List (List ℕ)) : Prop :=
  dp.length = n + 1 ∧ ∀ row ∈ dp, row.length = m + 1

theorem shape_setCell {n m i j v : ℕ} {dp : List (List ℕ)} (h : Shape n m dp) :
    Shape n m (setCell dp i j v) := by
  refine ⟨by rw [setCell, List.length_modify, h.1], ?_⟩
  intro row hrow
  obtain ⟨k, hk, rfl⟩ := List.getElem_of_mem hrow
  unfold setCell at hk ⊢
  rw [List.length_modify] at hk
  rw [List.getElem_modify]
  split
  · rw [List.length_set, h.2 _ (List.getElem_mem hk)]
  · exact h.2 _ (List.getElem_mem hk)

/-- A write changes one cell. -/
theorem getCell_setCell {n m i j v i' j' : ℕ} {dp : List (List ℕ)} (h : Shape n m dp) (hi : i ≤ n)
    (hj : j ≤ m) :
    getCell (setCell dp i j v) i' j' = if i' = i ∧ j' = j then v else getCell dp i' j' := by
  unfold getCell setCell
  simp only [List.getD_eq_getElem?_getD, List.getElem?_modify, Option.map_eq_map]
  by_cases hii : i' = i
  · subst hii
    have hlt : i' < dp.length := by rw [h.1]; omega
    have hrow : (dp[i']).length = m + 1 := h.2 _ (List.getElem_mem hlt)
    simp only [if_true, List.getElem?_eq_getElem hlt, Option.map_some, Option.getD_some,
      true_and, List.getElem?_set]
    by_cases hjj : j = j'
    · subst hjj
      rw [if_pos rfl, if_pos (by omega), if_pos rfl, Option.getD_some]
    · rw [if_neg hjj, if_neg (Ne.symm hjj)]
  · have hne : ¬ i = i' := by
      intro h
      exact hii h.symm
    simp only [if_neg hne, hii, false_and, if_false, Option.map_id']

/-! ### Distances of prefixes -/

/-- The distance of two prefixes. -/
def prefixDist (ref hyp : List α) (i j : ℕ) : ℕ := dist (ref.take i).reverse (hyp.take j).reverse

section

variable {ref hyp : List α} {i j : ℕ}

omit [DecidableEq α] in
theorem reverse_take_succ (hi : i < ref.length) :
    (ref.take (i + 1)).reverse = ref[i] :: (ref.take i).reverse := by
  rw [List.take_add_one, List.getElem?_eq_getElem hi, Option.toList_some, List.reverse_append]
  rfl

theorem prefixDist_zero_left (hj : j ≤ hyp.length) : prefixDist ref hyp 0 j = j := by
  simp [prefixDist, hj]

theorem prefixDist_zero_right (hi : i ≤ ref.length) : prefixDist ref hyp i 0 = i := by
  simp [prefixDist, hi]

/-- The recurrence of the table. -/
theorem prefixDist_succ (hi : i < ref.length) (hj : j < hyp.length) :
    prefixDist ref hyp (i + 1) (j + 1)
      = if ref[i]? = hyp[j]? then prefixDist ref hyp i j
        else 1 + min (prefixDist ref hyp i j)
          (min (prefixDist ref hyp i (j + 1)) (prefixDist ref hyp (i + 1) j)) := by
  unfold prefixDist
  rw [reverse_take_succ hi, reverse_take_succ hj, List.getElem?_eq_getElem hi,
    List.getElem?_eq_getElem hj]
  by_cases heq : ref[i] = hyp[j]
  · rw [if_pos (by rw [heq]), heq, dist_cons_self]
  · rw [if_neg (by simpa using heq), dist_cons_cons heq]

theorem prefixDist_length : prefixDist ref hyp ref.length hyp.length = dist ref hyp := by
  unfold prefixDist
  rw [List.take_length, List.take_length, dist_reverse]

end

/-! ### The table holds the distances -/

/-- The table while row `i` is being filled: the first column, the rows before row `i`,
and row `i` up to cell `k` hold the distances. -/
structure Filled (ref hyp : List α) (i k : ℕ) (dp : List (List ℕ)) : Prop where
  /-- The table has its shape. -/
  shape : Shape ref.length hyp.length dp
  /-- The first column counts the rows. -/
  column : ∀ i' ≤ ref.length, getCell dp i' 0 = i'
  /-- The rows before row `i` are filled. -/
  rows : ∀ i' < i, ∀ j ≤ hyp.length, getCell dp i' j = prefixDist ref hyp i' j
  /-- Row `i` is filled up to cell `k`. -/
  row : ∀ j, 1 ≤ j → j ≤ k → getCell dp i j = prefixDist ref hyp i j

variable (ref hyp : List α)

/-- One turn of the inner loop. -/
theorem filled_fillCell {i k : ℕ} {dp : List (List ℕ)} (hi : i < ref.length) (hk : k < hyp.length)
    (h : Filled ref hyp (i + 1) k dp) :
    Filled ref hyp (i + 1) (k + 1) (fillCell ref hyp (i + 1) dp (k + 1)) := by
  have hleft : getCell dp (i + 1) k = prefixDist ref hyp (i + 1) k := by
    rcases Nat.eq_zero_or_pos k with rfl | hpos
    · rw [h.column _ hi, prefixDist_zero_right hi]
    · exact h.row k hpos le_rfl
  -- either way the new cell gets the distance
  have hcell : fillCell ref hyp (i + 1) dp (k + 1)
      = setCell dp (i + 1) (k + 1) (prefixDist ref hyp (i + 1) (k + 1)) := by
    unfold fillCell
    rw [prefixDist_succ hi hk, Nat.add_sub_cancel, Nat.add_sub_cancel, hleft,
      h.rows i (by omega) k (by omega), h.rows i (by omega) (k + 1) (by omega)]
    split <;> rfl
  rw [hcell]
  have hget := fun i' j' => @getCell_setCell ref.length hyp.length (i + 1) (k + 1)
    (prefixDist ref hyp (i + 1) (k + 1)) i' j' dp h.shape hi hk
  refine ⟨shape_setCell h.shape, ?_, ?_, ?_⟩
  · intro i' hi'
    rw [hget, if_neg (by omega)]
    exact h.column i' hi'
  · intro i' hi' j hj
    rw [hget, if_neg (by omega)]
    exact h.rows i' hi' j hj
  · intro j h1 hj
    rw [hget]
    by_cases hjk : j = k + 1
    · rw [if_pos ⟨rfl, hjk⟩, hjk]
    · rw [if_neg (by omega)]
      exact h.row j h1 (by omega)

/-- The table before the double loop. -/
theorem filled_borders :
    Filled ref hyp 1 0 ((List.range (hyp.length + 1)).foldl (fun dp j => setCell dp 0 j j)
      ((List.range (ref.length + 1)).foldl (fun dp i => setCell dp i 0 i)
        (List.replicate (ref.length + 1) (List.replicate (hyp.length + 1) 0)))) := by
  have hzero : Shape ref.length hyp.length
      (List.replicate (ref.length + 1) (List.replicate (hyp.length + 1) 0)) := by
    refine ⟨List.length_replicate, ?_⟩
    intro row hrow
    rw [List.eq_of_mem_replicate hrow, List.length_replicate]
  -- the first loop fills the first column
  obtain ⟨hshape, hcolumn⟩ := foldl_range_induct
    (fun k dp => Shape ref.length hyp.length dp ∧ ∀ i' < k, getCell dp i' 0 = i')
    (fun dp i => setCell dp i 0 i) (m := ref.length + 1) ⟨hzero, by simp⟩ (by
      rintro k dp hk ⟨hshape, hcolumn⟩
      refine ⟨shape_setCell hshape, ?_⟩
      intro i' hi'
      rw [getCell_setCell hshape (by omega) (by omega)]
      by_cases hik : i' = k
      · rw [if_pos ⟨hik, rfl⟩, hik]
      · rw [if_neg (by omega)]
        exact hcolumn i' (by omega))
  -- the second one the first row, and leaves the column alone
  obtain ⟨hshape, hcolumn, hrow⟩ := foldl_range_induct
    (fun k dp => Shape ref.length hyp.length dp ∧ (∀ i' < ref.length + 1, getCell dp i' 0 = i') ∧
      ∀ j < k, getCell dp 0 j = j)
    (fun dp j => setCell dp 0 j j) (m := hyp.length + 1) ⟨hshape, hcolumn, by simp⟩ (by
      rintro k dp hk ⟨hshape, hcolumn, hrow⟩
      have hget := fun i' j' => @getCell_setCell ref.length hyp.length 0 k k i' j' dp hshape
        (by omega) (by omega)
      refine ⟨shape_setCell hshape, ?_, ?_⟩
      · intro i' hi'
        rw [hget]
        split
        · omega
        · exact hcolumn i' hi'
      · intro j hj
        rw [hget]
        split
        · omega
        · exact hrow j (by omega))
  refine ⟨hshape, fun i' hi' => hcolumn i' (by omega), ?_, ?_⟩
  · intro i' hi' j hj
    obtain rfl : i' = 0 := by omega
    rw [hrow j (by omega), prefixDist_zero_left hj]
  · intro j h1 hj
    omega

/-- **A cell of the table is the distance of two prefixes.** -/
theorem getCell_editTable {i j : ℕ} (hi : i ≤ ref.length) (hj : j ≤ hyp.length) :
    getCell (editTable ref hyp) i j = prefixDist ref hyp i j := by
  have hfilled : Filled ref hyp (ref.length + 1) 0 (editTable ref hyp) := by
    refine foldl_range'_induct (fun k dp => Filled ref hyp (k + 1) 0 dp)
      (fun dp i => (List.range' 1 hyp.length).foldl (fillCell ref hyp i) dp)
      (filled_borders ref hyp) ?_
    intro i dp hi h
    -- one row, from its first cell to its last
    have hrow := foldl_range'_induct (fun k dp => Filled ref hyp (i + 1) k dp)
      (fillCell ref hyp (i + 1)) (m := hyp.length) h
      fun k dp hk h => filled_fillCell ref hyp hi hk h
    refine ⟨hrow.shape, hrow.column, ?_, fun j h1 hj => by omega⟩
    intro i' hi' j hj
    rcases Nat.lt_or_ge i' (i + 1) with hlt | hge
    · exact hrow.rows i' hlt j hj
    · obtain rfl : i' = i + 1 := by omega
      rcases Nat.eq_zero_or_pos j with rfl | hpos
      · rw [hrow.column _ hi, prefixDist_zero_right hi]
      · exact hrow.row j hpos hj
  exact hfilled.rows i (by omega) j hj

/-! ### The walk back -/

/-- Where a cell costs neither a substitution nor a deletion, it costs an insertion: the
last branch of the walk back needs no test. -/
theorem prefixDist_eq_left {i j : ℕ} (hi : i + 1 ≤ ref.length) (hj : j + 1 ≤ hyp.length)
    (hne : ref[i]? ≠ hyp[j]?)
    (hsub : prefixDist ref hyp (i + 1) (j + 1) ≠ prefixDist ref hyp i j + 1)
    (hdel : prefixDist ref hyp (i + 1) (j + 1) ≠ prefixDist ref hyp i (j + 1) + 1) :
    prefixDist ref hyp (i + 1) (j + 1) = prefixDist ref hyp (i + 1) j + 1 := by
  have hrec := @prefixDist_succ _ _ ref hyp i j hi hj
  rw [if_neg hne] at hrec
  omega

/-- **The walk back counts the operations of a script** that costs what the cell says,
and does not leave the table. -/
theorem backtrace_spec {dp : List (List ℕ)}
    (hdp : ∀ i ≤ ref.length, ∀ j ≤ hyp.length, getCell dp i j = prefixDist ref hyp i j)
    (i j s d ins : ℕ) (hi : i ≤ ref.length) (hj : j ≤ hyp.length) :
    ∃ s' d' ins', backtrace ref hyp dp i j s d ins = some (s + s', d + d', ins + ins') ∧
      Script (ref.take i).reverse (hyp.take j).reverse s' d' ins' ∧
      s' + d' + ins' = prefixDist ref hyp i j := by
  induction i, j, s, d, ins using backtrace.induct ref hyp dp with
  | case1 i j s d ins hpos hmatch ih =>
    obtain ⟨i, rfl⟩ : ∃ k, i = k + 1 := ⟨i - 1, by omega⟩
    obtain ⟨j, rfl⟩ : ∃ k, j = k + 1 := ⟨j - 1, by omega⟩
    obtain ⟨s', d', ins', hrun, hscript, hcost⟩ := ih (by omega) (by omega)
    have hopt : ref[i]? = hyp[j]? := hmatch.2.2
    have heq : ref[i] = hyp[j] := by
      rwa [List.getElem?_eq_getElem (by omega), List.getElem?_eq_getElem (by omega),
        Option.some.injEq] at hopt
    refine ⟨s', d', ins', ?_, ?_, ?_⟩
    · rw [backtrace, if_pos hpos, if_pos hmatch]
      exact hrun
    · rw [reverse_take_succ (by omega), reverse_take_succ (by omega), heq]
      exact .keep _ hscript
    · rw [prefixDist_succ (by omega) (by omega), if_pos hopt]
      exact hcost
  | case2 i j s d ins hpos hmatch hsub ih =>
    obtain ⟨i, rfl⟩ : ∃ k, i = k + 1 := ⟨i - 1, by omega⟩
    obtain ⟨j, rfl⟩ : ∃ k, j = k + 1 := ⟨j - 1, by omega⟩
    obtain ⟨s', d', ins', hrun, hscript, hcost⟩ := ih (by omega) (by omega)
    have hne : ref[i] ≠ hyp[j] := by
      intro heq
      refine hmatch ⟨by omega, by omega, ?_⟩
      rw [Nat.add_sub_cancel, Nat.add_sub_cancel, List.getElem?_eq_getElem (by omega),
        List.getElem?_eq_getElem (by omega), heq]
    have hcell := hsub.2.2
    rw [hdp _ hi _ hj, hdp _ (by omega) _ (by omega)] at hcell
    refine ⟨s' + 1, d', ins', ?_, ?_, ?_⟩
    · rw [backtrace, if_pos hpos, if_neg hmatch, if_pos hsub, hrun]
      simp only [Nat.add_assoc, Nat.add_comm 1 s']
    · rw [reverse_take_succ (by omega), reverse_take_succ (by omega)]
      exact .sub hne hscript
    · rw [Nat.add_sub_cancel, Nat.add_sub_cancel] at hcost hcell
      omega
  | case3 i j s d ins hpos hmatch hsub hdel ih =>
    obtain ⟨i, rfl⟩ : ∃ k, i = k + 1 := ⟨i - 1, by omega⟩
    obtain ⟨s', d', ins', hrun, hscript, hcost⟩ := ih (by omega) hj
    have hcell := hdel.2
    rw [hdp _ hi _ hj, hdp _ (by omega) _ hj] at hcell
    refine ⟨s', d' + 1, ins', ?_, ?_, ?_⟩
    · rw [backtrace, if_pos hpos, if_neg hmatch, if_neg hsub, if_pos hdel, hrun]
      simp only [Nat.add_assoc, Nat.add_comm 1 d']
    · rw [reverse_take_succ (by omega)]
      exact .del _ hscript
    · rw [Nat.add_sub_cancel] at hcost hcell
      omega
  | case4 i j s d ins hpos hmatch hsub hdel hj0 ih =>
    obtain ⟨j, rfl⟩ : ∃ k, j = k + 1 := ⟨j - 1, by omega⟩
    obtain ⟨s', d', ins', hrun, hscript, hcost⟩ := ih hi (by omega)
    rw [Nat.add_sub_cancel] at hcost
    have hcell : prefixDist ref hyp i (j + 1) = prefixDist ref hyp i j + 1 := by
      rcases Nat.eq_zero_or_pos i with rfl | hi0
      · rw [prefixDist_zero_left hj, prefixDist_zero_left (by omega)]
      · obtain ⟨i, rfl⟩ : ∃ k, i = k + 1 := ⟨i - 1, by omega⟩
        rw [hdp _ hi _ hj, hdp _ (by omega) _ (by omega)] at hsub hdel
        simp only [Nat.add_sub_cancel, Nat.succ_pos, true_and, gt_iff_lt] at hmatch hsub hdel
        exact prefixDist_eq_left ref hyp hi hj hmatch hsub hdel
    refine ⟨s', d', ins' + 1, ?_, ?_, ?_⟩
    · rw [backtrace, if_pos hpos, if_neg hmatch, if_neg hsub, if_neg hdel, if_pos hj0, hrun]
      simp only [Nat.add_assoc, Nat.add_comm 1 ins']
    · rw [reverse_take_succ (by omega)]
      exact .ins _ hscript
    · omega
  | case5 i j s d ins hpos hmatch hsub hdel hj0 =>
    -- in the first column every cell is one more than the cell above
    obtain rfl : j = 0 := by omega
    refine absurd ⟨by omega, ?_⟩ hdel
    rw [hdp _ hi _ hj, hdp _ (by omega) _ hj, prefixDist_zero_right hi,
      prefixDist_zero_right (by omega)]
    omega
  | case6 i j s d ins hpos =>
    obtain rfl : i = 0 := by omega
    obtain rfl : j = 0 := by omega
    refine ⟨0, 0, 0, ?_, ?_, ?_⟩
    · rw [backtrace, if_neg hpos]
      rfl
    · simpa using Script.nil
    · rw [prefixDist_zero_left hj]

/-- The walk back from the last cell. -/
theorem exists_editOps_eq : ∃ s d ins, editOps ref hyp = some (s, d, ins) ∧
    Script ref hyp s d ins ∧ s + d + ins = dist ref hyp := by
  obtain ⟨s, d, ins, hrun, hscript, hcost⟩ := backtrace_spec ref hyp
    (fun i hi j hj => getCell_editTable ref hyp hi hj) ref.length hyp.length 0 0 0 le_rfl le_rfl
  rw [Nat.zero_add, Nat.zero_add, Nat.zero_add] at hrun
  rw [List.take_length, List.take_length] at hscript
  have hforward := hscript.reverse
  rw [List.reverse_reverse, List.reverse_reverse] at hforward
  exact ⟨s, d, ins, hrun, hforward, hcost.trans prefixDist_length⟩

/-- The word error rate in terms of the distance. -/
theorem wordErrorRate_eq (U : Unicodedata) (reference hypothesis : String) :
    ∃ score, wordErrorRate U reference hypothesis = some score ∧
      score.substitutions + score.deletions + score.insertions
        = dist (split U (normalize U reference)) (split U (normalize U hypothesis)) ∧
      score.refWordCount = (split U (normalize U reference)).length ∧
      score.wer = if score.refWordCount = 0 then
          (if dist (split U (normalize U reference)) (split U (normalize U hypothesis)) = 0
            then 0 else ⊤)
        else ((dist (split U (normalize U reference)) (split U (normalize U hypothesis))
          / score.refWordCount : ℚ) : WithTop ℚ) := by
  unfold wordErrorRate
  generalize split U (normalize U reference) = refTokens
  generalize split U (normalize U hypothesis) = hypTokens
  obtain ⟨s, d, ins, hops, -, hcost⟩ := exists_editOps_eq refTokens hypTokens
  simp only [hops, Option.bind_eq_bind, Option.bind_some, Option.pure_def]
  refine ⟨⟨_, s, d, ins, refTokens.length⟩, rfl, hcost, rfl, ?_⟩
  rw [hcost]
  by_cases hn : refTokens.length = 0
  · rw [if_pos hn, if_pos hn]
    obtain rfl : refTokens = [] := List.length_eq_zero_iff.mp hn
    rw [dist_nil_left]
    cases hypTokens with
    | nil => rfl
    | cons b hypTokens => rfl
  · rw [if_neg hn, if_neg hn]

/-- **The operations are those of an optimal edit script.**  The walk back does not leave
the table; what it counts is an edit script from `ref` to `hyp`, deletions and
insertions explain the difference of the lengths, and no script has a smaller total.
The word error rate is that total over the number of reference words. -/
theorem editOps_optimal :
    (∃ s d ins, editOps ref hyp = some (s, d, ins) ∧ Script ref hyp s d ins ∧
      (ref.length : ℤ) - d + ins = hyp.length ∧
      IsLeast {n | ∃ s d ins, Script ref hyp s d ins ∧ s + d + ins = n} (s + d + ins)) ∧
    ∀ (U : Unicodedata) (reference hypothesis : String),
      ∃ score n, wordErrorRate U reference hypothesis = some score ∧
        IsLeast {n | ∃ s d ins, Script (split U (normalize U reference))
          (split U (normalize U hypothesis)) s d ins ∧ s + d + ins = n} n ∧
        score.substitutions + score.deletions + score.insertions = n ∧
        score.refWordCount = (split U (normalize U reference)).length ∧
        score.wer = if score.refWordCount = 0 then (if n = 0 then 0 else ⊤)
          else ((n / score.refWordCount : ℚ) : WithTop ℚ) := by
  constructor
  · obtain ⟨s, d, ins, hops, hscript, hcost⟩ := exists_editOps_eq ref hyp
    refine ⟨s, d, ins, hops, hscript, ?_, ?_⟩
    · have := hscript.length_eq
      omega
    · rw [hcost]
      exact isLeast_dist ref hyp
  · intro U reference hypothesis
    obtain ⟨score, hscore, hsum, hcount, hwer⟩ := wordErrorRate_eq U reference hypothesis
    exact ⟨score, _, hscore, isLeast_dist _ _, hsum, hcount, hwer⟩

/-! ### The rolling row follows the table -/

/-- The row while it is being filled up to cell `k`. -/
structure RowFilled (ref hyp : List α) (i k : ℕ) (row : List ℕ) : Prop where
  /-- The row has a cell for each prefix. -/
  length_eq : row.length = hyp.length + 1
  /-- The cells so far hold the distances. -/
  cells : ∀ j ≤ k, row.getD j 0 = prefixDist ref hyp i j

/-- One turn of the inner loop. -/
theorem rowFilled_fillRowCell {i k : ℕ} {previous current : List ℕ} (hi : i < ref.length)
    (hk : k < hyp.length) (hprev : RowFilled ref hyp i hyp.length previous)
    (h : RowFilled ref hyp (i + 1) k current) :
    RowFilled ref hyp (i + 1) (k + 1) (fillRowCell ref hyp previous (i + 1) current (k + 1)) := by
  have hcell : fillRowCell ref hyp previous (i + 1) current (k + 1)
      = current.set (k + 1) (prefixDist ref hyp (i + 1) (k + 1)) := by
    unfold fillRowCell
    rw [prefixDist_succ hi hk, Nat.add_sub_cancel, Nat.add_sub_cancel, h.cells k le_rfl,
      hprev.cells k (by omega), hprev.cells (k + 1) (by omega)]
    split <;> rfl
  rw [hcell]
  refine ⟨by rw [List.length_set, h.length_eq], ?_⟩
  intro j hj
  rw [List.getD_eq_getElem?_getD, List.getElem?_set]
  by_cases hjk : k + 1 = j
  · subst hjk
    rw [if_pos rfl, if_pos (by rw [h.length_eq]; omega), Option.getD_some]
  · rw [if_neg hjk, ← List.getD_eq_getElem?_getD]
    exact h.cells j (by omega)

/-- **The rolling row is the last row of the table.** -/
theorem rowFilled_rollingRow : RowFilled ref hyp ref.length hyp.length (rollingRow ref hyp) := by
  refine foldl_range'_induct (fun k row => RowFilled ref hyp k hyp.length row) (nextRow ref hyp)
    ⟨by simp, fun j hj => ?_⟩ ?_
  · rw [prefixDist_zero_left hj, List.getD_eq_getElem?_getD, List.getElem?_range (by omega),
      Option.getD_some]
  · intro i previous hi hprev
    refine foldl_range'_induct (fun k row => RowFilled ref hyp (i + 1) k row)
      (fillRowCell ref hyp previous (i + 1)) ⟨by simp, fun j hj => ?_⟩
      fun k current hk h => rowFilled_fillRowCell ref hyp hi hk hprev h
    obtain rfl : j = 0 := by omega
    rw [prefixDist_zero_right hi]
    rfl

/-- `_edit_distance` is the distance, whichever sequence goes along the row. -/
theorem editDistance_eq : editDistance ref hyp = dist ref hyp := by
  have hrow : ∀ ref hyp : List α, (rollingRow ref hyp).getD hyp.length 0 = dist ref hyp :=
    fun ref hyp =>
      ((rowFilled_rollingRow ref hyp).cells hyp.length le_rfl).trans prefixDist_length
  unfold editDistance
  split
  · rw [hrow, dist_comm]
  · exact hrow ref hyp

/-- **The rolling row agrees with the table**, and the distance is symmetric. -/
theorem editDistance_eq_editOps :
    (∃ s d ins, editOps ref hyp = some (s, d, ins) ∧ editDistance ref hyp = s + d + ins) ∧
      editDistance ref hyp = editDistance hyp ref := by
  constructor
  · obtain ⟨s, d, ins, hops, -, hcost⟩ := exists_editOps_eq ref hyp
    exact ⟨s, d, ins, hops, by rw [editDistance_eq, hcost]⟩
  · rw [editDistance_eq, editDistance_eq, dist_comm]

example : editDistance [1, 2, 3] [1, 3, 4, 5] = 3 := by decide

/-- The character error rate reports the distance of the characters, whether or not
there are reference characters. -/
theorem charErrorRate_editDistance (U : Unicodedata) (reference hypothesis : String) :
    (charErrorRate U reference hypothesis).editDistance
      = dist (normalize U reference).toList (normalize U hypothesis).toList := by
  unfold charErrorRate
  generalize (normalize U reference).toList = refChars
  generalize (normalize U hypothesis).toList = hypChars
  simp only
  split
  · next hn =>
    obtain rfl : refChars = [] := List.length_eq_zero_iff.mp hn
    rw [dist_nil_left]
  · exact editDistance_eq _ _

end WerCer
end MediaHub

import Mathlib.Data.List.Basic
import Mathlib.Data.List.DropRight
import Mathlib.Data.List.Infix

/-!
# Lines, blocks and words

A text is made of lines, and blocks of lines are set apart by doubled line ends.  Where the
text is divided at the doubled line ends, from left to right and without overlaps, an empty
line ends the block that has a line already, and is the first line of one that has none.

## Main definitions

* `joinLines` — lines to a text.
* `blocks` — the text divided at the doubled line ends.
* `divide` — what that means for the lines.
* `words`, `collapse` — the maximal pieces without separators, and these with one in between.
* `trim` — the text without the separators at its ends.
* `firstAt`, `FirstPlace` — the first place of a text where there is something.

## Main results

* `blocks_joinLines` — **the blocks of a text are those of its lines.**
* `words_joinLines` — the words of a text are those of its lines.
* `flatten_words` — no other symbols than separators are lost.
-/

namespace MediaHub

variable {α : Type*}

/-! ### Lines -/

/-- The lines with a line end in between. -/
def joinLines (nl : α) (ls : List (List α)) : List α := [nl].intercalate ls

@[simp] theorem joinLines_nil (nl : α) : joinLines nl [] = [] := rfl

@[simp] theorem joinLines_singleton (nl : α) (l : List α) : joinLines nl [l] = l :=
  List.intercalate_singleton

theorem joinLines_cons_cons (nl : α) (l l' : List α) (ls : List (List α)) :
    joinLines nl (l :: l' :: ls) = l ++ nl :: joinLines nl (l' :: ls) := by
  simp [joinLines, List.intercalate_cons_cons]

theorem joinLines_cons (nl : α) (l : List α) {ls : List (List α)} (h : ls ≠ []) :
    joinLines nl (l :: ls) = l ++ nl :: joinLines nl ls := by
  obtain ⟨l', ls, rfl⟩ := List.exists_cons_of_ne_nil h
  exact joinLines_cons_cons nl l l' ls

theorem joinLines_append (nl : α) {ls ls' : List (List α)} (h : ls ≠ []) (h' : ls' ≠ []) :
    joinLines nl (ls ++ ls') = joinLines nl ls ++ nl :: joinLines nl ls' := by
  induction ls with
  | nil => exact absurd rfl h
  | cons l ls ih =>
    cases ls with
    | nil =>
      rw [List.singleton_append, joinLines_singleton]
      exact joinLines_cons nl l h'
    | cons l₂ ls =>
      rw [List.cons_append, joinLines_cons nl l (by simp), ih (by simp),
        joinLines_cons nl l (by simp), List.append_assoc]
      rfl

theorem joinLines_concat (nl : α) {ls : List (List α)} (h : ls ≠ []) (l : List α) :
    joinLines nl (ls ++ [l]) = joinLines nl ls ++ nl :: l := by
  rw [joinLines_append nl h (by simp), joinLines_singleton]

theorem mem_joinLines {nl c : α} {ls : List (List α)} (h : c ∈ joinLines nl ls) :
    c = nl ∨ ∃ l ∈ ls, c ∈ l := by
  induction ls with
  | nil => cases h
  | cons l ls ih =>
    cases ls with
    | nil =>
      rw [joinLines_singleton] at h
      exact Or.inr ⟨l, List.mem_cons_self, h⟩
    | cons l' ls =>
      rw [joinLines_cons_cons, List.mem_append, List.mem_cons] at h
      rcases h with h | h | h
      · exact Or.inr ⟨l, List.mem_cons_self, h⟩
      · exact Or.inl h
      · exact (ih h).imp id fun ⟨l', hl', hc⟩ => ⟨l', List.mem_cons_of_mem _ hl', hc⟩

/-- Some lines in a row are a part of the text. -/
theorem joinLines_within (nl : α) {ls ls' : List (List α)} (h : ls <:+: ls') :
    joinLines nl ls <:+: joinLines nl ls' := by
  obtain ⟨pre, post, rfl⟩ := h
  rcases eq_or_ne ls [] with rfl | hne
  · exact List.nil_infix
  have hpost : joinLines nl ls <:+: joinLines nl (ls ++ post) := by
    rcases eq_or_ne post [] with rfl | hp
    · simp
    · rw [joinLines_append nl hne hp]
      exact (List.prefix_append _ _).isInfix
  rw [List.append_assoc]
  rcases eq_or_ne pre [] with rfl | hp
  · exact hpost
  · rw [joinLines_append nl hp (by simp [hne])]
    exact hpost.trans ((List.suffix_cons _ _).trans (List.suffix_append _ _)).isInfix

/-- What is counted in a text is counted in its lines, line ends apart. -/
theorem countP_joinLines {q : α → Bool} {nl : α} (hq : q nl = false) (ls : List (List α)) :
    (joinLines nl ls).countP q = ls.flatten.countP q := by
  induction ls with
  | nil => rfl
  | cons l ls ih =>
    cases ls with
    | nil => simp
    | cons l' ls =>
      rw [joinLines_cons_cons, List.countP_append, List.countP_cons, ih, List.flatten_cons,
        List.countP_append]
      simp [hq]

section

variable [DecidableEq α] {nl : α}

/-- There are no line ends in the lines of a text. -/
theorem notMem_of_mem_splitOn {s l : List α} (h : l ∈ s.splitOn nl) : nl ∉ l := by
  induction s generalizing l with
  | nil =>
    rw [List.splitOn_nil, List.mem_singleton] at h
    rw [h]
    exact List.not_mem_nil
  | cons c s ih =>
    rw [List.splitOn_cons_eq_if_modifyHead] at h
    split at h
    · rcases List.mem_cons.mp h with rfl | h
      · exact List.not_mem_nil
      · exact ih h
    · next hc =>
      obtain ⟨l', ls, hls⟩ := List.exists_cons_of_ne_nil (List.splitOn_ne_nil nl s)
      rw [hls] at h ih
      rcases List.mem_cons.mp h with rfl | h
      · rw [List.mem_cons, not_or]
        exact ⟨fun heq => hc (by simp [heq]), ih List.mem_cons_self⟩
      · exact ih (List.mem_cons_of_mem _ h)

/-- A text has one line, or a first and a last one. -/
theorem splitOn_cases (nl : α) (s : List α) :
    nl ∉ s ∨ ∃ first ls last, s.splitOn nl = first :: (ls ++ [last]) := by
  obtain ⟨first, ls, hls⟩ := List.exists_cons_of_ne_nil (List.splitOn_ne_nil nl s)
  rcases List.eq_nil_or_concat' ls with rfl | ⟨ls, last, rfl⟩
  · left
    rw [← @List.intercalate_splitOn _ s _ _ nl, hls, List.intercalate_singleton]
    exact notMem_of_mem_splitOn (hls ▸ List.mem_cons_self : first ∈ s.splitOn nl)
  · exact Or.inr ⟨first, ls, last, hls⟩

/-- A line is a part of the text. -/
theorem within_of_mem_splitOn {s l : List α} (h : l ∈ s.splitOn nl) : l <:+: s := by
  obtain ⟨pre, post, hls⟩ := List.append_of_mem h
  have hpart : [l] <:+: s.splitOn nl := ⟨pre, post, by rw [hls, List.append_assoc]; rfl⟩
  have hwithin := joinLines_within nl hpart
  rwa [joinLines_singleton, joinLines, List.intercalate_splitOn] at hwithin

/-- What is put before a text without line ends is put before its first line. -/
theorem splitOn_prepend {p s l : List α} {ls : List (List α)} (hp : nl ∉ p)
    (h : s.splitOn nl = l :: ls) : (p ++ s).splitOn nl = (p ++ l) :: ls := by
  induction p with
  | nil => exact h
  | cons c p ih =>
    rw [List.mem_cons, not_or] at hp
    rw [List.cons_append, List.splitOn_cons_eq_if_modifyHead, ih hp.2, if_neg]
    · rfl
    · simpa using fun heq : c = nl => hp.1 heq.symm

/-- What is put behind a text without line ends is put behind its last line. -/
theorem splitOn_append {s l q : List α} {ls : List (List α)} (hq : nl ∉ q)
    (h : s.splitOn nl = ls ++ [l]) : (s ++ q).splitOn nl = ls ++ [l ++ q] := by
  have hjoin : s ++ q = joinLines nl (ls ++ [l ++ q]) := by
    have hs : s = joinLines nl (ls ++ [l]) := by rw [← h, joinLines, List.intercalate_splitOn]
    rcases eq_or_ne ls [] with rfl | hne
    · rw [hs]
      simp
    · rw [hs, joinLines_concat nl hne, joinLines_concat nl hne, List.append_assoc,
        List.cons_append]
  rw [hjoin, joinLines]
  refine List.splitOn_intercalate nl (fun l' hl' => ?_) (by simp)
  rcases List.mem_append.mp hl' with hmem | hmem
  · exact notMem_of_mem_splitOn (h ▸ List.mem_append_left _ hmem : l' ∈ s.splitOn nl)
  · rw [List.mem_singleton.mp hmem, List.mem_append, not_or]
    exact ⟨notMem_of_mem_splitOn (h ▸ List.mem_append_right _ List.mem_cons_self :
      l ∈ s.splitOn nl), hq⟩

end

/-! ### Blocks -/

section

variable [DecidableEq α] (nl : α)

/-- The text divided at the doubled line ends; `acc` is what has been read of a block, in
reverse. -/
def blocksFrom : List α → List α → List (List α)
  | acc, [] => [acc.reverse]
  | acc, [c] => [(c :: acc).reverse]
  | acc, c :: d :: s =>
    if c = nl ∧ d = nl then acc.reverse :: blocksFrom [] s else blocksFrom (c :: acc) (d :: s)

/-- The text divided at the doubled line ends. -/
def blocks (s : List α) : List (List α) := blocksFrom nl [] s

omit [DecidableEq α] in
/-- The lines of the blocks, where `cur` are those of the open block. -/
def divide (cur : List (List α)) : List (List α) → List (List (List α))
  | [] => [cur]
  | [] :: l :: ls => cur :: divide [l] ls
  | l :: ls => divide (cur ++ [l]) ls

omit [DecidableEq α] in
/-- The lines behind a first one, each behind a line end. -/
def tailLines (ls : List (List α)) : List α := ls.flatMap fun l => nl :: l

omit [DecidableEq α] in
theorem joinLines_eq_append_tailLines (l : List α) (ls : List (List α)) :
    joinLines nl (l :: ls) = l ++ tailLines nl ls := by
  induction ls generalizing l with
  | nil => simp [tailLines]
  | cons l' ls ih =>
    rw [joinLines_cons_cons, ih]
    rfl

/-- A line is read to its end. -/
theorem blocksFrom_line {l : List α} (hl : nl ∉ l) (acc s : List α) :
    blocksFrom nl acc (l ++ s) = blocksFrom nl (l.reverse ++ acc) s := by
  induction l generalizing acc with
  | nil => rfl
  | cons c l ih =>
    have hc : c ≠ nl := fun h => hl (h ▸ List.mem_cons_self)
    have hstep : blocksFrom nl acc (c :: (l ++ s)) = blocksFrom nl (c :: acc) (l ++ s) := by
      cases l ++ s with
      | nil => rfl
      | cons d s => rw [blocksFrom, if_neg (fun h => hc h.1)]
    rw [List.cons_append, hstep, ih (fun h => hl (List.mem_cons_of_mem _ h))]
    simp

/-- A line that does not end the block is read into it. -/
theorem blocksFrom_grow {l : List α} {ls : List (List α)} (hl : nl ∉ l) (hne : l ≠ [] ∨ ls = [])
    {cur : List (List α)} (hcur : cur ≠ []) :
    blocksFrom nl (joinLines nl cur).reverse (tailLines nl (l :: ls))
      = blocksFrom nl (joinLines nl (cur ++ [l])).reverse (tailLines nl ls) := by
  have hrev : (joinLines nl (cur ++ [l])).reverse
      = l.reverse ++ nl :: (joinLines nl cur).reverse := by
    rw [joinLines_concat nl hcur]
    simp
  rw [hrev, ← blocksFrom_line nl hl]
  show blocksFrom nl _ (nl :: (l ++ tailLines nl ls)) = _
  cases l with
  | nil =>
    obtain rfl : ls = [] := hne.resolve_left (fun h => h rfl)
    simp [tailLines, blocksFrom]
  | cons c l =>
    have hc : c ≠ nl := fun h => hl (h ▸ List.mem_cons_self)
    rw [List.cons_append, blocksFrom, if_neg (fun h => hc h.2)]

/-- The blocks of what is left to read are those of the lines that are left. -/
theorem blocksFrom_tailLines {cur ls : List (List α)} (hls : ∀ l ∈ ls, nl ∉ l) (hcur : cur ≠ []) :
    blocksFrom nl (joinLines nl cur).reverse (tailLines nl ls)
      = (divide cur ls).map (joinLines nl) := by
  fun_induction divide cur ls with
  | case1 cur => simp [tailLines, blocksFrom]
  | case2 cur l ls ih =>
    have hl := hls l (by simp)
    have hrest := ih (fun l' h => hls l' (by simp [h])) (by simp)
    rw [joinLines_singleton] at hrest
    rw [List.map_cons, ← hrest]
    show blocksFrom nl _ (nl :: nl :: (l ++ tailLines nl ls)) = _
    rw [blocksFrom, if_pos ⟨rfl, rfl⟩, List.reverse_reverse, blocksFrom_line nl hl, List.append_nil]
  | case3 cur l ls hlast ih =>
    have hne : l ≠ [] ∨ ls = [] := by
      by_contra h
      obtain ⟨hl, hls⟩ := not_or.mp h
      obtain ⟨l', ls', rfl⟩ := List.exists_cons_of_ne_nil hls
      exact hlast l' ls' (not_not.mp hl) rfl
    rw [blocksFrom_grow nl (hls l List.mem_cons_self) hne hcur]
    exact ih (fun l' h => hls l' (List.mem_cons_of_mem _ h)) (by simp)

/-- **The blocks of a text are those of its lines.** -/
theorem blocks_joinLines {l : List α} {ls : List (List α)} (h : ∀ l' ∈ l :: ls, nl ∉ l') :
    blocks nl (joinLines nl (l :: ls)) = (divide [l] ls).map (joinLines nl) := by
  have hrest := blocksFrom_tailLines nl (fun l' hl' => h l' (List.mem_cons_of_mem _ hl'))
    (List.cons_ne_nil l [])
  rw [joinLines_singleton] at hrest
  rw [blocks, joinLines_eq_append_tailLines, blocksFrom_line nl (h l List.mem_cons_self),
    List.append_nil, hrest]

omit [DecidableEq α] in
/-- A line that is not empty is read into the block. -/
theorem divide_cons (cur : List (List α)) {l : List α} (hl : l ≠ []) (ls : List (List α)) :
    divide cur (l :: ls) = divide (cur ++ [l]) ls := by
  rw [divide]
  intro l' ls' hnil
  exact absurd hnil hl

omit [DecidableEq α] in
/-- So are lines that are not empty. -/
theorem divide_append (cur : List (List α)) {ls : List (List α)} (h : ∀ l ∈ ls, l ≠ [])
    (rest : List (List α)) : divide cur (ls ++ rest) = divide (cur ++ ls) rest := by
  induction ls generalizing cur with
  | nil => rw [List.nil_append, List.append_nil]
  | cons l ls ih =>
    rw [List.cons_append, divide_cons cur (h l List.mem_cons_self),
      ih _ fun l' hl' => h l' (List.mem_cons_of_mem _ hl'), List.append_assoc]
    rfl

omit [DecidableEq α] in
/-- The blocks have lines, and no others than those of the text. -/
theorem of_mem_divide {cur ls block : List (List α)} (hcur : cur ≠ []) (h : block ∈ divide cur ls) :
    block ≠ [] ∧ ∀ l ∈ block, l ∈ cur ∨ l ∈ ls := by
  fun_induction divide cur ls with
  | case1 cur =>
    obtain rfl := List.mem_singleton.mp h
    exact ⟨hcur, fun l hl => Or.inl hl⟩
  | case2 cur l ls ih =>
    rcases List.mem_cons.mp h with rfl | h
    · exact ⟨hcur, fun l hl => Or.inl hl⟩
    · obtain ⟨hne, hlines⟩ := ih (by simp) h
      refine ⟨hne, fun l' hl' => Or.inr ?_⟩
      rcases hlines l' hl' with h | h
      · simp [List.mem_singleton.mp h]
      · simp [h]
  | case3 cur l ls _ ih =>
    obtain ⟨hne, hlines⟩ := ih (by simp) h
    refine ⟨hne, fun l' hl' => ?_⟩
    rcases hlines l' hl' with h | h
    · rcases List.mem_append.mp h with h | h
      · exact Or.inl h
      · simp [List.mem_singleton.mp h]
    · exact Or.inr (List.mem_cons_of_mem _ h)

end

/-! ### The first of a symbol -/

/-- The first of a symbol in a text is in one place. -/
theorem append_cons_inj {x x' y y' : List α} {c : α} (hx : c ∉ x) (hx' : c ∉ x')
    (h : x ++ c :: y = x' ++ c :: y') : x = x' ∧ y = y' := by
  induction x generalizing x' with
  | nil =>
    cases x' with
    | nil => exact ⟨rfl, (List.cons.inj h).2⟩
    | cons d x' => exact absurd ((List.cons.inj h).1 ▸ List.mem_cons_self) hx'
  | cons d x ih =>
    cases x' with
    | nil => exact absurd ((List.cons.inj h).1 ▸ List.mem_cons_self) hx
    | cons d' x' =>
      obtain ⟨rfl, htail⟩ := List.cons.inj h
      obtain ⟨rfl, rfl⟩ := ih (fun hc => hx (List.mem_cons_of_mem _ hc))
        (fun hc => hx' (List.mem_cons_of_mem _ hc)) htail
      exact ⟨rfl, rfl⟩

/-- A text is read up to the first of a symbol, … -/
theorem takeWhile_ne_append [DecidableEq α] {c : α} {x : List α} (hx : c ∉ x) (y : List α) :
    (x ++ c :: y).takeWhile (· ≠ c) = x := by
  have hpos : ∀ d ∈ x, decide (d ≠ c) = true := fun d hd => by
    simpa using fun heq : d = c => hx (heq ▸ hd)
  rw [List.takeWhile_append_of_pos hpos]
  simp

/-- … and the rest begins with it. -/
theorem dropWhile_ne_append [DecidableEq α] {c : α} {x : List α} (hx : c ∉ x) (y : List α) :
    (x ++ c :: y).dropWhile (· ≠ c) = c :: y := by
  have hpos : ∀ d ∈ x, decide (d ≠ c) = true := fun d hd => by
    simpa using fun heq : d = c => hx (heq ▸ hd)
  rw [List.dropWhile_append_of_pos hpos]
  simp

/-- A symbol is in a text, or there is a first one of it. -/
theorem notMem_or_exists_first [DecidableEq α] (c : α) (t : List α) :
    c ∉ t ∨ ∃ x r, t = x ++ c :: r ∧ c ∉ x := by
  by_cases h : c ∈ t
  · obtain ⟨x, r, ht, hx⟩ := List.eq_append_cons_of_mem h
    exact Or.inr ⟨x, r, ht, hx⟩
  · exact Or.inl h

/-! ### The first place -/

section

variable {β : Type*} (f : List α → Option β)

/-- What is at the first place of a text where there is something. -/
def firstAt (t : List α) : Option β := t.tails.findSome? f

theorem firstAt_cons (c : α) (t : List α) : firstAt f (c :: t) = (f (c :: t)).or (firstAt f t) := by
  rw [firstAt, List.tails_cons, List.findSome?_cons]
  cases f (c :: t) <;> rfl

variable {f}

theorem firstAt_of_some {t : List α} {r : β} (h : f t = some r) : firstAt f t = some r := by
  cases t with
  | nil => simpa [firstAt] using h
  | cons c t => rw [firstAt_cons, h, Option.some_or]

theorem firstAt_eq_none_iff {t : List α} : firstAt f t = none ↔ ∀ u, u <:+ t → f u = none := by
  simp only [firstAt, List.findSome?_eq_none_iff, List.mem_tails]

/-- `u` is what is left of `t` from the first place on where `Q` holds of that. -/
def FirstPlace (Q : List α → Prop) (t u : List α) : Prop :=
  u <:+ t ∧ Q u ∧ ∀ v, v <:+ t → u.length < v.length → ¬ Q v

theorem firstPlace_nil {Q : List α → Prop} {u : List α} : FirstPlace Q [] u ↔ u = [] ∧ Q [] := by
  constructor
  · rintro ⟨hu, hQ, -⟩
    obtain rfl := List.suffix_nil.mp hu
    exact ⟨rfl, hQ⟩
  · rintro ⟨rfl, hQ⟩
    refine ⟨List.suffix_rfl, hQ, fun v hv hlen => ?_⟩
    exact absurd hv.length_le (not_le.mpr hlen)

/-- The first place is the beginning, or the first one behind it. -/
theorem firstPlace_cons {Q : List α → Prop} {c : α} {t u : List α} : FirstPlace Q (c :: t) u ↔
    u = c :: t ∧ Q (c :: t) ∨ ¬ Q (c :: t) ∧ FirstPlace Q t u := by
  constructor
  · rintro ⟨hu, hQ, hfirst⟩
    rcases List.suffix_cons_iff.mp hu with rfl | hu
    · exact Or.inl ⟨rfl, hQ⟩
    · refine Or.inr ⟨hfirst _ List.suffix_rfl (Nat.lt_succ_of_le hu.length_le), hu, hQ, ?_⟩
      exact fun v hv => hfirst v (hv.trans (List.suffix_cons c t))
  · rintro (⟨rfl, hQ⟩ | ⟨hno, hu, hQ, hfirst⟩)
    · refine ⟨List.suffix_rfl, hQ, fun v hv hlen => ?_⟩
      exact absurd hv.length_le (not_le.mpr hlen)
    · refine ⟨hu.trans (List.suffix_cons c t), hQ, fun v hv hlen => ?_⟩
      rcases List.suffix_cons_iff.mp hv with rfl | hv
      · exact hno
      · exact hfirst v hv hlen

theorem firstAt_eq_some_iff {t : List α} {r : β} : firstAt f t = some r ↔
    ∃ u, FirstPlace (fun v => (f v).isSome) t u ∧ f u = some r := by
  induction t with
  | nil =>
    simp only [firstPlace_nil]
    constructor
    · intro h
      have hnil : f [] = some r := by simpa [firstAt] using h
      exact ⟨[], ⟨rfl, by simp [hnil]⟩, hnil⟩
    · rintro ⟨u, ⟨rfl, -⟩, hr⟩
      exact firstAt_of_some hr
  | cons c t ih =>
    rw [firstAt_cons]
    simp only [firstPlace_cons]
    cases hc : f (c :: t) with
    | some r' =>
      constructor
      · intro h
        exact ⟨c :: t, Or.inl ⟨rfl, rfl⟩, hc.trans h⟩
      · rintro ⟨u, ⟨rfl, -⟩ | ⟨hno, -⟩, hr⟩
        · exact hc.symm.trans hr
        · exact absurd rfl hno
    | none => simp [ih]

end

/-! ### Words -/

section

variable (p : α → Bool)

/-- The maximal pieces without separators. -/
def words (s : List α) : List (List α) := (s.splitOnP p).filter fun w => !w.isEmpty

/-- The words with one symbol in between. -/
def collapse (sp : α) (s : List α) : List α := [sp].intercalate (words p s)

@[simp] theorem words_nil : words p [] = [] := rfl

variable {p}

/-- A separator is between two words. -/
theorem words_append_cons {c : α} (hc : p c = true) (s t : List α) :
    words p (s ++ c :: t) = words p s ++ words p t := by
  rw [words, List.splitOnP_append_cons s t hc, List.filter_append]
  rfl

theorem words_cons {c : α} (hc : p c = true) (s : List α) : words p (c :: s) = words p s :=
  words_append_cons hc [] s

/-- Separators around a text do not change its words. -/
theorem words_append {s t : List α} (ht : ∀ c ∈ t, p c = true) : words p (s ++ t) = words p s := by
  cases t with
  | nil => rw [List.append_nil]
  | cons c t =>
    have hnil : ∀ t : List α, (∀ c ∈ t, p c = true) → words p t = [] := by
      intro t
      induction t with
      | nil => exact fun _ => rfl
      | cons c t ih =>
        intro h
        rw [words_cons (h c List.mem_cons_self)]
        exact ih fun d hd => h d (List.mem_cons_of_mem _ hd)
    rw [words_append_cons (ht c List.mem_cons_self),
      hnil t fun d hd => ht d (List.mem_cons_of_mem _ hd), List.append_nil]

theorem ne_nil_of_mem_words {s w : List α} (h : w ∈ words p s) : w ≠ [] := by
  simpa using (List.mem_filter.mp h).2

/-- No other symbols than separators are lost. -/
theorem flatten_words (s : List α) : (words p s).flatten = s.filter fun c => !p c := by
  rw [words, List.flatten_filter_not_isEmpty]
  induction s with
  | nil => rfl
  | cons c s ih =>
    rw [List.splitOnP_cons_eq_if_modifyHead]
    by_cases hc : p c = true
    · rw [if_pos hc, List.flatten_cons, ih]
      simp [hc]
    · obtain ⟨w, ws, hw⟩ := List.exists_cons_of_ne_nil (List.splitOnP_ne_nil p s)
      rw [hw] at ih
      rw [if_neg hc, hw, List.modifyHead_cons, List.flatten_cons, List.cons_append,
        ← List.flatten_cons, ih]
      simp [hc]

/-- A text has words exactly if it has something else than separators. -/
theorem words_eq_nil {s : List α} : words p s = [] ↔ ∀ c ∈ s, p c = true := by
  constructor
  · intro h
    have hflatten := flatten_words (p := p) s
    rw [h, List.flatten_nil] at hflatten
    simpa using List.filter_eq_nil_iff.mp hflatten.symm
  · intro h
    rw [← List.nil_append s, words_append h, words_nil]

/-- The words of a text are those of its lines. -/
theorem words_joinLines {nl : α} (hnl : p nl = true) (ls : List (List α)) :
    words p (joinLines nl ls) = ls.flatMap (words p) := by
  induction ls with
  | nil => rfl
  | cons l ls ih =>
    cases ls with
    | nil => simp
    | cons l' ls =>
      rw [joinLines_cons_cons, words_append_cons hnl, ih]
      rfl

/-- What is counted in a text, separators apart, is counted in its words. -/
theorem countP_collapse {q : α → Bool} {sp : α} (hq : ∀ c, p c = true → q c = false)
    (hsp : p sp = true) (s : List α) : (collapse p sp s).countP q = s.countP q := by
  have hwords := countP_joinLines (hq sp hsp) (words p s)
  rw [joinLines, flatten_words, List.countP_filter] at hwords
  rw [collapse, hwords]
  apply List.countP_congr
  intro c _
  by_cases hc : p c = true
  · simp [hc, hq c hc]
  · simp [hc]

/-- A text is nothing between its words exactly if it has none. -/
theorem collapse_eq_nil {sp : α} {s : List α} : collapse p sp s = [] ↔ words p s = [] := by
  constructor
  · intro h
    cases hw : words p s with
    | nil => rfl
    | cons w ws =>
      have hne := ne_nil_of_mem_words (hw ▸ List.mem_cons_self : w ∈ words p s)
      rw [collapse, hw] at h
      cases ws with
      | nil =>
        rw [List.intercalate_singleton] at h
        exact absurd h hne
      | cons w' ws =>
        rw [List.intercalate_cons_cons] at h
        simp at h
  · intro h
    rw [collapse, h]
    rfl

/-! ### The ends of a text -/

/-- The text without the separators at its ends. -/
def trim (p : α → Bool) (s : List α) : List α := (s.dropWhile p).rdropWhile p

theorem dropWhile_append_of_exists {s t : List α} (h : ∃ c ∈ s, p c = false) :
    (s ++ t).dropWhile p = s.dropWhile p ++ t := by
  obtain ⟨c, hc, hp⟩ := h
  rw [List.dropWhile_append, if_neg]
  rw [List.isEmpty_iff, List.dropWhile_eq_nil_iff]
  intro hall
  exact absurd (hall c hc) (by simp [hp])

theorem rdropWhile_append_of_exists {s t : List α} (h : ∃ c ∈ t, p c = false) :
    (s ++ t).rdropWhile p = s ++ t.rdropWhile p := by
  obtain ⟨c, hc, hp⟩ := h
  rw [List.rdropWhile, List.reverse_append, dropWhile_append_of_exists
    ⟨c, List.mem_reverse.mpr hc, hp⟩, List.reverse_append, List.reverse_reverse]
  rfl

/-- Separators around a text do not change what is between its ends. -/
theorem trim_append {x s y : List α} (hx : ∀ c ∈ x, p c = true) (hs : ∃ c ∈ s, p c = false)
    (hy : ∀ c ∈ y, p c = true) : trim p (x ++ (s ++ y)) = trim p s := by
  have hleft : (x ++ (s ++ y)).dropWhile p = s.dropWhile p ++ y := by
    rw [List.dropWhile_append_of_pos hx, dropWhile_append_of_exists hs]
  rw [trim, hleft, List.rdropWhile, List.reverse_append, List.dropWhile_append_of_pos]
  · rfl
  · intro c hc
    exact hy c (List.mem_reverse.mp hc)

theorem trim_within (s : List α) : trim p s <:+: s :=
  (List.rdropWhile_prefix p _).isInfix.trans (List.dropWhile_suffix p).isInfix

theorem trim_eq_nil {s : List α} (h : ∀ c ∈ s, p c = true) : trim p s = [] := by
  rw [trim, List.dropWhile_eq_nil_iff.mpr h, List.rdropWhile_nil]

/-- There is nothing between the ends of a text exactly if it is all separators. -/
theorem trim_eq_nil_iff {s : List α} : trim p s = [] ↔ ∀ c ∈ s, p c = true := by
  refine ⟨fun h c hc => ?_, trim_eq_nil⟩
  have hrest := List.rdropWhile_eq_nil_iff.mp h
  rw [← List.takeWhile_append_dropWhile (p := p) (l := s)] at hc
  rcases List.mem_append.mp hc with hc | hc
  · exact List.mem_takeWhile_imp hc
  · exact hrest c hc

theorem rdropWhile_cons {c : α} (hc : p c = false) (s : List α) :
    (c :: s).rdropWhile p = c :: s.rdropWhile p := by
  induction s using List.reverseRecOn with
  | nil => rw [List.rdropWhile_nil, List.rdropWhile_singleton, hc, if_neg Bool.false_ne_true]
  | append_singleton s d ih =>
    rw [← List.cons_append, List.rdropWhile_concat, List.rdropWhile_concat, ih]
    split <;> rfl

/-- Between what is no separator and another one, only the end of the text is trimmed. -/
theorem trim_cons_append {c d : α} (hc : p c = false) (hd : p d = false) (s t : List α) :
    trim p (c :: (s ++ d :: t)) = c :: (s ++ d :: t.rdropWhile p) := by
  rw [trim, List.dropWhile_cons_of_neg (by simp [hc]), rdropWhile_cons hc,
    rdropWhile_append_of_exists ⟨d, List.mem_cons_self, hd⟩, rdropWhile_cons hd]

theorem exists_rdropWhile_append (s : List α) :
    ∃ t, s = s.rdropWhile p ++ t ∧ ∀ c ∈ t, p c = true :=
  ⟨s.rtakeWhile p, (List.rdropWhile_append_rtakeWhile).symm,
    fun _ hc => List.mem_rtakeWhile_imp hc⟩

end

/-- Pieces of several parts each, in one. -/
theorem intercalate_flatten (sp : α) {ls : List (List (List α))} (h : ∀ l ∈ ls, l ≠ []) :
    [sp].intercalate (ls.map fun l => [sp].intercalate l) = [sp].intercalate ls.flatten := by
  induction ls with
  | nil => rfl
  | cons l ls ih =>
    have hl := h l List.mem_cons_self
    have hrest := ih fun l' hl' => h l' (List.mem_cons_of_mem _ hl')
    cases ls with
    | nil => simp
    | cons l' ls =>
      have hl' : (l' :: ls).flatten ≠ [] := by
        simp [h l' (List.mem_cons_of_mem _ List.mem_cons_self)]
      rw [List.map_cons, List.flatten_cons]
      show joinLines sp (_ :: List.map _ (l' :: ls)) = joinLines sp (l ++ (l' :: ls).flatten)
      rw [joinLines_cons sp _ (by simp), joinLines_append sp hl hl']
      exact congrArg (fun s => joinLines sp l ++ sp :: s) hrest

end MediaHub

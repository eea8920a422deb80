import Mathlib.Data.List.Basic

/-!
# Backtracking regular expressions

A backtracking matcher tries the alternatives of an expression in order, and its first
success is the match.  Here an expression at a place of a text denotes all its successes, the
preferred ones first, and the match is the head of that list.  A substitution goes through
the text from left to right and replaces the matches that it meets.

What a matcher does in the first part of a text hardly depends on the rest: a success that
ends early enough does not see it.

## Main definitions

* `Regex`, `Regex.run` — expressions, and what they denote at a place of a text.
* `Regex.scan`, `Regex.pending` — what a substitution makes of a part of a text, and how far
  the last match that begins in that part reaches beyond it.
* `Regex.sub`, `Regex.split` — the substitution and the division of a whole text.
* `Regex.search` — whether there is a match in a text.

## Main results

* `Regex.filter_run` — **the successes that end early do not depend on the rest of the text.**
* `Regex.exists_first` — a text has no match, or a first one.
* `Regex.scan_append` — a substitution goes part by part.
* `Regex.scan_congr` — it makes the same of a part that no match leaves, whatever follows.
-/

namespace MediaHub

variable {α : Type*}

/-- A regular expression, with the repetitions of one symbol only. -/
inductive Regex (α : Type*) where
  | empty
  | cls (p : α → Bool)
  | seq (a b : Regex α)
  | alt (a b : Regex α)
  /-- At least `lo` and at most `hi` symbols, and rather more than fewer. -/
  | many (p : α → Bool) (lo : ℕ) (hi : Option ℕ)
  | group (a : Regex α)
  /-- The start of the text. -/
  | start
  /-- The place between a symbol of a word and something else. -/
  | boundary (word : α → Bool)

namespace Regex

/-- A success: how many symbols it takes, and the texts of its groups. -/
structure Match (α : Type*) where
  length : ℕ
  groups : List (List α)
  deriving DecidableEq

/-- One success after another. -/
def Match.append (m k : Match α) : Match α := ⟨m.length + k.length, m.groups ++ k.groups⟩

/-- The success takes at most `N` symbols. -/
def Match.endsBy (N : ℕ) (m : Match α) : Bool := m.length ≤ N

@[simp] theorem Match.endsBy_iff {N : ℕ} {m : Match α} : m.endsBy N = true ↔ m.length ≤ N :=
  decide_eq_true_iff

/-- The symbol before the place behind `s`, where `prev` is before `s`. -/
def endOf : Option α → List α → Option α
  | prev, [] => prev
  | _, c :: s => endOf (some c) s

/-- How many symbols a repetition takes, the most first. -/
def repeats (p : α → Bool) : ℕ → Option ℕ → List α → List ℕ
  | lo, _, [] => if lo = 0 then [0] else []
  | lo, hi, c :: s =>
    (if p c = true ∧ hi ≠ some 0 then (repeats p (lo - 1) (hi.map (· - 1)) s).map (· + 1)
      else []) ++ if lo = 0 then [0] else []

/-- The successes at the head of `s`, where `prev` is before it, the preferred first. -/
def run : Regex α → Option α → List α → List (Match α)
  | empty, _, _ => [⟨0, []⟩]
  | cls _, _, [] => []
  | cls p, _, c :: _ => if p c then [⟨1, []⟩] else []
  | seq a b, prev, s => (a.run prev s).flatMap fun m =>
      (b.run (endOf prev (s.take m.length)) (s.drop m.length)).map m.append
  | alt a b, prev, s => a.run prev s ++ b.run prev s
  | many p lo hi, _, s => (repeats p lo hi s).map fun n => ⟨n, []⟩
  | group a, prev, s => (a.run prev s).map fun m => ⟨m.length, s.take m.length :: m.groups⟩
  | start, prev, _ => if prev.isNone then [⟨0, []⟩] else []
  | boundary word, prev, s => if prev.any word = s.head?.any word then [] else [⟨0, []⟩]

/-- The match at the head of `s`. -/
def first (r : Regex α) (prev : Option α) (s : List α) : Option (Match α) := (r.run prev s).head?

/-- What the substitution makes of `a` where `rest` follows and a match covers the first `k`
symbols.  A match without symbols is passed over; `rep` takes the text of a match and of its
groups to what stands for it. -/
def scan (r : Regex α) (rep : List α → List (List α) → List α) :
    ℕ → Option α → List α → List α → List α
  | _, _, [], _ => []
  | k + 1, _, c :: a, rest => r.scan rep k (some c) a rest
  | 0, prev, c :: a, rest =>
    match r.first prev (c :: a ++ rest) with
    | some ⟨k + 1, groups⟩ =>
      rep ((c :: a ++ rest).take (k + 1)) groups ++ r.scan rep k (some c) a rest
    | _ => c :: r.scan rep 0 (some c) a rest

/-- There is a match at some place of `s`, where `prev` is before it. -/
def searchFrom (r : Regex α) : Option α → List α → Bool
  | prev, [] => (r.first prev []).isSome
  | prev, c :: s => (r.first prev (c :: s)).isSome || r.searchFrom (some c) s

/-- There is a match in a text. -/
def search (r : Regex α) (s : List α) : Bool := r.searchFrom none s

/-- How many symbols of `rest` are covered by a match that begins before them. -/
def pending (r : Regex α) : ℕ → Option α → List α → List α → ℕ
  | k, _, [], _ => k
  | k + 1, _, c :: a, rest => r.pending k (some c) a rest
  | 0, prev, c :: a, rest =>
    match r.first prev (c :: a ++ rest) with
    | some ⟨k + 1, _⟩ => r.pending k (some c) a rest
    | _ => r.pending 0 (some c) a rest

/-- All matches are replaced. -/
def sub (r : Regex α) (rep : List α → List (List α) → List α) (s : List α) : List α :=
  r.scan rep 0 none s []

/-- The texts between the matches, and those of the groups of the matches between them.
`acc` is what has been read since the last match, in reverse. -/
def splitFrom (r : Regex α) : ℕ → Option α → List α → List α → List (List α)
  | _, _, acc, [] => [acc.reverse]
  | k + 1, _, acc, c :: s => r.splitFrom k (some c) acc s
  | 0, prev, acc, c :: s =>
    match r.first prev (c :: s) with
    | some ⟨k + 1, groups⟩ => acc.reverse :: groups ++ r.splitFrom k (some c) [] s
    | _ => r.splitFrom 0 (some c) (c :: acc) s

/-- The text divided at the matches. -/
def split (r : Regex α) (s : List α) : List (List α) := r.splitFrom 0 none [] s

/-! ### The symbols that an expression may take -/

/-- The expression can match without taking a symbol. -/
def nullable : Regex α → Bool
  | cls _ => false
  | seq a b => a.nullable && b.nullable
  | alt a b => a.nullable || b.nullable
  | many _ lo _ => lo = 0
  | group a => a.nullable
  | _ => true

/-- A match can begin with the symbol. -/
def canStart : Regex α → α → Bool
  | cls p, c => p c
  | seq a b, c => a.canStart c || (a.nullable && b.canStart c)
  | alt a b, c => a.canStart c || b.canStart c
  | many p _ _, c => p c
  | group a, c => a.canStart c
  | _, _ => false

/-- A match can end with the symbol. -/
def canEnd : Regex α → α → Bool
  | cls p, c => p c
  | seq a b, c => b.canEnd c || (b.nullable && a.canEnd c)
  | alt a b, c => a.canEnd c || b.canEnd c
  | many p _ _, c => p c
  | group a, c => a.canEnd c
  | _, _ => false

/-- A match can take the symbol. -/
def takes : Regex α → α → Bool
  | cls p, c => p c
  | seq a b, c => a.takes c || b.takes c
  | alt a b, c => a.takes c || b.takes c
  | many p _ _, c => p c
  | group a, c => a.takes c
  | _, _ => false

/-- How far beyond a success the expression has to see. -/
def ahead : Regex α → ℕ
  | seq a b => max a.ahead b.ahead
  | alt a b => max a.ahead b.ahead
  | group a => a.ahead
  | boundary _ => 1
  | _ => 0

/-- The expression does not look at what is before it or behind it. -/
def floating : Regex α → Bool
  | seq a b => a.floating && b.floating
  | alt a b => a.floating && b.floating
  | group a => a.floating
  | start => false
  | boundary _ => false
  | _ => true

/-- The expression has no groups. -/
def ungrouped : Regex α → Bool
  | seq a b => a.ungrouped && b.ungrouped
  | alt a b => a.ungrouped && b.ungrouped
  | group _ => false
  | _ => true

/-! ### What is in the list of successes -/

@[simp] theorem endOf_nil (prev : Option α) : endOf prev [] = prev := rfl

theorem mem_repeats {p : α → Bool} {lo n : ℕ} {hi : Option ℕ} {s : List α}
    (h : n ∈ repeats p lo hi s) : lo ≤ n ∧ n ≤ s.length ∧ ∀ c ∈ s.take n, p c = true := by
  induction s generalizing lo hi n with
  | nil =>
    unfold repeats at h
    split at h
    · next hlo => simp_all
    · cases h
  | cons c s ih =>
    rw [repeats, List.mem_append] at h
    rcases h with h | h
    · split at h
      · next hp =>
        obtain ⟨m, hm, rfl⟩ := List.mem_map.mp h
        obtain ⟨hlo, hle, hall⟩ := ih hm
        refine ⟨by omega, by simpa using hle, ?_⟩
        simpa using ⟨hp.1, hall⟩
      · cases h
    · split at h
      · next hlo => simp_all
      · cases h

/-- A success of a sequence is one of each part. -/
theorem mem_run_seq {a b : Regex α} {prev : Option α} {s : List α} {m : Match α} :
    m ∈ (seq a b).run prev s ↔ ∃ k ∈ a.run prev s,
      ∃ l ∈ b.run (endOf prev (s.take k.length)) (s.drop k.length), k.append l = m := by
  simp only [run, List.mem_flatMap, List.mem_map]

theorem mem_run_alt {a b : Regex α} {prev : Option α} {s : List α} {m : Match α} :
    m ∈ (alt a b).run prev s ↔ m ∈ a.run prev s ∨ m ∈ b.run prev s := by
  rw [run, List.mem_append]

/-- A success takes symbols of the text, all of which the expression may take. -/
theorem length_le_of_mem_run {r : Regex α} {prev : Option α} {s : List α} {m : Match α}
    (h : m ∈ r.run prev s) : m.length ≤ s.length ∧ ∀ c ∈ s.take m.length, r.takes c = true := by
  induction r generalizing prev s m with
  | empty => cases List.mem_singleton.mp h; simp
  | cls p =>
    cases s with
    | nil => cases h
    | cons c s =>
      rw [run] at h
      split at h
      · next hp => cases List.mem_singleton.mp h; simpa [takes] using hp
      · cases h
  | seq a b iha ihb =>
    obtain ⟨k, hk, l, hl, rfl⟩ := mem_run_seq.mp h
    obtain ⟨hka, hta⟩ := iha hk
    obtain ⟨hlb, htb⟩ := ihb hl
    rw [List.length_drop] at hlb
    refine ⟨by simp only [Match.append]; omega, ?_⟩
    intro c hc
    rw [Match.append, List.take_add, List.mem_append] at hc
    rcases hc with hc | hc
    · simp [takes, hta c hc]
    · simp [takes, htb c hc]
  | alt a b iha ihb =>
    rcases List.mem_append.mp h with h | h
    · exact ⟨(iha h).1, fun c hc => by simp [takes, (iha h).2 c hc]⟩
    · exact ⟨(ihb h).1, fun c hc => by simp [takes, (ihb h).2 c hc]⟩
  | many p lo hi =>
    obtain ⟨n, hn, rfl⟩ := List.mem_map.mp h
    exact (mem_repeats hn).2
  | group a ih =>
    obtain ⟨k, hk, rfl⟩ := List.mem_map.mp h
    exact ih (m := k) hk
  | start | boundary =>
    rw [run] at h
    split at h <;> simp_all

theorem groups_of_mem_run {r : Regex α} (hr : r.ungrouped = true) {prev : Option α} {s : List α}
    {m : Match α} (h : m ∈ r.run prev s) : m.groups = [] := by
  induction r generalizing prev s m with
  | empty => cases List.mem_singleton.mp h; rfl
  | cls p =>
    cases s with
    | nil => cases h
    | cons c s =>
      rw [run] at h
      split at h
      · cases List.mem_singleton.mp h; rfl
      · cases h
  | seq a b iha ihb =>
    simp only [ungrouped, Bool.and_eq_true] at hr
    obtain ⟨k, hk, l, hl, rfl⟩ := mem_run_seq.mp h
    rw [Match.append, iha hr.1 hk, ihb hr.2 hl]
    rfl
  | alt a b iha ihb =>
    simp only [ungrouped, Bool.and_eq_true] at hr
    rcases List.mem_append.mp h with h | h
    · exact iha hr.1 h
    · exact ihb hr.2 h
  | many p lo hi =>
    obtain ⟨n, -, rfl⟩ := List.mem_map.mp h
    rfl
  | group a _ => cases hr
  | start | boundary =>
    rw [run] at h
    split at h <;> simp_all

/-- A success takes a symbol with which one can begin, or none. -/
theorem canStart_of_mem_run {r : Regex α} {prev : Option α} {c : α} {s : List α} {m : Match α}
    (h : m ∈ r.run prev (c :: s)) : (m.length = 0 ∧ r.nullable = true) ∨ r.canStart c = true := by
  induction r generalizing prev m with
  | empty => exact Or.inl ⟨by cases List.mem_singleton.mp h; rfl, rfl⟩
  | cls p =>
    rw [run] at h
    split at h
    · next hp => exact Or.inr hp
    · cases h
  | seq a b iha ihb =>
    obtain ⟨k, hk, l, hl, rfl⟩ := mem_run_seq.mp h
    rcases iha hk with ⟨hk0, hna⟩ | hsa
    · -- the first part took nothing, so the second begins with the symbol too
      rw [hk0, List.drop_zero] at hl
      rcases ihb hl with ⟨hl0, hnb⟩ | hsb
      · exact Or.inl ⟨by simp [Match.append, hk0, hl0], by simp [nullable, hna, hnb]⟩
      · exact Or.inr (by simp [canStart, hna, hsb])
    · exact Or.inr (by simp [canStart, hsa])
  | alt a b iha ihb =>
    rcases List.mem_append.mp h with h | h
    · rcases iha h with ⟨h0, hn⟩ | hs
      · exact Or.inl ⟨h0, by simp [nullable, hn]⟩
      · exact Or.inr (by simp [canStart, hs])
    · rcases ihb h with ⟨h0, hn⟩ | hs
      · exact Or.inl ⟨h0, by simp [nullable, hn]⟩
      · exact Or.inr (by simp [canStart, hs])
  | many p lo hi =>
    obtain ⟨n, hn, rfl⟩ := List.mem_map.mp h
    obtain ⟨hlo, -, hall⟩ := mem_repeats hn
    cases n with
    | zero => exact Or.inl ⟨rfl, by simpa [nullable] using hlo⟩
    | succ n => exact Or.inr (hall c (by simp))
  | group a ih =>
    obtain ⟨k, hk, rfl⟩ := List.mem_map.mp h
    exact ih (m := k) hk
  | start | boundary =>
    rw [run] at h
    split at h <;> simp_all [nullable]

/-- An expression that takes a symbol does not match where it cannot begin. -/
theorem run_eq_nil {r : Regex α} {prev : Option α} {c : α} {s : List α}
    (hn : r.nullable = false) (hc : r.canStart c = false) : r.run prev (c :: s) = [] := by
  rw [List.eq_nil_iff_forall_not_mem]
  intro m hm
  rcases canStart_of_mem_run hm with ⟨-, h⟩ | h
  · rw [hn] at h
    cases h
  · rw [hc] at h
    cases h

theorem nullable_of_mem_run {r : Regex α} {prev : Option α} {s : List α} {m : Match α}
    (h : m ∈ r.run prev s) (h0 : m.length = 0) : r.nullable = true := by
  induction r generalizing prev s m with
  | empty => rfl
  | cls p =>
    cases s with
    | nil => cases h
    | cons c s =>
      rw [run] at h
      split at h
      · cases List.mem_singleton.mp h
        cases h0
      · cases h
  | seq a b iha ihb =>
    obtain ⟨k, hk, l, hl, rfl⟩ := mem_run_seq.mp h
    obtain ⟨hk0, hl0⟩ := Nat.add_eq_zero_iff.mp h0
    simp [nullable, iha hk hk0, ihb hl hl0]
  | alt a b iha ihb =>
    rcases List.mem_append.mp h with h | h
    · simp [nullable, iha h h0]
    · simp [nullable, ihb h h0]
  | many p lo hi =>
    obtain ⟨n, hn, rfl⟩ := List.mem_map.mp h
    have hlo := (mem_repeats hn).1
    have hn : n = 0 := h0
    rw [hn, Nat.le_zero] at hlo
    simp [nullable, hlo]
  | group a ih =>
    obtain ⟨k, hk, rfl⟩ := List.mem_map.mp h
    exact ih (m := k) hk h0
  | start | boundary => rfl

/-- A success takes a symbol with which one can end, or none. -/
theorem canEnd_of_mem_run {r : Regex α} {prev : Option α} {s : List α} {m : Match α}
    (h : m ∈ r.run prev s) : ∀ c ∈ (s.take m.length).getLast?, r.canEnd c = true := by
  induction r generalizing prev s m with
  | empty =>
    cases List.mem_singleton.mp h
    simp
  | cls p =>
    cases s with
    | nil => cases h
    | cons c s =>
      rw [run] at h
      split at h
      · next hp =>
        cases List.mem_singleton.mp h
        simpa [canEnd] using hp
      · cases h
  | seq a b iha ihb =>
    obtain ⟨k, hk, l, hl, rfl⟩ := mem_run_seq.mp h
    intro c hc
    rw [Match.append, List.take_add] at hc
    by_cases hnil : (s.drop k.length).take l.length = []
    · -- the second part took nothing, so the first one ends with the symbol
      have hl0 : l.length = 0 := by
        have hle := (length_le_of_mem_run hl).1
        have hlen := congrArg List.length hnil
        rw [List.length_take, Nat.min_eq_left hle] at hlen
        exact hlen
      rw [hnil, List.append_nil] at hc
      simp [canEnd, nullable_of_mem_run hl hl0, iha hk c hc]
    · -- the last symbol is one of the second part
      rw [List.getLast?_append_of_ne_nil _ hnil] at hc
      simp [canEnd, ihb hl c hc]
  | alt a b iha ihb =>
    intro c hc
    rcases List.mem_append.mp h with h | h
    · simp [canEnd, iha h c hc]
    · simp [canEnd, ihb h c hc]
  | many p lo hi =>
    obtain ⟨n, hn, rfl⟩ := List.mem_map.mp h
    exact fun c hc => (mem_repeats hn).2.2 c (List.mem_of_getLast? hc)
  | group a ih =>
    obtain ⟨k, hk, rfl⟩ := List.mem_map.mp h
    exact ih (m := k) hk
  | start | boundary =>
    rw [run] at h
    split at h <;> simp_all

/-! ### The rest of the text -/

/-- The members with an empty image do not count. -/
theorem flatMap_eq_of_filter {β γ : Type*} (q : β → Bool) {f : β → List γ} {l : List β}
    (h : ∀ m ∈ l, q m = false → f m = []) : l.flatMap f = (l.filter q).flatMap f := by
  induction l with
  | nil => rfl
  | cons m l ih =>
    have hl := ih fun k hk => h k (List.mem_cons_of_mem _ hk)
    rw [List.flatMap_cons, hl]
    cases hq : q m with
    | false =>
      rw [h m List.mem_cons_self hq, List.filter_cons_of_neg (by simp [hq]), List.nil_append]
    | true => rw [List.filter_cons_of_pos hq, List.flatMap_cons]

theorem filter_repeats {p : α → Bool} {N : ℕ} {x : List α} (h : N ≤ x.length) (lo : ℕ)
    (hi : Option ℕ) (w w' : List α) :
    (repeats p lo hi (x ++ w)).filter (· ≤ N) = (repeats p lo hi (x ++ w')).filter (· ≤ N) := by
  -- no success of the head's repetition is counted where `N` is zero
  have hzero : ∀ (k : ℕ) (l : List ℕ), (l.map (· + (k + 1))).filter (· ≤ k) = [] := by
    intro k l
    simp only [List.filter_eq_nil_iff, List.mem_map, decide_eq_true_eq]
    rintro n ⟨j, -, rfl⟩
    omega
  induction x generalizing N lo hi with
  | nil =>
    have hN : N = 0 := by simpa using h
    subst hN
    have hend : ∀ w : List α, (repeats p lo hi w).filter (· ≤ 0) = if lo = 0 then [0] else [] := by
      intro w
      cases w with
      | nil => unfold repeats; split <;> rfl
      | cons c w =>
        rw [repeats, List.filter_append]
        split
        · rw [hzero 0]
          split <;> rfl
        · split <;> rfl
    rw [List.nil_append, List.nil_append, hend w, hend w']
  | cons c x ih =>
    simp only [List.cons_append, repeats, List.filter_append]
    congr 1
    split
    · cases N with
      | zero => rw [hzero, hzero]
      | succ N =>
        have hshift : ((· ≤ N + 1 : ℕ → Bool) ∘ fun n => n + 1) = (· ≤ N) := by
          funext n
          simp
        rw [List.filter_map, List.filter_map, hshift, ih (by simpa using h)]
    · rfl

/-- **The successes that end early do not depend on the rest of the text.** -/
theorem filter_run (r : Regex α) {N : ℕ} {x : List α} (h : N + r.ahead ≤ x.length)
    (prev : Option α) (w w' : List α) :
    (r.run prev (x ++ w)).filter (Match.endsBy N)
      = (r.run prev (x ++ w')).filter (Match.endsBy N) := by
  induction r generalizing N x prev with
  | empty => rfl
  | cls p =>
    cases x with
    | nil =>
      have hN : N = 0 := by simpa [ahead] using h
      subst hN
      have hnil : ∀ w : List α, ((cls p).run prev w).filter (Match.endsBy 0) = [] := by
        intro w
        cases w with
        | nil => rfl
        | cons c w =>
          rw [run]
          split <;> rfl
      rw [List.nil_append, List.nil_append, hnil w, hnil w']
    | cons c x => rfl
  | seq a b iha ihb =>
    have ha : N + a.ahead ≤ x.length := by simp only [ahead] at h; omega
    -- only the early successes of `a` have an early continuation
    have hsplit : ∀ w : List α, ((seq a b).run prev (x ++ w)).filter (Match.endsBy N) =
        ((a.run prev (x ++ w)).filter (Match.endsBy N)).flatMap fun m =>
          ((b.run (endOf prev (x.take m.length)) (x.drop m.length ++ w)).filter
            (Match.endsBy (N - m.length))).map m.append := by
      intro w
      rw [run, List.filter_flatMap, flatMap_eq_of_filter (Match.endsBy N)]
      · refine List.flatMap_congr ?_
        intro m hm
        have hmN : m.length ≤ N := Match.endsBy_iff.mp (List.mem_filter.mp hm).2
        have hx : m.length ≤ x.length := by omega
        have hends : Match.endsBy N ∘ m.append = Match.endsBy (N - m.length) := by
          funext k
          show decide (m.length + k.length ≤ N) = decide (k.length ≤ N - m.length)
          rw [decide_eq_decide]
          omega
        rw [List.filter_map, hends, List.take_append_of_le_length hx,
          List.drop_append_of_le_length hx]
      · intro m _ hm
        rw [List.filter_map, List.map_eq_nil_iff, List.filter_eq_nil_iff]
        intro k _ hk
        simp only [Function.comp_apply, Match.endsBy_iff, Match.append] at hk
        simp only [Match.endsBy, decide_eq_false_iff_not] at hm
        omega
    rw [hsplit w, hsplit w', iha ha]
    refine List.flatMap_congr ?_
    intro m hm
    have hmN : m.length ≤ N := Match.endsBy_iff.mp (List.mem_filter.mp hm).2
    rw [ihb (by simp only [ahead, List.length_drop] at h ⊢; omega)]
  | alt a b iha ihb =>
    simp only [ahead] at h
    simp only [run, List.filter_append]
    rw [iha (by omega), ihb (by omega)]
  | many p lo hi =>
    have hends : (Match.endsBy N ∘ fun n => (⟨n, []⟩ : Match α)) = (fun n => decide (n ≤ N)) := rfl
    rw [run, run, List.filter_map, List.filter_map, hends,
      filter_repeats (by simpa [ahead] using h)]
  | group a ih =>
    have hsplit : ∀ w : List α, ((group a).run prev (x ++ w)).filter (Match.endsBy N) =
        ((a.run prev (x ++ w)).filter (Match.endsBy N)).map fun m =>
          ⟨m.length, x.take m.length :: m.groups⟩ := by
      intro w
      have hends : (Match.endsBy N ∘ fun m : Match α =>
          (⟨m.length, (x ++ w).take m.length :: m.groups⟩ : Match α)) = Match.endsBy N := rfl
      rw [run, List.filter_map, hends]
      refine List.map_congr_left ?_
      intro m hm
      have hmN : m.length ≤ N := Match.endsBy_iff.mp (List.mem_filter.mp hm).2
      simp only [ahead] at h
      rw [List.take_append_of_le_length (by omega)]
    rw [hsplit w, hsplit w', ih h]
  | start => rfl
  | boundary word =>
    cases x with
    | nil => simp [ahead] at h
    | cons c x => rfl

/-- What is cut off the text only takes the late successes away. -/
theorem run_eq_filter {r : Regex α} (hr : r.ahead = 0) (prev : Option α) (x w : List α) :
    r.run prev x = (r.run prev (x ++ w)).filter (Match.endsBy x.length) := by
  have h := filter_run r (N := x.length) (x := x) (by omega) prev [] w
  rw [List.append_nil] at h
  rw [← h, List.filter_eq_self.mpr]
  intro m hm
  simpa using (length_le_of_mem_run hm).1

/-- A success in a text is one in every longer text. -/
theorem mem_run_append {r : Regex α} (hr : r.ahead = 0) {prev : Option α} {x : List α}
    {m : Match α} (h : m ∈ r.run prev x) (w : List α) : m ∈ r.run prev (x ++ w) := by
  rw [run_eq_filter hr prev x w] at h
  exact (List.mem_filter.mp h).1

/-- Two matches that both end early enough are the same one. -/
theorem first_congr {r : Regex α} {N : ℕ} {x : List α} {prev : Option α} {w w' : List α}
    (h : N + r.ahead ≤ x.length) (hw : ∀ m ∈ r.first prev (x ++ w), m.length ≤ N)
    (hw' : ∀ m ∈ r.first prev (x ++ w'), m.length ≤ N) :
    r.first prev (x ++ w) = r.first prev (x ++ w') := by
  have hhead : ∀ w, (∀ m ∈ r.first prev (x ++ w), m.length ≤ N) →
      r.first prev (x ++ w) = ((r.run prev (x ++ w)).filter (Match.endsBy N)).head? := by
    intro w hw
    unfold first at hw ⊢
    cases hl : r.run prev (x ++ w) with
    | nil => rfl
    | cons m l =>
      rw [hl] at hw
      rw [List.filter_cons_of_pos (by simpa using hw m rfl)]
      rfl
  rw [hhead w hw, hhead w' hw', filter_run r h prev w w']

/-! ### Which success is the first -/

/-- In a sequence, where the successes of the first part before `m` lead nowhere. -/
theorem first_seq {a b : Regex α} {prev : Option α} {s : List α} {m k : Match α}
    {ms ms' : List (Match α)} (ha : a.run prev s = ms ++ m :: ms')
    (hms : ∀ l ∈ ms, b.run (endOf prev (s.take l.length)) (s.drop l.length) = [])
    (hb : b.first (endOf prev (s.take m.length)) (s.drop m.length) = some k) :
    (seq a b).first prev s = some (m.append k) := by
  have hnil : ms.flatMap (fun l => (b.run (endOf prev (s.take l.length))
      (s.drop l.length)).map l.append) = [] := by
    rw [List.flatMap_eq_nil_iff]
    intro l hl
    rw [hms l hl, List.map_nil]
  obtain ⟨ks, hks⟩ := List.head?_eq_some_iff.mp hb
  rw [first, run, ha, List.flatMap_append, hnil, List.nil_append, List.flatMap_cons, hks,
    List.map_cons]
  rfl

/-- In a sequence, where the first success of the first part leads on. -/
theorem first_seq_of_first {a b : Regex α} {prev : Option α} {s : List α} {m k : Match α}
    (ha : a.first prev s = some m)
    (hb : b.first (endOf prev (s.take m.length)) (s.drop m.length) = some k) :
    (seq a b).first prev s = some (m.append k) := by
  obtain ⟨ms, hms⟩ := List.head?_eq_some_iff.mp ha
  have hms : a.run prev s = [] ++ m :: ms := hms
  exact first_seq hms (by simp) hb

/-- The same for parts of a text. -/
theorem first_seq_append {a b : Regex α} {prev : Option α} {y z t : List α}
    {groups groups' : List (List α)}
    (ha : a.first prev (y ++ (z ++ t)) = some ⟨y.length, groups⟩)
    (hb : ∀ prev, b.first prev (z ++ t) = some ⟨z.length, groups'⟩) :
    (seq a b).first prev (y ++ z ++ t) = some ⟨(y ++ z).length, groups ++ groups'⟩ := by
  rw [List.append_assoc, List.length_append]
  refine first_seq_of_first (m := ⟨y.length, groups⟩) (k := ⟨z.length, groups'⟩) ha ?_
  rw [List.drop_left]
  exact hb _

/-- In a sequence, where only `m` leads on. -/
theorem first_seq_of_only {a b : Regex α} {prev : Option α} {s : List α} {m k : Match α}
    (ha : m ∈ a.run prev s)
    (honly : ∀ l ∈ a.run prev s, l ≠ m →
      b.run (endOf prev (s.take l.length)) (s.drop l.length) = [])
    (hb : b.first (endOf prev (s.take m.length)) (s.drop m.length) = some k) :
    (seq a b).first prev s = some (m.append k) := by
  obtain ⟨ms, ms', hms, hm⟩ := List.eq_append_cons_of_mem ha
  refine first_seq hms ?_ hb
  intro l hl
  refine honly l ?_ ?_
  · rw [hms]
    exact List.mem_append_left _ hl
  · rintro rfl
    exact hm hl

/-- Where there is one success only, perhaps several times. -/
theorem first_eq_of_forall {r : Regex α} {prev : Option α} {s : List α} {m : Match α}
    (hm : m ∈ r.run prev s) (hall : ∀ l ∈ r.run prev s, l = m) : r.first prev s = some m := by
  obtain ⟨k, ks, hk⟩ := List.exists_cons_of_ne_nil (List.ne_nil_of_mem hm)
  rw [first, hk, List.head?_cons, hall k (by rw [hk]; exact List.mem_cons_self)]

theorem first_alt {a b : Regex α} {prev : Option α} {s : List α} :
    (alt a b).first prev s = (a.first prev s).or (b.first prev s) := by
  rw [first, run, List.head?_append]
  rfl

theorem first_group {a : Regex α} {prev : Option α} {s : List α} {m : Match α}
    (h : a.first prev s = some m) :
    (group a).first prev s = some ⟨m.length, s.take m.length :: m.groups⟩ := by
  obtain ⟨ms, hms⟩ := List.head?_eq_some_iff.mp h
  rw [first, run, hms]
  rfl

theorem first_cls {p : α → Bool} {prev : Option α} {c : α} {s : List α} (h : p c = true) :
    (cls p).first prev (c :: s) = some ⟨1, []⟩ := by
  rw [first, run, if_pos h]
  rfl

/-- A repetition takes all symbols that it can take. -/
theorem first_many {p : α → Bool} {prev : Option α} {lo : ℕ} {y s : List α}
    (hy : ∀ c ∈ y, p c = true) (hs : ∀ c ∈ s.head?, p c = false) (hlo : lo ≤ y.length) :
    (many p lo none).first prev (y ++ s) = some ⟨y.length, []⟩ := by
  have hrep : (repeats p lo none (y ++ s)).head? = some y.length := by
    induction y generalizing lo with
    | nil =>
      have hlo : lo = 0 := by simpa using hlo
      cases s with
      | nil => simp [repeats, hlo]
      | cons c s => simp [repeats, hlo, hs c rfl]
    | cons c y ih =>
      have hih : (repeats p (lo - 1) none (y ++ s)).head? = some y.length := by
        refine ih (fun d hd => hy d (List.mem_cons_of_mem _ hd)) ?_
        rw [List.length_cons] at hlo
        omega
      rw [List.cons_append, repeats, if_pos ⟨hy c List.mem_cons_self, by simp⟩,
        List.head?_append, List.head?_map, Option.map_none, hih]
      rfl
  rw [first, run, List.head?_map, hrep]
  rfl

/-- An optional symbol is taken where it can be. -/
theorem first_optional {p : α → Bool} {prev : Option α} {y s : List α} (hlen : y.length ≤ 1)
    (hy : ∀ c ∈ y, p c = true) (hs : y = [] → ∀ c ∈ s.head?, p c = false) :
    (many p 0 (some 1)).first prev (y ++ s) = some ⟨y.length, []⟩ := by
  match y with
  | [] =>
    cases s with
    | nil => rfl
    | cons c s => simp [first, run, repeats, hs rfl c rfl]
  | [c] =>
    have hstop : (repeats p 0 (some 0) s) = [0] := by cases s <;> simp [repeats]
    simp [first, run, repeats, hy c List.mem_cons_self, hstop]

/-! ### What is before the text -/

/-- An expression that does not look around matches the same wherever it is. -/
theorem run_prev {r : Regex α} (hr : r.floating = true) (prev prev' : Option α) (s : List α) :
    r.run prev s = r.run prev' s := by
  induction r generalizing prev prev' s with
  | cls p => cases s <;> rfl
  | seq a b iha ihb =>
    simp only [floating, Bool.and_eq_true] at hr
    rw [run, run, iha hr.1 prev prev']
    refine List.flatMap_congr ?_
    intro m _
    rw [ihb hr.2]
  | alt a b iha ihb =>
    simp only [floating, Bool.and_eq_true] at hr
    rw [run, run, iha hr.1 prev prev', ihb hr.2 prev prev']
  | group a ih => rw [run, run, ih hr prev prev']
  | start | boundary => cases hr
  | empty | many => rfl

/-! ### Substitution part by part -/

variable {r : Regex α} {rep : List α → List (List α) → List α}

/-- **A substitution goes part by part.** -/
theorem scan_append (k : ℕ) (prev : Option α) (a b rest : List α) :
    r.scan rep k prev (a ++ b) rest = r.scan rep k prev a (b ++ rest) ++
      r.scan rep (r.pending k prev a (b ++ rest)) (endOf prev a) b rest := by
  induction a generalizing k prev with
  | nil => simp [scan, pending]
  | cons c a ih =>
    cases k with
    | succ k => exact ih k (some c)
    | zero =>
      rw [List.cons_append, scan, scan, pending, endOf, ← List.cons_append, List.append_assoc]
      split
      · next k groups _ => rw [ih k (some c), List.append_assoc]
      · rw [ih 0 (some c), List.cons_append]

/-- A match that begins in `a` is pending unless it ends there. -/
theorem le_pending (k : ℕ) (prev : Option α) (a rest : List α) :
    k ≤ a.length + r.pending k prev a rest := by
  induction a generalizing k prev with
  | nil => simp [pending]
  | cons c a ih =>
    cases k with
    | zero => exact Nat.zero_le _
    | succ k =>
      have h := ih k (some c)
      rw [pending, List.length_cons]
      omega

/-- Where no match that begins in `a` leaves it, none is pending. -/
theorem pending_eq_zero {a rest : List α}
    (h : ∀ p s, a = p ++ s → ∀ prev, ∀ m ∈ r.run prev (s ++ rest), m.length ≤ s.length) {k : ℕ}
    (hk : k ≤ a.length) (prev : Option α) : r.pending k prev a rest = 0 := by
  induction a generalizing k prev with
  | nil => simpa [pending] using hk
  | cons c a ih =>
    have hnext : ∀ {k : ℕ}, k ≤ a.length → ∀ prev, r.pending k prev a rest = 0 := by
      refine ih fun p s has => h (c :: p) s ?_
      rw [has, List.cons_append]
    cases k with
    | succ k => exact hnext (Nat.le_of_succ_le_succ hk) (some c)
    | zero =>
      rw [pending]
      split
      · next k _ hm =>
        have hle := h [] (c :: a) rfl prev _ (List.mem_of_head? hm)
        exact hnext (Nat.le_of_succ_le_succ hle) (some c)
      · exact hnext (Nat.zero_le _) (some c)

/-- Nothing is made of what is covered already. -/
theorem scan_covered (prev : Option α) (y rest : List α) :
    r.scan rep y.length prev y rest = [] := by
  induction y generalizing prev with
  | nil => rfl
  | cons c y ih => exact ih (some c)

theorem pending_covered (prev : Option α) (y rest : List α) :
    r.pending y.length prev y rest = 0 := by
  induction y generalizing prev with
  | nil => rfl
  | cons c y ih => exact ih (some c)

theorem first_eq_none (hn : r.nullable = false) {c : α} (hc : r.canStart c = false)
    (prev : Option α) (s : List α) : r.first prev (c :: s) = none := by
  rw [first, run_eq_nil hn hc]
  rfl

/-- Symbols with which no match begins are kept. -/
theorem scan_of_canStart (hn : r.nullable = false) {y : List α}
    (hy : ∀ c ∈ y, r.canStart c = false) (prev : Option α) (rest : List α) :
    r.scan rep 0 prev y rest = y := by
  induction y generalizing prev with
  | nil => rfl
  | cons c y ih =>
    rw [scan, List.cons_append, first_eq_none hn (hy c List.mem_cons_self)]
    show c :: r.scan rep 0 (some c) y rest = c :: y
    rw [ih fun d hd => hy d (List.mem_cons_of_mem _ hd)]

theorem pending_of_canStart (hn : r.nullable = false) {y : List α}
    (hy : ∀ c ∈ y, r.canStart c = false) (prev : Option α) (rest : List α) :
    r.pending 0 prev y rest = 0 := by
  induction y generalizing prev with
  | nil => rfl
  | cons c y ih =>
    rw [pending, List.cons_append, first_eq_none hn (hy c List.mem_cons_self)]
    exact ih (fun d hd => hy d (List.mem_cons_of_mem _ hd)) (some c)

/-- Where the text begins with a match, that is replaced. -/
theorem scan_of_first {y s : List α} {groups : List (List α)} {prev : Option α} (hy : y ≠ [])
    (h : r.first prev (y ++ s) = some ⟨y.length, groups⟩) :
    r.scan rep 0 prev (y ++ s) [] = rep y groups ++ r.scan rep 0 (endOf prev y) s [] := by
  obtain ⟨c, y, rfl⟩ := List.exists_cons_of_ne_nil hy
  have htake : (c :: y ++ s).take (y.length + 1) = c :: y := List.take_left' rfl
  rw [List.cons_append] at h
  rw [List.cons_append, scan, List.append_nil, h]
  show rep _ groups ++ r.scan rep y.length (some c) (y ++ s) [] = _
  rw [scan_append, scan_covered, pending_covered, List.nil_append, ← List.cons_append, htake]
  rfl

/-- Where no match begins with the next symbol, what is before it does not matter. -/
theorem scan_head (hn : r.nullable = false) {a : List α}
    (ha : ∀ c ∈ a.head?, r.canStart c = false) (prev prev' : Option α) (rest : List α) :
    r.scan rep 0 prev a rest = r.scan rep 0 prev' a rest := by
  cases a with
  | nil => rfl
  | cons c a =>
    rw [scan, scan, List.cons_append, first_eq_none hn (ha c rfl), first_eq_none hn (ha c rfl)]

/-- Where no match leaves `a`, each match that begins there is a match whatever follows. -/
theorem first_of_pending {c : α} {prev : Option α} {a rest : List α}
    (h : r.pending 0 prev (c :: a) rest = 0) :
    (∀ m ∈ r.first prev (c :: a ++ rest), m.length ≤ (c :: a).length) := by
  intro m hm
  rw [Option.mem_def] at hm
  rw [pending, hm] at h
  obtain ⟨_ | k, groups⟩ := m
  · exact Nat.zero_le _
  · have := le_pending (r := r) k (some c) a rest
    rw [show r.pending k (some c) a rest = 0 from h] at this
    simpa using this

/-- **A substitution makes the same of a part that no match leaves, whatever follows.** -/
theorem scan_congr {k : ℕ} {prev : Option α} {a g t t' : List α} (hg : r.ahead ≤ g.length)
    (h : r.pending k prev a (g ++ t) = 0) (h' : r.pending k prev a (g ++ t') = 0) :
    r.scan rep k prev a (g ++ t) = r.scan rep k prev a (g ++ t') := by
  induction a generalizing k prev with
  | nil => rfl
  | cons c a ih =>
    cases k with
    | succ k => exact ih h h'
    | zero =>
      -- both matches end in `a`, and `g` is all that they see beyond it
      have hfirst : r.first prev (c :: a ++ (g ++ t)) = r.first prev (c :: a ++ (g ++ t')) := by
        rw [← List.append_assoc, ← List.append_assoc]
        refine first_congr (N := (c :: a).length) ?_ ?_ ?_
        · rw [List.length_append]
          omega
        · rw [List.append_assoc]
          exact first_of_pending h
        · rw [List.append_assoc]
          exact first_of_pending h'
      have hends := first_of_pending h
      rw [pending, hfirst] at h
      rw [pending] at h'
      rw [scan, scan, hfirst]
      rw [hfirst] at hends
      cases hm : r.first prev (c :: a ++ (g ++ t')) with
      | none =>
        rw [hm] at h h'
        show c :: _ = c :: _
        rw [ih h h']
      | some m =>
        rw [hm] at h h'
        obtain ⟨_ | n, groups⟩ := m
        · show c :: _ = c :: _
          rw [ih h h']
        · have hn : n + 1 ≤ (c :: a).length := hends _ hm
          show rep _ groups ++ _ = rep _ groups ++ _
          rw [ih h h', List.take_append_of_le_length hn, List.take_append_of_le_length hn]

/-! ### Where there is a match -/

/-- Without a match, a text stays as it is. -/
theorem scan_of_searchFrom {prev : Option α} {s : List α} (h : r.searchFrom prev s = false) :
    r.scan rep 0 prev s [] = s := by
  induction s generalizing prev with
  | nil => rfl
  | cons c s ih =>
    rw [searchFrom, Bool.or_eq_false_iff, Option.isSome_eq_false_iff,
      Option.isNone_iff_eq_none] at h
    rw [scan, List.append_nil, h.1]
    show c :: _ = _
    rw [ih h.2]

theorem sub_of_search {s : List α} (h : r.search s = false) : r.sub rep s = s :=
  scan_of_searchFrom h

/-- There is a match exactly if there is a success somewhere. -/
theorem searchFrom_iff {prev : Option α} {s : List α} :
    r.searchFrom prev s = true ↔ ∃ p t, s = p ++ t ∧ r.run (endOf prev p) t ≠ [] := by
  have hfirst : ∀ (prev : Option α) (s : List α),
      (r.first prev s).isSome = true ↔ r.run prev s ≠ [] := by
    intro prev s
    rw [first]
    cases r.run prev s <;> simp
  induction s generalizing prev with
  | nil =>
    rw [searchFrom, hfirst]
    refine ⟨fun h => ⟨[], [], rfl, h⟩, ?_⟩
    rintro ⟨p, t, heq, h⟩
    obtain ⟨rfl, rfl⟩ := List.append_eq_nil_iff.mp heq.symm
    exact h
  | cons c s ih =>
    have hrest : r.searchFrom (some c) s = true ↔
        ∃ p t, s = p ++ t ∧ r.run (endOf (some c) p) t ≠ [] := ih
    rw [searchFrom, Bool.or_eq_true, hfirst, hrest]
    constructor
    · rintro (h | ⟨p, t, rfl, h⟩)
      · exact ⟨[], c :: s, rfl, h⟩
      · exact ⟨c :: p, t, rfl, h⟩
    · rintro ⟨p, t, heq, h⟩
      cases p with
      | nil =>
        obtain rfl : c :: s = t := heq
        exact Or.inl h
      | cons d p =>
        rw [List.cons_append, List.cons.injEq] at heq
        obtain ⟨rfl, rfl⟩ := heq
        exact Or.inr ⟨p, t, rfl, h⟩

/-- No match begins in `p`, where `rest` follows it. -/
def Free (r : Regex α) (prev : Option α) (p rest : List α) : Prop :=
  ∀ p₁ p₂, p = p₁ ++ p₂ → p₂ ≠ [] → r.run (endOf prev p₁) (p₂ ++ rest) = []

theorem Free.tail {c : α} {prev : Option α} {p rest : List α} (h : r.Free prev (c :: p) rest) :
    r.first prev (c :: p ++ rest) = none ∧ r.Free (some c) p rest := by
  constructor
  · have hrun : r.run prev (c :: p ++ rest) = [] := h [] (c :: p) rfl (by simp)
    rw [first, hrun]
    rfl
  · rintro p₁ p₂ rfl hne
    exact h (c :: p₁) p₂ rfl hne

/-- What no match begins in is kept, and no match that begins in it is pending. -/
theorem scan_of_free {prev : Option α} {p rest : List α} (h : r.Free prev p rest) :
    r.scan rep 0 prev p rest = p ∧ r.pending 0 prev p rest = 0 := by
  induction p generalizing prev with
  | nil => exact ⟨rfl, rfl⟩
  | cons c p ih =>
    obtain ⟨hnone, hrest⟩ := h.tail
    obtain ⟨hscan, hpending⟩ := ih hrest
    constructor
    · rw [scan, hnone]
      show c :: _ = _
      rw [hscan]
    · rw [pending, hnone]
      exact hpending

/-- **A text has no match, or a first one.** -/
theorem exists_first (r : Regex α) (prev : Option α) (s : List α) :
    r.searchFrom prev s = false ∨ ∃ p t m, s = p ++ t ∧ r.Free prev p t ∧
      r.first (endOf prev p) t = some m := by
  induction s generalizing prev with
  | nil =>
    cases hm : r.first prev [] with
    | none => exact Or.inl (by rw [searchFrom, hm]; rfl)
    | some m =>
      refine Or.inr ⟨[], [], m, rfl, ?_, hm⟩
      intro p₁ p₂ hp hne
      exact absurd (List.append_eq_nil_iff.mp hp.symm).2 hne
  | cons c s ih =>
    cases hm : r.first prev (c :: s) with
    | some m =>
      refine Or.inr ⟨[], c :: s, m, rfl, ?_, hm⟩
      intro p₁ p₂ hp hne
      exact absurd (List.append_eq_nil_iff.mp hp.symm).2 hne
    | none =>
      rcases ih (some c) with hnone | ⟨p, t, m, rfl, hfree, hfirst⟩
      · exact Or.inl (by rw [searchFrom, hm, hnone]; rfl)
      · refine Or.inr ⟨c :: p, t, m, rfl, ?_, hfirst⟩
        intro p₁ p₂ hp hne
        cases p₁ with
        | nil =>
          obtain rfl : c :: p = p₂ := hp
          exact List.head?_eq_none_iff.mp hm
        | cons d p₁ =>
          obtain ⟨rfl, rfl⟩ := List.cons.inj hp
          exact hfree p₁ p₂ rfl hne

/-- Where matches are taken out, what is left is a part of the text. -/
theorem scan_sublist (k : ℕ) (prev : Option α) (a rest : List α) :
    (r.scan (fun _ _ => []) k prev a rest).Sublist a := by
  induction a generalizing k prev with
  | nil => exact List.Sublist.refl _
  | cons c a ih =>
    cases k with
    | succ k => exact (ih k (some c)).cons c
    | zero =>
      rw [scan]
      split
      · rw [List.nil_append]
        exact (ih _ (some c)).cons c
      · exact (ih 0 (some c)).cons_cons c

/-- Where matches that begin with a symbol are taken out, and there is one, the symbol is less
often in what is left. -/
theorem countP_sub_lt (hn : r.nullable = false) {q : α → Bool}
    (hstart : ∀ c, r.canStart c = true → q c = true) {s : List α} (h : r.search s = true) :
    (r.sub (fun _ _ => []) s).countP q < s.countP q := by
  have hscan : ∀ (s : List α) (prev : Option α), r.searchFrom prev s = true →
      (r.scan (fun _ _ => []) 0 prev s []).countP q < s.countP q := by
    intro s
    induction s with
    | nil =>
      intro prev h
      obtain ⟨m, hm⟩ := Option.isSome_iff_exists.mp h
      have hmem := List.mem_of_head? hm
      have hlength := (length_le_of_mem_run hmem).1
      rw [nullable_of_mem_run hmem (Nat.le_zero.mp hlength)] at hn
      cases hn
    | cons c s ih =>
      intro prev h
      rw [scan, List.append_nil]
      cases hm : r.first prev (c :: s) with
      | none =>
        rw [searchFrom, hm, Option.isSome_none, Bool.false_or] at h
        have hrest := ih (some c) h
        rw [List.countP_cons, List.countP_cons]
        omega
      | some m =>
        have hmem := List.mem_of_head? hm
        obtain ⟨_ | n, groups⟩ := m
        · rw [nullable_of_mem_run hmem rfl] at hn
          cases hn
        · -- the first symbol of the match is taken out
          have hc : q c = true := by
            rcases canStart_of_mem_run hmem with ⟨hzero, -⟩ | hc
            · cases hzero
            · exact hstart c hc
          have hrest := (@scan_sublist _ r n (some c) s []).countP_le (p := q)
          rw [List.countP_cons, hc]
          show (r.scan (fun _ _ => []) n (some c) s []).countP q < _
          simp only [if_true]
          omega
  exact hscan s none h

/-- What is before the text does not matter to an expression that does not look around. -/
theorem scan_prev (hr : r.floating = true) (k : ℕ) (prev prev' : Option α) (a rest : List α) :
    r.scan rep k prev a rest = r.scan rep k prev' a rest := by
  cases a with
  | nil => cases k <;> rfl
  | cons c a =>
    cases k with
    | succ k => rfl
    | zero => rw [scan, scan, first, first, run_prev hr prev prev']

end Regex
end MediaHub

import Mathlib.Data.List.Chain
import Mathlib.Data.List.Induction
import MediaHub.QaVoting.Slots
import MediaHub.QaVoting.Vote

/-!
# The repair of overlapping winners

The repair looks at each winner once, against the last word kept so far, which may
have been clamped itself.  `Repaired` says what comes out, winner by winner.

## Main definitions

* `Repaired` — which winners were kept, as what, and why the others were not.

## Main results

* `resolveStep_cases` — what one turn of the loop can do.
* `repaired_resolveOverlaps` — **the loop does what `Repaired` says.**
* `resolveOverlaps_eq_self` — winners that do not overlap stay as they are.
* `isChain_resolveOverlaps` — what comes out does not overlap.
* `Repaired.not_mem_iff` — which winners are lost where they end in order.
-/

namespace MediaHub
namespace QaVoting

variable (U : Unicodedata)

@[simp] theorem resolveOverlaps_nil : resolveOverlaps U [] = [] := rfl

theorem resolveOverlaps_concat (ws : List Word) (w : Word) :
    resolveOverlaps U (ws ++ [w]) = resolveStep U (resolveOverlaps U ws) w := by
  simp [resolveOverlaps]

/-- A winner is a duplicate of the word kept before it. -/
def Duplicate (last w : Word) : Prop :=
  w.start < last.end_ ∧ normalize U w.word = normalize U last.word

/-- What a kept winner `w` becomes behind the kept word `prev`, if there is one: its
start is moved to the end of `prev` where it was earlier, and its end with it
where the start overtook it. -/
def placedAfter (prev : Option Word) (w : Word) : Word :=
  match prev with
  | none => w
  | some last => { w with start := max last.end_ w.start, end_ := max last.end_ w.end_ }

@[simp] theorem word_placedAfter (prev : Option Word) (w : Word) :
    (placedAfter prev w).word = w.word := by cases prev <;> rfl

@[simp] theorem probability_placedAfter (prev : Option Word) (w : Word) :
    (placedAfter prev w).probability = w.probability := by cases prev <;> rfl

theorem start_le_placedAfter (prev : Option Word) (w : Word) :
    w.start ≤ (placedAfter prev w).start := by
  cases prev with
  | none => exact le_rfl
  | some last => exact le_max_right _ _

theorem placedAfter_start_le_end {w : Word} (h : w.start ≤ w.end_) (prev : Option Word) :
    (placedAfter prev w).start ≤ (placedAfter prev w).end_ := by
  cases prev with
  | none => exact h
  | some last => exact max_le_max le_rfl h

theorem placedAfter_eq_self {last w : Word} (h : last.end_ ≤ w.start) (hw : w.start ≤ w.end_) :
    placedAfter (some last) w = w := by
  rw [placedAfter, max_eq_right h, max_eq_right (le_trans h hw)]

/-- **What one turn of the loop can do**: drop a duplicate of the last kept word, or
keep the winner behind it. -/
theorem resolveStep_cases (out : List Word) {w : Word} (hw : w.start ≤ w.end_) :
    (∃ last, out.getLast? = some last ∧ Duplicate U last w ∧ resolveStep U out w = out) ∨
      ((∀ last, out.getLast? = some last → ¬ Duplicate U last w) ∧
        resolveStep U out w = out ++ [placedAfter out.getLast? w]) := by
  rw [resolveStep]
  cases hlast : out.getLast? with
  | none => exact Or.inr ⟨by simp, rfl⟩
  | some last =>
    simp only [Option.some.injEq, forall_eq', exists_eq_left']
    -- an overlap with the same text is a duplicate; with another text it is cut
    by_cases hlt : w.start < last.end_
    · by_cases htext : normalize U w.word = normalize U last.word
      · exact Or.inl ⟨⟨hlt, htext⟩, by rw [if_pos hlt, if_pos htext]⟩
      · refine Or.inr ⟨fun h => htext h.2, ?_⟩
        rw [if_pos hlt, if_neg htext, clampAfter, placedAfter, max_eq_left hlt.le]
        simp only
        split
        · next h => rw [max_eq_left (le_of_lt h)]
        · next h => rw [max_eq_right (not_lt.mp h)]
    · refine Or.inr ⟨fun h => hlt h.1, ?_⟩
      rw [if_neg hlt, placedAfter_eq_self (not_lt.mp hlt) hw]

/-! ### What comes out does not overlap -/

/-- What comes out is a chain in which no word starts before the last one ended,
and no word ends before it starts. -/
theorem isChain_resolveOverlaps {winners : List Word} (h : ∀ w ∈ winners, w.start ≤ w.end_) :
    (resolveOverlaps U winners).IsChain (fun a b => a.end_ ≤ b.start) ∧
      ∀ w ∈ resolveOverlaps U winners, w.start ≤ w.end_ := by
  -- the loop appends, so the induction is on the last winner
  induction winners using List.reverseRecOn with
  | nil => simp
  | append_singleton ws w ih =>
    obtain ⟨hchain, hle⟩ := ih fun v hv => h v (List.mem_append_left _ hv)
    have hw : w.start ≤ w.end_ := h w (by simp)
    rw [resolveOverlaps_concat]
    rcases resolveStep_cases U (resolveOverlaps U ws) hw with ⟨_, _, _, heq⟩ | ⟨-, heq⟩
    · rw [heq]
      exact ⟨hchain, hle⟩
    · rw [heq]
      refine ⟨List.isChain_append.mpr ⟨hchain, by simp, ?_⟩, ?_⟩
      · intro a ha b hb
        obtain rfl : placedAfter (resolveOverlaps U ws).getLast? w = b := by simpa using hb
        rw [Option.mem_def.mp ha]
        exact le_max_left _ _
      · intro v hv
        rcases List.mem_append.mp hv with hv | hv
        · exact hle v hv
        · obtain rfl : v = placedAfter (resolveOverlaps U ws).getLast? w := by simpa using hv
          exact placedAfter_start_le_end hw _

/-- Winners that follow one another stay as they are. -/
theorem resolveOverlaps_eq_self {winners : List Word} (h : ∀ w ∈ winners, w.start ≤ w.end_)
    (hchain : winners.IsChain fun a b => a.end_ ≤ b.start) :
    resolveOverlaps U winners = winners := by
  induction winners using List.reverseRecOn with
  | nil => rfl
  | append_singleton ws w ih =>
    obtain ⟨hws, -, hlast⟩ := List.isChain_append.mp hchain
    have hw : w.start ≤ w.end_ := h w (by simp)
    rw [resolveOverlaps_concat, ih (fun v hv => h v (List.mem_append_left _ hv)) hws, resolveStep]
    cases hl : ws.getLast? with
    | none => rfl
    | some last =>
      have hle : last.end_ ≤ w.start := hlast last hl w (by simp)
      simp only [if_neg (not_lt.mpr hle)]

/-! ### Winner by winner -/

/-- What the repair made of the winners: `idx` lists the positions of the winners
that were kept, and `out` what they became. -/
structure Repaired (winners out : List Word) (idx : List ℕ) : Prop where
  /-- Each word that came out is one kept winner. -/
  length_eq : idx.length = out.length
  /-- The kept winners come out in order. -/
  increasing : idx.Pairwise (· < ·)
  /-- A kept winner was no duplicate of the word before it, and was placed behind it. -/
  kept : ∀ j i : ℕ, idx[j]? = some i → ∃ w, winners[i]? = some w ∧
    (∀ last, (out.take j).getLast? = some last → ¬ Duplicate U last w) ∧
      out[j]? = some (placedAfter (out.take j).getLast? w)
  /-- A winner that was not kept was a duplicate of the last word kept before it. -/
  dropped : ∀ i w, winners[i]? = some w → i ∉ idx → ∃ (j k : ℕ) (last : Word), idx[j]? = some k ∧
    out[j]? = some last ∧ k < i ∧ (∀ k' ∈ idx, k < k' → i < k') ∧ Duplicate U last w

theorem getElem?_concat_eq_some {α : Type*} {l : List α} {a v : α} {i : ℕ} :
    (l ++ [a])[i]? = some v ↔ l[i]? = some v ∨ (i = l.length ∧ v = a) := by
  rcases lt_trichotomy i l.length with hi | rfl | hi
  · rw [List.getElem?_append_left hi]
    simp [hi.ne]
  · simp [eq_comm]
  · rw [List.getElem?_eq_none (by simpa using Nat.succ_le_of_lt hi), List.getElem?_eq_none hi.le]
    simp [hi.ne']

variable {U} in
/-- A winner is dropped as a duplicate of the last word kept. -/
theorem Repaired.drop {ws out : List Word} {idx : List ℕ} {w last : Word}
    (h : Repaired U ws out idx) (hbound : ∀ i ∈ idx, i < ws.length)
    (hlast : out.getLast? = some last) (hdup : Duplicate U last w) :
    Repaired U (ws ++ [w]) out idx := by
  refine ⟨h.length_eq, h.increasing, ?_, ?_⟩
  · intro j i hj
    obtain ⟨v, hv, hrest⟩ := h.kept j i hj
    exact ⟨v, getElem?_concat_eq_some.mpr (Or.inl hv), hrest⟩
  · intro i v hv hi
    rcases getElem?_concat_eq_some.mp hv with hv | ⟨rfl, rfl⟩
    · exact h.dropped i v hv hi
    · have hlen : idx.length - 1 < idx.length := by
        have hne : out ≠ [] := by
          rintro rfl
          cases hlast
        have := List.length_pos_iff.mpr hne
        rw [h.length_eq]
        omega
      refine ⟨idx.length - 1, idx[idx.length - 1], last, List.getElem?_eq_getElem hlen, ?_,
        hbound _ (List.getElem_mem hlen), ?_, hdup⟩
      · rw [h.length_eq, ← List.getLast?_eq_getElem?, hlast]
      · -- no winner was kept after the last one
        intro k' hk' hlt
        obtain ⟨m, hm, rfl⟩ := List.getElem_of_mem hk'
        have hinc := List.pairwise_iff_getElem.mp h.increasing
        rcases Nat.lt_or_ge m (idx.length - 1) with hm' | hm'
        · exact absurd hlt (Nat.not_lt.mpr (hinc m _ hm hlen hm').le)
        · obtain rfl : m = idx.length - 1 := by omega
          exact absurd hlt (lt_irrefl _)

variable {U} in
/-- A winner is kept behind the words kept so far. -/
theorem Repaired.keep {ws out : List Word} {idx : List ℕ} {w : Word}
    (h : Repaired U ws out idx) (hbound : ∀ i ∈ idx, i < ws.length)
    (hdup : ∀ last, out.getLast? = some last → ¬ Duplicate U last w) :
    Repaired U (ws ++ [w]) (out ++ [placedAfter out.getLast? w]) (idx ++ [ws.length]) := by
  have hlen := h.length_eq
  refine ⟨by simp [hlen], ?_, ?_, ?_⟩
  · refine List.pairwise_append.mpr ⟨h.increasing, by simp, ?_⟩
    intro i hi k hk
    rw [List.mem_singleton.mp hk]
    exact hbound i hi
  · intro j i hj
    -- a word that was kept before, or the new one
    rcases getElem?_concat_eq_some.mp hj with hj | ⟨rfl, rfl⟩
    · obtain ⟨v, hv, hd, hout⟩ := h.kept j i hj
      have hjlt := (List.getElem?_eq_some_iff.mp hj).1
      have htake : (out ++ [placedAfter out.getLast? w]).take j = out.take j :=
        List.take_append_of_le_length (by omega)
      refine ⟨v, getElem?_concat_eq_some.mpr (Or.inl hv), by rwa [htake], ?_⟩
      rw [htake, getElem?_concat_eq_some]
      exact Or.inl hout
    · rw [hlen]
      exact ⟨w, by simp, by simpa using hdup, by simp⟩
  · intro i v hv hi
    rw [List.mem_append, List.mem_singleton, not_or] at hi
    -- what was dropped before comes before the new word as well
    rcases getElem?_concat_eq_some.mp hv with hv | ⟨rfl, -⟩
    · obtain ⟨j, k, last, hj, hout, hki, hnext, hd⟩ := h.dropped i v hv hi.1
      refine ⟨j, k, last, getElem?_concat_eq_some.mpr (Or.inl hj),
        getElem?_concat_eq_some.mpr (Or.inl hout), hki, ?_, hd⟩
      intro k' hk' hlt
      rcases List.mem_append.mp hk' with hk' | hk'
      · exact hnext k' hk' hlt
      · rw [List.mem_singleton.mp hk']
        exact (List.getElem?_eq_some_iff.mp hv).1
    · exact absurd rfl hi.2

/-- **The loop does what `Repaired` says.** -/
theorem repaired_resolveOverlaps {winners : List Word} (h : ∀ w ∈ winners, w.start ≤ w.end_) :
    ∃ idx, Repaired U winners (resolveOverlaps U winners) idx ∧ ∀ i ∈ idx, i < winners.length := by
  induction winners using List.reverseRecOn with
  | nil => exact ⟨[], ⟨rfl, by simp, by simp, by simp⟩, by simp⟩
  | append_singleton ws w ih =>
    obtain ⟨idx, hrep, hbound⟩ := ih fun v hv => h v (List.mem_append_left _ hv)
    have hgrow : ∀ i ∈ idx, i < (ws ++ [w]).length := by
      intro i hi
      have := hbound i hi
      rw [List.length_append]
      omega
    rw [resolveOverlaps_concat]
    rcases resolveStep_cases U (resolveOverlaps U ws) (h w (by simp)) with
      ⟨last, hlast, hdup, heq⟩ | ⟨hdup, heq⟩
    · rw [heq]
      exact ⟨idx, hrep.drop hbound hlast hdup, hgrow⟩
    · rw [heq]
      refine ⟨idx ++ [ws.length], hrep.keep hbound hdup, ?_⟩
      intro i hi
      rcases List.mem_append.mp hi with hi | hi
      · exact hgrow i hi
      · rw [List.mem_singleton.mp hi]
        simp

/-! ### Winners that end one after the other -/

section

variable {U} {winners out : List Word} {idx : List ℕ}

/-- Where the winners end one after the other, no kept winner has its end moved. -/
theorem Repaired.end_eq (h : Repaired U winners out idx)
    (hends : winners.Pairwise fun a b => a.end_ ≤ b.end_) :
    ∀ (j i : ℕ) w r, idx[j]? = some i → winners[i]? = some w → out[j]? = some r →
      r.end_ = w.end_ := by
  intro j
  induction j with
  | zero =>
    intro i w r hj hw hr
    obtain ⟨v, hv, -, hout⟩ := h.kept 0 i hj
    rw [hw, Option.some.injEq] at hv
    rw [hr, Option.some.injEq] at hout
    rw [hout, ← hv]
    rfl
  | succ j ih =>
    intro i w r hj hw hr
    obtain ⟨v, hv, -, hout⟩ := h.kept (j + 1) i hj
    rw [hw, Option.some.injEq] at hv
    rw [hr, Option.some.injEq] at hout
    obtain ⟨hjlt, hji⟩ := List.getElem?_eq_some_iff.mp hj
    -- the word kept before it ends where its winner ended, and so not later
    have hprev : idx[j]? = some idx[j] := List.getElem?_eq_getElem (by omega)
    obtain ⟨u, hu, -, hlast⟩ := h.kept j _ hprev
    have hend := ih _ u _ hprev hu hlast
    have hlt : idx[j] < i :=
      hji ▸ List.pairwise_iff_getElem.mp h.increasing j (j + 1) _ hjlt (by omega)
    obtain ⟨hilt, hwi⟩ := List.getElem?_eq_some_iff.mp hw
    obtain ⟨hult, hui⟩ := List.getElem?_eq_some_iff.mp hu
    have hle : u.end_ ≤ w.end_ :=
      hwi ▸ hui ▸ List.pairwise_iff_getElem.mp hends idx[j] i hult hilt hlt
    rw [List.take_add_one, hlast, Option.toList_some, List.getLast?_concat] at hout
    rw [hout, ← hv, placedAfter]
    simp only
    rw [hend, max_eq_right hle]

/-- **Which winners are lost** where the winners end one after the other and every
second one starts behind: those that repeat the winner before them, which was
kept, and start before its end. -/
theorem Repaired.not_mem_iff (h : Repaired U winners out idx)
    (hends : winners.Pairwise fun a b => a.end_ ≤ b.end_)
    (hgap : ∀ (i j : ℕ) v w, i + 2 ≤ j → winners[i]? = some v → winners[j]? = some w →
      v.end_ ≤ w.start) {i : ℕ} {w : Word} (hw : winners[i]? = some w) :
    i ∉ idx ↔ ∃ k v, i = k + 1 ∧ k ∈ idx ∧ winners[k]? = some v ∧ Duplicate U v w := by
  constructor
  · intro hi
    obtain ⟨j, k, last, hj, hout, hki, -, hdup⟩ := h.dropped i w hw hi
    obtain ⟨v, hv, -, hlast⟩ := h.kept j k hj
    have hend := h.end_eq hends j k v last hj hv hout
    rw [hout, Option.some.injEq] at hlast
    refine ⟨k, v, ?_, List.mem_of_getElem? hj, hv, ?_, ?_⟩
    · by_contra hne
      exact absurd (hgap k i v w (by omega) hv hw) (not_le.mpr (hend ▸ hdup.1))
    · exact hend ▸ hdup.1
    · rw [hdup.2, hlast, word_placedAfter]
  · rintro ⟨k, v, rfl, hk, hv, hdup⟩ hi
    obtain ⟨j, hjlt, hj⟩ := List.getElem_of_mem hk
    obtain ⟨l, hllt, hl⟩ := List.getElem_of_mem hi
    have hinc := List.pairwise_iff_getElem.mp h.increasing
    -- the two were kept one right after the other
    obtain rfl : l = j + 1 := by
      rcases Nat.lt_trichotomy l (j + 1) with hlj | hlj | hlj
      · rcases Nat.lt_or_ge l j with hlj' | hlj'
        · have := hinc l j hllt hjlt hlj'; omega
        · obtain rfl : l = j := by omega
          omega
      · exact hlj
      · have h1 := hinc j (j + 1) hjlt (by omega) (by omega)
        have h2 := hinc (j + 1) l (by omega) hllt hlj
        omega
    have hj' : idx[j]? = some k := hj ▸ List.getElem?_eq_getElem hjlt
    obtain ⟨u, hu, -, hlast⟩ := h.kept j k hj'
    have hend := h.end_eq hends j k u _ hj' hu hlast
    rw [hv, Option.some.injEq] at hu
    subst hu
    obtain ⟨w', hw', hfresh, -⟩ := h.kept (j + 1) (k + 1) (hl ▸ List.getElem?_eq_getElem hllt)
    rw [hw, Option.some.injEq] at hw'
    subst hw'
    rw [List.take_add_one, hlast, Option.toList_some, List.getLast?_concat] at hfresh
    refine hfresh _ rfl ⟨?_, ?_⟩
    · rw [hend]; exact hdup.1
    · rw [hdup.2, word_placedAfter]

end

end QaVoting
end MediaHub

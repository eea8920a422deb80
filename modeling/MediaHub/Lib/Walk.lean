import Mathlib.Data.Finset.Card
import Mathlib.Order.Lattice

/-!
# Walks

A loop that goes from an element to the next one until there is none, where each has a
height.  If the next one is always higher and there are finitely many, the loop ends and
visits none twice; if the next one is always the next higher one, it visits all that are
not lower than the first.

## Main definitions

* `walk` — the elements that are visited, if there are at most so many.
* `Climbs` — the next element is higher.

## Main results

* `Climbs.exists_walk` — **a walk that climbs ends.**
* `Climbs.pairwise` — it goes up.
* `mem_of_walk` — **a walk from each element to the next higher one leaves none out.**
-/

namespace MediaHub

variable {α β : Type*}

/-- The elements from `a` on, if there are at most so many. -/
def walk (next : α → Option α) : ℕ → α → Option (List α)
  | 0, _ => none
  | n + 1, a =>
    match next a with
    | none => some [a]
    | some b => (walk next n b).map (a :: ·)

variable [LinearOrder β]

/-- The next element is in `S` again, and higher. -/
structure Climbs (next : α → Option α) (S : Finset α) (m : α → β) : Prop where
  mem : ∀ a ∈ S, ∀ b, next a = some b → b ∈ S
  lt : ∀ a ∈ S, ∀ b, next a = some b → m a < m b

variable {next : α → Option α} {S : Finset α} {m : α → β} {n : ℕ} {a t : α} {l : List α}

/-- **A walk that climbs ends.** -/
theorem Climbs.exists_walk (h : Climbs next S m) (ha : a ∈ S)
    (hn : (S.filter fun x => m a < m x).card < n) : ∃ l, walk next n a = some l := by
  induction n generalizing a with
  | zero => exact absurd hn (Nat.not_lt_zero _)
  | succ n ih =>
    cases hnext : next a with
    | none => exact ⟨[a], by rw [walk, hnext]⟩
    | some b =>
      have hb := h.mem a ha b hnext
      have hlt := h.lt a ha b hnext
      have hless : (S.filter fun x => m b < m x).card < (S.filter fun x => m a < m x).card := by
        apply Finset.card_lt_card
        refine Finset.ssubset_iff_of_subset ?_ |>.mpr ⟨b, ?_, ?_⟩
        · exact Finset.monotone_filter_right S fun x _ hx => hlt.trans hx
        · exact Finset.mem_filter.mpr ⟨hb, hlt⟩
        · exact fun hmem => lt_irrefl _ (Finset.mem_filter.mp hmem).2
      obtain ⟨l, hl⟩ := ih hb (by omega)
      exact ⟨a :: l, by simp [walk, hnext, hl]⟩

/-- It goes up, and stays in `S`. -/
theorem Climbs.pairwise (h : Climbs next S m) (ha : a ∈ S) (hl : walk next n a = some l) :
    (l.Pairwise fun x y => m x < m y) ∧ ∀ x ∈ l, x ∈ S ∧ m a ≤ m x := by
  induction n generalizing a l with
  | zero => cases hl
  | succ n ih =>
    rw [walk] at hl
    cases hnext : next a with
    | none =>
      rw [hnext] at hl
      cases hl
      exact ⟨List.pairwise_singleton _ _, by simpa using ha⟩
    | some b =>
      rw [hnext] at hl
      obtain ⟨rest, hrest, rfl⟩ := Option.map_eq_some_iff.mp hl
      have hlt := h.lt a ha b hnext
      obtain ⟨hup, hin⟩ := ih (h.mem a ha b hnext) hrest
      refine ⟨List.pairwise_cons.mpr ⟨fun x hx => hlt.trans_le (hin x hx).2, hup⟩, ?_⟩
      intro x hx
      rcases List.mem_cons.mp hx with rfl | hx
      · exact ⟨ha, le_rfl⟩
      · exact ⟨(hin x hx).1, hlt.le.trans (hin x hx).2⟩

/-- A walk that climbs visits nothing twice. -/
theorem Climbs.nodup (h : Climbs next S m) (ha : a ∈ S) (hl : walk next n a = some l) :
    l.Nodup :=
  (h.pairwise ha hl).1.imp fun hlt => ne_of_apply_ne m hlt.ne

/-- **A walk from each element to the next higher one leaves none out.** -/
theorem Climbs.mem_of_walk (h : Climbs next S m) (hinj : Set.InjOn m S)
    (hnext : ∀ a ∈ S, ∀ b, next a = some b → ∀ t ∈ S, m a < m t → m b ≤ m t)
    (hlast : ∀ a ∈ S, next a = none → ∀ t ∈ S, m t ≤ m a)
    (ha : a ∈ S) (hl : walk next n a = some l) (ht : t ∈ S) (hle : m a ≤ m t) : t ∈ l := by
  induction n generalizing a l with
  | zero => cases hl
  | succ n ih =>
    rw [walk] at hl
    cases hb : next a with
    | none =>
      rw [hb] at hl
      cases hl
      exact List.mem_singleton.mpr (hinj ht ha (le_antisymm (hlast a ha hb t ht) hle))
    | some b =>
      rw [hb] at hl
      obtain ⟨rest, hrest, rfl⟩ := Option.map_eq_some_iff.mp hl
      rcases hle.eq_or_lt with heq | hlt
      · exact List.mem_cons.mpr (.inl (hinj ht ha heq.symm))
      · exact List.mem_cons_of_mem a
          (ih (h.mem a ha b hb) hrest (hnext a ha b hb t ht hlt))

end MediaHub

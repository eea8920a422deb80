import Mathlib.Data.List.Perm.Basic
import Mathlib.Order.Basic
import Mathlib.Order.Defs.LinearOrder
import Mathlib.Order.Lattice

/-!
# Priority queues with time stamps

The entries of a priority queue are pairs of a priority and a time stamp; the least entry
comes out first.  As long as each entry is stamped later than the ones before it, such a
queue is a row of **lanes**, one for each priority: within a lane the entries come out in
the order in which they came in, and an entry comes out only where the lanes before its
own are empty.

## Main definitions

* `Before` — the order in which two entries come out.
* `enqueue` — an entry is put into a queue that is kept in this order.
* `Served` — the entries that came in, went out and still wait, lane by lane.

## Main results

* `filter_enqueue` — an entry that is stamped late goes to the end of its lane.
* `Served.enqueue`, `Served.dequeue` — **both operations keep the lanes first in, first
  out.**
-/

namespace MediaHub

variable {α κ τ : Type*} [LinearOrder κ] [LinearOrder τ] (lane : α → κ) (stamp : α → τ)

/-- `a` comes out before `b`. -/
def Before (a b : α) : Prop := lane a < lane b ∨ lane a = lane b ∧ stamp a < stamp b

instance (a b : α) : Decidable (Before lane stamp a b) := inferInstanceAs (Decidable (_ ∨ _))

/-- `a` is put into the queue `l`. -/
def enqueue (a : α) : List α → List α
  | [] => [a]
  | b :: l => if Before lane stamp a b then a :: b :: l else b :: enqueue a l

variable {lane stamp} {a b c : α} {l : List α}

/-! ### The order -/

theorem Before.trans (hab : Before lane stamp a b) (hbc : Before lane stamp b c) :
    Before lane stamp a c := by
  rcases hab with hab | ⟨hab, hs⟩ <;> rcases hbc with hbc | ⟨hbc, ht⟩
  · exact .inl (hab.trans hbc)
  · exact .inl (hbc ▸ hab)
  · exact .inl (hab ▸ hbc)
  · exact .inr ⟨hab.trans hbc, hs.trans ht⟩

theorem Before.lane_le (h : Before lane stamp a b) : lane a ≤ lane b := by
  rcases h with h | ⟨h, -⟩
  · exact h.le
  · exact h.le

/-- Entries of one lane are told apart by their stamps. -/
theorem before_of_not (hne : lane a = lane b → stamp a ≠ stamp b)
    (h : ¬Before lane stamp a b) : Before lane stamp b a := by
  rcases lt_trichotomy (lane a) (lane b) with hl | hl | hl
  · exact absurd (.inl hl) h
  · rcases lt_or_gt_of_ne (hne hl) with hs | hs
    · exact absurd (.inr ⟨hl, hs⟩) h
    · exact .inr ⟨hl.symm, hs⟩
  · exact .inl hl

/-! ### Putting an entry in -/

theorem enqueue_cons :
    enqueue lane stamp a (b :: l)
      = if Before lane stamp a b then a :: b :: l else b :: enqueue lane stamp a l := rfl

theorem perm_enqueue (a : α) (l : List α) : (enqueue lane stamp a l).Perm (a :: l) := by
  induction l with
  | nil => exact List.Perm.refl _
  | cons b l ih =>
    rw [enqueue_cons]
    split
    · exact List.Perm.refl _
    · exact (ih.cons b).trans (List.Perm.swap a b l)

@[simp] theorem mem_enqueue : c ∈ enqueue lane stamp a l ↔ c = a ∨ c ∈ l := by
  rw [(perm_enqueue a l).mem_iff, List.mem_cons]

/-- The queue stays in order, if no entry of its lane has the stamp of the new one. -/
theorem pairwise_enqueue (hl : l.Pairwise (Before lane stamp))
    (hnew : ∀ b ∈ l, lane a = lane b → stamp a ≠ stamp b) :
    (enqueue lane stamp a l).Pairwise (Before lane stamp) := by
  induction l with
  | nil => exact List.pairwise_singleton _ _
  | cons b l ih =>
    obtain ⟨hb, hrest⟩ := List.pairwise_cons.mp hl
    rw [enqueue_cons]
    split
    · next hab =>
      refine List.pairwise_cons.mpr ⟨?_, hl⟩
      intro c hc
      rcases List.mem_cons.mp hc with rfl | hc
      · exact hab
      · exact hab.trans (hb c hc)
    · next hab =>
      have hba : Before lane stamp b a := before_of_not (hnew b List.mem_cons_self) hab
      refine List.pairwise_cons.mpr ⟨?_, ih hrest fun c hc => hnew c (List.mem_cons_of_mem _ hc)⟩
      intro c hc
      rcases mem_enqueue.mp hc with rfl | hc
      · exact hba
      · exact hb c hc

/-- An entry that is stamped late goes to the end of its lane; the other lanes stay. -/
theorem filter_enqueue (hl : l.Pairwise (Before lane stamp))
    (hlate : ∀ b ∈ l, lane b = lane a → stamp b < stamp a) (p : κ) :
    (enqueue lane stamp a l).filter (fun b => lane b = p)
      = l.filter (fun b => lane b = p) ++ [a].filter (fun b => lane b = p) := by
  induction l with
  | nil => rfl
  | cons b l ih =>
    obtain ⟨hb, hrest⟩ := List.pairwise_cons.mp hl
    have ih := ih hrest fun c hc => hlate c (List.mem_cons_of_mem _ hc)
    rw [enqueue_cons]
    split
    · next hab =>
      -- all that is from `b` on is in later lanes
      have hlt : lane a < lane b := by
        rcases hab with h | ⟨he, hs⟩
        · exact h
        · exact absurd hs (hlate b List.mem_cons_self he.symm).not_gt
      by_cases hp : lane a = p
      · have hnil : (b :: l).filter (fun c => lane c = p) = [] := by
          rw [List.filter_eq_nil_iff]
          intro c hc
          have hle : lane b ≤ lane c := by
            rcases List.mem_cons.mp hc with rfl | hc
            · exact le_refl _
            · exact (hb c hc).lane_le
          simpa using (hp ▸ hlt.trans_le hle).ne'
        rw [hnil, List.filter_cons, hnil]
        simp [hp]
      · have hnil : [a].filter (fun c => lane c = p) = [] := by simp [hp]
        rw [List.filter_cons_of_neg (by simpa using hp), hnil, List.append_nil]
    · rw [List.filter_cons, List.filter_cons, ih]
      split <;> rfl

/-! ### What came in and what went out -/

variable (lane stamp) in
/-- The entries that came in, those that went out and those that wait, each in its order:
the waiting ones are kept as they will come out, and every lane is first in, first out. -/
structure Served (accepted started waiting : List α) : Prop where
  sorted : waiting.Pairwise (Before lane stamp)
  lanes : ∀ p : κ, accepted.filter (fun b => lane b = p)
    = started.filter (fun b => lane b = p) ++ waiting.filter (fun b => lane b = p)

variable {accepted started waiting : List α}

theorem Served.nil : Served lane stamp [] [] [] := ⟨List.Pairwise.nil, fun _ => rfl⟩

/-- What waits came in. -/
theorem Served.mem_accepted (h : Served lane stamp accepted started waiting)
    (hb : b ∈ waiting) : b ∈ accepted := by
  have hmem : b ∈ waiting.filter (fun c => lane c = lane b) := by simpa using hb
  exact List.mem_of_mem_filter (h.lanes (lane b) ▸ List.mem_append_right _ hmem)

/-- An entry comes in, stamped later than those that wait in its lane. -/
theorem Served.enqueue (h : Served lane stamp accepted started waiting)
    (hlate : ∀ b ∈ waiting, lane b = lane a → stamp b < stamp a) :
    Served lane stamp (accepted ++ [a]) started (enqueue lane stamp a waiting) where
  sorted := pairwise_enqueue h.sorted fun b hb he => (hlate b hb he.symm).ne'
  lanes p := by
    rw [List.filter_append, h.lanes p, filter_enqueue h.sorted hlate p, List.append_assoc]

/-- The first entry goes out. -/
theorem Served.dequeue (h : Served lane stamp accepted started (a :: waiting)) :
    Served lane stamp accepted (started ++ [a]) waiting where
  sorted := (List.pairwise_cons.mp h.sorted).2
  lanes p := by
    rw [h.lanes p, List.filter_append, List.append_assoc]
    congr 1
    rw [List.filter_cons]
    split <;> simp [*]

/-- The lanes before that of the first entry are empty, and it came in before all others
of its own. -/
theorem Served.head_before (h : Served lane stamp accepted started (a :: waiting)) :
    ∀ b ∈ waiting, Before lane stamp a b := (List.pairwise_cons.mp h.sorted).1

end MediaHub

import Mathlib.Data.List.Forall2
import Mathlib.Data.List.Induction
import Mathlib.Data.List.Perm.Basic
import Mathlib.Data.List.Sort
import Mathlib.Order.Defs.LinearOrder

/-!
# Sorting lists by a key

Facts about lists sorted by a key in which keys may repeat, so that the sorted
list is not determined by its elements.

## Main results

* `exists_perm_of_perm_map` — a permutation of an image is the image of a
  permutation.
* `perm_flatMap_flatMap` — a double enumeration can be carried out in either order.
* `exists_append_of_perm_append`, `exists_blocks_of_perm_flatten` — **a sorted
  permutation of separated blocks is a list of permutations of the blocks.**
-/

namespace MediaHub

variable {α β : Type*}

/-- A permutation of an image is the image of a permutation. -/
theorem exists_perm_of_perm_map (f : α → β) {l : List α} {l' : List β} (h : l'.Perm (l.map f)) :
    ∃ t : List α, t.Perm l ∧ t.map f = l' := by
  induction l generalizing l' with
  | nil => exact ⟨[], .refl _, by simpa using h.symm⟩
  | cons a l ih =>
    rw [List.map_cons] at h
    obtain ⟨u, v, rfl⟩ := List.append_of_mem (h.mem_iff.mpr List.mem_cons_self)
    obtain ⟨t, ht, htm⟩ := ih (List.perm_middle.symm.trans h).cons_inv
    obtain ⟨t₁, t₂, rfl, rfl, rfl⟩ := List.map_eq_append_iff.mp htm
    exact ⟨t₁ ++ a :: t₂, List.perm_middle.trans (ht.cons a), by simp⟩

/-- A double enumeration can be carried out in either order. -/
theorem perm_flatMap_flatMap {γ : Type*} (l : List α) (m : List β) (f : α → β → List γ) :
    (l.flatMap fun a => m.flatMap (f a)).Perm (m.flatMap fun b => l.flatMap fun a => f a b) := by
  induction l with
  | nil => simp
  | cons a l ih =>
    simp only [List.flatMap_cons]
    exact (ih.append_left _).trans (List.flatMap_append_perm m (f a) _)

/-- Being related element by element is transitive where the relation is. -/
theorem forall₂_trans {r : α → α → Prop} (hr : ∀ {a b c}, r a b → r b c → r a c) {l₁ l₂ : List α}
    (h : List.Forall₂ r l₁ l₂) : ∀ {l₃}, List.Forall₂ r l₂ l₃ → List.Forall₂ r l₁ l₃ := by
  induction h with
  | nil => exact fun h => h
  | cons hab _ ih =>
    rintro _ (_ | ⟨hbc, h⟩)
    exact .cons (hr hab hbc) (ih h)

/-- Lists related element by element are mapped alike by functions that agree on
related elements. -/
theorem filterMap_eq_of_forall₂ {γ : Type*} {r : α → β → Prop} {f : α → Option γ}
    {g : β → Option γ} {l : List α} {l' : List β} (h : List.Forall₂ r l l')
    (hfg : ∀ a ∈ l, ∀ b ∈ l', r a b → f a = g b) : l.filterMap f = l'.filterMap g := by
  induction h with
  | nil => rfl
  | @cons a b l l' hab _ ih =>
    have hhead := hfg a List.mem_cons_self b List.mem_cons_self hab
    have htail := ih fun c hc d hd =>
      hfg c (List.mem_cons_of_mem a hc) d (List.mem_cons_of_mem b hd)
    rw [List.filterMap_cons, List.filterMap_cons, hhead, htail]

/-- A list sorted in a relation that carries `p` backwards is its part with `p`
followed by its part without. -/
theorem filter_append_filter_not {r : α → α → Prop} {p : α → Bool} {l : List α}
    (hl : l.Pairwise r) (hp : ∀ a b, r a b → p b = true → p a = true) :
    l.filter p ++ l.filter (fun a => !p a) = l := by
  induction l with
  | nil => rfl
  | cons a l ih =>
    rw [List.pairwise_cons] at hl
    cases ha : p a with
    | true => simpa [ha] using ih hl.2
    | false =>
      have hrest : ∀ b ∈ l, p b = false := by
        intro b hb
        by_contra hpb
        rw [hp a b (hl.1 b hb) (by simpa using hpb)] at ha
        exact Bool.noConfusion ha
      have h1 : l.filter p = [] := List.filter_eq_nil_iff.mpr fun b hb => by simp [hrest b hb]
      have h2 : l.filter (fun a => !p a) = l :=
        List.filter_eq_self.mpr fun b hb => by simp [hrest b hb]
      simp [ha, h1, h2]

variable [LinearOrder β] {key : α → β}

/-- A sorted permutation of `a ++ b`, where every key of `a` is below every key of
`b`, is a permutation of `a` followed by one of `b`. -/
theorem exists_append_of_perm_append {l a b : List α}
    (hl : l.Pairwise fun x y => key x ≤ key y) (hperm : l.Perm (a ++ b))
    (hab : ∀ x ∈ a, ∀ y ∈ b, key x < key y) :
    ∃ a' b', a' ++ b' = l ∧ a'.Perm a ∧ b'.Perm b := by
  let p : α → Bool := fun x => b.all fun y => key x < key y
  have hp : ∀ {x}, p x = true ↔ ∀ y ∈ b, key x < key y := by simp [p]
  have ha : ∀ x ∈ a, p x = true := by
    intro x hx
    exact hp.mpr (hab x hx)
  have hb : ∀ y ∈ b, p y = false := by
    intro y hy
    by_contra h
    exact lt_irrefl _ (hp.mp (by simpa using h) y hy)
  refine ⟨l.filter p, l.filter fun x => !p x, ?_, ?_, ?_⟩
  · exact filter_append_filter_not hl fun x y hxy hy =>
      hp.mpr fun z hz => lt_of_le_of_lt hxy (hp.mp hy z hz)
  · have hbnil : b.filter p = [] := List.filter_eq_nil_iff.mpr fun y hy => by simp [hb y hy]
    have h := hperm.filter p
    rwa [List.filter_append, List.filter_eq_self.mpr ha, hbnil, List.append_nil] at h
  · have hanil : a.filter (fun x => !p x) = [] :=
      List.filter_eq_nil_iff.mpr fun x hx => by simp [ha x hx]
    have hbself : b.filter (fun x => !p x) = b :=
      List.filter_eq_self.mpr fun y hy => by simp [hb y hy]
    have h := hperm.filter fun x => !p x
    rwa [List.filter_append, hanil, hbself, List.nil_append] at h

/-- **A sorted permutation of separated blocks is a list of permutations of the
blocks.** -/
theorem exists_blocks_of_perm_flatten {blocks : List (List α)} {l : List α}
    (hl : l.Pairwise fun x y => key x ≤ key y) (hperm : l.Perm blocks.flatten)
    (hsep : blocks.Pairwise fun a b => ∀ x ∈ a, ∀ y ∈ b, key x < key y) :
    ∃ rs : List (List α), rs.flatten = l ∧ List.Forall₂ List.Perm rs blocks := by
  induction blocks generalizing l with
  | nil =>
    obtain rfl : l = [] := by simpa using hperm
    exact ⟨[], rfl, .nil⟩
  | cons a blocks ih =>
    rw [List.pairwise_cons] at hsep
    rw [List.flatten_cons] at hperm
    obtain ⟨a', b', rfl, ha, hb⟩ := exists_append_of_perm_append hl hperm (by
      intro x hx y hy
      obtain ⟨b, hb, hyb⟩ := List.mem_flatten.mp hy
      exact hsep.1 b hb x hx y hyb)
    obtain ⟨rs, rfl, hrs⟩ := ih (List.pairwise_append.mp hl).2.1 hb hsep.2
    exact ⟨a' :: rs, by simp, .cons ha hrs⟩

end MediaHub

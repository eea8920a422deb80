import Mathlib.Data.Int.Order.Basic
import Mathlib.Data.List.Perm.Basic
import Mathlib.Data.List.Sort

/-!
# Pages by key

Items are read in pages, each with the first items in the order of their keys that come from
a cursor on.  The reader knows the items of a page and the largest of their keys, and goes on
one past it.  Items with equal keys can fall on both sides of the cut, and then those beyond
it are never read.

## Main definitions

* `window` — the items with a key in an interval.
* `IsPage` — the first items, in any order.
* `sortedKeys` — the keys of some items, in order.
* `NoCut` — no page ends between equal keys, and none leaves the cursor where it is.

## Main results

* `IsPage.perm_iff` — a page is all there is exactly if there are no more than fit in it.
* `IsPage.append_perm_iff` — **a full page and what is read from one past its largest key are
  all there is exactly if the cut does not separate equal keys.**
* `noCut_iff` — what the first page's end means for the pages after it.
-/

namespace MediaHub

variable {α β : Type*} (key : α → ℤ)

/-- The items with a key from `lo` on and below `hi`. -/
def window (lo hi : ℤ) (items : List α) : List α :=
  items.filter fun a => lo ≤ key a && key a < hi

/-- The keys of some items, in order. -/
def sortedKeys (items : List α) : List ℤ := (items.map key).mergeSort fun x y => decide (x ≤ y)

/-- The first items in the order of their keys, `limit` of them if there are as many, in any
order. -/
def IsPage (limit : ℕ) (items page : List α) : Prop :=
  ∃ sorted : List α, sorted.Perm items ∧ sorted.Pairwise (fun a b => key a ≤ key b) ∧
    page.Perm (sorted.take limit)

/-- The largest key of a page, or the cursor where it is larger. -/
def lastKey (cur : ℤ) (page : List α) : ℤ := page.foldl (fun last a => max last (key a)) cur

/-- The reader's cursor after `k` full pages of keys that are in order. -/
def cursorAt (limit : ℕ) (start : ℤ) (keys : List ℤ) : ℕ → ℤ
  | 0 => start
  | k + 1 => keys.getD (limit * (k + 1) - 1) start + 1

/-- Where a page ends before the last key, the next key is larger, and the page has gone on
from where the cursor was. -/
def NoCut (limit : ℕ) (start : ℤ) (keys : List ℤ) : Prop :=
  ∀ k t t', keys[limit * (k + 1) - 1]? = some t → keys[limit * (k + 1)]? = some t' →
    t < t' ∧ cursorAt limit start keys k < t

variable {key} {limit : ℕ} {items page rest : List α} {lo hi cur t : ℤ}

theorem mem_window {a : α} : a ∈ window key lo hi items ↔ a ∈ items ∧ lo ≤ key a ∧ key a < hi := by
  simp [window]

/-- What lies beyond a key of a window is a window. -/
theorem filter_window (h : lo ≤ t + 1) :
    (window key lo hi items).filter (fun a => t < key a) = window key (t + 1) hi items := by
  rw [window, window, List.filter_filter]
  congr 1
  funext a
  rw [Bool.eq_iff_iff]
  simp only [Bool.and_eq_true, decide_eq_true_eq]
  omega

/-! ### The keys in order -/

theorem sortedKeys_perm : (sortedKeys key items).Perm (items.map key) := List.mergeSort_perm _ _

theorem sortedKeys_pairwise : (sortedKeys key items).Pairwise (· ≤ ·) := by
  have htrans : ∀ x y z : ℤ, decide (x ≤ y) = true → decide (y ≤ z) = true →
      decide (x ≤ z) = true := by simpa using fun x y z => le_trans
  have htotal : ∀ x y : ℤ, (decide (x ≤ y) || decide (y ≤ x)) = true := by simpa using le_total
  have h := List.pairwise_mergeSort htrans htotal (items.map key)
  unfold sortedKeys
  simpa using h

@[simp] theorem length_sortedKeys : (sortedKeys key items).length = items.length := by
  rw [sortedKeys_perm.length_eq, List.length_map]

/-- The keys of a sorted list are the sorted keys. -/
theorem map_eq_sortedKeys {sorted : List α} (hperm : sorted.Perm items)
    (hsorted : sorted.Pairwise fun a b => key a ≤ key b) :
    sorted.map key = sortedKeys key items := by
  refine List.Perm.eq_of_pairwise ?_ ?_ sortedKeys_pairwise
    ((hperm.map key).trans sortedKeys_perm.symm)
  · intro a b _ _ hab hba
    exact le_antisymm hab hba
  · exact List.pairwise_map.mpr hsorted

/-- The keys before a cut come no later than the last one of them. -/
theorem le_of_mem_take (ht : (sortedKeys key items)[limit - 1]? = some t) {x : ℤ}
    (hx : x ∈ (sortedKeys key items).take limit) : x ≤ t := by
  obtain ⟨j, hj, rfl⟩ := List.mem_iff_getElem.mp hx
  obtain ⟨hlimit, rfl⟩ := List.getElem?_eq_some_iff.mp ht
  rw [List.length_take] at hj
  rw [List.getElem_take]
  rcases Nat.lt_or_ge j (limit - 1) with hlt | hge
  · exact List.pairwise_iff_getElem.mp sortedKeys_pairwise j (limit - 1) _ _ hlt
  · obtain rfl : j = limit - 1 := by omega
    exact le_rfl

/-- The keys beyond a cut are larger than a key that the first of them is larger than. -/
theorem lt_of_mem_drop (hcut : ∀ t', (sortedKeys key items)[limit]? = some t' → t < t') {x : ℤ}
    (hx : x ∈ (sortedKeys key items).drop limit) : t < x := by
  obtain ⟨j, hj, rfl⟩ := List.mem_iff_getElem.mp hx
  rw [List.length_drop] at hj
  rw [List.getElem_drop]
  have hfirst := hcut _ (List.getElem?_eq_getElem (show limit < _ by omega))
  rcases Nat.eq_zero_or_pos j with rfl | hpos
  · exact hfirst
  · exact hfirst.trans_le (List.pairwise_iff_getElem.mp sortedKeys_pairwise limit (limit + j) _ _
      (by omega))

/-! ### Pages -/

/-- What a page leaves, with the keys on both sides of the cut. -/
theorem IsPage.cut (h : IsPage key limit items page) :
    ∃ rest, (page ++ rest).Perm items ∧
      (page.map key).Perm ((sortedKeys key items).take limit) ∧
      (rest.map key).Perm ((sortedKeys key items).drop limit) := by
  obtain ⟨sorted, hperm, hsorted, hpage⟩ := h
  refine ⟨sorted.drop limit, ?_, ?_, ?_⟩
  · refine (hpage.append_right _).trans ?_
    rwa [List.take_append_drop]
  · rw [← map_eq_sortedKeys hperm hsorted, ← List.map_take]
    exact hpage.map key
  · rw [← map_eq_sortedKeys hperm hsorted, List.map_drop]

theorem IsPage.length (h : IsPage key limit items page) :
    page.length = min limit items.length := by
  obtain ⟨sorted, hperm, -, hpage⟩ := h
  rw [hpage.length_eq, List.length_take, hperm.length_eq]

/-- A page has items only. -/
theorem IsPage.subset (h : IsPage key limit items page) : page ⊆ items := by
  obtain ⟨rest, hrest, -⟩ := h.cut
  intro a ha
  exact hrest.subset (List.mem_append_left _ ha)

/-- A page is all there is exactly if there are no more items than fit in it. -/
theorem IsPage.perm_iff (h : IsPage key limit items page) :
    page.Perm items ↔ items.length ≤ limit := by
  constructor
  · intro hperm
    have hlength := h.length
    rw [hperm.length_eq] at hlength
    omega
  · intro hle
    obtain ⟨sorted, hperm, -, hpage⟩ := h
    rw [List.take_of_length_le (by rwa [hperm.length_eq])] at hpage
    exact hpage.trans hperm

/-- The pages of what a function makes of the items, if it keeps the keys. -/
theorem IsPage.map {key' : β → ℤ} (f : α → β) (hf : ∀ a, key' (f a) = key a)
    (h : IsPage key limit items page) : IsPage key' limit (items.map f) (page.map f) := by
  obtain ⟨sorted, hperm, hsorted, hpage⟩ := h
  refine ⟨sorted.map f, hperm.map f, ?_, ?_⟩
  · rw [List.pairwise_map]
    simpa [hf] using hsorted
  · rw [← List.map_take]
    exact hpage.map f

/-- The keys of a page come no later than the last one before the cut. -/
theorem IsPage.le_of_mem (h : IsPage key limit items page)
    (ht : (sortedKeys key items)[limit - 1]? = some t) {a : α} (ha : a ∈ page) : key a ≤ t := by
  obtain ⟨rest, -, hkeys, -⟩ := h.cut
  exact le_of_mem_take ht (hkeys.subset (List.mem_map_of_mem ha))

/-- One item of a full page has that key. -/
theorem IsPage.exists_last (h : IsPage key limit items page) (hlimit : 0 < limit)
    (ht : (sortedKeys key items)[limit - 1]? = some t) : ∃ a ∈ page, key a = t := by
  obtain ⟨rest, -, hkeys, -⟩ := h.cut
  have htake : t ∈ (sortedKeys key items).take limit := by
    apply List.mem_of_getElem? (i := limit - 1)
    rw [List.getElem?_take_of_lt (by omega), ht]
  exact List.mem_map.mp (hkeys.symm.subset htake)

/-- The largest key is the cursor or a key of the page. -/
theorem lastKey_cases (page : List α) :
    lastKey key cur page = cur ∨ ∃ a ∈ page, key a = lastKey key cur page := by
  induction page generalizing cur with
  | nil => exact Or.inl rfl
  | cons a page ih =>
    show lastKey key (max cur (key a)) page = cur ∨
      ∃ b ∈ a :: page, key b = lastKey key (max cur (key a)) page
    rcases @ih (max cur (key a)) with heq | ⟨b, hb, hkey⟩
    · rw [heq]
      rcases le_total (key a) cur with hle | hle
      · exact Or.inl (max_eq_left hle)
      · exact Or.inr ⟨a, List.mem_cons_self, (max_eq_right hle).symm⟩
    · exact Or.inr ⟨b, List.mem_cons_of_mem _ hb, hkey⟩

/-- The largest key is at least the cursor and the keys of the page. -/
theorem le_lastKey (page : List α) :
    cur ≤ lastKey key cur page ∧ ∀ a ∈ page, key a ≤ lastKey key cur page := by
  induction page generalizing cur with
  | nil => exact ⟨le_rfl, fun a ha => nomatch ha⟩
  | cons a page ih =>
    obtain ⟨hcur, hpage⟩ := @ih (max cur (key a))
    refine ⟨(le_max_left _ _).trans hcur, fun b hb => ?_⟩
    rcases List.mem_cons.mp hb with rfl | hb
    · exact (le_max_right _ _).trans hcur
    · exact hpage b hb

/-- The largest key of a full page is the last one before the cut. -/
theorem IsPage.lastKey_eq (h : IsPage key limit items page) (hlimit : 0 < limit)
    (hcur : ∀ a ∈ items, cur ≤ key a) (ht : (sortedKeys key items)[limit - 1]? = some t) :
    lastKey key cur page = t := by
  obtain ⟨a, ha, rfl⟩ := h.exists_last hlimit ht
  apply le_antisymm
  · rcases lastKey_cases page with heq | ⟨b, hb, hkey⟩
    · rw [heq]
      exact hcur a (h.subset ha)
    · rw [← hkey]
      exact h.le_of_mem ht hb
  · exact (le_lastKey page).2 a ha

/-- **A full page and what is read from one past its largest key are all there is exactly if
the cut does not separate equal keys**, and what is read is what lies beyond. -/
theorem IsPage.append_perm_iff (h : IsPage key limit items page)
    (ht : (sortedKeys key items)[limit - 1]? = some t) {read : List α}
    (hread : ∀ a ∈ read, t < key a) :
    (page ++ read).Perm items ↔
      (∀ t', (sortedKeys key items)[limit]? = some t' → t < t') ∧
        read.Perm (items.filter fun a => t < key a) := by
  obtain ⟨rest, hrest, -, hkeys⟩ := h.cut
  -- beyond the largest key of the page, there are only items that the page leaves
  have hpage : page.filter (fun a => t < key a) = [] := by
    rw [List.filter_eq_nil_iff]
    intro a ha
    simpa using h.le_of_mem ht ha
  have hbeyond : (rest.filter fun a => t < key a).Perm (items.filter fun a => t < key a) := by
    have := hrest.filter fun a => t < key a
    rwa [List.filter_append, hpage, List.nil_append] at this
  have hself : (∀ a ∈ rest, t < key a) → rest.filter (fun a => t < key a) = rest := by
    intro hall
    exact List.filter_eq_self.mpr fun a ha => by simpa using hall a ha
  constructor
  · intro hperm
    have hsame : read.Perm rest :=
      (List.perm_append_left_iff page).mp (hperm.trans hrest.symm)
    have hall : ∀ a ∈ rest, t < key a := fun a ha => hread a (hsame.symm.subset ha)
    refine ⟨?_, ?_⟩
    · intro t' ht'
      -- the first key beyond the cut is one of an item that was read
      have hmem : t' ∈ (sortedKeys key items).drop limit := by
        apply List.mem_of_getElem? (i := 0)
        rwa [List.getElem?_drop, Nat.add_zero]
      obtain ⟨a, ha, rfl⟩ := List.mem_map.mp (hkeys.symm.subset hmem)
      exact hall a ha
    · rw [hself hall] at hbeyond
      exact hsame.trans hbeyond
  · rintro ⟨hcut, hperm⟩
    have hall : ∀ a ∈ rest, t < key a := by
      intro a ha
      exact lt_of_mem_drop hcut (hkeys.subset (List.mem_map_of_mem ha))
    rw [hself hall] at hbeyond
    exact ((hperm.trans hbeyond.symm).append_left page).trans hrest

/-! ### The pages one after the other -/

/-- The keys that lie beyond a clean cut are those that the page leaves. -/
theorem sortedKeys_beyond (ht : (sortedKeys key items)[limit - 1]? = some t)
    (hcut : ∀ t', (sortedKeys key items)[limit]? = some t' → t < t') :
    sortedKeys key (items.filter fun a => t < key a) = (sortedKeys key items).drop limit := by
  have htake : ((sortedKeys key items).take limit).filter (fun x => t < x) = [] := by
    rw [List.filter_eq_nil_iff]
    intro x hx
    simpa using le_of_mem_take ht hx
  have hdrop : ((sortedKeys key items).drop limit).filter (fun x => t < x)
      = (sortedKeys key items).drop limit := by
    rw [List.filter_eq_self]
    intro x hx
    simpa using lt_of_mem_drop hcut hx
  have hkeys : (sortedKeys key (items.filter fun a => t < key a)).Perm
      ((sortedKeys key items).drop limit) := by
    have hsplit : (sortedKeys key items).filter (fun x => t < x)
        = (sortedKeys key items).drop limit := by
      conv_lhs => rw [← List.take_append_drop limit (sortedKeys key items)]
      rw [List.filter_append, htake, hdrop, List.nil_append]
    have hmap : (items.filter fun a => t < key a).map key
        = (items.map key).filter (fun x => t < x) := by
      rw [List.filter_map]
      rfl
    rw [← hsplit]
    exact sortedKeys_perm.trans (hmap ▸ (sortedKeys_perm.filter _).symm)
  -- both are in order, so it is enough that they are the same up to order
  refine List.Perm.eq_of_pairwise ?_ sortedKeys_pairwise
    (sortedKeys_pairwise.sublist (List.drop_sublist _ _)) hkeys
  intro x y _ _ hxy hyx
  exact le_antisymm hxy hyx

/-- Keys that fit in one page are not cut. -/
theorem noCut_of_length_le {keys : List ℤ} {start : ℤ} (h : keys.length ≤ limit) :
    NoCut limit start keys := by
  intro k t t' _ ht'
  have hlt := (List.getElem?_eq_some_iff.mp ht').1
  have hpage : limit ≤ limit * (k + 1) := Nat.le_mul_of_pos_right limit k.succ_pos
  omega

theorem pageEnd (hlimit : 0 < limit) (k : ℕ) :
    limit * (k + 1 + 1) - 1 = limit + (limit * (k + 1) - 1) := by
  have hpos : 0 < limit * (k + 1) := Nat.mul_pos hlimit k.succ_pos
  rw [Nat.mul_succ limit (k + 1)]
  omega

/-- The cursor after the first page, and those that follow it. -/
theorem cursorAt_succ {keys : List ℤ} {start : ℤ} (hlimit : 0 < limit)
    (ht : keys[limit - 1]? = some t) {k : ℕ} (hk : limit * (k + 1) < keys.length) :
    cursorAt limit start keys (k + 1) = cursorAt limit (t + 1) (keys.drop limit) k := by
  cases k with
  | zero =>
    rw [cursorAt, cursorAt, List.getD_eq_getElem?_getD, Nat.zero_add, Nat.mul_one, ht,
      Option.getD_some]
  | succ j =>
    have hend : limit * (j + 1 + 1) - 1 < keys.length := by omega
    rw [cursorAt, cursorAt, List.getD_eq_getElem?_getD, List.getD_eq_getElem?_getD,
      List.getElem?_drop, ← pageEnd hlimit, List.getElem?_eq_getElem hend, Option.getD_some,
      Option.getD_some]

/-- The pages after a first one that is full begin where it ends. -/
theorem noCut_iff {keys : List ℤ} {start : ℤ} (hlimit : 0 < limit)
    (ht : keys[limit - 1]? = some t) :
    NoCut limit start keys ↔
      (∀ t', keys[limit]? = some t' → t < t' ∧ start < t) ∧
        NoCut limit (t + 1) (keys.drop limit) := by
  have hnext : ∀ k, limit * (k + 1 + 1) = limit + limit * (k + 1) := fun k => by
    rw [Nat.mul_add_one, Nat.add_comm]
  constructor
  · intro h
    refine ⟨fun t' ht' => ?_, fun k s s' hs hs' => ?_⟩
    · exact h 0 t t' (by simpa using ht) (by simpa using ht')
    · rw [List.getElem?_drop, ← pageEnd hlimit] at hs
      rw [List.getElem?_drop, ← hnext] at hs'
      have hlt := (List.getElem?_eq_some_iff.mp hs').1
      rw [← cursorAt_succ hlimit ht (by rw [hnext] at hlt; omega)]
      exact h (k + 1) s s' hs hs'
  · rintro ⟨hfirst, hrest⟩ k s s' hs hs'
    -- page `k + 1` is page `k` of those that follow the first
    cases k with
    | zero =>
      rw [Nat.zero_add, Nat.mul_one] at hs hs'
      obtain rfl : t = s := by simpa [ht] using hs
      exact hfirst s' hs'
    | succ k =>
      have hlt := (List.getElem?_eq_some_iff.mp hs').1
      rw [cursorAt_succ hlimit ht (by rw [hnext] at hlt; omega)]
      rw [pageEnd hlimit, ← List.getElem?_drop] at hs
      rw [hnext, ← List.getElem?_drop] at hs'
      exact hrest k s s' hs hs'

end MediaHub

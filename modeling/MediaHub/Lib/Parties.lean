import Mathlib.Data.List.Perm.Basic
import Mathlib.Data.List.Flatten

/-!
# Parties that hold things

The states of the parties of a system are a list, and each of them holds some things.  A
step of one party exchanges what that party holds and leaves the rest.

## Main definitions

* `holdings` — all that the parties hold.

## Main results

* `perm_holdings_set` — **the balance of a step of one party.**
-/

namespace MediaHub

variable {α β : Type*} {f : α → List β} {l : List α} {i : ℕ} {a b : α} {x : β}

/-- All that the parties hold. -/
def holdings (f : α → List β) (l : List α) : List β := l.flatMap f

@[simp] theorem mem_holdings : x ∈ holdings f l ↔ ∃ a ∈ l, x ∈ f a := List.mem_flatMap

theorem mem_holdings_of (hi : l[i]? = some a) (hx : x ∈ f a) : x ∈ holdings f l :=
  mem_holdings.mpr ⟨a, List.mem_of_getElem? hi, hx⟩

/-- A party changes from `a` to `b`: it gives what it held as `a` and takes what it holds
as `b`. -/
theorem perm_holdings_set (hi : l[i]? = some a) :
    (holdings f (l.set i b) ++ f a).Perm (holdings f l ++ f b) := by
  obtain ⟨hlt, rfl⟩ := List.getElem?_eq_some_iff.mp hi
  have hl : l = l.take i ++ l[i] :: l.drop (i + 1) := by
    rw [List.getElem_cons_drop, List.take_append_drop]
  have hset : l.set i b = l.take i ++ b :: l.drop (i + 1) :=
    List.set_eq_take_append_cons_drop.trans (if_pos hlt)
  have hsplit : ∀ c, holdings f (l.take i ++ c :: l.drop (i + 1))
      = holdings f (l.take i) ++ (f c ++ holdings f (l.drop (i + 1))) := by
    intro c
    simp only [holdings, List.flatMap_append, List.flatMap_cons]
  rw [hset, hsplit]
  conv_rhs => rw [hl, hsplit]
  simp only [List.append_assoc]
  refine List.Perm.append_left _ ?_
  have hswap : (f b ++ (holdings f (l.drop (i + 1)) ++ f l[i])).Perm
      (f l[i] ++ holdings f (l.drop (i + 1)) ++ f b) :=
    (List.perm_append_comm.append_left (f b)).trans List.perm_append_comm
  rwa [List.append_assoc] at hswap

/-- A party that holds nothing before or after leaves all that is held. -/
theorem perm_holdings_set_of_eq (hi : l[i]? = some a) (hab : f a = f b) :
    (holdings f (l.set i b)).Perm (holdings f l) :=
  (List.perm_append_right_iff (f b)).mp
    (by simpa [hab] using perm_holdings_set (f := f) (b := b) hi)

/-- A party takes `f b`, and held nothing before. -/
theorem perm_holdings_take (hi : l[i]? = some a) (ha : f a = []) :
    (holdings f (l.set i b)).Perm (holdings f l ++ f b) := by
  simpa [ha] using perm_holdings_set (f := f) (b := b) hi

/-- A party gives what it held, and holds nothing after. -/
theorem perm_holdings_give (hi : l[i]? = some a) (hb : f b = []) :
    (holdings f (l.set i b) ++ f a).Perm (holdings f l) := by
  simpa [hb] using perm_holdings_set (f := f) (b := b) hi

/-- A party is what it has changed to. -/
theorem getElem?_set_party (hi : l[i]? = some a) : (l.set i b)[i]? = some b :=
  List.getElem?_set_self (List.getElem?_eq_some_iff.mp hi).1

/-- A party with a property is still there after a step of a party that keeps it. -/
theorem exists_party_set {P : ℕ → α → Prop} (h : ∃ j c, l[j]? = some c ∧ P j c)
    (hi : l[i]? = some a) (hkeep : P i a → P i b) :
    ∃ j c, (l.set i b)[j]? = some c ∧ P j c := by
  obtain ⟨j, c, hj, hc⟩ := h
  rcases eq_or_ne i j with rfl | hne
  · have hac : a = c := Option.some.inj (hi.symm.trans hj)
    exact ⟨i, b, getElem?_set_party hi, hkeep (hac ▸ hc)⟩
  · exact ⟨j, c, by rw [List.getElem?_set_ne hne]; exact hj, hc⟩

theorem exists_mem_set {P : α → Prop} (h : ∃ c ∈ l, P c) (hi : l[i]? = some a)
    (hkeep : P a → P b) : ∃ c ∈ l.set i b, P c := by
  obtain ⟨c, hc, hP⟩ := h
  obtain ⟨j, hj⟩ := List.getElem?_of_mem hc
  obtain ⟨k, d, hk, hd⟩ := exists_party_set (P := fun _ => P) ⟨j, c, hj, hP⟩ hi hkeep
  exact ⟨d, List.mem_of_getElem? hk, hd⟩

/-- What holds of all parties holds after a step of one that keeps it. -/
theorem forall_mem_set {P : α → Prop} (h : ∀ c ∈ l, P c) (hb : P b) : ∀ c ∈ l.set i b, P c := by
  intro c hc
  rcases List.mem_or_eq_of_mem_set hc with hc | rfl
  · exact h c hc
  · exact hb

end MediaHub

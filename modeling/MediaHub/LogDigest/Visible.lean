import MediaHub.LogDigest.Redact

/-!
# What the pattern for credentials leaves visible

A match is a text that is kept and a run of characters that goes.  What stands for the run
would itself be taken for a value where it stands, so a text never looks as if something was
hidden in it that the pattern does not hide.  Hence two texts look the same if and only if
their matches are at the same places, keep the same, and leave the same around them.

## Main definitions

* `HidesFirst` — the first match of a text.
* `Alike` — two texts differ only in what their matches hide, one after the other.

## Main results

* `secret_match`, `secret_ne_nil` — what a match is, and where there is one.
* `redact_eq_iff` — **two texts look the same exactly if they are alike.**
* `redact_spaces` — white space around a text stays around it.
-/

namespace MediaHub
namespace LogDigest

open Regex Re

/-! ### The parts of a match -/

/-- The pattern may keep the text. -/
def IsLead (g : Text) : Prop := ⟨g.length, []⟩ ∈ lead.run none g

/-- A match is what is kept, and at least four characters that do not end a value. -/
theorem secret_match {prev : Option Char} {t : Text} {m : Match Char}
    (h : m ∈ secret.run prev t) : ∃ g y u, t = g ++ (y ++ u) ∧ m = ⟨(g ++ y).length, [g]⟩ ∧
      IsLead g ∧ 4 ≤ y.length ∧ ∀ c ∈ y, runChar c = true := by
  obtain ⟨k, hk, l, hl, rfl⟩ := mem_run_seq.mp h
  obtain ⟨j, hj, rfl⟩ := List.mem_map.mp hk
  have hjl := (length_le_of_mem_run hj).1
  have hgroups := groups_of_mem_run (by decide) hj
  have hll := length_le_of_mem_run hl
  obtain ⟨n, hn, rfl⟩ := List.mem_map.mp hl
  have hn' : n ≤ (t.drop j.length).length := hll.1
  refine ⟨t.take j.length, (t.drop j.length).take n, (t.drop j.length).drop n, ?_, ?_, ?_, ?_, ?_⟩
  · rw [List.take_append_drop, List.take_append_drop]
  · simp only [Match.append, hgroups, List.length_append, List.length_take,
      Nat.min_eq_left hjl, Nat.min_eq_left hn', List.append_nil]
  · -- the kept part is one without what follows it
    rw [run_prev (by decide) prev none, ← List.take_append_drop j.length t,
      List.take_append_drop] at hj
    rw [IsLead, run_eq_filter (by decide) none _ (t.drop j.length), List.take_append_drop,
      List.length_take, Nat.min_eq_left hjl, List.mem_filter]
    refine ⟨?_, Match.endsBy_iff.mpr le_rfl⟩
    rw [← hgroups]
    exact hj
  · rw [List.length_take, Nat.min_eq_left hll.1]
    exact (mem_repeats hn).1
  · exact hll.2

/-- Where at least four characters that do not end a value follow what may be kept, there is a
match. -/
theorem secret_ne_nil {g z : Text} (hg : IsLead g) (hz : 4 ≤ (z.takeWhile runChar).length)
    (prev : Option Char) : secret.run prev (g ++ z) ≠ [] := by
  have hlead : ⟨g.length, [g]⟩ ∈ (Regex.group lead).run prev (g ++ z) := by
    have hmem := mem_run_append (by decide) hg z
    rw [run_prev (by decide) none prev] at hmem
    refine List.mem_map.mpr ⟨⟨g.length, []⟩, hmem, ?_⟩
    rw [List.take_left]
  have hvalue : ∀ prev, value.first prev z = some ⟨(z.takeWhile runChar).length, []⟩ := by
    intro prev
    have hmany : value.first prev (z.takeWhile runChar ++ z.dropWhile runChar) =
        some ⟨(z.takeWhile runChar).length, []⟩ := by
      refine first_many (fun c hc => List.mem_takeWhile_imp hc) ?_ hz
      intro c hc
      have := List.head?_dropWhile_not runChar z
      rw [hc] at this
      simpa using this
    rwa [List.takeWhile_append_dropWhile] at hmany
  refine List.ne_nil_of_mem
    (mem_run_seq.mpr ⟨_, hlead, ⟨(z.takeWhile runChar).length, []⟩, ?_, rfl⟩)
  rw [List.drop_left]
  exact List.mem_of_head? (hvalue _)

/-- What stands for a value does not begin within what may be kept. -/
theorem notMem_lead {g : Text} (hg : IsLead g) : '<' ∉ g := by
  intro hmem
  have htakes := (length_le_of_mem_run hg).2 '<' (by rwa [List.take_length])
  revert htakes
  decide

/-! ### The first match -/

/-- The first match of `p ++ (g ++ (y ++ u))` begins behind `p`, keeps `g` and hides `y`. -/
structure HidesFirst (p g y u : Text) : Prop where
  free : secret.Free none p (g ++ (y ++ u))
  first : secret.first none (g ++ (y ++ u)) = some ⟨(g ++ y).length, [g]⟩

/-- Two texts differ only in what their matches hide, one after the other. -/
inductive Alike : Text → Text → Prop
  /-- The rest is the same. -/
  | same (s : Text) : Alike s s
  /-- The first matches begin at the same place and keep the same. -/
  | hidden {p g y u y' u' : Text} (h : HidesFirst p g y u) (h' : HidesFirst p g y' u')
      (rest : Alike u u') : Alike (p ++ (g ++ (y ++ u))) (p ++ (g ++ (y' ++ u')))

namespace HidesFirst

variable {p g y u : Text}

/-- The parts of the first match. -/
theorem parts (h : HidesFirst p g y u) :
    IsLead g ∧ 4 ≤ y.length ∧ ∀ c ∈ y, runChar c = true := by
  obtain ⟨g', y', u', ht, hm, hlead, hlong, hrun⟩ := secret_match (List.mem_of_head? h.first)
  obtain ⟨hlen, hgroups⟩ := Match.mk.inj hm
  obtain rfl : g = g' := (List.cons.inj hgroups).1
  obtain ⟨rfl, rfl⟩ := List.append_inj (List.append_cancel_left ht)
    (by simpa using hlen)
  exact ⟨hlead, hlong, hrun⟩

/-- What becomes of a text with a first match. -/
theorem redact_eq (h : HidesFirst p g y u) :
    redact (p ++ (g ++ (y ++ u))) = p ++ (g ++ ("<redacted>".toList ++ redact u)) := by
  obtain ⟨hscan, hpending⟩ := @scan_of_free _ _ hide _ _ _ h.free
  have hne : g ++ y ≠ [] := by
    intro hnil
    have hlong := h.parts.2.1
    rw [(List.append_eq_nil_iff.mp hnil).2] at hlong
    cases hlong
  have hfirst : secret.first (endOf none p) (g ++ y ++ u) = some ⟨(g ++ y).length, [g]⟩ := by
    rw [Regex.first, run_prev (by decide) _ none, List.append_assoc]
    exact h.first
  rw [redact, sub, scan_append, List.append_nil, hscan, hpending, ← List.append_assoc g,
    scan_of_first hne hfirst, scan_prev (by decide) 0 _ none]
  simp only [hide, List.headD_cons, List.append_assoc]
  rfl

/-- The run behind what is kept. -/
theorem long (h : HidesFirst p g y u) : 4 ≤ ((y ++ u).takeWhile runChar).length := by
  obtain ⟨-, hlong, hrun⟩ := h.parts
  rw [List.takeWhile_append_of_pos hrun, List.length_append]
  omega

/-- No match begins before the first one. -/
theorem le_of_lead {q f z : Text} (h : HidesFirst p g y u) (hf : IsLead f)
    (hz : 4 ≤ (z.takeWhile runChar).length) (heq : p ++ (g ++ (y ++ u)) = q ++ (f ++ z)) :
    p.length ≤ q.length := by
  by_contra hlt
  rcases List.append_eq_append_iff.mp heq with ⟨e, rfl, -⟩ | ⟨e, rfl, hrest⟩
  · simp at hlt
  · have hne : e ≠ [] := by
      rintro rfl
      simp at hlt
    have hnil := h.free q e rfl hne
    rw [← hrest] at hnil
    exact secret_ne_nil hf hz _ hnil

end HidesFirst

/-- A text has no match, or a first one. -/
theorem hidesFirst_cases (s : Text) :
    (redact s = s ∧ ∀ p t, s = p ++ t → secret.run none t = []) ∨
      ∃ p g y u, s = p ++ (g ++ (y ++ u)) ∧ HidesFirst p g y u := by
  rcases exists_first secret none s with hnone | ⟨p, t, m, rfl, hfree, hm⟩
  · refine Or.inl ⟨sub_of_search hnone, ?_⟩
    intro p t hs
    by_contra hne
    have hsome : secret.searchFrom none s = true :=
      searchFrom_iff.mpr ⟨p, t, hs, by rwa [run_prev (by decide) _ none]⟩
    rw [hsome] at hnone
    cases hnone
  · rw [Regex.first, run_prev (by decide) _ none] at hm
    obtain ⟨g, y, u, rfl, rfl, -⟩ := secret_match (List.mem_of_head? hm)
    exact Or.inr ⟨p, g, y, u, rfl, hfree, hm⟩

/-! ### What looks hidden is hidden -/

/-- What stands for a value is long enough for one, also if it is only begun and a value
follows. -/
theorem long_redacted {e z w w' : Text} (h : "<redacted>".toList ++ w = e ++ w')
    (hz : 4 ≤ (z.takeWhile runChar).length) : 4 ≤ ((e ++ z).takeWhile runChar).length := by
  have hall : ∀ c ∈ "<redacted>".toList, runChar c = true := forall_mem_of_all (by decide)
  rcases List.append_eq_append_iff.mp h with ⟨f, rfl, -⟩ | ⟨f, hf, -⟩
  · rw [List.append_assoc, List.takeWhile_append_of_pos hall, List.length_append]
    exact Nat.le_trans (by decide) (Nat.le_add_right _ _)
  · have he : ∀ c ∈ e, runChar c = true := fun c hc =>
      hall c (by rw [hf]; exact List.mem_append_left _ hc)
    rw [List.takeWhile_append_of_pos he, List.length_append]
    omega

variable {p g y u : Text}

/-- Where a text looks as if something was hidden behind what may be kept, its first match does
not keep more. -/
theorem HidesFirst.length_le {q f w : Text} (h : HidesFirst p g y u) (hf : IsLead f)
    (hlook : redact (p ++ (g ++ (y ++ u))) = q ++ (f ++ ("<redacted>".toList ++ w))) :
    (p ++ g).length ≤ (q ++ f).length := by
  by_contra hlt
  rw [h.redact_eq, ← List.append_assoc p, ← List.append_assoc q] at hlook
  -- what may be kept ends first, so what stands for a value would begin within the match
  rcases List.append_eq_append_iff.mp hlook with ⟨e, he, -⟩ | ⟨e, he, hrest⟩
  · exact hlt (by rw [he]; simp)
  · have htext : p ++ (g ++ (y ++ u)) = q ++ (f ++ (e ++ (y ++ u))) := by
      rw [← List.append_assoc p, he]
      simp only [List.append_assoc]
    have hle := h.le_of_lead hf (long_redacted hrest h.long) htext
    cases e with
    | nil =>
      rw [he, List.append_nil] at hlt
      exact hlt le_rfl
    | cons c e =>
      obtain rfl : '<' = c := (List.cons.inj hrest).1
      -- so the match begins before it, and takes it into what is kept
      have hsplit : p ++ g = q ++ f ++ '<' :: e := he
      rcases List.append_eq_append_iff.mp hsplit with ⟨d, -, hd⟩ | ⟨d, hd, hd'⟩
      · exact notMem_lead h.parts.1 (by rw [hd]; simp)
      · obtain rfl : d = [] := by
          rw [hd, List.length_append, List.length_append] at hle
          exact List.eq_nil_of_length_eq_zero (by omega)
        exact notMem_lead h.parts.1 (by rw [show g = '<' :: e from hd'.symm]; simp)

/-- Where a text looks as if something was hidden behind what may be kept, it has a match. -/
theorem ne_of_lead {q f w : Text} (hf : IsLead f)
    (hnone : ∀ p t, q ++ (f ++ ("<redacted>".toList ++ w)) = p ++ t → secret.run none t = []) :
    False := by
  have hten : 4 ≤ (("<redacted>".toList ++ w).takeWhile runChar).length := by
    have hall : ∀ c ∈ "<redacted>".toList, runChar c = true := forall_mem_of_all (by decide)
    rw [List.takeWhile_append_of_pos hall, List.length_append]
    exact Nat.le_trans (by decide) (Nat.le_add_right _ _)
  exact secret_ne_nil hf hten none (hnone q _ rfl)

/-- **Two texts look the same exactly if they are alike.** -/
theorem redact_eq_iff {s s' : Text} : redact s = redact s' ↔ Alike s s' := by
  constructor
  · intro h
    induction hn : s.length using Nat.strong_induction_on generalizing s s' with
    | _ n ih =>
      rcases hidesFirst_cases s with ⟨hs, hnone⟩ | ⟨p, g, y, u, rfl, hfirst⟩
      · rcases hidesFirst_cases s' with ⟨hs', -⟩ | ⟨p', g', y', u', rfl, hfirst'⟩
        · rw [hs, hs'] at h
          exact h ▸ Alike.same s
        · rw [hs, hfirst'.redact_eq] at h
          exact (ne_of_lead hfirst'.parts.1 fun p t ht => hnone p t (h.trans ht)).elim
      · rcases hidesFirst_cases s' with ⟨hs', hnone'⟩ | ⟨p', g', y', u', rfl, hfirst'⟩
        · rw [hs', hfirst.redact_eq] at h
          exact (ne_of_lead hfirst.parts.1 fun p t ht => hnone' p t (h.symm.trans ht)).elim
        · -- what is kept of the two texts up to their first matches is equally long
          have hle := hfirst.length_le hfirst'.parts.1 (h.trans hfirst'.redact_eq)
          have hle' := hfirst'.length_le hfirst.parts.1 (h.symm.trans hfirst.redact_eq)
          rw [hfirst.redact_eq, hfirst'.redact_eq, ← List.append_assoc p, ← List.append_assoc p']
            at h
          obtain ⟨hkept, hrest⟩ := List.append_inj h (le_antisymm hle hle')
          have hstart : p.length = p'.length := by
            refine le_antisymm (hfirst.le_of_lead hfirst'.parts.1 hfirst.long ?_)
              (hfirst'.le_of_lead hfirst.parts.1 hfirst'.long ?_)
            · rw [← List.append_assoc, hkept, List.append_assoc]
            · rw [← List.append_assoc, ← hkept, List.append_assoc]
          obtain ⟨rfl, rfl⟩ := List.append_inj hkept hstart
          refine Alike.hidden hfirst hfirst' (ih _ ?_ (List.append_cancel_left hrest) rfl)
          have hlong := hfirst.parts.2.1
          rw [← hn]
          simp only [List.length_append]
          omega
  · intro h
    induction h with
    | same s => rfl
    | hidden h h' _ ih => rw [h.redact_eq, h'.redact_eq, ih]

/-! ### White space around a text -/

/-- White space is within no match that begins before it and ends in it. -/
theorem pending_spaces {w : Text} (hw : ∀ c ∈ w, isspace c = true) (s : Text) :
    secret.pending 0 none s w = 0 := by
  refine pending_eq_zero ?_ (Nat.zero_le _) none
  rintro p s₂ - prev m hm
  obtain ⟨g, y, x, heq, rfl, -, hlong, hrun⟩ := secret_match hm
  by_contra hlt
  rw [← List.append_assoc] at heq
  rcases List.append_eq_append_iff.mp heq with ⟨e, he, hx⟩ | ⟨e, he, -⟩
  · -- the last character of the match would be white space
    have hy : y ≠ [] := by
      rintro rfl
      cases hlong
    have hne : e ≠ [] := by
      rintro rfl
      rw [he, List.append_nil] at hlt
      exact hlt le_rfl
    obtain ⟨c, hc⟩ : ∃ c, y.getLast? = some c := ⟨_, List.getLast?_eq_some_getLast hy⟩
    have hlast : e.getLast? = some c := by
      have hends := congrArg List.getLast? he
      rw [List.getLast?_append_of_ne_nil _ hne, List.getLast?_append_of_ne_nil _ hy, hc] at hends
      exact hends.symm
    have hspace := hw c (by rw [hx]; exact List.mem_append_left _ (List.mem_of_getLast? hlast))
    have hstop := (isspace_plain c (of_decide_eq_true hspace)).2
    rw [hrun c (List.mem_of_getLast? hc)] at hstop
    cases hstop
  · exact hlt (by rw [he]; simp)

/-- **White space around a text stays around it.** -/
theorem redact_spaces {w w' : Text} (hw : ∀ c ∈ w, isspace c = true)
    (hw' : ∀ c ∈ w', isspace c = true) (s : Text) :
    redact (w ++ (s ++ w')) = w ++ (redact s ++ w') := by
  have hstart : ∀ c ∈ spaces, secret.canStart c = false := forall_mem_of_all (by decide)
  have hfree : ∀ {w : Text}, (∀ c ∈ w, isspace c = true) →
      ∀ c ∈ w, secret.canStart c = false := fun h c hc => hstart c (of_decide_eq_true (h c hc))
  have htail : redact (s ++ w') = redact s ++ w' := by
    rw [redact, redact, sub, sub, scan_append, List.append_nil, pending_spaces hw',
      scan_of_canStart (by decide) (hfree hw')]
    congr 1
    exact @scan_congr _ _ _ _ _ _ [] w' [] (Nat.zero_le _) (pending_spaces hw' s)
      (pending_spaces (by simp) s)
  have hhead : redact (w ++ (s ++ w')) = w ++ redact (s ++ w') := by
    rw [redact, redact, sub, sub, scan_append, List.append_nil,
      pending_of_canStart (by decide) (hfree hw), scan_of_canStart (by decide) (hfree hw),
      scan_prev (by decide) 0 _ none]
  rw [hhead, htail]

end LogDigest
end MediaHub

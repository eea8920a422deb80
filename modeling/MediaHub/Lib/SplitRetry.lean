import Mathlib.Data.List.Basic

/-!
# Split and retry

A batch of work is attempted.  An attempt that fails is recovered from; then the same
batch is tried again while it has retries left, or it is split in two halves that are
done one after the other, or the failure is final.  The state is whatever attempts and
recoveries change, and failed attempts leave their traces in it.

## Main definitions

* `SplitRetry` — what an attempt does, and what a recovery does.
* `SplitRetry.Run` — the finished runs.
* `SplitRetry.Rules` — a relation that every step respects, and a relation that holds
  between the states before and after a batch that was done.
* `SplitRetry.Logged` — a log of the attempts.
* `SplitRetry.Passes` — the states that a run passes on its way.
* `SplitRetry.Keeps` — an invariant of the steps.
* `SplitRetry.Books` — a log of the batches that were accepted.

## Main results

* `SplitRetry.Run.related` — **every run respects the first relation**.
* `SplitRetry.Run.done` — **a run that ends without a failure meets the second one**.
* `SplitRetry.Run.sent_le` — **the attempts of a run are bounded by the size of its batch**.
* `SplitRetry.Passes.invariant` — what attempts and recoveries keep holds all along a run.
* `SplitRetry.Run.divides` — **the accepted batches of a run that was done are the pieces
  of its batch**, in order.
-/

namespace MediaHub

/-- What attempts and recoveries do. -/
structure SplitRetry (α σ ε : Type*) where
  /-- An attempt, with the failure unless it was accepted. -/
  attempt : List α → σ → Option ε × σ
  /-- The recovery from a failure: whether the same batch is to be tried again. -/
  recover : ε → σ → Except ε Bool × σ
  /-- The retries of a batch. -/
  retries : ℕ

namespace SplitRetry

variable {α σ ε : Type*}

/-- The finished runs of a batch with some retries left: the failure in which they end,
if any, and the states before and after them. -/
inductive Run (T : SplitRetry α σ ε) : List α → ℕ → σ → Option ε → σ → Prop
  | accept {b r s s'} : T.attempt b s = (none, s') → Run T b r s none s'
  | abort {b r s e s₁ e' s₂} : T.attempt b s = (some e, s₁) →
      T.recover e s₁ = (.error e', s₂) → Run T b r s (some e') s₂
  | again {b r s e s₁ same s₂ o s'} : T.attempt b s = (some e, s₁) →
      T.recover e s₁ = (.ok same, s₂) → (same = true ∨ b.length ≤ 1) →
      Run T b r s₂ o s' → Run T b (r + 1) s o s'
  | firstFails {b r s e s₁ same s₂ e' s'} : T.attempt b s = (some e, s₁) →
      T.recover e s₁ = (.ok same, s₂) → (same = false ∨ r = 0) → 1 < b.length →
      Run T (b.take (b.length / 2)) T.retries s₂ (some e') s' → Run T b r s (some e') s'
  | split {b r s e s₁ same s₂ s₃ o s'} : T.attempt b s = (some e, s₁) →
      T.recover e s₁ = (.ok same, s₂) → (same = false ∨ r = 0) → 1 < b.length →
      Run T (b.take (b.length / 2)) T.retries s₂ none s₃ →
      Run T (b.drop (b.length / 2)) T.retries s₃ o s' → Run T b r s o s'
  | giveUp {b s e s₁ same s₂} : T.attempt b s = (some e, s₁) →
      T.recover e s₁ = (.ok same, s₂) → b.length ≤ 1 → Run T b 0 s (some e) s₂

/-- The states that a run of a batch passes. -/
inductive Passes (T : SplitRetry α σ ε) : List α → ℕ → σ → σ → Prop
  | start {b r s} : Passes T b r s s
  | attempted {b r s o s₁} : T.attempt b s = (o, s₁) → Passes T b r s s₁
  | recovered {b r s e s₁ next s₂} : T.attempt b s = (some e, s₁) →
      T.recover e s₁ = (next, s₂) → Passes T b r s s₂
  | again {b r s e s₁ same s₂ m} : T.attempt b s = (some e, s₁) →
      T.recover e s₁ = (.ok same, s₂) → Passes T b r s₂ m → Passes T b (r + 1) s m
  | first {b r s e s₁ same s₂ m} : T.attempt b s = (some e, s₁) →
      T.recover e s₁ = (.ok same, s₂) → 1 < b.length →
      Passes T (b.take (b.length / 2)) T.retries s₂ m → Passes T b r s m
  | second {b r s e s₁ same s₂ s₃ m} : T.attempt b s = (some e, s₁) →
      T.recover e s₁ = (.ok same, s₂) → 1 < b.length →
      Run T (b.take (b.length / 2)) T.retries s₂ none s₃ →
      Passes T (b.drop (b.length / 2)) T.retries s₃ m → Passes T b r s m

/-- A relation `R` that every step respects, and a relation `Q` between the states before
and after a batch that was done, for the batches that are `Good`. -/
structure Rules (T : SplitRetry α σ ε) (Good : List α → Prop) (R : σ → σ → Prop)
    (Q : List α → σ → σ → Prop) : Prop where
  /-- Halves of good batches are good. -/
  half {b} : Good b → 1 < b.length →
    Good (b.take (b.length / 2)) ∧ Good (b.drop (b.length / 2))
  /-- The relation of steps composes. -/
  trans {s₁ s₂ s₃} : R s₁ s₂ → R s₂ s₃ → R s₁ s₃
  /-- A failed attempt respects it. -/
  fail {b s e s'} : Good b → T.attempt b s = (some e, s') → R s s'
  /-- A recovery respects it. -/
  recover {e s o s'} : T.recover e s = (o, s') → R s s'
  /-- A batch that was done respects it. -/
  respects {b s s'} : Q b s s' → R s s'
  /-- A batch is done when its attempt is accepted. -/
  accept {b s s'} : Good b → T.attempt b s = (none, s') → Q b s s'
  /-- Steps before a batch is done do not matter. -/
  after {b s₁ s₂ s₃} : R s₁ s₂ → Q b s₂ s₃ → Q b s₁ s₃
  /-- A batch is done when its halves are. -/
  halves {b s₁ s₂ s₃} : Good b → 1 < b.length → Q (b.take (b.length / 2)) s₁ s₂ →
    Q (b.drop (b.length / 2)) s₂ s₃ → Q b s₁ s₃

/-- An invariant of the steps, for the batches that are `Good`. -/
structure Keeps (T : SplitRetry α σ ε) (Good : List α → Prop) (I : σ → Prop) : Prop where
  /-- Halves of good batches are good. -/
  half {b} : Good b → 1 < b.length →
    Good (b.take (b.length / 2)) ∧ Good (b.drop (b.length / 2))
  /-- An attempt keeps it, however it ends. -/
  attempt {b s o s'} : Good b → T.attempt b s = (o, s') → I s → I s'
  /-- A recovery keeps it. -/
  recover {e s next s'} : T.recover e s = (next, s') → I s → I s'

/-- The state has a log in which the accepted batches are entered, and nothing else. -/
structure Books (T : SplitRetry α σ ε) (log : σ → List (List α)) : Prop where
  /-- An accepted batch is entered. -/
  accept {b s s'} : T.attempt b s = (none, s') → log s' = log s ++ [b]
  /-- A failed attempt enters nothing. -/
  fail {b s e s'} : T.attempt b s = (some e, s') → log s' = log s
  /-- A recovery enters nothing. -/
  recover {e s next s'} : T.recover e s = (next, s') → log s' = log s

namespace Run

variable {T : SplitRetry α σ ε} {Good : List α → Prop} {R : σ → σ → Prop}
  {Q : List α → σ → σ → Prop} {b : List α} {r : ℕ} {s s' : σ} {o : Option ε}

/-- What a run leaves, whichever way it ends. -/
theorem related_and_done (rules : Rules T Good R Q) (h : Run T b r s o s') (hb : Good b) :
    R s s' ∧ (o = none → Q b s s') := by
  induction h with
  | accept hattempt =>
    have hdone := rules.accept hb hattempt
    exact ⟨rules.respects hdone, fun _ => hdone⟩
  | abort hattempt hrecover =>
    exact ⟨rules.trans (rules.fail hb hattempt) (rules.recover hrecover), by simp⟩
  | again hattempt hrecover _ _ ih =>
    have hfail := rules.trans (rules.fail hb hattempt) (rules.recover hrecover)
    obtain ⟨hrest, hdone⟩ := ih hb
    exact ⟨rules.trans hfail hrest, fun ho => rules.after hfail (hdone ho)⟩
  | firstFails hattempt hrecover _ hlen _ ih =>
    have hfail := rules.trans (rules.fail hb hattempt) (rules.recover hrecover)
    exact ⟨rules.trans hfail (ih (rules.half hb hlen).1).1, by simp⟩
  | split hattempt hrecover _ hlen _ _ ih₁ ih₂ =>
    have hfail := rules.trans (rules.fail hb hattempt) (rules.recover hrecover)
    obtain ⟨hfirst, hdone₁⟩ := ih₁ (rules.half hb hlen).1
    obtain ⟨hsecond, hdone₂⟩ := ih₂ (rules.half hb hlen).2
    refine ⟨rules.trans hfail (rules.trans hfirst hsecond), ?_⟩
    intro ho
    exact rules.after hfail (rules.halves hb hlen (hdone₁ rfl) (hdone₂ ho))
  | giveUp hattempt hrecover _ =>
    exact ⟨rules.trans (rules.fail hb hattempt) (rules.recover hrecover), by simp⟩

/-- **Every run respects the relation of steps.** -/
theorem related (rules : Rules T Good R Q) (h : Run T b r s o s') (hb : Good b) : R s s' :=
  (related_and_done rules h hb).1

/-- **A run that ends without a failure has done its batch.** -/
theorem done (rules : Rules T Good R Q) (h : Run T b r s none s') (hb : Good b) : Q b s s' :=
  (related_and_done rules h hb).2 rfl

end Run

/-! ### How many attempts a run makes -/

theorem length_take_half (b : List α) : (b.take (b.length / 2)).length = b.length / 2 := by
  rw [List.length_take, Nat.min_eq_left (Nat.div_le_self _ _)]

theorem take_half_ne_nil {b : List α} (hb : 1 < b.length) : b.take (b.length / 2) ≠ [] := by
  rw [← List.length_pos_iff, length_take_half]
  omega

theorem drop_half_ne_nil {b : List α} (hb : 1 < b.length) : b.drop (b.length / 2) ≠ [] := by
  rw [← List.length_pos_iff, List.length_drop]
  omega

/-- The state has a log in which each attempt enters at most one line, and nothing else
does. -/
structure Logged {β : Type*} (T : SplitRetry α σ ε) (log : σ → List β) : Prop where
  /-- An attempt enters at most one line. -/
  attempt {b s o s'} : T.attempt b s = (o, s') → ∃ l, log s' = log s ++ l ∧ l.length ≤ 1
  /-- A recovery enters none. -/
  recover {e s o s'} : T.recover e s = (o, s') → log s' = log s

/-- The attempts that a batch of `n` with `r` retries left can take: its own, and a full
set of them for each of the `2 * (n - 1)` smaller batches it can be split into. -/
def maxAttempts (T : SplitRetry α σ ε) (r n : ℕ) : ℕ := (r + 1) + (T.retries + 1) * (2 * (n - 1))

variable {T : SplitRetry α σ ε} {r n : ℕ}

theorem maxAttempts_pos : 1 ≤ T.maxAttempts r n := by
  rw [maxAttempts]
  omega

theorem maxAttempts_succ : T.maxAttempts (r + 1) n = T.maxAttempts r n + 1 := by
  simp only [maxAttempts]
  omega

/-- One attempt and both halves, with their retries. -/
theorem maxAttempts_halves (hn : 1 < n) :
    1 + (T.maxAttempts T.retries (n / 2) + T.maxAttempts T.retries (n - n / 2))
      ≤ T.maxAttempts r n := by
  have hsmaller : ∀ m, 1 ≤ m →
      T.maxAttempts T.retries m = (T.retries + 1) * (2 * (m - 1) + 1) := by
    intro m hm
    rw [maxAttempts, Nat.mul_add (T.retries + 1), Nat.mul_one, Nat.add_comm]
  rw [hsmaller _ (by omega), hsmaller _ (by omega), ← Nat.mul_add, maxAttempts]
  have hsizes : 2 * (n / 2 - 1) + 1 + (2 * (n - n / 2 - 1) + 1) = 2 * (n - 1) := by omega
  rw [hsizes]
  omega

variable {β : Type*} {log : σ → List β} {b : List α} {s s' s₁ s₂ : σ} {e : ε} {o : Option ε}

/-- A failed attempt, its recovery, and what is sent after it. -/
theorem Logged.then (h : T.Logged log) {next : Except ε Bool} {k : ℕ}
    (hattempt : T.attempt b s = (some e, s₁)) (hrecover : T.recover e s₁ = (next, s₂))
    (hrest : ∃ sent, log s' = log s₂ ++ sent ∧ sent.length ≤ k) :
    ∃ sent, log s' = log s ++ sent ∧ sent.length ≤ 1 + k := by
  obtain ⟨l, hl, hlen⟩ := h.attempt hattempt
  obtain ⟨sent, hsent, hk⟩ := hrest
  refine ⟨l ++ sent, ?_, ?_⟩
  · rw [hsent, h.recover hrecover, hl, List.append_assoc]
  · rw [List.length_append]
    omega

/-- A failed attempt with which the run ends. -/
theorem Logged.last (h : T.Logged log) {next : Except ε Bool}
    (hattempt : T.attempt b s = (some e, s₁)) (hrecover : T.recover e s₁ = (next, s₂)) :
    ∃ sent, log s₂ = log s ++ sent ∧ sent.length ≤ T.maxAttempts r n := by
  obtain ⟨sent, hsent, hlen⟩ :=
    h.then hattempt hrecover ⟨[], (List.append_nil _).symm, Nat.zero_le 0⟩
  exact ⟨sent, hsent, Nat.le_trans hlen maxAttempts_pos⟩

/-- **The attempts of a run are bounded by the size of its batch.** -/
theorem Run.sent_le (h : T.Logged log) (hrun : T.Run b r s o s') :
    b ≠ [] → ∃ sent, log s' = log s ++ sent ∧ sent.length ≤ T.maxAttempts r b.length := by
  induction hrun with
  | accept hattempt =>
    intro _
    obtain ⟨l, hl, hlen⟩ := h.attempt hattempt
    exact ⟨l, hl, Nat.le_trans hlen maxAttempts_pos⟩
  | abort hattempt hrecover =>
    intro _
    exact h.last hattempt hrecover
  | again hattempt hrecover _ _ ih =>
    intro hb
    rw [maxAttempts_succ, Nat.add_comm]
    exact h.then hattempt hrecover (ih hb)
  | firstFails hattempt hrecover _ hlen _ ih =>
    intro _
    obtain ⟨sent, hsent, hle⟩ := h.then hattempt hrecover (ih (take_half_ne_nil hlen))
    rw [length_take_half] at hle
    refine ⟨sent, hsent, Nat.le_trans hle (Nat.le_trans ?_ (maxAttempts_halves hlen))⟩
    exact Nat.add_le_add_left (Nat.le_add_right _ _) 1
  | split hattempt hrecover _ hlen _ _ ih₁ ih₂ =>
    intro _
    obtain ⟨sent₁, hsent₁, hle₁⟩ := ih₁ (take_half_ne_nil hlen)
    obtain ⟨sent₂, hsent₂, hle₂⟩ := ih₂ (drop_half_ne_nil hlen)
    rw [length_take_half] at hle₁
    rw [List.length_drop] at hle₂
    -- what both halves send comes after the attempt at the whole batch
    have hboth := Nat.add_le_add hle₁ hle₂
    rw [← List.length_append] at hboth
    obtain ⟨sent, hsent, hle⟩ := h.then hattempt hrecover
      ⟨sent₁ ++ sent₂, by rw [hsent₂, hsent₁, List.append_assoc], hboth⟩
    exact ⟨sent, hsent, Nat.le_trans hle (maxAttempts_halves hlen)⟩
  | giveUp hattempt hrecover _ =>
    intro _
    exact h.last hattempt hrecover

/-! ### On the way -/

section

variable {T : SplitRetry α σ ε} {Good : List α → Prop} {I : σ → Prop} {b : List α} {r : ℕ}
  {s s' : σ} {o : Option ε}

/-- A run passes the state in which it ends. -/
theorem Run.passes (h : T.Run b r s o s') : T.Passes b r s s' := by
  induction h with
  | accept hattempt => exact .attempted hattempt
  | abort hattempt hrecover => exact .recovered hattempt hrecover
  | again hattempt hrecover _ _ ih => exact .again hattempt hrecover ih
  | firstFails hattempt hrecover _ hlen _ ih => exact .first hattempt hrecover hlen ih
  | split hattempt hrecover _ hlen hfirst _ _ ih =>
    exact .second hattempt hrecover hlen hfirst ih
  | giveUp hattempt hrecover _ => exact .recovered hattempt hrecover

/-- An invariant of the steps holds at the end of every run. -/
theorem Run.invariant (keeps : T.Keeps Good I) (h : T.Run b r s o s') (hb : Good b)
    (hs : I s) : I s' := by
  have rules : T.Rules Good (fun s s' => I s → I s') (fun _ s s' => I s → I s') :=
    { half := keeps.half
      trans := fun h h' hs => h' (h hs)
      fail := fun hb h => keeps.attempt hb h
      recover := fun h => keeps.recover h
      respects := id
      accept := fun hb h => keeps.attempt hb h
      after := fun h h' hs => h' (h hs)
      halves := fun _ _ h h' hs => h' (h hs) }
  exact h.related rules hb hs

/-- **What attempts and recoveries keep holds all along a run.** -/
theorem Passes.invariant (keeps : T.Keeps Good I) (h : T.Passes b r s s') :
    Good b → I s → I s' := by
  induction h with
  | start => exact fun _ hs => hs
  | attempted hattempt => exact fun hb => keeps.attempt hb hattempt
  | recovered hattempt hrecover =>
    exact fun hb hs => keeps.recover hrecover (keeps.attempt hb hattempt hs)
  | again hattempt hrecover _ ih =>
    exact fun hb hs => ih hb (keeps.recover hrecover (keeps.attempt hb hattempt hs))
  | first hattempt hrecover hlen _ ih =>
    intro hb hs
    exact ih (keeps.half hb hlen).1 (keeps.recover hrecover (keeps.attempt hb hattempt hs))
  | second hattempt hrecover hlen hfirst _ ih =>
    intro hb hs
    have hbefore := keeps.recover hrecover (keeps.attempt hb hattempt hs)
    exact ih (keeps.half hb hlen).2 (hfirst.invariant keeps (keeps.half hb hlen).1 hbefore)

/-- All along a run, a log of the attempts only grows. -/
theorem Passes.logged {β : Type*} {log : σ → List β} (h : T.Logged log)
    (hpasses : T.Passes b r s s') : log s <+: log s' := by
  have keeps : T.Keeps (fun _ => True) (log s <+: log ·) :=
    { half := fun _ _ => ⟨trivial, trivial⟩
      attempt := by
        intro b s₁ o s₂ _ hattempt hprefix
        obtain ⟨l, hl, -⟩ := h.attempt hattempt
        exact hprefix.trans ⟨l, hl.symm⟩
      recover := by
        intro e s₁ next s₂ hrecover hprefix
        rwa [h.recover hrecover] }
  have hkept := hpasses.invariant keeps
  exact hkept trivial (List.prefix_refl _)

/-! ### What was accepted -/

variable {log : σ → List (List α)}

/-- **The accepted batches of a run that was done are the pieces of its batch**, in order. -/
theorem Run.divides (h : T.Books log) (hrun : T.Run b r s o s') :
    o = none → ∃ pieces, log s' = log s ++ pieces ∧ pieces.flatten = b ∧
      (b ≠ [] → ∀ p ∈ pieces, p ≠ []) := by
  induction hrun with
  | accept hattempt =>
    intro _
    exact ⟨[_], h.accept hattempt, by simp, by simp⟩
  | abort => simp
  | again hattempt hrecover _ _ ih =>
    intro ho
    obtain ⟨pieces, hlog, hpieces⟩ := ih ho
    exact ⟨pieces, by rw [hlog, h.recover hrecover, h.fail hattempt], hpieces⟩
  | firstFails => simp
  | split hattempt hrecover _ hlen _ _ ih₁ ih₂ =>
    intro ho
    obtain ⟨first, hfirst, hflat₁, hne₁⟩ := ih₁ rfl
    obtain ⟨second, hsecond, hflat₂, hne₂⟩ := ih₂ ho
    refine ⟨first ++ second, ?_, ?_, ?_⟩
    · rw [hsecond, hfirst, h.recover hrecover, h.fail hattempt, List.append_assoc]
    · rw [List.flatten_append, hflat₁, hflat₂, List.take_append_drop]
    · intro _ p hp
      rcases List.mem_append.mp hp with hp | hp
      · exact hne₁ (take_half_ne_nil hlen) p hp
      · exact hne₂ (drop_half_ne_nil hlen) p hp
  | giveUp => simp

/-- All along a run, the accepted batches are pieces of the head of its batch. -/
theorem Passes.divides (h : T.Books log) (hpasses : T.Passes b r s s') :
    ∃ pieces, log s' = log s ++ pieces ∧ pieces.flatten <+: b := by
  induction hpasses with
  | start => exact ⟨[], by simp, List.nil_prefix⟩
  | @attempted b r s o s₁ hattempt =>
    cases o with
    | none => exact ⟨[b], h.accept hattempt, by simp⟩
    | some e => exact ⟨[], by simp [h.fail hattempt], List.nil_prefix⟩
  | recovered hattempt hrecover =>
    exact ⟨[], by simp [h.recover hrecover, h.fail hattempt], List.nil_prefix⟩
  | again hattempt hrecover _ ih =>
    obtain ⟨pieces, hlog, hpieces⟩ := ih
    exact ⟨pieces, by rw [hlog, h.recover hrecover, h.fail hattempt], hpieces⟩
  | first hattempt hrecover _ _ ih =>
    obtain ⟨pieces, hlog, hpieces⟩ := ih
    refine ⟨pieces, by rw [hlog, h.recover hrecover, h.fail hattempt], ?_⟩
    exact hpieces.trans (List.take_prefix _ _)
  | second hattempt hrecover _ hfirst _ ih =>
    obtain ⟨first, hlog₁, hflat, -⟩ := hfirst.divides h rfl
    obtain ⟨pieces, hlog₂, hpieces⟩ := ih
    refine ⟨first ++ pieces, ?_, ?_⟩
    · rw [hlog₂, hlog₁, h.recover hrecover, h.fail hattempt, List.append_assoc]
    · -- the first half is done, and the pieces come from the head of the second one
      obtain ⟨rest, hrest⟩ := hpieces
      refine ⟨rest, ?_⟩
      rw [List.flatten_append, hflat, List.append_assoc, hrest, List.take_append_drop]

end

end SplitRetry
end MediaHub

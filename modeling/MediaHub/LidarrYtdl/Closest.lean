import MediaHub.LidarrYtdl.LastResort
import MediaHub.Lib.FirstLeast

/-!
# Which last resort is kept, and when

Of the files that are offered as a last resort, `_hold_fallback` holds the one nearest to
the expected length.  The held file is used only where no candidate was left unverified:
such a candidate goes first, and if its score is too low or its file cannot be had, the
track fails although a last resort is at hand.

## Main definitions

* `offeredDiff`, `offeredTurns` — the lengths of the files that were offered.
* `Body.Origins` — from which turns the files come that are held or were accepted.
* `usesWhatIsHeld` — the fallback goes well, or there is none before the last resort.

## Main results

* `iterate_origins` — **what the loop holds is the closest of what was offered.**
* `lastResort_used_iff` — **when a track with a last resort does not fail**, and which one
  is kept.
-/

namespace MediaHub
namespace LidarrYtdl

variable {O : Outside} {W : TrackWorld} {b : Body} {ci : ℕ} {c : Candidate} {f : Found} {t : Temp}
  {a : Accepted} {e : Effect} {xs : List Turnout}

/-! ### What a turn records -/

section Frames

variable {reason : String} {attempts : List Attempt}

@[simp] theorem failure_mem_dropHeldUnverified :
    .failure reason attempts ∈ b.dropHeldUnverified.effects ↔
      .failure reason attempts ∈ b.effects := by
  unfold Body.dropHeldUnverified
  split <;> simp

@[simp] theorem failure_mem_dropHeldFallback :
    .failure reason attempts ∈ b.dropHeldFallback.effects ↔
      .failure reason attempts ∈ b.effects := by
  unfold Body.dropHeldFallback
  split <;> simp

@[simp] theorem failure_mem_holdFallback {fb : HeldFallback} :
    .failure reason attempts ∈ (b.holdFallback fb).effects ↔
      .failure reason attempts ∈ b.effects := by
  unfold Body.holdFallback
  split <;> simp

/-- No turn records that the track failed. -/
theorem act_failure_mem : .failure reason attempts ∈ (act O W ci c b f).body.effects ↔
    .failure reason attempts ∈ b.effects := by
  cases f with
  | downloadFailed said =>
    simp only [act, Turned.body_ite]
    cases said <;> simp
  | missing left =>
    simp only [act, Turned.body_ite]
    cases left <;> simp
  | unverified r reason =>
    simp only [act]
    split <;> simp
  | kept r reason how fp =>
    by_cases hreason : reason = ""
    · simp [act, Body.acceptTrackFile, hreason]
    · simp [act, hreason]
  | _ => simp [act]

end Frames

/-- A turn accepts its own file only, and only if it ends the loop with it. -/
theorem act_accepts_mem (h : .accepted a ∈ (act O W ci c b f).body.effects) :
    .accepted a ∈ b.effects ∨ a.temp = .attempt ci ∧ f.accepts = true := by
  cases f with
  | downloadFailed said =>
    simp only [act, Turned.body_ite] at h
    cases said <;> simp at h <;> exact .inl h
  | missing left =>
    simp only [act, Turned.body_ite] at h
    cases left <;> simp at h <;> exact .inl h
  | unverified r reason =>
    simp only [act] at h
    split at h <;> simp at h <;> exact .inl h
  | kept r reason how fp =>
    by_cases hreason : reason = ""
    · simp [act, hreason, Body.acceptTrackFile] at h
      rcases h with h | rfl
      · exact .inl h
      · exact .inr ⟨rfl, by simp [Found.accepts, hreason]⟩
    · simp [act, hreason] at h
      exact .inl h
  | _ =>
    simp [act] at h
    exact .inl h

/-! ### What is held -/

/-- How far the file of a turn is from the expected length. -/
def offeredDiff (W : TrackWorld) (ci : ℕ) : ℚ := |(W.inputs ci).realSec - W.track.expectedSec|

/-- The turns whose files were offered as a last resort. -/
def offeredTurns (xs : List Turnout) : Set ℕ := {ci | ∃ x, xs[ci]? = some x ∧ x.2.offers = true}

theorem mem_offeredTurns_append {n : ℕ} : n ∈ offeredTurns (xs ++ [(c, f)]) ↔
    n ∈ offeredTurns xs ∨ n = xs.length ∧ f.offers = true := by
  show (∃ x, (xs ++ [(c, f)])[n]? = some x ∧ x.2.offers = true) ↔ _
  rcases lt_trichotomy n xs.length with hn | rfl | hn
  · rw [List.getElem?_append_left hn]
    constructor
    · exact .inl
    · rintro (h | ⟨rfl, -⟩)
      · exact h
      · exact absurd hn (lt_irrefl _)
  · have hnone : xs.length ∉ offeredTurns xs := by
      rintro ⟨x, hx, -⟩
      simp at hx
    simp [hnone]
  · have hbefore : n ∉ offeredTurns xs := by
      rintro ⟨x, hx, -⟩
      exact absurd (List.getElem?_eq_some_iff.mp hx).1 (by omega)
    rw [List.getElem?_append_right hn.le, List.getElem?_eq_none (by simp; omega)]
    simp [hbefore]
    omega

theorem lt_of_mem_offeredTurns {n : ℕ} (h : n ∈ offeredTurns xs) : n < xs.length := by
  obtain ⟨x, hx, -⟩ := h
  exact (List.getElem?_eq_some_iff.mp hx).1

/-- An offer is held, unless what is held is as near. -/
theorem Body.holdFallback_heldFallback (fb : HeldFallback) :
    (b.holdFallback fb).heldFallback =
      if b.heldFallback.any fun old => old.diff ≤ fb.diff then b.heldFallback else some fb := by
  unfold Body.holdFallback
  split <;> rfl

theorem act_heldFallback (hoffers : f.offers = true) :
    ∃ fb : HeldFallback, fb.temp = .attempt ci ∧ fb.diff = offeredDiff W ci ∧
      (act O W ci c b f).body.heldFallback =
        if b.heldFallback.any fun old => old.diff ≤ fb.diff then b.heldFallback else some fb := by
  cases f with
  | otherRecording r reason fp =>
    refine ⟨lastResort W.track c (W.inputs ci) (.attempt ci) r fp
      (otherRecordingNote W.track (W.inputs ci) fp), rfl, rfl, ?_⟩
    simp [act, Body.holdFallback_heldFallback]
  | kept r reason how fp =>
    have hreason : reason ≠ "" := by simpa [Found.offers] using hoffers
    refine ⟨lastResort W.track c (W.inputs ci) (.attempt ci) r fp ("shorter cut, " ++ reason),
      rfl, rfl, ?_⟩
    simp [act, hreason, Body.holdFallback_heldFallback]
  | _ => cases hoffers

/-- Other turns leave what is held. -/
theorem act_heldFallback_of_not (hoffers : f.offers = false) :
    (act O W ci c b f).body.heldFallback = b.heldFallback := by
  cases f with
  | otherRecording => cases hoffers
  | kept r reason how fp =>
    have hreason : reason = "" := by simpa [Found.offers] using hoffers
    simp [act, hreason, Body.acceptTrackFile]
  | downloadFailed said =>
    simp only [act, Turned.body_ite]
    cases said <;> rfl
  | missing left =>
    simp only [act, Turned.body_ite]
    rfl
  | unverified r reason =>
    simp only [act]
    split <;> rfl
  | _ => simp [act]

/-- From which turns the files come that are held or were accepted, after some turns. -/
structure Body.Origins (W : TrackWorld) (n : ℕ) (xs : List Turnout) (b : Body) : Prop where
  /-- The turns are numbered. -/
  length : xs.length = n
  /-- The last resort that is held is the closest of those that were offered. -/
  fallback : ∀ fb, b.heldFallback = some fb → ∃ ci, fb.temp = .attempt ci ∧
    fb.diff = offeredDiff W ci ∧ FirstLeast (offeredDiff W) (offeredTurns xs) ci
  /-- The file that is held unverified is that of the first such turn. -/
  unverified : ∀ t r, b.heldUnverified = some (t, r) → ∃ ci x, t = .attempt ci ∧
    xs[ci]? = some x ∧ xs.find? (·.2.isUnverified) = some x ∧ x.2.isUnverified = true
  /-- A file is accepted in the turn that ends the loop with it. -/
  accepted : ∀ a, .accepted a ∈ b.effects → ∃ ci x, a.temp = .attempt ci ∧ xs[ci]? = some x ∧
    x.2.accepts = true
  /-- No turn records a failure. -/
  noFailure : ∀ reason attempts, .failure reason attempts ∉ b.effects

/-- What is offered in a turn meets what is held. -/
theorem Body.Origins.offered {n : ℕ} (h : b.Origins W n xs)
    (hleft : (Turned.next b).LeftBy xs) {fb : HeldFallback}
    (hfb : (act O W n c b f).body.heldFallback = some fb) :
    ∃ ci, fb.temp = .attempt ci ∧ fb.diff = offeredDiff W ci ∧
      FirstLeast (offeredDiff W) (offeredTurns (xs ++ [(c, f)])) ci := by
  have hlength := h.length
  cases hoffers : f.offers with
  | false =>
    rw [act_heldFallback_of_not hoffers] at hfb
    have hsame : offeredTurns (xs ++ [(c, f)]) = offeredTurns xs := by
      ext n
      simp [mem_offeredTurns_append, hoffers]
    rw [hsame]
    exact h.fallback fb hfb
  | true =>
    have hinsert : offeredTurns (xs ++ [(c, f)]) = insert n (offeredTurns xs) := by
      ext m
      rw [mem_offeredTurns_append, hlength, Set.mem_insert_iff, or_comm]
      simp [hoffers]
    have hbefore : ∀ j ∈ offeredTurns xs, j < n := by
      intro j hj
      exact hlength ▸ lt_of_mem_offeredTurns hj
    obtain ⟨new, htemp, hdiff, hheld⟩ := @act_heldFallback O W b n c _ hoffers
    rw [hheld] at hfb
    rw [hinsert]
    cases hold : b.heldFallback with
    | none =>
      -- nothing was offered before
      rw [hold] at hfb
      obtain rfl : new = fb := by simpa using hfb
      have hnone : offeredTurns xs = ∅ := by
        have hany : xs.any (·.2.offers) = false := by
          rw [← hleft.fallback]
          simp [hold]
        ext m
        simp only [Set.mem_empty_iff_false, iff_false]
        rintro ⟨x, hx, hxoffers⟩
        have := List.any_eq_false.mp hany x (List.mem_of_getElem? hx)
        exact this hxoffers
      refine ⟨n, htemp, hdiff, ?_⟩
      rw [hnone]
      simpa using FirstLeast.single (offeredDiff W) n
    | some old =>
      obtain ⟨ci, htemp', hdiff', hleast⟩ := h.fallback old hold
      rw [hold] at hfb
      by_cases hle : old.diff ≤ new.diff
      · obtain rfl : old = fb := by simpa [hle] using hfb
        exact ⟨ci, htemp', hdiff', hleast.keep hbefore (hdiff' ▸ hdiff ▸ hle)⟩
      · obtain rfl : new = fb := by simpa [hle] using hfb
        exact ⟨n, htemp, hdiff, hleast.replace (hdiff' ▸ hdiff ▸ not_le.mp hle)⟩

/-- One turn keeps the origins. -/
theorem act_origins {n : ℕ} (hleft : (Turned.next b).LeftBy xs) (h : b.Origins W n xs) :
    (act O W n c b f).body.Origins W (n + 1) (xs ++ [(c, f)]) where
  length := by rw [List.length_append, h.length, List.length_singleton]
  fallback := fun _ hfb => h.offered hleft hfb
  unverified := by
    intro t r hheld
    rcases act_heldUnverified hheld with hold | ⟨hnone, rfl, hf⟩
    · obtain ⟨ci, x, ht, hx, hfind, hunverified⟩ := h.unverified t r hold
      have hlt := (List.getElem?_eq_some_iff.mp hx).1
      refine ⟨ci, x, ht, ?_, by rw [List.find?_append, hfind, Option.some_or], hunverified⟩
      rw [List.getElem?_append_left hlt, hx]
    · -- the first candidate that is left unverified
      have hfirst : xs.find? (·.2.isUnverified) = none := by
        rw [← Option.map_eq_none_iff, ← hleft.best]
        exact hnone
      refine ⟨n, (c, f), rfl, by simp [← h.length], ?_, hf⟩
      rw [List.find?_append, hfirst]
      simp [hf]
  accepted := by
    intro a ha
    rcases act_accepts_mem ha with hold | ⟨htemp, hf⟩
    · obtain ⟨ci, x, ht, hx, hx'⟩ := h.accepted a hold
      have hlt := (List.getElem?_eq_some_iff.mp hx).1
      exact ⟨ci, x, ht, by rw [List.getElem?_append_left hlt, hx], hx'⟩
    · exact ⟨n, (c, f), htemp, by simp [← h.length], hf⟩
  noFailure := by
    intro reason attempts hmem
    exact h.noFailure reason attempts (act_failure_mem.mp hmem)

theorem Body.init_origins (W : TrackWorld) (status : Status) :
    (Body.init.setStatus status).Origins W 0 [] := by
  constructor <;> simp [Body.init]

/-- **What the loop holds is the closest of what was offered.** -/
theorem iterate_origins (status : Status) (hstart : W.skipAtStart = false) :
    ∃ n, (iterate O W (Body.init.setStatus status)).2.body.Origins W n (course O W) :=
  iterate_invariant (I := fun n xs b => b.Origins W n xs)
    (fun _ _ hleft h => act_origins hleft h) (Body.init_leftBy status)
    (Body.init_origins W status) hstart

/-! ### The fallbacks -/

/-- It is recorded that the track failed. -/
def Body.Failed (b : Body) : Prop := ∃ reason attempts, .failure reason attempts ∈ b.effects

/-- The unverified fallback does not fail: it has the score, and its file is there, or it is
downloaded again, unless the track is skipped then. -/
def fallbackGoesWell (W : TrackWorld) (c : Candidate) : Bool :=
  W.config.minMatchScore ≤ c.score &&
    if W.heldExists then W.fbExists
    else match W.redownload with
      | .skipped => true
      | .failed _ => false
      | .done _ => W.fbExists

/-- No candidate was left unverified, or the first one that was does not fail. -/
def usesWhatIsHeld (O : Outside) (W : TrackWorld) : Bool :=
  ((course O W).find? (·.2.isUnverified)).all fun x => fallbackGoesWell W x.1

variable {tried : ℕ} {low : Bool}

theorem fail_failed : (fail O W tried low b).Failed := by
  unfold fail
  dsimp only
  split <;> exact ⟨_, _, List.mem_append_right _ (List.mem_singleton_self _)⟩

theorem keepLastResort_failed_iff (fb : HeldFallback) :
    (keepLastResort W b fb).Failed ↔ b.Failed := by
  simp [Body.Failed, keepLastResort, Body.acceptTrackFile]

theorem finishFallback_failed_iff (hb : ¬ b.Failed) (temp : Temp)
    (result : Except (Option String) DlResult) :
    (finishFallback O W tried b c temp result).Failed ↔
      ¬ (result.toOption.isSome = true ∧ W.fbExists = true) := by
  unfold finishFallback
  cases result with
  | error errorMessage => exact iff_of_true fail_failed (by simp [Except.toOption])
  | ok r =>
    cases W.fbExists with
    | false => exact iff_of_true fail_failed (by simp)
    | true =>
      refine iff_of_false ?_ (by simp [Except.toOption])
      simpa [Body.Failed, Body.acceptTrackFile, Body.noteUnverifiedKeep] using hb

/-- When the unverified fallback fails. -/
theorem unverifiedFallback_failed_iff (hb : ¬ b.Failed) (hheld : b.heldUnverified.isSome = true)
    (c : Candidate) :
    (unverifiedFallback O W tried b c).Failed ↔ fallbackGoesWell W c = false := by
  unfold unverifiedFallback fallbackGoesWell
  by_cases hscore : c.score < W.config.minMatchScore
  · rw [if_pos hscore]
    exact iff_of_true fail_failed (by simp [hscore])
  · obtain ⟨⟨temp, r⟩, hsome⟩ := Option.isSome_iff_exists.mp hheld
    have hdropped : ¬ (b.dropHeldUnverified.setStatus .downloading).Failed := by
      simpa [Body.Failed] using hb
    rw [if_neg hscore, hsome]
    cases hexists : W.heldExists with
    | true =>
      dsimp only
      rw [finishFallback_failed_iff (b := { b with heldUnverified := none }) hb]
      simp [Except.toOption, not_lt.mp hscore]
    | false =>
      dsimp only
      cases W.redownload with
      | skipped =>
        refine iff_of_false ?_ (by simp [not_lt.mp hscore])
        simpa [Body.Failed] using hb
      | failed errorMessage =>
        dsimp only
        rw [finishFallback_failed_iff hdropped]
        simp [Except.toOption]
      | done r =>
        dsimp only
        rw [finishFallback_failed_iff]
        · simp [Except.toOption, not_lt.mp hscore]
        · split
          · simpa [Body.Failed] using hb
          · exact hdropped

/-- When a track fails for which a last resort is held. -/
theorem afterLoop_failed_iff {T : Turned} (hleft : T.LeftBy (course O W)) (hgoes : T.isStop = false)
    (haccepts : (course O W).any (·.2.accepts) = false)
    (hoffers : (course O W).any (·.2.offers) = true) (hb : ¬ T.body.Failed) :
    (afterLoop O W tried T.body).Failed ↔ usesWhatIsHeld O W = false := by
  have haccepted := hleft.accepted.trans haccepts
  have hfallback := hleft.fallback.trans hoffers
  have hbest := hleft.best
  have hheld := hleft.unverified
  rw [haccepted, hgoes] at hheld
  obtain ⟨fb, hfb⟩ := Option.isSome_iff_exists.mp hfallback
  unfold afterLoop usesWhatIsHeld
  rw [haccepted, hfb, hbest]
  cases hfind : (course O W).find? (·.2.isUnverified) with
  | none =>
    simp only [Bool.false_eq_true, if_false, Option.map_none]
    rw [keepLastResort_failed_iff]
    simpa using hb
  | some x =>
    rw [hfind] at hbest
    rw [hbest] at hheld
    simp only [Bool.false_eq_true, if_false, Option.map_some]
    rw [unverifiedFallback_failed_iff hb (by simpa using hheld)]
    simp

/-! ### What is accepted after the loop -/

theorem finishFallback_accepted_mem {temp : Temp} {result : Except (Option String) DlResult}
    (h : .accepted a ∈ (finishFallback O W tried b c temp result).effects) :
    .accepted a ∈ b.effects ∨ a.temp = temp := by
  unfold finishFallback at h
  split at h
  · simp [Body.acceptTrackFile, Body.noteUnverifiedKeep] at h
    exact h.imp_right fun h => by rw [h]
  · simp at h
    exact .inl h
  · simp at h
    exact .inl h

theorem unverifiedFallback_accepted_mem
    (h : .accepted a ∈ (unverifiedFallback O W tried b c).effects) :
    .accepted a ∈ b.effects ∨ (∃ r, b.heldUnverified = some (a.temp, r)) ∨ a.temp = .fallback := by
  unfold unverifiedFallback at h
  split at h
  · simp at h
    exact .inl h
  · split at h
    · next temp r hheld _ =>
      rcases finishFallback_accepted_mem h with h | rfl
      · exact .inl h
      · exact .inr (.inl ⟨r, hheld⟩)
    · dsimp only at h
      split at h
      · simp at h
        exact .inl h
      · rcases finishFallback_accepted_mem h with h | h
        · simp at h
          exact .inl h
        · exact .inr (.inr h)
      · rcases finishFallback_accepted_mem h with h | h
        · split at h <;> simp at h <;> exact .inl h
        · exact .inr (.inr h)

/-- After the loop the last resort is accepted, or the unverified fallback. -/
theorem afterLoop_accepted_mem (h : .accepted a ∈ (afterLoop O W tried b).effects) :
    .accepted a ∈ b.effects ∨ (∃ fb, b.heldFallback = some fb ∧ a.temp = fb.temp) ∨
      (∃ r, b.heldUnverified = some (a.temp, r)) ∨ a.temp = .fallback := by
  unfold afterLoop at h
  split at h
  · exact .inl (accepted_mem_dropHeldFallback.mp h)
  · split at h
    · next fb hfb _ =>
      simp [keepLastResort, Body.acceptTrackFile] at h
      exact h.imp_right fun h => .inl ⟨fb, hfb, by rw [h]⟩
    · exact (unverifiedFallback_accepted_mem h).imp_right .inr
    · simp at h
      exact .inl h

/-- A turn leads to one thing only. -/
theorem Found.offers_eq_false_of_accepts (h : f.accepts = true) : f.offers = false := by
  cases f <;> simp_all [Found.accepts, Found.offers]

theorem Found.offers_eq_false_of_isUnverified (h : f.isUnverified = true) : f.offers = false := by
  cases f <;> simp_all [Found.isUnverified, Found.offers]

/-- A file that was offered is accepted only if it is the closest. -/
theorem Body.Origins.firstLeast {n : ℕ} {x : Turnout} (h : b.Origins W n xs)
    (ha : .accepted a ∈ b.effects ∨ (∃ fb, b.heldFallback = some fb ∧ a.temp = fb.temp) ∨
      (∃ r, b.heldUnverified = some (a.temp, r)) ∨ a.temp = .fallback)
    (htemp : a.temp = .attempt ci) (hx : xs[ci]? = some x) (hoffers : x.2.offers = true) :
    FirstLeast (offeredDiff W) (offeredTurns xs) ci := by
  -- the turn of the file is known, and it is one that makes an offer
  have hturn : ∀ cj y, a.temp = .attempt cj → xs[cj]? = some y → y = x := by
    intro cj y hcj hy
    obtain rfl : ci = cj := Temp.attempt.inj (htemp.symm.trans hcj)
    exact Option.some.inj (hy.symm.trans hx)
  rcases ha with ha | ⟨fb, hfb, hfbtemp⟩ | ⟨r, hheld⟩ | hfallback
  · obtain ⟨cj, y, hcj, hy, haccepts⟩ := h.accepted a ha
    obtain rfl := hturn cj y hcj hy
    rw [Found.offers_eq_false_of_accepts haccepts] at hoffers
    cases hoffers
  · obtain ⟨cj, hcj, -, hleast⟩ := h.fallback fb hfb
    obtain rfl : ci = cj := Temp.attempt.inj (htemp.symm.trans (hfbtemp.trans hcj))
    exact hleast
  · obtain ⟨cj, y, hcj, hy, -, hunverified⟩ := h.unverified _ r hheld
    obtain rfl := hturn cj y hcj hy
    rw [Found.offers_eq_false_of_isUnverified hunverified] at hoffers
    cases hoffers
  · rw [hfallback] at htemp
    cases htemp

variable (O W)

/-- **When a track with a last resort does not fail, and which one is kept.**  If a file was
offered, none was accepted in the loop and no skip came, then the track fails exactly if a
candidate was left unverified and this fallback fails.  In every run, a last resort that is
kept is the closest of those that were offered, and the first of them. -/
theorem lastResort_used_iff :
    ((course O W).any (·.2.offers) = true → (course O W).any (·.2.accepts) = false →
      (course O W).any (·.2.skips) = false →
        (¬ (processTrackBody O W).Failed ↔ usesWhatIsHeld O W = true)) ∧
    (∀ (a : Accepted) (ci : ℕ) (x : Turnout), .accepted a ∈ (processTrackBody O W).effects →
      a.temp = .attempt ci → (course O W)[ci]? = some x → x.2.offers = true →
        ∀ (cj : ℕ) (y : Turnout), (course O W)[cj]? = some y → y.2.offers = true →
          offeredDiff W ci ≤ offeredDiff W cj ∧
            (cj < ci → offeredDiff W ci < offeredDiff W cj)) := by
  rcases processTrackBody_cases O W with ⟨hcourse, -⟩ | ⟨hstart, tried, T, hT, hbody⟩
  · rw [hcourse]
    constructor
    · intro hoffers
      cases hoffers
    · intro a ci x _ _ hx
      cases hx
  · have hleft := iterate_leftBy (O := O) (W := W) (Body.init_leftBy .searching) hstart
    obtain ⟨n, horigins⟩ := iterate_origins (O := O) (W := W) .searching hstart
    rw [← hT] at hleft horigins
    rw [hbody]
    constructor
    · intro hoffers haccepts hskips
      have hgoes := hleft.isStop.trans hskips
      have hnone : ¬ T.body.Failed := by
        rintro ⟨reason, attempts, hmem⟩
        exact horigins.noFailure reason attempts hmem
      rw [hgoes]
      simp only [Bool.false_eq_true, if_false]
      rw [afterLoop_failed_iff hleft hgoes haccepts hoffers hnone]
      simp
    · intro a ci x ha htemp hx hoffers cj y hy hyoffers
      have hfrom : .accepted a ∈ T.body.effects ∨
          (∃ fb, T.body.heldFallback = some fb ∧ a.temp = fb.temp) ∨
          (∃ r, T.body.heldUnverified = some (a.temp, r)) ∨ a.temp = .fallback := by
        split at ha
        · exact .inl ha
        · exact afterLoop_accepted_mem ha
      have hleast := horigins.firstLeast hfrom htemp hx hoffers
      exact ⟨hleast.le cj ⟨y, hy, hyoffers⟩, hleast.lt cj ⟨y, hy, hyoffers⟩⟩

/-! ### A last resort alone, and one behind an unverified candidate -/

/-- A track of 200 seconds, with one search result that is cut to 180 seconds. -/
def cutWorld : TrackWorld where
  track := ⟨"Song", "Band", 200000, some "recording"⟩
  skipAtStart := false
  albumCandidate := none
  search := [upload "first"]
  skipWithoutCandidates := false
  config := ⟨true, "key", 1 / 2, 10⟩
  skipAtExtend := false
  inputs _ := downloadedInputs 180
  heldExists := true
  redownload := .failed none
  fbExists := true
  fileSize := 0
  trackDownloadId := some 1

theorem lastResort_used_cutWorld :
    ¬ (processTrackBody asciiOutside cutWorld).Failed ∧
    ∀ (cj : ℕ) (y : Turnout), (course asciiOutside cutWorld)[cj]? = some y → y.2.offers = true →
      offeredDiff cutWorld 0 ≤ offeredDiff cutWorld cj ∧
        (cj < 0 → offeredDiff cutWorld 0 < offeredDiff cutWorld cj) := by
  have hall := lastResort_used_iff asciiOutside cutWorld
  constructor
  · exact (hall.1 (by decide +kernel) (by decide +kernel) (by decide +kernel)).mpr
      (by decide +kernel)
  · have haccepted : ∃ e ∈ (processTrackBody asciiOutside cutWorld).effects,
        ∃ a ∈ e.acceptance, a.temp = .attempt 0 := by decide +kernel
    have hcourse : ∃ x ∈ (course asciiOutside cutWorld)[0]?, x.2.offers = true := by
      decide +kernel
    obtain ⟨e, he, a, ha, htemp⟩ := haccepted
    obtain ⟨x, hx, hoffers⟩ := hcourse
    cases e with
    | accepted a' =>
      obtain rfl : a' = a := Option.some.inj ha
      exact hall.2 a' 0 x he htemp hx hoffers
    | _ => cases ha

/-- The same track, with a second result that AcoustID has no data about, and whose score is
low. -/
def cutThenUnknownWorld : TrackWorld :=
  { cutWorld with
    search := [upload "first", { upload "second" with score := 1 / 4 }]
    inputs := fun ci => if ci = 0 then downloadedInputs 180
      else { downloadedInputs 200 with verify := some .unverified } }

/-- **A track fails although a last resort is held**: the unverified candidate has the word,
and its score is too low. -/
theorem cutThenUnknown_fails :
    (course asciiOutside cutThenUnknownWorld).any (·.2.offers) = true ∧
    (course asciiOutside cutThenUnknownWorld).any (·.2.accepts) = false ∧
    (course asciiOutside cutThenUnknownWorld).any (·.2.skips) = false ∧
    (processTrackBody asciiOutside cutThenUnknownWorld).Failed := by
  refine ⟨by decide +kernel, by decide +kernel, by decide +kernel, ?_⟩
  have hfailure : ∃ e ∈ (processTrackBody asciiOutside cutThenUnknownWorld).effects,
      (match e with | .failure .. => true | _ => false) = true := by decide +kernel
  obtain ⟨e, he, hfailed⟩ := hfailure
  cases e with
  | failure reason attempts => exact ⟨reason, attempts, he⟩
  | _ => cases hfailed

end LidarrYtdl
end MediaHub

import MediaHub.LidarrYtdl.Closest

/-!
# What the album report counts

`verify_stats` counts a file as verified, or enters it as kept without verification, in the
turn in which it passes — before it is known whether the file is too short, so that it is
held as a last resort, and another one takes its place.

## Main definitions

* `Found.isVerified`, `Found.isNotVerified` — the turns that are counted.
* `ReportsKept` — what is counted is the file that was accepted, and nothing else.
* `CountedTurnsKept` — the files that are counted in the loop are kept.

## Main results

* `iterate_counts` — the statistics after the loop, read from its course.
* `processTrackBody_ending` — the ways in which a track ends.
* `reportsKept_iff` — **when the report counts what was kept.**
-/

namespace MediaHub
namespace LidarrYtdl

variable {O : Outside} {W : TrackWorld} {b : Body} {ci cj : ℕ} {c : Candidate} {f : Found}
  {a : Accepted} {xs : List Turnout}

/-! ### The counts of the loop -/

namespace Found

/-- AcoustID confirmed the file. -/
def isVerified : Found → Bool
  | .kept _ _ .verified _ => true
  | _ => false

/-- The file was not to be verified. -/
def isNotVerified : Found → Bool
  | .kept _ _ .notVerified _ => true
  | _ => false

/-- The turn is counted in the report. -/
def counts (f : Found) : Bool := f.isVerified || f.isNotVerified

end Found

/-- The entry of a file that is kept without verification. -/
def keepEntry (O : Outside) (t : TrackInfo) (c : Candidate) : UnverifiedKeep :=
  ⟨t.title, c.title, c.channel,
    c.fromOfficialAlbum || (c.channel ≠ "" && O.artistChannel c.channel t.artist)⟩

/-- The entries that the loop makes. -/
def loopKeeps (O : Outside) (W : TrackWorld) (xs : List Turnout) : List UnverifiedKeep :=
  (xs.filter (·.2.isNotVerified)).map fun x => keepEntry O W.track x.1

/-- The statistics are those of some turns, and some more entries. -/
structure VerifyStats.Of (O : Outside) (W : TrackWorld) (xs : List Turnout)
    (extra : List UnverifiedKeep) (stats : VerifyStats) : Prop where
  /-- The files that were confirmed. -/
  verifiedCount : stats.verifiedCount = xs.countP (·.2.isVerified)
  /-- The files that were kept without verification. -/
  unverifiedKeeps : stats.unverifiedKeeps = loopKeeps O W xs ++ extra

section Frames

@[simp] theorem Body.dropHeldUnverified_stats : b.dropHeldUnverified.stats = b.stats := by
  unfold dropHeldUnverified
  split <;> rfl

@[simp] theorem Body.dropHeldFallback_stats : b.dropHeldFallback.stats = b.stats := by
  unfold dropHeldFallback
  split <;> rfl

@[simp] theorem Body.holdFallback_stats (fb : HeldFallback) :
    (b.holdFallback fb).stats = b.stats := by
  unfold holdFallback
  split <;> simp

end Frames

/-- What is noted about a file that is kept. -/
theorem Body.noteKept_stats (t : TrackInfo) (fp : FpData) (r : DlResult) (reason : String)
    (how : Kept) :
    (b.noteKept O t c fp how).stats.verifiedCount =
        b.stats.verifiedCount + (if (Found.kept r reason how fp).isVerified then 1 else 0) ∧
      (b.noteKept O t c fp how).stats.unverifiedKeeps = b.stats.unverifiedKeeps ++
        (if (Found.kept r reason how fp).isNotVerified then [keepEntry O t c] else []) := by
  cases how <;> simp [Body.noteKept, Body.noteUnverifiedKeep, Found.isVerified,
    Found.isNotVerified, keepEntry]

/-- What a turn adds to the statistics. -/
theorem act_stats :
    (act O W ci c b f).body.stats.verifiedCount =
        b.stats.verifiedCount + (if f.isVerified then 1 else 0) ∧
      (act O W ci c b f).body.stats.unverifiedKeeps =
        b.stats.unverifiedKeeps ++ (if f.isNotVerified then [keepEntry O W.track c] else []) := by
  cases f with
  | kept r reason how fp =>
    have hnoted := Body.noteKept_stats (O := O) (c := c) W.track fp r reason how
      (b := (b.downloaded (.attempt ci) reason).tagged W.track (W.inputs ci).config r)
    by_cases hreason : reason = ""
    · subst hreason
      simpa [act, Body.acceptTrackFile] using hnoted
    · simpa [act, hreason] using hnoted
  | downloadFailed said =>
    simp only [act, Turned.body_ite]
    cases said <;> simp [Found.isVerified, Found.isNotVerified]
  | missing left =>
    simp only [act, Turned.body_ite]
    simp [Found.isVerified, Found.isNotVerified]
  | unverified r reason =>
    simp only [act]
    split <;> simp [Found.isVerified, Found.isNotVerified]
  | _ => simp [act, Found.isVerified, Found.isNotVerified]

/-- After some turns: the statistics are theirs, and none but the last has ended the loop. -/
structure Body.Counted (O : Outside) (W : TrackWorld) (xs : List Turnout) (b : Body) : Prop where
  /-- The statistics are those of the turns. -/
  stats : b.stats.Of O W xs []
  /-- A turn that has ended the loop is the last one. -/
  last : ∀ ci x, xs[ci]? = some x → x.2.ends = true → ci + 1 = xs.length

/-- One turn keeps the statistics. -/
theorem act_counted (hleft : (Turned.next b).LeftBy xs) (h : b.Counted O W xs) :
    (act O W ci c b f).body.Counted O W (xs ++ [(c, f)]) where
  stats := by
    obtain ⟨hverified, hkeeps⟩ := @act_stats O W b ci c f
    constructor
    · rw [hverified, h.stats.verifiedCount, List.countP_append, List.countP_singleton]
    · rw [hkeeps, h.stats.unverifiedKeeps, loopKeeps, loopKeeps, List.append_nil, List.append_nil,
        List.filter_append, List.map_append]
      cases hf : f.isNotVerified <;> simp [hf]
  last := by
    intro cj x hx hends
    have hbefore : xs.any (·.2.ends) = false := by simpa using hleft.isNext
    have hlt := (List.getElem?_eq_some_iff.mp hx).1
    rw [List.length_append, List.length_singleton] at hlt ⊢
    by_cases hcj : cj < xs.length
    · -- the loop went on after the turns before
      rw [List.getElem?_append_left hcj] at hx
      exact absurd hends (List.any_eq_false.mp hbefore x (List.mem_of_getElem? hx))
    · omega

/-- **The statistics after the loop are read from its course.** -/
theorem iterate_counts (status : Status) (hstart : W.skipAtStart = false) :
    (iterate O W (Body.init.setStatus status)).2.body.Counted O W (course O W) := by
  have hinit : (Body.init.setStatus status).Counted O W [] := by
    constructor
    · exact ⟨rfl, rfl⟩
    · intro ci x hx
      cases hx
  obtain ⟨n, hn⟩ := iterate_invariant (I := fun _ xs b => b.Counted O W xs)
    (fun _ _ hleft h => act_counted hleft h) (Body.init_leftBy status) hinit hstart
  exact hn

/-! ### How a track ends -/

theorem mem_acceptances {es : List Effect} : a ∈ acceptances es ↔ .accepted a ∈ es := by
  rw [acceptances, List.mem_filterMap]
  constructor
  · rintro ⟨e, he, ha⟩
    cases e with
    | accepted a' =>
      obtain rfl : a' = a := Option.some.inj ha
      exact he
    | _ => cases ha
  · exact fun h => ⟨_, h, rfl⟩

/-- How a track ends whose loop has run the course. -/
inductive Ending (O : Outside) (W : TrackWorld) (b : Body) : Prop
  /-- Nothing is accepted: the track is skipped, or the unverified fallback fails, or there
  is nothing to fall back on. -/
  | nothing : acceptances b.effects = [] → b.stats.Of O W (course O W) [] →
      (course O W).any (·.2.accepts) = false →
      ((course O W).any (·.2.skips) = true ∨ (course O W).any (·.2.isUnverified) = true ∨
        (course O W).any (·.2.offers) = false) → Ending O W b
  /-- The file of the last turn is accepted. -/
  | inLoop (a : Accepted) (ci : ℕ) (x : Turnout) : acceptances b.effects = [a] →
      b.stats.Of O W (course O W) [] → a.temp = .attempt ci → (course O W)[ci]? = some x →
      x.2.accepts = true →
      (∀ (cj : ℕ) (y : Turnout), (course O W)[cj]? = some y → y.2.accepts = true → cj = ci) →
      Ending O W b
  /-- The last resort is kept. -/
  | lastResort (a : Accepted) (ci : ℕ) : acceptances b.effects = [a] →
      b.stats.Of O W (course O W) [] → a.temp = .attempt ci →
      FirstLeast (offeredDiff W) (offeredTurns (course O W)) ci →
      (course O W).any (·.2.accepts) = false → (course O W).any (·.2.skips) = false →
      (course O W).any (·.2.isUnverified) = false → Ending O W b
  /-- The unverified fallback is kept. -/
  | fallback (a : Accepted) (x : Turnout) : acceptances b.effects = [a] →
      b.stats.Of O W (course O W) [keepEntry O W.track x.1] →
      (course O W).find? (·.2.isUnverified) = some x →
      (a.temp = .fallback ∨ ∃ ci, a.temp = .attempt ci ∧ (course O W)[ci]? = some x) →
      (course O W).any (·.2.accepts) = false → Ending O W b

variable {tried : ℕ} {low : Bool}

@[simp] theorem fail_stats : (fail O W tried low b).stats = b.stats := by
  unfold fail
  dsimp only
  split <;> rfl

@[simp] theorem acceptances_fail :
    acceptances (fail O W tried low b).effects = acceptances b.effects := by
  unfold fail
  dsimp only
  split <;> simp [recordTrackFailure, Effect.acceptance]

/-- The file of the unverified fallback is accepted and entered, or it is not. -/
theorem finishFallback_ending (hnone : acceptances b.effects = []) (temp : Temp)
    (result : Except (Option String) DlResult) :
    (acceptances (finishFallback O W tried b c temp result).effects = [] ∧
      (finishFallback O W tried b c temp result).stats = b.stats) ∨
    (∃ a, acceptances (finishFallback O W tried b c temp result).effects = [a] ∧ a.temp = temp ∧
      (finishFallback O W tried b c temp result).stats = { b.stats with
        unverifiedKeeps := b.stats.unverifiedKeeps ++ [keepEntry O W.track c] }) := by
  unfold finishFallback
  split
  · next r _ =>
    refine .inr ⟨⟨temp, r, .empty, b.attempts ++
      [buildCandidateAttempt W.track c .ACCEPTED_UNVERIFIED_FALLBACK .empty ""]⟩, ?_, rfl, rfl⟩
    simp [Body.acceptTrackFile, Body.noteUnverifiedKeep, Effect.acceptance, hnone]
  · exact .inl (by simp [Effect.acceptance, hnone])
  · exact .inl (by simp [Effect.acceptance, hnone])

/-- So is the fallback itself: the file that was held, or another download. -/
theorem unverifiedFallback_ending (hnone : acceptances b.effects = []) :
    (acceptances (unverifiedFallback O W tried b c).effects = [] ∧
      (unverifiedFallback O W tried b c).stats = b.stats) ∨
    (∃ a, acceptances (unverifiedFallback O W tried b c).effects = [a] ∧
      ((∃ r, b.heldUnverified = some (a.temp, r)) ∨ a.temp = .fallback) ∧
      (unverifiedFallback O W tried b c).stats = { b.stats with
        unverifiedKeeps := b.stats.unverifiedKeeps ++ [keepEntry O W.track c] }) := by
  unfold unverifiedFallback
  split
  · exact .inl (by simp [hnone])
  · split
    · next temp r hheld _ =>
      rcases @finishFallback_ending O W { b with heldUnverified := none } c tried hnone temp (.ok r)
        with h | ⟨a, ha, rfl, hstats⟩
      · exact .inl h
      · exact .inr ⟨a, ha, .inl ⟨r, hheld⟩, hstats⟩
    · -- the same candidate is downloaded again
      have hagain : ∀ b' : Body, acceptances b'.effects = [] → b'.stats = b.stats →
          ∀ result, (acceptances (finishFallback O W tried b' c .fallback result).effects = [] ∧
            (finishFallback O W tried b' c .fallback result).stats = b.stats) ∨
          (∃ a, acceptances (finishFallback O W tried b' c .fallback result).effects = [a] ∧
            ((∃ r, b.heldUnverified = some (a.temp, r)) ∨ a.temp = .fallback) ∧
            (finishFallback O W tried b' c .fallback result).stats = { b.stats with
              unverifiedKeeps := b.stats.unverifiedKeeps ++ [keepEntry O W.track c] }) := by
        intro b' hb' hstats' result
        rcases @finishFallback_ending O W _ c tried hb' .fallback result
          with h | ⟨a, ha, htemp, hstats⟩
        · exact .inl ⟨h.1, h.2.trans hstats'⟩
        · exact .inr ⟨a, ha, .inr htemp, hstats' ▸ hstats⟩
      dsimp only
      split
      · exact .inl (by simp [Effect.acceptance, hnone])
      · apply hagain
        · simp [hnone]
        · simp
      · apply hagain
        · split <;> simp [Effect.acceptance, hnone]
        · split <;> simp

/-- The turn that ends the loop has one end only. -/
theorem Found.skips_eq_false_of_accepts (h : f.accepts = true) : f.skips = false := by
  cases f <;> simp_all [Found.accepts, Found.skips]

theorem Found.ends_of_accepts (h : f.accepts = true) : f.ends = true := by
  simp [Found.ends, h]

theorem Found.ends_of_skips (h : f.skips = true) : f.ends = true := by
  simp [Found.ends, h]

/-- A track that is skipped has accepted nothing. -/
theorem Body.Counted.accepts_eq_false (h : b.Counted O W xs)
    (hskips : xs.any (·.2.skips) = true) : xs.any (·.2.accepts) = false := by
  obtain ⟨y, hy, hyskips⟩ := List.any_eq_true.mp hskips
  obtain ⟨j, hj⟩ := List.getElem?_of_mem hy
  rw [List.any_eq_false]
  intro x hx haccepts
  obtain ⟨i, hi⟩ := List.getElem?_of_mem hx
  -- both would be the last turn
  have hlast := h.last i x hi (Found.ends_of_accepts haccepts)
  have hlast' := h.last j y hj (Found.ends_of_skips hyskips)
  obtain rfl : i = j := by omega
  obtain rfl := Option.some.inj (hi.symm.trans hj)
  rw [Found.skips_eq_false_of_accepts haccepts] at hyskips
  cases hyskips

/-- What was accepted in the loop is the file of its last turn. -/
theorem ending_of_accepted {n : ℕ} {b' : Body} (hkeeps : b.Keeps n)
    (horigins : b.Origins W n (course O W)) (hcounted : b.Counted O W (course O W))
    (haccepted : b.accepted = true) (heffects : acceptances b'.effects = acceptances b.effects)
    (hstats : b'.stats = b.stats) : Ending O W b' := by
  have honce := hkeeps.acceptances
  rw [haccepted] at honce
  obtain ⟨a, ha⟩ := List.length_eq_one_iff.mp honce
  obtain ⟨ci, x, htemp, hx, haccepts⟩ := horigins.accepted a (mem_acceptances.mp (by simp [ha]))
  refine .inLoop a ci x (heffects.trans ha) (hstats ▸ hcounted.stats) htemp hx haccepts ?_
  intro cj y hy hyaccepts
  have hlast := hcounted.last ci x hx (Found.ends_of_accepts haccepts)
  have hlast' := hcounted.last cj y hy (Found.ends_of_accepts hyaccepts)
  omega

/-- A last resort that is held when the loop has ended without a file is kept. -/
theorem ending_of_lastResort {fb : HeldFallback} {n : ℕ} (hnone : acceptances b.effects = [])
    (horigins : b.Origins W n (course O W)) (hstats : b.stats.Of O W (course O W) [])
    (hfallback : b.heldFallback = some fb) (haccepts : (course O W).any (·.2.accepts) = false)
    (hskips : (course O W).any (·.2.skips) = false)
    (hunverified : (course O W).any (·.2.isUnverified) = false) :
    Ending O W (keepLastResort W b fb) := by
  obtain ⟨ci, htemp, -, hleast⟩ := horigins.fallback fb hfallback
  refine .lastResort ⟨fb.temp, fb.result, fb.fp, b.attempts ++
    [buildCandidateAttempt W.track fb.candidate .ACCEPTED_UNVERIFIED_FALLBACK fb.fp
      ("last resort: " ++ fb.note)]⟩ ci ?_ hstats htemp hleast haccepts hskips hunverified
  simp [keepLastResort, Body.acceptTrackFile, Effect.acceptance, hnone]

/-- The first candidate that was left unverified is the fallback: its file is accepted, or
nothing is. -/
theorem ending_of_unverified {x : Turnout} {n : ℕ} (hnone : acceptances b.effects = [])
    (horigins : b.Origins W n (course O W)) (hstats : b.stats.Of O W (course O W) [])
    (hfind : (course O W).find? (·.2.isUnverified) = some x)
    (haccepts : (course O W).any (·.2.accepts) = false) :
    Ending O W (unverifiedFallback O W tried b x.1) := by
  have hunverified : (course O W).any (·.2.isUnverified) = true := by
    rw [← List.isSome_find?, hfind]
    rfl
  rcases @unverifiedFallback_ending O W b x.1 tried hnone with
    ⟨hnothing, hsame⟩ | ⟨a, ha, hfile, hentered⟩
  · exact .nothing hnothing (hsame ▸ hstats) haccepts (.inr (.inl hunverified))
  · refine .fallback a x ha ?_ hfind ?_ haccepts
    · rw [hentered]
      exact ⟨hstats.verifiedCount, by rw [hstats.unverifiedKeeps, List.append_nil]⟩
    -- the file is the one that was held, or another download
    · rcases hfile with ⟨r, hheld⟩ | hagain
      · obtain ⟨ci, y, htemp, hy, hfind', -⟩ := horigins.unverified _ r hheld
        obtain rfl := Option.some.inj (hfind.symm.trans hfind')
        exact .inr ⟨ci, htemp, hy⟩
      · exact .inl hagain

/-- What is accepted after the loop is the last resort or the unverified fallback. -/
theorem afterLoop_ending {T : Turned} {n : ℕ} (hkeeps : T.body.Keeps n)
    (horigins : T.body.Origins W n (course O W)) (hcounted : T.body.Counted O W (course O W))
    (hleft : T.LeftBy (course O W)) (hgoes : T.isStop = false) :
    Ending O W (afterLoop O W tried T.body) := by
  have hskips : (course O W).any (·.2.skips) = false := hleft.isStop.symm.trans hgoes
  have hbest := hleft.best
  unfold afterLoop
  cases haccepted : T.body.accepted with
  | true =>
    exact ending_of_accepted hkeeps horigins hcounted haccepted
      (acceptances_dropHeldFallback _) Body.dropHeldFallback_stats
  | false =>
    have haccepts : (course O W).any (·.2.accepts) = false := hleft.accepted.symm.trans haccepted
    have honce := hkeeps.acceptances
    rw [haccepted] at honce
    have hnone := List.length_eq_zero_iff.mp honce
    simp only [Bool.false_eq_true, if_false]
    cases hfind : (course O W).find? (·.2.isUnverified) with
    | none =>
      have hunverified : (course O W).any (·.2.isUnverified) = false := by
        rw [← List.isSome_find?, hfind]
        rfl
      rw [hfind] at hbest
      rw [hbest]
      cases hfallback : T.body.heldFallback with
      | none =>
        have hoffers := hleft.fallback
        rw [hfallback] at hoffers
        refine .nothing ?_ ?_ haccepts (.inr (.inr hoffers.symm))
        · simpa using hnone
        · simpa using hcounted.stats
      | some fb =>
        exact ending_of_lastResort hnone horigins hcounted.stats hfallback haccepts hskips
          hunverified
    | some x =>
      have hending := @ending_of_unverified O W T.body tried x n hnone horigins hcounted.stats
        hfind haccepts
      rw [hfind] at hbest
      rw [hbest]
      cases T.body.heldFallback <;> exact hending

/-- Without a course nothing is counted. -/
theorem processTrackBody_stats_of_nil (h : course O W = []) :
    (processTrackBody O W).stats = Body.init.stats := by
  unfold processTrackBody
  split
  · rfl
  · next hstart =>
    dsimp only
    split
    · split <;> rfl
    · next hcandidates =>
      -- the first candidate has a turn
      obtain ⟨c, cs, hcons⟩ := List.exists_cons_of_ne_nil hcandidates
      unfold course at h
      rw [if_neg hstart, hcons, courseFrom_cons] at h
      split_ifs at h <;> simp at h

/-- **The ways in which a track ends.** -/
theorem processTrackBody_ending (O : Outside) (W : TrackWorld) :
    Ending O W (processTrackBody O W) := by
  rcases processTrackBody_cases O W with ⟨hcourse, heffects⟩ | ⟨hstart, tried, T, hT, hbody⟩
  · refine .nothing ?_ ?_ (by simp [hcourse]) (by simp [hcourse])
    · rcases heffects with h | ⟨reason, h⟩ <;> rw [h] <;> rfl
    · rw [processTrackBody_stats_of_nil hcourse, hcourse]
      exact ⟨rfl, rfl⟩
  · have hleft := iterate_leftBy (O := O) (W := W) (Body.init_leftBy .searching) hstart
    obtain ⟨n, hkeeps, horigins⟩ := iterate_invariant
      (I := fun n xs b => b.Keeps n ∧ b.Origins W n xs)
      (fun c f hleft h => ⟨act_keeps (O := O) h.1 hleft c f, act_origins hleft h.2⟩)
      (Body.init_leftBy .searching) ⟨Body.init_keeps .searching, Body.init_origins W .searching⟩
      hstart
    have hcounted := iterate_counts (O := O) (W := W) .searching hstart
    rw [← hT] at hleft hkeeps horigins hcounted
    rw [hbody]
    cases hstop : T.isStop with
    | true =>
      have hskips : (course O W).any (·.2.skips) = true := hleft.isStop.symm.trans hstop
      have haccepts := hcounted.accepts_eq_false hskips
      have honce := hkeeps.acceptances
      rw [hleft.accepted, haccepts] at honce
      exact .nothing (List.length_eq_zero_iff.mp honce) hcounted.stats haccepts (.inl hskips)
    | false => exact afterLoop_ending hkeeps horigins hcounted hleft hstop

/-! ### What the report counts -/

/-- The report counts the file that was accepted, and nothing else. -/
structure ReportsKept (O : Outside) (W : TrackWorld) (b : Body) : Prop where
  /-- The track is counted once at most. -/
  once : b.stats.verifiedCount + b.stats.unverifiedKeeps.length ≤ 1
  /-- If a file is counted as verified, the one that was accepted was verified. -/
  verified : 0 < b.stats.verifiedCount → ∃ a ci x, .accepted a ∈ b.effects ∧
    a.temp = .attempt ci ∧ (course O W)[ci]? = some x ∧ x.2.isVerified = true
  /-- If one is entered as kept unverified, the candidate of the entry was accepted: it was
  not to be verified, or AcoustID could not say anything about it. -/
  unverified : ∀ k ∈ b.stats.unverifiedKeeps, ∃ a x, .accepted a ∈ b.effects ∧
    k = keepEntry O W.track x.1 ∧
    ((∃ ci, a.temp = .attempt ci ∧ (course O W)[ci]? = some x ∧
        (x.2.isNotVerified = true ∨ x.2.isUnverified = true)) ∨
      (a.temp = .fallback ∧ (course O W).find? (·.2.isUnverified) = some x))

/-- A file that is counted in the loop although it is only offered as a last resort is kept
in the end: no skip comes, no file is accepted in the loop, no candidate is left unverified,
and it is the closest of those that were offered, and the first of them. -/
def CountedTurnsKept (O : Outside) (W : TrackWorld) : Prop :=
  ∀ ci x, (course O W)[ci]? = some x → x.2.counts = true → x.2.offers = true →
    (course O W).any (·.2.skips) = false ∧ (course O W).any (·.2.accepts) = false ∧
      (course O W).any (·.2.isUnverified) = false ∧
      FirstLeast (offeredDiff W) (offeredTurns (course O W)) ci

/-- The turns that are counted are at most this one. -/
def OnlyCounts (xs : List Turnout) (ci : ℕ) : Prop :=
  ∀ cj x, xs[cj]? = some x → x.2.counts = true → cj = ci

section Counting

variable {α : Type} {p : α → Bool} {ys : List α} {y z : α} {i j : ℕ}

/-- Where one position at most counts, the count is one at most. -/
theorem countP_le_one_of_only (h : ∀ j y, ys[j]? = some y → p y = true → j = i) :
    ys.countP p ≤ 1 := by
  induction ys generalizing i with
  | nil => simp
  | cons z ys ih =>
    cases hz : p z with
    | true =>
      obtain rfl := h 0 z rfl hz
      have hnone : ys.countP p = 0 := by
        rw [List.countP_eq_zero]
        intro y hy hp
        obtain ⟨j, hj⟩ := List.getElem?_of_mem hy
        exact absurd (h (j + 1) y hj hp) (by omega)
      simp [hz, hnone]
    | false =>
      rw [List.countP_cons_of_neg (by simp [hz])]
      apply ih (i := i - 1)
      intro j y hj hp
      have := h (j + 1) y hj hp
      omega

/-- Where the count is one at most, one position at most counts. -/
theorem eq_of_countP_le_one (h : ys.countP p ≤ 1) (hi : ys[i]? = some y) (hy : p y = true)
    (hj : ys[j]? = some z) (hz : p z = true) : i = j := by
  induction ys generalizing i j with
  | nil => cases hi
  | cons x ys ih =>
    have hpos : ∀ {k : ℕ} {w : α}, ys[k]? = some w → p w = true → 0 < ys.countP p := by
      intro k w hw hp
      exact List.countP_pos_iff.mpr ⟨w, List.mem_of_getElem? hw, hp⟩
    rw [List.countP_cons] at h
    cases i with
    | zero =>
      cases j with
      | zero => rfl
      | succ j =>
        cases hi
        have := hpos hj hz
        rw [if_pos hy] at h
        omega
    | succ i =>
      cases j with
      | zero =>
        cases hj
        have := hpos hi hy
        rw [if_pos hz] at h
        omega
      | succ j => rw [ih (by omega) hi hj]

end Counting

/-- A file that is counted is accepted or offered. -/
theorem Found.accepts_or_offers (h : f.counts = true) : f.accepts = true ∨ f.offers = true := by
  cases f with
  | kept r reason how fp =>
    by_cases hreason : reason = ""
    · exact .inl (by simp [Found.accepts, hreason])
    · exact .inr (by simp [Found.offers, hreason])
  | _ => cases h

theorem countP_counts (xs : List Turnout) : xs.countP (·.2.counts) =
    xs.countP (·.2.isVerified) + xs.countP (·.2.isNotVerified) := by
  induction xs with
  | nil => rfl
  | cons x xs ih =>
    have hhead : (if x.2.counts then 1 else 0) =
        (if x.2.isVerified then 1 else 0) + (if x.2.isNotVerified then 1 else 0) := by
      cases x.2 with
      | kept r reason how fp => cases how <;> rfl
      | _ => rfl
    simp only [List.countP_cons, ih, hhead]
    omega

/-- The statistics count the turns that are counted. -/
theorem VerifyStats.Of.total {stats : VerifyStats} {extra : List UnverifiedKeep}
    (h : stats.Of O W xs extra) : stats.verifiedCount + stats.unverifiedKeeps.length =
      xs.countP (·.2.counts) + extra.length := by
  rw [h.verifiedCount, h.unverifiedKeeps, countP_counts, loopKeeps, List.length_append,
    List.length_map, ← List.countP_eq_length_filter]
  omega

/-- If what was accepted is the file of the one turn that is counted, the report is right. -/
theorem reportsKept_of_only (hstats : b.stats.Of O W (course O W) [])
    (ha : .accepted a ∈ b.effects) (htemp : a.temp = .attempt ci)
    (honly : OnlyCounts (course O W) ci) : ReportsKept O W b where
  once := by
    rw [hstats.total]
    exact countP_le_one_of_only honly
  verified := by
    intro hpos
    rw [hstats.verifiedCount, List.countP_pos_iff] at hpos
    obtain ⟨x, hx, hverified⟩ := hpos
    obtain ⟨cj, hcj⟩ := List.getElem?_of_mem hx
    obtain rfl := honly cj x hcj (by simp [Found.counts, hverified])
    exact ⟨a, cj, x, ha, htemp, hcj, hverified⟩
  unverified := by
    intro k hk
    rw [hstats.unverifiedKeeps, List.append_nil] at hk
    obtain ⟨x, hx, rfl⟩ := List.mem_map.mp hk
    obtain ⟨hx, hnot⟩ := List.mem_filter.mp hx
    obtain ⟨cj, hcj⟩ := List.getElem?_of_mem hx
    obtain rfl := honly cj x hcj (by simp [Found.counts, hnot])
    exact ⟨a, x, ha, rfl, .inl ⟨cj, htemp, hcj, .inl hnot⟩⟩

/-- If the report is right and a turn is counted, a file was accepted: that of such a turn, or
the unverified fallback. -/
theorem ReportsKept.exists_accepted {extra : List UnverifiedKeep} {x : Turnout}
    (h : ReportsKept O W b) (hstats : b.stats.Of O W (course O W) extra) (hx : x ∈ course O W)
    (hcounts : x.2.counts = true) :
    ∃ a, .accepted a ∈ b.effects ∧ (a.temp = .fallback ∨ ∃ ci y, a.temp = .attempt ci ∧
      (course O W)[ci]? = some y ∧ (y.2.counts = true ∨ y.2.isUnverified = true)) := by
  rcases Bool.or_eq_true_iff.mp hcounts with hverified | hnot
  · have hpos : 0 < b.stats.verifiedCount := by
      rw [hstats.verifiedCount]
      exact List.countP_pos_iff.mpr ⟨x, hx, hverified⟩
    obtain ⟨a, ci, y, ha, htemp, hy, hyverified⟩ := h.verified hpos
    exact ⟨a, ha, .inr ⟨ci, y, htemp, hy, .inl (by simp [Found.counts, hyverified])⟩⟩
  · have hmem : keepEntry O W.track x.1 ∈ b.stats.unverifiedKeeps := by
      rw [hstats.unverifiedKeeps]
      exact List.mem_append_left _
        (List.mem_map.mpr ⟨x, List.mem_filter.mpr ⟨hx, hnot⟩, rfl⟩)
    obtain ⟨a, y, ha, -, ⟨ci, htemp, hy, hhow⟩ | ⟨hagain, -⟩⟩ := h.unverified _ hmem
    · exact ⟨a, ha, .inr ⟨ci, y, htemp, hy, hhow.imp_left fun hy' => by simp [Found.counts, hy']⟩⟩
    · exact ⟨a, ha, .inl hagain⟩

/-- If the report is right, the one turn that is counted is that of the file that was
accepted. -/
theorem ReportsKept.only (h : ReportsKept O W b) (hstats : b.stats.Of O W (course O W) [])
    (hone : acceptances b.effects = [a]) (htemp : a.temp = .attempt ci)
    (hnot : ∀ x, (course O W)[ci]? = some x → x.2.isUnverified = false) :
    OnlyCounts (course O W) ci := by
  have hle := h.once
  rw [hstats.total] at hle
  intro cj x hx hcounts
  obtain ⟨a', ha', hwhere⟩ := h.exists_accepted hstats (List.mem_of_getElem? hx) hcounts
  obtain rfl : a' = a := by
    have hmem := mem_acceptances.mpr ha'
    rwa [hone, List.mem_singleton] at hmem
  rw [htemp] at hwhere
  rcases hwhere with hagain | ⟨ck, y, hturn, hy, hhow⟩
  · cases hagain
  · cases hturn
    rcases hhow with hhow | hhow
    · exact eq_of_countP_le_one hle hx hcounts hy hhow
    · rw [hnot y hy] at hhow
      cases hhow

/-- Where no file is accepted in the loop, a turn that is counted makes an offer. -/
theorem offers_of_counts (hnone : (course O W).any (·.2.accepts) = false) {x : Turnout}
    (hx : x ∈ course O W) (hcounts : x.2.counts = true) : x.2.offers = true :=
  (Found.accepts_or_offers hcounts).resolve_left (List.any_eq_false.mp hnone x hx)

/-- Where neither the loop nor a last resort gives a file, no turn may be counted. -/
theorem CountedTurnsKept.countP_eq_zero (h : CountedTurnsKept O W)
    (hnone : (course O W).any (·.2.accepts) = false)
    (hwhy : (course O W).any (·.2.skips) = true ∨ (course O W).any (·.2.isUnverified) = true ∨
      (course O W).any (·.2.offers) = false) : (course O W).countP (·.2.counts) = 0 := by
  rw [List.countP_eq_zero]
  intro x hx hcounts
  obtain ⟨ci, hci⟩ := List.getElem?_of_mem hx
  have hoffers := offers_of_counts hnone hx hcounts
  obtain ⟨hskips, -, hunverified, -⟩ := h ci x hci hcounts hoffers
  rw [hskips, hunverified] at hwhy
  rcases hwhy with hwhy | hwhy | hwhy
  · cases hwhy
  · cases hwhy
  · exact List.any_eq_false.mp hwhy x hx hoffers

/-- Where nothing is accepted, nothing may be counted. -/
theorem reportsKept_iff_of_nothing (hone : acceptances b.effects = [])
    (hstats : b.stats.Of O W (course O W) []) (hnone : (course O W).any (·.2.accepts) = false)
    (hwhy : (course O W).any (·.2.skips) = true ∨ (course O W).any (·.2.isUnverified) = true ∨
      (course O W).any (·.2.offers) = false) : ReportsKept O W b ↔ CountedTurnsKept O W := by
  constructor
  · intro h ci x hx hcounts
    obtain ⟨a, ha, -⟩ := h.exists_accepted hstats (List.mem_of_getElem? hx) hcounts
    have hmem := mem_acceptances.mpr ha
    rw [hone] at hmem
    cases hmem
  · intro h
    have htotal := hstats.total
    rw [h.countP_eq_zero hnone hwhy, List.length_nil] at htotal
    refine ⟨by omega, by omega, ?_⟩
    intro k hk
    have := List.length_pos_of_mem hk
    omega

/-- Where the file of the last turn is accepted, no other turn may be counted. -/
theorem reportsKept_iff_of_inLoop {x : Turnout} (hone : acceptances b.effects = [a])
    (hstats : b.stats.Of O W (course O W) []) (htemp : a.temp = .attempt ci)
    (hx : (course O W)[ci]? = some x) (haccepts : x.2.accepts = true)
    (hlast : ∀ (cj : ℕ) (y : Turnout), (course O W)[cj]? = some y → y.2.accepts = true → cj = ci) :
    ReportsKept O W b ↔ CountedTurnsKept O W := by
  have hunverified : x.2.isUnverified = false := by
    cases hx2 : x.2 <;> rw [hx2] at haccepts <;> first | rfl | cases haccepts
  have hany : (course O W).any (·.2.accepts) = true :=
    List.any_eq_true.mpr ⟨x, List.mem_of_getElem? hx, haccepts⟩
  constructor
  · intro h cj y hy hcounts hoffers
    have honly := h.only hstats hone htemp (by
      intro z hz
      rwa [Option.some.inj (hz.symm.trans hx)])
    -- the turn that is counted is the last one, which makes no offer
    obtain rfl := honly cj y hy hcounts
    obtain rfl := Option.some.inj (hx.symm.trans hy)
    rw [Found.offers_eq_false_of_accepts haccepts] at hoffers
    cases hoffers
  · intro h
    refine reportsKept_of_only hstats (mem_acceptances.mp (by simp [hone])) htemp ?_
    intro cj y hy hcounts
    rcases Found.accepts_or_offers hcounts with hy' | hy'
    · exact hlast cj y hy hy'
    · have hnone := (h cj y hy hcounts hy').2.1
      rw [hany] at hnone
      cases hnone

/-- Where the last resort is kept, no other turn may be counted. -/
theorem reportsKept_iff_of_lastResort (hone : acceptances b.effects = [a])
    (hstats : b.stats.Of O W (course O W) []) (htemp : a.temp = .attempt ci)
    (hleast : FirstLeast (offeredDiff W) (offeredTurns (course O W)) ci)
    (hnone : (course O W).any (·.2.accepts) = false)
    (hskips : (course O W).any (·.2.skips) = false)
    (hunverified : (course O W).any (·.2.isUnverified) = false) :
    ReportsKept O W b ↔ CountedTurnsKept O W := by
  constructor
  · intro h cj y hy hcounts hoffers
    have honly := h.only hstats hone htemp (by
      intro z hz
      simpa using List.any_eq_false.mp hunverified z (List.mem_of_getElem? hz))
    obtain rfl := honly cj y hy hcounts
    exact ⟨hskips, hnone, hunverified, hleast⟩
  · intro h
    refine reportsKept_of_only hstats (mem_acceptances.mp (by simp [hone])) htemp ?_
    intro cj y hy hcounts
    have hoffers := offers_of_counts hnone (List.mem_of_getElem? hy) hcounts
    exact (h cj y hy hcounts hoffers).2.2.2.unique hleast

/-- Where the unverified fallback is kept and entered, no turn may be counted. -/
theorem reportsKept_iff_of_fallback {x : Turnout} (hone : acceptances b.effects = [a])
    (hstats : b.stats.Of O W (course O W) [keepEntry O W.track x.1])
    (hfind : (course O W).find? (·.2.isUnverified) = some x)
    (hfile : a.temp = .fallback ∨ ∃ ci, a.temp = .attempt ci ∧ (course O W)[ci]? = some x)
    (hnone : (course O W).any (·.2.accepts) = false) :
    ReportsKept O W b ↔ CountedTurnsKept O W := by
  have hunverified : (course O W).any (·.2.isUnverified) = true := by
    rw [← List.isSome_find?, hfind]
    rfl
  have htotal := hstats.total
  rw [List.length_singleton] at htotal
  constructor
  · intro h cj y hy hcounts
    have hpos : 0 < (course O W).countP (·.2.counts) :=
      List.countP_pos_iff.mpr ⟨y, List.mem_of_getElem? hy, hcounts⟩
    have := h.once
    omega
  · intro h
    have hzero := h.countP_eq_zero hnone (.inr (.inl hunverified))
    have hkeeps := hstats.unverifiedKeeps
    have hlength := congrArg List.length hkeeps
    rw [List.length_append, List.length_singleton] at hlength
    have hloop : loopKeeps O W (course O W) = [] := List.length_eq_zero_iff.mp (by omega)
    rw [hloop, List.nil_append] at hkeeps
    refine ⟨by omega, by omega, ?_⟩
    intro k hk
    rw [hkeeps, List.mem_singleton] at hk
    refine ⟨a, x, mem_acceptances.mp (by simp [hone]), hk, ?_⟩
    have hleft : x.2.isUnverified = true := by simpa using List.find?_some hfind
    rcases hfile with hagain | ⟨ci, htemp, hx⟩
    · exact .inr ⟨hagain, hfind⟩
    · exact .inl ⟨ci, htemp, hx, .inr hleft⟩

/-- **When the report counts what was kept.**  What is counted for a track is the file that
was accepted, and nothing else, exactly if each file that is counted in the loop although it
is only offered as a last resort is the last resort that is kept. -/
theorem reportsKept_iff (O : Outside) (W : TrackWorld) :
    ReportsKept O W (processTrackBody O W) ↔ CountedTurnsKept O W := by
  cases processTrackBody_ending O W with
  | nothing hone hstats hnone hwhy => exact reportsKept_iff_of_nothing hone hstats hnone hwhy
  | inLoop a ci x hone hstats htemp hx haccepts hlast =>
    exact reportsKept_iff_of_inLoop hone hstats htemp hx haccepts hlast
  | lastResort a ci hone hstats htemp hleast hnone hskips hunverified =>
    exact reportsKept_iff_of_lastResort hone hstats htemp hleast hnone hskips hunverified
  | fallback a x hone hstats hfind hfile hnone =>
    exact reportsKept_iff_of_fallback hone hstats hfind hfile hnone

/-! ### A file that is counted and replaced -/

/-- Two search results for a track of 200 seconds that AcoustID confirms; the first is cut to
180 seconds. -/
def cutThenFullWorld : TrackWorld :=
  { cutWorld with
    search := [upload "first", upload "second"]
    inputs := fun ci => { downloadedInputs (if ci = 0 then 180 else 200) with
      verify := some (.verified ⟨"id", 1, "recording", "Song"⟩) } }

/-- **A track is counted twice**: the cut is counted as verified and held, and then the full
file is counted as well and accepted in its place. -/
theorem cutThenFull_counted_twice :
    (processTrackBody asciiOutside cutThenFullWorld).stats.verifiedCount = 2 ∧
    ¬ ReportsKept asciiOutside cutThenFullWorld
      (processTrackBody asciiOutside cutThenFullWorld) := by
  have htwo : (processTrackBody asciiOutside cutThenFullWorld).stats.verifiedCount = 2 := by
    decide +kernel
  refine ⟨htwo, ?_⟩
  intro h
  have honce := h.once
  omega

end LidarrYtdl
end MediaHub

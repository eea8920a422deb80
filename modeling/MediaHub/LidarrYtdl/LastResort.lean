import MediaHub.LidarrYtdl.TempFiles

/-!
# Short files that are kept

A file that is shorter than it should be is kept only as a last resort, and its download is
recorded as one, so that the audit spares it.  The note of the shorter cut lives in one turn
of the loop, though, and is lost when AcoustID has no data about the file: it is then held
as the unverified fallback, and accepted without the mark.

## Main definitions

* `MarkedLastResort` — the mark that the audit looks for.
* `MarksShortFiles` — each accepted file that was too short is marked.
* `keepsUnmarked` — when the unverified fallback is a shorter cut.

## Main results

* `spared_of_marked` — **the audit never deletes a file with the mark.**
* `marksShortFiles_iff` — **when the files that are too short are marked.**
-/

namespace MediaHub
namespace LidarrYtdl

/-! ### The mark -/

/-- The attempts record a last resort. -/
def MarkedLastResort (attempts : List Attempt) : Prop :=
  ∃ x ∈ attempts, x.outcome = .ACCEPTED_UNVERIFIED_FALLBACK ∧
    ∃ note, x.errorMessage = "last resort: " ++ note

/-- The rows of `candidate_attempts` that `models.flush_candidate_attempts` adds, where
`value` gives the values of `CandidateOutcome`. -/
def flushCandidateAttempts (value : CandidateOutcome → String) (trackDownloadId : ℕ)
    (attempts : List Attempt) : List CandidateAttempt :=
  attempts.map fun x => ⟨trackDownloadId, value x.outcome, some x.errorMessage⟩

/-- An empty message is no mark. -/
theorem empty_ne_lastResort (note : String) : "" ≠ "last resort: " ++ note := by
  intro h
  have hchars := congrArg String.toList h
  rw [String.toList_append] at hchars
  exact absurd hchars (by simp)

theorem likeLastResort_append (note : String) :
    likeLastResort ("last resort: " ++ note) = true := by
  unfold likeLastResort
  rw [String.toList_append, List.map_append,
    show List.map Char.toLower "last resort: ".toList = "last resort:".toList ++ [' '] by decide,
    List.append_assoc, List.isPrefixOf_iff_prefix]
  exact List.prefix_append _ _

/-- **The audit never deletes a file with the mark.** -/
theorem spared_of_marked {value : CandidateOutcome → String}
    (hvalue : value .ACCEPTED_UNVERIFIED_FALLBACK = "accepted_unverified_fallback")
    {attempts : List Attempt} (hmarked : MarkedLastResort attempts) {db : Database} {r : Row}
    (hdb : flushCandidateAttempts value r.id attempts ⊆ db.candidateAttempts)
    (o : Audit.Options) (w : Audit.World) (t : Audit.Track) (f : Audit.TrackFile) (actual : ℚ) :
    (Audit.verdictOn o w db.lastResortIds r t f actual).1 ≠ .delete := by
  obtain ⟨x, hx, houtcome, note, hnote⟩ := hmarked
  have hrow : (⟨r.id, value x.outcome, some x.errorMessage⟩ : CandidateAttempt) ∈
      db.candidateAttempts := hdb (List.mem_map_of_mem hx)
  have hid : r.id ∈ db.lastResortIds := by
    refine List.mem_map.mpr ⟨_, List.mem_filter.mpr ⟨hrow, ?_⟩, rfl⟩
    simp [houtcome, hvalue, hnote, likeLastResort_append]
  unfold Audit.verdictOn
  simp only [hid, decide_true]
  exact Audit.decide_lastResort _ _ _ _ _ _

/-! ### What the loop records -/

namespace Found

/-- What `_too_short` said about the file of the turn. -/
def reason : Found → Option String
  | .rejectedLength _ reason => some reason
  | .otherRecording _ reason _ => some reason
  | .mismatch _ reason _ _ => some reason
  | .unverified _ reason => some reason
  | .kept _ reason _ _ => some reason
  | _ => none

end Found

variable {O : Outside} {W : TrackWorld} {b : Body} {ci : ℕ} {c : Candidate} {f : Found} {t : Temp}
  {s : String} {a : Accepted}

section Frames

/-! Dropping and holding files measures and accepts nothing. -/

@[simp] theorem measured_mem_dropHeldUnverified :
    .measured t s ∈ b.dropHeldUnverified.effects ↔ .measured t s ∈ b.effects := by
  unfold Body.dropHeldUnverified
  split <;> simp

@[simp] theorem measured_mem_dropHeldFallback :
    .measured t s ∈ b.dropHeldFallback.effects ↔ .measured t s ∈ b.effects := by
  unfold Body.dropHeldFallback
  split <;> simp

@[simp] theorem measured_mem_holdFallback {fb : HeldFallback} :
    .measured t s ∈ (b.holdFallback fb).effects ↔ .measured t s ∈ b.effects := by
  unfold Body.holdFallback
  split <;> simp

@[simp] theorem accepted_mem_dropHeldUnverified :
    .accepted a ∈ b.dropHeldUnverified.effects ↔ .accepted a ∈ b.effects := by
  unfold Body.dropHeldUnverified
  split <;> simp

@[simp] theorem accepted_mem_dropHeldFallback :
    .accepted a ∈ b.dropHeldFallback.effects ↔ .accepted a ∈ b.effects := by
  unfold Body.dropHeldFallback
  split <;> simp

@[simp] theorem accepted_mem_holdFallback {fb : HeldFallback} :
    .accepted a ∈ (b.holdFallback fb).effects ↔ .accepted a ∈ b.effects := by
  unfold Body.holdFallback
  split <;> simp

@[simp] theorem Body.dropHeldUnverified_attempts : b.dropHeldUnverified.attempts = b.attempts := by
  unfold Body.dropHeldUnverified
  split <;> rfl

@[simp] theorem Body.holdFallback_attempts {fb : HeldFallback} :
    (b.holdFallback fb).attempts = b.attempts := by
  unfold Body.holdFallback Body.dropHeldFallback
  split
  · rfl
  · split <;> rfl

end Frames

/-- One turn measures its own file, once. -/
theorem act_measured_mem : .measured t s ∈ (act O W ci c b f).body.effects ↔
    .measured t s ∈ b.effects ∨ t = .attempt ci ∧ some s = f.reason := by
  cases f with
  | downloadFailed said =>
    simp only [act, Turned.body_ite]
    cases said <;> simp [Found.reason]
  | missing left =>
    simp only [act, Turned.body_ite]
    cases left <;> simp [Found.reason]
  | unverified r reason =>
    simp only [act]
    split <;> simp [Found.reason]
  | kept r reason how fp =>
    by_cases hreason : reason = ""
    · simp [act, Body.acceptTrackFile, Found.reason, hreason]
    · simp [act, Found.reason, hreason]
  | _ => simp [act, Found.reason]

/-- One turn accepts a file of its own only, one that is long enough. -/
theorem act_accepted_mem : .accepted a ∈ (act O W ci c b f).body.effects →
    .accepted a ∈ b.effects ∨ a.temp = .attempt ci ∧ some "" = f.reason := by
  cases f with
  | downloadFailed said =>
    simp only [act, Turned.body_ite]
    cases said <;> simp [Found.reason]
  | missing left =>
    simp only [act, Turned.body_ite]
    cases left <;> simp [Found.reason]
  | unverified r reason =>
    simp only [act]
    split <;> simp +contextual [Found.reason]
  | kept r reason how fp =>
    by_cases hreason : reason = ""
    · simp only [act, hreason, ne_eq, not_true_eq_false, if_false, Turned.body,
        Body.acceptTrackFile]
      simp
      rintro (hmem | rfl)
      · exact .inl hmem
      · exact .inr ⟨rfl, rfl⟩
    · simp +contextual [act, hreason]
  | _ => simp +contextual [act, Found.reason]

/-- No attempt is one of an accepted fallback. -/
def Body.NoFallback (b : Body) : Prop :=
  ∀ x ∈ b.attempts, x.outcome ≠ .ACCEPTED_UNVERIFIED_FALLBACK

/-- The loop records no accepted fallback. -/
theorem act_noFallback (h : b.NoFallback) : (act O W ci c b f).body.NoFallback := by
  unfold Body.NoFallback at h ⊢
  cases f with
  | downloadFailed said =>
    simp only [act, Turned.body_ite]
    cases said <;> simpa [buildCandidateAttempt, or_imp, forall_and] using h
  | missing left =>
    simp only [act, Turned.body_ite]
    simpa [buildCandidateAttempt, or_imp, forall_and] using h
  | unverified r reason =>
    simp only [act]
    split <;> simpa [buildCandidateAttempt, or_imp, forall_and] using h
  | kept r reason how fp =>
    have hkept : ∀ b' : Body, b'.NoFallback → (b'.noteKept O W.track c fp how).NoFallback := by
      intro b' h'
      unfold Body.NoFallback at h' ⊢
      cases how <;> simpa [Body.noteKept, Body.noteUnverifiedKeep, buildCandidateAttempt, or_imp,
        forall_and] using h'
    have hkept' :=
      hkept ((b.downloaded (.attempt ci) reason).tagged W.track (W.inputs ci).config r) h
    unfold Body.NoFallback at hkept'
    by_cases hreason : reason = ""
    · simpa [act, hreason, Body.acceptTrackFile] using hkept'
    · simpa [act, hreason] using hkept'
  | _ => simpa [act, buildCandidateAttempt, or_imp, forall_and] using h

/-- What is held unverified is held already, or it is the file of this turn. -/
theorem act_heldUnverified {r : DlResult}
    (h : (act O W ci c b f).body.heldUnverified = some (t, r)) :
    b.heldUnverified = some (t, r) ∨
      b.bestUnverified = none ∧ t = .attempt ci ∧ f.isUnverified = true := by
  cases f with
  | downloadFailed said =>
    simp only [act, Turned.body_ite] at h
    cases said <;> exact .inl h
  | missing left =>
    simp only [act, Turned.body_ite] at h
    exact .inl h
  | unverified r reason =>
    simp only [act] at h
    split at h
    · rename_i hnone
      cases h
      exact .inr ⟨Option.isNone_iff_eq_none.mp hnone, rfl, rfl⟩
    · exact .inl h
  | kept r reason how fp =>
    by_cases hreason : reason = ""
    · simp [act, hreason, Body.acceptTrackFile] at h
    · simp [act, hreason] at h
      exact .inl h
  | _ => simp [act] at h; try exact .inl h

/-- What was measured of the files that are held unverified or were accepted. -/
structure Body.Measures (b : Body) (xs : List Turnout) : Prop where
  once : ∀ t s s', .measured t s ∈ b.effects → .measured t s' ∈ b.effects → s = s'
  held : ∀ t r, b.heldUnverified = some (t, r) → ∃ x, xs.find? (·.2.isUnverified) = some x ∧
    ∃ s, some s = x.2.reason ∧ .measured t s ∈ b.effects
  accepted : ∀ a, .accepted a ∈ b.effects → .measured a.temp "" ∈ b.effects
  noFallback : b.NoFallback

/-- One turn keeps track of what was measured. -/
theorem act_measures {xs : List Turnout} (h : b.Measures xs) (hkeeps : b.Keeps ci)
    (hleft : (Turned.next b).LeftBy xs) (c : Candidate) (f : Found) :
    (act O W ci c b f).body.Measures (xs ++ [(c, f)]) where
  once := by
    intro t s s' hs hs'
    have hnew : ∀ s, .measured (.attempt ci) s ∉ b.effects := by
      intro s hmem
      exact hkeeps.fresh ci le_rfl _ hmem rfl
    -- an old measure is not about the file of this turn
    rcases act_measured_mem.mp hs with hold | ⟨ht, hreason⟩ <;>
      rcases act_measured_mem.mp hs' with hold' | ⟨ht', hreason'⟩
    · exact h.once t s s' hold hold'
    · exact absurd (ht' ▸ hold) (hnew s)
    · exact absurd (ht ▸ hold') (hnew s')
    · exact Option.some.inj (hreason.trans hreason'.symm)
  held := by
    intro t r hheld
    rcases act_heldUnverified hheld with hold | ⟨hnone, rfl, hf⟩
    · obtain ⟨x, hx, s, hs, hmem⟩ := h.held t r hold
      exact ⟨x, by rw [List.find?_append, hx, Option.some_or], s, hs,
        act_measured_mem.mpr (.inl hmem)⟩
    -- the first candidate that is left unverified
    · have hfirst : xs.find? (·.2.isUnverified) = none := by
        rw [← Option.map_eq_none_iff, ← hleft.best]
        exact hnone
      refine ⟨(c, f), by rw [List.find?_append, hfirst]; simp [hf], ?_⟩
      cases f with
      | unverified r s => exact ⟨s, rfl, act_measured_mem.mpr (.inr ⟨rfl, rfl⟩)⟩
      | _ => cases hf
  accepted := by
    intro a ha
    rcases act_accepted_mem ha with hold | ⟨htemp, hreason⟩
    · exact act_measured_mem.mpr (.inl (h.accepted a hold))
    · exact act_measured_mem.mpr (.inr ⟨htemp, hreason⟩)
  noFallback := act_noFallback h.noFallback

theorem Body.init_measures (status : Status) : (Body.init.setStatus status).Measures [] := by
  constructor <;> simp [Body.init, Body.NoFallback]

/-- The loop keeps track of what was measured. -/
theorem iterate_measures (status : Status) (hstart : W.skipAtStart = false) :
    ∃ n, (iterate O W (Body.init.setStatus status)).2.body.Keeps n ∧
      (iterate O W (Body.init.setStatus status)).2.body.Measures (course O W) :=
  iterate_invariant (I := fun n xs b => b.Keeps n ∧ b.Measures xs)
    (fun c f hleft h => ⟨act_keeps h.1 hleft c f, act_measures h.2 h.1 hleft c f⟩)
    (Body.init_leftBy status) ⟨Body.init_keeps status, Body.init_measures status⟩ hstart

/-! ### What the function accepts -/

/-- Each accepted file that `_too_short` had a reason against is marked as a last resort. -/
def MarksShortFiles (b : Body) : Prop :=
  ∀ a, .accepted a ∈ b.effects → ∀ s, s ≠ "" → .measured a.temp s ∈ b.effects →
    MarkedLastResort a.attempts

/-- The unverified fallback is a shorter cut, and it is kept: the loop ends without a skip
and without an accepted file, the first candidate that AcoustID could not say anything
about is too short and has the score, and its file is still there. -/
def keepsUnmarked (O : Outside) (W : TrackWorld) : Bool :=
  let xs := course O W
  !xs.any (·.2.skips) && !xs.any (·.2.accepts) &&
    (xs.find? (·.2.isUnverified)).any fun x =>
      x.2.reason ≠ some "" && W.config.minMatchScore ≤ x.1.score && W.heldExists && W.fbExists

variable {tried : ℕ} {low : Bool}

@[simp] theorem accepted_mem_fail :
    .accepted a ∈ (fail O W tried low b).effects ↔ .accepted a ∈ b.effects := by
  unfold fail
  dsimp only
  split <;> simp [recordTrackFailure]

/-- Where no file is accepted there is nothing to mark. -/
theorem marksShortFiles_of_none (h : ∀ a, .accepted a ∉ b.effects) : MarksShortFiles b :=
  fun a ha => absurd ha (h a)

theorem not_accepted_of_acceptances (h : acceptances b.effects = []) :
    ∀ a, .accepted a ∉ b.effects := by
  intro a ha
  have hmem : a ∈ acceptances b.effects := List.mem_filterMap.mpr ⟨_, ha, rfl⟩
  rw [h] at hmem
  exact absurd hmem List.not_mem_nil

/-- The loop itself accepts only files that are long enough. -/
theorem Body.Measures.marksShortFiles {xs : List Turnout} (h : b.Measures xs) :
    MarksShortFiles b :=
  fun a ha _ hs hmem => absurd (h.once _ _ _ hmem (h.accepted a ha)) hs

/-- A last resort is marked. -/
theorem keepLastResort_marks (hnone : ∀ a, .accepted a ∉ b.effects) (fb : HeldFallback) :
    MarksShortFiles (keepLastResort W b fb) := by
  intro a ha s _ _
  simp [keepLastResort, Body.acceptTrackFile, hnone] at ha
  subst ha
  exact ⟨_, List.mem_append_right _ (List.mem_singleton_self _), rfl, fb.note, rfl⟩

/-- An unverified fallback is not marked. -/
theorem finishFallback_marks_iff (hnone : ∀ a, .accepted a ∉ b.effects) (hno : b.NoFallback)
    (c : Candidate) (temp : Temp) (r : DlResult) :
    MarksShortFiles (finishFallback O W tried b c temp (.ok r)) ↔
      (W.fbExists = true → ∀ s, s ≠ "" → .measured temp s ∉ b.effects) := by
  unfold finishFallback
  cases hexists : W.fbExists with
  | false =>
    refine iff_of_true (marksShortFiles_of_none ?_) (fun h => by cases h)
    intro a
    simp [hnone]
  | true =>
    -- the attempt of the fallback carries no note
    have hunmarked : ∀ x : Attempt, x ∈ b.attempts ++
        [buildCandidateAttempt W.track c .ACCEPTED_UNVERIFIED_FALLBACK .empty ""] →
        x.outcome = .ACCEPTED_UNVERIFIED_FALLBACK → x.errorMessage = "" := by
      intro x hx houtcome
      rcases List.mem_append.mp hx with hx | hx
      · exact absurd houtcome (hno x hx)
      · rw [List.mem_singleton.mp hx]
        rfl
    simp only [MarksShortFiles, Body.acceptTrackFile, Body.noteUnverifiedKeep]
    constructor
    · intro h _ s hs hmem
      obtain ⟨x, hx, houtcome, note, hnote⟩ :=
        h _ (by simp; exact .inr rfl) s hs (by simpa using hmem)
      rw [hunmarked x hx houtcome] at hnote
      exact empty_ne_lastResort note hnote
    · intro h a ha s hs hmem
      simp [hnone] at ha
      subst ha
      exact absurd (by simpa using hmem) (h trivial s hs)

/-- After the loop, the one unmarked file is the unverified fallback that was held. -/
theorem unverifiedFallback_marks_iff {xs : List Turnout} {n : ℕ} (hmeasures : b.Measures xs)
    (hkeeps : b.Keeps n) (hnone : ∀ a, .accepted a ∉ b.effects) (c : Candidate)
    (hheld : b.heldUnverified.isSome = true) {x : Turnout}
    (hx : xs.find? (·.2.isUnverified) = some x) :
    MarksShortFiles (unverifiedFallback O W tried b c) ↔
      (W.config.minMatchScore ≤ c.score → W.heldExists = true → W.fbExists = true →
        x.2.reason = some "") := by
  unfold unverifiedFallback
  split
  · rename_i hlow
    refine iff_of_true (marksShortFiles_of_none ?_) (fun h => absurd hlow (not_lt.mpr h))
    intro a
    simp [hnone]
  · rename_i hscore
    obtain ⟨⟨temp, r⟩, hsome⟩ := Option.isSome_iff_exists.mp hheld
    obtain ⟨x', hx', s, hs, hmem⟩ := hmeasures.held temp r hsome
    obtain rfl : x = x' := Option.some.inj (hx.symm.trans hx')
    cases hexists : W.heldExists with
    | true =>
      simp only [hsome]
      refine (finishFallback_marks_iff (b := { b with heldUnverified := none }) hnone
        hmeasures.noFallback c temp r).trans ?_
      rw [← hs, Option.some.injEq]
      constructor
      · intro h _ _ hfile
        by_contra hne
        exact h hfile s hne hmem
      · intro h hfile s' hne' hmem'
        rw [hmeasures.once temp s' s hmem' hmem] at hne'
        exact hne' (h (not_lt.mp hscore) trivial hfile)
    | false =>
      -- What is downloaded again is not measured.
      refine iff_of_true ?_ (fun _ h => by cases h)
      have hfallback : ∀ s, .measured .fallback s ∉ b.effects := by
        intro s hmem
        exact hkeeps.fallback _ hmem rfl
      have hno : Body.NoFallback (b.dropHeldUnverified.setStatus .downloading) := by
        simpa [Body.NoFallback] using hmeasures.noFallback
      simp only [hsome]
      split
      · exact marksShortFiles_of_none fun a => by simp [hnone]
      · exact marksShortFiles_of_none fun a => by simp [finishFallback, hnone]
      · cases hfile : W.fbExists with
        | false => exact marksShortFiles_of_none fun a => by simp [finishFallback, hfile, hnone]
        | true =>
          refine (finishFallback_marks_iff ?_ ?_ c .fallback _).mpr ?_
          · simp [hnone]
          · exact hno
          · intro _ s _
            simp [hfallback]

/-- The file that is accepted after the loop is marked if it was too short, unless it is
the unverified fallback. -/
theorem afterLoop_marks_iff {T : Turned} {n : ℕ} (hkeeps : T.body.Keeps n)
    (hmeasures : T.body.Measures (course O W)) (hleft : T.LeftBy (course O W))
    (hgoes : T.isStop = false) :
    MarksShortFiles (afterLoop O W tried T.body) ↔ keepsUnmarked O W = false := by
  have hskips := hleft.isStop
  have hu := hleft.unverified
  have haccepts := hleft.accepted
  have hbest := hleft.best
  rw [hgoes] at hskips hu
  have honce := hkeeps.acceptances
  unfold afterLoop keepsUnmarked
  dsimp only
  rw [← hskips, ← haccepts]
  cases haccepted : T.body.accepted with
  | true =>
    refine iff_of_true ?_ (by simp)
    intro a ha s hs hmem
    exact hmeasures.marksShortFiles a (by simpa using ha) s hs (by simpa using hmem)
  | false =>
    rw [haccepted] at hu honce
    have hnone := not_accepted_of_acceptances (List.length_eq_zero_iff.mp honce)
    -- nothing was accepted in the loop: the first unverified candidate decides
    cases hfind : (course O W).find? (·.2.isUnverified) with
    | none =>
      rw [hfind] at hbest
      rw [hbest]
      refine iff_of_true ?_ (by simp)
      cases hfallback : T.body.heldFallback with
      | some fb => exact keepLastResort_marks hnone fb
      | none => exact marksShortFiles_of_none fun a => accepted_mem_fail.not.mpr (hnone a)
    | some x =>
      rw [hfind] at hbest
      rw [hbest] at hu ⊢
      have hheld : T.body.heldUnverified.isSome = true := by simpa using hu
      have hiff : MarksShortFiles (unverifiedFallback O W tried T.body x.1) ↔ _ :=
        unverifiedFallback_marks_iff hmeasures hkeeps hnone x.1 hheld hfind
      have hgoal : MarksShortFiles (unverifiedFallback O W tried T.body x.1) ↔
          (!false && !false && (some x).any fun x => x.2.reason ≠ some "" &&
            W.config.minMatchScore ≤ x.1.score && W.heldExists && W.fbExists) = false := by
        rw [hiff]
        by_cases hreason : x.2.reason = some "" <;>
          by_cases hscore : W.config.minMatchScore ≤ x.1.score <;>
            cases W.heldExists <;> cases W.fbExists <;> simp [hreason, hscore]
      cases hfallback : T.body.heldFallback <;> exact hgoal

/-- **When the files that are too short are marked.**  Each accepted file that `_too_short`
had a reason against is recorded as a last resort, unless the unverified fallback is a
shorter cut and is kept. -/
theorem marksShortFiles_iff (O : Outside) (W : TrackWorld) :
    MarksShortFiles (processTrackBody O W) ↔ keepsUnmarked O W = false := by
  rcases processTrackBody_cases O W with ⟨hcourse, heffects⟩ | ⟨hstart, tried, T, hT, hbody⟩
  · refine iff_of_true (marksShortFiles_of_none ?_) (by simp [keepsUnmarked, hcourse])
    intro a
    rcases heffects with h | ⟨reason, h⟩ <;> simp [h]
  · have hleft := iterate_leftBy (O := O) (W := W) (Body.init_leftBy .searching) hstart
    obtain ⟨n, hkeeps, hmeasures⟩ := iterate_measures (O := O) (W := W) .searching hstart
    rw [← hT] at hleft hkeeps hmeasures
    rw [hbody]
    cases hstop : T.isStop with
    | true =>
      have hskips : (course O W).any (·.2.skips) = true := hleft.isStop.symm.trans hstop
      exact iff_of_true hmeasures.marksShortFiles (by simp [keepsUnmarked, hskips])
    | false => exact afterLoop_marks_iff hkeeps hmeasures hleft hstop

/-! ### A shorter cut that AcoustID does not know -/

/-- One search result for a track of 200 seconds, cut to 180 seconds, that AcoustID has no
data about. -/
def unknownCutWorld : TrackWorld where
  track := ⟨"Song", "Band", 200000, some "recording"⟩
  skipAtStart := false
  albumCandidate := none
  search := [upload "first"]
  skipWithoutCandidates := false
  config := ⟨true, "key", 1 / 2, 10⟩
  skipAtExtend := false
  inputs _ := { downloadedInputs 180 with verify := some .unverified }
  heldExists := true
  redownload := .failed none
  fbExists := true
  fileSize := 0
  trackDownloadId := some 1

/-- The cut is accepted as any other unverified file. -/
theorem unknownCut_unmarked :
    ¬ MarksShortFiles (processTrackBody asciiOutside unknownCutWorld) := by
  intro h
  have haccepted : ∃ e ∈ (processTrackBody asciiOutside unknownCutWorld).effects,
      ∃ a ∈ e.acceptance, a.temp = .attempt 0 ∧ ∀ x ∈ a.attempts, x.errorMessage = "" := by
    decide +kernel
  have hmeasured : .measured (.attempt 0) "file is 180s, shorter than the expected 200s" ∈
      (processTrackBody asciiOutside unknownCutWorld).effects := by decide +kernel
  obtain ⟨e, he, a, ha, htemp, hempty⟩ := haccepted
  cases e with
  | accepted a' =>
    obtain rfl : a' = a := Option.some.inj ha
    obtain ⟨x, hx, _, note, hnote⟩ := h a' he _ (by decide) (htemp ▸ hmeasured)
    rw [hempty x hx] at hnote
    exact empty_ne_lastResort note hnote
  | _ => cases ha

end LidarrYtdl
end MediaHub

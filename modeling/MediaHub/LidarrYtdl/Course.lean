import MediaHub.LidarrYtdl.TrackBody

/-!
# The course of a track

What the turns of the loop find out, up to the turn that ends it, follows from the inputs
alone.  From this course one can read how the loop ends, which candidate is left as the
unverified fallback, and whether a last resort is held.

## Main definitions

* `Found.accepts`, `Found.skips`, `Found.aborts`, `Found.offers`, `Found.strands` — what a
  turn leads to.
* `course` — what the turns find out.
* `Turned.LeftBy` — what the loop leaves after some turns.

## Main results

* `act_leftBy` — one turn.
* `iterate_leftBy` — **what the loop leaves is read from its course.**
* `iterate_invariant` — **what every turn preserves holds after the loop.**
* `processTrackBody_cases` — where the function returns.
-/

namespace MediaHub
namespace LidarrYtdl

/-! ### What a turn leads to -/

namespace Found

/-- The file is accepted. -/
def accepts : Found → Bool
  | .kept _ reason _ _ => reason = ""
  | _ => false

/-- The track is skipped. -/
def skips : Found → Bool
  | .skip => true
  | .downloadSkipped => true
  | _ => false

/-- No other candidate is tried: the audio cannot be processed here. -/
def aborts : Found → Bool
  | .downloadFailed (some (_, postprocessError)) => postprocessError
  | _ => false

/-- The file is offered as a last resort. -/
def offers : Found → Bool
  | .otherRecording .. => true
  | .kept _ reason _ _ => reason ≠ ""
  | _ => false

/-- The download leaves a file that is not looked for. -/
def strands : Found → Bool
  | .missing left => left
  | _ => false

/-- AcoustID could not say anything about the file. -/
def isUnverified : Found → Bool
  | .unverified .. => true
  | _ => false

/-- The turn ends the loop. -/
def ends (f : Found) : Bool := f.accepts || f.skips || f.aborts

end Found

/-- A candidate, with what its turn finds out. -/
abbrev Turnout := Candidate × Found

variable (O : Outside) (W : TrackWorld)

/-- What the turns find out, from a position on. -/
def courseFrom : ℕ → List Candidate → List Turnout
  | _, [] => []
  | ci, c :: cs =>
    let f := find O W.track W.config c (W.inputs ci)
    (c, f) :: if f.ends then [] else courseFrom (ci + 1) cs

/-- What the turns of the loop find out. -/
def course : List Turnout :=
  let candidates := (startCandidates W).1
  let first := courseFrom O W 0 candidates
  if W.skipAtStart then []
  else if first.any (·.2.ends) || !extendsWithSearch W then first
  else first ++ courseFrom O W candidates.length (extraCandidates O W)

/-! ### What the loop leaves -/

namespace Turned

@[simp] def body : Turned → Body
  | .next b => b
  | .leave b => b
  | .stop b => b

@[simp] def isNext : Turned → Bool
  | .next _ => true
  | _ => false

@[simp] def isStop : Turned → Bool
  | .stop _ => true
  | _ => false

theorem body_ite (p : Prop) [Decidable p] (b : Body) :
    (if p then Turned.leave b else Turned.next b).body = b := by
  split <;> rfl

end Turned

/-- What is left of the loop after some turns, as far as the fallbacks go. -/
structure Turned.LeftBy (T : Turned) (xs : List Turnout) : Prop where
  isNext : T.isNext = !xs.any (·.2.ends)
  isStop : T.isStop = xs.any (·.2.skips)
  accepted : T.body.accepted = xs.any (·.2.accepts)
  postprocessError : T.body.track.postprocessError = xs.any (·.2.aborts)
  best : T.body.bestUnverified = (xs.find? (·.2.isUnverified)).map Prod.fst
  unverified : T.body.heldUnverified.isSome =
    (T.body.bestUnverified.isSome && !T.body.accepted && !T.isStop)
  fallback : T.body.heldFallback.isSome = xs.any (·.2.offers)

section Frames

/-! Dropping and holding a file touches nothing else. -/

variable (b : Body)

@[simp] theorem Body.dropHeldUnverified_heldUnverified :
    b.dropHeldUnverified.heldUnverified = none := by
  unfold dropHeldUnverified
  split <;> simp_all

@[simp] theorem Body.dropHeldUnverified_accepted :
    (b.dropHeldUnverified).accepted = b.accepted := by
  unfold dropHeldUnverified
  split <;> rfl

@[simp] theorem Body.dropHeldUnverified_track :
    (b.dropHeldUnverified).track = b.track := by
  unfold dropHeldUnverified
  split <;> rfl

@[simp] theorem Body.dropHeldUnverified_bestUnverified :
    (b.dropHeldUnverified).bestUnverified = b.bestUnverified := by
  unfold dropHeldUnverified
  split <;> rfl

@[simp] theorem Body.dropHeldUnverified_heldFallback :
    (b.dropHeldUnverified).heldFallback = b.heldFallback := by
  unfold dropHeldUnverified
  split <;> rfl

@[simp] theorem Body.dropHeldFallback_heldFallback : b.dropHeldFallback.heldFallback = none := by
  unfold dropHeldFallback
  split <;> simp_all

@[simp] theorem Body.dropHeldFallback_accepted :
    (b.dropHeldFallback).accepted = b.accepted := by
  unfold dropHeldFallback
  split <;> rfl

@[simp] theorem Body.dropHeldFallback_track :
    (b.dropHeldFallback).track = b.track := by
  unfold dropHeldFallback
  split <;> rfl

@[simp] theorem Body.dropHeldFallback_bestUnverified :
    (b.dropHeldFallback).bestUnverified = b.bestUnverified := by
  unfold dropHeldFallback
  split <;> rfl

@[simp] theorem Body.dropHeldFallback_heldUnverified :
    (b.dropHeldFallback).heldUnverified = b.heldUnverified := by
  unfold dropHeldFallback
  split <;> rfl

/-- Offering a last resort leaves one held. -/
@[simp] theorem Body.holdFallback_isSome (fb : HeldFallback) :
    (b.holdFallback fb).heldFallback.isSome = true := by
  unfold holdFallback
  split
  · rename_i hany
    show b.heldFallback.isSome = true
    cases hold : b.heldFallback with
    | none => rw [hold] at hany; cases hany
    | some old => rfl
  · rfl

@[simp] theorem Body.holdFallback_accepted (fb : HeldFallback) :
    (b.holdFallback fb).accepted = b.accepted := by
  unfold holdFallback
  split <;> simp

@[simp] theorem Body.holdFallback_track (fb : HeldFallback) :
    (b.holdFallback fb).track = b.track := by
  unfold holdFallback
  split <;> simp

@[simp] theorem Body.holdFallback_bestUnverified (fb : HeldFallback) :
    (b.holdFallback fb).bestUnverified = b.bestUnverified := by
  unfold holdFallback
  split <;> simp

@[simp] theorem Body.holdFallback_heldUnverified (fb : HeldFallback) :
    (b.holdFallback fb).heldUnverified = b.heldUnverified := by
  unfold holdFallback
  split <;> simp

variable (t : TrackInfo) (c : Candidate) (fp : FpData) (how : Kept)

@[simp] theorem Body.noteKept_effects :
    (b.noteKept O t c fp how).effects = b.effects := by
  cases how <;> rfl

@[simp] theorem Body.noteKept_accepted :
    (b.noteKept O t c fp how).accepted = b.accepted := by
  cases how <;> rfl

@[simp] theorem Body.noteKept_track :
    (b.noteKept O t c fp how).track = b.track := by
  cases how <;> rfl

@[simp] theorem Body.noteKept_bestUnverified :
    (b.noteKept O t c fp how).bestUnverified = b.bestUnverified := by
  cases how <;> rfl

@[simp] theorem Body.noteKept_heldUnverified :
    (b.noteKept O t c fp how).heldUnverified = b.heldUnverified := by
  cases how <;> rfl

@[simp] theorem Body.noteKept_heldFallback :
    (b.noteKept O t c fp how).heldFallback = b.heldFallback := by
  cases how <;> rfl

/-! They only clean up, so what else is read off the effects stays. -/

variable {β : Type} {g : Effect → Option β} (hg : ∀ temp, g (.cleaned temp) = none)
include hg

theorem Body.filterMap_dropHeldUnverified :
    b.dropHeldUnverified.effects.filterMap g = b.effects.filterMap g := by
  unfold dropHeldUnverified
  split
  · simp [hg]
  · rfl

theorem Body.filterMap_dropHeldFallback :
    b.dropHeldFallback.effects.filterMap g = b.effects.filterMap g := by
  unfold dropHeldFallback
  split
  · simp [hg]
  · rfl

theorem Body.filterMap_holdFallback (fb : HeldFallback) :
    (b.holdFallback fb).effects.filterMap g = b.effects.filterMap g := by
  unfold holdFallback
  split
  · simp [hg]
  · exact filterMap_dropHeldFallback b hg

end Frames

/-! ### One turn -/

/-- What one turn leads to, while nothing is accepted. -/
structure Turned.Does (T : Turned) (b : Body) (c : Candidate) (f : Found) : Prop where
  isNext : T.isNext = !f.ends
  isStop : T.isStop = f.skips
  accepted : T.body.accepted = f.accepts
  postprocessError : T.body.track.postprocessError = f.aborts
  best : T.body.bestUnverified = b.bestUnverified.or (if f.isUnverified then some c else none)
  unverified : T.body.heldUnverified.isSome =
    (T.body.bestUnverified.isSome && !f.accepts && !f.skips)
  fallback : T.body.heldFallback.isSome = (b.heldFallback.isSome || f.offers)

theorem act_does (b : Body) (haccepted : b.accepted = false)
    (hprocessed : b.track.postprocessError = false)
    (hheld : b.heldUnverified.isSome = b.bestUnverified.isSome) (ci : ℕ) (c : Candidate)
    (f : Found) : (act O W ci c b f).Does b c f := by
  -- the answers after which `act` looks at something else as well
  cases f
  case' downloadFailed said => rcases said with _ | ⟨errorMessage, _ | _⟩
  case' unverified r reason => rcases hbest : b.bestUnverified with _ | c' <;> rw [hbest] at hheld
  case' kept r reason how fp => by_cases hreason : reason = ""
  all_goals
    constructor <;> simp [act, Found.ends, Found.accepts, Found.skips, Found.aborts, Found.offers,
      Found.isUnverified, Body.acceptTrackFile, *]

/-! ### The whole loop -/

variable {O W} {xs : List Turnout} {b : Body}

/-- Nothing has ended a loop that is going on. -/
theorem Turned.LeftBy.of_next (h : (Turned.next b).LeftBy xs) :
    xs.any (·.2.accepts) = false ∧ xs.any (·.2.skips) = false ∧ xs.any (·.2.aborts) = false := by
  have hends : ∀ x ∈ xs, x.2.ends = false := by simpa using h.isNext
  simp only [List.any_eq_false, Bool.not_eq_true]
  have hsplit : ∀ x ∈ xs, (x.2.accepts = false ∧ x.2.skips = false) ∧ x.2.aborts = false := by
    simpa [Found.ends] using hends
  exact ⟨fun x hx => (hsplit x hx).1.1, fun x hx => (hsplit x hx).1.2, fun x hx => (hsplit x hx).2⟩

/-- While the loop is going on, a file is held unverified if a candidate was left so. -/
theorem Turned.LeftBy.held (h : (Turned.next b).LeftBy xs) :
    b.heldUnverified.isSome = b.bestUnverified.isSome := by
  have haccepted : b.accepted = false := h.accepted.trans h.of_next.1
  simpa [haccepted] using h.unverified

/-- One more turn of a loop that is going on. -/
theorem act_leftBy (h : (Turned.next b).LeftBy xs) (ci : ℕ) (c : Candidate) (f : Found) :
    (act O W ci c b f).LeftBy (xs ++ [(c, f)]) := by
  obtain ⟨haccepts, hskips, haborts⟩ := h.of_next
  have hends : xs.any (·.2.ends) = false := by simpa using h.isNext
  have haccepted : b.accepted = false := h.accepted.trans haccepts
  have hdoes := act_does O W b haccepted (h.postprocessError.trans haborts) h.held ci c f
  constructor
  · rw [hdoes.isNext, List.any_append, hends]
    simp
  · rw [hdoes.isStop, List.any_append, hskips]
    simp
  · rw [hdoes.accepted, List.any_append, haccepts]
    simp
  · rw [hdoes.postprocessError, List.any_append, haborts]
    simp
  · rw [hdoes.best, List.find?_append, show b.bestUnverified = _ from h.best]
    cases xs.find? (·.2.isUnverified) <;> cases hf : f.isUnverified <;> simp [hf]
  · rw [hdoes.unverified, hdoes.accepted, hdoes.isStop]
  · rw [hdoes.fallback, List.any_append, show b.heldFallback.isSome = _ from h.fallback]
    simp

/-- A loop that is going on goes on unless the answer ends it. -/
theorem act_isNext (h : (Turned.next b).LeftBy xs) (ci : ℕ) (c : Candidate) (f : Found) :
    (act O W ci c b f).isNext = !f.ends := by
  have hends : xs.any (·.2.ends) = false := by simpa using h.isNext
  rw [(act_leftBy h ci c f).isNext, List.any_append, hends]
  simp

variable {ci : ℕ} {c : Candidate} {cs : List Candidate}

theorem loop_of_next
    (h : (act O W ci c b (find O W.track W.config c (W.inputs ci))).isNext = true) :
    loop O W ci (c :: cs) b =
      loop O W (ci + 1) cs (act O W ci c b (find O W.track W.config c (W.inputs ci))).body := by
  rw [loop]
  cases hact : act O W ci c b (find O W.track W.config c (W.inputs ci)) with
  | next b' => rfl
  | _ => simp [hact] at h

theorem loop_of_ends
    (h : (act O W ci c b (find O W.track W.config c (W.inputs ci))).isNext = false) :
    loop O W ci (c :: cs) b = act O W ci c b (find O W.track W.config c (W.inputs ci)) := by
  rw [loop]
  cases hact : act O W ci c b (find O W.track W.config c (W.inputs ci)) with
  | next b' => simp [hact] at h
  | _ => rfl

theorem iterate_of_next (h : (loop O W 0 (startCandidates W).1 b).isNext = true) :
    (iterate O W b).2 = if extendsWithSearch W then
        loop O W (startCandidates W).1.length (extraCandidates O W)
          (loop O W 0 (startCandidates W).1 b).body
      else loop O W 0 (startCandidates W).1 b := by
  rw [iterate]
  cases hloop : loop O W 0 (startCandidates W).1 b with
  | next b' => cases hext : extendsWithSearch W <;> simp
  | _ => simp [hloop] at h

theorem iterate_of_ends (h : (loop O W 0 (startCandidates W).1 b).isNext = false) :
    (iterate O W b).2 = loop O W 0 (startCandidates W).1 b := by
  rw [iterate]
  cases hloop : loop O W 0 (startCandidates W).1 b with
  | next b' => simp [hloop] at h
  | _ => rfl

/-- Where the loop has not ended, its course goes on. -/
theorem courseFrom_cons (ci : ℕ) (c : Candidate) (cs : List Candidate) :
    courseFrom O W ci (c :: cs) = (c, find O W.track W.config c (W.inputs ci)) ::
      if (find O W.track W.config c (W.inputs ci)).ends then []
      else courseFrom O W (ci + 1) cs := rfl

/-- A body is all that is left of a loop that goes on. -/
theorem Turned.next_body {T : Turned} (h : T.isNext = true) : Turned.next T.body = T := by
  cases T with
  | next b => rfl
  | _ => cases h

/-- The loop from a position on. -/
theorem loop_leftBy (h : (Turned.next b).LeftBy xs) (ci : ℕ) (cs : List Candidate) :
    (loop O W ci cs b).LeftBy (xs ++ courseFrom O W ci cs) := by
  induction cs generalizing ci b xs with
  | nil => simpa [loop, courseFrom] using h
  | cons c cs ih =>
    have hturn := act_leftBy (O := O) (W := W) h ci c (find O W.track W.config c (W.inputs ci))
    have hnext := act_isNext (O := O) (W := W) h ci c (find O W.track W.config c (W.inputs ci))
    rw [courseFrom_cons]
    cases hends : (find O W.track W.config c (W.inputs ci)).ends with
    | false =>
      rw [hends] at hnext
      rw [← Turned.next_body hnext] at hturn
      rw [loop_of_next hnext]
      simpa using ih hturn (ci + 1)
    | true =>
      rw [hends] at hnext
      rw [loop_of_ends hnext]
      simpa using hturn

/-- **What the loop leaves is read from its course.** -/
theorem iterate_leftBy (h : (Turned.next b).LeftBy []) (hstart : W.skipAtStart = false) :
    (iterate O W b).2.LeftBy (course O W) := by
  have hfirst := loop_leftBy (O := O) (W := W) h 0 (startCandidates W).1
  rw [List.nil_append] at hfirst
  have hnext := hfirst.isNext
  simp only [course, hstart, Bool.false_eq_true, if_false]
  cases hends : (courseFrom O W 0 (startCandidates W).1).any (·.2.ends) with
  | false =>
    rw [hends] at hnext
    rw [iterate_of_next hnext]
    -- the search is made again where it may still help
    cases hext : extendsWithSearch W with
    | false => simpa using hfirst
    | true =>
      rw [← Turned.next_body hnext] at hfirst
      simpa using loop_leftBy hfirst (startCandidates W).1.length (extraCandidates O W)
  | true =>
    rw [hends] at hnext
    rw [iterate_of_ends hnext]
    simpa using hfirst

/-! ### Invariants of the loop -/

variable {I : ℕ → List Turnout → Body → Prop}

/-- What every turn preserves holds after the loop from a position on. -/
theorem loop_invariant
    (hact : ∀ {ci xs b} (c : Candidate) (f : Found), (Turned.next b).LeftBy xs → I ci xs b →
      I (ci + 1) (xs ++ [(c, f)]) (act O W ci c b f).body)
    {ci : ℕ} (hleft : (Turned.next b).LeftBy xs) (h : I ci xs b) (cs : List Candidate) :
    ∃ n, I n (xs ++ courseFrom O W ci cs) (loop O W ci cs b).body ∧
      ((loop O W ci cs b).isNext = true → n = ci + cs.length) := by
  induction cs generalizing ci b xs with
  | nil => exact ⟨ci, by simpa [loop, courseFrom] using h, fun _ => rfl⟩
  | cons c cs ih =>
    have hturn := act_leftBy (O := O) (W := W) hleft ci c (find O W.track W.config c (W.inputs ci))
    have hnext := act_isNext (O := O) (W := W) hleft ci c (find O W.track W.config c (W.inputs ci))
    have hstep := hact c (find O W.track W.config c (W.inputs ci)) hleft h
    rw [courseFrom_cons]
    cases hends : (find O W.track W.config c (W.inputs ci)).ends with
    | false =>
      rw [hends] at hnext
      rw [← Turned.next_body hnext] at hturn
      rw [loop_of_next hnext]
      obtain ⟨n, hn, hlen⟩ := ih hturn hstep
      refine ⟨n, by simpa using hn, ?_⟩
      intro hgoes
      rw [hlen hgoes, List.length_cons]
      omega
    | true =>
      rw [hends] at hnext
      rw [loop_of_ends hnext]
      refine ⟨ci + 1, by simpa using hstep, ?_⟩
      intro hgoes
      rw [hnext] at hgoes
      cases hgoes

/-- **What every turn preserves holds after the loop.** -/
theorem iterate_invariant
    (hact : ∀ {ci xs b} (c : Candidate) (f : Found), (Turned.next b).LeftBy xs → I ci xs b →
      I (ci + 1) (xs ++ [(c, f)]) (act O W ci c b f).body)
    (hleft : (Turned.next b).LeftBy []) (h : I 0 [] b) (hstart : W.skipAtStart = false) :
    ∃ n, I n (course O W) (iterate O W b).2.body := by
  obtain ⟨n, hn, hlen⟩ := loop_invariant hact hleft h (startCandidates W).1
  have hfirst := loop_leftBy (O := O) (W := W) hleft 0 (startCandidates W).1
  rw [List.nil_append] at hn hfirst
  have hnext := hfirst.isNext
  simp only [course, hstart, Bool.false_eq_true, if_false]
  cases hends : (courseFrom O W 0 (startCandidates W).1).any (·.2.ends) with
  | false =>
    rw [hends] at hnext
    rw [iterate_of_next hnext]
    obtain rfl : n = (startCandidates W).1.length := by simpa using hlen hnext
    cases hext : extendsWithSearch W with
    | false => exact ⟨_, by simpa using hn⟩
    | true =>
      rw [← Turned.next_body hnext] at hfirst
      obtain ⟨m, hm, -⟩ := loop_invariant hact hfirst hn (extraCandidates O W)
      exact ⟨m, by simpa using hm⟩
  | true =>
    rw [hends] at hnext
    rw [iterate_of_ends hnext]
    exact ⟨n, by simpa using hn⟩

/-! ### The whole function -/

/-- Without candidates there is nothing to search again. -/
theorem course_of_no_candidates (h : (startCandidates W).1 = []) : course O W = [] := by
  have hext : extendsWithSearch W = false := by
    unfold extendsWithSearch
    unfold startCandidates at h ⊢
    cases halbum : W.albumCandidate with
    | none => rfl
    | some c => rw [halbum] at h; cases h
  simp [course, h, hext, courseFrom]

theorem Body.init_leftBy (status : Status) :
    (Turned.next (Body.init.setStatus status)).LeftBy [] := by
  constructor <;> rfl

variable (O W)

/-- **The function returns before its loop, or in it, or after it.** -/
theorem processTrackBody_cases :
    (course O W = [] ∧ ((processTrackBody O W).effects = [] ∨
      ∃ reason, (processTrackBody O W).effects = [.failure reason []])) ∨
    (W.skipAtStart = false ∧ ∃ tried T, T = (iterate O W (Body.init.setStatus .searching)).2 ∧
      processTrackBody O W = if T.isStop then T.body else afterLoop O W tried T.body) := by
  unfold processTrackBody
  split
  next hstart => exact .inl ⟨by simp [course, hstart], .inl rfl⟩
  next hstart =>
    dsimp only
    split
    next hnone =>
      refine .inl ⟨course_of_no_candidates hnone, ?_⟩
      split
      · exact .inl rfl
      · exact .inr ⟨_, rfl⟩
    next =>
      refine .inr ⟨by simpa using hstart, ?_⟩
      cases hiterate : iterate O W (Body.init.setStatus .searching) with
      | mk candidates T => cases T <;> exact ⟨candidates.length, _, rfl, rfl⟩

end LidarrYtdl
end MediaHub

import MediaHub.Bazarr.TranslateMissing
import MediaHub.Lib.StepRuns
import Mathlib.Data.List.GetD

/-!
# Whose error it is

Lines of Bazarr's log about the quota or about malformed JSON name no file, so `process_one`
takes those for its own that are stamped at most five seconds before its request.  Here the
items are processed on a time line: Bazarr logs when it likes, and the script makes a
request, waits for its answer, sleeps and polls.

## Main definitions

* `step` — what Bazarr, the clock or the script does next.
* `OwnError` — an item is blamed for a line that was logged after its request.
* `Clear` — no request is made just after such a line.

## Main results

* `outcome_of_processOne` — each item on the time line is a call of `process_one`.
* `ownError_of_clear` — **where no request is made just after a line about an error, each item
  is blamed for its own.**
* `previousError_blamed` — the item that follows a failed one.
-/

namespace MediaHub
namespace Bazarr
namespace TranslateMissing

variable (P : Platform)

/-! ### The time line -/

/-- An item whose request was made. -/
structure Running where
  kind : Kind
  item : Item
  requestTime : ℚ
  request : Request
  /-- The request was answered with 204. -/
  answered : Bool
  /-- The time at which the script wakes up. -/
  wakesAt : ℚ
  /-- What the polls have found. -/
  polls : List (Poll P)

/-- What `process_one` has returned. -/
structure Outcome where
  kind : Kind
  item : Item
  requestTime : ℚ
  result : Result
  deriving DecidableEq, Repr

structure State where
  now : ℚ
  /-- `bazarr.log`, if it is there. -/
  log : Option (List (LogLine P))
  /-- All lines that were ever logged. -/
  logged : List (LogLine P)
  current : Option (Running P)
  outcomes : List Outcome

inductive Label where
  /-- Time passes. -/
  | wait (seconds : ℚ)
  /-- Bazarr logs a line. -/
  | write (l : LogLine P)
  /-- The log is moved away. -/
  | rotate
  /-- The script goes on to the next item, and makes its request. -/
  | start (kind : Kind) (item : Item) (detail : Option Detail)
  /-- The request is answered. -/
  | answer (code : String)
  /-- The script wakes up, finds this in the file that should appear, and reads the log. -/
  | poll (content : Option String)

variable {P}

/-- The item is done. -/
def State.done (s : State P) (r : Running P) (result : Result) : State P :=
  { s with
    current := none
    outcomes := s.outcomes ++ [⟨r.kind, r.item, r.requestTime, result⟩] }

/-- A poll, and the end of the loop where the time is up. -/
def State.poll (s : State P) (r : Running P) (content : Option String) : State P :=
  let poll : Poll P := ⟨content, s.log⟩
  let polls := r.polls ++ [poll]
  match pollOnce P r.requestTime r.request poll with
  | some result => s.done r result
  | none =>
    if polls.length * POLL_INTERVAL < POLL_TIMEOUT then
      { s with current := some { r with polls := polls, wakesAt := s.now + POLL_INTERVAL } }
    else s.done r .timeout

/-- What Bazarr, the clock or the script does next. -/
def step (s : State P) : Label P → Option (State P)
  | .wait seconds => if 0 ≤ seconds then some { s with now := s.now + seconds } else none
  | .write l =>
    if l.loggedAt = s.now then
      some { s with log := some (s.log.getD [] ++ [l]), logged := s.logged ++ [l] }
    else none
  | .rotate => some { s with log := none }
  | .start kind item detail =>
    if s.current.isSome then none
    else
      match prepare kind item detail with
      | none => some { s with outcomes := s.outcomes ++ [⟨kind, item, s.now, .skip⟩] }
      | some request =>
        some { s with current := some ⟨kind, item, s.now, request, false, s.now, []⟩ }
  | .answer code =>
    match s.current with
    | none => none
    | some r =>
      if r.answered then none
      else if code ≠ "204" then some (s.done r .fail)
      else some { s with
        current := some { r with answered := true, wakesAt := s.now + POLL_INTERVAL } }
  | .poll content =>
    match s.current with
    | none => none
    | some r => if r.answered && r.wakesAt ≤ s.now then some (s.poll r content) else none

/-- Before the first item: the log holds some lines. -/
def State.init (now : ℚ) (log : Option (List (LogLine P))) : State P :=
  ⟨now, log, log.getD [], none, []⟩

/-! ### What is promised -/

/-- The markers of the lines that an item is blamed for. -/
def Result.markers : Result → Option (List String)
  | .malformedJson => some MALFORMED_JSON_MARKERS
  | .rateLimited => some RATE_LIMIT_MARKERS
  | _ => none

/-- An item is blamed only for a line that was logged no earlier than its request. -/
def OwnError (logged : List (LogLine P)) (o : Outcome) : Prop :=
  ∀ markers, o.result.markers = some markers →
    ∃ l ∈ logged, hasMarker markers l.text = true ∧ o.requestTime ≤ l.loggedAt

/-- The line is about the quota or about malformed JSON. -/
def LogLine.isError (l : LogLine P) : Bool :=
  hasMarker RATE_LIMIT_MARKERS l.text || hasMarker MALFORMED_JSON_MARKERS l.text

/-- The lines of the log that are read, from the newest. -/
def State.readable (s : State P) : List (LogLine P) :=
  newest TAIL_BYTES (s.log.getD []).reverse

/-- Where a request is made, no line about an error has a stamp of the last five seconds. -/
def Clear (s : State P) : Label P → Prop
  | .start kind item detail => prepare kind item detail ≠ none →
      ∀ l ∈ s.readable, l.isError = true → ∀ t, stampOf P l.text = some t → t < s.now - SLACK
  | _ => True

instance (s : State P) (l : Label P) : Decidable (Clear s l) :=
  match l with
  | .start kind item detail => inferInstanceAs (Decidable (prepare kind item detail ≠ none →
      ∀ l ∈ s.readable, l.isError = true → ∀ t ∈ stampOf P l.text, t < s.now - SLACK))
  | .wait _ | .write _ | .rotate | .answer _ | .poll _ => inferInstanceAs (Decidable True)

/-- What a step can be. -/
theorem step_cases {s s' : State P} {l : Label P} (h : step s l = some s') :
    (∃ seconds, 0 ≤ seconds ∧ s' = { s with now := s.now + seconds }) ∨
    (∃ line : LogLine P, line.loggedAt = s.now ∧
      s' = { s with log := some (s.log.getD [] ++ [line]), logged := s.logged ++ [line] }) ∨
    s' = { s with log := none } ∨
    (∃ kind item detail, prepare kind item detail = none ∧
      s' = { s with outcomes := s.outcomes ++ [⟨kind, item, s.now, .skip⟩] }) ∨
    (∃ kind item detail request, l = .start kind item detail ∧
      prepare kind item detail = some request ∧
      s' = { s with current := some ⟨kind, item, s.now, request, false, s.now, []⟩ }) ∨
    (∃ r code, s.current = some r ∧ code ≠ "204" ∧ s' = s.done r .fail) ∨
    (∃ r, s.current = some r ∧ s' = { s with
      current := some { r with answered := true, wakesAt := s.now + POLL_INTERVAL } }) ∨
    (∃ r content, s.current = some r ∧ s' = s.poll r content) := by
  cases l with
  | wait seconds =>
    simp only [step] at h
    split at h
    next hpos => exact .inl ⟨seconds, hpos, (Option.some.inj h).symm⟩
    next => cases h
  | write line =>
    simp only [step] at h
    split at h
    next hnow => exact .inr (.inl ⟨line, hnow, (Option.some.inj h).symm⟩)
    next => cases h
  | rotate => exact .inr (.inr (.inl (Option.some.inj h).symm))
  | start kind item detail =>
    simp only [step] at h
    split at h
    next => cases h
    next =>
      refine .inr (.inr (.inr ?_))
      split at h
      next hnone => exact .inl ⟨kind, item, detail, hnone, (Option.some.inj h).symm⟩
      next request hsome =>
        exact .inr (.inl ⟨kind, item, detail, request, rfl, hsome, (Option.some.inj h).symm⟩)
  | answer code =>
    simp only [step] at h
    split at h
    next => cases h
    next r hr =>
      refine .inr (.inr (.inr (.inr (.inr ?_))))
      split at h
      next => cases h
      split at h
      next hcode => exact .inl ⟨r, code, hr, hcode, (Option.some.inj h).symm⟩
      next => exact .inr (.inl ⟨r, hr, (Option.some.inj h).symm⟩)
  | poll content =>
    simp only [step] at h
    split at h
    next => cases h
    next r hr =>
      split at h
      next =>
        have heq := (Option.some.inj h).symm
        exact .inr (.inr (.inr (.inr (.inr (.inr (.inr ⟨r, content, hr, heq⟩))))))
      next => cases h

/-! ### What a poll reads -/

theorem mem_of_mem_newest {left : ℕ} {ls : List (LogLine P)} {l : LogLine P}
    (h : l ∈ newest left ls) : l ∈ ls := by
  induction ls generalizing left with
  | nil => exact h
  | cons a ls ih =>
    unfold newest at h
    split at h
    · rcases List.mem_cons.mp h with rfl | h
      · exact List.mem_cons_self
      · exact List.mem_cons_of_mem _ (ih h)
    · cases h

/-- Of what fits into less, all fits into more. -/
theorem mem_newest_mono {left left' : ℕ} (hle : left ≤ left') {ls : List (LogLine P)}
    {l : LogLine P} (h : l ∈ newest left ls) : l ∈ newest left' ls := by
  induction ls generalizing left left' with
  | nil => exact h
  | cons a ls ih =>
    unfold newest at h ⊢
    split at h
    next hfits =>
      rw [if_pos (hfits.trans hle)]
      rcases List.mem_cons.mp h with rfl | h
      · exact List.mem_cons_self
      · exact List.mem_cons_of_mem _ (ih (Nat.sub_le_sub_right hle _) h)
    next => cases h

/-- A line that is logged leaves no room for others, but makes none readable. -/
theorem mem_newest_concat {left : ℕ} {lines : List (LogLine P)} {a l : LogLine P}
    (h : l ∈ newest left (lines ++ [a]).reverse) : l = a ∨ l ∈ newest left lines.reverse := by
  rw [List.reverse_append, List.reverse_singleton, List.singleton_append] at h
  unfold newest at h
  split at h
  · rcases List.mem_cons.mp h with rfl | h
    · exact .inl rfl
    · exact .inr (mem_newest_mono (Nat.sub_le _ _) h)
  · cases h

/-- The line that a category comes from is recent, and has its marker. -/
theorem scan_spec {cutoff : ℚ} {pathHint : String} {ls : List (LogLine P)} {c : Category}
    (h : scan P cutoff pathHint ls = some c) :
    ∃ l ∈ ls, (∃ t, stampOf P l.text = some t ∧ cutoff ≤ t) ∧
      ∀ markers, c.result.markers = some markers → hasMarker markers l.text = true := by
  induction ls with
  | nil => cases h
  | cons l ls ih =>
    unfold scan at h
    split at h
    next => exact List.exists_mem_cons_of_exists (ih h)
    next t hstamp =>
      split at h
      next => cases h
      next hrecent =>
        have hstamped : ∃ t, stampOf P l.text = some t ∧ cutoff ≤ t :=
          ⟨t, hstamp, not_lt.mp hrecent⟩
        split at h
        next hrate =>
          cases h
          refine ⟨l, List.mem_cons_self, hstamped, ?_⟩
          intro markers hm
          exact Option.some.inj hm ▸ hrate
        split at h
        next hjson =>
          cases h
          refine ⟨l, List.mem_cons_self, hstamped, ?_⟩
          intro markers hm
          exact Option.some.inj hm ▸ hjson
        split at h
        next =>
          cases h
          exact ⟨l, List.mem_cons_self, hstamped, nofun⟩
        next => exact List.exists_mem_cons_of_exists (ih h)

/-- A poll that blames an item has read a recent line with a marker. -/
theorem pollOnce_spec {s : State P} {requestTime : ℚ} {r : Request} {content : Option String}
    {result : Result} (h : pollOnce P requestTime r ⟨content, s.log⟩ = some result)
    {markers : List String} (hm : result.markers = some markers) :
    ∃ l ∈ s.readable, hasMarker markers l.text = true ∧
      ∃ t, stampOf P l.text = some t ∧ requestTime - SLACK ≤ t := by
  unfold pollOnce at h
  split at h
  next => cases h; cases hm
  next =>
    obtain ⟨c, hc, rfl⟩ := Option.map_eq_some_iff.mp h
    obtain ⟨lines, hlog, hscan⟩ := Option.bind_eq_some_iff.mp hc
    obtain ⟨l, hl, hstamp, hmarker⟩ := scan_spec hscan
    dsimp only at hlog
    exact ⟨l, by rwa [State.readable, hlog], hmarker markers hm, hstamp⟩

theorem LogLine.isError_of_markers {l : LogLine P} {result : Result} {markers : List String}
    (hm : result.markers = some markers) (h : hasMarker markers l.text = true) :
    l.isError = true := by
  unfold LogLine.isError
  cases result with
  | rateLimited => rw [Option.some.inj hm, h, Bool.true_or]
  | malformedJson => rw [Option.some.inj hm, h, Bool.or_true]
  | _ => cases hm

/-! ### The run -/

/-- Between the steps: the items were blamed for their own errors, and the lines about an
error that the running item can be blamed for were logged after its request. -/
structure Tidy (s : State P) : Prop where
  outcomes : ∀ o ∈ s.outcomes, OwnError s.logged o
  logged : ∀ l ∈ s.log.getD [], l ∈ s.logged
  begun : ∀ r, s.current = some r → r.requestTime ≤ s.now
  current : ∀ r, s.current = some r → ∀ l ∈ s.readable, l.isError = true →
    ∀ t, stampOf P l.text = some t → r.requestTime - SLACK ≤ t → r.requestTime ≤ l.loggedAt

variable {s s' : State P}

/-- The running item is done with a result that blames it for its own error, if for any. -/
theorem Tidy.done (h : Tidy s) {r : Running P} {result : Result}
    (hown : OwnError s.logged ⟨r.kind, r.item, r.requestTime, result⟩) :
    Tidy (s.done r result) where
  outcomes o ho := by
    rcases List.mem_append.mp ho with ho | ho
    · exact h.outcomes o ho
    · rwa [List.mem_singleton.mp ho]
  logged := h.logged
  begun r' hr' := by cases hr'
  current r' hr' := by cases hr'

/-- The running item goes on with the request that it has made. -/
theorem Tidy.goesOn (h : Tidy s) {r r' : Running P} (hr : s.current = some r)
    (htime : r'.requestTime = r.requestTime) : Tidy { s with current := some r' } where
  outcomes := h.outcomes
  logged := h.logged
  begun r₁ hr₁ := by
    rw [← Option.some.inj hr₁, htime]
    exact h.begun r hr
  current r₁ hr₁ := by
    rw [← Option.some.inj hr₁, htime]
    exact h.current r hr

theorem Tidy.poll (h : Tidy s) {r : Running P} (hr : s.current = some r)
    (content : Option String) : Tidy (s.poll r content) := by
  unfold State.poll
  dsimp only
  split
  next result hpoll =>
    refine h.done ?_
    intro markers hm
    obtain ⟨l, hl, hmarker, t, hstamp, hrecent⟩ := pollOnce_spec hpoll hm
    have herror : l.isError = true := l.isError_of_markers hm hmarker
    have hlogged : l ∈ s.logged := h.logged l (List.mem_reverse.mp (mem_of_mem_newest hl))
    exact ⟨l, hlogged, hmarker, h.current r hr l hl herror t hstamp hrecent⟩
  next =>
    split
    next => exact h.goesOn hr rfl
    next => exact h.done nofun

/-- A line that is logged while an item runs is logged after its request. -/
theorem Tidy.write (h : Tidy s) {l : LogLine P} (hnow : l.loggedAt = s.now) :
    Tidy { s with log := some (s.log.getD [] ++ [l]), logged := s.logged ++ [l] } where
  outcomes o ho markers hm := by
    obtain ⟨l', hl', hspec⟩ := h.outcomes o ho markers hm
    exact ⟨l', List.mem_append_left _ hl', hspec⟩
  logged l' hl' := by
    rcases List.mem_append.mp hl' with hl' | hl'
    · exact List.mem_append_left _ (h.logged l' hl')
    · exact List.mem_append_right _ hl'
  begun := h.begun
  current r hr l' hl' herror t hstamp hrecent := by
    rcases mem_newest_concat hl' with rfl | hold
    · exact hnow ▸ h.begun r hr
    · exact h.current r hr l' hold herror t hstamp hrecent

/-- **Each step keeps the blame in order**, where requests are made only in a clear log. -/
theorem tidy_step {l : Label P} (h : Tidy s) (hclear : Clear s l) (hstep : step s l = some s') :
    Tidy s' := by
  rcases step_cases hstep with ⟨seconds, hpos, rfl⟩ | ⟨line, hnow, rfl⟩ | rfl |
    ⟨kind, item, detail, -, rfl⟩ | ⟨kind, item, detail, request, rfl, hsome, rfl⟩ |
    ⟨r, code, hr, -, rfl⟩ | ⟨r, hr, rfl⟩ | ⟨r, content, hr, rfl⟩
  · exact ⟨h.outcomes, h.logged,
      fun r hr => (h.begun r hr).trans (le_add_of_nonneg_right hpos), h.current⟩
  · exact h.write hnow
  -- the log is rotated
  · have hempty : ({ s with log := none } : State P).readable = [] := rfl
    refine ⟨h.outcomes, fun l hl => absurd hl List.not_mem_nil, h.begun, ?_⟩
    intro r _ l hl
    exact absurd (hempty ▸ hl) List.not_mem_nil
  -- an item for which no request is made
  · refine ⟨?_, h.logged, h.begun, h.current⟩
    intro o ho
    rcases List.mem_append.mp ho with ho | ho
    · exact h.outcomes o ho
    · rw [List.mem_singleton.mp ho]
      exact nofun
  · refine ⟨h.outcomes, h.logged, ?_, ?_⟩
    · intro r hr
      exact Option.some.inj hr ▸ le_rfl
    · intro r hr l hl herror t hstamp hrecent
      -- Such a line would have had to be older.
      obtain rfl := Option.some.inj hr
      have hold : t < s.now - SLACK := hclear (by simp [hsome]) l hl herror t hstamp
      exact absurd hrecent (not_le.mpr hold)
  · exact h.done nofun
  · exact h.goesOn hr rfl
  · exact h.poll hr content

/-- **An item is blamed for its own error**, where no request is made within five seconds of
an older line about one. -/
theorem ownError_of_clear {now : ℚ} {log : Option (List (LogLine P))} {ls : List (Label P)}
    (hrun : runSteps step (.init now log) ls = some s)
    (hall : AllSteps step Clear (.init now log) ls) : ∀ o ∈ s.outcomes, OwnError s.logged o := by
  have hinit : Tidy (State.init now log) :=
    ⟨fun o ho => absurd ho List.not_mem_nil, fun _ h => h, fun r hr => (by cases hr),
      fun r hr => (by cases hr)⟩
  have htidy : Tidy s :=
    invariant_of_allSteps (I := Tidy) (fun _ _ _ => tidy_step) hinit hall hrun
  exact htidy.outcomes

/-! ### Each item is a call of `process_one` -/

theorem processOne_result (W : ItemWorld P) {kind : Kind} {item : Item} {r : Request}
    (hr : prepare kind item W.detail = some r) (blocklist : Option Attempts) :
    (processOne P W kind item blocklist).1 = if W.code r.patchData ≠ "204" then .fail
      else pollLoop P W.requestTime r W.polls (POLL_TIMEOUT / POLL_INTERVAL) 0 := by
  unfold processOne
  rw [hr]
  dsimp only
  split
  next => rfl
  next => split <;> simp_all

/-- Polls that find nothing bring the loop on. -/
theorem pollLoop_add {t : ℚ} {r : Request} {polls : ℕ → Poll P} {n left waited : ℕ}
    (h : ∀ i < n, pollOnce P t r (polls (waited + POLL_INTERVAL * (i + 1))) = none) :
    pollLoop P t r polls (n + left) waited =
      pollLoop P t r polls left (waited + POLL_INTERVAL * n) := by
  induction n generalizing waited with
  | zero => rw [Nat.zero_add]; rfl
  | succ n ih =>
    have hfirst := h 0 n.succ_pos
    rw [Nat.zero_add, Nat.mul_one] at hfirst
    have hrest := @ih (waited + POLL_INTERVAL) fun i hi => by
      have hlater : waited + POLL_INTERVAL + POLL_INTERVAL * (i + 1) =
          waited + POLL_INTERVAL * (i + 1 + 1) := by
        unfold POLL_INTERVAL
        omega
      rw [hlater]
      exact h (i + 1) (Nat.succ_lt_succ hi)
    rw [Nat.succ_add, pollLoop, hfirst]
    refine hrest.trans (congrArg (pollLoop P t r polls left) ?_)
    unfold POLL_INTERVAL
    omega

/-- What some polls find, by the seconds that were waited for them. -/
def pollsAt (polls : List (Poll P)) (waited : ℕ) : Poll P :=
  polls.getD (waited / POLL_INTERVAL - 1) ⟨none, none⟩

theorem pollsAt_mul (polls : List (Poll P)) (i : ℕ) :
    pollsAt polls (0 + POLL_INTERVAL * (i + 1)) = polls.getD i ⟨none, none⟩ := by
  unfold pollsAt
  rw [Nat.zero_add, Nat.mul_div_cancel_left _ (by decide), Nat.add_sub_cancel]

/-- The outcome is that of a call of `process_one`. -/
def Outcome.IsCall (P : Platform) (o : Outcome) : Prop :=
  ∃ W : ItemWorld P, W.requestTime = o.requestTime ∧
    ∀ blocklist, (processOne P W o.kind o.item blocklist).1 = o.result

/-- A running item is in the middle of a call of `process_one`. -/
structure Running.InCall (r : Running P) : Prop where
  prepared : ∃ detail, prepare r.kind r.item detail = some r.request
  going : r.polls.length < POLL_TIMEOUT / POLL_INTERVAL
  silent : ∀ poll ∈ r.polls, pollOnce P r.requestTime r.request poll = none

/-- After polls that found nothing, the result is that of the loop from there on. -/
theorem Running.InCall.isCall {r : Running P} (h : r.InCall) {poll : Poll P} {result : Result}
    (hresult : pollLoop P r.requestTime r.request (pollsAt (r.polls ++ [poll]))
      (POLL_TIMEOUT / POLL_INTERVAL - r.polls.length) (0 + POLL_INTERVAL * r.polls.length) =
        result) :
    Outcome.IsCall P ⟨r.kind, r.item, r.requestTime, result⟩ := by
  obtain ⟨detail, hprepared⟩ := h.prepared
  let W : ItemWorld P :=
    ⟨detail, r.requestTime, fun _ => "204", pollsAt (r.polls ++ [poll])⟩
  refine ⟨W, rfl, ?_⟩
  intro blocklist
  have hgoing := h.going
  have hsplit : POLL_TIMEOUT / POLL_INTERVAL =
      r.polls.length + (POLL_TIMEOUT / POLL_INTERVAL - r.polls.length) := by omega
  rw [processOne_result W hprepared, if_neg (by simp [W]), hsplit]
  refine (pollLoop_add fun i hi => ?_).trans hresult
  show pollOnce P r.requestTime r.request (pollsAt (r.polls ++ [poll]) _) = none
  rw [pollsAt_mul, List.getD_append _ _ _ _ hi, List.getD_eq_getElem _ _ hi]
  exact h.silent _ (List.getElem_mem hi)

/-- The poll that comes next is found after as many polls. -/
theorem pollLoop_last {r : Running P} (hgoing : r.polls.length < POLL_TIMEOUT / POLL_INTERVAL)
    (poll : Poll P) :
    pollLoop P r.requestTime r.request (pollsAt (r.polls ++ [poll]))
      (POLL_TIMEOUT / POLL_INTERVAL - r.polls.length) (0 + POLL_INTERVAL * r.polls.length) =
    match pollOnce P r.requestTime r.request poll with
    | some result => result
    | none => pollLoop P r.requestTime r.request (pollsAt (r.polls ++ [poll]))
        (POLL_TIMEOUT / POLL_INTERVAL - r.polls.length - 1)
        (0 + POLL_INTERVAL * (r.polls.length + 1)) := by
  obtain ⟨left, hleft⟩ := Nat.exists_eq_succ_of_ne_zero (Nat.sub_ne_zero_of_lt hgoing)
  have hpoll : pollsAt (r.polls ++ [poll]) (0 + POLL_INTERVAL * (r.polls.length + 1)) = poll := by
    rw [pollsAt_mul, List.getD_append_right _ _ _ _ le_rfl, Nat.sub_self]
    rfl
  rw [hleft, pollLoop, Nat.add_assoc, ← Nat.mul_succ, hpoll]
  rfl

/-- Each item is a call of `process_one`, ended or not. -/
structure Calls (s : State P) : Prop where
  outcomes : ∀ o ∈ s.outcomes, o.IsCall P
  current : ∀ r, s.current = some r → r.InCall

theorem Calls.done (h : Calls s) {r : Running P} {result : Result}
    (hcall : Outcome.IsCall P ⟨r.kind, r.item, r.requestTime, result⟩) :
    Calls (s.done r result) where
  outcomes o ho := by
    rcases List.mem_append.mp ho with ho | ho
    · exact h.outcomes o ho
    · rwa [List.mem_singleton.mp ho]
  current r' hr' := by cases hr'

theorem Calls.poll (h : Calls s) {r : Running P} (hr : s.current = some r)
    (content : Option String) : Calls (s.poll r content) := by
  have hin : r.InCall := h.current r hr
  have hlast := pollLoop_last hin.going ⟨content, s.log⟩
  unfold State.poll
  dsimp only
  split
  next result hpoll =>
    rw [hpoll] at hlast
    exact h.done (hin.isCall hlast)
  next hpoll =>
    rw [hpoll] at hlast
    split
    next hgoes =>
      refine ⟨h.outcomes, ?_⟩
      intro r' hr'
      obtain rfl := Option.some.inj hr'
      refine ⟨hin.prepared, ?_, ?_⟩
      · show (r.polls ++ [_]).length < _
        unfold POLL_TIMEOUT POLL_INTERVAL at hgoes ⊢
        omega
      · intro poll hmem
        rcases List.mem_append.mp hmem with hmem | hmem
        · exact hin.silent poll hmem
        · rwa [List.mem_singleton.mp hmem]
    next hover =>
      -- That was the last poll.
      have hnone : POLL_TIMEOUT / POLL_INTERVAL - r.polls.length - 1 = 0 := by
        rw [List.length_append, List.length_singleton] at hover
        unfold POLL_TIMEOUT POLL_INTERVAL at hover ⊢
        omega
      rw [hnone] at hlast
      exact h.done (hin.isCall hlast)

theorem calls_step {l : Label P} (h : Calls s) (hstep : step s l = some s') : Calls s' := by
  rcases step_cases hstep with ⟨seconds, -, rfl⟩ | ⟨line, -, rfl⟩ | rfl |
    ⟨kind, item, detail, hnone, rfl⟩ | ⟨kind, item, detail, request, rfl, hsome, rfl⟩ |
    ⟨r, code, hr, hcode, rfl⟩ | ⟨r, hr, rfl⟩ | ⟨r, content, hr, rfl⟩
  · exact ⟨h.outcomes, h.current⟩
  · exact ⟨h.outcomes, h.current⟩
  · exact ⟨h.outcomes, h.current⟩
  · refine ⟨?_, h.current⟩
    intro o ho
    rcases List.mem_append.mp ho with ho | ho
    · exact h.outcomes o ho
    · rw [List.mem_singleton.mp ho]
      refine ⟨⟨detail, s.now, fun _ => "", fun _ => ⟨none, none⟩⟩, rfl, fun _ => ?_⟩
      simp [processOne, hnone]
  · refine ⟨h.outcomes, ?_⟩
    intro r hr
    obtain rfl := Option.some.inj hr
    exact ⟨⟨detail, hsome⟩, show 0 < POLL_TIMEOUT / POLL_INTERVAL by decide,
      fun _ hmem => absurd hmem List.not_mem_nil⟩
  · obtain ⟨detail, hprepared⟩ := (h.current r hr).prepared
    let W : ItemWorld P := ⟨detail, r.requestTime, fun _ => code, fun _ => ⟨none, none⟩⟩
    refine h.done ⟨W, rfl, fun _ => ?_⟩
    rw [processOne_result W hprepared, if_pos hcode]
  · refine ⟨h.outcomes, ?_⟩
    intro r' hr'
    obtain rfl := Option.some.inj hr'
    exact ⟨(h.current r hr).prepared, (h.current r hr).going, (h.current r hr).silent⟩
  · exact h.poll hr content

/-- **Each item on the time line is a call of `process_one`.** -/
theorem outcome_of_processOne {now : ℚ} {log : Option (List (LogLine P))} {ls : List (Label P)}
    (hrun : runSteps step (.init now log) ls = some s) : ∀ o ∈ s.outcomes, o.IsCall P := by
  have hinit : Calls (State.init now log) :=
    ⟨fun o ho => absurd ho List.not_mem_nil, fun r hr => (by cases hr)⟩
  have hcalls : Calls s := invariant_of_runSteps (I := Calls) (fun _ _ _ => calls_step) hinit hrun
  exact hcalls.outcomes

/-! ### The item after a failed one -/

/-- A zone in which one stamp is known. -/
def tenOClock : Platform where
  characters := .ascii
  readStamp s := if s = "2026-10-01 10:00:04" then some 4 else none
  nextQuotaReset t := t + 86400

/-- What the library says when the answer of Gemini is no JSON. -/
def expectingValue : LogLine tenOClock where
  loggedAt := 4
  text := "2026-10-01 10:00:04|ERROR|root|Expecting value: line 1 column 1 (char 0)|"
  stamp_le t h := by
    have hstamp : stampOf tenOClock
        "2026-10-01 10:00:04|ERROR|root|Expecting value: line 1 column 1 (char 0)|" = some 4 := by
      decide +kernel
    exact (Option.some.inj (hstamp.symm.trans h)).symm.le

/-- An episode with English subtitles. -/
def startEpisode (id : ℤ) : Label tenOClock :=
  .start .episode ⟨id, some 1, [⟨"es", false, false⟩]⟩
    (some ⟨[⟨some "en", none, some "/data/tv/Pilot.en.srt"⟩]⟩)

/-- The answer of Gemini to an episode is malformed. -/
theorem ownError_of_clear_episode : ∃ s : State tenOClock,
    s.outcomes.map (·.result) = [.malformedJson] ∧ ∀ o ∈ s.outcomes, OwnError s.logged o := by
  let ls : List (Label tenOClock) :=
    [startEpisode 1, .answer "204", .wait 4, .write expectingValue, .wait 4, .poll none]
  have hrun : (runSteps step (.init 0 (some [])) ls).map (fun s => s.outcomes.map (·.result)) =
      some [.malformedJson] := by decide +kernel
  obtain ⟨s, hs, heq⟩ := Option.map_eq_some_iff.mp hrun
  have hall : AllSteps step Clear (.init 0 (some [])) ls := by decide +kernel
  exact ⟨s, heq, ownError_of_clear hs hall⟩

/-- The answer of Gemini to the first episode is malformed.  The second is blamed for it. -/
theorem previousError_blamed : ¬ ∀ (now : ℚ) (log : Option (List (LogLine tenOClock)))
    (ls : List (Label tenOClock)) (s : State tenOClock),
    runSteps step (.init now log) ls = some s → ∀ o ∈ s.outcomes, OwnError s.logged o := by
  intro h
  let ls : List (Label tenOClock) :=
    [startEpisode 1, .answer "204", .wait 4, .write expectingValue, .wait 4, .poll none,
      startEpisode 2, .answer "204", .wait 8, .poll none]
  have hrun : (runSteps step (.init 0 (some [])) ls).map (fun s =>
      (s.outcomes.map fun o => (o.requestTime, o.result), s.logged.map (·.loggedAt))) =
        some ([(0, .malformedJson), (8, .malformedJson)], [4]) := by decide +kernel
  obtain ⟨s, hs, heq⟩ := Option.map_eq_some_iff.mp hrun
  obtain ⟨houtcomes, hlogged⟩ := Prod.mk.inj heq
  have hsecond : (8, Result.malformedJson) ∈
      s.outcomes.map fun o => (o.requestTime, o.result) := houtcomes ▸ by decide
  obtain ⟨o, ho, hblamed⟩ := List.mem_map.mp hsecond
  obtain ⟨htime, hresult⟩ := Prod.mk.inj hblamed
  obtain ⟨l, hl, -, hlate⟩ :=
    h 0 (some []) ls s hs o ho MALFORMED_JSON_MARKERS (by rw [hresult]; rfl)
  have hfour : l.loggedAt = 4 := by
    have hmem := List.mem_map_of_mem (f := (·.loggedAt)) hl
    rw [hlogged] at hmem
    exact List.mem_singleton.mp hmem
  rw [htime, hfour] at hlate
  exact absurd hlate (by decide +kernel)

end TranslateMissing
end Bazarr
end MediaHub

import MediaHub.LidarrYtdl.Course
import MediaHub.Lib.StepRuns

/-!
# The bot-wall circuit breaker

`stacks/lidarr-ytdl/patches/processing.py`, `_note_download_result`: the downloads that
YouTube refuses with "not a bot" are counted, and five of them without a success in between
trip the breaker.  Several tracks are processed at once, so the calls of
`download_youtube_candidate` overlap and their results come to one counter behind a lock.

The steps are those of the threads: a call begins or ends, a thread takes the lock, does
one assignment under it, or trips the breaker.  A call is named by its number.

## Main definitions

* `tally` — what the law makes of the calls, in the order in which they finish.
* `step` — a step of one of the threads.
* `Counted` — a step that the counter can follow.

## Main results

* `streak_le` — the counter is at most 4 whenever the lock is free.
* `countsEveryDownload` — **in a run of steps the counter can follow, the breaker trips
  where the law says.**
* `refusal_uncounted` — the fallback that is downloaded again is never counted.
-/

namespace MediaHub
namespace LidarrYtdl
namespace BotBlock

/-! ### The law -/

/-- How a call of `download_youtube_candidate` ends. -/
inductive Ending where
  | success
  | failed (errorMessage : String)
  | skipped
  /-- An exception, or no result. -/
  | raised
  deriving DecidableEq, Repr

/-- `"not a bot" in error_text.lower()`. -/
def isBotRefusal (errorText : String) : Bool :=
  containsText "not a bot" (errorText.map Char.toLower)

/-- What an ending is to the law. -/
inductive Kind where
  | success
  | refusal
  | other
  deriving DecidableEq, Repr

def Ending.kind : Ending → Kind
  | .success => .success
  | .failed errorMessage => if isBotRefusal errorMessage then .refusal else .other
  | .skipped => .other
  | .raised => .other

/-- The refusals since the last success or the last trip, and the calls that tripped. -/
structure Tally where
  refusals : ℕ
  trips : List ℕ
  deriving DecidableEq, Repr

/-- One more call has finished. -/
def Tally.add (t : Tally) (call : ℕ × Ending) : Tally :=
  match call.2.kind with
  | .success => { t with refusals := 0 }
  | .refusal =>
    if t.refusals + 1 = 5 then ⟨0, t.trips ++ [call.1]⟩
    else { t with refusals := t.refusals + 1 }
  | .other => t

/-- The calls `finished`, in this order, after `t`. -/
def tally (t : Tally) (finished : List (ℕ × Ending)) : Tally := finished.foldl Tally.add t

/-- No call was made yet. -/
def Tally.zero : Tally := ⟨0, []⟩

/-! ### The threads -/

/-- How far the thread is that holds the lock. -/
inductive Stage where
  | entered
  /-- The streak was extended. -/
  | counted
  /-- All is done but to give the lock back. -/
  | leaving (trip : Bool)
  deriving DecidableEq, Repr

structure State where
  /-- The number of calls so far. -/
  begun : ℕ
  /-- The calls that run, and whether someone waits to note their result. -/
  running : List (ℕ × Bool)
  /-- The calls that finished and whose result is to be noted, in the order in which
  they finished. -/
  waiting : List (ℕ × Ending)
  /-- The holder of `_bot_block_lock`. -/
  inside : Option ((ℕ × Ending) × Stage)
  /-- `_bot_block_streak`. -/
  streak : ℕ
  /-- The calls that are to trip the breaker. -/
  tripping : List ℕ
  /-- The calls that have tripped it: the queue is paused, the active job stopped. -/
  tripped : List ℕ
  /-- All calls that finished, in this order. -/
  finished : List (ℕ × Ending)
  deriving DecidableEq, Repr

/-- What one of the threads does. -/
inductive Label where
  /-- A candidate is downloaded, by `_download_candidate_threaded`. -/
  | download
  /-- The fallback is downloaded again. -/
  | redownload
  /-- The track of a running call is skipped: no one waits for its result any more. -/
  | giveUp (k : ℕ)
  | finish (k : ℕ) (e : Ending)
  | acquire (k : ℕ)
  /-- The holder of the lock does what comes next. -/
  | proceed
  /-- `_trip_bot_block_breaker`. -/
  | trip (k : ℕ)
  deriving DecidableEq, Repr

def BOT_BLOCK_LIMIT : ℕ := 5

/-- The result of a call is given to `_note_download_result`. -/
def Ending.isNoted : Ending → Bool
  | .success => true
  | .failed _ => true
  | .skipped => false
  | .raised => false

/-- The argument `ok`. -/
def Ending.ok (e : Ending) : Bool := e = .success

/-- The argument `error_text`. -/
def Ending.errorText : Ending → String
  | .failed errorMessage => errorMessage
  | _ => ""

/-- The body of `_note_download_result`, statement by statement. -/
def proceed (s : State) : Option State :=
  match s.inside with
  | none => none
  | some (call, .entered) =>
    if call.2.ok then some { s with streak := 0, inside := some (call, .leaving false) }
    else if !isBotRefusal call.2.errorText then
      some { s with inside := some (call, .leaving false) }
    else some { s with streak := s.streak + 1, inside := some (call, .counted) }
  | some (call, .counted) =>
    let trip := decide (BOT_BLOCK_LIMIT ≤ s.streak)
    some { s with
      streak := if trip then 0 else s.streak
      inside := some (call, .leaving trip) }
  | some (call, .leaving trip) =>
    some { s with
      inside := none
      tripping := if trip then s.tripping ++ [call.1] else s.tripping }

/-- A step of one of the threads. -/
def step (s : State) : Label → Option State
  | .download => some { s with begun := s.begun + 1, running := s.running ++ [(s.begun, true)] }
  | .redownload => some { s with begun := s.begun + 1, running := s.running ++ [(s.begun, false)] }
  | .giveUp k =>
    s.running[k]?.map fun call => { s with running := s.running.set k (call.1, false) }
  | .finish k e =>
    s.running[k]?.map fun call =>
      { s with
        running := s.running.eraseIdx k
        waiting := if call.2 && e.isNoted then s.waiting ++ [(call.1, e)] else s.waiting
        finished := s.finished ++ [(call.1, e)] }
  | .acquire k =>
    if s.inside = none then
      s.waiting[k]?.map fun call =>
        { s with waiting := s.waiting.eraseIdx k, inside := some (call, .entered) }
    else none
  | .proceed => proceed s
  | .trip k =>
    s.tripping[k]?.map fun a =>
      { s with tripping := s.tripping.eraseIdx k, tripped := s.tripped ++ [a] }

def State.init : State := ⟨0, [], [], none, 0, [], [], []⟩

/-! ### What is promised -/

/-- Nothing of the call is left to be done. -/
def State.Over (s : State) (a : ℕ) : Prop :=
  (∀ call ∈ s.waiting, call.1 ≠ a) ∧ (∀ x ∈ s.inside, x.1.1 ≠ a) ∧ a ∉ s.tripping

/-- The breaker trips where the law says, and the streak is below the limit. -/
structure CountsEveryDownload (s : State) : Prop where
  lawful : ∀ a ∈ s.tripped, a ∈ (tally .zero s.finished).trips
  tripped : ∀ a ∈ (tally .zero s.finished).trips, s.Over a → a ∈ s.tripped
  streak_le : s.inside = none → s.streak ≤ 4

/-- A step that the counter can follow: a call whose result no one notes leaves the
law where it was, and results that matter come to the counter in the order in which
the calls finished. -/
def Counted (s : State) : Label → Prop
  | .finish k e => ∀ call, s.running[k]? = some call → call.2 = false →
      e.kind = .other ∨ e.kind = .success ∧ (tally .zero s.finished).refusals = 0
  | .acquire k => ∀ call, s.waiting[k]? = some call → call.2.kind ≠ .other →
      ∀ earlier ∈ s.waiting.take k, earlier.2.kind = .other
  | _ => True

instance (s : State) (l : Label) : Decidable (Counted s l) :=
  match l with
  | .finish k e => inferInstanceAs (Decidable (∀ call ∈ s.running[k]?, call.2 = false →
      e.kind = .other ∨ e.kind = .success ∧ (tally .zero s.finished).refusals = 0))
  | .acquire k => inferInstanceAs (Decidable (∀ call ∈ s.waiting[k]?, call.2.kind ≠ .other →
      ∀ earlier ∈ s.waiting.take k, earlier.2.kind = .other))
  | .download | .redownload | .giveUp _ | .proceed | .trip _ => inferInstanceAs (Decidable True)

/-! ### What the law says -/

theorem tally_append (t : Tally) (l l' : List (ℕ × Ending)) :
    tally t (l ++ l') = tally (tally t l) l' :=
  List.foldl_append

theorem tally_cons (t : Tally) (call : ℕ × Ending) (l : List (ℕ × Ending)) :
    tally t (call :: l) = tally (t.add call) l := rfl

theorem Tally.add_of_other {t : Tally} {call : ℕ × Ending} (h : call.2.kind = .other) :
    t.add call = t := by
  unfold Tally.add
  rw [h]

theorem Tally.add_of_success {t : Tally} {call : ℕ × Ending} (h : call.2.kind = .success) :
    t.add call = { t with refusals := 0 } := by
  unfold Tally.add
  rw [h]

theorem Tally.add_of_refusal {t : Tally} {call : ℕ × Ending} (h : call.2.kind = .refusal) :
    t.add call = if t.refusals + 1 = 5 then ⟨0, t.trips ++ [call.1]⟩
      else { t with refusals := t.refusals + 1 } := by
  unfold Tally.add
  rw [h]

/-- Other failures and skips change nothing. -/
theorem tally_of_other {t : Tally} {l : List (ℕ × Ending)}
    (h : ∀ call ∈ l, call.2.kind = .other) : tally t l = t := by
  induction l with
  | nil => rfl
  | cons call l ih =>
    rw [tally_cons, Tally.add_of_other (h call List.mem_cons_self)]
    exact ih fun c hc => h c (List.mem_cons_of_mem _ hc)

/-- Who trips is who tripped before, or one of the calls. -/
theorem mem_trips_tally {t : Tally} {l : List (ℕ × Ending)} {a : ℕ} (h : a ∈ (tally t l).trips) :
    a ∈ t.trips ∨ ∃ call ∈ l, call.1 = a := by
  induction l generalizing t with
  | nil => exact .inl h
  | cons call l ih =>
    rcases ih h with h | ⟨c, hc, rfl⟩
    · cases hk : call.2.kind with
      | other => exact .inl (by rwa [Tally.add_of_other hk] at h)
      | success => exact .inl (by rwa [Tally.add_of_success hk] at h)
      | refusal =>
        rw [Tally.add_of_refusal hk] at h
        split at h
        · rcases List.mem_append.mp h with h | h
          · exact .inl h
          · exact .inr ⟨call, List.mem_cons_self, (List.mem_singleton.mp h).symm⟩
        · exact .inl h
    · exact .inr ⟨c, List.mem_cons_of_mem _ hc, rfl⟩

/-- Who tripped has tripped. -/
theorem mem_trips_of_mem {t : Tally} {l : List (ℕ × Ending)} {a : ℕ} (h : a ∈ t.trips) :
    a ∈ (tally t l).trips := by
  induction l generalizing t with
  | nil => exact h
  | cons call l ih =>
    apply ih
    cases hk : call.2.kind with
    | other => rwa [Tally.add_of_other hk]
    | success => rwa [Tally.add_of_success hk]
    | refusal =>
      rw [Tally.add_of_refusal hk]
      split
      · exact List.mem_append_left _ h
      · exact h

/-- A call may be noted before others, where these or it itself do not matter. -/
theorem tally_overtake {t : Tally} {call : ℕ × Ending} {pre post : List (ℕ × Ending)}
    (h : call.2.kind ≠ .other → ∀ earlier ∈ pre, earlier.2.kind = .other) :
    tally t (pre ++ call :: post) = tally t (call :: (pre ++ post)) := by
  by_cases hk : call.2.kind = .other
  · rw [tally_append, tally_cons, tally_cons, Tally.add_of_other hk, Tally.add_of_other hk,
      tally_append]
  · rw [tally_append, tally_of_other (h hk), tally_cons, tally_cons, tally_append,
      tally_of_other (h hk)]

/-- The same count, and the same calls that tripped. -/
def Tally.Agrees (t t' : Tally) : Prop := t.refusals = t'.refusals ∧ t.trips.Perm t'.trips

theorem Tally.Agrees.add {t t' : Tally} (h : t.Agrees t') (call : ℕ × Ending) :
    (t.add call).Agrees (t'.add call) := by
  obtain ⟨hr, ht⟩ := h
  cases hk : call.2.kind with
  | other => rw [Tally.add_of_other hk, Tally.add_of_other hk]; exact ⟨hr, ht⟩
  | success => rw [Tally.add_of_success hk, Tally.add_of_success hk]; exact ⟨rfl, ht⟩
  | refusal =>
    rw [Tally.add_of_refusal hk, Tally.add_of_refusal hk, hr]
    split
    · exact ⟨rfl, ht.append_right _⟩
    · exact ⟨rfl, ht⟩

theorem Tally.Agrees.tally {t t' : Tally} (h : t.Agrees t') (l : List (ℕ × Ending)) :
    (tally t l).Agrees (tally t' l) := by
  induction l generalizing t t' with
  | nil => exact h
  | cons call l ih => exact ih (h.add call)

theorem Ending.kind_failed (m : String) :
    (Ending.failed m).kind = if isBotRefusal m then .refusal else .other := rfl

theorem Ending.ok_iff {e : Ending} : e.ok = true ↔ e.kind = .success := by
  cases e with
  | failed m => by_cases h : isBotRefusal m <;> simp [ok, kind_failed, h]
  | _ => decide

theorem Ending.isBotRefusal_iff {e : Ending} :
    isBotRefusal e.errorText = true ↔ e.kind = .refusal := by
  cases e with
  | failed m => by_cases h : isBotRefusal m <;> simp [errorText, kind_failed, h]
  | _ => decide +kernel

/-- What is not noted does not matter. -/
theorem Ending.kind_of_not_isNoted {e : Ending} (h : e.isNoted = false) : e.kind = .other := by
  cases e with
  | success => cases h
  | failed => cases h
  | skipped => rfl
  | raised => rfl

/-! ### The counter -/

/-- What the holder of the lock can do. -/
theorem proceed_cases {s s' : State} (h : proceed s = some s') : ∃ call,
    (s.inside = some (call, .entered) ∧ call.2.kind = .success ∧
      s' = { s with streak := 0, inside := some (call, .leaving false) }) ∨
    (s.inside = some (call, .entered) ∧ call.2.kind = .other ∧
      s' = { s with inside := some (call, .leaving false) }) ∨
    (s.inside = some (call, .entered) ∧ call.2.kind = .refusal ∧
      s' = { s with streak := s.streak + 1, inside := some (call, .counted) }) ∨
    (s.inside = some (call, .counted) ∧ BOT_BLOCK_LIMIT ≤ s.streak ∧
      s' = { s with streak := 0, inside := some (call, .leaving true) }) ∨
    (s.inside = some (call, .counted) ∧ s.streak < BOT_BLOCK_LIMIT ∧
      s' = { s with inside := some (call, .leaving false) }) ∨
    (s.inside = some (call, .leaving true) ∧
      s' = { s with inside := none, tripping := s.tripping ++ [call.1] }) ∨
    (s.inside = some (call, .leaving false) ∧ s' = { s with inside := none }) := by
  unfold proceed at h
  split at h
  next => cases h
  -- it has entered: what is counted depends on how the call ended
  next call heq =>
    refine ⟨call, ?_⟩
    split at h
    next hok => exact .inl ⟨heq, Ending.ok_iff.mp hok, (Option.some.inj h).symm⟩
    next hok =>
      rw [Ending.ok_iff] at hok
      split at h
      next hbot =>
        have hbot : ¬ call.2.kind = .refusal := by
          rw [← Ending.isBotRefusal_iff]
          simpa using hbot
        have hk : call.2.kind = .other := by
          cases hk : call.2.kind with
          | success => exact absurd hk hok
          | refusal => exact absurd hk hbot
          | other => rfl
        exact .inr (.inl ⟨heq, hk, (Option.some.inj h).symm⟩)
      next hbot =>
        have hk : call.2.kind = .refusal := Ending.isBotRefusal_iff.mp (by simpa using hbot)
        exact .inr (.inr (.inl ⟨heq, hk, (Option.some.inj h).symm⟩))
  next call heq =>
    -- it has counted: the limit decides
    refine ⟨call, .inr (.inr (.inr ?_))⟩
    by_cases hlim : BOT_BLOCK_LIMIT ≤ s.streak
    · exact .inl ⟨heq, hlim, by simpa [hlim] using h.symm⟩
    · exact .inr (.inl ⟨heq, by omega, by simpa [hlim] using h.symm⟩)
  next call trip heq =>
    refine ⟨call, .inr (.inr (.inr (.inr (.inr ?_))))⟩
    cases trip with
    | true => exact .inl ⟨heq, (Option.some.inj h).symm⟩
    | false => exact .inr ⟨heq, (Option.some.inj h).symm⟩

/-- Who takes the lock finds it free. -/
theorem acquire_cases {s s' : State} {k : ℕ} (h : step s (.acquire k) = some s') :
    s.inside = none ∧ ∃ call, s.waiting[k]? = some call ∧
      s' = { s with waiting := s.waiting.eraseIdx k, inside := some (call, .entered) } := by
  simp only [step] at h
  split at h
  next hfree =>
    obtain ⟨call, hk, rfl⟩ := Option.map_eq_some_iff.mp h
    exact ⟨hfree, call, hk, rfl⟩
  next => cases h

/-- What is known of the streak at each place of `_note_download_result`. -/
def StreakOk (s : State) : Prop :=
  match s.inside with
  | some (call, .counted) => call.2.kind = .refusal ∧ 1 ≤ s.streak ∧ s.streak ≤ 5
  | _ => s.streak ≤ 4

theorem streakOk_proceed {s s' : State} (hs : StreakOk s) (h : proceed s = some s') :
    StreakOk s' := by
  obtain ⟨call, h | h | h | h | h | h | h⟩ := proceed_cases h
  · obtain ⟨-, -, rfl⟩ := h
    exact Nat.zero_le 4
  · obtain ⟨heq, -, rfl⟩ := h
    simpa only [StreakOk, heq] using hs
  · obtain ⟨heq, hk, rfl⟩ := h
    simp only [StreakOk, heq] at hs
    exact ⟨hk, Nat.le_add_left 1 _, Nat.succ_le_succ hs⟩
  · obtain ⟨-, -, rfl⟩ := h
    exact Nat.zero_le 4
  · obtain ⟨-, hlim, rfl⟩ := h
    exact Nat.le_of_lt_succ hlim
  · obtain ⟨heq, rfl⟩ := h
    simpa only [StreakOk, heq] using hs
  · obtain ⟨heq, rfl⟩ := h
    simpa only [StreakOk, heq] using hs

theorem streakOk_step {s s' : State} {l : Label} (hs : StreakOk s) (h : step s l = some s') :
    StreakOk s' := by
  cases l with
  | download => exact Option.some.inj h ▸ hs
  | redownload => exact Option.some.inj h ▸ hs
  | giveUp k =>
    obtain ⟨call, -, rfl⟩ := Option.map_eq_some_iff.mp h
    exact hs
  | finish k e =>
    obtain ⟨call, -, rfl⟩ := Option.map_eq_some_iff.mp h
    exact hs
  | acquire k =>
    obtain ⟨hfree, call, -, rfl⟩ := acquire_cases h
    simpa only [StreakOk, hfree] using hs
  | trip k =>
    obtain ⟨a, -, rfl⟩ := Option.map_eq_some_iff.mp h
    exact hs
  | proceed => exact streakOk_proceed hs h

theorem streakOk_init : StreakOk .init := Nat.zero_le 4

/-- **The streak is at most 4 whenever the lock is free.** -/
theorem streak_le {s : State} {ls : List Label} (hrun : runSteps step .init ls = some s)
    (hfree : s.inside = none) : s.streak ≤ 4 := by
  have h : StreakOk s :=
    invariant_of_runSteps (I := StreakOk) (fun _ _ _ => streakOk_step) streakOk_init hrun
  simpa only [StreakOk, hfree] using h

/-! ### What the counter knows -/

/-- The call whose result the holder of the lock has still to count. -/
def inHand : Option ((ℕ × Ending) × Stage) → List (ℕ × Ending)
  | some (call, .entered) => [call]
  | some (call, .counted) => [call]
  | _ => []

/-- The calls whose result has still to come to the counter, in the order in which the
law wants them. -/
def due (s : State) : List (ℕ × Ending) := inHand s.inside ++ s.waiting

/-- The call that the holder of the lock has found to trip the breaker. -/
def decided : Option ((ℕ × Ending) × Stage) → List ℕ
  | some (call, .leaving true) => [call.1]
  | _ => []

/-- The streak without the call in hand. -/
def streakBefore : Option ((ℕ × Ending) × Stage) → ℕ → ℕ
  | some (_, .counted), streak => streak - 1
  | _, streak => streak

/-- The tally that the counter stands for. -/
def books (s : State) : Tally :=
  ⟨streakBefore s.inside s.streak, s.tripped ++ s.tripping ++ decided s.inside⟩

/-- With what is due, the counter comes to what the law says. -/
def UpToDate (s : State) : Prop := (tally .zero s.finished).Agrees (tally (books s) (due s))

/-- The holder of the lock keeps the counter up to date. -/
theorem upToDate_proceed {s s' : State} (hs : UpToDate s) (hok : StreakOk s)
    (h : proceed s = some s') : UpToDate s' := by
  obtain ⟨call, h⟩ := proceed_cases h
  simp only [UpToDate, books, due] at hs ⊢
  rcases h with h | h | h | h | h | h | h
  · obtain ⟨heq, hk, rfl⟩ := h
    simp only [heq, inHand, List.singleton_append, tally_cons, Tally.add_of_success hk] at hs
    exact hs
  · obtain ⟨heq, hk, rfl⟩ := h
    simp only [heq, inHand, List.singleton_append, tally_cons, Tally.add_of_other hk] at hs
    exact hs
  · obtain ⟨heq, -, rfl⟩ := h
    simp only [heq] at hs
    exact hs
  -- the fifth refusal in a row trips the breaker, by the law and by the counter
  · obtain ⟨heq, hlim, rfl⟩ := h
    simp only [StreakOk, heq] at hok
    have hfive : s.streak - 1 + 1 = 5 := by
      have : 5 ≤ s.streak := hlim
      omega
    simp only [heq, inHand, streakBefore, decided, List.append_nil, List.singleton_append,
      tally_cons, Tally.add_of_refusal hok.1, hfive, if_true] at hs
    exact hs
  · obtain ⟨heq, hlim, rfl⟩ := h
    simp only [StreakOk, heq] at hok
    -- fewer: the refusal that was counted is added back
    have hback : s.streak - 1 + 1 = s.streak := by omega
    have hfew : s.streak ≠ 5 := Nat.ne_of_lt hlim
    simp only [heq, inHand, streakBefore, List.singleton_append, tally_cons,
      Tally.add_of_refusal hok.1, hback, if_neg hfew] at hs
    exact hs
  · obtain ⟨heq, rfl⟩ := h
    simp only [heq, decided] at hs
    simp only [decided, List.append_nil, ← List.append_assoc]
    exact hs
  · obtain ⟨heq, rfl⟩ := h
    simp only [heq] at hs
    exact hs

/-- A call that finishes is due, or leaves the law where it was. -/
theorem upToDate_finish {s s' : State} {k : ℕ} {e : Ending} (hs : UpToDate s)
    (hc : Counted s (.finish k e)) (h : step s (.finish k e) = some s') : UpToDate s' := by
  obtain ⟨call, hk, rfl⟩ := Option.map_eq_some_iff.mp h
  simp only [UpToDate, tally_append]
  cases hnoted : call.2 && e.isNoted with
  | true =>
    simp only [due, if_true, ← List.append_assoc]
    rw [tally_append]
    exact hs.add (call.1, e)
  | false =>
    -- Nothing is due, so the law must not have moved.
    have hstill : (tally .zero s.finished).add (call.1, e) = tally .zero s.finished := by
      cases hc2 : call.2 with
      | true =>
        have he : e.isNoted = false := by simpa [hc2] using hnoted
        exact Tally.add_of_other (Ending.kind_of_not_isNoted he)
      | false =>
        rcases hc call hk hc2 with he | ⟨he, hzero⟩
        · exact Tally.add_of_other he
        · rw [Tally.add_of_success he, ← hzero]
    show ((tally .zero s.finished).add (call.1, e)).Agrees _
    rw [hstill]
    exact hs

/-- Who takes the lock in turn, or with a result that does not matter, is the next that
the law wants. -/
theorem upToDate_acquire {s s' : State} {k : ℕ} (hs : UpToDate s)
    (hc : Counted s (.acquire k)) (h : step s (.acquire k) = some s') : UpToDate s' := by
  obtain ⟨hfree, call, hk, rfl⟩ := acquire_cases h
  obtain ⟨hlt, hget⟩ := List.getElem?_eq_some_iff.mp hk
  have hsplit : s.waiting.take k ++ call :: s.waiting.drop (k + 1) = s.waiting := by
    rw [← hget, List.getElem_cons_drop, List.take_append_drop]
  simp only [UpToDate, books, due, hfree] at hs
  rw [show inHand none ++ s.waiting = s.waiting.take k ++ call :: s.waiting.drop (k + 1) from
    hsplit.symm, tally_overtake (hc call hk), ← List.eraseIdx_eq_take_drop_succ] at hs
  exact hs

theorem upToDate_trip {s s' : State} {k : ℕ} (hs : UpToDate s)
    (h : step s (.trip k) = some s') : UpToDate s' := by
  obtain ⟨a, hk, rfl⟩ := Option.map_eq_some_iff.mp h
  obtain ⟨hlt, rfl⟩ := List.getElem?_eq_some_iff.mp hk
  have hperm : (s.tripped ++ s.tripping).Perm
      (s.tripped ++ [s.tripping[k]] ++ s.tripping.eraseIdx k) := by
    rw [List.append_assoc]
    exact (List.getElem_cons_eraseIdx_perm hlt).symm.append_left _
  have hbooks : (books s).Agrees (books { s with
      tripping := s.tripping.eraseIdx k, tripped := s.tripped ++ [s.tripping[k]] }) :=
    ⟨rfl, hperm.append_right _⟩
  obtain ⟨hr, ht⟩ := hbooks.tally (due s)
  exact ⟨hs.1.trans hr, hs.2.trans ht⟩

/-- A step that the counter can follow keeps it up to date. -/
theorem upToDate_step {s s' : State} {l : Label} (hs : StreakOk s ∧ UpToDate s)
    (hc : Counted s l) (h : step s l = some s') : StreakOk s' ∧ UpToDate s' := by
  refine ⟨streakOk_step hs.1 h, ?_⟩
  cases l with
  | download => exact Option.some.inj h ▸ hs.2
  | redownload => exact Option.some.inj h ▸ hs.2
  | giveUp k =>
    obtain ⟨call, -, rfl⟩ := Option.map_eq_some_iff.mp h
    exact hs.2
  | finish k e => exact upToDate_finish hs.2 hc h
  | acquire k => exact upToDate_acquire hs.2 hc h
  | trip k => exact upToDate_trip hs.2 h
  | proceed => exact upToDate_proceed hs.2 hs.1 h

/-- The call in hand is that of the holder of the lock. -/
theorem ne_of_mem_inHand {inside : Option ((ℕ × Ending) × Stage)} {a : ℕ} {call : ℕ × Ending}
    (h : ∀ x ∈ inside, x.1.1 ≠ a) (hc : call ∈ inHand inside) : call.1 ≠ a := by
  unfold inHand at hc
  split at hc
  · exact List.mem_singleton.mp hc ▸ h _ rfl
  · exact List.mem_singleton.mp hc ▸ h _ rfl
  · cases hc

theorem notMem_decided {inside : Option ((ℕ × Ending) × Stage)} {a : ℕ}
    (h : ∀ x ∈ inside, x.1.1 ≠ a) : a ∉ decided inside := by
  intro ha
  unfold decided at ha
  split at ha
  · exact h _ rfl (List.mem_singleton.mp ha).symm
  · cases ha

/-- **In a run of steps the counter can follow, the breaker trips where the law says.** -/
theorem countsEveryDownload {s : State} {ls : List Label}
    (hrun : runSteps step .init ls = some s) (hall : AllSteps step Counted .init ls) :
    CountsEveryDownload s := by
  have hinit : StreakOk .init ∧ UpToDate .init := ⟨streakOk_init, rfl, List.Perm.refl _⟩
  have hdate : UpToDate s :=
    (invariant_of_allSteps (I := fun s => StreakOk s ∧ UpToDate s)
      (fun _ _ _ => upToDate_step) hinit hall hrun).2
  have hmem : ∀ a, a ∈ (tally .zero s.finished).trips ↔ a ∈ (tally (books s) (due s)).trips :=
    fun a => hdate.2.mem_iff
  refine ⟨fun a ha => (hmem a).mpr ?_, ?_, streak_le hrun⟩
  · exact mem_trips_of_mem (List.mem_append_left _ (List.mem_append_left _ ha))
  · intro a ha hover
    obtain ⟨hwaiting, hinside, htripping⟩ := hover
    rcases mem_trips_tally ((hmem a).mp ha) with hb | ⟨call, hcall, rfl⟩
    · rcases List.mem_append.mp hb with hb | hb
      · exact (List.mem_append.mp hb).resolve_right htripping
      · exact absurd hb (notMem_decided hinside)
    · rcases List.mem_append.mp hcall with hc | hc
      · exact absurd rfl (ne_of_mem_inHand hinside hc)
      · exact absurd rfl (hwaiting call hc)

/-- What YouTube answers. -/
def refused : Ending := .failed "Sign in to confirm you're not a bot"

/-- A candidate is refused, and that is noted. -/
def candidateRefused : List Label :=
  [.download, .finish 0 refused, .acquire 0, .proceed, .proceed, .proceed]

/-- Five candidates in a row. -/
theorem countsEveryDownload_five : CountsEveryDownload
    ⟨5, [], [], none, 0, [], [4], (List.range 5).map fun a => (a, refused)⟩ :=
  have hrun : runSteps step .init ((List.replicate 5 candidateRefused).flatten ++ [.trip 0]) =
      some _ := by decide +kernel
  countsEveryDownload hrun (by decide +kernel)

/-- Five refusals, the last of them when the fallback is downloaded again: the breaker does
not trip. -/
theorem refusal_uncounted :
    ¬ ∀ ls s, runSteps step .init ls = some s → CountsEveryDownload s := by
  intro h
  let ls := (List.replicate 4 candidateRefused).flatten ++ [.redownload, .finish 0 refused]
  let s : State := ⟨5, [], [], none, 4, [], [], (List.range 5).map fun a => (a, refused)⟩
  have hrun : runSteps step .init ls = some s := by decide +kernel
  have hlaw : 4 ∈ (tally .zero s.finished).trips := by decide +kernel
  have hover : s.Over 4 := ⟨by decide, by simp [s], by decide⟩
  exact absurd ((h ls s hrun).tripped 4 hlaw hover) (by decide)

/-! ### The two callers -/

/-- What `_note_download_result` is given. -/
def note : Effect → Option (Bool × String)
  | .noted ok errorText => some (ok, errorText)
  | _ => none

/-- What it is given in a run of `_process_track_body`. -/
def notes (es : List Effect) : List (Bool × String) := es.filterMap note

/-- What a turn of the loop gives to `_note_download_result`. -/
def noted : Found → List (Bool × String)
  | .skip => []
  | .lowScore => []
  | .liveStream => []
  | .downloadSkipped => []
  | .downloadFailed said => said.toList.map fun e => (false, e.1)
  | _ => [(true, "")]

/-- How the call that a turn makes ends. -/
def ending : Download → Ending
  | .skipped => .skipped
  | .raised => .raised
  | .failed errorMessage _ => .failed errorMessage
  | .missing _ => .success
  | .done _ => .success

variable {O : Outside} {W : TrackWorld}

theorem noted_check (t : TrackInfo) (c : Candidate) (i : Inputs) (r : DlResult) (reason : String) :
    noted (check O t c i r reason) = [(true, "")] := by
  unfold check
  repeat' split
  all_goals rfl

/-- The call that a turn makes is noted as `step` has it. -/
theorem noted_find {t : TrackInfo} {cfg : Config} {c : Candidate} {i : Inputs}
    (hskip : i.skip = false) (hscore : (!cfg.verifies t && c.score < cfg.minMatchScore) = false)
    (hlive : i.live = false) : noted (find O t cfg c i) =
      if (ending i.download).isNoted then
        [((ending i.download).ok, (ending i.download).errorText)] else [] := by
  simp only [find, hskip, hscore, hlive, Bool.false_eq_true, if_false]
  cases i.download with
  | done r =>
    dsimp only
    split
    · rfl
    · exact noted_check t c i r _
  | _ => rfl

@[simp] theorem notes_append (es es' : List Effect) : notes (es ++ es') = notes es ++ notes es' :=
  List.filterMap_append

@[simp] theorem notes_nil : notes [] = [] := rfl

@[simp] theorem notes_cons (e : Effect) (es : List Effect) :
    notes (e :: es) = (note e).toList ++ notes es := by
  cases h : note e <;> simp [notes, h]

@[simp] theorem notes_dropHeldUnverified (b : Body) :
    notes b.dropHeldUnverified.effects = notes b.effects :=
  b.filterMap_dropHeldUnverified fun _ => rfl

@[simp] theorem notes_dropHeldFallback (b : Body) :
    notes b.dropHeldFallback.effects = notes b.effects :=
  b.filterMap_dropHeldFallback fun _ => rfl

@[simp] theorem notes_holdFallback (b : Body) (fb : HeldFallback) :
    notes (b.holdFallback fb).effects = notes b.effects :=
  b.filterMap_holdFallback (fun _ => rfl) fb

/-- A turn notes what its call came to. -/
theorem notes_act (b : Body) (ci : ℕ) (c : Candidate) (f : Found) :
    notes (act O W ci c b f).body.effects = notes b.effects ++ noted f := by
  cases f with
  | downloadFailed said =>
    simp only [act, Turned.body_ite]
    cases said <;> simp [note, noted]
  | missing left =>
    simp only [act, Turned.body_ite]
    cases left <;> simp [note, noted]
  | unverified r reason =>
    simp only [act]
    split <;> simp [note, noted]
  | kept r reason how fp =>
    by_cases hreason : reason = ""
    · simp [act, hreason, Body.acceptTrackFile, note, noted]
    · simp [act, hreason, note, noted]
  | _ => simp [act, note, noted]

theorem notes_fail (tried : ℕ) (low : Bool) (b : Body) :
    notes (fail O W tried low b).effects = notes b.effects := by
  unfold LidarrYtdl.fail recordTrackFailure
  dsimp only
  split <;> simp [note]

theorem notes_finishFallback (tried : ℕ) (b : Body) (c : Candidate) (temp : Temp)
    (result : Except (Option String) DlResult) :
    notes (finishFallback O W tried b c temp result).effects = notes b.effects := by
  unfold finishFallback
  split
  · simp [Body.acceptTrackFile, Body.noteUnverifiedKeep, note]
  · simp [notes_fail, note]
  · simp [notes_fail, note]

/-- The fallback that is downloaded again is not noted. -/
theorem notes_unverifiedFallback (tried : ℕ) (b : Body) (c : Candidate) :
    notes (unverifiedFallback O W tried b c).effects = notes b.effects := by
  unfold unverifiedFallback
  split
  · simp [notes_fail]
  split
  · exact notes_finishFallback _ _ _ _ _
  dsimp only
  split
  · simp [note]
  · simp [notes_finishFallback]
  · rw [notes_finishFallback]
    split <;> simp [note]

/-- Nothing that follows the loop is noted. -/
theorem notes_afterLoop (tried : ℕ) (b : Body) :
    notes (afterLoop O W tried b).effects = notes b.effects := by
  unfold afterLoop
  split
  · exact notes_dropHeldFallback b
  split
  · simp [keepLastResort, Body.acceptTrackFile, note]
  · exact notes_unverifiedFallback tried b _
  · exact notes_fail tried false b

/-- **A run of `_process_track_body` notes the calls of its loop, and no other.** -/
theorem notes_processTrackBody :
    notes (processTrackBody O W).effects = (course O W).flatMap fun x => noted x.2 := by
  rcases processTrackBody_cases O W with ⟨hcourse, heffects⟩ | ⟨hstart, tried, T, hT, hbody⟩
  · rcases heffects with h | ⟨reason, h⟩ <;> simp [h, hcourse, note]
  · have hloop : notes T.body.effects = (course O W).flatMap fun x => noted x.2 := by
      obtain ⟨_, hn⟩ := iterate_invariant (O := O) (W := W)
        (I := fun _ xs b => notes b.effects = xs.flatMap fun x => noted x.2)
        (fun c f _ h => by rw [notes_act, h]; simp) (Body.init_leftBy .searching) rfl hstart
      rwa [← hT] at hn
    rw [hbody]
    split
    · exact hloop
    · rw [notes_afterLoop, hloop]

end BotBlock
end LidarrYtdl
end MediaHub

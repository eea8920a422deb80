import MediaHub.Mounts.Ensure

/-!
# No container is left behind

A container that a run has stopped is to run again, or to stay on the list.  A book is kept
beside the machine of the containers that are owed a start, and of what goes wrong on the way:
the names that `grep` finds only because they match another line, and the starts that fail.

## Main definitions

* `Book` — what is owed, and what has gone wrong.
* `track` — one step of the machine, with the book.
* `Fair` — the steps at which nothing goes wrong.
* `Inv` — the invariant: what is owed is listed, at every command of the script.

## Main results

* `owed_after` — what is owed stays so until it is up, or gone.
* `kept_of_fair` — **no container is left behind in a run of fair steps.**
* `failedStart_stranded` — a start fails, and the list is emptied all the same.
-/

namespace MediaHub
namespace Mounts

/-- What is known beside the machine. -/
structure Book where
  /-- A run has stopped them, and they have not been up since. -/
  owed : List String
  /-- An operator has taken them off the list since they were put there. -/
  released : List String
  /-- `grep` has found them on the list while they were not there. -/
  passedOver : List String
  /-- Their start has failed in this pass through the list. -/
  failed : List String
  deriving DecidableEq, Repr

/-- Nothing has happened yet. -/
def Book.empty : Book := ⟨[], [], [], []⟩

variable (cfg : Config)

/-- The container that the script stops in a step. -/
def stoppedBy (s : State) : Label → Option String
  | .stop ok =>
    match s.phase with
    | .stopping (c :: _) => if ok ∧ s.docker.isUp c then some c else none
    | _ => none
  | .examine startedAt activated up =>
    match s.phase with
    | .restarting false (c :: _) =>
      if stale cfg s.docker c startedAt activated ∧ s.docker.isUp c ∧ up = false then some c
      else none
    | _ => none
  | _ => none

/-- The container that there is no more after a step. -/
def Label.gone : Label → Option String
  | .remove c => some c
  | .create k => some k.name
  | _ => none

/-- A name is recorded: it is not released any more. -/
def releasedAfter (s : State) (released : List String) : Label → List String
  | .unlist c => c :: released
  | .record =>
    match s.phase with
    | .recording (c :: _) _ => if s.held.any (grepx c) then released else released.filter (· ≠ c)
    | _ => released
  | _ => released

def passedOverAfter (s : State) (passedOver : List String) : Label → List String
  | .check _ _ => []
  | .record =>
    match s.phase with
    | .recording (c :: _) _ =>
      if s.held.any (grepx c) ∧ c ∉ s.held then c :: passedOver else passedOver
    | _ => passedOver
  | _ => passedOver

def failedAfter (s : State) (failed : List String) : Label → List String
  | .check _ _ => []
  | .start false =>
    match s.phase with
    | .starting (c :: _) => c :: failed
    | _ => failed
  | _ => failed

/-- The book after the step from `s` to `s'`. -/
def Book.after (b : Book) (s s' : State) (l : Label) : Book where
  owed := ((stoppedBy cfg s l).toList ++ b.owed).filter fun c =>
    s'.docker.isUp c = false ∧ l.gone ≠ some c
  released := releasedAfter s b.released l
  passedOver := passedOverAfter s b.passedOver l
  failed := failedAfter s b.failed l

/-- One step of the machine, with the book. -/
def track (x : State × Book) (l : Label) : Option (State × Book) :=
  (step cfg x.1 l).map fun s' => (s', x.2.after cfg x.1 s' l)

/-- Nothing goes wrong at this step: no container is stopped that `grep` has passed over, the
list is not emptied while a start that has failed is owed, and a restart leaves nothing
stopped. -/
def Fair (x : State × Book) (l : Label) : Prop :=
  match l with
  | .stop _ => ∀ c ∈ stoppedBy cfg x.1 l, c ∉ x.2.passedOver
  | .next => x.1.phase = .starting [] → ∀ c ∈ x.2.failed, c ∉ x.2.owed
  | .examine _ _ _ => stoppedBy cfg x.1 l = none
  | _ => True

instance (x : State × Book) : ∀ l, Decidable (Fair cfg x l)
  | .stop ok => inferInstanceAs (Decidable (∀ c ∈ stoppedBy cfg x.1 (.stop ok), c ∉ x.2.passedOver))
  | .next => inferInstanceAs
      (Decidable (x.1.phase = .starting [] → ∀ c ∈ x.2.failed, c ∉ x.2.owed))
  | .examine startedAt activated up =>
    inferInstanceAs (Decidable (stoppedBy cfg x.1 (.examine startedAt activated up) = none))
  | .run _ | .check _ _ | .record | .start _ | .crash | .reboot _ | .comesUp _ | .goesDown _
  | .create _ | .remove _ | .unlist _ => inferInstanceAs (Decidable True)

/-- The container is on the list, or an operator has taken it off. -/
def Kept (s : State) (b : Book) (c : String) : Prop := c ∈ s.held ∨ c ∈ b.released

/-- What the loops of the script have done so far. -/
def AtPhase (s : State) (b : Book) : Prop :=
  match s.phase with
  | .recording rest deps => ∀ c ∈ deps, c ∈ rest ∨ c ∈ b.passedOver ∨ Kept s b c
  | .stopping rest => ∀ c ∈ rest, c ∈ b.passedOver ∨ Kept s b c
  | .starting rest => ∀ c ∈ b.owed, c ∈ rest ∨ c ∈ b.failed ∨ c ∈ b.released
  | _ => True

/-- The invariant. -/
structure Inv (s : State) (b : Book) : Prop where
  kept : ∀ c ∈ b.owed, Kept s b c
  atPhase : AtPhase s b

variable {cfg} {s s' : State} {b : Book} {l : Label} {c : String}

/-- What is owed after a step was owed before it, or has been stopped by it. -/
theorem mem_owed_after :
    c ∈ (b.after cfg s s' l).owed ↔ (stoppedBy cfg s l = some c ∨ c ∈ b.owed) ∧
      s'.docker.isUp c = false ∧ l.gone ≠ some c := by
  rw [Book.after, List.mem_filter, List.mem_append, Option.mem_toList, decide_eq_true_iff]

/-- What is owed stays so until it is up, or gone. -/
theorem owed_after (h : stoppedBy cfg s l = some c ∨ c ∈ b.owed) :
    c ∈ (b.after cfg s s' l).owed ∨ s'.docker.isUp c = true ∨ l.gone = some c := by
  rw [mem_owed_after]
  by_cases hup : s'.docker.isUp c = true
  · exact .inr (.inl hup)
  · by_cases hgone : l.gone = some c
    · exact .inr (.inr hgone)
    · exact .inl ⟨h, Bool.not_eq_true _ ▸ hup, hgone⟩

/-- A step that stops nothing owes nothing new. -/
theorem owed_of_none (hnone : stoppedBy cfg s l = none) (hc : c ∈ (b.after cfg s s' l).owed) :
    c ∈ b.owed := by
  obtain ⟨hstopped | howed, -⟩ := mem_owed_after.mp hc
  · rw [hnone] at hstopped
    cases hstopped
  · exact howed

/-! ### The steps -/

/-- A step after which the script is where it was. -/
theorem AtPhase.of_sub {b' : Book} (h : AtPhase s b) (hphase : s'.phase = s.phase)
    (howed : ∀ c ∈ b'.owed, c ∈ b.owed) (hkept : ∀ c, Kept s b c → Kept s' b' c)
    (hreleased : ∀ c ∈ b.released, c ∈ b'.released) (hpassed : b'.passedOver = b.passedOver)
    (hfailed : b'.failed = b.failed) : AtPhase s' b' := by
  rw [AtPhase] at h
  rw [AtPhase, hphase, hpassed, hfailed]
  cases hp : s.phase with
  | recording rest deps =>
    rw [hp] at h
    intro c hc
    exact (h c hc).imp_right (Or.imp_right (hkept c))
  | stopping rest =>
    rw [hp] at h
    intro c hc
    exact (h c hc).imp_right (hkept c)
  | starting rest =>
    rw [hp] at h
    intro c hc
    exact (h c (howed c hc)).imp_right (Or.imp_right (hreleased c))
  | _ => trivial

/-- A step that stops nothing and loses nothing keeps the invariant. -/
theorem Inv.of_event (hI : Inv s b) (hnone : stoppedBy cfg s l = none)
    (hkept : ∀ c, Kept s b c → Kept s' (b.after cfg s s' l) c)
    (hreleased : ∀ c ∈ b.released, c ∈ releasedAfter s b.released l)
    (hpassed : passedOverAfter s b.passedOver l = b.passedOver)
    (hfailed : failedAfter s b.failed l = b.failed)
    (hphase : s'.phase = s.phase ∨ ∀ b, AtPhase s' b) : Inv s' (b.after cfg s s' l) where
  kept := by
    intro c hc
    exact hkept c (hI.kept c (owed_of_none hnone hc))
  atPhase := by
    obtain hsame | htrivial := hphase
    · refine hI.atPhase.of_sub hsame ?_ hkept hreleased hpassed hfailed
      intro c hc
      exact owed_of_none hnone hc
    · exact htrivial _

/-- So does what happens around the script, and a script that is called or killed. -/
theorem Inv.around (hI : Inv s b) (hnone : stoppedBy cfg s l = none) (hheld : s'.held = s.held)
    (hreleased : releasedAfter s b.released l = b.released)
    (hpassed : passedOverAfter s b.passedOver l = b.passedOver)
    (hfailed : failedAfter s b.failed l = b.failed)
    (hphase : s'.phase = s.phase ∨ ∀ b, AtPhase s' b) : Inv s' (b.after cfg s s' l) := by
  refine hI.of_event hnone ?_ ?_ hpassed hfailed hphase
  · intro c hc
    rw [Kept, hheld, Book.after, hreleased]
    exact hc
  · intro c hc
    rwa [hreleased]

/-- The mounts are looked at. -/
theorem Inv.check (hI : Inv s b) {mounted : List String} {probe : Bool}
    (h : Mounts.step cfg s (.check mounted probe) = some s') :
    Inv s' (b.after cfg s s' (.check mounted probe)) := by
  have hkept : s'.held = s.held →
      ∀ c ∈ (b.after cfg s s' (.check mounted probe)).owed, c ∈ s'.held ∨ c ∈ b.released := by
    intro hheld c hc
    rw [hheld]
    exact hI.kept c (owed_of_none rfl hc)
  rw [Mounts.step, checked] at h
  cases hphase : s.phase with
  | begun dry =>
    simp only [hphase] at h
    split at h
    next =>
      cases h
      refine ⟨hkept rfl, ?_⟩
      cases dry with
      | true => trivial
      | false =>
        intro c hc
        exact (hkept rfl c hc).imp_right .inr
    next =>
      split at h
      next =>
        cases h
        exact ⟨hkept rfl, trivial⟩
      next =>
        cases h
        refine ⟨hkept rfl, ?_⟩
        intro c hc
        exact .inl hc
  | waiting =>
    simp only [hphase] at h
    cases h
    refine ⟨hkept rfl, ?_⟩
    cases allUp cfg mounted probe with
    | true =>
      intro c hc
      exact (hkept rfl c hc).imp_right .inr
    | false => trivial
  | _ => simp [hphase] at h

/-- What is recorded is on the list, or has been passed over; nothing else is lost. -/
theorem record_spec {rest deps : List String} (hphase : s.phase = .recording (c :: rest) deps)
    (h : Mounts.step cfg s .record = some s') :
    s'.phase = .recording rest deps ∧
      (∀ c', Kept s b c' → Kept s' (b.after cfg s s' .record) c') ∧
      (∀ c' ∈ b.passedOver, c' ∈ (b.after cfg s s' .record).passedOver) ∧
      (c ∈ (b.after cfg s s' .record).passedOver ∨ Kept s' (b.after cfg s s' .record) c) := by
  simp only [Mounts.step, hphase, Option.some.injEq] at h
  subst h
  simp only [Kept, Book.after, releasedAfter, passedOverAfter, hphase, true_and]
  by_cases hgrep : s.held.any (grepx c) = true
  · by_cases hc : c ∈ s.held
    · simp only [hgrep, hc, if_true, not_true_eq_false, and_false, if_false]
      exact ⟨fun _ h => h, fun _ h => h, .inr (.inl trivial)⟩
    -- another line is taken for `c`
    · simp only [hgrep, hc, if_true, not_false_eq_true, and_true]
      refine ⟨fun _ h => h, ?_, .inl List.mem_cons_self⟩
      intro c' hc'
      exact List.mem_cons_of_mem c hc'
  · have hself : c ∈ s.held ++ [c] := List.mem_append.mpr (.inr List.mem_cons_self)
    simp only [hgrep, Bool.false_eq_true, false_and, if_false]
    refine ⟨?_, fun _ h => h, .inr (.inl hself)⟩
    rintro c' (hheld | hreleased)
    · exact .inl (List.mem_append.mpr (.inl hheld))
    · by_cases hne : c' = c
      · exact .inl (hne ▸ hself)
      · exact .inr (List.mem_filter.mpr ⟨hreleased, decide_eq_true hne⟩)

/-- A name is recorded. -/
theorem Inv.record (hI : Inv s b) (h : Mounts.step cfg s .record = some s') :
    Inv s' (b.after cfg s s' .record) := by
  have hat := hI.atPhase
  match hphase : s.phase with
  | .recording (c :: rest) deps =>
    obtain ⟨hphase', hkept, hpassed, hself⟩ := record_spec (b := b) hphase h
    rw [AtPhase, hphase] at hat
    refine ⟨?_, ?_⟩
    · intro c' hc'
      exact hkept c' (hI.kept c' (owed_of_none rfl hc'))
    · rw [AtPhase, hphase']
      intro c' hc'
      obtain hrest | hpast := hat c' hc'
      · obtain rfl | hrest := List.mem_cons.mp hrest
        · exact .inr hself
        · exact .inl hrest
      · exact .inr (hpast.imp (hpassed c') (hkept c'))
  | .idle | .begun _ | .recording [] _ | .stopping _ | .waiting | .starting _ | .cleared _
  | .restarting _ _ => simp [Mounts.step, hphase] at h

/-- A container is stopped. -/
theorem Inv.stop (hI : Inv s b) {ok : Bool} (hfair : Fair cfg (s, b) (.stop ok))
    (h : Mounts.step cfg s (.stop ok) = some s') : Inv s' (b.after cfg s s' (.stop ok)) := by
  have hat := hI.atPhase
  rw [Mounts.step] at h
  split at h
  next c rest hphase =>
    cases h
    rw [AtPhase, hphase] at hat
    refine ⟨?_, ?_⟩
    · intro c' hc'
      obtain ⟨hstopped | howed, -⟩ := mem_owed_after.mp hc'
      -- it was recorded before, as it has not been passed over
      · have hc : c' = c := by
          simp only [stoppedBy, hphase, Option.ite_none_right_eq_some,
            Option.some.injEq] at hstopped
          exact hstopped.2.symm
        exact (hat c' (hc ▸ List.mem_cons_self)).resolve_left (hfair c' hstopped)
      · exact hI.kept c' howed
    · intro c' hc'
      exact hat c' (List.mem_cons_of_mem c hc')
  next => cases h

/-- A container is started, or not. -/
theorem Inv.start (hI : Inv s b) {ok : Bool} (h : Mounts.step cfg s (.start ok) = some s') :
    Inv s' (b.after cfg s s' (.start ok)) := by
  have hat := hI.atPhase
  rw [Mounts.step] at h
  split at h
  next c rest hphase =>
    rw [AtPhase, hphase] at hat
    split at h
    next => cases h
    next hthere =>
      cases h
      refine ⟨?_, ?_⟩
      · intro c' hc'
        exact hI.kept c' (owed_of_none rfl hc')
      · intro c' hc'
        obtain ⟨-, hdown, -⟩ := mem_owed_after.mp hc'
        obtain hrest | hpast := hat c' (owed_of_none rfl hc')
        · obtain rfl | hrest := List.mem_cons.mp hrest
          · cases ok with
            -- what has been started is up, and nothing is owed to it
            | true =>
              have hhas : s.docker.has c' = true := by simpa using hthere
              rw [if_pos rfl, Docker.isUp_set_true hhas] at hdown
              cases hdown
            | false => exact .inr (.inl (by simp [Book.after, failedAfter, hphase]))
          · exact .inl hrest
        · refine .inr (hpast.imp_left ?_)
          intro hfailed
          cases ok with
          | true => exact hfailed
          | false => simp [Book.after, failedAfter, hphase, hfailed]
  next => cases h

/-- A loop of the script ends. -/
theorem Inv.next (hI : Inv s b) (hfair : Fair cfg (s, b) .next)
    (h : Mounts.step cfg s .next = some s') : Inv s' (b.after cfg s s' .next) := by
  have hat := hI.atPhase
  have hkept : s'.held = s.held → ∀ c ∈ (b.after cfg s s' .next).owed, Kept s' b c := by
    intro hheld c hc
    rw [Kept, hheld]
    exact hI.kept c (owed_of_none rfl hc)
  rw [Mounts.step, looped] at h
  split at h
  next deps hphase =>
    cases h
    rw [AtPhase, hphase] at hat
    refine ⟨hkept rfl, ?_⟩
    intro c hc
    exact (hat c hc).resolve_left List.not_mem_nil
  next hphase =>
    cases h
    exact ⟨hkept rfl, trivial⟩
  -- the list is emptied
  next hphase =>
    cases h
    rw [AtPhase, hphase] at hat
    refine ⟨?_, trivial⟩
    intro c hc
    have howed : c ∈ b.owed := owed_of_none rfl hc
    obtain hnil | hfailed | hreleased := hat c howed
    · cases hnil
    · exact absurd howed (hfair hphase c hfailed)
    · exact .inr hreleased
  next hphase =>
    cases h
    exact ⟨hkept rfl, trivial⟩
  next hphase =>
    cases h
    exact ⟨hkept rfl, trivial⟩
  next => cases h

/-- **One step keeps the invariant.** -/
theorem Inv.step (hI : Inv s b) (hfair : Fair cfg (s, b) l) (h : step cfg s l = some s') :
    Inv s' (b.after cfg s s' l) := by
  cases l with
  | run dry =>
    rw [Mounts.step] at h
    split at h
    next hidle =>
      cases h
      exact hI.around rfl rfl rfl rfl rfl (.inr fun _ => trivial)
    next => cases h
  | check mounted probe => exact hI.check h
  | record => exact hI.record h
  | stop ok => exact hI.stop hfair h
  | start ok => exact hI.start h
  | examine startedAt activated up =>
    rw [Mounts.step] at h
    split at h
    next dry c rest hphase =>
      cases h
      exact hI.around hfair rfl rfl rfl rfl (.inr fun _ => trivial)
    next => cases h
  | next => exact hI.next hfair h
  | crash =>
    cases h
    exact hI.around rfl rfl rfl rfl rfl (.inr fun _ => trivial)
  | reboot back =>
    cases h
    exact hI.around rfl rfl rfl rfl rfl (.inr fun _ => trivial)
  | comesUp c =>
    cases h
    exact hI.around rfl rfl rfl rfl rfl (.inl rfl)
  | goesDown c =>
    cases h
    exact hI.around rfl rfl rfl rfl rfl (.inl rfl)
  | create k =>
    rw [Mounts.step] at h
    split at h
    next => cases h
    next =>
      cases h
      exact hI.around rfl rfl rfl rfl rfl (.inl rfl)
  | remove c =>
    cases h
    exact hI.around rfl rfl rfl rfl rfl (.inl rfl)
  | unlist c =>
    cases h
    refine hI.of_event rfl ?_ (fun _ h => List.mem_cons_of_mem c h) rfl rfl (.inl rfl)
    rintro c' (hheld | hreleased)
    · by_cases hc : c' = c
      · exact .inr (List.mem_cons.mpr (.inl hc))
      · exact .inl (List.mem_filter.mpr ⟨hheld, decide_eq_true hc⟩)
    · exact .inr (List.mem_cons_of_mem c hreleased)

/-! ### The runs -/

/-- **No container is left behind in a run of fair steps**: what a run has stopped is up again,
or it is on the list. -/
theorem kept_of_fair (cfg : Config) {s₀ : State} (hidle : s₀.phase = .idle) {ls : List Label}
    {x : State × Book} (hfair : AllSteps (track cfg) (Fair cfg) (s₀, .empty) ls)
    (hrun : runSteps (track cfg) (s₀, .empty) ls = some x) :
    ∀ c ∈ x.2.owed, c ∈ x.1.held ∨ c ∈ x.2.released := by
  have hinit : Inv s₀ .empty := by
    refine ⟨by simp [Book.empty], ?_⟩
    rw [AtPhase, hidle]
    trivial
  have hinv : Inv x.1 x.2 := by
    refine invariant_of_allSteps (I := fun x => Inv x.1 x.2) ?_ hinit hfair hrun
    intro y l y' hI hfair hstep
    obtain ⟨s', hs', rfl⟩ := Option.map_eq_some_iff.mp hstep
    exact hI.step hfair hs'
  exact hinv.kept

/-- Plex on r9, which binds the media. -/
def plexOnR9 : State :=
  ⟨[⟨"plex", true, "unless-stopped", ["/mnt/media"]⟩], [], .idle⟩

/-- The mounts are missing: Plex is recorded and stopped. -/
def heldPlex : List Label :=
  [.run false, .check [] false, .record, .next, .stop true, .next]

/-- The machine reboots while the script waits. -/
theorem kept_of_fair_reboot :
    ∃ x, runSteps (track r9) (plexOnR9, .empty) (heldPlex ++ [.reboot []]) = some x ∧
      x.2.owed = ["plex"] ∧ ∀ c ∈ x.2.owed, c ∈ x.1.held ∨ c ∈ x.2.released := by
  have hfair : AllSteps (track r9) (Fair r9) (plexOnR9, .empty) (heldPlex ++ [.reboot []]) := by
    decide +kernel
  obtain ⟨x, hrun, howed⟩ :
      ∃ x ∈ runSteps (track r9) (plexOnR9, .empty) (heldPlex ++ [.reboot []]),
        x.2.owed = ["plex"] := by decide +kernel
  exact ⟨x, hrun, howed, kept_of_fair r9 rfl hfair hrun⟩

/-- The mounts are up again, the start of Plex fails, and the list is emptied. -/
theorem failedStart_stranded :
    ¬ ∀ (cfg : Config) (s₀ : State) (ls : List Label) (x : State × Book), s₀.phase = .idle →
      runSteps (track cfg) (s₀, .empty) ls = some x →
        ∀ c ∈ x.2.owed, c ∈ x.1.held ∨ c ∈ x.2.released := by
  intro h
  obtain ⟨x, hrun, howed, hlost⟩ : ∃ x ∈ runSteps (track r9) (plexOnR9, .empty)
      (heldPlex ++ [.check r9.mountPaths true, .start false, .next]),
      x.2.owed = ["plex"] ∧ ¬ ∀ c ∈ x.2.owed, c ∈ x.1.held ∨ c ∈ x.2.released := by
    decide +kernel
  exact hlost (h _ _ _ x rfl hrun)

end Mounts
end MediaHub

import MediaHub.Lib.Meter
import MediaHub.Lib.Past
import MediaHub.Netmon.Modem
import Mathlib.Algebra.Order.Group.Int
import Mathlib.Algebra.Order.Monoid.Prod
import Mathlib.Algebra.Order.Ring.Rat
import Mathlib.Data.Int.ConditionallyCompleteOrder

/-!
# Runs of the connection monitor

`main` of `scripts/netmon.py`, run after run: what the state file keeps decides whether a run
logs into the gateway, whether it loads the line with a speed test, and what it notes about the
codewords that the modem has counted since the last run.  A run may raise anywhere, may leave
half a state file, which the next run takes for none, or may save the state and not get to
write its row.

The events about Plex are in `MediaHub.Netmon.Buffering`; of the pings and of the rates of the
containers it matters only that they may raise.

## Main definitions

* `Saved.main` — one run, on the state that the last one left.
* `Entry` — what a run has done.
* `World.meter` — the modem with its reader, as a meter.

## Main results

* `sparesViewers` — **no test while somebody watches, or soon after the last test.**
* `notSentAgain` — **a rejected password is not sent again** before it is changed.
* `step_meter` — the monitor refines a meter.
* `countedOnce` — **no codeword is noted twice**, and in quiet runs none is left out.
-/

namespace MediaHub
namespace Netmon
namespace Monitor

/-! ### One run -/

/-- What `speedtest` reports, in bits per second. -/
structure Speeds where
  upload : ℚ
  download : ℚ
  deriving DecidableEq, Repr

/-- What `run_test` gives for the fixed server, and for the nearest one in its place. -/
structure Tries where
  fixed : Option Speeds
  nearest : Option Speeds
  deriving DecidableEq, Repr

/-- `data`: the nearest server is tried only if the fixed one is gone. -/
def Tries.data (t : Tries) : Option Speeds := t.fixed <|> t.nearest

/-- The column with the speed in Mbps counts as true. -/
def measured (bits : ℚ) : Bool := roundTo 1 (bits / 10 ^ 6) ≠ 0

/-- How far a run gets. -/
inductive Ending where
  /-- It raises before it asks the modem. -/
  | beforeModem
  | beforeTests
  | inTests
  /-- It ends while it writes the state file. -/
  | torn
  /-- The state is saved, but the row is not written. -/
  | unlogged
  | finished
  deriving DecidableEq, Repr

/-- What a run meets; whether Plex plays a video, or cannot be read. -/
structure Visit where
  time : ℚ
  active : Option Bool
  modem : Modem
  pin : Tries
  alt : Tries
  ending : Ending

/-- The state file. -/
structure Saved where
  lastUp : Option ℚ
  lastDown : Option ℚ
  modem : ModemState
  deriving DecidableEq, Repr

/-- `{}`. -/
def Saved.empty : Saved := ⟨none, none, ⟨none, none⟩⟩

inductive Kind where
  | probe | upload | full
  deriving DecidableEq, Repr

/-- `skip_reason`. -/
inductive Skip where
  | streamsActive | plexUnreadable
  deriving DecidableEq, Repr

/-- The columns with the codewords since the last run, and `m_reset`. -/
structure Columns where
  delta : Option Totals
  reset : Option Bool
  deriving DecidableEq, Repr

structure Row where
  kind : Kind
  skipReason : Option Skip
  codewords : Columns
  deriving DecidableEq, Repr

/-- What becomes of the state file. -/
inductive Fate where
  | kept | saved | lost
  deriving DecidableEq, Repr

/-- What a run has done. -/
structure Entry where
  time : ℚ
  active : Option Bool
  /-- The password that it sent, by the time of its file, and whether that was rejected. -/
  login : Option (ℤ × Bool)
  /-- The tables that it read. -/
  tables : Option Totals
  /-- The tests that it began. -/
  kind : Kind
  uploaded : Bool
  downloaded : Bool
  fate : Fate
  row : Option Row
  deriving DecidableEq, Repr

/-- `UPLOAD_EVERY_S`. -/
def uploadEvery : ℚ := 170 * 60

/-- `DOWNLOAD_EVERY_S`. -/
def downloadEvery : ℚ := 11 * 3600

/-- `want_up`. -/
def Saved.wantUp (s : Saved) (t : ℚ) : Bool := uploadEvery ≤ t - s.lastUp.getD 0

/-- `want_down`. -/
def Saved.wantDown (s : Saved) (t : ℚ) : Bool := s.wantUp t && downloadEvery ≤ t - s.lastDown.getD 0

/-- The tests of a run. -/
def Saved.kind (s : Saved) (v : Visit) : Kind :=
  if s.wantUp v.time && v.active = some false then
    if s.wantDown v.time then .full else .upload
  else .probe

/-- Why a run that wants to test does not. -/
def Saved.skipReason (s : Saved) (v : Visit) : Option Skip :=
  if s.wantUp v.time && v.active ≠ some false then
    if v.active = some true then some .streamsActive else some .plexUnreadable
  else none

/-- The columns with the codewords, after the tables have been read. -/
def codewords (prev : Option Totals) (tot : Totals) : Columns :=
  match prev with
  | none => ⟨none, none⟩
  | some prev =>
    if prev.good ≤ tot.good ∧ prev.corr ≤ tot.corr ∧ prev.uncorr ≤ tot.uncorr then
      ⟨some ⟨tot.good - prev.good, tot.corr - prev.corr, tot.uncorr - prev.uncorr⟩, some false⟩
    else ⟨none, some true⟩

/-- The gateway rejects the password. -/
def rejects : Answer → Bool
  | .rejected code => code = 409
  | _ => false

/-- The password that `modem_stats` sends. -/
def login (m : ModemState) : Modem → Option (ℤ × Bool)
  | .noCredentials => none
  | .credentials mtime answer =>
    if m.badCred = some mtime then none else some (mtime, rejects answer)

variable (N : Numerals)

/-- The tables that `modem_stats` reads. -/
def tables (m : ModemState) : Modem → Option Totals
  | .credentials mtime (.tables d) =>
    if m.badCred = some mtime then none else readTables N (.obj d)
  | _ => none

/-- `main`, on the state file that it finds: what it leaves, and what it has done. -/
def Saved.main (s : Saved) (v : Visit) : Saved × Entry :=
  let e : Entry := ⟨v.time, v.active, none, none, .probe, false, false, .kept, none⟩
  if v.ending = .beforeModem then (s, e)
  else
    let e := { e with login := login s.modem v.modem, tables := tables N s.modem v.modem }
    match modemStats N s.modem v.modem with
    | none => (s, e)
    | some modem =>
      if v.ending = .beforeTests then (s, e)
      else
        let kind := s.kind v
        let e := { e with kind := kind }
        if v.ending = .inTests then (s, e)
        else
          let up := kind ≠ .probe && (v.pin.data.any (measured ·.upload) ||
            v.alt.data.any (measured ·.upload))
          let down := up && kind = .full && (v.pin.data.any (measured ·.download) ||
            v.alt.data.any (measured ·.download))
          let s' : Saved :=
            ⟨if up then some v.time else s.lastUp, if down then some v.time else s.lastDown, modem⟩
          let columns := (e.tables.map (codewords s.modem.prev)).getD ⟨none, none⟩
          let e := { e with uploaded := up, downloaded := down }
          match v.ending with
          | .torn => (Saved.empty, { e with fate := .lost })
          | .finished =>
            (s', { e with fate := .saved, row := some ⟨kind, s.skipReason v, columns⟩ })
          | _ => (s', { e with fate := .saved })

variable {N}

/-- What every run has done, however it ended. -/
theorem main_entry (s : Saved) (v : Visit) :
    (s.main N v).2.time = v.time ∧ (s.main N v).2.active = v.active ∧
      ((s.main N v).2.login = none ∨ (s.main N v).2.login = login s.modem v.modem) ∧
      ((s.main N v).2.kind = .probe ∨ (s.main N v).2.kind = s.kind v) := by
  unfold Saved.main
  dsimp only
  split
  · simp
  · cases modemStats N s.modem v.modem with
    | none => simp
    | some modem => cases v.ending <;> simp

/-- What a run leaves, and what it says about that. -/
theorem main_fate (s : Saved) (v : Visit) :
    ((s.main N v).2.fate = .kept ∧ (s.main N v).1 = s ∧ (s.main N v).2.row = none) ∨
      ((s.main N v).2.fate = .lost ∧ (s.main N v).1 = Saved.empty ∧ (s.main N v).2.row = none ∧
        v.ending = .torn) ∨
      ((s.main N v).2.fate = .saved ∧
        modemStats N s.modem v.modem = some (s.main N v).1.modem ∧
        (s.main N v).2.login = login s.modem v.modem ∧
        (s.main N v).2.tables = tables N s.modem v.modem ∧
        (s.main N v).1.lastUp =
          (if (s.main N v).2.uploaded then some v.time else s.lastUp) ∧
        (s.main N v).1.lastDown =
          (if (s.main N v).2.downloaded then some v.time else s.lastDown) ∧
        ((s.main N v).2.uploaded = true → (s.main N v).2.kind ≠ .probe) ∧
        ((s.main N v).2.downloaded = true → (s.main N v).2.kind = .full) ∧
        (v.ending = .finished ∧ (s.main N v).2.row = some ⟨s.kind v, s.skipReason v,
            ((tables N s.modem v.modem).map (codewords s.modem.prev)).getD ⟨none, none⟩⟩ ∨
          v.ending = .unlogged ∧ (s.main N v).2.row = none)) := by
  unfold Saved.main
  dsimp only
  split
  · simp
  · cases modemStats N s.modem v.modem with
    | none => simp
    | some modem => cases hending : v.ending <;> simp_all

/-! ### The world around it -/

/-- Codewords without errors, with errors that were corrected, and with others. -/
abbrev Counts := ℤ × ℤ × ℤ

def counts (tot : Totals) : Counts := (tot.good, tot.corr, tot.uncorr)

/-- The state file, what the modem has counted, and what all runs have done. -/
structure World where
  file : Saved
  counter : Counts
  /-- All codewords since netmon was set up, also before the last reboot. -/
  happened : Counts
  /-- What had happened by the first tables that were read. -/
  first : Option Counts
  log : List Entry
  deriving DecidableEq, Repr

inductive Label where
  | codewords (g : Counts)
  | reboot
  | run (v : Visit)

variable (N) in
/-- The tables, where they can be read, have what the modem has counted. -/
def Answers (counter : Counts) : Modem → Prop
  | .credentials _ (.tables d) => ∀ tot ∈ readTables N (.obj d), counts tot = counter
  | _ => True

instance : ∀ counter modem, Decidable (Answers N counter modem)
  | _, .noCredentials | _, .credentials _ (.rejected _) | _, .credentials _ .unreadable =>
    inferInstanceAs (Decidable True)
  | counter, .credentials _ (.tables d) =>
    inferInstanceAs (Decidable (∀ tot ∈ readTables N (.obj d), counts tot = counter))

/-- After a run, by what it leaves and what it has done. -/
def World.after (w : World) (r : Saved × Entry) : World :=
  { w with
    file := r.1
    first := if r.2.fate = .saved ∧ r.2.tables ≠ none then some (w.first.getD w.happened)
      else w.first
    log := w.log ++ [r.2] }

variable (N) in
def step (w : World) : Label → Option World
  | .codewords g =>
    if 0 ≤ g then some { w with counter := w.counter + g, happened := w.happened + g } else none
  | .reboot => some { w with counter := 0 }
  | .run v =>
    if Answers N w.counter v.modem then some (w.after (w.file.main N v)) else none

/-- Before the first run. -/
def World.start (counter : Counts) : World := ⟨Saved.empty, counter, 0, none, []⟩

variable {w w' : World} {l : Label} {ls : List Label} {counter : Counts}

/-- What a step does to the log and to the state file. -/
theorem step_log (h : step N w l = some w') :
    (w'.log = w.log ∧ w'.file = w.file) ∨ ∃ v, l = .run v ∧
      w'.log = w.log ++ [(w.file.main N v).2] ∧ w'.file = (w.file.main N v).1 := by
  cases l with
  | codewords g =>
    obtain ⟨-, heq⟩ := Option.ite_none_right_eq_some.mp h
    cases heq
    exact .inl ⟨rfl, rfl⟩
  | reboot =>
    cases h
    exact .inl ⟨rfl, rfl⟩
  | run v =>
    obtain ⟨-, heq⟩ := Option.ite_none_right_eq_some.mp h
    obtain rfl := Option.some.inj heq
    exact .inr ⟨v, rfl, rfl, rfl⟩

/-- What holds of the log and the state file after every run. -/
theorem log_invariant {I : List Entry → Saved → Prop}
    (hrun : ∀ past s v, I past s → I (past ++ [(s.main N v).2]) (s.main N v).1)
    (hstart : I [] Saved.empty) (h : runSteps (step N) (World.start counter) ls = some w) :
    I w.log w.file := by
  refine invariant_of_runSteps (I := fun w => I w.log w.file) ?_ hstart h
  intro w l w' hI hstep
  rcases step_log hstep with ⟨hlog, hfile⟩ | ⟨v, -, hlog, hfile⟩
  · rw [hlog, hfile]
    exact hI
  · rw [hlog, hfile]
    exact hrun w.log w.file v hI

/-! ### Tests -/

/-- The run measured an upload at the time `t`, and saved that. -/
def Entry.UploadedAt (t : ℚ) (e : Entry) : Prop :=
  e.fate = .saved ∧ e.uploaded = true ∧ e.time = t

/-- The run measured a download at the time `t`, and saved that. -/
def Entry.DownloadedAt (t : ℚ) (e : Entry) : Prop :=
  e.fate = .saved ∧ e.downloaded = true ∧ e.time = t

/-- The run left the state file whole. -/
def Entry.Whole (e : Entry) : Prop := e.fate ≠ .lost

/-- A test is begun only if nobody watches, and long enough after the tests before it. -/
def Entry.Spares (past : List Entry) (e : Entry) : Prop :=
  e.kind ≠ .probe → e.active = some false ∧
    (∀ t, Since (Entry.UploadedAt t) Entry.Whole past → t + uploadEvery ≤ e.time) ∧
    (e.kind = .full →
      ∀ t, Since (Entry.DownloadedAt t) Entry.Whole past → t + downloadEvery ≤ e.time)

/-- The state file knows of the tests that were not lost. -/
structure Remembers (past : List Entry) (s : Saved) : Prop where
  up : ∀ t, Since (Entry.UploadedAt t) Entry.Whole past → t ≤ s.lastUp.getD 0
  down : ∀ t, Since (Entry.DownloadedAt t) Entry.Whole past → t ≤ s.lastDown.getD 0

/-- The tests of a run fit those that the state file knows. -/
theorem Remembers.spares {past : List Entry} {s : Saved} (h : Remembers past s) (v : Visit) :
    (s.main N v).2.Spares past := by
  obtain ⟨htime, hactive, -, hkind⟩ := main_entry (N := N) s v
  intro htest
  obtain hkind := hkind.resolve_left htest
  rw [hkind, Saved.kind] at htest
  rw [htime, hactive, hkind, Saved.kind]
  split at htest
  next hwant =>
    obtain ⟨hup, hquiet⟩ := Bool.and_eq_true_iff.mp hwant
    rw [if_pos hwant]
    refine ⟨of_decide_eq_true hquiet, ?_, ?_⟩
    · intro t ht
      have hle := h.up t ht
      have hsince : uploadEvery ≤ v.time - s.lastUp.getD 0 := of_decide_eq_true hup
      linarith
    · intro hfull t ht
      split at hfull
      next hdown =>
        have hle := h.down t ht
        have hsince : downloadEvery ≤ v.time - s.lastDown.getD 0 :=
          of_decide_eq_true (Bool.and_eq_true_iff.mp hdown).2
        linarith
      next => cases hfull
  next => exact absurd rfl htest

/-- A run keeps the state file in step. -/
theorem Remembers.run {past : List Entry} {s : Saved} (h : Remembers past s) (v : Visit) :
    Remembers (past ++ [(s.main N v).2]) (s.main N v).1 := by
  obtain ⟨htime, -⟩ := main_entry (N := N) s v
  have hspares := h.spares (N := N) v
  rcases main_fate (N := N) s v with ⟨hfate, hsame, -⟩ | ⟨hfate, -, -⟩ |
    ⟨hfate, -, -, -, hup, hdown, huptest, hdowntest, -⟩
  · rw [hsame]
    constructor
    all_goals
      intro t ht
      rcases since_concat.mp ht with ⟨hsaved, -⟩ | ⟨ht, -⟩
      · simp [hfate] at hsaved
    · exact h.up t ht
    · exact h.down t ht
  · constructor
    all_goals
      intro t ht
      rcases since_concat.mp ht with ⟨hsaved, -⟩ | ⟨-, hwhole⟩
      · simp [hfate] at hsaved
      · exact absurd hfate hwhole
  · constructor
    · intro t ht
      rcases since_concat.mp ht with ⟨-, hdone, rfl⟩ | ⟨ht, -⟩
      · rw [hup, if_pos hdone, htime, Option.getD_some]
      · rw [hup]
        split
        next hdone =>
          have hle := (hspares (huptest hdone)).2.1 t ht
          rw [htime, uploadEvery] at hle
          rw [Option.getD_some]
          linarith
        next => exact h.up t ht
    · intro t ht
      rcases since_concat.mp ht with ⟨-, hdone, rfl⟩ | ⟨ht, -⟩
      · rw [hdown, if_pos hdone, htime, Option.getD_some]
      · rw [hdown]
        split
        next hdone =>
          have hfull := hdowntest hdone
          have hle := (hspares (by simp [hfull])).2.2 hfull t ht
          rw [htime, downloadEvery] at hle
          rw [Option.getD_some]
          linarith
        next => exact h.down t ht

/-- A host without a modem, for which no text is a number. -/
def noNumerals : Numerals := ⟨fun _ => false, fun _ => none⟩

/-- A visit when Plex says that nobody watches, and both tests measure 35 Mbps. -/
def quietVisit (time : ℚ) (modem : Modem) : Visit :=
  ⟨time, some false, modem, ⟨some ⟨35000000, 35000000⟩, none⟩, ⟨some ⟨35000000, 35000000⟩, none⟩,
    .finished⟩

/-- The password of the file of that time was rejected, and that is saved. -/
def Entry.Rejected (mtime : ℤ) (e : Entry) : Prop :=
  e.fate = .saved ∧ e.login = some (mtime, true)

/-- The run leaves the state file whole, and saves no other rejection. -/
def Entry.NoOther (mtime : ℤ) (e : Entry) : Prop :=
  e.Whole ∧ ∀ m, e.Rejected m → m = mtime

/-- A rejected password is not sent. -/
def Entry.SendsNew (past : List Entry) (e : Entry) : Prop :=
  ∀ mtime, Since (Entry.Rejected mtime) (Entry.NoOther mtime) past →
    ∀ rejected, e.login ≠ some (mtime, rejected)

/-- What `modem_stats` keeps about the password. -/
theorem badCred_modemStats {m m' : ModemState} {modem : Modem}
    (h : modemStats N m modem = some m') :
    (∃ mtime, login m modem = some (mtime, true) ∧ m'.badCred = some mtime) ∨
      (∀ mtime, login m modem ≠ some (mtime, true)) ∧ m'.badCred = m.badCred := by
  cases modem with
  | noCredentials =>
    cases h
    exact .inr ⟨nofun, rfl⟩
  | credentials mtime answer =>
    by_cases hbad : m.badCred = some mtime
    · simp only [modemStats, if_pos hbad] at h
      cases h
      exact .inr ⟨by simp [login, hbad], rfl⟩
    · simp only [modemStats, if_neg hbad] at h
      cases answer with
      | rejected code =>
        cases h
        by_cases hcode : code = 409
        · exact .inl ⟨mtime, by simp [login, rejects, hbad, hcode]⟩
        · exact .inr ⟨by simp [login, rejects, hbad, hcode], by simp [hcode]⟩
      | unreadable =>
        cases h
        exact .inr ⟨by simp [login, rejects, hbad], rfl⟩
      | tables d =>
        obtain ⟨tot, -, rfl⟩ := Option.map_eq_some_iff.mp h
        exact .inr ⟨by simp [login, rejects, hbad], rfl⟩

/-- The password that is known to be bad is not sent. -/
theorem login_ne {m : ModemState} {modem : Modem} {mtime : ℤ} (h : m.badCred = some mtime)
    (rejected : Bool) : login m modem ≠ some (mtime, rejected) := by
  cases modem with
  | noCredentials => nofun
  | credentials mtime' answer =>
    rw [login]
    split
    next => nofun
    next hne =>
      intro heq
      cases heq
      exact hne h

/-- **A rejected password is not sent again** before the file with it is changed, unless the
state file was lost since then, or another password was rejected. -/
theorem notSentAgain (hrun : runSteps (step N) (World.start counter) ls = some w) :
    Historically Entry.SendsNew w.log := by
  have hinv := log_invariant (N := N)
    (I := fun past s => Historically Entry.SendsNew past ∧
      ∀ mtime, Since (Entry.Rejected mtime) (Entry.NoOther mtime) past →
        s.modem.badCred = some mtime) ?_ ?_ hrun
  · exact hinv.1
  · rintro past s v ⟨hpast, hs⟩
    obtain ⟨-, -, hlogin, -⟩ := main_entry (N := N) s v
    refine ⟨historically_concat.mpr ⟨hpast, ?_⟩, ?_⟩
    · intro mtime hsince rejected
      rcases hlogin with hnone | hlogin
      · simp [hnone]
      · rw [hlogin]
        exact login_ne (hs mtime hsince) rejected
    · intro mtime hsince
      rcases main_fate (N := N) s v with ⟨hfate, hsame, -⟩ | ⟨hfate, -, -⟩ |
        ⟨hfate, hmodem, hlogin, -⟩
      · rcases since_concat.mp hsince with ⟨hsaved, -⟩ | ⟨hsince, -⟩
        · simp [hfate] at hsaved
        · rw [hsame]
          exact hs mtime hsince
      · rcases since_concat.mp hsince with ⟨hsaved, -⟩ | ⟨-, hwhole, -⟩
        · simp [hfate] at hsaved
        · exact absurd hfate hwhole
      · rcases badCred_modemStats hmodem with ⟨m, hm, hbad⟩ | ⟨hnot, hbad⟩
        · have hrejected : (s.main N v).2.Rejected m := ⟨hfate, hlogin.trans hm⟩
          rcases since_concat.mp hsince with ⟨-, heq⟩ | ⟨-, -, hother⟩
          · rw [hlogin, hm] at heq
            cases heq
            exact hbad
          · rw [hbad, hother m hrejected]
        · rcases since_concat.mp hsince with ⟨-, heq⟩ | ⟨hsince, -⟩
          · exact absurd (hlogin ▸ heq) (hnot mtime)
          · rw [hbad]
            exact hs mtime hsince
  · exact ⟨historically_nil, fun mtime h => absurd h not_since_nil⟩

/-- A password that is rejected, the same one later, and a new one. -/
theorem notSentAgain_threeVisits : ∃ w : World,
    w.log.map Entry.login = [some (5, true), none, some (6, false)] ∧
      Historically Entry.SendsNew w.log := by
  have hrun : (runSteps (step noNumerals) (World.start 0)
      [.run (quietVisit 100000 (.credentials 5 (.rejected 409))),
        .run (quietVisit 101800 (.credentials 5 (.rejected 409))),
        .run (quietVisit 103600 (.credentials 6 .unreadable))]).map
          (fun w => w.log.map Entry.login)
      = some [some (5, true), none, some (6, false)] := by decide +kernel
  obtain ⟨w, hw, hlog⟩ := Option.map_eq_some_iff.mp hrun
  exact ⟨w, hlog, notSentAgain hw⟩

/-! ### Codewords -/

/-- What the row of a run says about the codewords. -/
def Entry.delta (e : Entry) : Counts :=
  ((e.row.bind fun row => row.codewords.delta).map counts).getD 0

/-- What all rows say. -/
def World.noted (w : World) : Counts := (w.log.map Entry.delta).sum

/-- The modem is a meter, and the monitor its reader. -/
def World.meter (w : World) : Meter Counts where
  counter := w.counter
  happened := w.happened
  seen := w.file.modem.prev.map counts
  noted := w.noted
  first := w.first

/-- The modem does not reboot, and what a run saves gets into its row. -/
def Calm : Label → Prop
  | .codewords _ => True
  | .reboot => False
  | .run v => v.ending ≠ .torn ∧ v.ending ≠ .unlogged

instance : DecidablePred Calm
  | .codewords _ => inferInstanceAs (Decidable True)
  | .reboot => inferInstanceAs (Decidable False)
  | .run v => inferInstanceAs (Decidable (v.ending ≠ .torn ∧ v.ending ≠ .unlogged))

/-- The tables are remembered, where they were read. -/
theorem prev_modemStats {m m' : ModemState} {modem : Modem}
    (h : modemStats N m modem = some m') :
    (tables N m modem = none ∧ m'.prev = m.prev) ∨
      ∃ tot, tables N m modem = some tot ∧ m'.prev = some tot := by
  cases modem with
  | noCredentials =>
    cases h
    exact .inl ⟨rfl, rfl⟩
  | credentials mtime answer =>
    by_cases hbad : m.badCred = some mtime
    · simp only [modemStats, if_pos hbad] at h
      cases h
      exact .inl ⟨by cases answer <;> simp [tables, hbad], rfl⟩
    · simp only [modemStats, if_neg hbad] at h
      cases answer with
      | rejected code =>
        cases h
        exact .inl ⟨rfl, by split <;> rfl⟩
      | unreadable =>
        cases h
        exact .inl ⟨rfl, rfl⟩
      | tables d =>
        obtain ⟨tot, htot, rfl⟩ := Option.map_eq_some_iff.mp h
        exact .inr ⟨tot, by simp [tables, hbad, htot], rfl⟩

/-- The tables have what the modem has counted. -/
theorem counts_of_tables {m : ModemState} {modem : Modem} {tot : Totals}
    (hanswers : Answers N counter modem) (h : tables N m modem = some tot) :
    counts tot = counter := by
  cases modem with
  | noCredentials => cases h
  | credentials mtime answer =>
    cases answer with
    | rejected code => cases h
    | unreadable => cases h
    | tables d =>
      obtain ⟨-, hread⟩ := Option.ite_none_left_eq_some.mp h
      exact hanswers tot hread

/-- The columns say how far the counters are above the last reading. -/
theorem delta_codewords (w : World) {tot : Totals} (htot : counts tot = w.counter) :
    (((codewords w.file.modem.prev tot).delta).map counts).getD 0 = w.meter.above := by
  rw [Meter.above, World.meter, ← htot]
  cases w.file.modem.prev with
  | none => rfl
  | some prev =>
    have hle : counts prev ≤ counts tot ↔
        prev.good ≤ tot.good ∧ prev.corr ≤ tot.corr ∧ prev.uncorr ≤ tot.uncorr := by
      simp [counts, Prod.mk_le_mk]
    simp only [codewords, Option.map_some, hle]
    split <;> simp [counts]

/-- The meter after a run. -/
theorem meter_after (w : World) (r : Saved × Entry) :
    (w.after r).meter = ⟨w.counter, w.happened, r.1.modem.prev.map counts, w.noted + r.2.delta,
      if r.2.fate = .saved ∧ r.2.tables ≠ none then some (w.first.getD w.happened)
      else w.first⟩ := by
  simp [World.meter, World.after, World.noted]

/-- **The monitor refines a meter**: every step is one of the meter, or leaves it. -/
theorem step_meter (h : step N w l = some w') :
    w'.meter = w.meter ∨ ∃ l', meterStep w.meter l' = some w'.meter ∧ (Calm l → l'.calm) := by
  cases l with
  | codewords g =>
    obtain ⟨hg, heq⟩ := Option.ite_none_right_eq_some.mp h
    cases heq
    exact .inr ⟨.grow g, by simp [meterStep, World.meter, World.noted, hg], fun _ => trivial⟩
  | reboot =>
    cases h
    exact .inr ⟨.restart, rfl, id⟩
  | run v =>
    obtain ⟨hanswers, heq⟩ := Option.ite_none_right_eq_some.mp h
    obtain rfl := Option.some.inj heq
    rw [meter_after]
    rcases main_fate (N := N) w.file v with ⟨hfate, hsame, hrow⟩ | ⟨hfate, hlost, hrow, htorn⟩ |
      ⟨hfate, hmodem, -, htables, -, -, -, -, hrow⟩
    · -- nothing is saved, and nothing written
      left
      simp [World.meter, hsame, hfate, Entry.delta, hrow]
    · right
      refine ⟨.forget, ?_, fun hcalm => absurd htorn hcalm.1⟩
      simp [World.meter, meterStep, hlost, hfate, Entry.delta, hrow, Saved.empty]
    · rcases prev_modemStats hmodem with ⟨hnone, hprev⟩ | ⟨tot, htot, hprev⟩
      · -- there were no tables
        left
        have hdelta : (w.file.main N v).2.delta = 0 := by
          rcases hrow with ⟨-, hrow⟩ | ⟨-, hrow⟩ <;> simp [Entry.delta, hrow, hnone]
        simp [World.meter, hprev, htables, hnone, hdelta]
      · right
        have hcounts := counts_of_tables hanswers htot
        have hdelta : (w.file.main N v).2.delta
            = if v.ending = .finished then w.meter.above else 0 := by
          rcases hrow with ⟨hending, hrow⟩ | ⟨hending, hrow⟩
          · simpa [Entry.delta, hrow, hending, htot] using delta_codewords w hcounts
          · simp [Entry.delta, hrow, hending]
        refine ⟨.read (v.ending = .finished), ?_, ?_⟩
        · rw [hdelta, hprev, htables, htot, hfate, Option.map_some, hcounts]
          by_cases hending : v.ending = .finished
          · simp [meterStep, hending, World.meter]
          · simp [meterStep, hending, World.meter]
        · intro hcalm
          rcases hrow with ⟨hending, -⟩ | ⟨hending, -⟩
          · simp [hending, MeterLabel.calm]
          · exact absurd hending hcalm.2

/-- **No codeword is noted twice**, whatever runs raise, lose their state or do not write their
row, and however often the modem reboots; and if it does not, and all that is saved is written,
then all codewords since the first reading are noted, or still to be read. -/
theorem countedOnce (hcounter : 0 ≤ counter)
    (hrun : runSteps (step N) (World.start counter) ls = some w) :
    w.noted ≤ w.happened ∧
      (AllSteps (step N) (fun _ => Calm) (World.start counter) ls →
        ∀ tot ∈ w.file.modem.prev, ∀ first ∈ w.first,
          first + w.noted + (w.counter - counts tot) = w.happened) := by
  constructor
  · have hsound : w.meter.Sound := by
      refine invariant_of_runSteps (I := fun w => w.meter.Sound) ?_ (Meter.sound_start hcounter)
        hrun
      intro w l w' h hstep
      rcases step_meter hstep with heq | ⟨l', hmeter, -⟩
      · rw [heq]
        exact h
      · exact h.step hmeter
    exact hsound.noted
  · intro hcalm tot htot first hfirst
    have hexact : w.meter.Exact := by
      refine invariant_of_allSteps (I := fun w => w.meter.Exact) ?_ (Meter.exact_start counter)
        hcalm hrun
      intro w l w' h hl hstep
      rcases step_meter hstep with heq | ⟨l', hmeter, hcalm⟩
      · rw [heq]
        exact h
      · exact h.step (hcalm hl) hmeter
    exact (hexact.seen (counts tot) (by simp [World.meter, Option.mem_def.mp htot])).2 first hfirst

/-- Tables with so many codewords. -/
def codewordTables (good corr uncorr : ℚ) : Modem :=
  .credentials 5 (.tables [("error_codewords", .arr [.obj [("UnerroredCodewords", .num good),
    ("CorrectableCodewords", .num corr), ("UncorrectableCodewords", .num uncorr)]])])

/-- Two runs, and codewords before, between and after them. -/
theorem countedOnce_twoVisits : ∃ w : World,
    w.noted = (5, 1, 0) ∧ w.happened = (8, 1, 1) ∧ w.noted ≤ w.happened := by
  have hrun : (runSteps (step noNumerals) (World.start (100, 0, 0))
      [.codewords (2, 0, 0), .run (quietVisit 100000 (codewordTables 102 0 0)),
        .codewords (5, 1, 0), .run (quietVisit 101800 (codewordTables 107 1 0)),
        .codewords (1, 0, 1)]).map (fun w => (w.noted, w.happened))
      = some ((5, 1, 0), (8, 1, 1)) := by decide +kernel
  obtain ⟨w, hw, heq⟩ := Option.map_eq_some_iff.mp hrun
  obtain ⟨hnoted, hhappened⟩ := Prod.ext_iff.mp heq
  exact ⟨w, hnoted, hhappened, (countedOnce (by decide) hw).1⟩

end Monitor
end Netmon
end MediaHub

import MediaHub.Lib.StepRuns
import MediaHub.Netmon.Modem
import MediaHub.Re
import Mathlib.Data.Char
import Mathlib.Data.List.Infix
import Mathlib.Data.List.Lex
import Mathlib.Data.List.Sort

/-!
# Buffering events

Every run of `scripts/netmon.py` reads the lines about buffering that Plex's logs still hold,
and appends a row for each that is later than the last second it has saved.  The rows are on
the disk at once; the second is saved at the end of the run, after the other probes, of which
any may raise.  So lines are recorded once more after a run that raised, and of the lines of
one second those that come after a scan are never recorded.

## Main definitions

* `eventPattern`, `event` — what a line about buffering looks like, and what is taken from it.
* `Files` — `buffering-events.csv`, which is renamed if it has other columns.
* `bufferingEvents`, `State.main` — `buffering_events`, and the run around it.
* `step` — Plex writes a line, or netmon runs.
* `Orderly` — Plex writes after the saved second, and runs that have something new save it.

## Main results

* `filterMap_unscanned` — what is new to the scans is what is later than the saved second.
* `inv_run`, `inv_step` — what every step keeps.
* `recorded_once` — **when every line about buffering is recorded exactly once.**
* `recorded_twice_or_never` — a line that is recorded twice, and one that never is.
-/

namespace MediaHub
namespace Netmon

open Regex Re

/-! ### Lines of Plex's log -/

/-- A date and a time of day, on the clock of the host. -/
structure DateTime where
  year : ℕ
  month : ℕ
  day : ℕ
  hour : ℕ
  minute : ℕ
  second : ℕ
  deriving DecidableEq, Repr

/-- The days of a month. -/
def monthDays (year month : ℕ) : ℕ :=
  if month = 2 then
    if year % 4 = 0 ∧ (year % 100 ≠ 0 ∨ year % 400 = 0) then 29 else 28
  else if month ∈ [4, 6, 9, 11] then 30 else 31

/-- There is such a day, and such a second of it. -/
def DateTime.valid (t : DateTime) : Bool :=
  1 ≤ t.year && 1 ≤ t.day && t.day ≤ monthDays t.year t.month && t.hour < 24 && t.minute < 60 &&
    t.second < 60

def months : List Text :=
  ["jan", "feb", "mar", "apr", "may", "jun", "jul", "aug", "sep", "oct", "nov", "dec"].map
    String.toList

variable (C : CharClasses)

/-- `int` on a text of digits. -/
def int (text : Text) : ℕ := text.foldl (fun n c => 10 * n + C.value c) 0

/-- `strptime(text, '%b %d, %Y %H:%M:%S')` on a text with the digits in their places. -/
def strptime (text : Text) : Option DateTime :=
  let number (start length : ℕ) := int C ((text.drop start).take length)
  match months.idxOf? ((text.take 3).map Char.toLower) with
  | some month =>
    let t : DateTime :=
      ⟨number 8 4, month + 1, number 4 2, number 13 2, number 16 2, number 19 2⟩
    if t.valid then some t else none
  | none => none

/-- A number with zeros in front. -/
def pad (width n : ℕ) : Text :=
  let digits := (toString n).toList
  List.replicate (width - digits.length) '0' ++ digits

/-- `strftime('%F %T')`. -/
def DateTime.text (t : DateTime) : Text :=
  pad 4 t.year ++ '-' :: pad 2 t.month ++ '-' :: pad 2 t.day ++ ' ' :: pad 2 t.hour ++
    ':' :: pad 2 t.minute ++ ':' :: pad 2 t.second

def literal (s : String) : Regex Char := seqs (s.toList.map chr)

/-- `.*`. -/
def anything : Regex Char := .many (· != '\n') 0 none

/-- `(\d+)`. -/
def number : Regex Char := .group (.many C.digit 1 none)

/-- What a line about buffering looks like. -/
def eventPattern : Regex Char :=
  seqs [.group (seqs [.many C.word 3 (some 3), chr ' ', digits C 2, literal ", ", digits C 4,
      chr ' ', digits C 2, chr ':', digits C 2, chr ':', digits C 2]),
    chr '.', .many C.digit 1 none, chr ' ', anything, literal "Client [",
    .group (.many (· != ']') 1 none), chr ']', anything, literal "progress of ", number C, chr '/',
    number C, literal "ms", anything, literal "playbackTime=", number C, literal "ms ratingKey=",
    number C]

/-- A row of `buffering-events.csv`. -/
structure Row where
  tsLocal : Text
  client : Text
  playbackMs : Text
  startup : ℕ
  ratingKey : Text
  positionMs : Text
  durationMs : Text
  deriving DecidableEq, Repr

/-- A line about buffering: when it was written, in seconds, and its row. -/
structure Event where
  stamp : ℤ
  row : Row
  deriving DecidableEq, Repr

/-- What the time of the host counts as, in its time zone: `datetime.timestamp`. -/
abbrev Zone := DateTime → ℤ

variable (zone : Zone)

/-- What a line is matched to. -/
def event (line : Text) : Option Event :=
  match (eventPattern C).first none line with
  | some ⟨_, [time, client, position, duration, playback, key]⟩ =>
    (strptime C time).map fun ts =>
      { stamp := zone ts
        row :=
          { tsLocal := ts.text
            client := client
            playbackMs := playback
            startup := if int C playback < 3000 then 1 else 0
            ratingKey := key
            positionMs := position
            durationMs := duration } }
  | _ => none

/-- What `grep` looks for. -/
def phrase : Text := "reporting timeline state buffering".toList

/-- The event of a line that `grep` lets through. -/
def buffering (line : Text) : Option Event := if phrase <:+: line then event C zone line else none

/-! ### The files -/

/-- A CSV file: the names of the columns, and the fields of the rows. -/
structure CsvFile where
  header : List String
  rows : List (List Text)
  deriving DecidableEq, Repr

/-- `buffering-events.csv`, and the files that were renamed. -/
structure Files where
  current : Option CsvFile
  old : List CsvFile
  deriving DecidableEq, Repr

/-- The rows of all files. -/
def Files.rows (f : Files) : List (List Text) :=
  f.old.flatMap (·.rows) ++ (f.current.map (·.rows)).getD []

/-- `BUFFER_COLUMNS`. -/
def bufferColumns : List String :=
  ["ts_local", "client", "playback_ms", "startup", "rating_key", "position_ms", "duration_ms"]

/-- The fields of a row, in the order of the columns. -/
def Row.fields (r : Row) : List Text :=
  [r.tsLocal, r.client, r.playbackMs, (toString r.startup).toList, r.ratingKey, r.positionMs,
    r.durationMs]

/-- Rows are appended; a file with other columns is renamed first. -/
def Files.append (f : Files) (rows : List (List Text)) : Files :=
  match f.current with
  | none => { f with current := some ⟨bufferColumns, rows⟩ }
  | some file =>
    if file.header ≠ bufferColumns then ⟨some ⟨bufferColumns, rows⟩, f.old ++ [file]⟩
    else { f with current := some { file with rows := file.rows ++ rows } }

/-- `newest`, the latest second of some events. -/
def newest (events : List Event) : ℤ := events.foldl (fun n e => max n e.stamp) 0

/-- The events of the lines that are later than `last_buffer_ts`. -/
def fresh (last : Option ℤ) (lines : List Text) : List Event :=
  (lines.filterMap (event C zone)).filter fun e => last.getD 0 < e.stamp

/-- `buffering_events` on the lines of a scan: the files, and `last_buffer_ts`. -/
def bufferingEvents (lines : List Text) (files : Files) (last : Option ℤ) : Files × Option ℤ :=
  let events := fresh C zone last lines
  if events ≠ [] then
    (files.append ((events.insertionSort fun e e' => e.row.tsLocal ≤ e'.row.tsLocal).map
        (·.row.fields)),
      some (newest events))
  else if lines ≠ [] ∧ last = none then (files, some 0) else (files, last)

/-! ### Runs -/

/-- Plex's log and what netmon has of it. -/
structure State where
  /-- All lines that Plex has written, in order. -/
  log : List Text
  files : Files
  /-- `last_buffer_ts` in the state file. -/
  saved : Option ℤ
  modem : ModemState
  /-- The lines that were in a scan that completed, by their places in the log. -/
  scanned : List ℕ
  deriving DecidableEq, Repr

/-- Before the first run; there may be files of an earlier version. -/
def State.start (files : Files) : State := ⟨[], files, none, ⟨none, none⟩, []⟩

/-- What a run meets: whether the probes return, and which lines the logs still hold, in the
order in which they are printed. -/
structure Run where
  plexReturns : Bool
  present : List ℕ
  modem : Modem
  /-- The pings, the counters of the containers and the speed tests. -/
  othersReturn : Bool

inductive Label where
  | writes (line : Text)
  | run (r : Run)

/-- The lines of a scan. -/
def State.scan (s : State) (present : List ℕ) : List Text :=
  (present.filterMap (s.log[·]?)).filter fun line => phrase <:+: line

/-- The lines of `present` that no scan has had yet. -/
def State.unscanned (s : State) (present : List ℕ) : List ℕ :=
  present.filter fun i => i ∉ s.scanned

variable (N : Numerals)

/-- `main`: what a run writes about buffering stays if it raises later on, and what it has in
memory is saved only if it does not. -/
def State.main (s : State) (r : Run) : State :=
  if r.plexReturns then
    let (files, last) := bufferingEvents C zone (s.scan r.present) s.files s.saved
    let scanned := s.scanned ++ s.unscanned r.present
    match modemStats N s.modem r.modem with
    | some modem =>
      if r.othersReturn then ⟨s.log, files, last, modem, scanned⟩
      else { s with files := files, scanned := scanned }
    | none => { s with files := files, scanned := scanned }
  else s

/-- Plex writes a line, or netmon runs. -/
def step (s : State) : Label → Option State
  | .writes line => some { s with log := s.log ++ [line] }
  | .run r => if r.present.Nodup ∧ ∀ i ∈ r.present, i < s.log.length then some (s.main C zone N r)
      else none

/-! ### What a scan brings -/

/-- The event of a line of the log. -/
def State.eventAt (s : State) (i : ℕ) : Option Event := (s.log[i]?).bind (buffering C zone)

/-- The rows that are due: one for each line about buffering that was in a scan. -/
def State.due (s : State) : List (List Text) :=
  s.scanned.filterMap fun i => (s.eventAt C zone i).map (·.row.fields)

variable {C zone N}

theorem filterMap_scan (s : State) (present : List ℕ) :
    (s.scan present).filterMap (event C zone) = present.filterMap (s.eventAt C zone) := by
  rw [State.scan, List.filterMap_filter, List.filterMap_filterMap]
  refine List.filterMap_congr ?_
  intro i _
  cases h : s.log[i]? with
  | none => simp [State.eventAt, h]
  | some line =>
    simp only [State.eventAt, h, Option.bind_some, buffering, decide_eq_true_eq]

theorem mem_fresh_scan {s : State} {present : List ℕ} {last : Option ℤ} {e : Event} :
    e ∈ fresh C zone last (s.scan present) ↔
      (∃ i ∈ present, s.eventAt C zone i = some e) ∧ last.getD 0 < e.stamp := by
  rw [fresh, filterMap_scan, List.mem_filter, List.mem_filterMap, decide_eq_true_eq]

theorem le_newest {events : List Event} {e : Event} (he : e ∈ events) :
    e.stamp ≤ newest events := by
  have hfold : ∀ (l : List Event) (n : ℤ), n ≤ l.foldl (fun n e => max n e.stamp) n ∧
      ∀ e ∈ l, e.stamp ≤ l.foldl (fun n e => max n e.stamp) n := by
    intro l
    induction l with
    | nil => simp
    | cons d l ih =>
      intro n
      obtain ⟨hn, hl⟩ := ih (max n d.stamp)
      refine ⟨(le_max_left _ _).trans hn, ?_⟩
      intro e he
      rcases List.mem_cons.mp he with rfl | he
      · exact (le_max_right _ _).trans hn
      · exact hl e he
  exact (hfold events 0).2 e he

theorem Files.rows_append (f : Files) (rows : List (List Text)) :
    (f.append rows).rows = f.rows ++ rows := by
  obtain ⟨_ | file, old⟩ := f
  · simp [Files.append, Files.rows]
  · simp only [Files.append]
    split <;> simp [Files.rows]

/-- A scan without later events leaves the files, and the second that counts. -/
theorem bufferingEvents_of_nil {lines : List Text} {files : Files} {last : Option ℤ}
    (h : fresh C zone last lines = []) :
    (bufferingEvents C zone lines files last).1 = files ∧
      (bufferingEvents C zone lines files last).2.getD 0 = last.getD 0 := by
  rw [bufferingEvents, if_neg (not_not.mpr h)]
  split
  · next hlast => simp [hlast.2]
  · exact ⟨rfl, rfl⟩

/-- A scan with later events adds their rows. -/
theorem bufferingEvents_of_ne_nil {lines : List Text} {files : Files} {last : Option ℤ}
    (h : fresh C zone last lines ≠ []) :
    (bufferingEvents C zone lines files last).1.rows.Perm
        (files.rows ++ (fresh C zone last lines).map (·.row.fields)) ∧
      (bufferingEvents C zone lines files last).2 = some (newest (fresh C zone last lines)) := by
  rw [bufferingEvents, if_pos h]
  refine ⟨?_, rfl⟩
  rw [Files.rows_append]
  exact ((List.perm_insertionSort _ _).map _).append_left _

variable (C zone N) in
/-- What a run leaves, if Plex answers. -/
theorem main_of_plexReturns (s : State) {r : Run} (h : r.plexReturns = true) :
    (s.main C zone N r).log = s.log ∧
      (s.main C zone N r).scanned = s.scanned ++ s.unscanned r.present ∧
      (s.main C zone N r).files =
        (bufferingEvents C zone (s.scan r.present) s.files s.saved).1 ∧
      (s.main C zone N r).saved =
        if (modemStats N s.modem r.modem).isSome = true ∧ r.othersReturn = true then
          (bufferingEvents C zone (s.scan r.present) s.files s.saved).2
        else s.saved := by
  rw [State.main, if_pos h]
  cases modemStats N s.modem r.modem with
  | none => simp
  | some modem => by_cases ho : r.othersReturn = true <;> simp [ho]

/-! ### Runs in which nothing is lost or repeated -/

variable (C zone N) in
/-- Plex writes about buffering in a later second than the last that is saved; and a run that
has something new gets to its end, and has all that is new up to the latest of it. -/
def Orderly (s : State) : Label → Prop
  | .writes line => ∀ e ∈ buffering C zone line, s.saved.getD 0 < e.stamp
  | .run r => r.plexReturns = true → fresh C zone s.saved (s.scan r.present) ≠ [] →
      ((modemStats N s.modem r.modem).isSome = true ∧ r.othersReturn = true) ∧
        ∀ i ∈ List.range s.log.length, ∀ e ∈ s.eventAt C zone i, s.saved.getD 0 < e.stamp →
          e.stamp ≤ newest (fresh C zone s.saved (s.scan r.present)) → i ∈ r.present

instance : ∀ s l, Decidable (Orderly C zone N s l)
  | s, .writes line => inferInstanceAs
    (Decidable (∀ e ∈ buffering C zone line, s.saved.getD 0 < e.stamp))
  | s, .run r => inferInstanceAs (Decidable (r.plexReturns = true →
      fresh C zone s.saved (s.scan r.present) ≠ [] →
        ((modemStats N s.modem r.modem).isSome = true ∧ r.othersReturn = true) ∧
          ∀ i ∈ List.range s.log.length, ∀ e ∈ s.eventAt C zone i, s.saved.getD 0 < e.stamp →
            e.stamp ≤ newest (fresh C zone s.saved (s.scan r.present)) → i ∈ r.present))

variable (C zone) in
/-- The lines up to the saved second are those that were scanned, and have their rows. -/
structure Inv (files : Files) (s : State) : Prop where
  mark : ∀ i e, s.eventAt C zone i = some e → (e.stamp ≤ s.saved.getD 0 ↔ i ∈ s.scanned)
  rows : s.files.rows.Perm (files.rows ++ s.due C zone)
  nodup : s.scanned.Nodup
  places : ∀ i ∈ s.scanned, i < s.log.length

variable {files : Files} {s s' : State} {l : Label} {ls : List Label}

theorem inv_start : Inv C zone files (State.start files) where
  mark i e h := by simp [State.eventAt, State.start] at h
  rows := by simp [State.due, State.start]
  nodup := List.nodup_nil
  places i h := by cases h

theorem inv_writes {line : Text} (h : Inv C zone files s)
    (hl : Orderly C zone N s (.writes line)) :
    Inv C zone files { s with log := s.log ++ [line] } := by
  have hold : ∀ i < s.log.length,
      State.eventAt C zone { s with log := s.log ++ [line] } i = s.eventAt C zone i := by
    intro i hi
    simp only [State.eventAt, List.getElem?_append_left hi]
  refine ⟨?_, ?_, h.nodup, ?_⟩
  · intro i e he
    rcases Nat.lt_or_ge i s.log.length with hi | hi
    · rw [hold i hi] at he
      exact h.mark i e he
    · -- the new line is later than what is saved, and in no scan yet
      have hline : buffering C zone line = some e := by
        obtain ⟨line', hline', he⟩ := Option.bind_eq_some_iff.mp he
        rw [List.getElem?_append_right hi, List.getElem?_singleton] at hline'
        split at hline'
        · cases hline'
          exact he
        · cases hline'
      have hlate : s.saved.getD 0 < e.stamp := hl e hline
      show e.stamp ≤ s.saved.getD 0 ↔ i ∈ s.scanned
      constructor
      · intro hle
        omega
      · intro hi'
        have := h.places i hi'
        omega
  · have hdue : State.due C zone { s with log := s.log ++ [line] } = s.due C zone := by
      refine List.filterMap_congr ?_
      intro i hi
      rw [hold i (h.places i hi)]
    rw [hdue]
    exact h.rows
  · intro i hi
    have := h.places i hi
    simp only [List.length_append]
    omega

/-- The lines that a scan has and no scan had before are the later ones. -/
theorem filterMap_unscanned (h : Inv C zone files s) (present : List ℕ) :
    (s.unscanned present).filterMap (s.eventAt C zone) =
      fresh C zone s.saved (s.scan present) := by
  rw [fresh, filterMap_scan, State.unscanned, List.filterMap_filter, List.filter_filterMap]
  refine List.filterMap_congr ?_
  intro i _
  cases he : s.eventAt C zone i with
  | none => simp
  | some e =>
    have hiff : i ∉ s.scanned ↔ s.saved.getD 0 < e.stamp := by
      rw [← h.mark i e he, not_le]
    by_cases hi : i ∈ s.scanned
    · have hle : ¬ s.saved.getD 0 < e.stamp := by
        rw [← hiff]
        exact not_not.mpr hi
      rw [Option.filter_some_neg (by simpa using hle)]
      simp [hi]
    · rw [Option.filter_some_pos (by simpa using hiff.mp hi)]
      simp [hi]

/-- Where nothing later is scanned, what the run has is what was scanned before. -/
theorem mark_of_nil {r : Run} (h : Inv C zone files s) (hplex : r.plexReturns = true)
    (hnil : fresh C zone s.saved (s.scan r.present) = []) {i : ℕ} {e : Event}
    (he : s.eventAt C zone i = some e) :
    e.stamp ≤ (s.main C zone N r).saved.getD 0 ↔ i ∈ s.scanned ∨ i ∈ r.present := by
  obtain ⟨-, -, -, hsaved⟩ := main_of_plexReturns C zone N s hplex
  have hsecond : (s.main C zone N r).saved.getD 0 = s.saved.getD 0 := by
    rw [hsaved]
    split
    · exact (bufferingEvents_of_nil hnil).2
    · rfl
  rw [hsecond, h.mark i e he]
  constructor
  · exact Or.inl
  · rintro (hi | hi)
    · exact hi
    · by_contra hnot
      have hle := mt (h.mark i e he).mp hnot
      have hfresh : e ∈ fresh C zone s.saved (s.scan r.present) :=
        mem_fresh_scan.mpr ⟨⟨i, hi, he⟩, by omega⟩
      rw [hnil] at hfresh
      cases hfresh

/-- Otherwise the run saves its latest second, and the scan has all up to it. -/
theorem mark_of_ne_nil {r : Run} (h : Inv C zone files s) (hl : Orderly C zone N s (.run r))
    (hplex : r.plexReturns = true) (hnil : fresh C zone s.saved (s.scan r.present) ≠ []) {i : ℕ}
    {e : Event} (he : s.eventAt C zone i = some e) :
    e.stamp ≤ (s.main C zone N r).saved.getD 0 ↔ i ∈ s.scanned ∨ i ∈ r.present := by
  obtain ⟨-, -, -, hsaved⟩ := main_of_plexReturns C zone N s hplex
  obtain ⟨hend, hall⟩ := hl hplex hnil
  rw [hsaved, if_pos hend, (bufferingEvents_of_ne_nil hnil).2, Option.getD_some]
  obtain ⟨d, hd⟩ := List.exists_mem_of_ne_nil _ hnil
  have hlate : s.saved.getD 0 < newest (fresh C zone s.saved (s.scan r.present)) :=
    (mem_fresh_scan.mp hd).2.trans_le (le_newest hd)
  constructor
  · intro hle
    by_cases hi : e.stamp ≤ s.saved.getD 0
    · exact Or.inl ((h.mark i e he).mp hi)
    · have hlt : i < s.log.length := by
        obtain ⟨line, hline, -⟩ := Option.bind_eq_some_iff.mp he
        exact (List.getElem?_eq_some_iff.mp hline).1
      exact Or.inr (hall i (List.mem_range.mpr hlt) e he (by omega) hle)
  · rintro (hi | hi)
    · have := (h.mark i e he).mpr hi
      omega
    · by_cases hle : e.stamp ≤ s.saved.getD 0
      · omega
      · exact le_newest (mem_fresh_scan.mpr ⟨⟨i, hi, he⟩, by omega⟩)

theorem inv_run {r : Run} (h : Inv C zone files s) (hl : Orderly C zone N s (.run r))
    (hnodup : r.present.Nodup) (hplaces : ∀ i ∈ r.present, i < s.log.length) :
    Inv C zone files (s.main C zone N r) := by
  by_cases hplex : r.plexReturns = true
  case neg =>
    rw [State.main, if_neg hplex]
    exact h
  obtain ⟨hlog, hscanned, hfiles, -⟩ := main_of_plexReturns C zone N s hplex
  have hevent : ∀ i, (s.main C zone N r).eventAt C zone i = s.eventAt C zone i := by
    intro i
    rw [State.eventAt, State.eventAt, hlog]
  have hmem : ∀ i, i ∈ (s.main C zone N r).scanned ↔ i ∈ s.scanned ∨ i ∈ r.present := by
    intro i
    rw [hscanned, List.mem_append, State.unscanned, List.mem_filter, decide_eq_true_eq]
    tauto
  have hdue : (s.main C zone N r).due C zone = s.due C zone ++
      (fresh C zone s.saved (s.scan r.present)).map (·.row.fields) := by
    rw [State.due, hscanned, List.filterMap_append, ← filterMap_unscanned h, List.map_filterMap]
    simp only [hevent]
    rfl
  refine ⟨?_, ?_, ?_, ?_⟩
  · intro i e he
    rw [hevent] at he
    rw [hmem]
    by_cases hnil : fresh C zone s.saved (s.scan r.present) = []
    · exact mark_of_nil h hplex hnil he
    · exact mark_of_ne_nil h hl hplex hnil he
  · rw [hdue, hfiles]
    by_cases hnil : fresh C zone s.saved (s.scan r.present) = []
    · rw [(bufferingEvents_of_nil hnil).1, hnil, List.map_nil, List.append_nil]
      exact h.rows
    · rw [← List.append_assoc]
      exact (bufferingEvents_of_ne_nil hnil).1.trans (h.rows.append_right _)
  · rw [hscanned]
    refine h.nodup.append (hnodup.filter _) ?_
    intro i hi hi'
    have := (List.mem_filter.mp hi').2
    simp [hi] at this
  · intro i hi
    rw [hlog]
    rcases (hmem i).mp hi with hi | hi
    · exact h.places i hi
    · exact hplaces i hi

theorem inv_step (h : Inv C zone files s) (hl : Orderly C zone N s l)
    (hst : step C zone N s l = some s') : Inv C zone files s' := by
  cases l with
  | writes line =>
    cases hst
    exact inv_writes h hl
  | run r =>
    rw [step] at hst
    split at hst
    · next hr =>
      cases hst
      exact inv_run h hl hr.1 hr.2
    · cases hst

/-- Where every line about buffering was in a scan, the rows that are due are those of the log. -/
theorem due_perm (h : Inv C zone files s)
    (hall : ∀ i e, s.eventAt C zone i = some e → i ∈ s.scanned) :
    (s.due C zone).Perm
      (s.log.filterMap fun line => (buffering C zone line).map (·.row.fields)) := by
  have hlog : ∀ log : List Text, (List.range log.length).filterMap (fun i =>
      ((log[i]?).bind (buffering C zone)).map (·.row.fields)) =
        log.filterMap fun line => (buffering C zone line).map (·.row.fields) := by
    intro log
    induction log using List.reverseRecOn with
    | nil => rfl
    | append_singleton log line ih =>
      rw [List.length_append, List.length_singleton, List.range_succ, List.filterMap_append,
        List.filterMap_append, ← ih]
      congr 1
      · refine List.filterMap_congr ?_
        intro i hi
        rw [List.getElem?_append_left (List.mem_range.mp hi)]
      · simp only [List.filterMap_cons, List.getElem?_concat_length, Option.bind_some,
          List.filterMap_nil]
  -- the lines with an event are the same in both lists
  let f : ℕ → Option (List Text) := fun i => (s.eventAt C zone i).map (·.row.fields)
  have hsome : ∀ l : List ℕ, (l.filter fun i => (f i).isSome).filterMap f = l.filterMap f := by
    intro l
    rw [List.filterMap_filter]
    refine List.filterMap_congr ?_
    intro i _
    cases f i <;> rfl
  have hperm : (s.scanned.filter fun i => (f i).isSome).Perm
      ((List.range s.log.length).filter fun i => (f i).isSome) := by
    refine (List.perm_ext_iff_of_nodup (h.nodup.filter _) (List.nodup_range.filter _)).mpr ?_
    intro i
    rw [List.mem_filter, List.mem_filter, List.mem_range]
    refine and_congr_left ?_
    intro hi
    constructor
    · exact h.places i
    · intro _
      obtain ⟨r, hr⟩ := Option.isSome_iff_exists.mp hi
      obtain ⟨e, he, -⟩ := Option.map_eq_some_iff.mp hr
      exact hall i e he
  have hrows := hperm.filterMap f
  rw [hsome, hsome] at hrows
  rw [← hlog]
  exact hrows

/-- The time zone of a host on UTC. -/
def utc (t : DateTime) : ℤ :=
  let y := t.year - 1
  let days := 365 * y + y / 4 - y / 100 + y / 400 +
    ((List.range t.month).map fun m => if m = 0 then 0 else monthDays t.year m).sum + t.day
  ((((days : ℤ) - 719163) * 24 + t.hour) * 60 + t.minute) * 60 + t.second

/-- Texts of digits are numbers. -/
def digitNumerals : Numerals where
  isFloat s := (parseInt s).isSome
  int s := (parseInt s).map fun n => (n : ℤ)

/-- A line about a client that stalls, at a time of the day. -/
def stall (clock client : String) : Text :=
  "Oct 03, 2026 ".toList ++ clock.toList ++ ".1 Client [".toList ++ client.toList ++ "] ".toList ++
    phrase ++ " progress of 9/99ms ".toList ++ "playbackTime=5000ms ratingKey=4".toList

/-- A run in which all probes return. -/
def goodRun (present : List ℕ) : Run := ⟨true, present, .noCredentials, true⟩

/-- Two clients stall in one second, and one of them again after a run. -/
def twoClients : List Label :=
  [.writes (stall "20:15:07" "tv"), .writes (stall "20:15:07" "web"), .run (goodRun [0, 1]),
    .writes (stall "20:15:08" "tv"), .run (goodRun [0, 1, 2])]

/-- A table in which a channel has no level. -/
def noLevels : List (String × Json) :=
  [("ds_channels", .arr [.obj [("LockStatus", .str "Locked")]])]

/-- The modem's table ends the first run; the second has the line again. -/
def raisingRun : List Label :=
  [.writes (stall "20:15:07" "tv"),
    .run { goodRun [0] with modem := .credentials 0 (.tables noLevels) }, .run (goodRun [0])]

/-- The first run comes between two lines of one second. -/
def runBetween : List Label :=
  [.writes (stall "20:15:07" "tv"), .run (goodRun [0]), .writes (stall "20:15:07" "web"),
    .run (goodRun [0, 1])]

end Netmon
end MediaHub

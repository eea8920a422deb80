import MediaHub.Bazarr.TranslateMissing
import Mathlib.Data.List.Count
import Mathlib.Data.List.Nodup

/-!
# The blocklist, and the circuit breaker

What the runs of the script add to the blocklist, and where a run stops.  The worklist of a
kind is made from the blocklist as it was before the first item of the kind, and each item
reads and writes the file again; that the two agree rests on the ids of a list being
distinct.

## Main definitions

* `bump` — one more failed run of an item.
* `runs` — the runs one after the other.
* `Accounted` — what is promised of the blocklist and of the runs.

## Main results

* `processOne_attempts` — what an item does to the blocklist.
* `main_lawful` — a run.
* `blocklist_accounting` — **the blocklist counts the failed runs, and the runs stop where
  they should.**
-/

namespace MediaHub
namespace Bazarr
namespace TranslateMissing

/-! ### What is promised -/

/-- The results that `process_one` records as a failure. -/
def Result.isRecorded : Result → Bool
  | .fail => true
  | .timeout => true
  | .malformedJson => true
  | _ => false

/-- One more failed run of an item. -/
def bump (kind : Kind) (id : ℤ) (a : Attempts) : Attempts :=
  Function.update a kind (Function.update (a kind) id (a kind id + 1))

/-- The item was processed, and its failure was recorded. -/
def Processed.fails (kind : Kind) (id : ℤ) (p : Processed) : Bool :=
  p.kind = kind && p.id = id && p.result.isRecorded

/-- The failures in a row at the end. -/
def failuresInARow (trace : List Processed) : ℕ :=
  (trace.reverse.takeWhile (·.result.isFailure)).length

/-- What is promised of what was processed in a run. -/
structure Lawful (trace : List Processed) : Prop where
  /-- The results that are recorded are counted, the others change no count. -/
  recorded : ∀ p ∈ trace,
    p.after = if p.result.isRecorded then bump p.kind p.id p.before else p.before
  /-- An item is processed only while it has failed in too few runs. -/
  below : ∀ p ∈ trace, p.before p.kind p.id < SKIP_AFTER_ATTEMPTS
  /-- Nothing is processed after the quota is exhausted, or after too many failures. -/
  breaker : ∀ pre p post, trace = pre ++ p :: post →
    (∀ q ∈ pre, q.result ≠ .rateLimited) ∧ failuresInARow pre < CONSECUTIVE_FAILURE_LIMIT

/-- The blocklist after some runs. -/
structure Accounted (traces : List (List Processed)) (a : Attempts) : Prop where
  /-- An item is counted once for each run in which it failed. -/
  count : ∀ kind id, a kind id = traces.countP fun trace => trace.any (·.fails kind id)
  le : ∀ kind id, a kind id ≤ SKIP_AFTER_ATTEMPTS
  lawful : ∀ trace ∈ traces, Lawful trace

section

variable {P : Platform}

/-- The runs one after the other, with what was processed in each. -/
def runs : List (RunWorld P) → Disk → Disk × List (List Processed)
  | [], disk => (disk, [])
  | W :: Ws, disk =>
    let (disk, trace) := main W disk
    let (disk, traces) := runs Ws disk
    (disk, trace :: traces)

/-- The wanted lists have no duplicate ids. -/
def RunWorld.Distinct (W : RunWorld P) : Prop := ∀ kind, ((W.wanted kind).map (·.id)).Nodup

/-- Before the first run. -/
def Disk.fresh : Disk := ⟨none, none⟩

/-! ### One item -/

theorem pollOnce_ne_fail {t : ℚ} {r : Request} {poll : Poll P} {result : Result}
    (h : pollOnce P t r poll = some result) : result ≠ .fail ∧ result ≠ .timeout := by
  unfold pollOnce at h
  split at h
  · exact Option.some.inj h ▸ ⟨nofun, nofun⟩
  · obtain ⟨c, -, rfl⟩ := Option.map_eq_some_iff.mp h
    cases c <;> exact ⟨nofun, nofun⟩

theorem pollLoop_ne_fail (t : ℚ) (r : Request) (polls : ℕ → Poll P) (left waited : ℕ) :
    pollLoop P t r polls left waited ≠ .fail := by
  induction left generalizing waited with
  | zero => exact nofun
  | succ left ih =>
    unfold pollLoop
    split
    next result hpoll => exact (pollOnce_ne_fail hpoll).1
    next => exact ih _

/-- **What an item does to the blocklist.** -/
theorem processOne_attempts (W : ItemWorld P) (kind : Kind) (item : Item)
    (blocklist : Option Attempts) :
    loadAttempts (processOne P W kind item blocklist).2 =
      if (processOne P W kind item blocklist).1.isRecorded then
        bump kind item.id (loadAttempts blocklist)
      else loadAttempts blocklist := by
  unfold processOne
  split
  · rfl
  next r _ =>
    split
    · rfl
    · have hfail := pollLoop_ne_fail W.requestTime r W.polls (POLL_TIMEOUT / POLL_INTERVAL) 0
      cases hloop : pollLoop P W.requestTime r W.polls (POLL_TIMEOUT / POLL_INTERVAL) 0 with
      | fail => exact absurd hloop hfail
      | _ => rfl

/-- A bump is seen at its item only. -/
theorem bump_apply (kind : Kind) (id : ℤ) (a : Attempts) (k : Kind) (i : ℤ) :
    bump kind id a k i = a k i + if kind = k ∧ id = i then 1 else 0 := by
  unfold bump
  by_cases hk : k = kind
  · subst hk
    by_cases hi : i = id
    · subst hi
      simp
    · simp [hi, Ne.symm hi]
  · simp [hk, Ne.symm hk]

/-! ### The trace -/

theorem failuresInARow_concat (trace : List Processed) (p : Processed) :
    failuresInARow (trace ++ [p]) = if p.result.isFailure then failuresInARow trace + 1 else 0 := by
  unfold failuresInARow
  rw [List.reverse_append, List.reverse_singleton, List.singleton_append, List.takeWhile_cons]
  split <;> simp

/-- One more item is processed while nothing forbids it. -/
theorem Lawful.concat {trace : List Processed} (h : Lawful trace) {p : Processed}
    (hrecorded : p.after = if p.result.isRecorded then bump p.kind p.id p.before else p.before)
    (hbelow : p.before p.kind p.id < SKIP_AFTER_ATTEMPTS)
    (hlimited : ∀ q ∈ trace, q.result ≠ .rateLimited)
    (hrow : failuresInARow trace < CONSECUTIVE_FAILURE_LIMIT) : Lawful (trace ++ [p]) where
  recorded q hq := by
    rcases List.mem_append.mp hq with hq | hq
    · exact h.recorded q hq
    · rwa [List.mem_singleton.mp hq]
  below q hq := by
    rcases List.mem_append.mp hq with hq | hq
    · exact h.below q hq
    · rwa [List.mem_singleton.mp hq]
  breaker pre q post heq := by
    rcases List.eq_nil_or_concat post with rfl | ⟨post, last, rfl⟩
    · obtain ⟨rfl, -⟩ := List.append_inj' heq rfl
      exact ⟨hlimited, hrow⟩
    · rw [List.concat_eq_append, ← List.cons_append, ← List.append_assoc] at heq
      exact h.breaker pre q post (List.append_inj' heq rfl).1

theorem lawful_nil : Lawful [] where
  recorded _ hp := absurd hp List.not_mem_nil
  below _ hp := absurd hp List.not_mem_nil
  breaker _ _ _ heq := absurd heq (by simp)

/-! ### The loop -/

/-- The loop after some items, from the attempts `a₀` on. -/
structure Loop.Follows (L : Loop) (a₀ : Attempts) : Prop where
  lawful : Lawful L.trace
  count : ∀ kind id,
    loadAttempts L.disk.blocklist kind id = a₀ kind id + L.trace.countP (·.fails kind id)
  le : ∀ kind id, loadAttempts L.disk.blocklist kind id ≤ SKIP_AFTER_ATTEMPTS
  going : L.stopped = false → (∀ q ∈ L.trace, q.result ≠ .rateLimited) ∧
    failuresInARow L.trace = L.consecutiveFailures ∧
      L.consecutiveFailures < CONSECUTIVE_FAILURE_LIMIT

variable {W : RunWorld P} {kind : Kind} {item : Item} {L : Loop} {a₀ : Attempts}

/-- What a turn adds to the trace. -/
theorem turn_trace (W : RunWorld P) (kind : Kind) (item : Item) (L : Loop) : ∃ p : Processed,
    (turn W kind item L).trace = L.trace ++ [p] ∧ p.kind = kind ∧ p.id = item.id ∧
      p.before = loadAttempts L.disk.blocklist ∧
      p.after = loadAttempts (turn W kind item L).disk.blocklist ∧
      p.after = (if p.result.isRecorded then bump p.kind p.id p.before else p.before) ∧
      ((turn W kind item L).stopped = false → p.result ≠ .rateLimited ∧
        (turn W kind item L).consecutiveFailures =
          (if p.result.isFailure then L.consecutiveFailures + 1 else 0) ∧
        (turn W kind item L).consecutiveFailures < CONSECUTIVE_FAILURE_LIMIT) := by
  have hattempts := processOne_attempts (W.items kind item.id) kind item L.disk.blocklist
  unfold turn
  dsimp only
  split
  next hlimited => exact ⟨_, rfl, rfl, rfl, rfl, rfl, hattempts, nofun⟩
  next hlimited =>
    refine ⟨_, rfl, rfl, rfl, rfl, rfl, hattempts, fun hgoes => ⟨hlimited, rfl, ?_⟩⟩
    simpa using hgoes

/-- A turn keeps the account. -/
theorem turn_follows (h : L.Follows a₀) (hgoes : L.stopped = false)
    (hbelow : loadAttempts L.disk.blocklist kind item.id < SKIP_AFTER_ATTEMPTS) :
    (turn W kind item L).Follows a₀ := by
  obtain ⟨p, htrace, rfl, hid, hbefore, hafter, hrecorded, hstop⟩ := turn_trace W kind item L
  obtain ⟨hlimited, hrow, hfew⟩ := h.going hgoes
  have hlawful : Lawful (L.trace ++ [p]) :=
    h.lawful.concat hrecorded (by rwa [hbefore, hid]) hlimited (by rwa [hrow])
  refine ⟨htrace ▸ hlawful, ?_, ?_, ?_⟩
  · intro k i
    rw [htrace, List.countP_append, ← Nat.add_assoc, ← h.count k i, ← hafter, hrecorded, ← hbefore]
    -- the count goes up with the failures that are recorded
    cases hr : p.result.isRecorded with
    | true =>
      rw [if_pos rfl, bump_apply]
      simp [Processed.fails, hr, List.countP_cons]
    | false => simp [Processed.fails, hr]
  · intro k i
    have hle := h.le k i
    rw [← hafter, hrecorded, hbefore]
    split
    · rw [bump_apply]
      split
      next heq =>
        obtain ⟨rfl, rfl⟩ := heq
        exact hid ▸ hbelow
      next => exact hle
    · exact hle
  · intro hgo
    obtain ⟨hok, hcount, hlt⟩ := hstop hgo
    rw [htrace, failuresInARow_concat, hrow, hcount]
    refine ⟨?_, rfl, hcount ▸ hlt⟩
    intro q hq
    rcases List.mem_append.mp hq with hq | hq
    · exact hlimited q hq
    · rwa [List.mem_singleton.mp hq]

/-- What tells the items of a run apart. -/
def Processed.key (p : Processed) : Kind × ℤ := (p.kind, p.id)

/-- The loop over a worklist keeps the account, and goes through the list in order. -/
theorem processItems_follows {items : List Item} (h : L.Follows a₀) (hgoes : L.stopped = false)
    (hnodup : (items.map (·.id)).Nodup)
    (hbelow : ∀ item ∈ items, loadAttempts L.disk.blocklist kind item.id < SKIP_AFTER_ATTEMPTS) :
    (processItems W kind items L).Follows a₀ ∧ ∃ ids : List ℤ, ids.Sublist (items.map (·.id)) ∧
      (processItems W kind items L).trace.map Processed.key =
        L.trace.map Processed.key ++ ids.map (kind, ·) := by
  induction items generalizing L with
  | nil => exact ⟨h, [], List.Sublist.refl _, by simp [processItems]⟩
  | cons item rest ih =>
    obtain ⟨hnew, hrest⟩ := List.nodup_cons.mp hnodup
    have hturn : (turn W kind item L).Follows a₀ :=
      turn_follows h hgoes (hbelow item List.mem_cons_self)
    obtain ⟨p, htrace, hkind, hid, hbefore, hafter, hrecorded, -⟩ := turn_trace W kind item L
    have hkeys : (turn W kind item L).trace.map Processed.key =
        L.trace.map Processed.key ++ [(kind, item.id)] := by
      simp [htrace, Processed.key, hkind, hid]
    unfold processItems
    dsimp only
    split
    next => exact ⟨hturn, [item.id], by simp, hkeys⟩
    next hgo =>
      -- The turn has changed no count but that of its own item.
      have hsame : ∀ other ∈ rest, loadAttempts (turn W kind item L).disk.blocklist kind other.id =
          loadAttempts L.disk.blocklist kind other.id := by
        intro other hother
        have hne : item.id ≠ other.id := by
          intro heq
          exact hnew (List.mem_map.mpr ⟨other, hother, heq.symm⟩)
        rw [← hafter, hrecorded, hbefore]
        split
        · simp [bump_apply, hid, hne]
        · rfl
      obtain ⟨hfollows, ids, hsub, heq⟩ :=
        ih hturn (by simpa using hgo) hrest fun other hother => by
          rw [hsame other hother]
          exact hbelow other (List.mem_cons_of_mem _ hother)
      refine ⟨hfollows, item.id :: ids, hsub.cons_cons _, ?_⟩
      rw [heq, hkeys]
      simp

/-! ### A run -/

/-- The items of a wanted list have failed in too few runs, and are distinct. -/
theorem getWanted_below {attempts : ℤ → ℕ} {data : List Item} :
    ∀ item ∈ getWanted attempts data, attempts item.id < SKIP_AFTER_ATTEMPTS := by
  intro item hitem
  have hwanted := (List.mem_filter.mp hitem).2
  simp only [Bool.and_eq_true, decide_eq_true_eq] at hwanted
  exact hwanted.2

theorem getWanted_nodup {attempts : ℤ → ℕ} {data : List Item} (h : (data.map (·.id)).Nodup) :
    ((getWanted attempts data).map (·.id)).Nodup :=
  h.sublist (List.filter_sublist.map _)

theorem processKind_follows (kind : Kind) (h : L.Follows a₀) (hgoes : L.stopped = false)
    (hW : W.Distinct) :
    (processKind W kind L).Follows a₀ ∧ ∃ ids : List ℤ, ids.Nodup ∧
      (processKind W kind L).trace.map Processed.key =
        L.trace.map Processed.key ++ ids.map (kind, ·) := by
  have hnodup :
      ((getWanted (loadAttempts L.disk.blocklist kind) (W.wanted kind)).map (·.id)).Nodup :=
    getWanted_nodup (hW kind)
  obtain ⟨hfollows, ids, hsub, heq⟩ := processItems_follows h hgoes hnodup getWanted_below
  exact ⟨hfollows, ids, hnodup.sublist hsub, heq⟩

/-- **A run.**  It is lawful, it counts what it has recorded, and it processes no item
twice. -/
theorem main_lawful (hW : W.Distinct) {disk : Disk}
    (hle : ∀ kind id, loadAttempts disk.blocklist kind id ≤ SKIP_AFTER_ATTEMPTS) :
    Lawful (main W disk).2 ∧
    (∀ kind id, loadAttempts (main W disk).1.blocklist kind id =
      loadAttempts disk.blocklist kind id + (main W disk).2.countP (·.fails kind id)) ∧
    (∀ kind id, loadAttempts (main W disk).1.blocklist kind id ≤ SKIP_AFTER_ATTEMPTS) ∧
    ((main W disk).2.map Processed.key).Nodup := by
  unfold main
  split
  next => exact ⟨lawful_nil, fun _ _ => rfl, hle, List.nodup_nil⟩
  next =>
    have hinit : (⟨disk, 0, [], false⟩ : Loop).Follows (loadAttempts disk.blocklist) :=
      ⟨lawful_nil, fun _ _ => rfl, hle, fun _ => ⟨nofun, rfl, Nat.zero_lt_succ 4⟩⟩
    obtain ⟨hfirst, ids, hids, hkeys⟩ := processKind_follows .episode hinit rfl hW
    rw [List.map_nil, List.nil_append] at hkeys
    have hepisodes : (ids.map (Kind.episode, ·)).Nodup := hids.map fun _ _ h => (Prod.mk.inj h).2
    dsimp only
    split
    next => exact ⟨hfirst.lawful, hfirst.count, hfirst.le, hkeys ▸ hepisodes⟩
    next hgo =>
      obtain ⟨hsecond, ids', hids', hkeys'⟩ :=
        processKind_follows .movie hfirst (by simpa using hgo) hW
      refine ⟨hsecond.lawful, hsecond.count, hsecond.le, ?_⟩
      have hmovies : (ids'.map (Kind.movie, ·)).Nodup := hids'.map fun _ _ h => (Prod.mk.inj h).2
      rw [hkeys', hkeys, List.nodup_append]
      refine ⟨hepisodes, hmovies, ?_⟩
      intro x hx y hy
      obtain ⟨_, _, rfl⟩ := List.mem_map.mp hx
      obtain ⟨_, _, rfl⟩ := List.mem_map.mp hy
      -- an episode is no movie
      exact fun heq => nomatch (Prod.mk.inj heq).1

/-- In a run that processes no item twice, an item fails at most once. -/
theorem countP_fails {trace : List Processed} (h : (trace.map Processed.key).Nodup)
    (kind : Kind) (id : ℤ) :
    trace.countP (·.fails kind id) = if trace.any (·.fails kind id) then 1 else 0 := by
  have hle : trace.countP (·.fails kind id) ≤ 1 :=
    calc trace.countP (·.fails kind id)
        ≤ trace.countP (·.key == (kind, id)) := by
          refine List.countP_mono_left ?_
          intro p _ hp
          simp only [Processed.fails, Bool.and_eq_true, decide_eq_true_eq] at hp
          simp [Processed.key, hp.1.1, hp.1.2]
      _ = (trace.map Processed.key).count (kind, id) := by
          rw [List.count_eq_countP, List.countP_map]
          rfl
      _ ≤ 1 := List.nodup_iff_count_le_one.mp h _
  cases hany : trace.any (·.fails kind id) with
  | true =>
    have hpos : 0 < trace.countP (·.fails kind id) :=
      List.countP_pos_iff.mpr (List.any_eq_true.mp hany)
    rw [if_pos rfl]
    omega
  | false =>
    rw [List.any_eq_false] at hany
    simpa [List.countP_eq_zero] using hany

/-! ### The runs -/

/-- The runs from some attempts on. -/
theorem runs_accounted (Ws : List (RunWorld P)) (hWs : ∀ W ∈ Ws, W.Distinct) (disk : Disk)
    (hle : ∀ kind id, loadAttempts disk.blocklist kind id ≤ SKIP_AFTER_ATTEMPTS) :
    (∀ kind id, loadAttempts (runs Ws disk).1.blocklist kind id =
      loadAttempts disk.blocklist kind id +
        (runs Ws disk).2.countP fun trace => trace.any (·.fails kind id)) ∧
    (∀ kind id, loadAttempts (runs Ws disk).1.blocklist kind id ≤ SKIP_AFTER_ATTEMPTS) ∧
    ∀ trace ∈ (runs Ws disk).2, Lawful trace := by
  induction Ws generalizing disk with
  | nil => exact ⟨fun _ _ => rfl, hle, nofun⟩
  | cons W Ws ih =>
    obtain ⟨hlawful, hcount, hle', hkeys⟩ := main_lawful (hWs W List.mem_cons_self) hle
    obtain ⟨hcounts, hles, hlawfuls⟩ :=
      ih (fun V hV => hWs V (List.mem_cons_of_mem _ hV)) (main W disk).1 hle'
    refine ⟨?_, hles, ?_⟩
    · intro kind id
      -- the first run adds one for each item that fails in it
      show loadAttempts (runs Ws (main W disk).1).1.blocklist kind id = _ +
        ((main W disk).2 :: (runs Ws (main W disk).1).2).countP _
      rw [hcounts, hcount, countP_fails hkeys, List.countP_cons]
      omega
    · intro trace htrace
      rcases List.mem_cons.mp htrace with rfl | htrace
      · exact hlawful
      · exact hlawfuls trace htrace

/-- **The blocklist counts the failed runs of each item**, no count exceeds the limit, and
every run is lawful. -/
theorem blocklist_accounting (Ws : List (RunWorld P)) (hWs : ∀ W ∈ Ws, W.Distinct) :
    Accounted (runs Ws .fresh).2 (loadAttempts (runs Ws .fresh).1.blocklist) := by
  obtain ⟨hcount, hle, hlawful⟩ := runs_accounted Ws hWs .fresh fun _ _ => Nat.zero_le _
  exact ⟨fun kind id => by rw [hcount]; exact Nat.zero_add _, hle, hlawful⟩

end

/-- A platform that knows the ASCII characters, and no stamps. -/
def stamplessPlatform : Platform := ⟨.ascii, fun _ => none, fun t => t + 86400⟩

/-- A run in which the request for the only episode is refused. -/
def refusedRun : RunWorld stamplessPlatform where
  now := 0
  wanted
    | .episode => [⟨7, some 1, [⟨"es", false, false⟩]⟩]
    | .movie => []
  items _ _ :=
    { detail := some ⟨[⟨some "en", none, some "/data/tv/Pilot.en.srt"⟩]⟩
      requestTime := 0
      code := fun _ => "500"
      polls := fun _ => ⟨none, none⟩ }
  limitedAt := 0

/-- The episode fails in two runs, and is left out of the third. -/
theorem blocklist_accounting_refused :
    (runs [refusedRun, refusedRun, refusedRun] .fresh).2.map List.length = [1, 1, 0] ∧
      Accounted (runs [refusedRun, refusedRun, refusedRun] .fresh).2
        (loadAttempts (runs [refusedRun, refusedRun, refusedRun] .fresh).1.blocklist) := by
  have hdistinct : refusedRun.Distinct := fun kind => by cases kind <;> decide
  exact ⟨by decide +kernel, blocklist_accounting _ (by simpa using hdistinct)⟩

end TranslateMissing
end Bazarr
end MediaHub

import MediaHub.LogDigest.Paging
import MediaHub.LogDigest.Patterns
import MediaHub.Lib.Groups
import Mathlib.Algebra.Order.Ring.Unbundled.Rat
import Mathlib.Data.Rat.Defs

/-!
# The counts of the log digest

`build` of `scripts/log-digest.py` goes through the entries that it reads from Loki, leaves
out the chatter of the lower levels and what is muted, and keeps account of every message of
every container.

## Main definitions

* `signature` — the message that an entry counts for.
* `Group.add`, `errorGroups` — the account of the messages.
* `build` — the messages that repeat.

## Main results

* `count_errorGroups` — a message is counted once for every entry of it that is read.
* `build_counts_iff` — **every entry is read exactly once, and every message counted as often
  as it was logged, exactly if no page is cut between equal time stamps.**
-/

namespace MediaHub
namespace LogDigest

open Regex Re

/-! ### What an entry counts for -/

/-- One of some texts, as they are. -/
def literals (texts : List String) : Regex Char :=
  (texts.map fun t => seqs (t.toList.map chr)).foldr .alt (.cls fun _ => false)

/-- One of some words without regard to case. -/
def words (texts : List String) : Regex Char :=
  .group ((texts.map fun t => ignoreCase t.toList).foldr .alt (.cls fun _ => false))

/-- `STRONG`. -/
def strong : Regex Char :=
  literals ["ECONNREFUSED", "ENETUNREACH", "EHOSTUNREACH", "ENOTFOUND", "EAI_AGAIN", "ETIMEDOUT",
    "No route to host", "Connection refused", "Traceback", "panic", "FATAL", "Fatal",
    "Unauthorized", "401", "403", "disk full", "No space left"]

section

variable (C : CharClasses)

/-- `LOW_LEVEL`. -/
def lowLevel : Regex Char :=
  .group (.alt (seqs [chr '[', words ["info", "debug", "trace"], chr ']'])
    (.alt (seqs [ignoreCase "level=".toList, words ["info", "debug"]])
      (seqs [.boundary C.word, words ["info", "debug", "trace"], .boundary C.word])))

/-- The patterns of the lines that are muted, by what they find. -/
abbrev Ignores := List (Text → Bool)

/-- The container and the message that an entry counts for. -/
def signature (ignores : Ignores) (e : Fetched) : Option (String × Text) :=
  if (lowLevel C).search (e.line.take 120) ∧ ¬ strong.search e.line then none
  else
    let sig := normalize C e.line
    if sig = [] ∨ ignores.any (fun r => r (e.container.toList ++ ": ".toList ++ sig)) then none
    else some (e.container, sig)

/-! ### The account of the messages -/

/-- The clock, and what is made of it in floating point. -/
structure Clock where
  /-- `time.time()`. -/
  now : ℚ
  /-- `int(start * 1e9)`, where `start` is seven days before `now`. -/
  startNs : ℤ
  /-- `int(end * 1e9)`. -/
  endNs : ℤ
  /-- `ts / 1e9`. -/
  seconds : ℤ → ℚ
  /-- `datetime.fromtimestamp(t).strftime("%F")`. -/
  day : ℚ → String

/-- What is kept of a message. -/
structure Group where
  n : ℕ
  days : List String
  first : Option ℚ
  last : Option ℚ
  sample : Text
  host : String
  variants : List Text

def Group.empty : Group := ⟨0, [], none, none, [], "", []⟩

/-- `set.add`. -/
def addNew {α : Type} [DecidableEq α] (set : List α) (a : α) : List α :=
  if a ∈ set then set else set ++ [a]

/-- One more entry of a message. -/
def Group.add (M : Clock) (g : Group) (e : Fetched) : Group :=
  let t := M.seconds e.ts
  { n := g.n + 1
    days := addNew g.days (M.day t)
    first := some (g.first.elim t (min · t))
    last := some (g.last.elim t (max · t))
    sample := if g.sample ≠ [] then g.sample else LogDigest.sample e.line
    host := e.host
    variants := if g.variants.length < 5000 then addNew g.variants (stripTime C e.line)
      else g.variants }

/-- The groups by container and message, in the order in which they came up. -/
abbrev Groups := List ((String × Text) × Group)

/-- One more entry for a key. -/
def Groups.add (M : Clock) (key : String × Text) (e : Fetched) : Groups → Groups
  | [] => [(key, Group.empty.add C M e)]
  | (k, g) :: groups =>
    if k = key then (k, g.add C M e) :: groups else (k, g) :: Groups.add M key e groups

/-- One round of the loop. -/
def countEntry (M : Clock) (ignores : Ignores) (groups : Groups) (e : Fetched) : Groups :=
  match signature C ignores e with
  | none => groups
  | some key => groups.add C M key e

/-- The groups of the entries that are read. -/
def errorGroups (L : Loki) (M : Clock) (ignores : Ignores) : Groups :=
  (fetchErrors L M.endNs M.startNs).foldl (countEntry C M ignores) []

/-- The message repeats: `MIN_COUNT`, or `MIN_DAYS`. -/
def Group.repeats (g : Group) : Bool := g.n ≥ 20 || (g.days.length ≥ 3 && g.n ≥ 5)

/-- `build`. -/
def build (L : Loki) (M : Clock) (ignores : Ignores) : ℚ × Groups :=
  (M.now, (errorGroups C L M ignores).filter fun p => p.2.repeats)

/-! ### The counts -/

/-- How often a message has been counted. -/
def Groups.count (groups : Groups) (key : String × Text) : ℕ := (groups.lookup key).elim 0 Group.n

/-- The entry counts for the message. -/
def isOf (ignores : Ignores) (key : String × Text) (e : Fetched) : Bool :=
  signature C ignores e == some key

@[simp] theorem Group.n_add (M : Clock) (g : Group) (e : Fetched) : (g.add C M e).n = g.n + 1 := rfl

theorem Groups.count_cons (k key : String × Text) (g : Group) (groups : Groups) :
    Groups.count ((k, g) :: groups) key = if k = key then g.n else Groups.count groups key := by
  by_cases hk : k = key
  · subst hk
    simp [Groups.count]
  · have hne : (key == k) = false := by simpa using Ne.symm hk
    simp [Groups.count, List.lookup_cons, hne, hk]

/-- One more entry counts for its own message, and for no other. -/
theorem Groups.count_add (M : Clock) (k key : String × Text) (e : Fetched) (groups : Groups) :
    (Groups.add C M k e groups).count key = groups.count key + if k = key then 1 else 0 := by
  induction groups with
  | nil =>
    rw [Groups.add, Groups.count_cons]
    split <;> rfl
  | cons p groups ih =>
    obtain ⟨k', g⟩ := p
    rw [Groups.add]
    by_cases hk : k' = k
    · subst hk
      rw [if_pos rfl, Groups.count_cons, Groups.count_cons]
      split <;> simp
    · rw [if_neg hk, Groups.count_cons, Groups.count_cons, ih]
      split
      · rename_i heq
        rw [if_neg (fun h => hk (heq.trans h.symm)), Nat.add_zero]
      · rfl

theorem Groups.mem_keys_add (M : Clock) (k key : String × Text) (e : Fetched) (groups : Groups) :
    key ∈ (Groups.add C M k e groups).map (·.1) ↔ key = k ∨ key ∈ groups.map (·.1) := by
  induction groups with
  | nil => simp [Groups.add]
  | cons p groups ih =>
    obtain ⟨k', g⟩ := p
    rw [Groups.add]
    split
    · rename_i hk
      subst hk
      simp
    · rw [List.map_cons, List.mem_cons, ih, List.map_cons, List.mem_cons]
      exact or_left_comm

/-- The account has one group for a message. -/
theorem Groups.nodup_add (M : Clock) (k : String × Text) (e : Fetched) {groups : Groups}
    (h : (groups.map (·.1)).Nodup) : ((Groups.add C M k e groups).map (·.1)).Nodup := by
  induction groups with
  | nil => simp [Groups.add]
  | cons p groups ih =>
    obtain ⟨k', g⟩ := p
    rw [List.map_cons, List.nodup_cons] at h
    rw [Groups.add]
    split
    · exact List.nodup_cons.mpr h
    · rename_i hk
      refine List.nodup_cons.mpr ⟨fun hmem => ?_, ih h.2⟩
      rcases (Groups.mem_keys_add C M k k' e groups).mp hmem with rfl | hmem
      · exact hk rfl
      · exact h.1 hmem

/-- In an account with one group for a message, that group has the message's count. -/
theorem Groups.count_of_mem {groups : Groups} (h : (groups.map (·.1)).Nodup)
    {key : String × Text} {g : Group} (hmem : (key, g) ∈ groups) : groups.count key = g.n := by
  induction groups with
  | nil => cases hmem
  | cons p groups ih =>
    obtain ⟨k, g'⟩ := p
    rw [List.map_cons, List.nodup_cons] at h
    rw [Groups.count_cons]
    rcases List.mem_cons.mp hmem with heq | hmem
    · cases heq
      rw [if_pos rfl]
    · rw [if_neg, ih h.2 hmem]
      rintro rfl
      exact h.1 (List.mem_map.mpr ⟨_, hmem, rfl⟩)

theorem count_countEntry (M : Clock) (ignores : Ignores) (groups : Groups) (e : Fetched)
    (key : String × Text) :
    (countEntry C M ignores groups e).count key
      = groups.count key + if isOf C ignores key e then 1 else 0 := by
  rw [countEntry, isOf]
  cases signature C ignores e with
  | none => rfl
  | some k =>
    show (Groups.add C M k e groups).count key = _
    rw [Groups.count_add]
    by_cases hk : k = key <;> simp [hk]

/-- A message is counted once for every entry of it. -/
theorem count_foldl (M : Clock) (ignores : Ignores) (es : List Fetched) (groups : Groups)
    (key : String × Text) :
    (es.foldl (countEntry C M ignores) groups).count key
      = groups.count key + es.countP (isOf C ignores key) := by
  induction es generalizing groups with
  | nil => rfl
  | cons e es ih =>
    rw [List.foldl_cons, ih, count_countEntry, List.countP_cons]
    omega

theorem nodup_foldl (M : Clock) (ignores : Ignores) (es : List Fetched) {groups : Groups}
    (h : (groups.map (·.1)).Nodup) :
    ((es.foldl (countEntry C M ignores) groups).map (·.1)).Nodup := by
  induction es generalizing groups with
  | nil => exact h
  | cons e es ih =>
    rw [List.foldl_cons]
    apply ih
    rw [countEntry]
    cases signature C ignores e with
    | none => exact h
    | some k => exact Groups.nodup_add C M k e h

/-- A message is counted once for every entry of it that is read. -/
theorem count_errorGroups (L : Loki) (M : Clock) (ignores : Ignores) (key : String × Text) :
    (errorGroups C L M ignores).count key
      = (fetchErrors L M.endNs M.startNs).countP (isOf C ignores key) := by
  rw [errorGroups, count_foldl]
  exact Nat.zero_add _

/-- What is reported of a message has its count. -/
theorem n_of_mem_build (L : Loki) (M : Clock) (ignores : Ignores) {key : String × Text} {g : Group}
    (h : (key, g) ∈ (build C L M ignores).2) :
    g.n = (fetchErrors L M.endNs M.startNs).countP (isOf C ignores key) := by
  have hmem := (List.mem_filter.mp h).1
  rw [← count_errorGroups, Groups.count_of_mem _ hmem]
  exact nodup_foldl C M ignores _ List.nodup_nil

/-- **Every entry is read exactly once, and every message counted as often as it was logged,
exactly if no page is cut between equal time stamps** and none leaves the cursor behind. -/
theorem build_counts_iff (L : Loki) (M : Clock) (ignores : Ignores) :
    ((fetchErrors L M.endNs M.startNs).Perm (remaining L M.endNs M.startNs) ∧
      (∀ key, (errorGroups C L M ignores).count key
        = (remaining L M.endNs M.startNs).countP (isOf C ignores key)) ∧
      ∀ key g, (key, g) ∈ (build C L M ignores).2 →
        g.n = (remaining L M.endNs M.startNs).countP (isOf C ignores key)) ↔
    NoCut pageLimit M.startNs (stamps L M.endNs M.startNs) := by
  rw [← fetchErrors_perm_iff]
  refine ⟨fun h => h.1, fun hperm => ⟨hperm, fun key => ?_, fun key g hmem => ?_⟩⟩
  · rw [count_errorGroups, hperm.countP_eq]
  · rw [n_of_mem_build C L M ignores hmem, hperm.countP_eq]

end

/-! ### More equal time stamps than a page holds -/

/-- The answer has the entries of every stream together. -/
theorem flatMap_groupsBy_perm (l : List LogEntry) :
    ((groupsBy LogEntry.labels l).flatMap (·.2)).Perm l := by
  have happend : ∀ (groups : List (List (String × String) × List LogEntry)) (e : LogEntry),
      ((setdefaultAppend groups e.labels e).flatMap (·.2)).Perm (groups.flatMap (·.2) ++ [e]) := by
    intro groups e
    induction groups with
    | nil => exact List.Perm.refl _
    | cons p groups ih =>
      obtain ⟨k, es⟩ := p
      rw [setdefaultAppend]
      split
      · simp only [List.flatMap_cons, List.append_assoc]
        exact List.perm_append_comm.append_left es
      · simp only [List.flatMap_cons, List.append_assoc]
        exact ih.append_left es
  induction l using List.reverseRecOn with
  | nil => exact List.Perm.refl _
  | append_singleton l e ih =>
    rw [groupsBy_concat]
    exact (happend _ e).trans (ih.append_right [e])

/-- The streams of an answer have its entries. -/
theorem flatMap_streams_perm (l : List LogEntry) :
    (((groupsBy LogEntry.labels l).map fun p =>
      (⟨p.1, p.2.map fun e => (e.ts, e.line)⟩ : Stream)).flatMap Stream.entries).Perm l := by
  have hentries : ∀ p ∈ groupsBy LogEntry.labels l,
      Stream.entries ⟨p.1, p.2.map fun e => (e.ts, e.line)⟩ = p.2 := by
    intro p hp
    rw [groupsBy_eq] at hp
    obtain ⟨k, -, rfl⟩ := List.mem_map.mp hp
    rw [Stream.entries, List.map_map]
    conv_rhs => rw [← List.map_id (l.filter fun e => e.labels = k)]
    apply List.map_congr_left
    intro e he
    have hlabels : e.labels = k := by simpa using (List.mem_filter.mp he).2
    subst hlabels
    rfl
  rw [List.flatMap_map, List.flatMap_congr hentries]
  exact flatMap_groupsBy_perm l

/-- A server that has some entries, all of which match. -/
def Loki.ofEntries (entries : List LogEntry) : Loki where
  matching _ := entries
  queryRange r :=
    (groupsBy LogEntry.labels (((window LogEntry.ts r.start r.end_ entries).mergeSort
        fun a b => decide (a.ts ≤ b.ts)).take r.limit)).map
      fun p => ⟨p.1, p.2.map fun e => (e.ts, e.line)⟩
  forward query start end_ limit := by
    refine ⟨_, List.mergeSort_perm _ fun a b => decide (a.ts ≤ b.ts), ?_, ?_⟩
    · have htrans : ∀ a b c : LogEntry, decide (a.ts ≤ b.ts) = true → decide (b.ts ≤ c.ts) = true →
          decide (a.ts ≤ c.ts) = true := by simpa using fun a b c => le_trans
      have htotal : ∀ a b : LogEntry, (decide (a.ts ≤ b.ts) || decide (b.ts ≤ a.ts)) = true := by
        simpa using fun a b => le_total _ _
      simpa using List.pairwise_mergeSort htrans htotal (window LogEntry.ts start end_ entries)
    · exact flatMap_streams_perm _

/-- A line of one container, all of whose entries have the same time stamp. -/
def burstEntry : LogEntry :=
  ⟨[("container", "qbittorrent"), ("host", "i7")], 5, "announce failed: Connection refused".toList⟩

/-- One entry more than a page holds. -/
def burst : Loki := Loki.ofEntries (List.replicate 5001 burstEntry)

/-- Of 5001 entries with equal time stamps, not every one is read exactly once. -/
theorem burst_not_read_once : ¬ (fetchErrors burst 10 0).Perm (remaining burst 10 0) := by
  have hremaining : remaining burst 10 0 = List.replicate 5001 burstEntry.fetched := by
    show ((List.replicate 5001 burstEntry).filter _).map LogEntry.fetched = _
    rw [List.filter_replicate, if_pos (by decide), List.map_replicate]
  have hstamp : ∀ k < 5001, (stamps burst 10 0)[k]? = some 5 := by
    intro k hk
    have hperm : (stamps burst 10 0).Perm (List.replicate 5001 5) := by
      refine sortedKeys_perm.trans ?_
      rw [hremaining, List.map_replicate]
      rfl
    rw [List.perm_replicate.mp hperm, List.getElem?_replicate, if_pos hk]
  rw [fetchErrors_perm_iff]
  intro hcut
  -- the page ends between two entries of the burst
  have hlt := (hcut 0 5 5 (hstamp 4999 (by decide)) (hstamp 5000 (by decide))).1
  exact absurd hlt (lt_irrefl _)

end LogDigest
end MediaHub

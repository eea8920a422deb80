import MediaHub.Re
import MediaHub.Lib.Paging

/-!
# How the log digest reads Loki

`fetch_errors` of `scripts/log-digest.py` asks Loki for the first 5000 entries from a cursor
on, and goes on one past the largest time stamp of the page while the page is full.  Entries
with equal time stamps can fall on both sides of a page's end.

## Main definitions

* `Loki` — a server that answers a forward query with the first entries.
* `fetchErrors` — the entries that the digest reads.

## Main results

* `fetchErrors_perm_iff` — **every entry is read exactly once exactly if no page is cut so**
  (`NoCut`).
-/

namespace MediaHub
namespace LogDigest

open Re

/-! ### The server -/

/-- An entry of a log. -/
structure LogEntry where
  /-- The labels of its stream. -/
  labels : List (String × String)
  /-- The time stamp, in nanoseconds. -/
  ts : ℤ
  line : Text

/-- The entries of one stream in an answer. -/
structure Stream where
  /-- `s["stream"]`. -/
  stream : List (String × String)
  /-- `s["values"]`. -/
  values : List (ℤ × Text)

/-- The entries of the stream. -/
def Stream.entries (s : Stream) : List LogEntry := s.values.map fun v => ⟨s.stream, v.1, v.2⟩

/-- The parameters of a `query_range`. -/
structure QueryRange where
  query : String
  start : ℤ
  end_ : ℤ
  limit : ℕ
  direction : String

/-- A server that answers a forward query with the first entries, by stream. -/
structure Loki where
  /-- The entries that match a query. -/
  matching : String → List LogEntry
  /-- `loki_get(base, "/loki/api/v1/query_range", params)["data"]["result"]`. -/
  queryRange : QueryRange → List Stream
  /-- An answer has the first entries with `start ≤ ts < end`, and fewer than `limit` only if
  there are no more. -/
  forward : ∀ query start end_ limit,
    IsPage LogEntry.ts limit (window LogEntry.ts start end_ (matching query))
      ((queryRange ⟨query, start, end_, limit, "forward"⟩).flatMap Stream.entries)

/-! ### The reader -/

/-- What `fetch_errors` yields for an entry. -/
structure Fetched where
  container : String
  host : String
  ts : ℤ
  line : Text
  deriving DecidableEq

/-- `s["stream"].get(key, "?")`. -/
def label (key : String) (labels : List (String × String)) : String :=
  ((labels.find? fun l => l.1 = key).map (·.2)).getD "?"

/-- What the reader sees of an entry. -/
def LogEntry.fetched (e : LogEntry) : Fetched :=
  ⟨label "container" e.labels, label "host" e.labels, e.ts, e.line⟩

/-- `ERRORISH`. -/
def errorish : List String :=
  ["rror", "ERROR", "ailed", "ailure", "FAIL", "efused", "REFUSED", "nreachable", "UNREACHABLE",
    "imeout", "imed out", "TIMEOUT", "ECONN", "ENOTFOUND", "EAI_AGAIN", "atal", "FATAL",
    "xception", "EXCEPTION", "raceback", "anic", "enied", "DENIED"]

/-- The query, with the texts as `json.dumps` writes them. -/
def errorQuery : String :=
  "\x7bhost=~\".+\"\x7d |= " ++ " or ".intercalate (errorish.map fun t => "\"" ++ t ++ "\"")

/-- `limit`. -/
def pageLimit : ℕ := 5000

variable (L : Loki)

/-- The entries of one page. -/
def fetchPage (endNs cur : ℤ) : List Fetched :=
  ((L.queryRange ⟨errorQuery, cur, endNs, pageLimit, "forward"⟩).flatMap Stream.entries).map
    LogEntry.fetched

/-- What is left to read from a cursor on. -/
def remaining (endNs cur : ℤ) : List Fetched :=
  (window LogEntry.ts cur endNs (L.matching errorQuery)).map LogEntry.fetched

/-- A page of the reader is a page of what is left. -/
theorem fetchPage_isPage (endNs cur : ℤ) :
    IsPage Fetched.ts pageLimit (remaining L endNs cur) (fetchPage L endNs cur) :=
  (L.forward errorQuery cur endNs pageLimit).map LogEntry.fetched fun _ => rfl

theorem mem_remaining {endNs cur : ℤ} {e : Fetched} (h : e ∈ remaining L endNs cur) :
    cur ≤ e.ts ∧ e.ts < endNs := by
  obtain ⟨e', he', rfl⟩ := List.mem_map.mp h
  exact (mem_window.mp he').2

/-- The largest time stamp of a page that is beyond the cursor is before the end. -/
theorem lastKey_lt {endNs cur : ℤ}
    (h : cur < lastKey Fetched.ts cur (fetchPage L endNs cur)) :
    lastKey Fetched.ts cur (fetchPage L endNs cur) < endNs := by
  rcases lastKey_cases (fetchPage L endNs cur) with heq | ⟨e, he, hkey⟩
  · rw [heq] at h
    exact absurd h (lt_irrefl _)
  · rw [← hkey]
    exact (mem_remaining L ((fetchPage_isPage L endNs cur).subset he)).2

/-- `fetch_errors`, from a cursor on. -/
def fetchErrors (endNs cur : ℤ) : List Fetched :=
  if (fetchPage L endNs cur).length < pageLimit ∨
      lastKey Fetched.ts cur (fetchPage L endNs cur) ≤ cur then
    fetchPage L endNs cur
  else
    fetchPage L endNs cur ++
      fetchErrors endNs (lastKey Fetched.ts cur (fetchPage L endNs cur) + 1)
termination_by (endNs - cur).toNat
decreasing_by
  have hlast := @lastKey_lt L endNs cur
  omega

/-- The time stamps that are left to read from a cursor on, in order. -/
def stamps (endNs cur : ℤ) : List ℤ := sortedKeys Fetched.ts (remaining L endNs cur)

variable {L}

/-- What is read from a cursor on is not before it. -/
theorem le_ts_of_mem_fetchErrors {endNs cur : ℤ} {e : Fetched} (h : e ∈ fetchErrors L endNs cur) :
    cur ≤ e.ts := by
  fun_induction fetchErrors L endNs cur with
  | case1 cur _ =>
    exact (mem_remaining L ((fetchPage_isPage L endNs cur).subset h)).1
  | case2 cur hmore ih =>
    rcases List.mem_append.mp h with h | h
    · exact (mem_remaining L ((fetchPage_isPage L endNs cur).subset h)).1
    · have hnext := ih h
      omega

/-- The last time stamp of a page is that of the last entry before the cut. -/
theorem lastKey_fetchPage {endNs cur t : ℤ} (ht : (stamps L endNs cur)[pageLimit - 1]? = some t) :
    lastKey Fetched.ts cur (fetchPage L endNs cur) = t :=
  (fetchPage_isPage L endNs cur).lastKey_eq (by decide) (fun _ he => (mem_remaining L he).1) ht

theorem length_fetchPage (endNs cur : ℤ) :
    (fetchPage L endNs cur).length = min pageLimit (stamps L endNs cur).length := by
  rw [(fetchPage_isPage L endNs cur).length, stamps, length_sortedKeys]

/-- What is left beyond a time stamp is what is left from one past it. -/
theorem remaining_beyond {endNs cur t : ℤ} (h : cur ≤ t + 1) :
    (remaining L endNs cur).filter (fun e => t < e.ts) = remaining L endNs (t + 1) := by
  rw [remaining, remaining, List.filter_map, ← filter_window h]
  rfl

theorem stamps_beyond {endNs cur t : ℤ} (h : cur ≤ t + 1)
    (ht : (stamps L endNs cur)[pageLimit - 1]? = some t)
    (hcut : ∀ t', (stamps L endNs cur)[pageLimit]? = some t' → t < t') :
    (stamps L endNs cur).drop pageLimit = stamps L endNs (t + 1) := by
  rw [stamps, ← sortedKeys_beyond ht hcut, remaining_beyond h, stamps]

/-- Every entry is read exactly once exactly if no page is cut. -/
theorem fetchErrors_perm_iff (endNs cur : ℤ) :
    (fetchErrors L endNs cur).Perm (remaining L endNs cur) ↔
      NoCut pageLimit cur (stamps L endNs cur) := by
  have hlimit : 0 < pageLimit := by decide
  fun_induction fetchErrors L endNs cur with
  | case1 cur hstop =>
    rw [(fetchPage_isPage L endNs cur).perm_iff, ← @length_sortedKeys _ Fetched.ts]
    refine ⟨noCut_of_length_le, fun hcut => ?_⟩
    -- a full page that more entries come after has gone on from the cursor
    by_contra hlong
    have hlong : pageLimit < (stamps L endNs cur).length := Nat.lt_of_not_le hlong
    have ht := List.getElem?_eq_getElem (show pageLimit - 1 < (stamps L endNs cur).length by omega)
    have hgone := (hcut 0 _ _ ht (List.getElem?_eq_getElem hlong)).2
    rcases hstop with hshort | hle
    · rw [length_fetchPage] at hshort
      omega
    · rw [lastKey_fetchPage ht] at hle
      exact absurd hgone (not_lt.mpr hle)
  | case2 cur hmore ih =>
    obtain ⟨hfull, hgone⟩ := not_or.mp hmore
    rw [length_fetchPage] at hfull
    obtain ⟨t, ht⟩ : ∃ t, (stamps L endNs cur)[pageLimit - 1]? = some t :=
      ⟨_, List.getElem?_eq_getElem (by omega)⟩
    rw [lastKey_fetchPage ht] at ih hgone ⊢
    have hbeyond : cur ≤ t + 1 := by omega
    -- what is read beyond the page has larger time stamps than the page
    have hread : ∀ e ∈ fetchErrors L endNs (t + 1), t < e.ts := fun e he =>
      Int.lt_of_add_one_le (le_ts_of_mem_fetchErrors he)
    have hrest : (fetchErrors L endNs (t + 1)).Perm (remaining L endNs (t + 1)) ↔
        NoCut pageLimit (t + 1) (stamps L endNs (t + 1)) := ih
    rw [(fetchPage_isPage L endNs cur).append_perm_iff ht hread, noCut_iff hlimit ht,
      remaining_beyond hbeyond, hrest]
    constructor
    · rintro ⟨hcut, hrest⟩
      rw [stamps_beyond hbeyond ht hcut]
      exact ⟨fun t' ht' => ⟨hcut t' ht', not_le.mp hgone⟩, hrest⟩
    · rintro ⟨hfirst, hrest⟩
      have hcut := fun t' ht' => (hfirst t' ht').1
      rw [stamps_beyond hbeyond ht hcut] at hrest
      exact ⟨hcut, hrest⟩

end LogDigest
end MediaHub

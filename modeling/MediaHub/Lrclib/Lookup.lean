import MediaHub.Text
import Mathlib.Algebra.Order.Ring.Unbundled.Rat
import Mathlib.Algebra.Order.Group.Unbundled.Abs

/-!
# Asking LRCLIB

`scripts/lrclib-embed-lyrics.py`, `get` and `lookup`: a request is made again after an error
that may pass, and a track for which there are no timed lyrics is searched for once more.
What LRCLIB answers to each request is an input.

## Main definitions

* `get` — one request, made up to four times.
* `lookup` — the best entry for a track.

## Main results

* `lookup_synced` — **an entry with timed lyrics is taken if there is one.**
-/

namespace MediaHub
namespace Lrclib

/-! ### Requests -/

/-- How an attempt ends. -/
inductive Reply (α : Type*) where
  /-- `null` is no answer. -/
  | json (answer : Option α)
  | httpError (code : ℕ)
  /-- `URLError` or `TimeoutError`. -/
  | netError
  | otherError
  deriving DecidableEq, Repr

variable {α : Type*}

/-- The attempts that are left; `none` if an exception is raised. -/
def attempts (reply : ℕ → Reply α) : List ℕ → Option (Option α)
  | [] => some none
  | attempt :: rest =>
    match reply attempt with
    | .json answer => some answer
    | .httpError code =>
      if code = 404 then some none
      else if code ∉ [429, 500, 502, 503, 504] ∨ attempt = 3 then none
      else attempts reply rest
    | .netError => if attempt = 3 then none else attempts reply rest
    | .otherError => none

def get (reply : ℕ → Reply α) : Option (Option α) := attempts reply [0, 1, 2, 3]

/-! ### The best entry -/

/-- An entry of LRCLIB; an empty object is no answer. -/
structure Entry where
  trackName : Option String
  duration : Option ℚ
  syncedLyrics : Option String
  plainLyrics : Option String
  instrumental : Bool
  deriving DecidableEq, Repr

/-- The truth value of a text that may be missing. -/
def truthy (t : Option String) : Bool := t.any (· ≠ "")

/-- `DURATION_TOL`. -/
def durationTol : ℚ := 3

/-- What the character database says. -/
structure Characters where
  database : Unicodedata
  /-- `str.isalnum`. -/
  isalnum : Char → Bool

/-- `_norm`. -/
def norm (U : Characters) (t : Option String) : List Char :=
  (((U.database.lower (t.getD "")).toList.map fun c => if c = '’' then '\'' else c)).filter
    U.isalnum

/-- `cands`. -/
def candidates (U : Characters) (title : String) (duration : ℚ) (entries : List Entry) :
    List Entry :=
  entries.filter fun c =>
    c.duration.any (fun d => d ≠ 0 ∧ |d - duration| ≤ durationTol) &&
      norm U c.trackName = norm U (some title)

inductive How where
  | exact
  | search
  | searchSynced
  deriving DecidableEq, Repr

/-- `lookup`; `none` if an exception is raised. -/
def lookup (U : Characters) (title : String) (duration : ℚ) (exact : ℕ → Reply Entry)
    (search : ℕ → Reply (List Entry)) : Option (Option (Entry × How)) := do
  let hit ← get exact
  match hit.filter fun e => truthy e.syncedLyrics || e.instrumental with
  | some e => some (some (e, .exact))
  | none =>
    let found ← get search
    let cands := candidates U title duration (found.getD [])
    match cands.find? fun c => truthy c.syncedLyrics with
    | some c => some (some (c, if hit.isSome then .searchSynced else .search))
    | none =>
      match hit with
      | some e => some (some (e, .exact))
      | none =>
        some ((cands.find? fun c => truthy c.plainLyrics || c.instrumental).map (·, .search))

variable {U : Characters} {title : String} {duration : ℚ} {exact : ℕ → Reply Entry}
  {search : ℕ → Reply (List Entry)} {hit : Option (Entry × How)}

/-- **An entry with timed lyrics is taken if there is one**, unless the exact one says that
there is nothing to sing. -/
theorem lookup_synced (h : lookup U title duration exact search = some hit)
    {e : Entry} (he : get exact = some (some e) ∨
      ∃ found, get search = some (some found) ∧ e ∈ candidates U title duration found)
    (hsynced : truthy e.syncedLyrics = true) :
    ∃ best how, hit = some (best, how) ∧
      (truthy best.syncedLyrics = true ∨ how = .exact ∧ best.instrumental = true) := by
  obtain ⟨first, hfirst, h⟩ := Option.bind_eq_some_iff.mp h
  cases hgood : first.filter fun e => truthy e.syncedLyrics || e.instrumental with
  | some best =>
    rw [hgood] at h
    obtain ⟨-, hbest⟩ := Option.filter_eq_some_iff.mp hgood
    refine ⟨best, .exact, (Option.some.inj h).symm, ?_⟩
    exact (Bool.or_eq_true_iff.mp hbest).imp_right fun hquiet => ⟨rfl, hquiet⟩
  | none =>
    rw [hgood] at h
    obtain ⟨found, hfound, h⟩ := Option.bind_eq_some_iff.mp h
    have hcand : e ∈ candidates U title duration (found.getD []) := by
      rcases he with he | ⟨_, hsearch, hmem⟩
      · cases he.symm.trans hfirst
        simp [Option.filter, hsynced] at hgood
      · cases hsearch.symm.trans hfound
        exact hmem
    cases hfind : (candidates U title duration (found.getD [])).find? fun c =>
        truthy c.syncedLyrics with
    | none => exact absurd hsynced (List.find?_eq_none.mp hfind e hcand)
    | some best =>
      simp only [hfind] at h
      have hbest := List.find?_some hfind
      exact ⟨best, _, (Option.some.inj h).symm, .inl hbest⟩

/-- What is taken is an answer. -/
theorem mem_of_lookup {e : Entry} {how : How}
    (h : lookup U title duration exact search = some (some (e, how))) :
    get exact = some (some e) ∨ ∃ found, get search = some (some found) ∧ e ∈ found := by
  obtain ⟨first, hfirst, h⟩ := Option.bind_eq_some_iff.mp h
  cases hgood : first.filter fun e => truthy e.syncedLyrics || e.instrumental with
  | some best =>
    rw [hgood] at h
    cases h
    exact .inl (hfirst.trans (congrArg some (Option.filter_eq_some_iff.mp hgood).1))
  | none =>
    rw [hgood] at h
    obtain ⟨found, hfound, h⟩ := Option.bind_eq_some_iff.mp h
    have hin : ∀ q c, (candidates U title duration (found.getD [])).find? q = some c →
        ∃ found, get search = some (some found) ∧ c ∈ found := by
      intro q c hc
      have hmem := (List.mem_filter.mp (List.mem_of_find?_eq_some hc)).1
      cases found with
      | none => cases hmem
      | some entries => exact ⟨entries, hfound, hmem⟩
    cases hfind : (candidates U title duration (found.getD [])).find? fun c =>
        truthy c.syncedLyrics with
    | some best =>
      simp only [hfind] at h
      cases h
      exact .inr (hin _ _ hfind)
    | none =>
      simp only [hfind] at h
      cases first with
      | some e' =>
        cases h
        exact .inl hfirst
      | none =>
        obtain ⟨c, hc, heq⟩ := Option.map_eq_some_iff.mp (Option.some.inj h)
        cases heq
        exact .inr (hin _ _ hc)

end Lrclib
end MediaHub

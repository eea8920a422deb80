import MediaHub.Lib.Walk
import Mathlib.Algebra.Order.Ring.Int
import Mathlib.Data.List.Nodup
import Mathlib.Data.Prod.Lex

/-!
# Queueing a series

`stacks/subgen-r9/src/subgen.py`, `get_next_plex_episode` and the loop of
`receive_plex_webhook`: the episodes of a series, or of a season, are queued one after the
other, where Plex is asked for each which one comes next.  An episode is found by its number,
and the last one of a season is the one whose number is the number of episodes.

Plex is not part of the repository: what it answers is a parameter, and it answers with a
show.

## Main definitions

* `Plex`, `getNextPlexEpisode` — the server, and the next episode.
* `queueSeries` — the loop.
* `Show`, `Serves` — a show, and that the server answers with it.

## Main results

* `queueSeries_ends` — **the loop ends and queues no episode twice**, whatever the numbers.
* `queueSeries_complete` — **it queues all episodes from the first one on, in order**, where
  the numbers have no gap.
-/

namespace MediaHub
namespace Subgen

/-! ### The server -/

/-- A number in an attribute: the attribute may be missing, or be no number. -/
abbrev NumberAttr := Option (Option ℤ)

/-- What `get_next_plex_episode` reads of an episode. -/
structure Metadata where
  grandparentRatingKey : Option String
  parentRatingKey : Option String
  deriving DecidableEq, Repr

/-- A season, as a child of a show. -/
structure Directory where
  ratingKey : Option String
  index : NumberAttr
  deriving DecidableEq, Repr

/-- An episode, as a child of a season. -/
structure Video where
  ratingKey : Option String
  index : NumberAttr
  parentIndex : NumberAttr
  deriving DecidableEq, Repr

/-- The answers for each key; `none` if a request fails, or has no such answer. -/
structure Plex where
  metadata : String → Option Metadata
  seasons : String → Option (List Directory)
  episodes : String → Option (List Video)

/-- The first element that has the number after the current one; `none` if there is an
exception. -/
def afterNumber {α : Type*} (current : NumberAttr) (index : α → NumberAttr) :
    List α → Option (Option α)
  | [] => some none
  | x :: xs =>
    match index x with
    | none => afterNumber current index xs
    | some none => none
    | some (some i) =>
      match current with
      | some (some c) => if i = c + 1 then some (some x) else afterNumber current index xs
      | _ => none

/-- `get_next_plex_episode`, where an exception is caught and ends it. -/
def getNextPlexEpisode (P : Plex) (key : String) (stayInSeason : Bool) : Option String := do
  let metadata ← P.metadata key
  let grandparent ← metadata.grandparentRatingKey
  let parent ← metadata.parentRatingKey
  let seasons ← P.seasons grandparent
  let episodes ← P.episodes parent
  let found := episodes.find? fun e => e.ratingKey = some key
  let number : Option ℤ ←
    match found with
    | none => some none
    | some e => e.index.join.map some
  if stayInSeason then
    if number = some (episodes.length : ℤ) then none
    else (← afterNumber (some number) Video.index episodes).bind Video.ratingKey
  else
    let next ← afterNumber (found.bind Video.parentIndex) Directory.index seasons
    if number = some (episodes.length : ℤ) then
      let episodes ← P.episodes (← next.bind Directory.ratingKey)
      (← afterNumber (some (some 0)) Video.index episodes).bind Video.ratingKey
    else (← afterNumber (some number) Video.index episodes).bind Video.ratingKey

/-- The loop of `receive_plex_webhook`, with at most so many turns: the episodes that are
queued.  An episode that cannot be queued ends it. -/
def queueSeries (P : Plex) (canQueue : String → Bool) (stayInSeason : Bool) :
    ℕ → String → Option (List String)
  | 0, _ => none
  | n + 1, key =>
    if canQueue key = false then some []
    else
      match getNextPlexEpisode P key stayInSeason with
      | none => some [key]
      | some next => (queueSeries P canQueue stayInSeason n next).map (key :: ·)

/-! ### A show -/

structure Episode where
  key : String
  index : NumberAttr
  deriving DecidableEq, Repr

structure Season where
  key : String
  index : NumberAttr
  episodes : List Episode
  deriving DecidableEq, Repr

structure Show where
  key : String
  seasons : List Season
  deriving DecidableEq, Repr

/-- The server answers with the show. -/
structure Serves (P : Plex) (sh : Show) : Prop where
  metadata : ∀ s ∈ sh.seasons, ∀ e ∈ s.episodes,
    P.metadata e.key = some ⟨some sh.key, some s.key⟩
  seasons : P.seasons sh.key = some (sh.seasons.map fun s => ⟨some s.key, s.index⟩)
  episodes : ∀ s ∈ sh.seasons,
    P.episodes s.key = some (s.episodes.map fun e => ⟨some e.key, e.index, s.index⟩)

/-- Where the episodes are. -/
def Show.places (sh : Show) : List (String × (ℤ ×ₗ ℤ)) :=
  sh.seasons.flatMap fun s => s.episodes.map fun e =>
    (e.key, toLex (s.index.join.getD 0, e.index.join.getD 0))

/-- No key is there twice. -/
def Show.Unique (sh : Show) : Prop := (sh.places.map Prod.fst).Nodup

instance (sh : Show) : Decidable sh.Unique := inferInstanceAs (Decidable (List.Nodup _))

/-- The numbers of the season and the episode. -/
def Show.place (sh : Show) (key : String) : ℤ ×ₗ ℤ := (sh.places.lookup key).getD (toLex (0, 0))

variable {P : Plex} {canQueue : String → Bool} {stay : Bool} {sh : Show} {s s' : Season}
  {e e' : Episode} {key : String} {n : ℕ}

/-! ### The next episode -/

section AfterNumber

variable {α : Type*} {current : NumberAttr} {index : α → NumberAttr} {xs : List α} {x : α}

/-- What is found is there, and has the number. -/
theorem afterNumber_eq_some (h : afterNumber current index xs = some (some x)) :
    x ∈ xs ∧ ∃ c, current = some (some c) ∧ index x = some (some (c + 1)) := by
  induction xs with
  | nil => cases h
  | cons y ys ih =>
    have htail : afterNumber current index ys = some (some x) →
        x ∈ y :: ys ∧ ∃ c, current = some (some c) ∧ index x = some (some (c + 1)) := fun h =>
      (ih h).imp_left (List.mem_cons_of_mem y)
    rw [afterNumber] at h
    split at h
    · exact htail h
    · cases h
    next i hi =>
      split at h
      next c =>
        split at h
        next heq =>
          cases h
          exact ⟨List.mem_cons_self, c, rfl, by rw [hi, heq]⟩
        · exact htail h
      · cases h

/-- Where all have numbers, it is found if it is there. -/
theorem afterNumber_eq {c : ℤ} (hnum : ∀ x ∈ xs, ∃ i, index x = some (some i)) :
    afterNumber (some (some c)) index xs
      = some (xs.find? fun x => index x = some (some (c + 1))) := by
  induction xs with
  | nil => rfl
  | cons y ys ih =>
    obtain ⟨i, hi⟩ := hnum y List.mem_cons_self
    have hrest := ih fun x hx => hnum x (List.mem_cons_of_mem y hx)
    rw [afterNumber, hi, List.find?_cons]
    by_cases heq : i = c + 1
    · simp [hi, heq]
    · simp [hi, heq, hrest]

end AfterNumber

section Unique

variable (hu : sh.Unique)

include hu in
/-- Where an episode is. -/
theorem place_eq (hs : s ∈ sh.seasons) (he : e ∈ s.episodes) :
    sh.place e.key = toLex (s.index.join.getD 0, e.index.join.getD 0) := by
  have hlookup : ∀ l : List (String × (ℤ ×ₗ ℤ)), (l.map Prod.fst).Nodup → ∀ p ∈ l,
      l.lookup p.1 = some p.2 := by
    intro l hl p hp
    induction l with
    | nil => cases hp
    | cons q l ih =>
      obtain ⟨hnew, hrest⟩ := List.nodup_cons.mp hl
      rw [List.lookup_cons]
      rcases List.mem_cons.mp hp with rfl | hp
      · simp
      · have hne : (p.1 == q.1) = false :=
          beq_false_of_ne fun heq => hnew (heq ▸ List.mem_map_of_mem hp)
        rw [hne]
        exact ih hrest hp
  have hmem : (e.key, toLex (s.index.join.getD 0, e.index.join.getD 0)) ∈ sh.places :=
    List.mem_flatMap.mpr ⟨s, hs, List.mem_map_of_mem he⟩
  rw [Show.place, hlookup sh.places hu _ hmem, Option.getD_some]

include hu in
/-- The episode is found in its season. -/
theorem find?_video (hs : s ∈ sh.seasons) (he : e ∈ s.episodes) :
    ((s.episodes.map fun e => (⟨some e.key, e.index, s.index⟩ : Video)).find? fun v =>
      v.ratingKey = some e.key) = some ⟨some e.key, e.index, s.index⟩ := by
  have hkeys : (s.episodes.map Episode.key).Nodup := by
    have h := hu
    rw [Show.Unique, Show.places, List.map_flatMap, List.nodup_flatMap] at h
    simpa [Function.comp_def] using h.1 s hs
  rw [List.find?_map]
  cases hfind : s.episodes.find? ((fun v : Video => decide (v.ratingKey = some e.key)) ∘
      fun e => ⟨some e.key, e.index, s.index⟩) with
  | none => exact absurd (List.find?_eq_none.mp hfind e he) (by simp)
  | some e' =>
    have hkey : e'.key = e.key := by simpa using List.find?_some hfind
    rw [List.inj_on_of_nodup_map hkeys (List.mem_of_find?_eq_some hfind) he hkey]
    rfl

end Unique

/-- The episodes of a season, as its children. -/
def Season.videos (s : Season) : List Video :=
  s.episodes.map fun e => ⟨some e.key, e.index, s.index⟩

/-- The seasons of a show, as its children. -/
def Show.directories (sh : Show) : List Directory :=
  sh.seasons.map fun s => ⟨some s.key, s.index⟩

/-- The next episode of a show. -/
theorem getNextPlexEpisode_eq (hp : Serves P sh) (hu : sh.Unique) (hs : s ∈ sh.seasons)
    (he : e ∈ s.episodes) : getNextPlexEpisode P e.key stay =
      e.index.join.bind fun j =>
        if stay then
          if j = s.episodes.length then none
          else (afterNumber (some (some j)) Video.index s.videos).bind (·.bind Video.ratingKey)
        else
          (afterNumber s.index Directory.index sh.directories).bind fun next =>
            if j = s.episodes.length then
              (next.bind Directory.ratingKey).bind fun t => (P.episodes t).bind fun episodes =>
                (afterNumber (some (some 0)) Video.index episodes).bind (·.bind Video.ratingKey)
            else
              (afterNumber (some (some j)) Video.index s.videos).bind
                (·.bind Video.ratingKey) := by
  have hfind := find?_video hu hs he
  unfold getNextPlexEpisode
  rw [hp.metadata s hs e he]
  simp only [Option.bind_eq_bind, Option.bind_some]
  rw [hp.seasons, hp.episodes s hs]
  simp only [Option.bind_some, hfind, List.length_map]
  cases e.index.join with
  | none => rfl
  | some j => cases stay <;> simp [Season.videos, Show.directories]

/-- An episode that comes next. -/
theorem next_cases (hp : Serves P sh) (hu : sh.Unique) (hs : s ∈ sh.seasons)
    (he : e ∈ s.episodes) (h : getNextPlexEpisode P e.key stay = some key) :
    ∃ s' ∈ sh.seasons, ∃ e' ∈ s'.episodes, e'.key = key ∧ ∃ j, e.index = some (some j) ∧
      (s' = s ∧ e'.index = some (some (j + 1)) ∨
        stay = false ∧ j = s.episodes.length ∧ ∃ c, s.index = some (some c) ∧
          s'.index = some (some (c + 1)) ∧ e'.index = some (some 1)) := by
  have hvideo : ∀ {t : Season} {c : ℤ} {v : Option Video},
      afterNumber (some (some c)) Video.index t.videos = some v →
      v.bind Video.ratingKey = some key →
      ∃ e' ∈ t.episodes, e'.key = key ∧ e'.index = some (some (c + 1)) := by
    intro t c v hv hkey
    obtain ⟨w, rfl, hw⟩ := Option.bind_eq_some_iff.mp hkey
    obtain ⟨hmem, d, hd, hindex⟩ := afterNumber_eq_some hv
    cases hd
    obtain ⟨e', he', rfl⟩ := List.mem_map.mp hmem
    exact ⟨e', he', Option.some.inj hw, hindex⟩
  rw [getNextPlexEpisode_eq hp hu hs he] at h
  obtain ⟨j, hj, h⟩ := Option.bind_eq_some_iff.mp h
  have hindex : e.index = some (some j) := Option.join_eq_some_iff.mp hj
  have hhere : (afterNumber (some (some j)) Video.index s.videos).bind (·.bind Video.ratingKey)
      = some key → ∃ s' ∈ sh.seasons, ∃ e' ∈ s'.episodes, e'.key = key ∧ ∃ j,
        e.index = some (some j) ∧ (s' = s ∧ e'.index = some (some (j + 1)) ∨
          stay = false ∧ j = s.episodes.length ∧ ∃ c, s.index = some (some c) ∧
            s'.index = some (some (c + 1)) ∧ e'.index = some (some 1)) := by
    intro h
    obtain ⟨v, hv, hkey⟩ := Option.bind_eq_some_iff.mp h
    obtain ⟨e', he', hkey, hnext⟩ := hvideo hv hkey
    exact ⟨s, hs, e', he', hkey, j, hindex, .inl ⟨rfl, hnext⟩⟩
  cases stay with
  | true =>
    rw [if_pos rfl] at h
    obtain ⟨-, h⟩ := Option.ite_none_left_eq_some.mp h
    exact hhere h
  | false =>
    rw [if_neg Bool.false_ne_true] at h
    obtain ⟨next, hnext, h⟩ := Option.bind_eq_some_iff.mp h
    split at h
    next hend =>
      obtain ⟨t, ht, h⟩ := Option.bind_eq_some_iff.mp h
      obtain ⟨d, rfl, ht⟩ := Option.bind_eq_some_iff.mp ht
      obtain ⟨hd, c, hc, hdindex⟩ := afterNumber_eq_some hnext
      obtain ⟨s', hs', rfl⟩ := List.mem_map.mp hd
      cases ht
      rw [hp.episodes s' hs', Option.bind_some] at h
      obtain ⟨v, hv, hkey⟩ := Option.bind_eq_some_iff.mp h
      obtain ⟨e', he', hkey, hfirst⟩ := hvideo (t := s') hv hkey
      exact ⟨s', hs', e', he', hkey, j, hindex, .inr ⟨rfl, hend, c, hc, hdindex, hfirst⟩⟩
    next => exact hhere h

/-! ### The loop -/

/-- The episodes of the show, or of a season. -/
def Show.keysFrom (sh : Show) (home : Season) (stay : Bool) : Finset String :=
  ((sh.seasons.filter fun s => !stay || s = home).flatMap fun s =>
    s.episodes.map Episode.key).toFinset

theorem mem_keysFrom {home : Season} : key ∈ sh.keysFrom home stay ↔
    ∃ s ∈ sh.seasons, (stay = true → s = home) ∧ ∃ e ∈ s.episodes, e.key = key := by
  cases stay <;> simp [Show.keysFrom]

/-- The next episode that can be queued. -/
def nextQueued (P : Plex) (canQueue : String → Bool) (stay : Bool) (key : String) :
    Option String :=
  (getNextPlexEpisode P key stay).filter canQueue

/-- The loop is a walk. -/
theorem queueSeries_of_walk {l : List String} (hkey : canQueue key = true)
    (h : walk (nextQueued P canQueue stay) n key = some l) :
    queueSeries P canQueue stay (n + 1) key = some l := by
  induction n generalizing key l with
  | zero => cases h
  | succ n ih =>
    rw [walk, nextQueued] at h
    rw [queueSeries, if_neg (by simp [hkey])]
    cases hnext : getNextPlexEpisode P key stay with
    | none =>
      rw [hnext] at h
      exact h
    | some next =>
      rw [hnext] at h
      cases hcan : canQueue next with
      | true =>
        rw [Option.filter_some_pos hcan] at h
        obtain ⟨rest, hrest, rfl⟩ := Option.map_eq_some_iff.mp h
        exact congrArg (Option.map (key :: ·)) (ih hcan hrest)
      | false =>
        rw [Option.filter_some_neg (by simp [hcan])] at h
        simp only [queueSeries, hcan, if_true]
        exact h

variable (canQueue stay) in
/-- The walk climbs: the next episode has the next number, or is in the next season. -/
theorem climbs (hp : Serves P sh) (hu : sh.Unique) (home : Season) :
    Climbs (nextQueued P canQueue stay) (sh.keysFrom home stay) sh.place := by
  have hnext : ∀ key ∈ sh.keysFrom home stay, ∀ next, nextQueued P canQueue stay key = some next →
      next ∈ sh.keysFrom home stay ∧ sh.place key < sh.place next := by
    intro key hkey next h
    obtain ⟨s, hs, hhome, e, he, rfl⟩ := mem_keysFrom.mp hkey
    obtain ⟨h, -⟩ := Option.filter_eq_some_iff.mp h
    obtain ⟨s', hs', e', he', rfl, j, hj, hcases⟩ := next_cases hp hu hs he h
    rw [place_eq hu hs he, place_eq hu hs' he', hj]
    rcases hcases with ⟨rfl, hj'⟩ | ⟨hstay, -, c, hc, hc', hj'⟩
    · refine ⟨mem_keysFrom.mpr ⟨s', hs, hhome, e', he', rfl⟩, ?_⟩
      rw [hj', Prod.Lex.toLex_lt_toLex]
      exact .inr ⟨rfl, lt_add_one j⟩
    · refine ⟨mem_keysFrom.mpr ⟨s', hs', fun h => absurd h (by simp [hstay]), e', he', rfl⟩, ?_⟩
      rw [hc, hc', Prod.Lex.toLex_lt_toLex]
      exact .inl (lt_add_one c)
  exact ⟨fun key hkey next h => (hnext key hkey next h).1,
    fun key hkey next h => (hnext key hkey next h).2⟩

/-- **The loop ends and queues no episode twice**, whatever numbers the episodes and seasons
have, and wherever it cannot queue one. -/
theorem queueSeries_ends (hp : Serves P sh) (hu : sh.Unique) (hs : s ∈ sh.seasons)
    (he : e ∈ s.episodes) (canQueue : String → Bool) (stay : Bool) :
    ∃ n l, queueSeries P canQueue stay n e.key = some l ∧ l.Nodup ∧
      ∀ key ∈ l, ∃ s' ∈ sh.seasons, (stay = true → s' = s) ∧ ∃ e' ∈ s'.episodes, e'.key = key := by
  cases hcan : canQueue e.key with
  | false => exact ⟨1, [], by simp [queueSeries, hcan], List.nodup_nil, nofun⟩
  | true =>
    have hclimbs := climbs canQueue stay hp hu s
    have hstart : e.key ∈ sh.keysFrom s stay := mem_keysFrom.mpr ⟨s, hs, fun _ => rfl, e, he, rfl⟩
    obtain ⟨l, hl⟩ := hclimbs.exists_walk hstart (Nat.lt_succ_self _)
    refine ⟨_, l, queueSeries_of_walk hcan hl, hclimbs.nodup hstart hl, fun key hkey => ?_⟩
    exact mem_keysFrom.mp ((hclimbs.pairwise hstart hl).2 key hkey).1

/-- Two episodes in a season, and one in the next. -/
def pilot : Show :=
  ⟨"10", [⟨"11", some (some 1), [⟨"12", some (some 1)⟩, ⟨"13", some (some 2)⟩]⟩,
    ⟨"14", some (some 2), [⟨"15", some (some 1)⟩]⟩]⟩

def pilotPlex : Plex where
  metadata key :=
    if key = "12" ∨ key = "13" then some ⟨some "10", some "11"⟩
    else if key = "15" then some ⟨some "10", some "14"⟩ else none
  seasons key := if key = "10" then some pilot.directories else none
  episodes key :=
    if key = "11" then some [⟨some "12", some (some 1), some (some 1)⟩,
      ⟨some "13", some (some 2), some (some 1)⟩]
    else if key = "14" then some [⟨some "15", some (some 1), some (some 2)⟩] else none

theorem serves_pilot : Serves pilotPlex pilot := ⟨by decide, by decide, by decide⟩

/-- The loop for the second episode, of which the last one cannot be queued. -/
theorem queueSeries_ends_pilot : ∃ n l,
    queueSeries pilotPlex (· ≠ "15") false n "13" = some l ∧ l.Nodup := by
  obtain ⟨n, l, hl, hnodup, -⟩ := queueSeries_ends serves_pilot (by decide)
    (s := ⟨"11", some (some 1), [⟨"12", some (some 1)⟩, ⟨"13", some (some 2)⟩]⟩)
    (e := ⟨"13", some (some 2)⟩) (by decide) (by decide) (· ≠ "15") false
  exact ⟨n, l, hl, hnodup⟩

/-! ### A show without gaps -/

/-- The seasons have numbers without a gap, and the episodes of each count from one. -/
structure Show.Complete (sh : Show) : Prop where
  numbered : ∀ s ∈ sh.seasons, (s.episodes.map Episode.index).Perm
    ((List.range' 1 s.episodes.length).map fun j : ℕ => some (some (j : ℤ)))
  nonempty : ∀ s ∈ sh.seasons, s.episodes ≠ []
  index : ∀ s ∈ sh.seasons, ∃ c, s.index = some (some c)
  distinct : ∀ s ∈ sh.seasons, ∀ s' ∈ sh.seasons, s.index = s'.index → s = s'
  noGap : ∀ s ∈ sh.seasons, ∀ s' ∈ sh.seasons, ∀ c c' d : ℤ, s.index = some (some c) →
    s'.index = some (some c') → c ≤ d → d ≤ c' → ∃ t ∈ sh.seasons, t.index = some (some d)

namespace Show.Complete

variable (hc : sh.Complete)

include hc in
theorem episode_index (hs : s ∈ sh.seasons) (he : e ∈ s.episodes) :
    ∃ j : ℤ, e.index = some (some j) ∧ 1 ≤ j ∧ j ≤ s.episodes.length := by
  have hmem := (hc.numbered s hs).subset (List.mem_map_of_mem he)
  obtain ⟨j, hj, heq⟩ := List.mem_map.mp hmem
  obtain ⟨hlow, hhigh⟩ := List.mem_range'_1.mp hj
  exact ⟨j, heq.symm, by omega, by omega⟩

include hc in
theorem exists_episode (hs : s ∈ sh.seasons) {j : ℤ} (hlow : 1 ≤ j)
    (hhigh : j ≤ s.episodes.length) : ∃ e ∈ s.episodes, e.index = some (some j) := by
  have hmem : some (some j) ∈ s.episodes.map Episode.index := by
    refine (hc.numbered s hs).symm.subset (List.mem_map.mpr ⟨j.toNat, ?_, ?_⟩)
    · exact List.mem_range'_1.mpr ⟨by omega, by omega⟩
    · simp only [Option.some.injEq]
      omega
  obtain ⟨e, he, heq⟩ := List.mem_map.mp hmem
  exact ⟨e, he, heq⟩

include hc in
theorem episode_inj (hs : s ∈ sh.seasons) (he : e ∈ s.episodes) (he' : e' ∈ s.episodes)
    (h : e.index = e'.index) : e = e' := by
  have hnodup : (s.episodes.map Episode.index).Nodup := by
    refine (hc.numbered s hs).nodup_iff.mpr (List.Nodup.map ?_ List.nodup_range')
    intro i j hij
    simpa using hij
  exact List.inj_on_of_nodup_map hnodup he he' h

include hc in
/-- The place of an episode stands for its numbers. -/
theorem place_eq (hu : sh.Unique) (hs : s ∈ sh.seasons) (he : e ∈ s.episodes) :
    ∃ c j : ℤ, s.index = some (some c) ∧ e.index = some (some j) ∧ 1 ≤ j ∧
      j ≤ s.episodes.length ∧ sh.place e.key = toLex (c, j) := by
  obtain ⟨c, hi⟩ := hc.index s hs
  obtain ⟨j, hj, hlow, hhigh⟩ := hc.episode_index hs he
  refine ⟨c, j, hi, hj, hlow, hhigh, ?_⟩
  rw [Subgen.place_eq hu hs he, hi, hj]
  rfl

include hc in
theorem injOn_place (hu : sh.Unique) : Set.InjOn sh.place (sh.keysFrom s stay) := by
  intro key hkey key' hkey' heq
  obtain ⟨s₁, hs₁, -, e₁, he₁, rfl⟩ := mem_keysFrom.mp hkey
  obtain ⟨s₂, hs₂, -, e₂, he₂, rfl⟩ := mem_keysFrom.mp hkey'
  obtain ⟨c₁, j₁, hc₁, hj₁, -, -, hp₁⟩ := hc.place_eq hu hs₁ he₁
  obtain ⟨c₂, j₂, hc₂, hj₂, -, -, hp₂⟩ := hc.place_eq hu hs₂ he₂
  have hpair := toLex.injective ((hp₁.symm.trans heq).trans hp₂)
  obtain ⟨rfl, rfl⟩ := Prod.ext_iff.mp hpair
  obtain rfl := hc.distinct s₁ hs₁ s₂ hs₂ (hc₁.trans hc₂.symm)
  rw [hc.episode_inj hs₁ he₁ he₂ (hj₁.trans hj₂.symm)]

include hc in
/-- The episode with the next number is found. -/
theorem afterNumber_videos (hs : s ∈ sh.seasons) {j : ℤ} (hlow : 0 ≤ j)
    (hhigh : j < s.episodes.length) : ∃ key,
      (afterNumber (some (some j)) Video.index s.videos).bind (·.bind Video.ratingKey)
        = some key := by
  obtain ⟨e, he, hindex⟩ := hc.exists_episode hs (j := j + 1) (by omega) (by omega)
  have hnum : ∀ v ∈ s.videos, ∃ i, v.index = some (some i) := by
    intro v hv
    obtain ⟨e', he', rfl⟩ := List.mem_map.mp hv
    obtain ⟨i, hi, -⟩ := hc.episode_index hs he'
    exact ⟨i, hi⟩
  rw [afterNumber_eq hnum, Option.bind_some]
  cases hfind : s.videos.find? fun v => v.index = some (some (j + 1)) with
  | none =>
    have hnone := List.find?_eq_none.mp hfind _ (List.mem_map_of_mem he)
    exact absurd hindex (by simpa using hnone)
  | some v =>
    obtain ⟨e', -, rfl⟩ := List.mem_map.mp (List.mem_of_find?_eq_some hfind)
    exact ⟨e'.key, rfl⟩

include hc in
theorem index_directories : ∀ d ∈ sh.directories, ∃ i, d.index = some (some i) := by
  intro d hd
  obtain ⟨s, hs, rfl⟩ := List.mem_map.mp hd
  exact hc.index s hs

include hc in
/-- The next season is found, and its first episode. -/
theorem afterNumber_directories (hp : Serves P sh) (hs : s ∈ sh.seasons) (hs' : s' ∈ sh.seasons)
    {c c' : ℤ} (hsc : s.index = some (some c)) (hsc' : s'.index = some (some c')) (hlt : c < c') :
    ∃ d key, afterNumber s.index Directory.index sh.directories = some (some d) ∧
      (d.ratingKey.bind fun t => (P.episodes t).bind fun episodes =>
        (afterNumber (some (some 0)) Video.index episodes).bind (·.bind Video.ratingKey))
          = some key := by
  obtain ⟨t, ht, htc⟩ := hc.noGap s hs s' hs' c c' (c + 1) hsc hsc' (by omega) (by omega)
  rw [hsc, afterNumber_eq hc.index_directories]
  cases hfind : sh.directories.find? fun d => d.index = some (some (c + 1)) with
  | none =>
    have hnone := List.find?_eq_none.mp hfind _ (List.mem_map_of_mem ht)
    exact absurd htc (by simpa using hnone)
  | some d =>
    obtain ⟨u, hu, rfl⟩ := List.mem_map.mp (List.mem_of_find?_eq_some hfind)
    have hlen := List.length_pos_of_ne_nil (hc.nonempty u hu)
    obtain ⟨key, hkey⟩ := hc.afterNumber_videos hu le_rfl (by omega)
    refine ⟨_, key, rfl, ?_⟩
    rw [Option.bind_some, hp.episodes u hu, Option.bind_some]
    exact hkey

include hc in
/-- Nothing is between an episode and the next. -/
theorem place_next_le (hp : Serves P sh) (hu : sh.Unique) {home : Season} {t next : String}
    (hkey : key ∈ sh.keysFrom home stay) (h : nextQueued P canQueue stay key = some next)
    (ht : t ∈ sh.keysFrom home stay) (hlt : sh.place key < sh.place t) :
    sh.place next ≤ sh.place t := by
  obtain ⟨s, hs, -, e, he, rfl⟩ := mem_keysFrom.mp hkey
  obtain ⟨r, hr, -, f, hf, rfl⟩ := mem_keysFrom.mp ht
  obtain ⟨h, -⟩ := Option.filter_eq_some_iff.mp h
  obtain ⟨s', hs', e', he', rfl, j, hj, hcases⟩ := next_cases hp hu hs he h
  obtain ⟨c₁, j₁, hc₁, hj₁, -, -, hp₁⟩ := hc.place_eq hu hs he
  obtain ⟨c₂, j₂, hc₂, hj₂, hlow₂, hhigh₂, hp₂⟩ := hc.place_eq hu hr hf
  obtain ⟨c₃, j₃, hc₃, hj₃, -, -, hp₃⟩ := hc.place_eq hu hs' he'
  rw [hp₁, hp₂, Prod.Lex.toLex_lt_toLex] at hlt
  rw [hp₂, hp₃, Prod.Lex.toLex_le_toLex]
  obtain rfl : j = j₁ := by simpa [hj] using hj₁
  rcases hcases with ⟨rfl, hj'⟩ | ⟨-, hlast, c, hsc, hsc', hj'⟩
  · obtain rfl : c₁ = c₃ := by simpa [hc₁] using hc₃
    obtain rfl : j + 1 = j₃ := by simpa [hj'] using hj₃
    exact hlt.imp_right fun h => ⟨h.1, by omega⟩
  · obtain rfl : c = c₁ := by simpa [hsc] using hc₁
    obtain rfl : c + 1 = c₃ := by simpa [hsc'] using hc₃
    obtain rfl : 1 = j₃ := by simpa [hj'] using hj₃
    rcases hlt with hlt | ⟨heq, hlt⟩
    · rcases (show c + 1 ≤ c₂ from hlt).lt_or_eq with hlt | heq
      · exact .inl hlt
      · exact .inr ⟨heq, hlow₂⟩
    · dsimp only at heq hlt
      obtain rfl := hc.distinct r hr s hs (by rw [hc₂, hsc, heq])
      omega

include hc in
/-- There is a next one but for the last. -/
theorem place_le_last (hp : Serves P sh) (hu : sh.Unique) (hcan : ∀ key, canQueue key = true)
    {home : Season} {t : String} (hkey : key ∈ sh.keysFrom home stay)
    (h : nextQueued P canQueue stay key = none) (ht : t ∈ sh.keysFrom home stay) :
    sh.place t ≤ sh.place key := by
  obtain ⟨s, hs, hhome, e, he, rfl⟩ := mem_keysFrom.mp hkey
  obtain ⟨r, hr, hhome', f, hf, rfl⟩ := mem_keysFrom.mp ht
  obtain ⟨c₁, j₁, hc₁, hj₁, hlow₁, hhigh₁, hp₁⟩ := hc.place_eq hu hs he
  obtain ⟨c₂, j₂, hc₂, hj₂, -, hhigh₂, hp₂⟩ := hc.place_eq hu hr hf
  rw [← not_lt, hp₁, hp₂, Prod.Lex.toLex_lt_toLex]
  intro hlt
  have hnone : getNextPlexEpisode P e.key stay = none := by
    cases hnext : getNextPlexEpisode P e.key stay with
    | none => rfl
    | some next => simp [nextQueued, hnext, hcan] at h
  rw [getNextPlexEpisode_eq hp hu hs he, hj₁] at hnone
  have hvideos : j₁ < s.episodes.length → ∃ key,
      (afterNumber (some (some j₁)) Video.index s.videos).bind (·.bind Video.ratingKey)
        = some key := hc.afterNumber_videos hs (by omega)
  have hsame : c₁ = c₂ → j₁ < j₂ → j₁ < s.episodes.length := by
    rintro rfl hj
    obtain rfl := hc.distinct s hs r hr (hc₁.trans hc₂.symm)
    omega
  cases stay with
  | true =>
    obtain rfl : s = r := (hhome rfl).trans (hhome' rfl).symm
    obtain rfl : c₁ = c₂ := by simpa [hc₁] using hc₂
    have hless := hsame rfl (hlt.resolve_left (lt_irrefl c₁)).2
    obtain ⟨key, hkey⟩ := hvideos hless
    simp [hless.ne, hkey] at hnone
  | false =>
    rcases hlt with hlt | ⟨heq, hlt⟩
    · obtain ⟨d, key, hd, hkey⟩ := hc.afterNumber_directories hp hs hr hc₁ hc₂ hlt
      rcases hhigh₁.eq_or_lt with heq | hless
      · simp [hd, heq, hkey] at hnone
      · obtain ⟨key, hkey⟩ := hvideos hless
        simp [hd, hless.ne, hkey] at hnone
    · have hless := hsame heq hlt
      obtain ⟨key, hkey⟩ := hvideos hless
      rw [hc₁, afterNumber_eq hc.index_directories] at hnone
      simp [hless.ne, hkey] at hnone

end Show.Complete

/-- **It queues all episodes from the first one on, in order**: of the show, or of the
season, where the numbers have no gap. -/
theorem queueSeries_complete (hp : Serves P sh) (hu : sh.Unique) (hc : sh.Complete)
    (hs : s ∈ sh.seasons) (he : e ∈ s.episodes) (hcan : ∀ key, canQueue key = true)
    (stay : Bool) :
    ∃ n l, queueSeries P canQueue stay n e.key = some l ∧
      (l.Pairwise fun key key' => sh.place key < sh.place key') ∧
      ∀ key, key ∈ l ↔ sh.place e.key ≤ sh.place key ∧
        ∃ s' ∈ sh.seasons, (stay = true → s' = s) ∧ ∃ e' ∈ s'.episodes, e'.key = key := by
  have hclimbs := climbs canQueue stay hp hu s
  have hstart : e.key ∈ sh.keysFrom s stay := mem_keysFrom.mpr ⟨s, hs, fun _ => rfl, e, he, rfl⟩
  obtain ⟨l, hl⟩ := hclimbs.exists_walk hstart (Nat.lt_succ_self _)
  obtain ⟨hup, hin⟩ := hclimbs.pairwise hstart hl
  refine ⟨_, l, queueSeries_of_walk (hcan e.key) hl, hup, fun key => ?_⟩
  rw [← mem_keysFrom]
  constructor
  · exact fun hkey => (hin key hkey).symm
  · rintro ⟨hle, hkey⟩
    refine hclimbs.mem_of_walk (hc.injOn_place hu) ?_ ?_ hstart hl hkey hle
    · exact fun a ha b hb t ht hlt => hc.place_next_le hp hu ha hb ht hlt
    · exact fun a ha hlast t ht => hc.place_le_last hp hu hcan ha hlast ht

theorem complete_pilot : pilot.Complete where
  numbered := by decide
  nonempty := by decide
  index := by simp [pilot]
  distinct := by decide
  noGap := by
    intro s hs s' hs' c c' d hc hc' hlow hhigh
    have hindex : ∀ t ∈ pilot.seasons, t.index = some (some 1) ∨ t.index = some (some 2) := by
      decide
    have hd : d = 1 ∨ d = 2 := by
      have h := hindex s hs
      have h' := hindex s' hs'
      simp only [hc, hc', Option.some.injEq] at h h'
      omega
    rcases hd with rfl | rfl <;> decide

/-- The loop for the second episode goes on to the next season. -/
theorem queueSeries_complete_pilot : ∃ n l,
    queueSeries pilotPlex (fun _ => true) false n "13" = some l ∧ "15" ∈ l ∧ "12" ∉ l := by
  obtain ⟨n, l, hl, -, hmem⟩ := queueSeries_complete serves_pilot (by decide) complete_pilot
    (s := ⟨"11", some (some 1), [⟨"12", some (some 1)⟩, ⟨"13", some (some 2)⟩]⟩)
    (e := ⟨"13", some (some 2)⟩) (by decide) (by decide) (fun _ => rfl) false
  exact ⟨n, l, hl, (hmem "15").mpr (by decide), fun h => absurd ((hmem "12").mp h) (by decide)⟩

end Subgen
end MediaHub

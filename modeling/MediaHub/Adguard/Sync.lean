import MediaHub.Places
import Mathlib.Data.List.Dedup
import Mathlib.Data.List.Sort
import Mathlib.Data.String.Basic

/-!
# The replica of AdGuard's configuration

`scripts/adguard-sync-x51.py` builds the configuration that the second AdGuard should have from
the first one's, compares it with the one it has, and pushes it if they differ.  What is the
instance's own is left out of the comparison, and so are the servers that it asks.

## Main definitions

* `buildReplica`, `normalize`, `diffKeys`, `sync` — the source.
* `Ignored` — the places that are left out.
* `InSync` — the two configurations are the same otherwise.

## Main results

* `diffKeys_eq_nil_iff` — **nothing differs exactly if they are in sync.**
* `sync_inSync_pushed_iff` — **the same comparison decides before a push and after it.**
-/

namespace MediaHub
namespace Adguard

open Json

/-! ### The source -/

def X51_UPSTREAM : List String := ["9.9.9.10", "1.1.1.1"]

def X51_FALLBACK : List String := ["https://dns10.quad9.net/dns-query"]

/-- `list(servers)`. -/
def servers (names : List String) : Json := .arr (names.map .str)

/-- `build_replica`; `none` where it raises. -/
def buildReplica (prod : Json) (env : String → Option String) : Option Json := do
  let user ← env "ADGUARD_X51_USER"
  let password ← env "ADGUARD_X51_PASSWORD_BCRYPT"
  let d ← prod.setItem "users" (.arr [.obj [("name", .str user), ("password", .str password)]])
  let d ← d.modify "dns" (·.setItem "upstream_dns" (servers X51_UPSTREAM))
  d.modify "dns" (·.setItem "fallback_dns" (servers X51_FALLBACK))

/-- `bool(value)`. -/
def truthy : Json → Bool
  | .null => false
  | .bool b => b
  | .num q => q ≠ 0
  | .str s => s ≠ ""
  | .arr items => !items.isEmpty
  | .obj fields => !fields.isEmpty

/-- What is popped of one filter. -/
def stripFilter (f : Json) : Option Json := do
  let f ← f.pop "last_updated"
  f.pop "rules_count"

/-- The loop over the filters of a list. -/
def stripItems : Json → Option Json
  | .arr items => (items.mapM stripFilter).map .arr
  | _ => none

/-- `for f in d.get(key) or []`. -/
def stripFilters (key : String) (d : Json) : Option Json :=
  if truthy (d.get key) then d.modify key stripItems else some d

/-- `normalize`; `none` where it raises. -/
def normalize (doc : Json) : Option Json := do
  let d ← doc.pop "users"
  let d ← d.modify "dns" (·.pop "upstream_dns")
  let d ← d.modify "dns" (·.pop "fallback_dns")
  let d ← stripFilters "filters" d
  stripFilters "whitelist_filters" d

/-- `sorted(set(a) | set(b))`. -/
def sortedKeys (a b : Json) : List String := (a.keys ++ b.keys).dedup.insertionSort (· ≤ ·)

/-- What `diff_keys` reports for a key. -/
def diffKey (na nb : Json) (k : String) : List String :=
  if (na.get k).eqv (nb.get k) then []
  else if (na.get k).isDict && (nb.get k).isDict then
    ((sortedKeys (na.get k) (nb.get k)).filter fun s =>
      !((na.get k).get s).eqv ((nb.get k).get s)).map fun s => k ++ "." ++ s
  else [k]

/-- `diff_keys`; `none` where it raises. -/
def diffKeys (a b : Json) : Option (List String) := do
  let na ← normalize a
  let nb ← normalize b
  return (sortedKeys na nb).flatMap (diffKey na nb)

/-- `yaml.safe_load` of what a command prints. -/
inductive Reading where
  /-- The command fails. -/
  | failed
  /-- What it prints is no YAML. -/
  | garbled
  | doc (v : Json)

/-- Why `sync` raises. -/
inductive Failure where
  /-- `CalledProcessError`. -/
  | command
  | notYaml
  /-- A configuration that is not as the code takes it to be. -/
  | malformed
  /-- `x51 does not answer {domain} with {answer} (got {out})`. -/
  | noAnswer (domain : String) (answer : Json) (out : List String)
  /-- `still differs after push: {left}`. -/
  | stillDiffers (left : List String)

/-- What is outside the script. -/
structure Outside where
  /-- Production's configuration. -/
  prod : Reading
  /-- The replica's configuration before a push. -/
  live : Reading
  /-- What `dig` prints before a push, by the number of the question. -/
  dig : ℕ → String → List String
  /-- Whether the commands of the push succeed. -/
  pushes : Bool
  /-- What `dig` prints after a push. -/
  digAfter : ℕ → String → List String
  /-- The replica's configuration after a push. -/
  liveAfter : Reading

def Reading.load : Reading → Except Failure Json
  | .failed => .error .command
  | .garbled => .error .notYaml
  | .doc v => .ok v

/-- The live configuration, where a failing command stands for an empty one. -/
def Reading.loadLive : Reading → Except Failure Json
  | .failed => .ok (.obj [("dns", .obj [])])
  | r => r.load

/-- What is computed, where it does not raise. -/
def orRaise {α : Type} : Option α → Except Failure α
  | none => .error .malformed
  | some a => .ok a

/-- `prod["filtering"]["rewrites"][0]`, by its domain and its answer. -/
def firstRewrite (prod : Json) : Option (String × Json) := do
  let .arr (rw :: _) ← (← prod.item "filtering").item "rewrites" | none
  let .str domain ← rw.item "domain" | none
  return (domain, ← rw.item "answer")

/-- `out == [answer]`. -/
def answers (answer : Json) (out : List String) : Bool :=
  (Json.arr (out.map .str)).eqv (.arr [answer])

/-- `check_answers`. -/
def checkAnswers (prod : Json) (dig : ℕ → String → List String) (tries : ℕ) :
    Except Failure Unit :=
  match firstRewrite prod with
  | none => .error .malformed
  | some (domain, answer) =>
    if (List.range tries).any fun i => answers answer (dig i domain) then .ok ()
    else .error (.noAnswer domain answer (dig (tries - 1) domain))

def IN_SYNC : String := "in sync, x51 answering"

def PUSHED : String := "pushed and restarted x51 AdGuard; verified"

/-- What `sync` does before it decides: production's configuration, the replica of it, and what
differs. -/
def compareLive (O : Outside) (env : String → Option String) :
    Except Failure (Json × Json × List String) := do
  let prod ← O.prod.load
  let replica ← orRaise (buildReplica prod env)
  let live ← O.live.loadLive
  let diffs ← orRaise (diffKeys replica live)
  return (prod, replica, diffs)

/-- What `sync` does from the push on. -/
def push (O : Outside) (prod replica : Json) : Except Failure String :=
  if !O.pushes then .error .command
  else do
    checkAnswers prod O.digAfter 12
    let live ← O.liveAfter.load
    let left ← orRaise (diffKeys replica live)
    if left ≠ [] then .error (.stillDiffers left) else .ok PUSHED

/-- What comes out of a run: what `sync` returns, and the configuration that is pushed. -/
structure Outcome where
  result : Except Failure (Option String)
  pushed : Option Json

/-- `sync`. -/
def sync (O : Outside) (dryRun force : Bool) (env : String → Option String) : Outcome :=
  match compareLive O env with
  | .error e => ⟨.error e, none⟩
  | .ok (prod, replica, diffs) =>
    if diffs = [] ∧ force = false then
      ⟨(checkAnswers prod O.dig 2).map fun _ => some IN_SYNC, none⟩
    else if dryRun then ⟨.ok none, none⟩
    else ⟨(push O prod replica).map some, some replica⟩

/-! ### What is compared -/

/-- The keys of lists of filters. -/
def FILTER_LISTS : List String := ["filters", "whitelist_filters"]

/-- The places that are not compared. -/
inductive Ignored : Path → Prop
  | users (p : Path) : Ignored (.key "users" :: p)
  | dns {k : String} (hk : k = "upstream_dns" ∨ k = "fallback_dns") (p : Path) :
      Ignored (.key "dns" :: .key k :: p)
  | filter {key k : String} (hkey : key ∈ FILTER_LISTS)
      (hk : k = "last_updated" ∨ k = "rules_count") (i : ℕ) (p : Path) :
      Ignored (.key key :: .index i :: .key k :: p)

/-- A key at the top, or one in what is there. -/
def shallow : Path → Bool
  | [.key _] => true
  | [.key _, .key _] => true
  | _ => false

/-- What is compared at a place: a key that is missing at the top, or in what is there, is
null. -/
def seen (p : Path) (v : Json) : Option Shape :=
  if shallow p then some ((v.shapeAt p).getD .null) else v.shapeAt p

/-- A configuration that can be compared at all. -/
structure Readable (doc : Json) : Prop where
  isDict : doc.isDict = true
  dns : ∃ dns, doc.item "dns" = some dns ∧ dns.isDict = true
  filters : ∀ key ∈ FILTER_LISTS, truthy (doc.get key) = true →
    ∃ items, doc.item key = some (.arr items) ∧ ∀ f ∈ items, f.isDict = true

/-- Two configurations that are the same as far as they are compared. -/
structure InSync (a b : Json) : Prop where
  left : Readable a
  right : Readable b
  same : ∀ p, ¬ Ignored p → seen p a = seen p b

/-! ### What is stripped -/

theorem erases_stripFilter {f g : Json} (h : stripFilter f = some g) :
    Erases (fun p => ∃ k q, p = .key k :: q ∧ (k = "last_updated" ∨ k = "rules_count")) f g := by
  obtain ⟨m, hm, hg⟩ := Option.bind_eq_some_iff.mp h
  refine ((erases_pop hm).trans (erases_pop hg)).congr fun p => ?_
  constructor
  · rintro (⟨q, rfl⟩ | ⟨q, rfl⟩)
    · exact ⟨_, q, rfl, Or.inl rfl⟩
    · exact ⟨_, q, rfl, Or.inr rfl⟩
  · rintro ⟨_, q, rfl, rfl | rfl⟩
    · exact Or.inl ⟨q, rfl⟩
    · exact Or.inr ⟨q, rfl⟩

theorem exists_stripFilter {f : Json} (h : f.isDict = true) : ∃ g, stripFilter f = some g := by
  obtain ⟨m, hm⟩ := pop_isSome.mpr h
  obtain ⟨g, hg⟩ := pop_isSome.mpr (isDict_of_pop hm).2
  exact ⟨g, Option.bind_eq_some_iff.mpr ⟨m, hm, hg⟩⟩

theorem isDict_of_stripFilter {f g : Json} (h : stripFilter f = some g) : f.isDict = true := by
  obtain ⟨m, hm, -⟩ := Option.bind_eq_some_iff.mp h
  exact (isDict_of_pop hm).1

theorem child_index_of_not_truthy {v : Json} (h : ¬ truthy v = true) (i : ℕ) :
    v.child (.index i) = none := by
  cases v with
  | arr items =>
    obtain rfl : items = [] := by simpa [truthy] using h
    rfl
  | _ => rfl

theorem mapM_eq_some {f : Json → Option Json} {l l' : List Json} (h : l.mapM f = some l') :
    List.Forall₂ (fun a b => f a = some b) l l' := by
  induction l generalizing l' with
  | nil =>
    obtain rfl : [] = l' := by simpa using h
    exact .nil
  | cons a l ih =>
    simp only [List.mapM_cons, Option.bind_eq_bind, Option.bind_eq_some_iff, Option.pure_def,
      Option.some.injEq] at h
    obtain ⟨b, hb, bs, hbs, rfl⟩ := h
    exact .cons hb (ih hbs)

theorem exists_mapM {f : Json → Option Json} {l : List Json} (h : ∀ a ∈ l, ∃ b, f a = some b) :
    ∃ l', l.mapM f = some l' := by
  induction l with
  | nil => exact ⟨[], rfl⟩
  | cons a l ih =>
    obtain ⟨b, hb⟩ := h a List.mem_cons_self
    obtain ⟨bs, hbs⟩ := ih fun a' ha' => h a' (List.mem_cons_of_mem _ ha')
    exact ⟨b :: bs, by simp [List.mapM_cons, hb, hbs]⟩

theorem stripItems_eq_some {v w : Json} (h : stripItems v = some w) :
    ∃ items, v = .arr items ∧ (∀ f ∈ items, f.isDict = true) ∧
      Erases (fun p => ∃ i q, p = .index i :: q ∧ ∃ k q', q = .key k :: q' ∧
        (k = "last_updated" ∨ k = "rules_count")) v w := by
  cases v with
  | arr items =>
    obtain ⟨items', hitems, rfl⟩ := Option.map_eq_some_iff.mp h
    have hall := mapM_eq_some hitems
    have hdicts := hall.imp fun f g hfg => And.intro (isDict_of_stripFilter hfg) hfg
    exact ⟨items, rfl, ((List.forall₂_and_left _ _).mp hdicts).1,
      erases_arr (hall.imp fun f g hfg => erases_stripFilter hfg)⟩
  | _ => cases h

/-- The filters of a list lose two fields each, and nothing else changes. -/
theorem stripFilters_eq_some {key : String} {v w : Json} (h : stripFilters key v = some w) :
    (truthy (v.get key) = true →
        ∃ items, v.item key = some (.arr items) ∧ ∀ f ∈ items, f.isDict = true) ∧
      (∀ k, k ≠ key → w.item k = v.item k) ∧ (v.isDict = true → w.isDict = true) ∧
      Erases (fun p => ∃ i k q, p = .key key :: .index i :: .key k :: q ∧
        (k = "last_updated" ∨ k = "rules_count")) v w := by
  rw [stripFilters] at h
  split at h
  · next ht =>
    obtain ⟨x, y, hx, hy, -, hw, hitem⟩ := item_modify h
    obtain ⟨items, rfl, hdicts, -⟩ := stripItems_eq_some hy
    refine ⟨fun _ => ⟨items, hx, hdicts⟩, fun k hk => by rw [hitem, if_neg hk], fun _ => hw, ?_⟩
    have herase := erases_modify h fun x y _ hxy => (stripItems_eq_some hxy).choose_spec.2.2
    refine herase.congr fun p => ?_
    constructor
    · rintro ⟨_, rfl, i, _, rfl, k, q, rfl, hk⟩
      exact ⟨i, k, q, rfl, hk⟩
    · rintro ⟨i, k, q, rfl, hk⟩
      exact ⟨_, rfl, i, _, rfl, k, q, rfl, hk⟩
  · next ht =>
    obtain rfl := Option.some.inj h
    refine ⟨fun h => absurd h ht, fun _ _ => rfl, fun h => h, ?_⟩
    -- where there is no list, there are no filters
    intro p
    refine ⟨?_, fun _ => rfl⟩
    rintro ⟨i, k, q, rfl, -⟩
    rw [shapeAt_cons]
    cases hx : v.item key with
    | none => simp [child, hx]
    | some x =>
      have hchild := child_index_of_not_truthy (v := x) (by simpa [Json.get, hx] using ht) i
      simp [child, hx] at hchild ⊢
      simp [hchild]

theorem exists_stripFilters {key : String} {v : Json}
    (h : truthy (v.get key) = true →
      ∃ items, v.item key = some (.arr items) ∧ ∀ f ∈ items, f.isDict = true) :
    ∃ w, stripFilters key v = some w := by
  rw [stripFilters]
  split
  · next ht =>
    obtain ⟨items, hitem, hdicts⟩ := h ht
    obtain ⟨items', hitems⟩ := exists_mapM fun f hf => exists_stripFilter (hdicts f hf)
    have hstrip : stripItems (.arr items) = some (.arr items') := by
      rw [stripItems, hitems]
      rfl
    obtain ⟨w, hw, -⟩ := exists_modify hitem hstrip
    exact ⟨w, hw⟩
  · exact ⟨v, rfl⟩

/-- The places that the steps of `normalize` take out are those that are ignored. -/
theorem ignored_iff (p : Path) : Ignored p ↔
    ((((∃ q, p = .key "users" :: q) ∨
      ∃ q, p = .key "dns" :: q ∧ ∃ r, q = .key "upstream_dns" :: r) ∨
      ∃ q, p = .key "dns" :: q ∧ ∃ r, q = .key "fallback_dns" :: r) ∨
      ∃ i k q, p = .key "filters" :: .index i :: .key k :: q ∧
        (k = "last_updated" ∨ k = "rules_count")) ∨
      ∃ i k q, p = .key "whitelist_filters" :: .index i :: .key k :: q ∧
        (k = "last_updated" ∨ k = "rules_count") := by
  constructor
  · rintro (q | @⟨k, hk, q⟩ | @⟨key, k, hkey, hk, i, q⟩)
    · exact Or.inl (Or.inl (Or.inl (Or.inl ⟨q, rfl⟩)))
    · rcases hk with rfl | rfl
      · exact Or.inl (Or.inl (Or.inl (Or.inr ⟨_, rfl, q, rfl⟩)))
      · exact Or.inl (Or.inl (Or.inr ⟨_, rfl, q, rfl⟩))
    · simp only [FILTER_LISTS, List.mem_cons, List.not_mem_nil, or_false] at hkey
      rcases hkey with rfl | rfl
      · exact Or.inl (Or.inr ⟨i, k, q, rfl, hk⟩)
      · exact Or.inr ⟨i, k, q, rfl, hk⟩
  · rintro ((((⟨q, rfl⟩ | ⟨_, rfl, q, rfl⟩) | ⟨_, rfl, q, rfl⟩) | ⟨i, k, q, rfl, hk⟩) |
      ⟨i, k, q, rfl, hk⟩)
    · exact .users q
    · exact .dns (Or.inl rfl) q
    · exact .dns (Or.inr rfl) q
    · exact .filter (by simp [FILTER_LISTS]) hk i q
    · exact .filter (by simp [FILTER_LISTS]) hk i q

/-- **What `normalize` strips, and when it does not raise.** -/
theorem normalize_eq_some {doc n : Json} (h : normalize doc = some n) :
    Readable doc ∧ n.isDict = true ∧ Erases Ignored doc n := by
  simp only [normalize, Option.bind_eq_bind, Option.bind_eq_some_iff] at h
  obtain ⟨d₁, h₁, d₂, h₂, d₃, h₃, d₄, h₄, h₅⟩ := h
  obtain ⟨hdict, hdict₁⟩ := isDict_of_pop h₁
  obtain ⟨dns, dns₂, hdns, hpop₂, -, hdict₂, hitem₂⟩ := item_modify h₂
  obtain ⟨_, _, _, _, -, hdict₃, hitem₃⟩ := item_modify h₃
  obtain ⟨hfilters, hitem₄, hdict₄, herase₄⟩ := stripFilters_eq_some h₄
  obtain ⟨hwhite, -, hdict₅, herase₅⟩ := stripFilters_eq_some h₅
  -- the lists of filters are untouched until they are stripped
  have hother : ∀ k, k ≠ "users" → k ≠ "dns" → d₃.item k = doc.item k := by
    intro k hu hd
    rw [hitem₃, if_neg hd, hitem₂, if_neg hd, item_pop h₁, if_neg hu]
  refine ⟨⟨hdict, ?_, ?_⟩, hdict₅ (hdict₄ hdict₃), ?_⟩
  · rw [item_pop h₁, if_neg (by decide)] at hdns
    exact ⟨dns, hdns, (isDict_of_pop hpop₂).1⟩
  · intro key hkey
    simp only [FILTER_LISTS, List.mem_cons, List.not_mem_nil, or_false] at hkey
    rcases hkey with rfl | rfl
    · have hkeep : d₃.item "filters" = doc.item "filters" := hother _ (by decide) (by decide)
      simpa only [Json.get, hkeep] using hfilters
    · have hkeep := hitem₄ "whitelist_filters" (by decide)
      rw [hother _ (by decide) (by decide)] at hkeep
      simpa only [Json.get, hkeep] using hwhite
  · have herase₂ := erases_modify h₂ fun x y _ hxy => erases_pop hxy
    have herase₃ := erases_modify h₃ fun x y _ hxy => erases_pop hxy
    have herase := ((((erases_pop h₁).trans herase₂).trans herase₃).trans herase₄).trans herase₅
    exact herase.congr fun p => (ignored_iff p).symm

theorem exists_normalize {doc : Json} (h : Readable doc) : ∃ n, normalize doc = some n := by
  obtain ⟨d₁, h₁⟩ := (@pop_isSome "users" doc).mpr h.isDict
  obtain ⟨dns, hdns, hdict⟩ := h.dns
  obtain ⟨dns₁, hdns₁⟩ := (@pop_isSome "upstream_dns" dns).mpr hdict
  obtain ⟨dns₂, hdns₂⟩ := (@pop_isSome "fallback_dns" dns₁).mpr (isDict_of_pop hdns₁).2
  have hitem₁ : d₁.item "dns" = some dns := by rw [item_pop h₁, if_neg (by decide), hdns]
  obtain ⟨d₂, h₂, -, hitem₂⟩ := exists_modify hitem₁ hdns₁
  obtain ⟨d₃, h₃, -, hitem₃⟩ := exists_modify (by rw [hitem₂, if_pos rfl]) hdns₂
  have hother : ∀ k, k ≠ "users" → k ≠ "dns" → d₃.item k = doc.item k := by
    intro k hu hd
    rw [hitem₃, if_neg hd, hitem₂, if_neg hd, item_pop h₁, if_neg hu]
  have hlist : ∀ key ∈ FILTER_LISTS, ∀ v : Json, v.item key = doc.item key →
      truthy (v.get key) = true →
        ∃ items, v.item key = some (.arr items) ∧ ∀ f ∈ items, f.isDict = true := by
    intro key hkey v hv ht
    rw [Json.get, hv] at ht
    rw [hv]
    exact h.filters key hkey ht
  obtain ⟨d₄, h₄⟩ := exists_stripFilters
    (hlist "filters" (by decide) d₃ (hother _ (by decide) (by decide)))
  obtain ⟨-, hitem₄, -⟩ := stripFilters_eq_some h₄
  obtain ⟨d₅, h₅⟩ := exists_stripFilters (hlist "whitelist_filters" (by decide) d₄
    (by rw [hitem₄ _ (by decide), hother _ (by decide) (by decide)]))
  refine ⟨d₅, ?_⟩
  simp only [normalize, Option.bind_eq_bind, Option.bind_eq_some_iff]
  exact ⟨d₁, h₁, d₂, h₂, d₃, h₃, d₄, h₄, h₅⟩

/-! ### What differs -/

theorem mem_sortedKeys {a b : Json} {k : String} :
    k ∈ sortedKeys a b ↔ k ∈ a.keys ∨ k ∈ b.keys := by
  rw [sortedKeys, List.mem_insertionSort, List.mem_dedup, List.mem_append]

theorem item_of_notMem_keys {v : Json} {k : String} (h : k ∉ v.keys) : v.item k = none := by
  cases v with
  | obj fields =>
    rw [item, Option.map_eq_none_iff, List.find?_eq_none]
    intro kv hkv hk
    exact h (List.mem_map.mpr ⟨kv, hkv, by simpa using hk⟩)
  | _ => rfl

/-- Nothing is reported of a key that neither has. -/
theorem mem_sortedKeys_of_ne {a b : Json} {k : String} (h : (a.get k).eqv (b.get k) = false) :
    k ∈ sortedKeys a b := by
  rw [mem_sortedKeys]
  by_contra hk
  obtain ⟨ha, hb⟩ := not_or.mp hk
  rw [Json.get, Json.get, item_of_notMem_keys ha, item_of_notMem_keys hb] at h
  cases h

/-- A missing key and null are the same but for the place itself. -/
theorem shapeAt_get (k : String) (v : Json) {p : Path} (hp : p ≠ []) :
    (v.get k).shapeAt p = (v.item k).bind (shapeAt p) := by
  rw [Json.get]
  cases v.item k with
  | some w => rfl
  | none =>
    obtain ⟨s, p, rfl⟩ := List.exists_cons_of_ne_nil hp
    cases s <;> rfl

theorem shape_get (k : String) (v : Json) :
    (v.get k).shape = ((v.item k).bind (shapeAt [])).getD .null := by
  rw [Json.get]
  cases v.item k <;> rfl

/-- What is compared of the value of a key at the top. -/
def seenAt : Path → Json → Option Shape
  | [], v => some v.shape
  | [.key k], v => some (v.get k).shape
  | p, v => v.shapeAt p

theorem seen_cons (k : String) (p : Path) (v : Json) :
    seen (.key k :: p) v = seenAt p (v.get k) := by
  have hlong : ∀ {q : Path}, q ≠ [] → v.shapeAt (.key k :: q) = (v.get k).shapeAt q := fun hq =>
    (shapeAt_get k v hq).symm
  cases p with
  | nil => exact congrArg some (shape_get k v).symm
  | cons s p =>
    cases s with
    | index i => exact hlong (by simp)
    | key k' =>
      cases p with
      | nil =>
        show some ((v.shapeAt [.key k, .key k']).getD .null) = some ((v.get k).get k').shape
        rw [hlong (by simp), shape_get k' (v.get k)]
        rfl
      | cons s p => exact hlong (by simp)

@[simp] theorem seenAt_cons_cons (s s' : Step) (p : Path) (v : Json) :
    seenAt (s :: s' :: p) v = v.shapeAt (s :: s' :: p) := by
  cases s <;> rfl

/-- The same is seen of values that are the same. -/
theorem seenAt_eq_of_shapeAt {x y : Json} (h : ∀ p, x.shapeAt p = y.shapeAt p) (p : Path) :
    seenAt p x = seenAt p y := by
  match p with
  | [] => exact h []
  | [.index i] => exact h [.index i]
  | [.key k] =>
    have hk : (x.item k).bind (shapeAt []) = (y.item k).bind (shapeAt []) := h [.key k]
    exact congrArg some (by rw [shape_get, shape_get, hk])
  | s :: s' :: p => simpa only [seenAt_cons_cons] using h (s :: s' :: p)

/-- The same is seen of dictionaries whose values are the same, where a missing one is null. -/
theorem seenAt_eq_of_get {x y : Json} (hx : x.isDict = true) (hy : y.isDict = true)
    (h : ∀ k p, (x.get k).shapeAt p = (y.get k).shapeAt p) (p : Path) :
    seenAt p x = seenAt p y := by
  obtain ⟨xs, rfl⟩ := isDict_iff.mp hx
  obtain ⟨ys, rfl⟩ := isDict_iff.mp hy
  match p with
  | [] => rfl
  | [.index i] => rfl
  | [.key k] => exact h k []
  | .index i :: s' :: p => rfl
  | .key k :: s' :: p =>
    have hk := h k (s' :: p)
    rwa [shapeAt_get _ _ (by simp), shapeAt_get _ _ (by simp)] at hk

theorem get_eq_of_seenAt {x y : Json} (h : ∀ p, seenAt p x = seenAt p y) (k : String) (p : Path) :
    (x.get k).shapeAt p = (y.get k).shapeAt p := by
  cases p with
  | nil => exact h [.key k]
  | cons s p =>
    have hk := h (.key k :: s :: p)
    rw [seenAt_cons_cons, seenAt_cons_cons] at hk
    rw [shapeAt_get _ _ (by simp), shapeAt_get _ _ (by simp)]
    exact hk

/-- Without keys there is no place that only null stands for. -/
theorem shapeAt_eq_of_seenAt {x y : Json} (hx : x.isDict = false) (hy : y.isDict = false)
    (h : ∀ p, seenAt p x = seenAt p y) (p : Path) : x.shapeAt p = y.shapeAt p := by
  have hitem : ∀ {v : Json}, v.isDict = false → ∀ k, v.item k = none := by
    intro v hv k
    cases v with
    | obj fields => cases hv
    | _ => rfl
  match p with
  | [] => exact h []
  | [.index i] => exact h [.index i]
  | [.key k] => simp [child, hitem hx, hitem hy]
  | s :: s' :: p => simpa only [seenAt_cons_cons] using h (s :: s' :: p)

/-- `diff_keys` reports nothing of two values exactly if the same is seen of them. -/
theorem eqv_or_iff (x y : Json) :
    (x.eqv y = true ∨ x.isDict = true ∧ y.isDict = true ∧ ∀ s, (x.get s).eqv (y.get s) = true) ↔
      ∀ p, seenAt p x = seenAt p y := by
  simp only [eqv_iff]
  constructor
  · rintro (h | ⟨hx, hy, h⟩)
    · exact seenAt_eq_of_shapeAt h
    · exact seenAt_eq_of_get hx hy h
  · intro h
    have hdict : x.isDict = y.isDict := by
      have hshape : x.shape = y.shape := Option.some.inj (h [])
      rw [Bool.eq_iff_iff, ← shape_eq_map, ← shape_eq_map, hshape]
    cases hx : x.isDict with
    | true => exact Or.inr ⟨rfl, hdict ▸ hx, get_eq_of_seenAt h⟩
    | false => exact Or.inl (shapeAt_eq_of_seenAt hx (hdict ▸ hx) h)

theorem diffKey_eq_nil_iff (na nb : Json) (k : String) :
    diffKey na nb k = [] ↔ ∀ p, seen (.key k :: p) na = seen (.key k :: p) nb := by
  simp only [seen_cons]
  rw [← eqv_or_iff, diffKey]
  by_cases heq : (na.get k).eqv (nb.get k) = true
  · simp [heq]
  rw [if_neg heq]
  by_cases hdict : ((na.get k).isDict && (nb.get k).isDict) = true
  · obtain ⟨ha, hb⟩ : (na.get k).isDict = true ∧ (nb.get k).isDict = true := by simpa using hdict
    rw [if_pos hdict, List.map_eq_nil_iff, List.filter_eq_nil_iff]
    constructor
    · intro h
      refine Or.inr ⟨ha, hb, fun s => ?_⟩
      by_contra hs
      rw [Bool.not_eq_true] at hs
      exact h s (mem_sortedKeys_of_ne hs) (by simp [hs])
    · intro h s _
      obtain ⟨-, -, hs⟩ := h.resolve_left heq
      simp [hs s]
  · rw [if_neg hdict]
    refine iff_of_false (List.cons_ne_nil _ _) ?_
    rintro (h | ⟨ha, hb, -⟩)
    · exact heq h
    · exact hdict (by rw [ha, hb]; rfl)

theorem diffKeys_eq_nil_iff_forall {a b na nb : Json} (ha : normalize a = some na)
    (hb : normalize b = some nb) : diffKeys a b = some [] ↔ ∀ k, diffKey na nb k = [] := by
  simp only [diffKeys, ha, hb, Option.bind_eq_bind, Option.bind_some, Option.pure_def,
    Option.some.injEq, List.flatMap_eq_nil_iff]
  refine ⟨fun h k => ?_, fun h k _ => h k⟩
  by_cases heq : (na.get k).eqv (nb.get k) = true
  · rw [diffKey, if_pos heq]
  · exact h k (mem_sortedKeys_of_ne (by simpa using heq))

/-- What is not ignored is seen as before, … -/
theorem seen_of_kept {v w : Json} {p : Path} (h : Erases Ignored v w) (hp : ¬ Ignored p) :
    seen p w = seen p v := by
  rw [seen, seen, (h p).2 hp]

/-- … and what is ignored is not seen. -/
theorem seen_of_ignored {v w : Json} {p : Path} (h : Erases Ignored v w) (hp : Ignored p) :
    seen p w = if shallow p then some .null else none := by
  rw [seen, (h p).1 hp]
  rfl

/-- `diff_keys` reports nothing exactly if the same is seen of all that is not ignored. -/
theorem diffKeys_eq_nil_iff_seen {a b na nb : Json} (ha : normalize a = some na)
    (hb : normalize b = some nb) :
    diffKeys a b = some [] ↔ ∀ p, ¬ Ignored p → seen p a = seen p b := by
  obtain ⟨hra, hda, hea⟩ := normalize_eq_some ha
  obtain ⟨hrb, hdb, heb⟩ := normalize_eq_some hb
  rw [diffKeys_eq_nil_iff_forall ha hb]
  constructor
  · intro h p hp
    rw [← seen_of_kept hea hp, ← seen_of_kept heb hp]
    obtain ⟨fa, rfl⟩ := isDict_iff.mp hda
    obtain ⟨fb, rfl⟩ := isDict_iff.mp hdb
    match p with
    | [] => rfl
    | .index i :: p => rfl
    | .key k :: p => exact (diffKey_eq_nil_iff _ _ k).mp (h k) p
  · intro h k
    rw [diffKey_eq_nil_iff]
    intro p
    by_cases hp : Ignored (.key k :: p)
    · rw [seen_of_ignored hea hp, seen_of_ignored heb hp]
    · rw [seen_of_kept hea hp, seen_of_kept heb hp, h _ hp]

/-- **`diff_keys` reports nothing exactly if the configurations are in sync.** -/
theorem diffKeys_eq_nil_iff (a b : Json) : diffKeys a b = some [] ↔ InSync a b := by
  constructor
  · intro h
    have hsome := h
    simp only [diffKeys, Option.bind_eq_bind, Option.bind_eq_some_iff] at hsome
    obtain ⟨na, ha, nb, hb, -⟩ := hsome
    exact ⟨(normalize_eq_some ha).1, (normalize_eq_some hb).1,
      (diffKeys_eq_nil_iff_seen ha hb).mp h⟩
  · intro h
    obtain ⟨na, ha⟩ := exists_normalize h.left
    obtain ⟨nb, hb⟩ := exists_normalize h.right
    exact (diffKeys_eq_nil_iff_seen ha hb).mpr h.same

/-! ### The runs -/

theorem orRaise_eq_ok {α : Type} {x : Option α} {a : α} : orRaise x = .ok a ↔ x = some a := by
  cases x <;> simp [orRaise]

theorem bind_eq_ok {α β : Type} {x : Except Failure α} {f : α → Except Failure β} {b : β} :
    x.bind f = .ok b ↔ ∃ a, x = .ok a ∧ f a = .ok b := by
  cases x <;> simp [Except.bind]

theorem map_eq_ok {α β : Type} {x : Except Failure α} {f : α → β} {b : β} :
    x.map f = .ok b ↔ ∃ a, x = .ok a ∧ f a = b := by
  cases x <;> simp [Except.map]

theorem compareLive_eq_ok {O : Outside} {env : String → Option String} {prod replica : Json}
    {diffs : List String} :
    compareLive O env = .ok (prod, replica, diffs) ↔
      O.prod.load = .ok prod ∧ buildReplica prod env = some replica ∧
        ∃ live, O.live.loadLive = .ok live ∧ diffKeys replica live = some diffs := by
  simp only [compareLive, bind, pure, Except.pure, bind_eq_ok, orRaise_eq_ok, Except.ok.injEq,
    Prod.mk.injEq]
  constructor
  · rintro ⟨_, hprod, _, hreplica, live, hlive, _, hdiffs, rfl, rfl, rfl⟩
    exact ⟨hprod, hreplica, live, hlive, hdiffs⟩
  · rintro ⟨hprod, hreplica, live, hlive, hdiffs⟩
    exact ⟨prod, hprod, replica, hreplica, live, hlive, diffs, hdiffs, rfl, rfl, rfl⟩

theorem push_eq_ok {O : Outside} {prod replica : Json} {text : String} :
    push O prod replica = .ok text ↔
      text = PUSHED ∧ O.pushes = true ∧ checkAnswers prod O.digAfter 12 = .ok () ∧
        ∃ live, O.liveAfter.load = .ok live ∧ InSync replica live := by
  rw [push]
  cases hpushes : O.pushes with
  | false => simp
  | true =>
    simp only [Bool.not_true, Bool.false_eq_true, if_false, bind, bind_eq_ok, orRaise_eq_ok]
    constructor
    · rintro ⟨⟨⟩, hanswers, live, hlive, left, hleft, hend⟩
      split at hend
      · cases hend
      · next hnil =>
        obtain rfl : left = [] := not_not.mp hnil
        exact ⟨(Except.ok.inj hend).symm, trivial, hanswers, live, hlive,
          (diffKeys_eq_nil_iff replica live).mp hleft⟩
    · rintro ⟨rfl, -, hanswers, live, hlive, hsync⟩
      exact ⟨(), hanswers, live, hlive, [], (diffKeys_eq_nil_iff replica live).mpr hsync, by simp⟩

/-- A run that gets to the decision has read both configurations. -/
theorem sync_of_compareLive {O : Outside} {dryRun force : Bool} {env : String → Option String}
    {prod replica live : Json} {diffs : List String} (hprod : O.prod.load = .ok prod)
    (hreplica : buildReplica prod env = some replica) (hlive : O.live.loadLive = .ok live)
    (hdiffs : diffKeys replica live = some diffs) :
    sync O dryRun force env =
      if diffs = [] ∧ force = false then
        ⟨(checkAnswers prod O.dig 2).map fun _ => some IN_SYNC, none⟩
      else if dryRun then ⟨.ok none, none⟩
      else ⟨(push O prod replica).map some, some replica⟩ := by
  rw [sync, compareLive_eq_ok.mpr ⟨hprod, hreplica, live, hlive, hdiffs⟩]

/-- A run that returns has got to the decision. -/
theorem exists_of_sync_ok {O : Outside} {dryRun force : Bool} {env : String → Option String}
    {text : Option String} (h : (sync O dryRun force env).result = .ok text) :
    ∃ prod replica live diffs, O.prod.load = .ok prod ∧ buildReplica prod env = some replica ∧
      O.live.loadLive = .ok live ∧ diffKeys replica live = some diffs := by
  cases hc : compareLive O env with
  | error e => simp [sync, hc] at h
  | ok t =>
    obtain ⟨prod, replica, diffs⟩ := t
    obtain ⟨hprod, hreplica, live, hlive, hdiffs⟩ := compareLive_eq_ok.mp hc
    exact ⟨prod, replica, live, diffs, hprod, hreplica, hlive, hdiffs⟩

theorem readable_of_diffKeys {a b : Json} {diffs : List String} (h : diffKeys a b = some diffs) :
    Readable a ∧ Readable b := by
  simp only [diffKeys, Option.bind_eq_bind, Option.bind_eq_some_iff] at h
  obtain ⟨na, ha, nb, hb, -⟩ := h
  exact ⟨(normalize_eq_some ha).1, (normalize_eq_some hb).1⟩

theorem exists_diffKeys {a b : Json} (ha : Readable a) (hb : Readable b) :
    ∃ diffs, diffKeys a b = some diffs := by
  obtain ⟨na, hna⟩ := exists_normalize ha
  obtain ⟨nb, hnb⟩ := exists_normalize hb
  exact ⟨_, by rw [diffKeys, hna, hnb]; rfl⟩

/-- When a run reports the replica in sync. -/
theorem sync_eq_inSync {O : Outside} {dryRun force : Bool} {env : String → Option String} :
    (sync O dryRun force env).result = .ok (some IN_SYNC) ↔
      (sync O dryRun force env).pushed = none ∧ force = false ∧
        ∃ prod replica live, O.prod.load = .ok prod ∧ buildReplica prod env = some replica ∧
          O.live.loadLive = .ok live ∧ InSync replica live ∧
            checkAnswers prod O.dig 2 = .ok () := by
  constructor
  · intro h
    obtain ⟨prod, replica, live, diffs, hprod, hreplica, hlive, hdiffs⟩ := exists_of_sync_ok h
    rw [sync_of_compareLive hprod hreplica hlive hdiffs] at h ⊢
    by_cases hnil : diffs = [] ∧ force = false
    · rw [if_pos hnil] at h ⊢
      obtain ⟨⟨⟩, hanswers, -⟩ := map_eq_ok.mp h
      obtain ⟨rfl, hforce⟩ := hnil
      exact ⟨rfl, hforce, prod, replica, live, hprod, hreplica, hlive,
        (diffKeys_eq_nil_iff replica live).mp hdiffs, hanswers⟩
    · rw [if_neg hnil] at h
      split at h
      · simp at h
      · -- the text after a push is another
        obtain ⟨text, htext, hsome⟩ := map_eq_ok.mp h
        obtain rfl := (push_eq_ok.mp htext).1
        exact absurd (Option.some.inj hsome) (by decide)
  · rintro ⟨-, hforce, prod, replica, live, hprod, hreplica, hlive, hsync, hanswers⟩
    have hdiffs := (diffKeys_eq_nil_iff replica live).mpr hsync
    rw [sync_of_compareLive hprod hreplica hlive hdiffs, if_pos ⟨rfl, hforce⟩, hanswers]
    rfl

/-- When a run reports a push as verified. -/
theorem sync_eq_pushed {O : Outside} {dryRun force : Bool} {env : String → Option String} :
    (sync O dryRun force env).result = .ok (some PUSHED) ↔
      ∃ prod replica live liveAfter, O.prod.load = .ok prod ∧
        buildReplica prod env = some replica ∧ O.live.loadLive = .ok live ∧
          Readable replica ∧ Readable live ∧ (InSync replica live → force = true) ∧
            (sync O dryRun force env).pushed = some replica ∧ dryRun = false ∧
              O.pushes = true ∧ checkAnswers prod O.digAfter 12 = .ok () ∧
                O.liveAfter.load = .ok liveAfter ∧ InSync replica liveAfter := by
  constructor
  · intro h
    obtain ⟨prod, replica, live, diffs, hprod, hreplica, hlive, hdiffs⟩ := exists_of_sync_ok h
    obtain ⟨hra, hrb⟩ := readable_of_diffKeys hdiffs
    rw [sync_of_compareLive hprod hreplica hlive hdiffs] at h ⊢
    by_cases hnil : diffs = [] ∧ force = false
    · rw [if_pos hnil] at h
      obtain ⟨_, _, hsome⟩ := map_eq_ok.mp h
      exact absurd (Option.some.inj hsome) (by decide)
    · rw [if_neg hnil] at h ⊢
      cases dryRun with
      | true => simp at h
      | false =>
        obtain ⟨text, htext, hsome⟩ := map_eq_ok.mp h
        obtain ⟨-, hpushes, hanswers, liveAfter, hafter, hsync⟩ := push_eq_ok.mp htext
        refine ⟨prod, replica, live, liveAfter, hprod, hreplica, hlive, hra, hrb, ?_, rfl, rfl,
          hpushes, hanswers, hafter, hsync⟩
        intro hbefore
        rw [(diffKeys_eq_nil_iff replica live).mpr hbefore] at hdiffs
        simpa [← Option.some.inj hdiffs] using hnil
  · rintro ⟨prod, replica, live, liveAfter, hprod, hreplica, hlive, hra, hrb, hforce, -, rfl,
      hpushes, hanswers, hafter, hsync⟩
    obtain ⟨diffs, hdiffs⟩ := exists_diffKeys hra hrb
    have hnil : ¬ (diffs = [] ∧ force = false) := by
      rintro ⟨rfl, hf⟩
      rw [hforce ((diffKeys_eq_nil_iff replica live).mp hdiffs)] at hf
      cases hf
    have hpush : push O prod replica = .ok PUSHED :=
      push_eq_ok.mpr ⟨rfl, hpushes, hanswers, liveAfter, hafter, hsync⟩
    rw [sync_of_compareLive hprod hreplica hlive hdiffs, if_neg hnil, if_neg (by simp), hpush]
    rfl

/-- **Before a push and after it, the same comparison decides: what is reported as in sync or as
verified is the same as the replica as far as it is compared.** -/
theorem sync_inSync_pushed_iff (O : Outside) (dryRun force : Bool) (env : String → Option String) :
    (∀ replica live, diffKeys replica live = some [] ↔ InSync replica live) ∧
    ((sync O dryRun force env).result = .ok (some IN_SYNC) ↔
      (sync O dryRun force env).pushed = none ∧ force = false ∧
        ∃ prod replica live, O.prod.load = .ok prod ∧ buildReplica prod env = some replica ∧
          O.live.loadLive = .ok live ∧ InSync replica live ∧
            checkAnswers prod O.dig 2 = .ok ()) ∧
    ((sync O dryRun force env).result = .ok (some PUSHED) ↔
      ∃ prod replica live liveAfter, O.prod.load = .ok prod ∧
        buildReplica prod env = some replica ∧ O.live.loadLive = .ok live ∧
          Readable replica ∧ Readable live ∧ (InSync replica live → force = true) ∧
            (sync O dryRun force env).pushed = some replica ∧ dryRun = false ∧
              O.pushes = true ∧ checkAnswers prod O.digAfter 12 = .ok () ∧
                O.liveAfter.load = .ok liveAfter ∧ InSync replica liveAfter) :=
  ⟨diffKeys_eq_nil_iff, sync_eq_inSync, sync_eq_pushed⟩

/-! ### What drifts without notice -/

/-- **What the replica has of its own is not compared, and the rest of it is production's.** -/
theorem buildReplica_eq_some {prod r : Json} {env : String → Option String}
    (h : buildReplica prod env = some r) {p : Path} (hp : ¬ Ignored p) :
    r.shapeAt p = prod.shapeAt p := by
  simp only [buildReplica, Option.bind_eq_bind, Option.bind_eq_some_iff] at h
  obtain ⟨user, -, password, -, d₁, h₁, d₂, h₂, h₃⟩ := h
  obtain ⟨hprod, -, hitem₁⟩ := item_setItem h₁
  obtain ⟨dns, dns₁, hdns, hset₁, -, -, hitem₂⟩ := item_modify h₂
  obtain ⟨dns₁', dns₂, hdns₁, hset₂, -, hr, hitem₃⟩ := item_modify h₃
  obtain rfl : dns₁ = dns₁' := by simpa [hitem₂] using hdns₁
  obtain ⟨hdict, -, hserver₁⟩ := item_setItem hset₁
  obtain ⟨-, hdict₂, hserver₂⟩ := item_setItem hset₂
  rw [hitem₁, if_neg (by decide)] at hdns
  obtain ⟨fields, rfl⟩ := isDict_iff.mp hprod
  obtain ⟨fields', rfl⟩ := isDict_iff.mp hr
  rcases p with _ | ⟨k | i, p⟩
  · rfl
  · simp only [shapeAt_cons, child]
    by_cases hu : k = "users"
    · exact absurd (hu ▸ Ignored.users p) hp
    by_cases hd : k = "dns"
    · subst hd
      rw [hitem₃, if_pos rfl, hdns]
      obtain ⟨servers, rfl⟩ := isDict_iff.mp hdict
      obtain ⟨servers', rfl⟩ := isDict_iff.mp hdict₂
      rcases p with _ | ⟨s | i, p⟩
      · rfl
      · have hup : s ≠ "upstream_dns" := fun hs => hp (.dns (Or.inl hs) p)
        have hfall : s ≠ "fallback_dns" := fun hs => hp (.dns (Or.inr hs) p)
        simp only [Option.bind_some, shapeAt_cons, child]
        rw [hserver₂, if_neg hfall, hserver₁, if_neg hup]
      · rfl
    · rw [hitem₃, if_neg hd, hitem₂, if_neg hd, hitem₁, if_neg hu]
  · rfl

/-- What should be left out: the users, and two fields of a filter. -/
inductive Exempt : Path → Prop
  | users (p : Path) : Exempt (.key "users" :: p)
  | filter {key k : String} (hkey : key ∈ FILTER_LISTS)
      (hk : k = "last_updated" ∨ k = "rules_count") (i : ℕ) (p : Path) :
      Exempt (.key key :: .index i :: .key k :: p)

theorem Exempt.head {p : Path} (h : Exempt p) :
    p.head? ∈ ("users" :: FILTER_LISTS).map fun k => some (.key k) := by
  cases h with
  | users p => simp
  | filter hkey hk i p => exact List.mem_map_of_mem (List.mem_cons_of_mem _ hkey)

theorem Ignored.head {p : Path} (h : Ignored p) :
    p.head? ∈ ("users" :: "dns" :: FILTER_LISTS).map fun k => some (.key k) := by
  cases h with
  | users p => simp
  | dns hk p => simp
  | filter hkey hk i p =>
    exact List.mem_map_of_mem (List.mem_cons_of_mem _ (List.mem_cons_of_mem _ hkey))

/-- A configuration with users, servers and other keys. -/
def exampleConfig (users : Json) (upstream fallback : List String) (rest : List (String × Json)) :
    Json :=
  .obj ([("users", users), ("dns", .obj [("upstream_dns", servers upstream),
    ("fallback_dns", servers fallback), ("ratelimit", .num 20)])] ++ rest)

def exampleEnv (name : String) : Option String :=
  if name = "ADGUARD_X51_USER" then some "admin"
  else if name = "ADGUARD_X51_PASSWORD_BCRYPT" then some "$2a$10$hash"
  else none

/-- The users of the replica. -/
def exampleUsers : Json := .arr [.obj [("name", .str "admin"), ("password", .str "$2a$10$hash")]]

/-- A replica that asks other servers is in sync, and so is one without a key that is null. -/
theorem diffKeys_eq_nil_of_drift :
    (¬ ∀ prod env replica live, buildReplica prod env = some replica →
      (diffKeys replica live = some [] ↔
        ∀ p, ¬ Exempt p → replica.shapeAt p = live.shapeAt p)) ∧
    ¬ ∀ prod env replica live, buildReplica prod env = some replica →
      (diffKeys replica live = some [] ↔
        ∀ p, ¬ Ignored p → replica.shapeAt p = live.shapeAt p) := by
  constructor
  · intro h
    have hsame := (h (exampleConfig (.arr []) ["tls://dns.quad9.net"] [] []) exampleEnv
      (exampleConfig exampleUsers X51_UPSTREAM X51_FALLBACK [])
      (exampleConfig exampleUsers ["8.8.8.8"] [] []) rfl).mp (by decide)
      [.key "dns", .key "upstream_dns", .index 0] (fun hp => absurd hp.head (by decide))
    exact absurd hsame (by decide)
  · intro h
    have hsame := (h (exampleConfig (.arr []) ["tls://dns.quad9.net"] [] [("user_rules", .null)])
      exampleEnv
      (exampleConfig exampleUsers X51_UPSTREAM X51_FALLBACK [("user_rules", .null)])
      (exampleConfig exampleUsers X51_UPSTREAM X51_FALLBACK []) rfl).mp (by decide)
      [.key "user_rules"] (fun hp => absurd hp.head (by decide))
    exact absurd hsame (by decide)

end Adguard
end MediaHub

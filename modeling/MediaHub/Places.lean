import MediaHub.Values
import Mathlib.Data.List.Basic

/-!
# The places of a value

A value is a tree: a place in it is reached by keys and positions, and there it is a number, a
text, a list and so on.  Two values are equal for the interpreter if they are the same at every
place: the order of the fields does not matter, and a truth value is a number.

## Main definitions

* `Path`, `Json.shapeAt` — places, and what is there.
* `Json.eqv` — `==`.
* `Json.pop`, `Json.modify` — changes of a `dict` in place.
* `Erases` — a value without some of its places.

## Main results

* `eqv_iff` — **values are equal exactly if they are the same at every place.**
* `erases_pop`, `erases_modify`, `erases_arr`, `Erases.trans` — what changes in place erase.
-/

namespace MediaHub

/-- A key of a `dict`, or a position in a list. -/
inductive Step where
  | key (k : String)
  | index (i : ℕ)
  deriving DecidableEq, Repr

/-- The way to a place. -/
abbrev Path := List Step

/-- What a value is without what it contains. -/
inductive Shape where
  | null
  | num (q : ℚ)
  | str (s : String)
  | seq
  | map
  deriving DecidableEq

namespace Json

/-! ### Places -/

def shape : Json → Shape
  | .null => .null
  | .bool b => .num (if b then 1 else 0)
  | .num q => .num q
  | .str s => .str s
  | .arr _ => .seq
  | .obj _ => .map

/-- What is one step away. -/
def child : Step → Json → Option Json
  | .key k, v => v.item k
  | .index i, .arr items => items[i]?
  | .index _, _ => none

/-- What is at a place, if there is such a place. -/
def shapeAt : Path → Json → Option Shape
  | [], v => some v.shape
  | s :: p, v => (v.child s).bind (shapeAt p)

mutual

/-- The places of a value. -/
def places : Json → List Path
  | .arr items => [] :: placesItems 0 items
  | .obj fields => [] :: placesFields fields
  | _ => [[]]

/-- The places in a list, from a position on. -/
def placesItems : ℕ → List Json → List Path
  | _, [] => []
  | i, v :: items => (places v).map (.index i :: ·) ++ placesItems (i + 1) items

/-- The places in a `dict`. -/
def placesFields : List (String × Json) → List Path
  | [] => []
  | (k, v) :: fields => (places v).map (.key k :: ·) ++ placesFields fields

end

/-- `a == b`. -/
def eqv (a b : Json) : Bool := (a.places ++ b.places).all fun p => a.shapeAt p = b.shapeAt p

@[simp] theorem shapeAt_nil (v : Json) : v.shapeAt [] = some v.shape := rfl

@[simp] theorem shapeAt_cons (s : Step) (p : Path) (v : Json) :
    v.shapeAt (s :: p) = (v.child s).bind (shapeAt p) := rfl

theorem nil_mem_places (v : Json) : [] ∈ v.places := by
  cases v <;> simp [places]

theorem mem_placesItems {items : List Json} {i : ℕ} {v : Json} (h : items[i]? = some v) {p : Path}
    (hp : p ∈ v.places) (n : ℕ) : .index (n + i) :: p ∈ placesItems n items := by
  induction items generalizing i n with
  | nil => simp at h
  | cons w items ih =>
    rw [placesItems]
    cases i with
    | zero =>
      obtain rfl : w = v := by simpa using h
      exact List.mem_append_left _ (List.mem_map_of_mem hp)
    | succ i =>
      have hrest := ih (i := i) (by simpa using h) (n + 1)
      rw [show n + 1 + i = n + (i + 1) by omega] at hrest
      exact List.mem_append_right _ hrest

theorem mem_placesFields {fields : List (String × Json)} {k : String} {v : Json}
    (h : (k, v) ∈ fields) {p : Path} (hp : p ∈ v.places) : .key k :: p ∈ placesFields fields := by
  induction fields with
  | nil => cases h
  | cons f fields ih =>
    obtain ⟨k', w⟩ := f
    rw [placesFields]
    rcases List.mem_cons.mp h with h | h
    · obtain ⟨rfl, rfl⟩ := Prod.mk.inj h
      exact List.mem_append_left _ (List.mem_map_of_mem hp)
    · exact List.mem_append_right _ (ih h)

/-- Where there is something, there is a place. -/
theorem mem_places {p : Path} {v : Json} {s : Shape} (h : v.shapeAt p = some s) : p ∈ v.places := by
  induction p generalizing v with
  | nil => exact nil_mem_places v
  | cons st p ih =>
    rw [shapeAt_cons, Option.bind_eq_some_iff] at h
    obtain ⟨w, hw, hs⟩ := h
    have hp := ih hs
    cases st with
    | key k =>
      cases v with
      | obj fields =>
        obtain ⟨f, hf, rfl⟩ : ∃ f, fields.find? (·.1 = k) = some f ∧ f.2 = w := by
          simpa [child, item] using hw
        obtain rfl : f.1 = k := by simpa using List.find?_some hf
        rw [places]
        exact List.mem_cons_of_mem _ (mem_placesFields (List.mem_of_find?_eq_some hf) hp)
      | _ => simp [child, item] at hw
    | index i =>
      cases v with
      | arr items =>
        rw [places]
        have hrest := mem_placesItems (n := 0) (by simpa [child] using hw) hp
        rw [Nat.zero_add] at hrest
        exact List.mem_cons_of_mem _ hrest
      | _ => simp [child] at hw

/-- **Values are equal exactly if they are the same at every place.** -/
theorem eqv_iff {a b : Json} : a.eqv b = true ↔ ∀ p, a.shapeAt p = b.shapeAt p := by
  constructor
  · intro h p
    have hall : ∀ q ∈ a.places ++ b.places, a.shapeAt q = b.shapeAt q := by
      simpa only [eqv, List.all_eq_true, decide_eq_true_eq] using h
    -- a place that neither has is no difference
    cases ha : a.shapeAt p with
    | some s => rw [← ha, hall p (List.mem_append_left _ (mem_places ha))]
    | none =>
      cases hb : b.shapeAt p with
      | some s => rw [← ha, hall p (List.mem_append_right _ (mem_places hb)), hb]
      | none => rfl
  · intro h
    simp [eqv, h]

/-! ### Changes in place -/

/-- `value.get(key)`. -/
def get (key : String) (v : Json) : Json := (v.item key).getD .null

/-- `isinstance(value, dict)`. -/
def isDict : Json → Bool
  | .obj _ => true
  | _ => false

/-- The keys of a `dict`. -/
def keys : Json → List String
  | .obj fields => fields.map (·.1)
  | _ => []

/-- `value.pop(key, None)`, where it does not raise. -/
def pop (key : String) : Json → Option Json
  | .obj fields => some (.obj (fields.filter (·.1 ≠ key)))
  | _ => none

/-- A change of `value[key]` in place, where there is such a key. -/
def modify (key : String) (f : Json → Option Json) : Json → Option Json
  | .obj fields => do
    let v ← (Json.obj fields).item key
    let w ← f v
    return .obj (fields.map fun kv => if kv.1 = key then (key, w) else kv)
  | _ => none

/-- `value[key] = new`. -/
def setItem (v : Json) (key : String) (new : Json) : Option Json :=
  match v with
  | .obj fields =>
    some (.obj (if fields.any (·.1 = key) then
      fields.map fun kv => if kv.1 = key then (key, new) else kv
    else fields ++ [(key, new)]))
  | _ => none

theorem isDict_iff {v : Json} : v.isDict = true ↔ ∃ fields, v = .obj fields := by
  cases v <;> simp [isDict]

theorem shape_eq_map {v : Json} : v.shape = .map ↔ v.isDict = true := by
  cases v <;> simp [shape, isDict]

theorem item_pop {key : String} {v w : Json} (h : v.pop key = some w) (k : String) :
    w.item k = if k = key then none else v.item k := by
  cases v with
  | obj fields =>
    obtain rfl : Json.obj (fields.filter (·.1 ≠ key)) = w := Option.some.inj h
    rw [item, item, List.find?_filter]
    split
    · next hk =>
      subst hk
      simp
    · next hk =>
      refine congrArg (Option.map Prod.snd) (congrArg (List.find? · fields) (funext fun kv => ?_))
      by_cases hkv : kv.1 = k <;> simp [hkv, hk]
  | _ => cases h

theorem isDict_of_pop {key : String} {v w : Json} (h : v.pop key = some w) :
    v.isDict = true ∧ w.isDict = true := by
  cases v <;> simp_all [pop, isDict]
  subst h
  rfl

theorem pop_isSome {key : String} {v : Json} : (∃ w, v.pop key = some w) ↔ v.isDict = true := by
  cases v <;> simp [pop, isDict]

/-- Looking up a key where the value of one key is replaced. -/
theorem item_replace (key : String) (new : Json) (fields : List (String × Json)) (k : String) :
    (Json.obj (fields.map fun kv => if kv.1 = key then (key, new) else kv)).item k
      = if k = key then ((Json.obj fields).item key).map fun _ => new
        else (Json.obj fields).item k := by
  induction fields with
  | nil => simp [item]
  | cons kv fields ih =>
    simp only [item, List.map_cons, List.find?_cons] at ih ⊢
    by_cases hkv : kv.1 = key
    · by_cases hk : k = key
      · simp [hkv, hk]
      · have hk' : ¬ key = k := fun h => hk h.symm
        simpa [hkv, hk', hk] using ih
    · by_cases hk : kv.1 = k
      · have hne : ¬ k = key := fun h => hkv (hk.trans h)
        simp [hk, hne]
      · simpa [hkv, hk] using ih

/-- What a change of one value leaves of the others, and makes of the one. -/
theorem item_modify {key : String} {f : Json → Option Json} {v w : Json}
    (h : v.modify key f = some w) :
    ∃ x y, v.item key = some x ∧ f x = some y ∧ v.isDict = true ∧ w.isDict = true ∧
      ∀ k, w.item k = if k = key then some y else v.item k := by
  cases v with
  | obj fields =>
    simp only [modify, Option.bind_eq_bind, Option.bind_eq_some_iff, Option.pure_def,
      Option.some.injEq] at h
    obtain ⟨x, hx, y, hy, rfl⟩ := h
    refine ⟨x, y, hx, hy, rfl, rfl, fun k => ?_⟩
    rw [item_replace, hx]
    rfl
  | _ => cases h

/-- A change of one value that does not raise. -/
theorem exists_modify {key : String} {f : Json → Option Json} {v x y : Json}
    (hx : v.item key = some x) (hy : f x = some y) :
    ∃ w, v.modify key f = some w ∧ w.isDict = true ∧
      ∀ k, w.item k = if k = key then some y else v.item k := by
  cases v with
  | obj fields =>
    have hw : (Json.obj fields).modify key f
        = some (.obj (fields.map fun kv => if kv.1 = key then (key, y) else kv)) := by
      simp [modify, hx, hy]
    refine ⟨_, hw, rfl, fun k => ?_⟩
    rw [item_replace, hx]
    rfl
  | _ => simp [item] at hx

/-- What setting one key leaves of the others. -/
theorem item_setItem {key : String} {new v w : Json} (h : v.setItem key new = some w) :
    v.isDict = true ∧ w.isDict = true ∧
      ∀ k, w.item k = if k = key then some new else v.item k := by
  cases v with
  | obj fields =>
    obtain rfl := Option.some.inj h
    refine ⟨rfl, rfl, fun k => ?_⟩
    by_cases hany : fields.any (·.1 = key) = true
    · rw [if_pos hany, item_replace]
      obtain ⟨kv, hmem, hkv⟩ := List.any_eq_true.mp hany
      have hsome : ((Json.obj fields).item key).isSome = true := by
        rw [item, Option.isSome_map, List.find?_isSome]
        exact ⟨kv, hmem, hkv⟩
      obtain ⟨x, hx⟩ := Option.isSome_iff_exists.mp hsome
      rw [hx]
      rfl
    · rw [if_neg hany, item, item, List.find?_append]
      have hnone : fields.find? (·.1 = key) = none := by
        rw [List.find?_eq_none]
        intro kv hmem hkv
        exact hany (List.any_eq_true.mpr ⟨kv, hmem, hkv⟩)
      by_cases hk : k = key
      · subst hk
        simp [hnone]
      · have hk' : ¬ key = k := fun h => hk h.symm
        simp [hk, hk']
  | _ => cases h

/-! ### Places that are lost -/

/-- The second value is the first without the places of `I`. -/
def Erases (I : Path → Prop) (v w : Json) : Prop :=
  ∀ p, (I p → w.shapeAt p = none) ∧ (¬ I p → w.shapeAt p = v.shapeAt p)

theorem Erases.congr {I J : Path → Prop} {v w : Json} (h : Erases I v w) (hIJ : ∀ p, I p ↔ J p) :
    Erases J v w := fun p =>
  ⟨fun hp => (h p).1 ((hIJ p).mpr hp), fun hp => (h p).2 (mt (hIJ p).mp hp)⟩

theorem Erases.trans {I J : Path → Prop} {u v w : Json} (h : Erases I u v) (h' : Erases J v w) :
    Erases (fun p => I p ∨ J p) u w := by
  intro p
  constructor
  · intro hp
    by_cases hJ : J p
    · exact (h' p).1 hJ
    · rw [(h' p).2 hJ]
      exact (h p).1 (hp.resolve_right hJ)
  · intro hp
    obtain ⟨hI, hJ⟩ := not_or.mp hp
    rw [(h' p).2 hJ, (h p).2 hI]

/-- A key that is popped is lost with everything under it. -/
theorem erases_pop {key : String} {v w : Json} (h : v.pop key = some w) :
    Erases (fun p => ∃ q, p = .key key :: q) v w := by
  obtain ⟨hv, hw⟩ := isDict_of_pop h
  obtain ⟨fields, rfl⟩ := isDict_iff.mp hv
  obtain ⟨fields', rfl⟩ := isDict_iff.mp hw
  intro p
  constructor
  · rintro ⟨q, rfl⟩
    simp [child, item_pop h]
  · intro hp
    cases p with
    | nil => rfl
    | cons s q =>
      cases s with
      | index i => rfl
      | key k =>
        have hk : k ≠ key := fun hk => hp ⟨q, by rw [hk]⟩
        simp [child, item_pop h, hk]

/-- What is lost of one value is lost under its key. -/
theorem erases_modify {I : Path → Prop} {key : String} {f : Json → Option Json}
    {v w : Json} (h : v.modify key f = some w)
    (hf : ∀ x y, v.item key = some x → f x = some y → Erases I x y) :
    Erases (fun p => ∃ q, p = .key key :: q ∧ I q) v w := by
  obtain ⟨x, y, hx, hy, hv, hw, hitem⟩ := item_modify h
  obtain ⟨fields, rfl⟩ := isDict_iff.mp hv
  obtain ⟨fields', rfl⟩ := isDict_iff.mp hw
  have herase := hf x y hx hy
  intro p
  constructor
  · rintro ⟨q, rfl, hq⟩
    simp only [shapeAt_cons, child, hitem, if_true, Option.bind_some]
    exact (herase q).1 hq
  · intro hp
    cases p with
    | nil => rfl
    | cons s q =>
      cases s with
      | index i => rfl
      | key k =>
        by_cases hk : k = key
        · subst hk
          have hq : ¬ I q := fun hq => hp ⟨q, rfl, hq⟩
          simp only [shapeAt_cons, child, hitem, if_true, hx, Option.bind_some]
          exact (herase q).2 hq
        · simp [child, hitem, hk]

/-- What is lost of every item of a list is lost under its position. -/
theorem erases_arr {I : Path → Prop} {items items' : List Json}
    (h : List.Forall₂ (Erases I) items items') :
    Erases (fun p => ∃ i q, p = .index i :: q ∧ I q) (.arr items) (.arr items') := by
  intro p
  cases p with
  | nil => exact ⟨by rintro ⟨i, q, ⟨⟩, -⟩, fun _ => rfl⟩
  | cons s q =>
    cases s with
    | key k => exact ⟨by rintro ⟨i, q, ⟨⟩, -⟩, fun _ => rfl⟩
    | index i =>
      have hitem : (I q → (items'[i]?).bind (shapeAt q) = none) ∧
          (¬ I q → (items'[i]?).bind (shapeAt q) = (items[i]?).bind (shapeAt q)) := by
        induction h generalizing i with
        | nil => exact ⟨fun _ => rfl, fun _ => rfl⟩
        | cons hab _ ih =>
          cases i with
          | zero => simpa using hab q
          | succ i => simpa using ih i
      constructor
      · rintro ⟨_, q', h, hq⟩
        obtain ⟨-, rfl⟩ := List.cons.inj h
        exact hitem.1 hq
      · intro hp
        exact hitem.2 fun hq => hp ⟨i, q, rfl, hq⟩

end Json
end MediaHub

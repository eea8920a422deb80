import Mathlib.Algebra.Order.Floor.Ring
import Mathlib.Data.Int.Log
import Mathlib.Data.Rat.Floor

/-!
# Values of the interpreter

What the scripts pass around besides their own records: JSON values, and numbers
rounded to decimals.

## Main definitions

* `Json` — what `json.loads` returns and `json.dumps` takes.
* `Json.item` — `value[key]`.
* `roundTo` — `round(x, digits)` on an exact decimal.
* `toDouble`, `floatSum` — a number as a `float`, and `sum` of such numbers.
* `parseInt` — `int(s)` on a text of digits.
-/

namespace MediaHub

/-- A JSON value.  The fields of an object are in the order of the text. -/
inductive Json where
  | null
  | bool (b : Bool)
  | num (q : ℚ)
  | str (s : String)
  | arr (items : List Json)
  | obj (fields : List (String × Json))

/-- `value[key]` for a text, where it does not raise.  An object is a `dict`, so its fields
have different keys. -/
def Json.item (key : String) : Json → Option Json
  | .obj fields => (fields.find? (·.1 = key)).map (·.2)
  | _ => none

/-- `round(x, digits)` on an exact decimal: halves go to the even neighbour. -/
def roundTo (digits : ℕ) (x : ℚ) : ℚ :=
  let n := ⌊x * 10 ^ digits⌋
  let rest := x * 10 ^ digits - n
  if rest < 1 / 2 then n / 10 ^ digits
  else if rest > 1 / 2 then (n + 1) / 10 ^ digits
  else if n % 2 = 0 then n / 10 ^ digits else (n + 1) / 10 ^ digits

/-- The `float` nearest to a number: 53 binary digits, halves to the even neighbour, and no
digit below `2 ^ -1074`.  Numbers past the largest `float` do not occur here. -/
def toDouble (x : ℚ) : ℚ :=
  let e := max (Int.log 2 |x| - 52) (-1074)
  roundTo 0 (x / 2 ^ e) * 2 ^ e

/-- `sum(xs)` of `float`s, where each number stands for its `float`: from the left, with a
rounding after each addition.  (From Python 3.12 on `sum` makes up for the roundings; the
image of the transcriber has 3.10.) -/
def floatSum (xs : List ℚ) : ℚ :=
  xs.foldl (fun s x => toDouble (s + toDouble x)) 0

/-- `int(s)` on a text of digits, which is what `str` writes for a natural number.  Other
texts are taken for no number. -/
def parseInt (s : String) : Option ℕ :=
  if s.toList ≠ [] ∧ s.toList.all Char.isDigit then some (Nat.ofDigitChars 10 s.toList 0) else none

/-- `int` undoes `str`. -/
@[simp] theorem parseInt_toString (n : ℕ) : parseInt (toString n) = some n := by
  have hlist : (toString n).toList = Nat.toDigits 10 n := Nat.toList_repr
  have hdigits : (Nat.toDigits 10 n).all Char.isDigit = true :=
    List.all_eq_true.mpr fun _ hc => Nat.isDigit_of_mem_toDigits (by decide) (by decide) hc
  rw [parseInt, hlist, if_pos ⟨Nat.toDigits_ne_nil, hdigits⟩, Nat.ofDigitChars_ten_toDigits]

end MediaHub

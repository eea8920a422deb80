import MediaHub.Lib.Regex

/-!
# Patterns as the scripts write them

The classes of the `re` module, and what a pattern is put together from.  Which characters are
digits, and which belong to words, follows the character database of the interpreter, so these
classes are parameters; white space is the same in every version.

## Main definitions

* `isspace`, `CharClasses` — what `\s`, `\d` and `\w` match.
* `chr`, `oneOf`, `seqs`, `ignoreCase`, `opt`, `digits` — parts of patterns.
-/

namespace MediaHub
namespace Re

/-- A line, or a part of one. -/
abbrev Text := List Char

/-! ### Classes of characters -/

/-- The characters that `str.isspace` and `\s` accept. -/
def spaces : List Char :=
  ['\t', '\n', '\u000b', '\u000c', '\r', '\u001c', '\u001d', '\u001e', '\u001f', ' ', '\u0085',
    '\u00a0', '\u1680', '\u2000', '\u2001', '\u2002', '\u2003', '\u2004', '\u2005', '\u2006',
    '\u2007', '\u2008', '\u2009', '\u200a', '\u2028', '\u2029', '\u202f', '\u205f', '\u3000']

/-- What is checked for every member of a list. -/
theorem forall_mem_of_all {P : Char → Prop} [DecidablePred P] {l : List Char}
    (h : (l.all fun c => decide (P c)) = true) : ∀ c ∈ l, P c := by
  intro c hc
  exact of_decide_eq_true (List.all_eq_true.mp h c hc)

/-- `\s`. -/
def isspace (c : Char) : Bool := c ∈ spaces

/-- The letters beyond ASCII that are the same as one of ASCII without regard to case. -/
def variants : List Char := ['\u0130', '\u0131', '\u017f', '\u212a']

/-- The other classes of the `re` module, which follow the character database. -/
structure CharClasses where
  /-- `\d`. -/
  digit : Char → Bool
  /-- `\w`. -/
  word : Char → Bool
  /-- What a digit counts for in `int`. -/
  value : Char → ℕ
  digit_ascii : ∀ c : Char, c.toNat < 128 → digit c = c.isDigit
  digit_space : ∀ c ∈ spaces, digit c = false
  digit_variant : ∀ c ∈ variants, digit c = false
  value_ascii : ∀ c : Char, c.isDigit = true → value c = c.toNat - '0'.toNat

/-- The classes with the characters of ASCII only. -/
def CharClasses.ascii : CharClasses where
  digit := Char.isDigit
  word c := c.isAlphanum || c == '_'
  value c := c.toNat - '0'.toNat
  digit_ascii _ _ := rfl
  digit_space := forall_mem_of_all (by decide)
  digit_variant := forall_mem_of_all (by decide)
  value_ascii _ _ := rfl

/-- What a letter, or another character, stands for without regard to case. -/
def folds (c : Char) : List Char :=
  match c with
  | 'i' => ['i', 'I', '\u0130', '\u0131']
  | 'k' => ['k', 'K', '\u212a']
  | 's' => ['s', 'S', '\u017f']
  | c => [c, c.toUpper]

/-! ### Parts of patterns -/

/-- One character. -/
def chr (c : Char) : Regex Char := .cls (· == c)

/-- One of some characters. -/
def oneOf (cs : List Char) : Regex Char := .cls (· ∈ cs)

def seqs (rs : List (Regex Char)) : Regex Char := rs.foldr .seq .empty

/-- Some characters without regard to case. -/
def ignoreCase (cs : List Char) : Regex Char := seqs (cs.map fun c => oneOf (folds c))

/-- `(?:...)?`. -/
def opt (r : Regex Char) : Regex Char := .alt r .empty

/-- `\s*`. -/
def blanks : Regex Char := .many isspace 0 none

/-- `\d{n}`. -/
def digits (C : CharClasses) (n : ℕ) : Regex Char := .many C.digit n (some n)

end Re
end MediaHub

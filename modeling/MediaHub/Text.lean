/-!
# Text as the scripts see it

The scripts compare texts after a normalization that rests on the character
database of the interpreter: general categories, case mapping, white space,
compatibility normalization, bidirectional classes.  The database changes with
the version of the interpreter, and nothing here depends on its contents, so it
is a parameter.

## Main definitions

* `Unicodedata` — the character database.
* `Unicodedata.ascii` — a database that is right about ASCII texts.
* `strip`, `split` — `str.strip()` and `str.split()` without arguments.
-/

namespace MediaHub

/-- The first letter of a general category: letter, mark, number, punctuation,
symbol, separator, other. -/
inductive Category where
  | L | M | N | P | S | Z | C
  deriving DecidableEq, Repr

/-- The bidirectional classes the scripts tell apart. -/
inductive Bidirectional where
  | L | LRE | LRI | R | AL | RLE | RLI | other
  deriving DecidableEq, Repr

/-- The character database: `unicodedata` and the methods of `str` that read it. -/
structure Unicodedata where
  /-- The first letter of `unicodedata.category`. -/
  category : Char → Category
  /-- `unicodedata.bidirectional`. -/
  bidirectional : Char → Bidirectional
  /-- `str.isspace`. -/
  isspace : Char → Bool
  /-- `str.lower`. -/
  lower : String → String
  /-- `str.upper`. -/
  upper : String → String
  /-- `unicodedata.normalize("NFKC", ·)`. -/
  nfkc : String → String

namespace Unicodedata

/-- The ASCII characters of category `P`: all printing ones but letters, digits,
space and the symbols `$`, `+`, `<`, `=`, `>`, `^`, backquote, `|`, `~`. -/
def isAsciiPunctuation (c : Char) : Bool :=
  let n := c.toNat
  (0x21 ≤ n && n ≤ 0x2f && n != 0x24 && n != 0x2b) || n == 0x3a || n == 0x3b || n == 0x3f ||
    n == 0x40 || (0x5b ≤ n && n ≤ 0x5d) || n == 0x5f || n == 0x7b || n == 0x7d

/-- A database that agrees with the interpreter's on ASCII texts. -/
def ascii : Unicodedata where
  category c :=
    if c.isAlpha then .L
    else if c.isDigit then .N
    else if isAsciiPunctuation c then .P
    else if c.toNat = 0x20 then .Z
    else if c.toNat < 0x20 || c.toNat = 0x7f then .C
    else .S
  bidirectional c := if c.isAlpha then .L else .other
  isspace c := (0x09 ≤ c.toNat && c.toNat ≤ 0x0d) || (0x1c ≤ c.toNat && c.toNat ≤ 0x20)
  lower s := s.map Char.toLower
  upper s := s.map Char.toUpper
  nfkc s := s

end Unicodedata

variable (U : Unicodedata)

/-- `str.strip()`. -/
def strip (s : String) : String :=
  String.ofList ((s.toList.dropWhile U.isspace).reverse.dropWhile U.isspace).reverse

/-- `str.split()`: the maximal pieces without white space. -/
def split (s : String) : List String :=
  ((s.toList.splitOnP U.isspace).filter (· ≠ [])).map String.ofList

/-- The text without its punctuation. -/
def stripPunctuation (s : String) : String :=
  String.ofList (s.toList.filter fun ch => U.category ch ≠ .P)

end MediaHub

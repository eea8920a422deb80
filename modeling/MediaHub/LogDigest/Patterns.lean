import MediaHub.Re
import Mathlib.Data.List.DropRight

/-!
# The patterns of the log digest

`scripts/log-digest.py` makes every log line that it reports comparable, by patterns for
colours, time stamps, addresses and identifiers, and hides the credentials in it, by one
more.  The patterns are written here part by part as in the script; a case-insensitive letter
stands for all that the interpreter takes for it.

## Main definitions

* `secret`, `timestamp`, `ansi`, `leadTs`, `ip`, `uuid`, `hex`, `token` — the patterns.
* `redact`, `stripTime`, `normalize`, `sample` — what is made of a line.
-/

namespace MediaHub
namespace LogDigest

open Regex Re

/-! ### Parts of the patterns -/

/-- `["']`. -/
def isQuote (c : Char) : Bool := c == '"' || c == '\''

/-- `[=:]`. -/
def isSep (c : Char) : Bool := c == '=' || c == ':'

/-- `[^\s&"',}]`. -/
def runChar (c : Char) : Bool := !(isspace c || c ∈ ['&', '"', '\'', ',', '\u007d'])

/-- `["']?`. -/
def quote : Regex Char := .many isQuote 0 (some 1)

/-! ### The credentials -/

def apiKey : Regex Char :=
  .seq (ignoreCase "api".toList) (.seq (.many (· ∈ ['-', '_']) 0 (some 1))
    (ignoreCase "key".toList))

/-- `passw(?:or)?d`. -/
def password : Regex Char :=
  .seq (ignoreCase "passw".toList) (.seq (opt (ignoreCase "or".toList))
    (ignoreCase "d".toList))

def bearer : Regex Char := ignoreCase "bearer".toList

/-- The keys that are recognised. -/
def keyword : Regex Char :=
  .alt apiKey (.alt (ignoreCase "apikey".toList) (.alt (ignoreCase "x-plex-token".toList)
    (.alt (ignoreCase "token".toList) (.alt password (.alt (ignoreCase "passwd".toList)
      (.alt (ignoreCase "secret".toList) (.alt (ignoreCase "authorization".toList)
        (.alt bearer (.alt (ignoreCase "auth".toList) (ignoreCase "key".toList))))))))))

/-- What is between the key and the value: a quote, the separator, a quote, and white space. -/
def separation : Regex Char :=
  .seq quote (.seq blanks (.seq (.cls isSep) (.seq blanks quote)))

/-- `bearer\s+`. -/
def bearerBlanks : Regex Char := .seq bearer (.many isspace 1 none)

/-- `[^\s&"',}]{4,}`. -/
def value : Regex Char := .many runChar 4 none

/-- The group that is kept: all before the value. -/
def lead : Regex Char := .seq (.seq keyword separation) (opt bearerBlanks)

/-- `SECRET`. -/
def secret : Regex Char := .seq (.group lead) value

/-- What stands for a credential. -/
def hide : Text → List Text → Text := fun _ groups => groups.headD [] ++ "<redacted>".toList

/-- `redact`. -/
def redact (text : Text) : Text := secret.sub hide text

/-! ### The other patterns -/

/-- `ANSI`. -/
def ansi : Regex Char :=
  seqs [chr '\u001b', chr '[', .many (fun c => c.isDigit || c == ';') 0 none, chr 'm']

section

variable (C : CharClasses)

/-- `(?:\.\d+)?`. -/
def fraction : Regex Char := opt (seqs [chr '.', .many C.digit 1 none])

/-- `\d{2}:\d{2}`. -/
def clock : Regex Char := seqs [digits C 2, chr ':', digits C 2]

/-- A date and a time of day, with an offset if there is one. -/
def dateTime : Regex Char :=
  seqs [.many (· == '[') 0 (some 1), digits C 4, oneOf ['-', '/'], digits C 2, oneOf ['-', '/'],
    digits C 2, oneOf ['T', ' '], clock C, chr ':', digits C 2,
    opt (seqs [oneOf ['.', ','], .many C.digit 1 none]),
    opt (.alt (chr 'Z')
      (seqs [oneOf ['+', '-'], digits C 2, .many (· == ':') 0 (some 1), digits C 2])),
    .many (· == ']') 0 (some 1)]

/-- `TIMESTAMP`. -/
def timestamp : Regex Char :=
  .alt (dateTime C) (.alt
    (seqs [.boundary C.word, .many C.digit 1 (some 2), oneOf [':', '.'], clock C, fraction C,
      .boundary C.word])
    (seqs [.boundary C.word, .many C.digit 1 (some 2), chr '/', .many C.digit 1 (some 2),
      chr '/', .many C.digit 2 (some 4), .boundary C.word]))

/-- `LEAD_TS`. -/
def leadTs : Regex Char :=
  seqs [.start, blanks, .group (.alt (dateTime C) (.alt
    (seqs [.many C.word 3 (some 3), .many (· == ',') 0 (some 1), chr ' ', .many C.word 3 (some 3),
      chr ' ', .many C.digit 1 none, chr ' ', clock C, chr ':', digits C 2, fraction C])
    (seqs [clock C, chr ':', digits C 2, fraction C]))), blanks]

/-- The parts of an address behind the first. -/
def ipPart : Regex Char := seqs [chr '.', .many C.digit 1 (some 3)]

/-- `IP`, in a group as the script divides the text by it. -/
def ip : Regex Char :=
  .group (seqs [.boundary C.word, .many C.digit 1 (some 3), ipPart C, ipPart C, ipPart C,
    .boundary C.word])

/-- `[0-9a-f]` without regard to case. -/
def isHex (c : Char) : Bool := c.isDigit || ('a' ≤ c.toLower && c.toLower ≤ 'f')

/-- `UUID`. -/
def uuid : Regex Char :=
  seqs [.boundary C.word, .many isHex 8 (some 8), chr '-', .many isHex 4 (some 4), chr '-',
    .many isHex 4 (some 4), chr '-', .many isHex 4 (some 4), chr '-', .many isHex 12 (some 12),
    .boundary C.word]

/-- `HEX`. -/
def hex : Regex Char :=
  seqs [.boundary C.word, opt (seqs [chr '0', oneOf ['x', 'X']]), .many isHex 8 none,
    .boundary C.word]

/-- `TOKEN`. -/
def token : Regex Char :=
  seqs [.boundary C.word, .many C.digit 1 none,
    .group (.many (fun c => c.isAlpha || c == '%') 0 none), .boundary C.word]

/-! ### What is made of a line -/

/-- `UNITS`. -/
def units : List Text :=
  ["ms", "us", "ns", "s", "m", "h", "d", "b", "kb", "mb", "gb", "tb", "kib", "mib", "gib", "tib",
    "mbps", "kbps"].map String.toList

/-- `_num`: the digits that are part of a word are kept. -/
def num (text : Text) (groups : List Text) : Text :=
  let suffix := groups.headD []
  if suffix ≠ [] ∧ suffix.map Char.toLower ∉ units then text else 'N' :: suffix

def lstrip (s : Text) : Text := s.dropWhile isspace

def rstrip (s : Text) : Text := s.rdropWhile isspace

/-- `str.strip()`. -/
def strip (s : Text) : Text := rstrip (lstrip s)

/-- The line without its colours and the white space around it. -/
def clean (line : Text) : Text := strip (ansi.sub (fun _ _ => []) line)

/-- What stands for a time stamp. -/
def time : List Text → Text := fun _ => "<time>".toList

/-- `strip_time`. -/
def stripTime (line : Text) : Text :=
  redact ((timestamp C).sub (fun _ => time) (clean (line.filter (· != '\u0000'))))

/-- Without `^(<time>\s*)+`; every round takes a character at least. -/
def dropTimes : ℕ → Text → Text
  | 0, s => s
  | n + 1, s =>
    match (seqs [seqs ("<time>".toList.map chr), blanks]).first none s with
    | some m => dropTimes n (s.drop m.length)
    | none => s

/-- `normalize`. -/
def normalize (line : Text) : Text :=
  let s := (leadTs C).sub (fun _ _ => []) (stripTime C line)
  let s := dropTimes s.length s
  let s := (uuid C).sub (fun _ _ => "<id>".toList) s
  let s := (hex C).sub (fun _ _ => "<hex>".toList) s
  let parts := (ip C).split s
  -- the odd parts are addresses
  let s := (parts.zipIdx.map fun p =>
    if p.2 % 2 = 1 then p.1 else (token C).sub num p.1).flatten
  ((Regex.many isspace 1 none).sub (fun _ _ => [' ']) s).take 170

end

/-- The sample of a message that is sent to Discord and to GitHub. -/
def sample (line : Text) : Text := (redact (clean line)).take 230

end LogDigest
end MediaHub

import MediaHub.Text
import MediaHub.Values
import Mathlib.Data.List.Infix

/-!
# The answers of Gemini

`stacks/arr-stack/patches/gemini_translator.py`, the part that reads the answer to a
request and applies its lines to the subtitles.  An answer is JSON in the text of a
JSON response, and nothing is checked about either beforehand, so every subscript and
every loop can raise.

## Main definitions

* `PyError` — what is raised.
* `Response`, `Reply` — what a request gives.
* `answer`, `answerLines` — the value in a reply, and its lines.
* `readLine` — what one line says, if the code accepts it.
* `processTranslatedLines` — the lines applied one by one.
-/

namespace MediaHub
namespace Bazarr

/-! ### Responses and exceptions -/

/-- A response of the server. -/
structure Response where
  /-- The status code. -/
  statusCode : ℕ
  /-- The header `Retry-After`. -/
  retryAfter : Option String
  /-- `json.loads(response.text)`, unless it raises. -/
  text : Option Json
  /-- `response.json()`, unless it raises. -/
  json : Option Json

/-- An exception.  Those that the interpreter and its packages raise come without their
messages. -/
inductive PyError where
  | typeError
  | keyError
  | indexError
  | attributeError
  | overflowError
  | decodeError
  | valueError (message : String)
  | runtimeError (message : String)
  | exception (message : String)
  /-- An exception of `requests`. -/
  | request (response : Option Response)

/-- `getattr(e, "response", None)`. -/
def PyError.response : PyError → Option Response
  | .request response => response
  | _ => none

/-- What `requests.request` returns or raises. -/
abbrev Reply := Except PyError Response

/-! ### Values of `json.loads` as the interpreter handles them

An object is a `dict`, so its fields have different keys. -/

/-- `value[key]` on the fields of an object. -/
def lookup (key : String) (fields : List (String × Json)) : Option Json :=
  (fields.find? fun field => field.1 = key).map (·.2)

/-- `sub in s` for texts. -/
def isSubstring (sub s : String) : Bool := decide (sub.toList <:+: s.toList)

/-- The items over which `for … in value` runs. -/
def iterate : Json → Except PyError (List Json)
  | .arr items => .ok items
  | .obj fields => .ok (fields.map fun field => .str field.1)
  | .str s => .ok (s.toList.map fun c => .str c.toString)
  | _ => .error .typeError

/-- `key in value`. -/
def contains (key : String) : Json → Except PyError Bool
  | .arr items => .ok (items.any fun | .str s => s = key | _ => false)
  | .obj fields => .ok (fields.any fun field => field.1 = key)
  | .str s => .ok (isSubstring key s)
  | _ => .error .typeError

/-- `value[key]`. -/
def getItem (key : String) : Json → Except PyError Json
  | .obj fields =>
    match lookup key fields with
    | some value => .ok value
    | none => .error .keyError
  | _ => .error .typeError

/-- `value[0]`. -/
def getFirst : Json → Except PyError Json
  | .arr (item :: _) => .ok item
  | .arr [] => .error .indexError
  | .obj _ => .error .keyError
  | .str s =>
    match s.toList with
    | c :: _ => .ok (.str c.toString)
    | [] => .error .indexError
  | _ => .error .typeError

/-- A value that is a text. -/
def asText : Json → Except PyError String
  | .str s => .ok s
  | _ => .error .typeError

/-- A value that is a single character. -/
def asChar : Json → Except PyError Char
  | .str s =>
    match s.toList with
    | [c] => .ok c
    | _ => .error .typeError
  | _ => .error .typeError

/-! ### From a reply to its lines -/

/-- A floating-point number. -/
inductive PyFloat where
  | finite (q : ℚ)
  | infinite
  | nan
  deriving DecidableEq, Repr

/-- The interpreter and its packages, as far as the translator needs them. -/
structure Interpreter where
  /-- `str` of a value that is not a text. -/
  repr : Json → String
  /-- `float` of a text, unless it raises `ValueError`. -/
  float : String → Option PyFloat
  /-- `json.dumps(value, ensure_ascii=False)`. -/
  dumps : Json → String
  /-- `json_tricks.loads`. -/
  jsonTricksLoads : String → Except PyError Json

section

variable (U : Unicodedata) (P : Interpreter)

/-- `str(value)`. -/
def pyStr : Json → String
  | .str s => s
  | value => P.repr value

/-- What is inside a fence of the form ```` ```json … ``` ````. -/
def fenced (s : String) : Option (List Char) :=
  (s.toList.dropPrefix? "```json".toList).bind fun rest =>
    (rest.dropSuffix? "```".toList).or (rest.dropSuffix? "```\n".toList)

/-- `clean_json_string`. -/
def cleanJsonString (s : String) : String :=
  match fenced s with
  | some inside => strip U (String.ofList inside)
  | none => strip U s

/-- `response.raise_for_status()`. -/
def raiseForStatus (response : Response) : Except PyError Unit :=
  if 400 ≤ response.statusCode ∧ response.statusCode < 600 then
    .error (.request (some response))
  else .ok ()

/-- `json.loads(response.text)`. -/
def responseText (response : Response) : Except PyError Json :=
  match response.text with
  | some value => .ok value
  | none => .error .decodeError

/-- The translated lines, as the value that Gemini sent. -/
def answer (reply : Reply) : Except PyError Json := do
  let response ← reply
  raiseForStatus response
  let candidates ← getItem "candidates" (← responseText response)
  let content ← getItem "content" (← getFirst candidates)
  let parts ← iterate (← getItem "parts" content)
  let texts ← parts.mapM fun part => do asText (← getItem "text" part)
  P.jsonTricksLoads (cleanJsonString U (String.join texts))

/-- The translated lines. -/
def answerLines (reply : Reply) : Except PyError (List Json) := do
  iterate (← answer U P reply)

/-! ### The lines -/

/-- A subtitle, `srt.Subtitle`. -/
structure Subtitle where
  /-- The number in the file. -/
  number : ℕ
  /-- When it appears, in seconds. -/
  start : ℚ
  /-- When it disappears. -/
  end_ : ℚ
  /-- The text.  A response can put any value there. -/
  content : Json

/-- A subtitle to be translated. -/
structure SubtitleObject where
  /-- The position in the file, counted from `0`. -/
  index : String
  /-- The text. -/
  content : Json

/-- The direction of a text. -/
inductive Direction where
  | rtl | ltr
  deriving DecidableEq, Repr

/-- `_dominant_strong_direction`. -/
def dominantStrongDirection (s : Json) : Except PyError Direction := do
  let chars ← (← iterate s).mapM asChar
  let count (classes : List Bidirectional) := chars.countP (U.bidirectional · ∈ classes)
  let rtlCount := count [.R, .AL, .RLE, .RLI]
  let ltrCount := count [.L, .LRE, .LRI]
  return if rtlCount > ltrCount then .rtl else .ltr

/-- A content as it is written to the subtitle: with marks if it runs from right to
left. -/
def withMarks (content : Json) : Except PyError Json := do
  match ← dominantStrongDirection U content with
  | .rtl => return .str s!"\u202b{pyStr P content}\u202c"
  | .ltr => return content

/-- What a line says about the subtitles of the batch: nothing if it lacks a field, which
ends the loop, or what is to be written where. -/
def readLine (batch : List SubtitleObject) (line : Json) :
    Except PyError (Option (String × Json)) := do
  if ← contains "content" line then
    if ← contains "index" line then
      match ← getItem "index" line with
      | .str index =>
        if index ∈ batch.map (·.index) then
          return some (index, ← withMarks U P (← getItem "content" line))
        else .error (.exception "Gemini has returned different indices.")
      | _ => .error (.exception "Gemini has returned different indices.")
    else return none
  else return none

/-- `translated_subtitle[int(index)].content = content`. -/
def setContent (subtitles : List Subtitle) (index : String) (content : Json) :
    Except PyError (List Subtitle) :=
  match parseInt index with
  | none => .error (.valueError s!"invalid literal for int() with base 10: '{index}'")
  | some i =>
    if i < subtitles.length then
      .ok (subtitles.modify i fun subtitle => { subtitle with content := content })
    else .error .indexError

/-- `_process_translated_lines`, as the exception it raises, if any, and the subtitles it
leaves. -/
def processTranslatedLines (batch : List SubtitleObject) :
    List Json → List Subtitle → Option PyError × List Subtitle
  | [], subtitles => (none, subtitles)
  | line :: lines, subtitles =>
    match readLine U P batch line with
    | .error e => (some e, subtitles)
    | .ok none => (none, subtitles)
    | .ok (some (index, content)) =>
      match setContent subtitles index content with
      | .error e => (some e, subtitles)
      | .ok subtitles => processTranslatedLines batch lines subtitles

end

end Bazarr
end MediaHub

import MediaHub.Values

/-!
# What netmon reads from the modem

`modem_stats` of `scripts/netmon.py` logs into the gateway and reads the tables of its channels.
What goes wrong on the way to the tables is caught and reported in the row; what is wrong in the
tables is not, so a table with an unexpected field ends the whole run.

The columns with levels are left out, since they go into a file that no run reads; of a level
it matters only whether it is a number.

## Main definitions

* `Numerals` — which texts are numbers.
* `readTables` — the tables, where they can be read.
* `modemStats` — `modem_stats`; nothing where it raises.
-/

namespace MediaHub
namespace Netmon

/-- `float` and `int` on texts. -/
structure Numerals where
  /-- `float` does not raise. -/
  isFloat : String → Bool
  int : String → Option ℤ

variable (N : Numerals)

/-- `float(v)` does not raise. -/
def isNumber : Json → Bool
  | .num _ | .bool _ => true
  | .str s => N.isFloat s
  | _ => false

/-- `int(v)`; a number is cut off. -/
def toInt : Json → Option ℤ
  | .num q => some (if 0 ≤ q then ⌊q⌋ else ⌈q⌉)
  | .bool b => some (if b then 1 else 0)
  | .str s => N.int s
  | _ => none

/-- The members of `d.get(key, [])`.  Those of a text or of an object have no fields, so only
an empty one does not raise. -/
def members (d : Json) (key : String) : Option (List Json) :=
  match d.item key with
  | none | some (.obj []) | some (.str "") => some []
  | some (.arr items) => some items
  | _ => none

/-- The field of every member is a number. -/
def allNumbers (key : String) (channels : List Json) : Bool :=
  channels.all fun c => (c.item key).any (isNumber N)

/-- The level of the first of the channels of `d.get('ofdm_channels', [])`, if there are any. -/
def ofdmReads (d : Json) : Bool :=
  match d.item "ofdm_channels" with
  | none | some .null | some (.bool false) | some (.str "") | some (.arr []) | some (.obj []) =>
    true
  | some (.num q) => q = 0
  | some (.arr (c :: _)) => (c.item "DataScAvgMer").any (isNumber N)
  | _ => false

/-- The codewords of all channels. -/
structure Totals where
  good : ℤ
  corr : ℤ
  uncorr : ℤ
  deriving DecidableEq, Repr

/-- `sum(int(e[v]) for e in ec)`. -/
def total (key : String) (rows : List Json) : Option ℤ :=
  (rows.mapM fun e : Json => (e.item key).bind (toInt N)).map List.sum

/-- What is kept of the tables, unless one of them raises. -/
def readTables (d : Json) : Option Totals := do
  let ds ← members d "ds_channels"
  let us ← members d "us_channels"
  let ec ← members d "error_codewords"
  if allNumbers N "PowerLevel" ds && allNumbers N "SNRLevel" ds && allNumbers N "PowerLevel" us &&
      ds.all (fun c => (c.item "LockStatus").isSome) && ofdmReads N d then
    return ⟨← total N "UnerroredCodewords" ec, ← total N "CorrectableCodewords" ec,
      ← total N "UncorrectableCodewords" ec⟩
  else none

/-- What the state file keeps of the modem. -/
structure ModemState where
  /-- `modem_prev`. -/
  prev : Option Totals
  /-- `modem_bad_cred_mtime`. -/
  badCred : Option ℤ
  deriving DecidableEq, Repr

/-- What comes of the login. -/
inductive Answer where
  | rejected (code : ℕ)
  /-- Whatever else was caught. -/
  | unreadable
  | tables (d : List (String × Json))

/-- Whether there are credentials, since when, and what the gateway says to them. -/
inductive Modem where
  | noCredentials
  | credentials (mtime : ℤ) (answer : Answer)

/-- `modem_stats`. -/
def modemStats (m : ModemState) : Modem → Option ModemState
  | .noCredentials => some m
  | .credentials mtime answer =>
    -- a password that was rejected is not tried again
    if m.badCred = some mtime then some m
    else match answer with
      | .rejected code => some (if code = 409 then { m with badCred := some mtime } else m)
      | .unreadable => some m
      | .tables d => (readTables N (.obj d)).map fun tot => { m with prev := some tot }

/-- Only the tables can end the run. -/
theorem modemStats_eq_none_iff (m : ModemState) (modem : Modem) :
    modemStats N m modem = none ↔ ∃ mtime d, modem = .credentials mtime (.tables d) ∧
      m.badCred ≠ some mtime ∧ readTables N (.obj d) = none := by
  cases modem with
  | noCredentials => simp [modemStats]
  | credentials mtime answer =>
    by_cases h : m.badCred = some mtime
    · simp [modemStats, h]
    · cases answer <;> simp [modemStats, h]

end Netmon
end MediaHub

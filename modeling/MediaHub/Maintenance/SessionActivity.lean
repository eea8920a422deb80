import MediaHub.Values
import Mathlib.Data.List.Basic

/-!
# Is anyone using this machine?

`scripts/session-activity.py`: Sunshine is asked over HTTP, the Java servers of Minecraft over
TCP and its Bedrock servers over UDP.  What a service sends, and how its connection ends, is
an input.  The script prints nothing where it takes the machine for idle.

## Main definitions

* `sunshine`, `javaPlayers`, `bedrockPlayers` — the three probes.
* `main` — what is printed, and the exit status.
* `Said` — what a service has said to the one who asks it, whatever the script makes of it.
* `Http.TakenForIdle` — Sunshine is taken for idle.
* `Services.Quiet` — no player is on a Minecraft server, and none of them is unreadable.

## Main results

* `stdout_eq_empty_iff` — **when nothing is printed.**
* `stdout_ne_zero` — nothing that is printed is `0`.
-/

namespace MediaHub
namespace Maintenance

/-- What the interpreter makes of bytes and texts. -/
structure Outside where
  /-- `.decode(errors="replace")`. -/
  decode : List UInt8 → String
  /-- `json.loads` of bytes, where it does not raise. -/
  loads : List UInt8 → Option Json
  /-- `json.load` of the standard input, where it does not raise. -/
  load : List UInt8 → Option Json
  /-- `int` of a text, where it does not raise. -/
  intOfText : String → Option ℤ
  /-- `str` of a JSON value. -/
  str : Json → String

variable (O : Outside)

/-! ### Sunshine -/

/-- How the request to Sunshine ends. -/
inductive Http where
  /-- Nothing is listening. -/
  | refused
  /-- A status that is an error: `HTTPError`, which is an `OSError`. -/
  | status (code : ℕ)
  /-- The connection is dropped, or times out: an `OSError`. -/
  | dropped
  /-- A malformed status line, or a body that is cut short: `HTTPException`, which is no
  `OSError`. -/
  | garbled
  | body (bytes : List UInt8)
  deriving DecidableEq, Repr

/-- `<state>([^<]*)</state>`, where a text starts with it. -/
def stateHere (s : List Char) : Option (List Char) :=
  if "<state>".toList.isPrefixOf s then
    let rest := s.drop "<state>".length
    if "</state>".toList.isPrefixOf (rest.dropWhile (· ≠ '<')) then
      some (rest.takeWhile (· ≠ '<'))
    else none
  else none

/-- `re.search` for the state. -/
def searchState (s : String) : Option String :=
  (s.toList.tails.findSome? stateHere).map String.ofList

/-- `sunshine`; an exception that is no `OSError` is raised. -/
def sunshine : Http → Except Unit (Option String)
  | .refused => .ok none
  | .status _ => .ok none
  | .dropped => .ok none
  | .garbled => .error ()
  | .body bytes =>
    match searchState (O.decode bytes) with
    | none => .ok (some "Sunshine unknown")
    | some state =>
      .ok (if state = "SUNSHINE_SERVER_BUSY" then some "Sunshine: streaming session active"
        else none)

/-! ### Minecraft -/

/-- A connection to a Java server: what it sends until the connection ends, in whatever way. -/
inductive Tcp where
  | refused
  | accepted (sent : List UInt8)
  deriving DecidableEq, Repr

/-- What is found out about a server. -/
inductive Players where
  /-- No one is there. -/
  | nothing
  | online (n : ℤ)
  /-- The probe has raised an exception. -/
  | raised
  deriving DecidableEq, Repr

/-- `read_varint`, and what follows the number. -/
def readVarint : List UInt8 → Option (ℕ × List UInt8)
  | [] => none
  | b :: rest =>
    if b.toNat < 128 then some (b.toNat, rest)
    else (readVarint rest).map fun next => (b.toNat % 128 + 128 * next.1, next.2)

/-- `int(value)`, where it does not raise. -/
def pyInt : Json → Option ℤ
  | .num q => some (q.num.tdiv q.den)
  | .bool b => some (if b then 1 else 0)
  | .str s => O.intOfText s
  | _ => none

/-- The count of players that a Java server sends. -/
def javaStatus (sent : List UInt8) : Option ℤ := do
  let (_, sent) ← readVarint sent
  let (packet, sent) ← readVarint sent
  if packet ≠ 0 then none
  else
    let (n, sent) ← readVarint sent
    if sent.length < n then none
    else
      let value ← O.loads (sent.take n)
      let players ← value.item "players"
      let online ← players.item "online"
      pyInt O online

/-- `java_players`. -/
def javaPlayers : Tcp → Players
  | .refused => .nothing
  | .accepted sent =>
    match javaStatus O sent with
    | some n => .online n
    | none => .raised

/-- The count of players in the answer of a Bedrock server. -/
def bedrockStatus (data : List UInt8) : Option ℤ :=
  if data.head? = some 0x1c then
    (((O.decode (data.drop 35)).toList.splitOnP (· = ';'))[4]?).bind fun field =>
      O.intOfText (String.ofList field)
  else none

/-- `bedrock_players`: the first answer to one of three pings. -/
def bedrockPlayers (answers : ℕ → Option (List UInt8)) : Players :=
  match (List.range 3).findSome? answers with
  | none => .nothing
  | some data =>
    match bedrockStatus O data with
    | some n => .online n
    | none => .raised

/-! ### The script -/

def JAVA_PORTS : List ℕ := [25500]

def BEDROCK_PORTS : List ℕ := [25501, 25502]

/-- How the services of a machine behave. -/
structure Services where
  sunshine : Http
  java : ℕ → Tcp
  /-- What a Bedrock server answers to each ping. -/
  bedrock : ℕ → ℕ → Option (List UInt8)

/-- The Minecraft servers, with what is found out about them. -/
def servers (S : Services) : List (String × ℕ × Players) :=
  JAVA_PORTS.map (fun p => ("Java", p, javaPlayers O (S.java p))) ++
    BEDROCK_PORTS.map fun p => ("Bedrock", p, bedrockPlayers O (S.bedrock p))

/-- The entry of a server in `busy`. -/
def busyServer : String × ℕ × Players → Option String
  | (_, p, .online n) =>
    if n ≠ 0 then some ("Minecraft: " ++ toString n ++ " player(s) on :" ++ toString p) else none
  | _ => none

/-- The entry of a server in `unknown`. -/
def unknownServer : String × ℕ × Players → Option String
  | (kind, p, .raised) => some ("Minecraft " ++ kind ++ " :" ++ toString p ++ " unknown")
  | _ => none

/-- What is printed, and the exit status. -/
structure Ended where
  stdout : String
  status : ℕ
  deriving DecidableEq, Repr

/-- `"; ".join(entries)`. -/
def joinEntries (entries : List String) : String := "; ".intercalate entries

/-- The script. -/
def main (S : Services) : Ended :=
  match sunshine O S.sunshine with
  | .error _ => ⟨"", 1⟩
  | .ok s =>
    let isUnknown := s.any fun s => "unknown".toList.isSuffixOf s.toList
    let busy := (if isUnknown then [] else s.toList) ++ (servers O S).filterMap busyServer
    let unknown := (if isUnknown then s.toList else []) ++ (servers O S).filterMap unknownServer
    if busy ≠ [] then ⟨joinEntries busy, 1⟩
    else if unknown ≠ [] then ⟨joinEntries unknown, 2⟩
    else ⟨"", 0⟩

/-! ### What the services have said -/

/-- What is to be known of a service that is asked. -/
inductive Said where
  /-- It does not accept the connection. -/
  | nothing
  /-- No one is using it. -/
  | idle
  | busy
  /-- It has accepted the connection, and its answer tells neither. -/
  | unread
  deriving DecidableEq, Repr

/-- No one is using the service, as far as it goes: it is not there, or it says so. -/
def Said.Free (s : Said) : Prop := s = .nothing ∨ s = .idle

instance (s : Said) : Decidable s.Free := inferInstanceAs (Decidable (_ ∨ _))

/-- A number of players. -/
def Said.ofCount : Option ℤ → Said
  | none => .unread
  | some n => if n = 0 then .idle else .busy

def Http.said : Http → Said
  | .refused => .nothing
  | .status _ => .unread
  | .dropped => .unread
  | .garbled => .unread
  | .body bytes =>
    if searchState (O.decode bytes) = some "SUNSHINE_SERVER_FREE" then .idle
    else if searchState (O.decode bytes) = some "SUNSHINE_SERVER_BUSY" then .busy
    else .unread

def Tcp.said : Tcp → Said
  | .refused => .nothing
  | .accepted sent => .ofCount (javaStatus O sent)

/-- The same for a Bedrock server, where an answer stands for the connection. -/
def bedrockSaid (answers : ℕ → Option (List UInt8)) : Said :=
  match (List.range 3).findSome? answers with
  | none => .nothing
  | some data => .ofCount (bedrockStatus O data)

/-- What the Minecraft servers have said. -/
def Services.minecraft (S : Services) : List Said :=
  JAVA_PORTS.map (fun p => (S.java p).said O) ++
    BEDROCK_PORTS.map fun p => bedrockSaid O (S.bedrock p)

/-- What all services that the script asks have said. -/
def Services.said (S : Services) : List Said := S.sunshine.said O :: S.minecraft O

/-- No one is on the Minecraft servers. -/
def Services.Quiet (S : Services) : Prop := ∀ s ∈ S.minecraft O, s.Free

instance (S : Services) : Decidable (S.Quiet O) :=
  inferInstanceAs (Decidable (∀ s ∈ S.minecraft O, s.Free))

/-- Sunshine is not there, or is read as idle. -/
def Http.TakenForIdle (h : Http) : Prop :=
  match h with
  | .garbled => False
  | .body bytes =>
    ∃ state, searchState (O.decode bytes) = some state ∧ state ≠ "SUNSHINE_SERVER_BUSY"
  | _ => True

variable {O}

/-! ### The probes -/

theorem sunshine_eq_error_iff {h : Http} : sunshine O h = .error () ↔ h = .garbled := by
  cases h with
  | body bytes =>
    rw [sunshine]
    cases searchState (O.decode bytes) <;> simp
  | _ => simp [sunshine]

theorem sunshine_eq_none_iff {h : Http} : sunshine O h = .ok none ↔ h.TakenForIdle O := by
  cases h with
  | body bytes =>
    rw [sunshine, Http.TakenForIdle]
    cases searchState (O.decode bytes) with
    | none => simp
    | some state => by_cases hstate : state = "SUNSHINE_SERVER_BUSY" <;> simp [hstate]
  | _ => simp [sunshine, Http.TakenForIdle]

/-- **A Sunshine that no one uses is taken for idle.** -/
theorem Http.takenForIdle_of_free {h : Http} (hfree : (h.said O).Free) : h.TakenForIdle O := by
  cases h with
  | body bytes =>
    rw [Http.said] at hfree
    split at hfree
    next hstate => exact ⟨_, hstate, by decide⟩
    next => split at hfree <;> simp [Said.Free] at hfree
  | garbled => simp [Http.said, Said.Free] at hfree
  | _ => trivial

/-- A Sunshine that is taken for idle has not said that it is busy. -/
theorem Http.said_ne_busy {h : Http} (hidle : h.TakenForIdle O) : h.said O ≠ .busy := by
  cases h with
  | body bytes =>
    obtain ⟨state, hstate, hne⟩ := hidle
    rw [Http.said, hstate]
    simp only [Option.some.injEq, hne, if_false]
    split <;> simp
  | _ => simp [Http.said]

theorem Said.ofCount_free_iff {n : Option ℤ} : (Said.ofCount n).Free ↔ n = some 0 := by
  cases n with
  | none => simp [Said.ofCount, Said.Free]
  | some n => by_cases hn : n = 0 <;> simp [Said.ofCount, Said.Free, hn]

/-- No entry is made of a server. -/
def Players.Unlisted (n : Players) : Prop := n = .nothing ∨ n = .online 0

theorem unlisted_javaPlayers_iff {t : Tcp} : (javaPlayers O t).Unlisted ↔ (t.said O).Free := by
  cases t with
  | refused => simp [javaPlayers, Tcp.said, Players.Unlisted, Said.Free]
  | accepted sent =>
    rw [Tcp.said, Said.ofCount_free_iff, javaPlayers]
    cases javaStatus O sent <;> simp [Players.Unlisted]

theorem unlisted_bedrockPlayers_iff {answers : ℕ → Option (List UInt8)} :
    (bedrockPlayers O answers).Unlisted ↔ (bedrockSaid O answers).Free := by
  rw [bedrockPlayers, bedrockSaid]
  cases (List.range 3).findSome? answers with
  | none => simp [Players.Unlisted, Said.Free]
  | some data =>
    simp only
    rw [Said.ofCount_free_iff]
    cases bedrockStatus O data <;> simp [Players.Unlisted]

theorem unlisted_iff {server : String × ℕ × Players} :
    server.2.2.Unlisted ↔ busyServer server = none ∧ unknownServer server = none := by
  obtain ⟨kind, p, n⟩ := server
  cases n <;> simp [Players.Unlisted, busyServer, unknownServer]

/-- The Minecraft servers are quiet where no entry is made of one. -/
theorem quiet_iff {S : Services} :
    S.Quiet O ↔ (servers O S).filterMap busyServer = [] ∧
      (servers O S).filterMap unknownServer = [] := by
  have hlisted : S.Quiet O ↔ ∀ server ∈ servers O S, server.2.2.Unlisted := by
    simp only [Services.Quiet, Services.minecraft, servers, List.forall_mem_append,
      List.forall_mem_map, unlisted_javaPlayers_iff, unlisted_bedrockPlayers_iff]
  rw [hlisted, List.filterMap_eq_nil_iff, List.filterMap_eq_nil_iff, ← forall₂_and]
  simp only [unlisted_iff]

/-! ### What is printed -/

/-- A line that tells of a service: Sunshine, Minecraft or Plex. -/
def Entry (e : String) : Prop := e.toList.head? ∈ [some 'S', some 'M', some 'P']

instance (e : String) : Decidable (Entry e) := inferInstanceAs (Decidable (_ ∈ _))

theorem Entry.append {e : String} (he : Entry e) (rest : String) : Entry (e ++ rest) := by
  rw [Entry] at he ⊢
  cases hc : e.toList.head? with
  | none => simp [hc] at he
  | some c =>
    rw [String.toList_append, List.head?_append, hc, Option.some_or]
    rwa [hc] at he

theorem Entry.ne_empty {e : String} (he : Entry e) : e ≠ "" := by
  rintro rfl
  simp [Entry] at he

theorem Entry.ne_zero {e : String} (he : Entry e) : e ≠ "0" := by
  rintro rfl
  simp [Entry] at he

theorem entry_joinEntries {entries : List String} (hne : entries ≠ [])
    (h : ∀ e ∈ entries, Entry e) : Entry (joinEntries entries) := by
  cases entries with
  | nil => exact absurd rfl hne
  | cons e rest =>
    have he : Entry e := h e List.mem_cons_self
    cases rest with
    | nil => rwa [joinEntries, String.intercalate_singleton]
    | cons e' rest =>
      rw [joinEntries, String.intercalate_cons_cons, String.append_assoc]
      exact he.append _

theorem entry_sunshine {h : Http} {s : String} (hs : sunshine O h = .ok (some s)) : Entry s := by
  cases h with
  | body bytes =>
    rw [sunshine] at hs
    cases hstate : searchState (O.decode bytes) with
    | none =>
      rw [hstate] at hs
      cases hs
      decide +kernel
    | some state =>
      simp only [hstate, Except.ok.injEq, Option.ite_none_right_eq_some] at hs
      obtain ⟨-, hs⟩ := hs
      cases hs
      decide +kernel
  | _ => cases hs

theorem entry_busyServer {server : String × ℕ × Players} {e : String}
    (h : busyServer server = some e) : Entry e := by
  obtain ⟨kind, p, n⟩ := server
  cases n with
  | online n =>
    simp only [busyServer, Option.ite_none_right_eq_some, Option.some.injEq] at h
    obtain ⟨-, rfl⟩ := h
    have hstart : Entry "Minecraft: " := by decide +kernel
    exact ((hstart.append _).append _).append _
  | _ => cases h

theorem entry_unknownServer {server : String × ℕ × Players} {e : String}
    (h : unknownServer server = some e) : Entry e := by
  obtain ⟨kind, p, n⟩ := server
  cases n with
  | raised =>
    cases h
    have hstart : Entry "Minecraft " := by decide +kernel
    exact (((hstart.append _).append _).append _).append _
  | _ => cases h

/-- The lists `busy` and `unknown`, where Sunshine's probe has ended with `s`. -/
theorem main_of_sunshine {S : Services} {s : Option String} (hs : sunshine O S.sunshine = .ok s) :
    ∃ busy unknown : List String,
      (∀ e ∈ busy, Entry e) ∧ (∀ e ∈ unknown, Entry e) ∧
      (busy = [] ∧ unknown = [] ↔ s = none ∧ S.Quiet O) ∧
      main O S = if busy ≠ [] then ⟨joinEntries busy, 1⟩
        else if unknown ≠ [] then ⟨joinEntries unknown, 2⟩ else ⟨"", 0⟩ := by
  have hsunshine : ∀ e ∈ s.toList, Entry e := by
    intro e he
    rw [Option.mem_toList] at he
    exact entry_sunshine (he ▸ hs)
  have hbusy : ∀ e ∈ (servers O S).filterMap busyServer, Entry e := by
    intro e he
    obtain ⟨server, -, hserver⟩ := List.mem_filterMap.mp he
    exact entry_busyServer hserver
  have hunknown : ∀ e ∈ (servers O S).filterMap unknownServer, Entry e := by
    intro e he
    obtain ⟨server, -, hserver⟩ := List.mem_filterMap.mp he
    exact entry_unknownServer hserver
  rw [main, hs]
  refine ⟨_, _, ?_, ?_, ?_, rfl⟩
  · intro e he
    split at he
    next => exact hbusy e (by simpa using he)
    next => exact (List.mem_append.mp he).elim (hsunshine e) (hbusy e)
  · intro e he
    split at he
    next => exact (List.mem_append.mp he).elim (hsunshine e) (hunknown e)
    next => exact hunknown e (by simpa using he)
  -- Sunshine's line goes to one of the lists
  · rw [quiet_iff]
    cases s <;> split <;> simp

/-- A run prints nothing, or a line of entries. -/
theorem main_stdout (S : Services) :
    (main O S).stdout = "" ∨ Entry (main O S).stdout := by
  cases hs : sunshine O S.sunshine with
  | error => exact .inl (by rw [main, hs])
  | ok s =>
    obtain ⟨busy, unknown, hbusy, hunknown, -, hmain⟩ := main_of_sunshine hs
    rw [hmain]
    split
    next hne => exact .inr (entry_joinEntries hne hbusy)
    next =>
      split
      next hne => exact .inr (entry_joinEntries hne hunknown)
      next => exact .inl rfl

theorem stdout_ne_zero (S : Services) : (main O S).stdout ≠ "0" := by
  obtain hempty | hentry := main_stdout (O := O) S
  · rw [hempty]
    decide
  · exact hentry.ne_zero

/-- **Nothing is printed where Sunshine's probe crashes, and where no service makes an entry.** -/
theorem stdout_eq_empty_iff {S : Services} :
    (main O S).stdout = "" ↔
      S.sunshine = .garbled ∨ S.sunshine.TakenForIdle O ∧ S.Quiet O := by
  rw [← sunshine_eq_error_iff (O := O), ← sunshine_eq_none_iff]
  cases hs : sunshine O S.sunshine with
  | error => simp [main, hs]
  | ok s =>
    obtain ⟨busy, unknown, hbusy, hunknown, hnone, hmain⟩ := main_of_sunshine hs
    have hempty : (main O S).stdout = "" ↔ busy = [] ∧ unknown = [] := by
      rw [hmain]
      split
      next hne => simp [hne, (entry_joinEntries hne hbusy).ne_empty]
      next hnil =>
        split
        next hne => simp [hne, (entry_joinEntries hne hunknown).ne_empty]
        next hnil' => simp [not_not.mp hnil, not_not.mp hnil']
    rw [hempty, hnone]
    simp

end Maintenance
end MediaHub

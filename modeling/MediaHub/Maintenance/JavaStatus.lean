import MediaHub.Lib.Recv
import MediaHub.Maintenance.SessionActivity
import Mathlib.Data.Nat.Bitwise

/-!
# The status of a Java server

`scripts/session-activity.py` asks a Java server for its status over TCP, and takes the answer
off the socket a byte at a time while it reads numbers, and a piece at a time after that.

## Main definitions

* `varint` — the encoding of a number in groups of seven bits.
* `Socket.readVarint`, `Socket.javaPlayers` — `read_varint` and `java_players`, on a socket.
* `IsVarint` — the bytes are an encoding of the number.
* `StatusResponse` — a well-formed answer.

## Main results

* `isVarint_varint` — `varint` encodes.
* `reads_readVarint`, `javaPlayers_eq` — **how the transport cuts the stream does not matter.**
* `javaStatus_append`, `javaStatus_cut` — an answer is read whole, or not at all.
-/

namespace MediaHub
namespace Maintenance

/-! ### The script -/

/-- The loop of `varint`. -/
def varintLoop (n : ℕ) (out : List UInt8) : List UInt8 :=
  let b := n &&& 0x7F
  let n' := n >>> 7
  let out := out ++ [UInt8.ofNat (b ||| if n' ≠ 0 then 0x80 else 0)]
  if n' = 0 then out else varintLoop n' out
termination_by n
decreasing_by
  rename_i h
  simp only [Nat.shiftRight_eq_div_pow] at h ⊢
  omega

/-- `varint`. -/
def varint (n : ℕ) : List UInt8 := varintLoop n []

/-- What the attempt to connect ends with: an `OSError`, or a server, which answers to what it
is sent; where there is no answer, `sendall` raises. -/
inductive Connection where
  | refused
  | accepted (serve : List UInt8 → Option (Sock UInt8))

/-- What is sent to a server. -/
def statusRequest (port : UInt16) : List UInt8 :=
  let host := "127.0.0.1".toUTF8.toList
  let hs := [0x00] ++ varint 767 ++ varint host.length ++ host ++
    [UInt8.ofNat (port.toNat / 256), UInt8.ofNat (port.toNat % 256)] ++ varint 1
  varint hs.length ++ hs ++ [0x01, 0x00]

variable (O : Outside)

/-- `int(json.loads(data)["players"]["online"])`, where it does not raise. -/
def playersOnline (data : List UInt8) : Option ℤ := do
  let value ← O.loads data
  let players ← value.item "players"
  let online ← players.item "online"
  pyInt O online

namespace Socket

/-- The loop of `read_varint`. -/
def readVarintLoop (n shift : ℕ) (sock : Sock UInt8) : Option (ℕ × Sock UInt8) :=
  match h : sock.recv 1 with
  | none => none
  | some ([], _) => none
  | some (b :: _, sock') =>
    let n := n ||| (b.toNat &&& 0x7F) <<< shift
    if b.toNat &&& 0x80 = 0 then some (n, sock') else readVarintLoop n (shift + 7) sock'
termination_by sock.bytes.length
decreasing_by
  rw [Sock.recv_append h, List.length_append, List.length_cons]
  omega

/-- `read_varint`, where it does not raise. -/
def readVarint (sock : Sock UInt8) : Option (ℕ × Sock UInt8) := readVarintLoop 0 0 sock

/-- The count of players that is read off a socket. -/
def javaStatus (sock : Sock UInt8) : Option ℤ := do
  let (_, sock) ← readVarint sock
  let (packet, sock) ← readVarint sock
  if packet ≠ 0 then none
  else
    let (n, sock) ← readVarint sock
    let (data, _) ← recvExact n [] sock
    playersOnline O data

/-- `java_players`. -/
def javaPlayers (port : UInt16) : Connection → Players
  | .refused => .nothing
  | .accepted serve =>
    match (serve (statusRequest port)).bind (javaStatus O) with
    | some n => .online n
    | none => .raised

end Socket

/-! ### Numbers in groups of seven bits -/

/-- The bytes are an encoding of the number: the lowest seven bits first, and in all bytes but
the last the high bit is set. -/
inductive IsVarint : ℕ → List UInt8 → Prop
  | last {b : UInt8} : b.toNat < 128 → IsVarint b.toNat [b]
  | more {b : UInt8} {n : ℕ} {bs : List UInt8} : 128 ≤ b.toNat → IsVarint n bs →
      IsVarint (b.toNat % 128 + 128 * n) (b :: bs)

theorem and_low (n : ℕ) : n &&& 0x7F = n % 128 := Nat.and_two_pow_sub_one_eq_mod n 7

theorem and_high_eq_zero_iff (b : UInt8) : b.toNat &&& 0x80 = 0 ↔ b.toNat < 128 := by
  have hlt := b.toNat_lt
  have hbit : b.toNat &&& 2 ^ 7 = (b.toNat.testBit 7).toNat * 2 ^ 7 := Nat.and_two_pow _ _
  show b.toNat &&& 2 ^ 7 = 0 ↔ _
  rw [hbit, Nat.testBit_eq_decide_div_mod_eq]
  by_cases hhigh : b.toNat / 2 ^ 7 % 2 = 1
  · simp only [hhigh]
    simp
    omega
  · simp only [hhigh]
    simp
    omega

/-- A group is put behind the bits that have been read. -/
theorem or_shift {n shift : ℕ} (h : n < 2 ^ shift) (b : ℕ) :
    n ||| b <<< shift = n + 2 ^ shift * b := by
  rw [Nat.shiftLeft_eq, Nat.mul_comm b, Nat.or_comm, ← Nat.two_pow_add_eq_or_of_lt h, Nat.add_comm]

theorem or_high {n : ℕ} (h : n < 128) : n ||| 0x80 = n + 128 := by
  have hadd := Nat.two_pow_add_eq_or_of_lt (show n < 2 ^ 7 from h) 1
  rw [Nat.or_comm]
  exact hadd.symm.trans (Nat.add_comm _ _)

theorem exists_varintLoop (n : ℕ) (out : List UInt8) :
    ∃ bs, varintLoop n out = out ++ bs ∧ IsVarint n bs := by
  fun_induction varintLoop n out with
  | case1 n out b n' out' hzero =>
    have hsmall : n < 128 := by
      have hdiv : n / 2 ^ 7 = 0 := (Nat.shiftRight_eq_div_pow n 7).symm.trans hzero
      omega
    have hb : (UInt8.ofNat (n % 128 ||| 0)).toNat = n := by
      rw [Nat.or_zero, UInt8.toNat_ofNat']
      omega
    have hlast := @IsVarint.last (UInt8.ofNat (n % 128 ||| 0)) (hb.symm ▸ hsmall)
    rw [hb] at hlast
    refine ⟨_, ?_, hlast⟩
    -- the high bit of the last group is not set
    show out ++ [UInt8.ofNat (n &&& 0x7F ||| if n >>> 7 ≠ 0 then 0x80 else 0)] = _
    rw [and_low, if_neg (not_not.mpr hzero)]
  | case2 n out b n' out' hmore ih =>
    obtain ⟨bs, hloop, hbs⟩ := ih
    have hb : (UInt8.ofNat (n % 128 + 128)).toNat = n % 128 + 128 := by
      rw [UInt8.toNat_ofNat']
      omega
    have hgroups := @IsVarint.more (UInt8.ofNat (n % 128 + 128)) _ _ (by omega) hbs
    have hvalue : (n % 128 + 128) % 128 + 128 * n' = n := by
      show _ + 128 * (n >>> 7) = n
      rw [Nat.shiftRight_eq_div_pow]
      omega
    rw [hb, hvalue] at hgroups
    refine ⟨_, ?_, hgroups⟩
    rw [hloop]
    -- that of all groups before it is
    show out ++ [UInt8.ofNat (n &&& 0x7F ||| if n >>> 7 ≠ 0 then 0x80 else 0)] ++ bs = _
    rw [and_low, if_pos hmore, or_high (Nat.mod_lt _ (by decide)), List.append_assoc]
    rfl

/-- **What `varint` returns is an encoding.** -/
theorem isVarint_varint (n : ℕ) : IsVarint n (varint n) := by
  obtain ⟨bs, hloop, hbs⟩ := exists_varintLoop n []
  rwa [varint, hloop]

/-- An encoding is read, and what follows it is left. -/
theorem IsVarint.readVarint_append {n : ℕ} {bs : List UInt8} (h : IsVarint n bs)
    (rest : List UInt8) : readVarint (bs ++ rest) = some (n, rest) := by
  induction h with
  | last hb => rw [List.singleton_append, readVarint, if_pos hb]
  | more hb _ ih =>
    rw [List.cons_append, readVarint, if_neg (Nat.not_lt.mpr hb), ih, Option.map_some]

/-- Where a stream is cut off, a number is not read, or what follows it is cut off. -/
theorem IsVarint.bind_cut {β : Type} {n : ℕ} {bs : List UInt8} (h : IsVarint n bs)
    {rest sent : List UInt8} (hcut : sent <+: bs ++ rest) (hne : sent ≠ bs ++ rest)
    {next : ℕ × List UInt8 → Option β}
    (hnext : ∀ sent', sent' <+: rest → sent' ≠ rest → next (n, sent') = none) :
    (readVarint sent).bind next = none := by
  induction h generalizing sent next with
  | @last b hb =>
    rw [List.singleton_append] at hcut hne
    rcases List.prefix_cons_iff.mp hcut with rfl | ⟨sent, rfl, hsent⟩
    · rfl
    · rw [readVarint, if_pos hb]
      apply hnext sent hsent
      rintro rfl
      exact hne rfl
  | @more b n bs hb _ ih =>
    rw [List.cons_append] at hcut hne
    rcases List.prefix_cons_iff.mp hcut with rfl | ⟨sent, rfl, hsent⟩
    · rfl
    · rw [readVarint, if_neg (Nat.not_lt.mpr hb), Option.bind_map]
      exact ih hsent (fun heq => hne (heq ▸ rfl)) hnext

/-! ### Reading off a socket -/

namespace Socket

/-- The loop of `read_varint` goes on from the groups that have been read. -/
theorem readVarintLoop_eq {n shift : ℕ} (h : n < 2 ^ shift) (sock : Sock UInt8) :
    (readVarintLoop n shift sock).map (fun x => (x.1, x.2.bytes)) =
      (Maintenance.readVarint sock.bytes).map fun x => (n + 2 ^ shift * x.1, x.2) := by
  fun_induction readVarintLoop n shift sock with
  | case1 n shift sock hrecv =>
    rw [Sock.bytes_eq_nil_of_recv Nat.one_pos (Or.inl hrecv)]
    rfl
  | case2 n shift sock sock' hrecv =>
    rw [Sock.bytes_eq_nil_of_recv Nat.one_pos (Or.inr ⟨sock', hrecv⟩)]
    rfl
  | case3 n shift sock b chunk sock' hrecv n' hlast =>
    have hsmall := (and_high_eq_zero_iff b).mp hlast
    have hn' : n' = n + 2 ^ shift * b.toNat := by
      show n ||| (b.toNat &&& 0x7F) <<< shift = _
      rw [or_shift h, and_low, Nat.mod_eq_of_lt hsmall]
    rw [Sock.bytes_of_recv_one hrecv, Maintenance.readVarint, if_pos hsmall, hn']
    rfl
  | case4 n shift sock b chunk sock' hrecv n' hmore ih =>
    have hlarge : ¬ b.toNat < 128 := fun hsmall => hmore ((and_high_eq_zero_iff b).mpr hsmall)
    have hn' : n' = n + 2 ^ shift * (b.toNat % 128) := by
      show n ||| (b.toNat &&& 0x7F) <<< shift = _
      rw [or_shift h, and_low]
    have hpow : 2 ^ (shift + 7) = 2 ^ shift * 128 := Nat.pow_add 2 shift 7
    -- the groups so far are still below the place of the next one
    have hbelow : n' < 2 ^ (shift + 7) := by
      have hgroup : b.toNat % 128 + 1 ≤ 128 := Nat.mod_lt _ (by decide)
      calc n' = n + 2 ^ shift * (b.toNat % 128) := hn'
        _ < 2 ^ shift + 2 ^ shift * (b.toNat % 128) := Nat.add_lt_add_right h _
        _ = 2 ^ shift * (b.toNat % 128 + 1) := by rw [Nat.mul_add, Nat.mul_one, Nat.add_comm]
        _ ≤ 2 ^ (shift + 7) := by rw [hpow]; exact Nat.mul_le_mul_left _ hgroup
    rw [ih hbelow, Sock.bytes_of_recv_one hrecv, Maintenance.readVarint, if_neg hlarge,
      Option.map_map]
    apply congrArg (fun f => Option.map f _)
    funext x
    show (n' + 2 ^ (shift + 7) * x.1, x.2) = (n + 2 ^ shift * (b.toNat % 128 + 128 * x.1), x.2)
    rw [hn', hpow, Nat.mul_add, Nat.mul_assoc, Nat.add_assoc]

theorem reads_readVarint : Reads readVarint Maintenance.readVarint := by
  intro sock
  rw [readVarint, readVarintLoop_eq (by decide)]
  simp

/-- **The count of players does not depend on how the transport cuts the stream.** -/
theorem javaStatus_eq (sock : Sock UInt8) :
    javaStatus O sock = Maintenance.javaStatus O sock.bytes := by
  -- one number after the other, on both sides
  apply reads_readVarint.bind_eq
  intro _ sock
  apply reads_readVarint.bind_eq
  intro packet sock
  show (if packet ≠ 0 then none else _) = if packet ≠ 0 then none else _
  by_cases hpacket : packet ≠ 0
  · rw [if_pos hpacket, if_pos hpacket]
  rw [if_neg hpacket, if_neg hpacket]
  apply reads_readVarint.bind_eq
  intro n sock
  show (recvExact n [] sock).bind (fun x => playersOnline O x.1) =
    if sock.bytes.length < n then none else playersOnline O (sock.bytes.take n)
  have hread : _ = if sock.bytes.length < n then none else some _ := reads_recvExact n sock
  by_cases hshort : sock.bytes.length < n
  · rw [if_pos hshort] at hread
    rw [Option.map_eq_none_iff.mp hread, if_pos hshort]
    rfl
  · rw [if_neg hshort] at hread
    obtain ⟨x, hrecv, hx⟩ := Option.map_eq_some_iff.mp hread
    rw [hrecv, if_neg hshort, ← (Prod.mk.inj hx).1]
    rfl

end Socket

/-- The connection as the bytes that a server sends. -/
def Connection.tcp (port : UInt16) : Connection → Tcp
  | .refused => .refused
  | .accepted serve => .accepted (((serve (statusRequest port)).map Sock.bytes).getD [])

/-- **`java_players` finds out what it would find out from the bytes alone.** -/
theorem Socket.javaPlayers_eq (port : UInt16) (c : Connection) :
    Socket.javaPlayers O port c = Maintenance.javaPlayers O (c.tcp port) := by
  cases c with
  | refused => rfl
  | accepted serve =>
    rw [Socket.javaPlayers, Connection.tcp, Maintenance.javaPlayers]
    cases serve (statusRequest port) with
    | none => rfl
    | some sock =>
      have hstatus : (some sock).bind (Socket.javaStatus O) =
          Maintenance.javaStatus O sock.bytes := Socket.javaStatus_eq O sock
      exact congrArg (fun | some n => Players.online n | none => Players.raised) hstatus

/-! ### Well-formed answers -/

/-- A well-formed answer: the length of what follows, the packet's number, the length of the
text, and a text with the count of players in it. -/
structure StatusResponse where
  packetLength : List UInt8
  packetId : List UInt8
  textLength : List UInt8
  text : List UInt8
  online : ℤ
  isVarint_packetLength : IsVarint (packetId ++ textLength ++ text).length packetLength
  isVarint_packetId : IsVarint 0 packetId
  isVarint_textLength : IsVarint text.length textLength
  loads_text : ∃ value players, O.loads text = some value ∧
    value.item "players" = some players ∧ players.item "online" = some (.num online)

namespace StatusResponse

variable {O} (r : StatusResponse O)

def bytes : List UInt8 := r.packetLength ++ (r.packetId ++ (r.textLength ++ r.text))

theorem playersOnline_text : playersOnline O r.text = some r.online := by
  obtain ⟨value, players, hloads, hplayers, honline⟩ := r.loads_text
  simp [playersOnline, hloads, hplayers, honline, pyInt]

/-- An answer is read, whatever follows it. -/
theorem javaStatus_append (rest : List UInt8) :
    javaStatus O (r.bytes ++ rest) = some r.online := by
  have hplayers : playersOnline O ((r.text ++ rest).take r.text.length) = some r.online := by
    rw [List.take_left]
    exact r.playersOnline_text
  have henough : ¬ (r.text ++ rest).length < r.text.length := by simp
  rw [javaStatus, bytes, List.append_assoc, r.isVarint_packetLength.readVarint_append]
  simp only [Option.bind_eq_bind, Option.bind_some, List.append_assoc]
  rw [r.isVarint_packetId.readVarint_append]
  simp only [Option.bind_some, ne_eq, not_true_eq_false, if_false]
  rw [r.isVarint_textLength.readVarint_append]
  simp only [Option.bind_some]
  rw [if_neg henough]
  exact hplayers

/-- An answer that is cut off is not read. -/
theorem javaStatus_cut {sent : List UInt8} (hcut : sent <+: r.bytes) (hne : sent ≠ r.bytes) :
    javaStatus O sent = none := by
  -- it is cut off in one of the numbers, or behind them
  apply r.isVarint_packetLength.bind_cut hcut hne
  intro sent hcut hne
  apply r.isVarint_packetId.bind_cut hcut hne
  intro sent hcut hne
  apply r.isVarint_textLength.bind_cut hcut hne
  intro sent hcut hne
  apply if_pos
  exact lt_of_le_of_ne hcut.length_le fun hlength => hne (hcut.eq_of_length hlength)

end StatusResponse

/-- **Server status is read right under any fragmentation.**  A number that `varint` has encoded
is taken off the stream; an answer gives its count of players, and one that is cut off raises,
whatever the pieces are that they come in. -/
theorem javaPlayers_fragmented :
    (∀ (n : ℕ) (rest : List UInt8) (sock : Sock UInt8), sock.bytes = varint n ++ rest →
      ∃ sock', Socket.readVarint sock = some (n, sock') ∧ sock'.bytes = rest) ∧
    ∀ (r : StatusResponse O) (port : UInt16) (serve : List UInt8 → Option (Sock UInt8))
      (sock : Sock UInt8), serve (statusRequest port) = some sock →
      (r.bytes <+: sock.bytes →
        Socket.javaPlayers O port (.accepted serve) = .online r.online) ∧
      (sock.bytes <+: r.bytes → sock.bytes ≠ r.bytes →
        Socket.javaPlayers O port (.accepted serve) = .raised) := by
  constructor
  · intro n rest sock hbytes
    have hread := (isVarint_varint n).readVarint_append rest
    rw [← hbytes] at hread
    rcases Socket.reads_readVarint.cases sock with ⟨-, hnone⟩ | ⟨n', sock', hsome, hsome'⟩
    · rw [hnone] at hread
      cases hread
    · rw [hread] at hsome'
      obtain ⟨rfl, rfl⟩ := Prod.mk.inj (Option.some.inj hsome')
      exact ⟨sock', hsome, rfl⟩
  · intro r port serve sock hserve
    have htcp : (Connection.accepted serve).tcp port = .accepted sock.bytes := by
      rw [Connection.tcp, hserve]
      rfl
    rw [Socket.javaPlayers_eq, htcp, javaPlayers]
    refine ⟨?_, fun hcut hne => by rw [r.javaStatus_cut hcut hne]⟩
    rintro ⟨rest, hbytes⟩
    rw [← hbytes, r.javaStatus_append]

/-- The text of a server with two players. -/
def twoPlayersText : List UInt8 :=
  "\x7b\"players\":\x7b\"max\":20,\"online\":2\x7d\x7d".toList.map fun c => UInt8.ofNat c.toNat

/-- The interpreter, as far as the answer of this server needs it. -/
def twoPlayersOutside : Outside where
  decode bytes := String.ofList (bytes.map fun b => Char.ofNat b.toNat)
  loads bytes :=
    if bytes = twoPlayersText then
      some (.obj [("players", .obj [("max", .num 20), ("online", .num 2)])])
    else none
  load _ := none
  intOfText s := (parseInt s).map (↑)
  str _ := ""

def twoPlayers : StatusResponse twoPlayersOutside where
  packetLength := varint (varint 0 ++ varint twoPlayersText.length ++ twoPlayersText).length
  packetId := varint 0
  textLength := varint twoPlayersText.length
  text := twoPlayersText
  online := 2
  isVarint_packetLength := isVarint_varint _
  isVarint_packetId := isVarint_varint 0
  isVarint_textLength := isVarint_varint _
  loads_text := ⟨.obj [("players", .obj [("max", .num 20), ("online", .num 2)])],
    .obj [("max", .num 20), ("online", .num 2)], by simp [twoPlayersOutside], by simp [Json.item],
    by simp [Json.item]⟩

theorem javaPlayers_fragmented_twoPlayers :
    (∃ sock', Socket.readVarint (.ofPieces [[0xff], [0x05, 0x01]] .closed) = some (767, sock') ∧
      sock'.bytes = [0x01]) ∧
    Socket.javaPlayers twoPlayersOutside 25500 (.accepted fun _ =>
      some (.ofPieces [twoPlayers.bytes.take 5, twoPlayers.bytes.drop 5] .closed)) = .online 2 ∧
    Socket.javaPlayers twoPlayersOutside 25500 (.accepted fun _ =>
      some (.ofPieces [twoPlayers.bytes.take 5] .closed)) = .raised := by
  obtain ⟨hvarint, hstatus⟩ := javaPlayers_fragmented twoPlayersOutside
  refine ⟨hvarint 767 _ _ (by decide +kernel), ?_, ?_⟩
  · apply (hstatus twoPlayers 25500 (fun _ => some _) _ rfl).1
    rw [Sock.bytes_ofPieces]
    simp
  · apply (hstatus twoPlayers 25500 (fun _ => some _) _ rfl).2
    · rw [Sock.bytes_ofPieces]
      simp [List.take_prefix]
    · intro h
      have hlength := congrArg List.length h
      exact absurd hlength (by decide +kernel)

end Maintenance
end MediaHub

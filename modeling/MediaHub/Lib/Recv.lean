import Mathlib.Data.List.Basic
import Mathlib.Data.List.Flatten

/-!
# Streams that arrive in pieces

A connection delivers its bytes in pieces, and a call of `recv` gives no more than what is left
of the piece that comes next.  How a stream is cut must not matter to who reads it: such a
reader does what a function on the whole of the bytes does.

## Main definitions

* `Sock` — the pieces that are still to come, and how the connection ends.
* `Sock.recv` — a call of `recv`.
* `recvExact` — `recv` again and again, until there are enough bytes.
* `Reads` — a reader does on any pieces what a function does on their bytes.

## Main results

* `Sock.recv_append` — what a call of `recv` returns is taken off the stream.
* `Reads.bind_eq` — readers one after the other.
* `reads_recvExact` — **the loop takes the bytes off the stream, however they are cut.**
-/

namespace MediaHub

/-- How a connection ends. -/
inductive Ending where
  /-- It is closed, and `recv` returns no bytes. -/
  | closed
  /-- It is reset or times out, and `recv` raises. -/
  | failed
  deriving DecidableEq, Repr

/-- A connection: the pieces that are still to come, none of them empty, and its end. -/
structure Sock (α : Type*) where
  pieces : List (List α)
  ending : Ending
  nonempty : ∀ piece ∈ pieces, piece ≠ []

variable {α β γ : Type*}

namespace Sock

/-- The connection with these pieces, without the empty ones. -/
def ofPieces (pieces : List (List α)) (ending : Ending) : Sock α where
  pieces := pieces.filter fun piece => !piece.isEmpty
  ending := ending
  nonempty := by
    intro piece h
    simpa using (List.mem_filter.mp h).2

/-- The bytes that are still to come. -/
def bytes (s : Sock α) : List α := s.pieces.flatten

@[simp] theorem bytes_ofPieces (pieces : List (List α)) (ending : Ending) :
    (ofPieces pieces ending).bytes = pieces.flatten :=
  List.flatten_filter_not_isEmpty

/-- `recv(k)`, where it does not raise. -/
def recv (s : Sock α) (k : ℕ) : Option (List α × Sock α) :=
  match s.pieces with
  | [] =>
    match s.ending with
    | .closed => some ([], s)
    | .failed => none
  | piece :: pieces => some (piece.take k, ofPieces (piece.drop k :: pieces) s.ending)

theorem recv_append {s s' : Sock α} {k : ℕ} {chunk : List α} (h : s.recv k = some (chunk, s')) :
    s.bytes = chunk ++ s'.bytes := by
  unfold recv at h
  split at h
  · split at h
    · cases h
      rfl
    · cases h
  · next piece pieces hpieces =>
    cases h
    rw [bytes_ofPieces, bytes, hpieces, List.flatten_cons, List.flatten_cons, ← List.append_assoc,
      List.take_append_drop]

theorem recv_length_le {s s' : Sock α} {k : ℕ} {chunk : List α}
    (h : s.recv k = some (chunk, s')) : chunk.length ≤ k := by
  unfold recv at h
  split at h
  · split at h
    · cases h
      exact Nat.zero_le k
    · cases h
  · cases h
    exact List.length_take_le k _

/-- A single byte that is asked for is the next one. -/
theorem bytes_of_recv_one {s s' : Sock α} {b : α} {chunk : List α}
    (h : s.recv 1 = some (b :: chunk, s')) : s.bytes = b :: s'.bytes := by
  have hle := recv_length_le h
  obtain rfl : chunk = [] := List.length_eq_zero_iff.mp (by simpa using hle)
  exact recv_append h

/-- There are bytes as long as the connection has not ended. -/
theorem bytes_eq_nil_of_recv {s : Sock α} {k : ℕ} (hk : 0 < k)
    (h : s.recv k = none ∨ ∃ s', s.recv k = some ([], s')) : s.bytes = [] := by
  rw [bytes]
  cases hpieces : s.pieces with
  | nil => rfl
  | cons piece pieces =>
    have hne := s.nonempty piece (by simp [hpieces])
    have hrecv : s.recv k = some (piece.take k, ofPieces (piece.drop k :: pieces) s.ending) := by
      rw [recv, hpieces]
    rw [hrecv] at h
    rcases h with h | ⟨s', h⟩
    · cases h
    · have htake : piece.take k = [] := congrArg Prod.fst (Option.some.inj h)
      rcases List.take_eq_nil_iff.mp htake with rfl | hnil
      · exact absurd hk (Nat.lt_irrefl 0)
      · exact absurd hnil hne

end Sock

/-! ### Readers -/

/-- The reader does on any pieces what the function does on their bytes: it returns the same,
and leaves the same bytes. -/
def Reads (read : Sock α → Option (β × Sock α)) (f : List α → Option (β × List α)) : Prop :=
  ∀ s, (read s).map (fun x => (x.1, x.2.bytes)) = f s.bytes

/-- The two fail together, or return the same and leave the same. -/
theorem Reads.cases {read : Sock α → Option (β × Sock α)} {f : List α → Option (β × List α)}
    (h : Reads read f) (s : Sock α) :
    (read s = none ∧ f s.bytes = none) ∨
      ∃ b s', read s = some (b, s') ∧ f s.bytes = some (b, s'.bytes) := by
  rw [← h s]
  cases hread : read s with
  | none => exact Or.inl ⟨rfl, rfl⟩
  | some x => exact Or.inr ⟨x.1, x.2, rfl, rfl⟩

/-- Readers one after the other: what is done next may look at the bytes that are left. -/
theorem Reads.bind_eq {read : Sock α → Option (β × Sock α)} {f : List α → Option (β × List α)}
    (h : Reads read f) {s : Sock α} {next : β × Sock α → Option γ} {g : β × List α → Option γ}
    (hnext : ∀ b s', next (b, s') = g (b, s'.bytes)) :
    (read s).bind next = (f s.bytes).bind g := by
  rcases h.cases s with ⟨hread, hf⟩ | ⟨b, s', hread, hf⟩
  · rw [hread, hf]
    rfl
  · rw [hread, hf, Option.bind_some, Option.bind_some]
    exact hnext b s'

/-- `recv` until there are `n` bytes; without them the connection ends too early. -/
def recvExact (n : ℕ) (data : List α) (s : Sock α) : Option (List α × Sock α) :=
  if data.length < n then
    match s.recv (n - data.length) with
    | none => none
    | some ([], _) => none
    | some (b :: chunk, s') => recvExact n (data ++ b :: chunk) s'
  else some (data, s)
termination_by n - data.length
decreasing_by
  simp only [List.length_append, List.length_cons]
  omega

/-- **The loop takes the bytes off the stream, however they are cut.** -/
theorem recvExact_eq {n : ℕ} {data : List α} (h : data.length ≤ n) (s : Sock α) :
    (recvExact n data s).map (fun x => (x.1, x.2.bytes)) =
      if s.bytes.length < n - data.length then none
      else some (data ++ s.bytes.take (n - data.length), s.bytes.drop (n - data.length)) := by
  fun_induction recvExact n data s with
  | case1 data s hlt hrecv =>
    rw [Sock.bytes_eq_nil_of_recv (by omega) (Or.inl hrecv), List.length_nil,
      if_pos (Nat.sub_pos_of_lt hlt)]
    rfl
  | case2 data s hlt s' hrecv =>
    rw [Sock.bytes_eq_nil_of_recv (by omega) (Or.inr ⟨s', hrecv⟩), List.length_nil,
      if_pos (Nat.sub_pos_of_lt hlt)]
    rfl
  | case3 data s hlt b chunk s' hrecv ih =>
    -- what has come is at the head of the bytes, and no more than what was asked for
    have hle := Sock.recv_length_le hrecv
    have hrest : n - data.length = (b :: chunk).length + (n - (data ++ b :: chunk).length) := by
      rw [List.length_append]
      omega
    rw [ih (by rw [List.length_append]; omega), Sock.recv_append hrecv, hrest,
      @List.length_append _ (b :: chunk), List.take_length_add_append,
      List.drop_length_add_append]
    simp only [Nat.add_lt_add_iff_left, List.append_assoc]
  | case4 data s hge =>
    have hzero : n - data.length = 0 := by omega
    simp [hzero]

theorem reads_recvExact (n : ℕ) : Reads (α := α) (recvExact n []) fun bytes =>
    if bytes.length < n then none else some (bytes.take n, bytes.drop n) := by
  intro s
  exact recvExact_eq (Nat.zero_le n) s

end MediaHub

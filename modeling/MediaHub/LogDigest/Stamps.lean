import MediaHub.LogDigest.Credentials

/-!
# Time stamps in a line with a credential

The time stamps of a line are replaced before the credentials in it are hidden.  A time stamp
is made of digits and of few other characters, so none runs into a key: what
becomes of the text before the key does not depend on the value.  The value may hold time
stamps, and one may run over its end.

## Main definitions

* `stampedPre`, `stampedValue`, `stampedPost` — what the time stamps leave of a line.
* `Whole` — no time stamp runs over the end of the value.

## Main results

* `pending_timestamp` — **no time stamp runs into a key.**
* `sub_timestamp` — **time stamps are replaced part by part.**
-/

namespace MediaHub
namespace LogDigest

open Regex Re

variable (C : CharClasses)

theorem digit_framing : ∀ c ∈ framing, C.digit c = false := by
  intro c hc
  rcases (framing_plain c hc).2.2.2 with h | h | ⟨hlt, h⟩
  · exact C.digit_space c h
  · exact C.digit_variant c h
  · rw [C.digit_ascii c hlt, h]

/-! ### The characters of time stamps -/

/-- Time stamps begin with a digit or a bracket. -/
theorem canStart_timestamp (c : Char) :
    (timestamp C).canStart c = (c == '[' || C.digit c) := by
  simp [timestamp, dateTime, seqs, digits, canStart, nullable]

theorem nullable_timestamp : (timestamp C).nullable = false := by
  simp [timestamp, dateTime, seqs, digits, oneOf, chr, nullable]

theorem ahead_timestamp : (timestamp C).ahead = 1 := by
  simp [timestamp, dateTime, seqs, digits, oneOf, chr, clock, fraction, opt, ahead]

/-- What can be within a time stamp besides digits. -/
def stampMarks : List Char := ['[', ']', '-', '/', 'T', ' ', '.', ',', ':', 'Z', '+']

theorem takes_timestamp {c : Char} (h : (timestamp C).takes c = true) :
    C.digit c = true ∨ c ∈ stampMarks := by
  simp only [timestamp, dateTime, fraction, clock, seqs, digits, oneOf, chr, opt, List.foldr, takes,
    Bool.or_eq_true, beq_iff_eq, decide_eq_true_eq, Bool.or_false] at h
  simp only [stampMarks]
  grind

theorem canEnd_timestamp (c : Char) :
    (timestamp C).canEnd c = (c == 'Z' || c == ']' || C.digit c) := by
  simp [timestamp, dateTime, fraction, clock, seqs, digits, oneOf, chr, opt, canEnd, nullable]
  grind

/-! ### Time stamps before a key -/

/-- The first letter of a key is not within a time stamp, but for the one of a token; and
then the next is not. -/
theorem head_key (o : Opening) : ∃ d l, o.key = d :: l ∧ d ∈ letters ∧
    (d ∈ stampMarks → d = 'T' ∧ ∃ e l', l = e :: l' ∧ e ∈ letters ∧ e ∉ stampMarks) := by
  have hkey := o.key_ok
  have htakes := (length_le_of_mem_run hkey).2
  rw [List.take_length] at htakes
  cases hk : o.key with
  | nil =>
    rw [hk] at hkey
    cases hkey
  | cons d l =>
    rw [hk] at hkey htakes
    refine ⟨d, l, rfl, takes_keyword (htakes d List.mem_cons_self), ?_⟩
    intro hmark
    have hstart : keyword.canStart d = true := by
      rcases canStart_of_mem_run hkey with ⟨h0, -⟩ | h
      · cases h0
      · exact h
    obtain rfl : d = 'T' := by
      have hall : ∀ d ∈ stampMarks, keyword.canStart d = true → d = 'T' :=
        forall_mem_of_all (by decide)
      exact hall d hmark hstart
    -- no other key begins with a `T`
    have htoken : ⟨('T' :: l).length, []⟩ ∈ (ignoreCase "token".toList).run none ('T' :: l) := by
      simp only [keyword, mem_run_alt] at hkey
      rcases hkey with h | h | h | h | h | h | h | h | h | h | h
      case inr.inr.inr.inl => exact h
      all_goals
        rcases canStart_of_mem_run h with ⟨h0, -⟩ | hc
        · cases h0
        · exact absurd hc (by decide)
    have hfolds := folds_of_mem_run htoken
    cases l with
    | nil =>
      cases hfolds with
      | cons _ h => cases h
    | cons e l =>
      have he : e ∈ folds 'o' := by
        cases hfolds with
        | cons _ h => cases h with
          | cons h _ => exact h
      have hplain : ∀ e ∈ folds 'o', e ∈ letters ∧ e ∉ stampMarks := forall_mem_of_all (by decide)
      exact ⟨rfl, e, l, rfl, hplain e he⟩

/-- **No time stamp runs into a key.** -/
theorem pending_timestamp (o : Opening) (a t : Text) :
    (timestamp C).pending 0 none a (o.text ++ t) = 0 := by
  have hdigit : ∀ d ∈ letters, C.digit d = false := fun d hd =>
    digit_framing C d (by simp [framing, hd])
  obtain ⟨d, l, ho, hd, hmark⟩ := head_key o
  refine pending_eq_zero ?_ (Nat.zero_le _) none
  intro p s _ prev m hm
  by_contra hgt
  obtain ⟨n, hn⟩ := Nat.exists_eq_add_of_lt (not_le.mp hgt)
  have htakes := (length_le_of_mem_run hm).2
  have hlast := canEnd_of_mem_run hm
  rw [Opening.text, ho, hn, Nat.add_assoc, List.take_length_add_append, List.cons_append,
    List.cons_append, List.take_succ_cons] at htakes hlast
  have hdmem : d ∈ stampMarks := by
    rcases takes_timestamp C (htakes d (by simp)) with h | h
    · rw [hdigit d hd] at h
      cases h
    · exact h
  obtain ⟨rfl, e, l, rfl, he, hemark⟩ := hmark hdmem
  -- so the key is of a token, and a time stamp would end with its first letter or go on
  cases n with
  | zero =>
    have hend := hlast 'T' (by simp)
    rw [canEnd_timestamp, hdigit _ hd] at hend
    revert hend
    decide
  | succ n =>
    rcases takes_timestamp C (htakes e (by simp)) with h | h
    · rw [hdigit e he] at h
      cases h
    · exact hemark h

/-! ### Part by part -/

/-- Behind a run there is no time stamp at once. -/
theorem canStart_timestamp_of_stop {d : Char} (hd : runChar d = false) :
    (timestamp C).canStart d = false := by
  have hplain : ∀ d ∈ spaces ++ ['&', '"', '\'', ',', '\u007d'], d ≠ '[' ∧
      (d ∈ spaces ∨ d.toNat < 128 ∧ d.isDigit = false) := forall_mem_of_all (by decide)
  have hmem : d ∈ spaces ++ ['&', '"', '\'', ',', '\u007d'] := by
    rw [List.mem_append]
    simpa only [runChar, isspace, Bool.not_eq_false', Bool.or_eq_true, decide_eq_true_eq] using hd
  obtain ⟨hne, hdigit⟩ := hplain d hmem
  have hfalse : C.digit d = false := by
    rcases hdigit with h | ⟨hlt, h⟩
    · exact C.digit_space d h
    · rw [C.digit_ascii d hlt, h]
  rw [canStart_timestamp, hfalse, Bool.or_false, beq_eq_false_iff_ne]
  exact hne

variable (c : Credential)

/-- The part of the line behind the value that a run takes with it. -/
def Credential.tail : Text := (rstrip c.post).takeWhile runChar

/-- The part behind that. -/
def Credential.rest : Text := (rstrip c.post).dropWhile runChar

/-- What the time stamps leave of the text before the key. -/
def stampedPre : Text := (timestamp C).scan (fun _ => time) 0 none (lstrip c.pre) c.lead

/-- What they leave of the value. -/
def stampedValue (v : Value) : Text :=
  (timestamp C).scan (fun _ => time) 0 (endOf none c.lead) (v.text ++ c.tail) c.rest

/-- What they leave of the text behind it. -/
def stampedPost : Text := (timestamp C).scan (fun _ => time) 0 none c.rest []

/-- No time stamp runs over the end of the value. -/
def Whole (v : Value) : Prop :=
  (timestamp C).pending 0 (endOf none c.lead) (v.text ++ c.tail) c.rest = 0

instance (v : Value) : Decidable (Whole C c v) := inferInstanceAs (Decidable (_ = 0))

variable {C c}

/-- The time stamps of a line are those of its parts. -/
theorem sub_timestamp {v : Value} (h : Whole C c v) :
    (timestamp C).sub (fun _ => time) (lstrip c.pre ++ c.lead ++ v.text ++ rstrip c.post) =
      stampedPre C c ++ c.lead ++ stampedValue C c v ++ stampedPost C c := by
  have hn := nullable_timestamp C
  have hparts : rstrip c.post = c.tail ++ c.rest :=
    (List.takeWhile_append_dropWhile (p := runChar)).symm
  have hlead : ∀ d ∈ c.lead, (timestamp C).canStart d = false := by
    intro d hd
    have hd := mem_framing_lead c d hd
    simp [canStart_timestamp, (framing_plain d hd).1, digit_framing C d hd]
  have hstop : ∀ d ∈ c.rest.head?, (timestamp C).canStart d = false := by
    intro d hd
    apply canStart_timestamp_of_stop
    have hnot := List.head?_dropWhile_not runChar (rstrip c.post)
    rw [show ((rstrip c.post).dropWhile runChar).head? = some d from hd] at hnot
    simpa using hnot
  have hend : ∀ prev : Option Char, endOf prev c.lead = endOf none c.lead := by
    intro prev
    obtain ⟨d, l, hb⟩ := between_ne_nil c.opening
    have hne : c.lead ≠ [] := by simp [Credential.lead, Opening.text, hb]
    obtain ⟨e, l, he⟩ := List.exists_cons_of_ne_nil hne
    rw [he]
    rfl
  have hline : lstrip c.pre ++ c.lead ++ v.text ++ rstrip c.post =
      lstrip c.pre ++ (c.lead ++ (v.text ++ c.tail ++ c.rest)) := by
    rw [hparts]
    simp only [List.append_assoc]
  -- no time stamp runs into the key, and what is before it does not depend on what follows
  have hbefore : ∀ t : Text, (timestamp C).pending 0 none (lstrip c.pre) (c.lead ++ t) = 0 := by
    intro t
    rw [Credential.lead, List.append_assoc]
    exact pending_timestamp C c.opening _ _
  have hpre : ∀ t : Text, (timestamp C).scan (fun _ => time) 0 none (lstrip c.pre) (c.lead ++ t) =
      stampedPre C c := by
    intro t
    obtain ⟨d, l, hb⟩ := between_ne_nil c.opening
    have hahead : (timestamp C).ahead ≤ c.lead.length := by
      simp [ahead_timestamp, Credential.lead, Opening.text, hb]
      omega
    rw [scan_congr hahead (hbefore t) (hbefore []), List.append_nil, stampedPre]
  -- part by part: the text before the key, the key, the value with its run, and the rest
  rw [hline, sub, scan_append, List.append_nil, hbefore, hpre, scan_append, List.append_nil,
    scan_of_canStart hn hlead, pending_of_canStart hn hlead, hend, scan_append,
    List.append_nil, h, scan_head hn hstop _ none]
  simp only [stampedValue, stampedPost, List.append_assoc]

end LogDigest
end MediaHub

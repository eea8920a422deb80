import MediaHub.LogDigest.Redact

/-!
# Lines with a credential

A line with a credential is some text, a key with its separator, perhaps a word, the value and
some text.  The log digest takes the white space off a line, and the colours out of it; what else is
cut out of a line can be in the value only.

## Main definitions

* `Credential`, `Value` — a line with a credential, and the credential itself.

## Main results

* `line_plain` — what is cut out of a line can be in the value only.
* `clean_line` — a line without escape characters loses the white space only.
-/

namespace MediaHub
namespace LogDigest

open Regex Re

/-! ### White space around a text -/

theorem lstrip_append {x y : Text} (hy : ∀ c ∈ y.head?, isspace c = false) :
    lstrip (x ++ y) = lstrip x ++ y := by
  induction x with
  | nil =>
    cases y with
    | nil => rfl
    | cons c y => exact List.dropWhile_cons_of_neg (by simp [hy c rfl])
  | cons c x ih =>
    unfold lstrip at ih ⊢
    rw [List.cons_append]
    cases hc : isspace c with
    | true => rw [List.dropWhile_cons_of_pos hc, List.dropWhile_cons_of_pos hc, ih]
    | false =>
      rw [List.dropWhile_cons_of_neg (by simp [hc]), List.dropWhile_cons_of_neg (by simp [hc])]
      rfl

theorem rstrip_append {x y : Text} (hx : ∀ c ∈ x.getLast?, isspace c = false) :
    rstrip (x ++ y) = x ++ rstrip y := by
  have h := lstrip_append (x := y.reverse) (y := x.reverse) (by rwa [List.head?_reverse])
  unfold lstrip at h
  rw [rstrip, rstrip, List.rdropWhile, List.rdropWhile, List.reverse_append, h,
    List.reverse_append, List.reverse_reverse]

/-- What is stripped off the end is white space. -/
theorem rstrip_append_spaces (s : Text) : ∃ w, s = rstrip s ++ w ∧ ∀ c ∈ w, isspace c = true := by
  refine ⟨s.rtakeWhile isspace, ?_, ?_⟩
  · rw [rstrip, List.rdropWhile_append_rtakeWhile]
  · intro c hc
    exact List.mem_rtakeWhile_imp hc

theorem head_opening (o : Opening) (t : Text) : ∀ c ∈ (o.text ++ t).head?, isspace c = false := by
  intro c hc
  cases hkey : o.key with
  | nil =>
    have h := o.key_ok
    rw [hkey] at h
    cases h
  | cons d k =>
    have hd : d ∈ letters := by
      refine takes_keyword ((length_le_of_mem_run o.key_ok).2 d ?_)
      rw [List.take_length, hkey]
      exact List.mem_cons_self
    have hhead : (o.text ++ t).head? = some d := by simp [Opening.text, hkey]
    rw [hhead] at hc
    cases hc
    exact (letters_plain c hd).1

/-! ### Lines with a credential -/

def basic : Regex Char := ignoreCase "basic".toList

/-- A control character. -/
def isControl (c : Char) : Bool := c.toNat < 0x20 || (0x7f ≤ c.toNat && c.toNat < 0xa0)

/-- What a line with a credential consists of but for the value: the word before the value
may also be `basic`. -/
structure Credential where
  pre : Text
  opening : Opening
  scheme : Text
  post : Text
  pre_plain : ∀ c ∈ pre, isControl c = false
  scheme_ok : SchemeOf (.alt bearer basic) scheme
  post_plain : ∀ c ∈ post, isControl c = false

/-- The value of a credential. -/
structure Value where
  text : Text
  nonempty : text ≠ []
  plain : ∀ c ∈ text, isspace c = false ∧ isQuote c = false

namespace Credential

/-- What is before the value, from the key on. -/
def lead (c : Credential) : Text := c.opening.text ++ c.scheme

/-- The line with the value `v`. -/
def line (c : Credential) (v : Value) : Text := c.pre ++ c.lead ++ v.text ++ c.post

end Credential

/-! ### The characters before a value -/

/-- What can be before a value: letters, white space, quotes and separators. -/
def framing : List Char := letters ++ spaces ++ ['"', '\'', '=', ':']

theorem framing_plain : ∀ c ∈ framing, c ≠ '[' ∧ c ≠ '\u001b' ∧ c ≠ '\u0000' ∧
    (c ∈ spaces ∨ c ∈ variants ∨ c.toNat < 128 ∧ c.isDigit = false) :=
  forall_mem_of_all (by decide)

/-- What is before a value consists of such characters. -/
theorem mem_framing_lead (c : Credential) : ∀ d ∈ c.lead, d ∈ framing := by
  have hletter : ∀ d ∈ letters, d ∈ framing := fun d hd => by simp [framing, hd]
  have hspace : ∀ d, isspace d = true → d ∈ framing := by
    intro d hd
    have hd : d ∈ spaces := of_decide_eq_true hd
    simp [framing, hd]
  have hmark : ∀ d, isQuote d = true ∨ isSep d = true → d ∈ framing := by
    intro d hd
    simp only [isQuote, isSep, Bool.or_eq_true, beq_iff_eq] at hd
    rcases hd with (rfl | rfl) | rfl | rfl <;> decide
  intro d hd
  simp only [Credential.lead, Opening.text, Opening.between, List.mem_append,
    List.mem_singleton] at hd
  rcases hd with (hd | hd | hd | hd | hd | hd) | hd
  · refine hletter d (takes_keyword ((length_le_of_mem_run c.opening.key_ok).2 d ?_))
    rwa [List.take_length]
  · exact hmark d (Or.inl (c.opening.mark₁_ok.2 d hd))
  · exact hspace d (c.opening.blanks₁_ok d hd)
  · rw [hd]
    exact hmark _ (Or.inr c.opening.sep_ok)
  · exact hspace d (c.opening.blanks₂_ok d hd)
  · exact hmark d (Or.inl (c.opening.mark₂_ok.2 d hd))
  · rcases c.scheme_ok with hnil | ⟨w, b, hwb, hw, -, hb⟩
    · rw [hnil] at hd
      cases hd
    · -- the word before the value, and the white space behind it
      rw [hwb, List.mem_append] at hd
      rcases hd with hd | hd
      · have htakes := (length_le_of_mem_run hw).2 d (by rwa [List.take_length])
        rcases Bool.or_eq_true_iff.mp htakes with h | h
        · exact hletter d (takes_bearer h)
        · exact hletter d (takes_ignoreCase (forall_mem_of_all (by decide)) h)
      · exact hspace d (hb d hd)

/-! ### Clean lines -/

section Line

variable (c : Credential)

/-- The line without the white space around it. -/
theorem strip_line (v : Value) :
    strip (c.line v) = lstrip c.pre ++ c.lead ++ v.text ++ rstrip c.post := by
  have hlast : ∀ d ∈ (lstrip c.pre ++ c.lead ++ v.text).getLast?, isspace d = false := by
    intro d hd
    rw [List.getLast?_append_of_ne_nil _ v.nonempty] at hd
    exact (v.plain d (List.mem_of_getLast? hd)).1
  have hhead : lstrip (c.line v) = lstrip c.pre ++ (c.lead ++ v.text ++ c.post) := by
    have h := head_opening c.opening (c.scheme ++ v.text ++ c.post)
    rw [Credential.line, List.append_assoc, List.append_assoc, lstrip_append]
    · simp only [List.append_assoc]
    · simpa only [Credential.lead, List.append_assoc] using h
  rw [strip, hhead, ← rstrip_append hlast]
  simp only [List.append_assoc]

/-- What is cut out of a line can be in the value only. -/
theorem line_plain {v : Value} {d : Char} (hd : d ∈ c.line v) :
    d ∈ v.text ∨ d ≠ '\u001b' ∧ d ≠ '\u0000' := by
  have hcontrol : ∀ d, isControl d = false → d ≠ '\u001b' ∧ d ≠ '\u0000' := by
    intro d hd
    constructor <;> (rintro rfl; cases hd)
  simp only [Credential.line, List.mem_append] at hd
  rcases hd with ((hd | hd) | hd) | hd
  · exact Or.inr (hcontrol d (c.pre_plain d hd))
  · have hplain := framing_plain d (mem_framing_lead c d hd)
    exact Or.inr ⟨hplain.2.1, hplain.2.2.1⟩
  · exact Or.inl hd
  · exact Or.inr (hcontrol d (c.post_plain d hd))

/-- A line without escape characters loses the white space only. -/
theorem clean_line {v : Value} (hv : ∀ d ∈ v.text, d ≠ '\u001b') :
    clean (c.line v) = lstrip c.pre ++ c.lead ++ v.text ++ rstrip c.post := by
  have hline : ∀ d ∈ c.line v, ansi.canStart d = false := by
    intro d hd
    have hd : d ≠ '\u001b' := (line_plain c hd).elim (hv d) And.left
    simpa [ansi, seqs, chr, canStart, nullable] using hd
  rw [clean, sub, scan_of_canStart (by decide) hline, strip_line]

theorem filter_line {v : Value} (hv : ∀ d ∈ v.text, d ≠ '\u0000') :
    (c.line v).filter (· != '\u0000') = c.line v := by
  rw [List.filter_eq_self]
  intro d hd
  rw [bne_iff_ne]
  exact (line_plain c hd).elim (hv d) And.right

end Line

end LogDigest
end MediaHub

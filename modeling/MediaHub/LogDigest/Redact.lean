import MediaHub.LogDigest.Patterns

/-!
# What the pattern for credentials matches

The pattern looks for a key, and takes with it a quote, the separator, another quote and the
word `bearer`, all of which stay in the text; then it takes at least four characters that do
not end a value, and these go.  None of the other ways in which it might match at the key
comes first, but that a value is taken for the word `bearer`.

## Main definitions

* `Opening`, `SchemeOf` — a key with what is behind it, and the word before a value.
* `Covers`, `Covered` — the pattern hides a value, and two values in the same way.

## Main results

* `first_opening` — the pattern does not stop within a key.
* `first_secret` — **what the match at a key is.**
* `redact_of_covers`, `redact_congr` — what becomes of a covered value.
-/

namespace MediaHub
namespace LogDigest

open Regex Re

/-! ### The characters of a key -/

/-- All that a letter of a key, or of the word before a value, stands for. -/
def letters : List Char := "apikeyxltonswrdcuhzb-_".toList.flatMap folds

theorem letters_plain : ∀ c ∈ letters,
    isspace c = false ∧ isQuote c = false ∧ isSep c = false ∧ runChar c = true :=
  forall_mem_of_all (by decide)

theorem takes_ignoreCase {cs : List Char} {c : Char}
    (hcs : ∀ d ∈ cs, d ∈ "apikeyxltonswrdcuhzb-_".toList)
    (h : (ignoreCase cs).takes c = true) : c ∈ letters := by
  induction cs with
  | nil => cases h
  | cons d cs ih =>
    have h : (oneOf (folds d)).takes c = true ∨ (ignoreCase cs).takes c = true :=
      Bool.or_eq_true_iff.mp h
    rcases h with h | h
    · refine List.mem_flatMap.mpr ⟨d, hcs d List.mem_cons_self, ?_⟩
      exact of_decide_eq_true h
    · exact ih (fun e he => hcs e (List.mem_cons_of_mem _ he)) h

theorem takes_bearer {c : Char} (h : bearer.takes c = true) : c ∈ letters :=
  takes_ignoreCase (forall_mem_of_all (by decide)) h

theorem takes_keyword {c : Char} (h : keyword.takes c = true) : c ∈ letters := by
  simp only [keyword, apiKey, password, opt, takes, Bool.or_eq_true] at h
  rcases h with (h | h | h) | h | h | h | (h | (h | h) | h) | h | h | h | h | h | h
  case inl.inr.inl =>
    have hc : c = '-' ∨ c = '_' := by simpa using h
    rcases hc with rfl | rfl <;> decide
  case inr.inr.inr.inr.inl.inr.inl.inr => cases h
  all_goals exact takes_ignoreCase (forall_mem_of_all (by decide)) h

/-! ### What precedes a value -/

/-- A key, with what is between it and the value but for the word before the value. -/
structure Opening where
  key : Text
  mark₁ : Text
  blanks₁ : Text
  sep : Char
  blanks₂ : Text
  mark₂ : Text
  key_ok : ⟨key.length, []⟩ ∈ keyword.run none key
  mark₁_ok : mark₁.length ≤ 1 ∧ ∀ c ∈ mark₁, isQuote c = true
  blanks₁_ok : ∀ c ∈ blanks₁, isspace c = true
  sep_ok : isSep sep = true
  blanks₂_ok : ∀ c ∈ blanks₂, isspace c = true
  mark₂_ok : mark₂.length ≤ 1 ∧ ∀ c ∈ mark₂, isQuote c = true

namespace Opening

/-- What is between the key and the value. -/
def between (o : Opening) : Text := o.mark₁ ++ (o.blanks₁ ++ ([o.sep] ++ (o.blanks₂ ++ o.mark₂)))

def text (o : Opening) : Text := o.key ++ o.between

end Opening

/-- One of the words and white space, or nothing. -/
def SchemeOf (words : Regex Char) (s : Text) : Prop :=
  s = [] ∨ ∃ w b, s = w ++ b ∧ ⟨w.length, []⟩ ∈ words.run none w ∧ b ≠ [] ∧
    ∀ c ∈ b, isspace c = true

theorem runChar_plain {c : Char} (h : runChar c = true) :
    isspace c = false ∧ isQuote c = false := by
  simp only [runChar, Bool.not_eq_true', Bool.or_eq_false_iff, decide_eq_false_iff_not,
    List.mem_cons, not_or] at h
  refine ⟨h.1, ?_⟩
  simp [isQuote, h.2.2.1, h.2.2.2.1]

theorem isspace_plain : ∀ c ∈ spaces, isQuote c = false ∧ runChar c = false :=
  forall_mem_of_all (by decide)

theorem isQuote_plain {c : Char} (h : isQuote c = true) : isspace c = false := by
  simp only [isQuote, Bool.or_eq_true, beq_iff_eq] at h
  rcases h with rfl | rfl <;> decide

theorem isSep_plain {c : Char} (h : isSep c = true) : isspace c = false ∧ isQuote c = false := by
  simp only [isSep, Bool.or_eq_true, beq_iff_eq] at h
  rcases h with rfl | rfl <;> decide

/-- Behind the key, the pattern takes all that is before the value. -/
theorem first_separation (o : Opening) {t : Text} (ht : ∀ c ∈ t.head?, runChar c = true)
    (prev : Option Char) :
    separation.first prev (o.between ++ t) = some ⟨o.between.length, []⟩ := by
  have hblank : ∀ c : Char, isspace c = true → isQuote c = false := by
    intro c hc
    exact (isspace_plain c (of_decide_eq_true hc)).1
  -- the quote before the value, and the white space before that
  have hquote₂ : ∀ prev, quote.first prev (o.mark₂ ++ t) = some ⟨o.mark₂.length, []⟩ := by
    intro prev
    refine first_optional o.mark₂_ok.1 o.mark₂_ok.2 ?_
    intro _ c hc
    exact (runChar_plain (ht c hc)).2
  have hblanks₂ : ∀ prev, blanks.first prev (o.blanks₂ ++ (o.mark₂ ++ t)) =
      some ⟨o.blanks₂.length, []⟩ := by
    intro prev
    refine first_many o.blanks₂_ok ?_ (Nat.zero_le _)
    intro c hc
    cases hm : o.mark₂ with
    | nil =>
      rw [hm] at hc
      exact (runChar_plain (ht c hc)).1
    | cons d l =>
      rw [hm] at hc
      cases hc
      exact isQuote_plain (o.mark₂_ok.2 c (hm ▸ List.mem_cons_self))
  have htail : ∀ prev, (Regex.seq (.cls isSep) (.seq blanks quote)).first prev
      ([o.sep] ++ (o.blanks₂ ++ o.mark₂) ++ t) =
        some ⟨([o.sep] ++ (o.blanks₂ ++ o.mark₂)).length, [] ++ ([] ++ [])⟩ := by
    intro prev
    refine first_seq_append (first_cls o.sep_ok) ?_
    intro prev
    refine first_seq_append (hblanks₂ prev) hquote₂
  have hsep := isSep_plain o.sep_ok
  have hblanks₁ : ∀ prev, (Regex.seq blanks (.seq (.cls isSep) (.seq blanks quote))).first prev
      (o.blanks₁ ++ ([o.sep] ++ (o.blanks₂ ++ o.mark₂)) ++ t) =
        some ⟨(o.blanks₁ ++ ([o.sep] ++ (o.blanks₂ ++ o.mark₂))).length,
          [] ++ ([] ++ ([] ++ []))⟩ := by
    intro prev
    refine first_seq_append ?_ htail
    refine first_many o.blanks₁_ok ?_ (Nat.zero_le _)
    rintro c ⟨⟩
    exact hsep.1
  have hquote₁ : quote.first prev (o.mark₁ ++ (o.blanks₁ ++ ([o.sep] ++ (o.blanks₂ ++ o.mark₂)) ++
      t)) = some ⟨o.mark₁.length, []⟩ := ?_
  · exact first_seq_append hquote₁ hblanks₁
  refine first_optional o.mark₁_ok.1 o.mark₁_ok.2 ?_
  intro _ c hc
  cases hb : o.blanks₁ with
  | nil =>
    rw [hb] at hc
    cases hc
    exact hsep.2
  | cons d l =>
    rw [hb] at hc
    cases hc
    exact hblank c (o.blanks₁_ok c (hb ▸ List.mem_cons_self))

/-- No letter is between the key and the value. -/
theorem notMem_letters_between (o : Opening) : ∀ c ∈ o.between, c ∉ letters := by
  have hplain : ∀ c, isspace c = true ∨ isQuote c = true ∨ isSep c = true → c ∉ letters := by
    intro c h hc
    obtain ⟨h₁, h₂, h₃, -⟩ := letters_plain c hc
    rw [h₁, h₂, h₃] at h
    simp at h
  intro c hc
  refine hplain c ?_
  simp only [Opening.between, List.mem_append, List.mem_singleton] at hc
  rcases hc with hc | hc | rfl | hc | hc
  · exact Or.inr (Or.inl (o.mark₁_ok.2 c hc))
  · exact Or.inl (o.blanks₁_ok c hc)
  · exact Or.inr (Or.inr o.sep_ok)
  · exact Or.inl (o.blanks₂_ok c hc)
  · exact Or.inr (Or.inl (o.mark₂_ok.2 c hc))

theorem between_ne_nil (o : Opening) : ∃ c l, o.between = c :: l := by
  refine List.exists_cons_of_ne_nil ?_
  simp [Opening.between]

/-- The pattern does not stop within a key. -/
theorem first_opening (o : Opening) {t : Text} (ht : ∀ c ∈ t.head?, runChar c = true)
    (prev : Option Char) :
    (Regex.seq keyword separation).first prev (o.text ++ t) = some ⟨o.text.length, []⟩ := by
  have hmem : ⟨o.key.length, []⟩ ∈ keyword.run prev (o.key ++ (o.between ++ t)) := by
    rw [run_prev (by decide) prev none]
    exact mem_run_append (by decide) o.key_ok _
  have hkey : ∀ c ∈ o.key, c ∈ letters := by
    intro c hc
    refine takes_keyword ((length_le_of_mem_run o.key_ok).2 c ?_)
    rwa [List.take_length]
  rw [Opening.text, List.append_assoc, List.length_append]
  refine first_seq_of_only (k := ⟨o.between.length, []⟩) hmem ?_ ?_
  · intro l hl hne
    have hgroups := groups_of_mem_run (by decide) hl
    have hlen : l.length ≠ o.key.length := by
      intro h
      apply hne
      rw [← h, ← hgroups]
    rcases Nat.lt_or_gt_of_ne hlen with hlt | hgt
    · -- inside the key there is a letter, and no separator
      rw [List.drop_append_of_le_length hlt.le, List.drop_eq_getElem_cons hlt, List.cons_append]
      obtain ⟨hs, hq, hp, -⟩ := letters_plain _ (hkey _ (List.getElem_mem hlt))
      refine run_eq_nil (by decide) ?_
      simp [separation, quote, blanks, canStart, nullable, hs, hq, hp]
    · -- beyond the key there is no letter
      obtain ⟨c, b, hb⟩ := between_ne_nil o
      refine absurd (takes_keyword ((length_le_of_mem_run hl).2 c ?_))
        (notMem_letters_between o c (hb ▸ List.mem_cons_self))
      obtain ⟨n, hn⟩ := Nat.exists_eq_add_of_lt hgt
      rw [hb, hn, Nat.add_assoc, List.take_length_add_append, List.cons_append, List.take_succ_cons]
      simp
  · rw [List.drop_left]
    exact first_separation o ht _

/-! ### The match at a key -/

theorem mem_run_ignoreCase {cs : List Char} {prev : Option Char} {s : Text} {m : Match Char}
    (h : m ∈ (ignoreCase cs).run prev s) : m = ⟨cs.length, []⟩ := by
  induction cs generalizing prev s m with
  | nil => exact List.mem_singleton.mp h
  | cons c cs ih =>
    obtain ⟨k, hk, l, hl, rfl⟩ := mem_run_seq.mp h
    cases s with
    | nil => cases hk
    | cons d s =>
      have hk : k ∈ (Regex.cls (· ∈ folds c)).run prev (d :: s) := hk
      rw [run] at hk
      split at hk
      · cases List.mem_singleton.mp hk
        rw [ih hl, Match.append, List.length_cons, Nat.add_comm]
        rfl
      · cases hk

/-- What a word without regard to case takes, letter by letter. -/
theorem folds_of_mem_run {cs : List Char} {prev : Option Char} {s : Text} {m : Match Char}
    (h : m ∈ (ignoreCase cs).run prev s) :
    List.Forall₂ (fun c d => d ∈ folds c) cs (s.take cs.length) := by
  induction cs generalizing prev s m with
  | nil => exact List.Forall₂.nil
  | cons c cs ih =>
    obtain ⟨k, hk, l, hl, -⟩ := mem_run_seq.mp h
    cases s with
    | nil => cases hk
    | cons d s =>
      have hk : k ∈ (Regex.cls (· ∈ folds c)).run prev (d :: s) := hk
      rw [run] at hk
      split at hk
      · next hd =>
        cases List.mem_singleton.mp hk
        exact List.Forall₂.cons (of_decide_eq_true hd) (ih hl)
      · cases hk

/-- The word `bearer` and white space are taken together. -/
theorem first_bearerBlanks {w b t : Text} (hw : ⟨w.length, []⟩ ∈ bearer.run none w) (hb : b ≠ [])
    (hspace : ∀ c ∈ b, isspace c = true) (ht : ∀ c ∈ t.head?, runChar c = true)
    (prev : Option Char) :
    bearerBlanks.first prev (w ++ b ++ t) = some ⟨(w ++ b).length, []⟩ := by
  have hblanks : ∀ prev, (Regex.many isspace 1 none).first prev (b ++ t) = some ⟨b.length, []⟩ := by
    intro prev
    refine first_many hspace ?_ (List.length_pos_iff.mpr hb)
    intro c hc
    exact (runChar_plain (ht c hc)).1
  have hmem : ⟨w.length, []⟩ ∈ bearer.run prev (w ++ (b ++ t)) := by
    rw [run_prev (by decide) prev none]
    exact mem_run_append (by decide) hw _
  have hword : bearer.first prev (w ++ (b ++ t)) = some ⟨w.length, []⟩ := by
    refine first_eq_of_forall hmem ?_
    intro l hl
    rw [mem_run_ignoreCase hl, mem_run_ignoreCase hmem]
  exact first_seq_append hword hblanks

/-- The word before a value begins with a letter. -/
theorem head_scheme {w b t : Text} (hw : ⟨w.length, []⟩ ∈ bearer.run none w) :
    ∀ c ∈ (w ++ b ++ t).head?, runChar c = true := by
  intro c hc
  cases w with
  | nil => cases mem_run_ignoreCase hw
  | cons d w =>
    cases hc
    have hc := takes_bearer ((length_le_of_mem_run hw).2 c (by simp))
    exact (letters_plain c hc).2.2.2

/-- The successes of the group that is kept, without a word before the value: those that take
the word `bearer` off the value are tried first. -/
theorem run_lead_bare (o : Opening) {t : Text} (ht : ∀ c ∈ t.head?, runChar c = true)
    (prev : Option Char) :
    ∃ ms, (Regex.group lead).run prev (o.text ++ t) =
      (bearerBlanks.run none t).map (fun j => ⟨o.text.length + j.length,
        (o.text ++ t).take (o.text.length + j.length) :: j.groups⟩) ++
        ⟨o.text.length, [o.text]⟩ :: ms := by
  obtain ⟨rest, hrest⟩ := List.head?_eq_some_iff.mp (first_opening o ht prev)
  have hopt : ∀ prev, (opt bearerBlanks).run prev t = bearerBlanks.run none t ++ [⟨0, []⟩] := by
    intro prev
    rw [opt, run, run_prev (r := bearerBlanks) (by decide) prev none]
    rfl
  have hlead : lead.run prev (o.text ++ t) =
      (bearerBlanks.run none t).map (Match.append ⟨o.text.length, []⟩) ++
        ⟨o.text.length, []⟩ :: rest.flatMap fun m =>
          ((opt bearerBlanks).run (endOf prev ((o.text ++ t).take m.length))
            ((o.text ++ t).drop m.length)).map m.append := by
    rw [lead, run, hrest, List.flatMap_cons, List.drop_left, hopt, List.map_append,
      List.append_assoc]
    rfl
  rw [run, hlead, List.map_append, List.map_map, List.map_cons, List.take_left]
  exact ⟨_, rfl⟩

/-- The successes before the one that ends at the value lead nowhere. -/
theorem run_lead (o : Opening) {s t : Text} (hs : SchemeOf bearer s)
    (ht : ∀ c ∈ t.head?, runChar c = true)
    (hword : s = [] → (Regex.seq bearerBlanks value).run none t = []) (prev : Option Char) :
    ∃ ms ms', (Regex.group lead).run prev (o.text ++ s ++ t) =
        ms ++ ⟨(o.text ++ s).length, [o.text ++ s]⟩ :: ms' ∧
      ∀ l ∈ ms, ∀ prev, value.run prev ((o.text ++ s ++ t).drop l.length) = [] := by
  rcases hs with rfl | ⟨w, b, rfl, hw, hb, hspace⟩
  · -- before it, only the word `bearer` could be taken
    obtain ⟨ms', hms'⟩ := run_lead_bare o ht prev
    rw [List.append_nil, hms']
    refine ⟨_, ms', rfl, ?_⟩
    intro l hl prev
    obtain ⟨j, hj, rfl⟩ := List.mem_map.mp hl
    have hnil := List.flatMap_eq_nil_iff.mp (hword rfl) j hj
    rw [List.drop_length_add_append]
    exact List.map_eq_nil_iff.mp hnil
  · have hopt : ∀ prev, (opt bearerBlanks).first prev (w ++ b ++ t) =
        some ⟨(w ++ b).length, []⟩ := by
      intro prev
      rw [opt, first_alt, first_bearerBlanks hw hb hspace ht prev]
      rfl
    have hlead := first_seq_append (first_opening o (head_scheme hw) prev) hopt
    have hgroup := first_group hlead
    rw [List.take_left] at hgroup
    obtain ⟨ms', hms'⟩ := List.head?_eq_some_iff.mp hgroup
    exact ⟨[], ms', hms', by simp⟩

/-- **At a key, the pattern takes what is before the value, and all of the value that it can.** -/
theorem first_secret (o : Opening) {s t : Text} (hs : SchemeOf bearer s)
    (hlong : 4 ≤ (t.takeWhile runChar).length)
    (hword : s = [] → (Regex.seq bearerBlanks value).run none t = []) (prev : Option Char) :
    secret.first prev (o.text ++ s ++ t) =
      some ⟨(o.text ++ s ++ t.takeWhile runChar).length, [o.text ++ s]⟩ := by
  have ht : ∀ c ∈ t.head?, runChar c = true := by
    intro c hc
    cases t with
    | nil => cases hc
    | cons d t =>
      cases hc
      by_contra hd
      rw [List.takeWhile_cons_of_neg hd] at hlong
      exact absurd hlong (by decide)
  -- what is kept ends at `t`, as the successes before that lead nowhere
  obtain ⟨ms, ms', hrun, hms⟩ := run_lead o hs ht hword prev
  have hvalue : ∀ prev, value.first prev t = some ⟨(t.takeWhile runChar).length, []⟩ := by
    intro prev
    have hmany : value.first prev (t.takeWhile runChar ++ t.dropWhile runChar) =
        some ⟨(t.takeWhile runChar).length, []⟩ := by
      refine first_many (fun c hc => List.mem_takeWhile_imp hc) ?_ hlong
      intro c hc
      have := List.head?_dropWhile_not runChar t
      rw [hc] at this
      simpa using this
    rwa [List.takeWhile_append_dropWhile] at hmany
  have hfirst := first_seq hrun (fun l hl => hms l hl _) (k := ⟨(t.takeWhile runChar).length, []⟩)
    (by rw [List.drop_left]; exact hvalue _)
  rw [secret, hfirst, Match.append, ← List.length_append]
  rfl

/-! ### Covered values -/

/-- The pattern covers a value: it passes `a`, matches at the key that follows, and takes `r`,
the value, and all that can be taken behind it. -/
structure Covers (a : Text) (o : Opening) (s r v after : Text) : Prop where
  passes : secret.pending 0 none a (o.text ++ s ++ (r ++ v ++ after)) = 0
  inRun : ∀ c ∈ r ++ v, runChar c = true
  long : 4 ≤ ((r ++ v ++ after).takeWhile runChar).length
  noWord : s = [] → (Regex.seq bearerBlanks value).run none (r ++ v ++ after) = []

/-- Between `before` and `after`, both values are covered in the same way. -/
def Covered (before v v' after : Text) : Prop :=
  ∃ a o s r, before = a ++ (o.text ++ s ++ r) ∧ SchemeOf bearer s ∧
    Covers a o s r v after ∧ Covers a o s r v' after

/-- What becomes of a line whose value is covered. -/
theorem redact_of_covers {a s r v after : Text} {o : Opening} (hs : SchemeOf bearer s)
    (h : Covers a o s r v after) :
    redact (a ++ (o.text ++ s ++ r) ++ v ++ after) =
      secret.scan hide 0 none a (o.text ++ s ++ (r ++ v ++ after)) ++
        (o.text ++ s ++ "<redacted>".toList ++ redact (after.dropWhile runChar)) := by
  have hdrop : (r ++ v ++ after).dropWhile runChar = after.dropWhile runChar :=
    List.dropWhile_append_of_pos h.inRun
  -- the value, with all that is taken with it, and the rest
  obtain ⟨y, hy⟩ : ∃ y, y = (r ++ v ++ after).takeWhile runChar := ⟨_, rfl⟩
  have hparts : r ++ v ++ after = y ++ after.dropWhile runChar := by
    rw [hy, ← hdrop, List.takeWhile_append_dropWhile]
  have hfirst := first_secret o hs h.long h.noWord (endOf none a)
  rw [← hy, hparts, ← List.append_assoc] at hfirst
  have hne : o.text ++ s ++ y ≠ [] := by
    intro hnil
    have := h.long
    rw [← hy, (List.append_eq_nil_iff.mp hnil).2] at this
    exact absurd this (by decide)
  calc redact (a ++ (o.text ++ s ++ r) ++ v ++ after)
      = secret.sub hide (a ++ (o.text ++ s ++ (r ++ v ++ after))) := by
        simp only [redact, List.append_assoc]
    _ = secret.scan hide 0 none a (o.text ++ s ++ (r ++ v ++ after)) ++
          secret.scan hide 0 (endOf none a) (o.text ++ s ++ y ++ after.dropWhile runChar) [] := by
        rw [sub, scan_append, List.append_nil, h.passes, hparts, List.append_assoc _ y]
    _ = _ := by
        rw [scan_of_first hne hfirst,
          scan_prev (by decide) 0 (endOf (endOf none a) (o.text ++ s ++ y)) none]
        rfl

/-- **Values that are covered in the same way are hidden.** -/
theorem redact_congr {before v v' after : Text} (h : Covered before v v' after) :
    redact (before ++ v ++ after) = redact (before ++ v' ++ after) := by
  obtain ⟨a, o, s, r, rfl, hs, hv, hv'⟩ := h
  rw [redact_of_covers hs hv, redact_of_covers hs hv', scan_congr ?_ hv.passes hv'.passes]
  exact Nat.zero_le _

end LogDigest
end MediaHub

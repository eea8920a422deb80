import MediaHub.Lib.Lines
import MediaHub.Re

/-!
# The text of a subtitle file

`stacks/subgen-r9/scripts/extract_srt_text.py` takes the blocks between doubled line ends for
the cues of a file, drops the first two lines of each, takes tags and braces out of the others
and joins what is left with single spaces.

## Main definitions

* `extractText` — `extract_text`, on the text of the file.
* `Tagged` — a text that has a tag in it.

## Main results

* `search_tag_iff` — **the pattern finds a tag exactly where there is one.**
* `cleanText_of_not_tagged`, `countP_cleanText_lt` — lines without tags keep what they say, and
  lines with a tag lose an opening bracket.
-/

namespace MediaHub
namespace SrtText

open Regex Re

/-! ### The script -/

/-- What reading in text mode makes of the line ends. -/
def universalNewlines : Text → Text
  | [] => []
  | ['\r'] => ['\n']
  | '\r' :: '\n' :: s => '\n' :: universalNewlines s
  | '\r' :: c :: s => '\n' :: universalNewlines (c :: s)
  | c :: s => c :: universalNewlines s

/-- `<[^>]+>`. -/
def tag : Regex Char := seqs [chr '<', .many (· != '>') 1 none, chr '>']

/-- `\{[^}]*\}`. -/
def braces : Regex Char := seqs [chr '\u007b', .many (· != '\u007d') 0 none, chr '\u007d']

/-- The text of some lines of a cue. -/
def cleanText (ls : List Text) : Text :=
  let text := joinLines ' ' ls
  let text := tag.sub (fun _ _ => []) text
  let text := braces.sub (fun _ _ => []) text
  collapse isspace ' ' text

/-- The text of a block, if it has one. -/
def blockText (blockLines : List Text) : Option Text :=
  if blockLines.length < 3 then none
  else
    let text := cleanText (blockLines.drop 2)
    if text = [] then none else some text

/-- `extract_text`; `content` is what is in the file. -/
def extractText (content : Text) : Text :=
  let blocks := blocks '\n' (trim isspace (universalNewlines content))
  joinLines ' ' (blocks.filterMap fun block => blockText (block.splitOn '\n'))

theorem universalNewlines_of_notMem {s : Text} (h : '\r' ∉ s) : universalNewlines s = s := by
  fun_induction universalNewlines s with
  | case1 => rfl
  | case2 => simp at h
  | case3 s ih => simp at h
  | case4 c s hc ih => simp at h
  | case5 c s h1 h2 h3 ih => rw [ih fun hmem => h (List.mem_cons_of_mem _ hmem)]

/-- The branches for a carriage return leave the other characters. -/
theorem ne_return {c : Char} {s : Text} (hnil : c = '\r' → s = [] → False)
    (hcons : ∀ (d : Char) (t : Text), c = '\r' → s = d :: t → False) : c ≠ '\r' := by
  intro hc
  cases s with
  | nil => exact hnil hc rfl
  | cons d t => exact hcons d t hc rfl

/-- A character that is no line end is read as it is. -/
theorem universalNewlines_cons {c : Char} (hc : c ≠ '\r') (s : Text) :
    universalNewlines (c :: s) = c :: universalNewlines s := by
  rw [universalNewlines]
  · exact fun h _ => hc h
  · exact fun t h _ => hc h
  · exact fun d t h _ => hc h

theorem universalNewlines_append {p : Text} (hp : '\r' ∉ p) (s : Text) :
    universalNewlines (p ++ s) = p ++ universalNewlines s := by
  induction p with
  | nil => rfl
  | cons c p ih =>
    rw [List.mem_cons, not_or] at hp
    rw [List.cons_append, universalNewlines_cons (Ne.symm hp.1), ih hp.2]
    rfl

/-- Only a line feed is read together with what is before it. -/
theorem universalNewlines_append_cons {c : Char} (hc : c ≠ '\n') (s t : Text) :
    universalNewlines (s ++ c :: t) = universalNewlines s ++ universalNewlines (c :: t) := by
  fun_induction universalNewlines s with
  | case1 => rfl
  | case2 =>
    show universalNewlines ('\r' :: c :: t) = '\n' :: universalNewlines (c :: t)
    rw [universalNewlines]
    exact hc
  | case3 s ih => exact congrArg (List.cons '\n') ih
  | case4 d s hd ih =>
    rw [List.cons_append, List.cons_append, universalNewlines, ← List.cons_append, ih]
    · rfl
    · exact hd
  | case5 d s h1 h2 h3 ih =>
    rw [List.cons_append, universalNewlines_cons (ne_return h1 h3), ih]
    rfl

/-- A line feed ends a line, whatever is behind it. -/
theorem exists_universalNewlines (s : Text) :
    ∃ z, ∀ t, universalNewlines (s ++ '\n' :: t) = z ++ '\n' :: universalNewlines t := by
  have hnl : ∀ t, universalNewlines ('\n' :: t) = '\n' :: universalNewlines t :=
    universalNewlines_cons (by decide)
  fun_induction universalNewlines s with
  | case1 => exact ⟨[], hnl⟩
  | case2 => exact ⟨[], fun t => by rw [List.cons_append, List.nil_append, universalNewlines]; rfl⟩
  | case3 s ih =>
    obtain ⟨z, hz⟩ := ih
    refine ⟨'\n' :: z, fun t => ?_⟩
    rw [List.cons_append, List.cons_append, universalNewlines, hz]
    rfl
  | case4 d s hd ih =>
    obtain ⟨z, hz⟩ := ih
    refine ⟨'\n' :: z, fun t => ?_⟩
    rw [List.cons_append, List.cons_append, universalNewlines, ← List.cons_append, hz]
    · rfl
    · exact hd
  | case5 d s h1 h2 h3 ih =>
    obtain ⟨z, hz⟩ := ih
    refine ⟨d :: z, fun t => ?_⟩
    rw [List.cons_append, universalNewlines_cons (ne_return h1 h3), hz]
    rfl

theorem notMem_universalNewlines (s : Text) : '\r' ∉ universalNewlines s := by
  fun_induction universalNewlines s with
  | case1 => exact List.not_mem_nil
  | case2 => decide
  | case3 s ih => simpa using ih
  | case4 d s hd ih => simpa using ih
  | case5 d s h1 h2 h3 ih =>
    rw [List.mem_cons, not_or]
    exact ⟨(ne_return h1 h3).symm, ih⟩

/-- Every line end is read as a line feed. -/
theorem notMem_of_notMem_universalNewlines {s : Text} (h : '\n' ∉ universalNewlines s) :
    '\n' ∉ s ∧ '\r' ∉ s := by
  fun_induction universalNewlines s with
  | case1 => exact ⟨List.not_mem_nil, List.not_mem_nil⟩
  | case2 => exact absurd List.mem_cons_self h
  | case3 s ih => exact absurd List.mem_cons_self h
  | case4 d s hd ih => exact absurd List.mem_cons_self h
  | case5 c s h1 h2 h3 ih =>
    rw [List.mem_cons, not_or] at h
    obtain ⟨hnl, hcr⟩ := ih h.2
    rw [List.mem_cons, not_or, List.mem_cons, not_or]
    exact ⟨⟨h.1, hnl⟩, (ne_return h1 h3).symm, hcr⟩

/-! ### Tags -/

/-- There is a tag in the text: an opening bracket, something, and a closing one. -/
def Tagged (s : Text) : Prop :=
  ∃ x y z, s = x ++ '<' :: (y ++ '>' :: z) ∧ y ≠ [] ∧ '>' ∉ y

/-- A text with a tag in a part of it has a tag. -/
theorem Tagged.mono {s t : Text} (h : Tagged s) (hst : s <:+: t) : Tagged t := by
  obtain ⟨x, y, z, rfl, hne, hy⟩ := h
  obtain ⟨pre, post, rfl⟩ := hst
  exact ⟨pre ++ x, y, z ++ post, by simp, hne, hy⟩

/-- White space behind a text does not make a tag. -/
theorem tagged_append_iff {s w : Text} (hw : ∀ c ∈ w, isspace c = true) :
    Tagged (s ++ w) ↔ Tagged s := by
  refine ⟨?_, fun h => h.mono (List.prefix_append s w).isInfix⟩
  rintro ⟨x, y, z, heq, hne, hy⟩
  have hsplit : s ++ w = (x ++ '<' :: (y ++ ['>'])) ++ z := by simpa using heq
  rcases List.append_eq_append_iff.mp hsplit with ⟨v, htag, hv⟩ | ⟨v, rfl, -⟩
  · -- the closing bracket is not white space
    rcases List.eq_nil_or_concat v with rfl | ⟨v, c, rfl⟩
    · exact ⟨x, y, [], by simpa using htag.symm, hne, hy⟩
    · have hlast : x ++ '<' :: (y ++ ['>']) = (x ++ '<' :: y) ++ ['>'] := by simp
      rw [hlast, List.concat_eq_append, ← List.append_assoc] at htag
      obtain ⟨-, hc⟩ := List.append_inj' htag rfl
      obtain rfl : '>' = c := by simpa using hc
      exact absurd (hw '>' (by rw [hv]; simp)) (by decide)
  · exact ⟨x, y, v, by simp, hne, hy⟩

/-- A single character is found at the head of a text. -/
theorem run_chr {c : Char} {prev : Option Char} {t : Text} {k : Match Char}
    (h : k ∈ (chr c).run prev t) : ∃ s, t = c :: s ∧ k = ⟨1, []⟩ := by
  cases t with
  | nil => cases h
  | cons d t =>
    simp only [chr, run, beq_iff_eq] at h
    split at h
    · rename_i hd
      exact ⟨t, by rw [hd], List.mem_singleton.mp h⟩
    · cases h

/-- What the pattern finds at a place: a bracket, something, and the closing bracket. -/
theorem run_tag_iff {prev : Option Char} {t : Text} :
    tag.run prev t ≠ [] ↔ ∃ y z, t = '<' :: (y ++ '>' :: z) ∧ y ≠ [] ∧ '>' ∉ y := by
  constructor
  · intro h
    obtain ⟨whole, hwhole⟩ := List.exists_mem_of_ne_nil _ h
    obtain ⟨k, hk, l, hl, -⟩ := mem_run_seq.mp hwhole
    obtain ⟨m, hm, r, hr, -⟩ := mem_run_seq.mp hl
    obtain ⟨j, hj, -⟩ := mem_run_seq.mp hr
    -- the bracket, what is not a closing one, and the closing one
    obtain ⟨t, rfl, rfl⟩ := run_chr hk
    obtain ⟨n, hn, rfl⟩ := List.mem_map.mp hm
    obtain ⟨hpos, hle, hchars⟩ := mem_repeats hn
    obtain ⟨z, hz, -⟩ := run_chr hj
    have hz : t.drop n = '>' :: z := hz
    refine ⟨t.take n, z, by rw [← hz, List.take_append_drop], ?_, ?_⟩
    · intro hnil
      have hlength := congrArg List.length hnil
      have hle : n ≤ t.length := hle
      rw [List.length_take, List.length_nil] at hlength
      omega
    · intro hmem
      exact absurd (hchars '>' hmem) (by decide)
  · rintro ⟨y, z, rfl, hne, hy⟩ hnil
    have hother : ∀ c ∈ y, (c != '>') = true := by
      intro c hc
      have hc : c ≠ '>' := fun h => hy (h ▸ hc)
      simpa using hc
    have hclose : ∀ prev, (seqs [chr '>']).first prev (['>'] ++ z) = some ⟨1, []⟩ := fun _ => rfl
    have hbody : (seqs [.many (· != '>') 1 none, chr '>']).first (some '<') ((y ++ ['>']) ++ z) =
        some ⟨(y ++ ['>']).length, []⟩ :=
      first_seq_append (first_many hother (by simp) (List.length_pos_iff.mpr hne)) hclose
    have hopen : (chr '<').first prev ('<' :: ((y ++ ['>']) ++ z)) = some ⟨1, []⟩ := rfl
    have htag : tag.first prev ('<' :: ((y ++ ['>']) ++ z)) = some _ :=
      first_seq_of_first hopen hbody
    rw [List.append_assoc, List.singleton_append, first, hnil] at htag
    cases htag

/-- **The pattern finds a tag exactly where there is one.** -/
theorem search_tag_iff {s : Text} : tag.search s = true ↔ Tagged s := by
  rw [Regex.search, searchFrom_iff]
  constructor
  · rintro ⟨x, t, rfl, h⟩
    obtain ⟨y, z, rfl, hne, hy⟩ := run_tag_iff.mp h
    exact ⟨x, y, z, rfl, hne, hy⟩
  · rintro ⟨x, y, z, rfl, hne, hy⟩
    exact ⟨x, _, rfl, run_tag_iff.mpr ⟨y, z, rfl, hne, hy⟩⟩

instance (s : Text) : Decidable (Tagged s) := decidable_of_iff _ search_tag_iff

/-! ### What is left of the lines of a cue -/

theorem sub_braces {s : Text} (h : '\u007b' ∉ s) : braces.sub (fun _ _ => []) s = s := by
  refine scan_of_canStart (by decide) (fun c hc => ?_) none []
  have hne : c ≠ '\u007b' := fun h' => h (h' ▸ hc)
  simpa [braces, seqs, canStart, nullable, chr] using hne

/-- Without tags and braces, the text of some lines is what they say. -/
theorem cleanText_of_not_tagged {ls : List Text} (h : ¬ Tagged (joinLines ' ' ls))
    (hbrace : ∀ l ∈ ls, '\u007b' ∉ l) :
    cleanText ls = collapse isspace ' ' (joinLines ' ' ls) := by
  have hsearch : tag.search (joinLines ' ' ls) = false := by
    rw [← Bool.not_eq_true, search_tag_iff]
    exact h
  rw [cleanText, sub_of_search hsearch, sub_braces]
  intro hmem
  rcases mem_joinLines hmem with hsp | ⟨l, hl, hc⟩
  · exact absurd hsp (by decide)
  · exact hbrace l hl hc

/-- An opening bracket. -/
def opens (c : Char) : Bool := c == '<'

/-- Something else than white space. -/
def visible (c : Char) : Bool := !isspace c

theorem opens_of_isspace {c : Char} (h : isspace c = true) : opens c = false := by
  rw [opens, beq_eq_false_iff_ne]
  rintro rfl
  exact absurd h (by decide)

theorem visible_of_isspace {c : Char} (h : isspace c = true) : visible c = false := by
  rw [visible, h]
  rfl

/-- Nothing but white space is added. -/
theorem countP_cleanText_le {q : Char → Bool} (hq : ∀ c, isspace c = true → q c = false)
    (ls : List Text) : (cleanText ls).countP q ≤ ls.flatten.countP q := by
  rw [cleanText, countP_collapse hq (by decide), ← countP_joinLines (hq ' ' (by decide)) ls]
  exact ((scan_sublist ..).trans (scan_sublist ..)).countP_le

/-- A tag takes an opening bracket with it. -/
theorem countP_cleanText_lt {ls : List Text} (h : Tagged (joinLines ' ' ls)) :
    (cleanText ls).countP opens < ls.flatten.countP opens := by
  rw [cleanText, countP_collapse (fun _ hc => opens_of_isspace hc) (by decide),
    ← countP_joinLines (by decide : opens ' ' = false) ls]
  refine (scan_sublist ..).countP_le.trans_lt (countP_sub_lt (by decide) ?_ (search_tag_iff.mpr h))
  intro c hc
  simpa [tag, seqs, canStart, nullable, chr, opens] using hc

end SrtText
end MediaHub

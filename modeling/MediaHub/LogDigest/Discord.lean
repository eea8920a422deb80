import MediaHub.Re
import MediaHub.Lib.Lines
import MediaHub.Lib.Runs
import Mathlib.Data.List.Chain

/-!
# How the log digest is posted

`split_discord` of `scripts/log-digest.py` divides the digest into messages that Discord takes:
a message is filled with whole lines until the next one does not fit, and then closed.  At the
end of the text a message of blank lines is dropped; within the text it is not.

## Main definitions

* `splitDiscord` — the messages of a text.
* `IsSplit` — what the messages are meant to be.
* `NoBlankMessage` — no message that the lines fill up is blank.

## Main results

* `exists_flatten_splitDiscord` — the messages in order are the text, up to a blank end.
* `isSplit_splitDiscord_iff` — **the messages are what they are meant to be exactly if the
  lines never fill one with blanks.**
-/

namespace MediaHub
namespace LogDigest

open Re

/-! ### The source -/

/-- One turn of the loop, with the messages that are closed and the one that is open. -/
def splitStep (limit : ℕ) (acc : List Text × Text) (ln : Text) : List Text × Text :=
  let (out, cur) := acc
  if cur.length + ln.length + 1 > limit ∧ cur ≠ [] then (out ++ [cur], ln ++ ['\n'])
  else (out, cur ++ (ln ++ ['\n']))

/-- The lines are `text.split("\n")`. -/
def splitDiscord (limit : ℕ) (text : Text) : List Text :=
  let (out, cur) := (text.splitOn '\n').foldl (splitStep limit) ([], [])
  -- `if cur.strip():`
  if trim isspace cur ≠ [] then out ++ [cur] else out

/-- The contents that `post_discord` posts: the limit is the default. -/
def postDiscord (text : Text) : List Text := splitDiscord 1900 text

/-! ### What the messages are meant to be -/

/-- A text that has nothing to show. -/
def blank (s : Text) : Bool := s.all isspace

/-- Some lines, each with its line end. -/
def message (ls : List Text) : Text := ls.flatMap (· ++ ['\n'])

/-- The messages of a text: short enough, with something to show, made of whole lines, and of
all the lines of the text in order, except that blank lines may be missing. -/
structure IsSplit (limit : ℕ) (text : Text) (parts : List Text) : Prop where
  length_le : ∀ part ∈ parts, part.length ≤ limit
  not_blank : ∀ part ∈ parts, ∃ c ∈ part, isspace c = false
  /-- The lines of the messages, and nothing else than blank lines is missing. -/
  lines : ∃ blocks : List (List Text), parts = blocks.map message ∧
    blocks.flatten.Sublist (text.splitOn '\n') ∧
    blocks.flatten.filter (!blank ·) = (text.splitOn '\n').filter (!blank ·)

/-- The lines of `block` fit into a message, and do not with the line `ln` behind them. -/
structure Fills (limit : ℕ) (block : List Text) (ln : Text) : Prop where
  ne_nil : block ≠ []
  fits : (message block).length ≤ limit
  full : limit < (message block).length + ln.length + 1

/-- Between the lines `before` and `after` a message begins, where each message takes as many
lines as fit. -/
inductive Begins (limit : ℕ) : (before after : List Text) → Prop
  | first (lines : List Text) : Begins limit [] lines
  | next {before block : List Text} {ln : Text} {after : List Text} :
      Begins limit before (block ++ ln :: after) → Fills limit block ln →
        Begins limit (before ++ block) (ln :: after)

/-- No message but the last is made of blank lines only. -/
def NoBlankMessage (limit : ℕ) (lines : List Text) : Prop :=
  ∀ before block ln after, lines = before ++ (block ++ ln :: after) →
    Begins limit before (block ++ ln :: after) → Fills limit block ln →
      ∃ l ∈ block, blank l = false

/-! ### The messages as runs of lines -/

@[simp] theorem message_nil : message [] = [] := rfl

@[simp] theorem message_singleton (l : Text) : message [l] = l ++ ['\n'] := by simp [message]

@[simp] theorem message_append (ls ls' : List Text) :
    message (ls ++ ls') = message ls ++ message ls' := List.flatMap_append

theorem message_flatten (blocks : List (List Text)) :
    message blocks.flatten = (blocks.map message).flatten := by
  induction blocks with
  | nil => rfl
  | cons b blocks ih =>
    rw [List.flatten_cons, message_append, ih]
    rfl

theorem message_eq_nil {ls : List Text} : message ls = [] ↔ ls = [] := by
  cases ls <;> simp [message]

/-- The lines of a text, each with its line end, are the text with a last line end. -/
theorem message_splitOn (text : Text) : message (text.splitOn '\n') = text ++ ['\n'] := by
  have hjoin : ∀ ls : List Text, ls ≠ [] → message ls = joinLines '\n' ls ++ ['\n'] := by
    intro ls
    induction ls with
    | nil => exact fun h => absurd rfl h
    | cons l ls ih =>
      intro _
      rcases eq_or_ne ls [] with rfl | hne
      · simp
      · have hcons : message (l :: ls) = l ++ '\n' :: message ls := by simp [message]
        rw [hcons, ih hne, joinLines_cons '\n' l hne]
        simp
  rw [hjoin _ (List.splitOn_ne_nil '\n' text)]
  exact congrArg (· ++ ['\n']) (List.intercalate_splitOn '\n')

/-- A message is blank exactly if its lines are. -/
theorem blank_message (ls : List Text) : blank (message ls) = ls.all blank := by
  induction ls with
  | nil => rfl
  | cons l ls ih =>
    have hnl : isspace '\n' = true := by decide
    simp only [blank, message, List.flatMap_cons, List.all_append, List.all_cons, List.all_nil,
      hnl, Bool.and_true] at ih ⊢
    rw [ih]

theorem blank_eq_false {s : Text} : blank s = false ↔ ∃ c ∈ s, isspace c = false := by
  simp [blank]

theorem trim_eq_nil_iff_blank {s : Text} : trim isspace s = [] ↔ blank s = true := by
  rw [trim_eq_nil_iff, ← List.all_eq_true, ← blank]

/-- The line fits into the message. -/
def Joins (limit : ℕ) (cur : List Text) (ln : Text) : Prop :=
  (message cur).length + ln.length + 1 ≤ limit

instance (limit : ℕ) (cur : List Text) (ln : Text) : Decidable (Joins limit cur ln) :=
  inferInstanceAs (Decidable (_ ≤ _))

theorem splitStep_eq (limit : ℕ) (out : List Text) {cur : List Text} (hcur : cur ≠ []) (ln : Text) :
    splitStep limit (out, message cur) ln =
      if Joins limit cur ln then (out, message (cur ++ [ln]))
      else (out ++ [message cur], message [ln]) := by
  have hne : message cur ≠ [] := mt message_eq_nil.mp hcur
  by_cases hj : Joins limit cur ln
  · rw [if_pos hj, splitStep, if_neg (by unfold Joins at hj; omega), message_append,
      message_singleton]
  · rw [if_neg hj, splitStep, if_pos ⟨by unfold Joins at hj; omega, hne⟩, message_singleton]

/-- The loop closes all the runs but the last. -/
theorem foldl_splitStep (limit : ℕ) (lines : List Text) {cur : List Text} (hcur : cur ≠ []) :
    ∃ done last, runsFrom (Joins limit) cur lines = done ++ [last] ∧
      ∀ out, lines.foldl (splitStep limit) (out, message cur)
        = (out ++ done.map message, message last) := by
  induction lines generalizing cur with
  | nil => exact ⟨[], cur, rfl, fun out => by simp⟩
  | cons ln lines ih =>
    by_cases hj : Joins limit cur ln
    · obtain ⟨done, last, hruns, hfold⟩ := @ih (cur ++ [ln]) (by simp)
      refine ⟨done, last, by rw [runsFrom, if_pos hj, hruns], fun out => ?_⟩
      rw [List.foldl_cons, splitStep_eq limit out hcur, if_pos hj, hfold]
    · obtain ⟨done, last, hruns, hfold⟩ := @ih [ln] (by simp)
      refine ⟨cur :: done, last, by rw [runsFrom, if_neg hj, hruns]; rfl, fun out => ?_⟩
      rw [List.foldl_cons, splitStep_eq limit out hcur, if_neg hj, hfold]
      simp

/-- The lines of a text in runs: all but the last are posted, and the last if it has something
to show. -/
theorem exists_runs_splitDiscord (limit : ℕ) (text : Text) :
    ∃ done last, runs (Joins limit) (text.splitOn '\n') = done ++ [last] ∧
      splitDiscord limit text = done.map message ++ if blank (message last) then []
        else [message last] := by
  obtain ⟨ln, lines, hlines⟩ := List.exists_cons_of_ne_nil (List.splitOn_ne_nil '\n' text)
  obtain ⟨done, last, hruns, hfold⟩ := foldl_splitStep limit lines (List.cons_ne_nil ln [])
  refine ⟨done, last, by rw [hlines, runs, hruns], ?_⟩
  have hfirst : splitStep limit ([], []) ln = ([], message [ln]) := by simp [splitStep]
  rw [splitDiscord, hlines, List.foldl_cons, hfirst, hfold, List.nil_append]
  by_cases hb : blank (message last) = true
  · simp [hb, trim_eq_nil_iff_blank.mpr hb]
  · simp [hb, trim_eq_nil_iff_blank]

/-! ### Where messages begin -/

/-- The runs of lines fit into messages. -/
theorem length_message_of_mem_runs {limit : ℕ} {lines : List Text}
    (hlen : ∀ l ∈ lines, l.length < limit) {r : List Text} (hr : r ∈ runs (Joins limit) lines) :
    (message r).length ≤ limit := by
  have hruns := @isRuns_runs _ (Joins limit) _ lines
  rcases List.eq_nil_or_concat r with rfl | ⟨pre, ln, rfl⟩
  · exact absurd rfl (hruns.ne_nil _ hr)
  · rw [List.concat_eq_append] at hr ⊢
    rcases eq_or_ne pre [] with rfl | hpre
    · -- a line alone
      have hmem : ln ∈ lines := by
        rw [← hruns.flatten]
        exact List.mem_flatten.mpr ⟨_, hr, List.mem_append_right _ List.mem_cons_self⟩
      have := hlen ln hmem
      simp only [List.nil_append, message_singleton, List.length_append, List.length_singleton]
      omega
    · have hj : (message pre).length + ln.length + 1 ≤ limit :=
        hruns.joined _ hr pre ln [] rfl hpre
      simpa [Nat.add_assoc] using hj

/-- Where a run begins, the lines that fill a message are that run. -/
theorem eq_of_fills {limit : ℕ} {block r : List Text} {ln : Text} {after : List Text}
    {post : List (List Text)} (hfill : Fills limit block ln) (hr : (message r).length ≤ limit)
    (hne : ∀ s ∈ post, s ≠ []) (hbroken : ∀ s ∈ post.head?, ∀ a ∈ s.head?, ¬ Joins limit r a)
    (h : block ++ ln :: after = r ++ post.flatten) : block = r ∧ ln :: after = post.flatten := by
  rcases List.append_eq_append_iff.mp h with ⟨t, hrt, ht⟩ | ⟨t, hb, ht⟩
  · cases t with
    | nil => exact ⟨by simpa using hrt.symm, by simpa using ht⟩
    | cons a t =>
      -- the run would go on with a line that does not fit
      obtain ⟨rfl, -⟩ := List.cons.inj ht
      have hfull := hfill.full
      simp only [hrt, message, List.flatMap_append, List.flatMap_cons, List.length_append,
        List.length_singleton] at hr hfull
      omega
  · cases t with
    | nil => exact ⟨by simpa using hb, by simpa using ht.symm⟩
    | cons a t =>
      -- the block would go on with the first line of the next run, which does not fit
      obtain ⟨s, post, rfl⟩ : ∃ s post', post = s :: post' :=
        List.exists_cons_of_ne_nil (by rintro rfl; simp at ht)
      obtain ⟨b, s, rfl⟩ := List.exists_cons_of_ne_nil (hne s List.mem_cons_self)
      obtain rfl : b = a := by simpa using congrArg List.head? ht
      have hfull : ¬ Joins limit r b := hbroken _ rfl b rfl
      have hfits := hfill.fits
      simp only [hb, message, List.flatMap_append, List.flatMap_cons, List.length_append,
        List.length_singleton, Joins] at hfits hfull
      omega

/-- A run is filled if there is one behind it. -/
theorem fills_of_runs {limit : ℕ} {lines : List Text} (hlen : ∀ l ∈ lines, l.length < limit)
    {pre : List (List Text)} {p r : List Text} {post : List (List Text)}
    (h : runs (Joins limit) lines = pre ++ p :: r :: post) :
    ∃ ln rest, r = ln :: rest ∧ Fills limit p ln := by
  have hruns := @isRuns_runs _ (Joins limit) _ lines
  have hp : p ∈ runs (Joins limit) lines := by simp [h]
  have hr : r ∈ runs (Joins limit) lines := by simp [h]
  obtain ⟨ln, rest, rfl⟩ := List.exists_cons_of_ne_nil (hruns.ne_nil r hr)
  have hfull : ¬ Joins limit p ln :=
    List.isChain_iff_forall_rel_of_append_cons_cons.mp hruns.broken h ln rfl
  refine ⟨ln, rest, rfl, hruns.ne_nil p hp, length_message_of_mem_runs hlen hp, ?_⟩
  unfold Joins at hfull
  omega

/-- A message begins before each run. -/
theorem begins_of_runs {limit : ℕ} {lines : List Text} (hlen : ∀ l ∈ lines, l.length < limit)
    {pre : List (List Text)} {r : List Text} {post : List (List Text)}
    (h : runs (Joins limit) lines = pre ++ r :: post) :
    Begins limit pre.flatten (r :: post).flatten := by
  induction pre using List.reverseRecOn generalizing r post with
  | nil => exact .first _
  | append_singleton pre p ih =>
    have h' : runs (Joins limit) lines = pre ++ p :: r :: post := by rw [h]; simp
    obtain ⟨ln, rest, rfl, hfill⟩ := fills_of_runs hlen h'
    have hbegins := ih h'
    rw [List.flatten_cons] at hbegins
    rw [List.flatten_append, List.flatten_singleton]
    exact hbegins.next hfill

/-- Where runs begin, the first of them is what fills a message. -/
theorem cons_of_fills {limit : ℕ} {lines : List Text} (hlen : ∀ l ∈ lines, l.length < limit)
    {pre post : List (List Text)} (h : runs (Joins limit) lines = pre ++ post)
    {block : List Text} {ln : Text} {after : List Text}
    (hpost : post.flatten = block ++ ln :: after) (hfill : Fills limit block ln) :
    ∃ post', post = block :: post' ∧ post'.flatten = ln :: after := by
  have hruns := @isRuns_runs _ (Joins limit) _ lines
  obtain ⟨r, post, rfl⟩ : ∃ r post', post = r :: post' :=
    List.exists_cons_of_ne_nil (by rintro rfl; simp at hpost)
  have hr : (message r).length ≤ limit := length_message_of_mem_runs hlen (by simp [h])
  have hne : ∀ s ∈ post, s ≠ [] := by
    intro s hs
    exact hruns.ne_nil s (by simp [h, hs])
  have hbroken : ∀ s ∈ post.head?, ∀ a ∈ s.head?, ¬ Joins limit r a := by
    intro s hs a ha
    obtain ⟨post, rfl⟩ : ∃ post', post = s :: post' := List.head?_eq_some_iff.mp hs
    exact List.isChain_iff_forall_rel_of_append_cons_cons.mp hruns.broken h a ha
  obtain ⟨rfl, hafter⟩ := eq_of_fills hfill hr hne hbroken (by rw [← hpost, List.flatten_cons])
  exact ⟨post, rfl, hafter.symm⟩

/-- **Messages begin nowhere else.** -/
theorem exists_runs_of_begins {limit : ℕ} {lines : List Text} (hlen : ∀ l ∈ lines, l.length < limit)
    {before after : List Text} (h : Begins limit before after) (hlines : lines = before ++ after) :
    ∃ pre post, runs (Joins limit) lines = pre ++ post ∧ pre.flatten = before ∧
      post.flatten = after := by
  induction h with
  | first ls => exact ⟨[], runs (Joins limit) lines, rfl, rfl, by rw [hlines]; simp⟩
  | @next before block ln after _ hfill ih =>
    obtain ⟨pre, post, hsplit, hpre, hpost⟩ := ih (by rw [hlines, List.append_assoc])
    obtain ⟨post, rfl, hafter⟩ := cons_of_fills hlen hsplit hpost hfill
    exact ⟨pre ++ [block], post, by rw [hsplit]; simp, by simp [hpre], hafter⟩

/-! ### What the messages are -/

/-- **The messages of a text in order are the text with a last line end, but for blanks at the
end.** -/
theorem exists_flatten_splitDiscord (limit : ℕ) (text : Text) :
    ∃ rest, (splitDiscord limit text).flatten ++ rest = text ++ ['\n'] ∧ blank rest = true := by
  obtain ⟨done, last, hruns, hparts⟩ := exists_runs_splitDiscord limit text
  have hlines : message done.flatten ++ message last = text ++ ['\n'] := by
    rw [← message_splitOn, ← @flatten_runs _ (Joins limit) _ (text.splitOn '\n'), hruns,
      ← message_append]
    simp
  rw [hparts, List.flatten_append, ← message_flatten]
  cases hb : blank (message last) with
  | false => exact ⟨[], by simpa using hlines, rfl⟩
  | true => exact ⟨message last, by simpa using hlines, hb⟩

/-- The messages are short enough and made of the lines of the text, and only blank lines are
missing. -/
theorem exists_blocks_splitDiscord {limit : ℕ} {text : Text}
    (hlen : ∀ l ∈ text.splitOn '\n', l.length < limit) :
    (∀ part ∈ splitDiscord limit text, part.length ≤ limit) ∧
      ∃ blocks : List (List Text), splitDiscord limit text = blocks.map message ∧
        blocks.flatten.Sublist (text.splitOn '\n') ∧
        blocks.flatten.filter (!blank ·) = (text.splitOn '\n').filter (!blank ·) := by
  obtain ⟨done, last, hruns, hparts⟩ := exists_runs_splitDiscord limit text
  -- all the runs are posted, or all but a last one of blank lines
  obtain ⟨posted, rest, hall, hposted, hrest⟩ : ∃ posted rest : List (List Text),
      done ++ [last] = posted ++ rest ∧ splitDiscord limit text = posted.map message ∧
        rest.flatten.filter (!blank ·) = [] := by
    cases hb : blank (message last) with
    | false => exact ⟨done ++ [last], [], by simp, by simpa [hb] using hparts, rfl⟩
    | true =>
      refine ⟨done, [last], rfl, by simpa [hb] using hparts, ?_⟩
      rw [blank_message, List.all_eq_true] at hb
      simpa [List.filter_eq_nil_iff] using hb
  have hlines : posted.flatten ++ rest.flatten = text.splitOn '\n' := by
    rw [← @flatten_runs _ (Joins limit) _ (text.splitOn '\n'), hruns, hall, List.flatten_append]
  refine ⟨fun part hpart => ?_, posted, hposted, ?_, ?_⟩
  · rw [hposted] at hpart
    obtain ⟨r, hr, rfl⟩ := List.mem_map.mp hpart
    exact length_message_of_mem_runs hlen (hruns ▸ hall ▸ List.mem_append_left _ hr)
  · rw [← hlines]
    exact List.sublist_append_left _ _
  · rw [← hlines, List.filter_append, hrest, List.append_nil]

/-- The lines that fill a message are a run that is not the last one. -/
theorem mem_done_of_fills {limit : ℕ} {text : Text}
    (hlen : ∀ l ∈ text.splitOn '\n', l.length < limit) {done : List (List Text)} {last : List Text}
    (hruns : runs (Joins limit) (text.splitOn '\n') = done ++ [last])
    {before block after : List Text} {ln : Text}
    (hlines : text.splitOn '\n' = before ++ (block ++ ln :: after))
    (hbegins : Begins limit before (block ++ ln :: after)) (hfill : Fills limit block ln) :
    block ∈ done := by
  obtain ⟨pre, post, hsplit, -, hpost⟩ := exists_runs_of_begins hlen hbegins hlines
  obtain ⟨post, rfl, hafter⟩ := cons_of_fills hlen hsplit hpost hfill
  have hpost : post ≠ [] := by
    rintro rfl
    simp at hafter
  have hdone : done = pre ++ (block :: post).dropLast := by
    rw [← List.dropLast_append_of_ne_nil (by simp), ← hsplit, hruns, List.dropLast_concat]
  rw [hdone, List.dropLast_cons_of_ne_nil hpost]
  simp

/-- A run that is not the last one has been filled. -/
theorem not_blank_of_mem_done {limit : ℕ} {text : Text}
    (hlen : ∀ l ∈ text.splitOn '\n', l.length < limit)
    (h : NoBlankMessage limit (text.splitOn '\n')) {done : List (List Text)} {last r : List Text}
    (hruns : runs (Joins limit) (text.splitOn '\n') = done ++ [last]) (hr : r ∈ done) :
    blank (message r) = false := by
  obtain ⟨pre, post, rfl⟩ := List.mem_iff_append.mp hr
  obtain ⟨s, post', hs⟩ : ∃ s post', post ++ [last] = s :: post' :=
    List.exists_cons_of_ne_nil (by simp)
  have hsplit : runs (Joins limit) (text.splitOn '\n') = pre ++ r :: s :: post' := by
    rw [hruns, ← hs]
    simp
  obtain ⟨ln, rest, rfl, hfill⟩ := fills_of_runs hlen hsplit
  have hlines : pre.flatten ++ (r ++ ln :: (rest ++ post'.flatten)) = text.splitOn '\n' := by
    rw [← @flatten_runs _ (Joins limit) _ (text.splitOn '\n'), hsplit]
    simp
  have hbegins := begins_of_runs hlen hsplit
  simp only [List.flatten_cons, List.cons_append] at hbegins
  obtain ⟨l, hl, hb⟩ := h _ _ _ _ hlines.symm hbegins hfill
  rw [blank_message, List.all_eq_false]
  exact ⟨l, hl, by simp [hb]⟩

/-- **The messages of a text are what they are meant to be exactly if its lines never fill a
message with blanks.** -/
theorem isSplit_splitDiscord_iff {limit : ℕ} {text : Text}
    (hlen : ∀ l ∈ text.splitOn '\n', l.length < limit) :
    IsSplit limit text (splitDiscord limit text) ↔ NoBlankMessage limit (text.splitOn '\n') := by
  obtain ⟨hlength, hblocks⟩ := exists_blocks_splitDiscord hlen
  obtain ⟨done, last, hruns, hparts⟩ := exists_runs_splitDiscord limit text
  constructor
  · intro h before block ln after hlines hbegins hfill
    have hpart : message block ∈ splitDiscord limit text := by
      rw [hparts]
      exact List.mem_append_left _
        (List.mem_map_of_mem (mem_done_of_fills hlen hruns hlines hbegins hfill))
    have hblank := blank_eq_false.mpr (h.not_blank _ hpart)
    rw [blank_message] at hblank
    simpa using hblank
  · intro h
    refine ⟨hlength, ?_, hblocks⟩
    intro part hpart
    rw [← blank_eq_false]
    rw [hparts] at hpart
    rcases List.mem_append.mp hpart with hpart | hpart
    · -- a message that was filled
      obtain ⟨r, hr, rfl⟩ := List.mem_map.mp hpart
      exact not_blank_of_mem_done hlen h hruns hr
    · -- the last message, which is posted only if it is not blank
      cases hb : blank (message last) with
      | true => simp [hb] at hpart
      | false =>
        obtain rfl : part = message last := by simpa [hb] using hpart
        exact hb

/-- Two lines with words in two messages, and two blank lines that fill a message. -/
theorem noBlankMessage_ab_cd :
    NoBlankMessage 4 ("ab\ncd\n".toList.splitOn '\n') ∧
      ¬ NoBlankMessage 2 ("\n\na".toList.splitOn '\n') := by
  constructor
  · refine (isSplit_splitDiscord_iff (by decide)).mp ⟨by decide, ?_, ?_⟩
    · intro part hpart
      rw [← blank_eq_false]
      revert part
      decide
    · exact ⟨[["ab".toList], ["cd".toList, []]], by decide, by decide, by decide⟩
  · intro h
    have hparts := (isSplit_splitDiscord_iff (by decide)).mpr h
    exact absurd (blank_eq_false.mpr (hparts.not_blank "\n\n".toList (by decide))) (by decide)

/-- Two blank lines fill a message of two characters. -/
theorem not_isSplit_splitDiscord_blanks :
    ¬ ∀ (limit : ℕ) (text : Text), 2 ≤ limit → (∀ l ∈ text.splitOn '\n', l.length < limit) →
      IsSplit limit text (splitDiscord limit text) := by
  intro h
  have hparts := h 2 "\n\na".toList le_rfl (by decide)
  exact absurd (blank_eq_false.mpr (hparts.not_blank "\n\n".toList (by decide))) (by decide)

end LogDigest
end MediaHub

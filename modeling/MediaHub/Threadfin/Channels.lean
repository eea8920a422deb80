import MediaHub.Subgen.SrtText
import MediaHub.Threadfin.GenerateM3u

/-!
# How the playlist is read

`channels` of `scripts/cc-survey.py` reads the playlist line by line: a line of attributes says
what the next channel is, and any other line that is not empty or a comment is where it is.

## Main definitions

* `search` — the pattern for the attributes of a line.
* `channels` — the channels of a file.
* `ShowsGroup` — a text with a group title in it.

## Main results

* `findGroup_eq_none_iff`, `findGroup_append` — which group title is found.
* `fileLines_append` — a file is read line by line.
* `channelsFrom_append` — the channels of some lines and of those behind them.
-/

namespace MediaHub
namespace Threadfin

open Re

/-! ### The source -/

def TVG_ID : Text := "tvg-id=\"".toList

def GROUP_TITLE : Text := "group-title=\"".toList

/-- `key([^"]*)"` at the head of a text, and what is behind it. -/
def quoted (key t : Text) : Option (Text × Text) :=
  if key.isPrefixOf t then
    let rest := t.drop key.length
    match rest.dropWhile (· ≠ '"') with
    | '"' :: u => some (rest.takeWhile (· ≠ '"'), u)
    | _ => none
  else none

/-- `group-title="([^"]*)",(.*)$` at the head of a text in one line. -/
def groupAt (t : Text) : Option (Text × Text) :=
  match quoted GROUP_TITLE t with
  | some (group, ',' :: name) => some (group, name)
  | _ => none

/-- `.*?group-title="([^"]*)",(.*)$` at the head of a text in one line: the first that matches. -/
def findGroup (t : Text) : Option (Text × Text) := firstAt groupAt t

/-- The whole pattern at the head of a text: the id, the group and the name. -/
def attributesAt (t : Text) : Option (Text × Text × Text) :=
  (quoted TVG_ID t).bind fun (tvg, rest) => (findGroup rest).map fun g => (tvg, g)

/-- `re.search(r'tvg-id="([^"]*)".*?group-title="([^"]*)",(.*)$', line)`. -/
def search (t : Text) : Option (Text × Text × Text) := firstAt attributesAt t

/-- What is known of the next channel. -/
structure Info where
  name : Option Text
  group : Option Text
  tvg : Option Text
  deriving DecidableEq

/-- What `channels` yields. -/
structure Channel where
  name : Option Text
  group : Option Text
  tvg : Option Text
  url : Text
  deriving DecidableEq

/-- What a line of attributes says. -/
def readInfo (line : Text) : Info :=
  match search line with
  | some (tvg, group, name) => ⟨some name, some group, some tvg⟩
  | none => ⟨some line, some [], some []⟩

/-- `line.startswith("#EXTINF")`. -/
def isExtinf (line : Text) : Bool := "#EXTINF".toList.isPrefixOf line

/-- `line and not line.startswith("#")`. -/
def isUrl (line : Text) : Bool := line ≠ [] ∧ line.head? ≠ some '#'

/-- The loop over the lines, with what is known. -/
def channelsFrom : Info → List Text → List Channel
  | _, [] => []
  | i, l :: ls =>
    let line := trim isspace l
    if isExtinf line then channelsFrom (readInfo line) ls
    else if isUrl line then ⟨i.name, i.group, i.tvg, line⟩ :: channelsFrom i ls
    else channelsFrom i ls

/-- The lines of a file in text mode, without their ends. -/
def fileLines (content : Text) : List Text :=
  let lines := (SrtText.universalNewlines content).splitOn '\n'
  if lines.getLast? = some [] then lines.dropLast else lines

/-- `channels`, on what is in the file. -/
def channels (content : Text) : List Channel :=
  channelsFrom ⟨none, none, none⟩ (fileLines content)

/-! ### Quotes -/

theorem quoted_eq_some_iff {key t x u : Text} :
    quoted key t = some (x, u) ↔ t = key ++ (x ++ '"' :: u) ∧ '"' ∉ x := by
  constructor
  · intro h
    unfold quoted at h
    split at h
    · next hpre =>
      obtain ⟨rest, rfl⟩ := List.isPrefixOf_iff_prefix.mp hpre
      rw [List.drop_left] at h
      rcases notMem_or_exists_first '"' rest with hno | ⟨y, r, rfl, hy⟩
      · have hnil : rest.dropWhile (· ≠ '"') = [] := by
          rw [List.dropWhile_eq_nil_iff]
          exact fun c hc => decide_eq_true fun heq => hno (heq ▸ hc)
        simp only [hnil] at h
        cases h
      · simp only [dropWhile_ne_append hy, takeWhile_ne_append hy] at h
        obtain ⟨rfl, rfl⟩ := Prod.mk.inj (Option.some.inj h)
        exact ⟨rfl, hy⟩
    · cases h
  · rintro ⟨rfl, hx⟩
    rw [quoted, if_pos (List.isPrefixOf_iff_prefix.mpr (List.prefix_append _ _)), List.drop_left]
    simp only [dropWhile_ne_append hx, takeWhile_ne_append hx]

/-! ### Group titles -/

/-- A text that begins with the group title `g`, with `n` behind it. -/
def BeginsGroup (g n t : Text) : Prop := t = GROUP_TITLE ++ (g ++ '"' :: ',' :: n) ∧ '"' ∉ g

/-- There is a group title in the text. -/
def ShowsGroup (t : Text) : Prop := ∃ u, u <:+ t ∧ ∃ g n, BeginsGroup g n u

theorem groupAt_eq_some_iff {t g n : Text} : groupAt t = some (g, n) ↔ BeginsGroup g n t := by
  unfold groupAt
  constructor
  · intro h
    split at h
    · next g' n' hq =>
      obtain ⟨rfl, rfl⟩ := Prod.mk.inj (Option.some.inj h)
      exact quoted_eq_some_iff.mp hq
    · cases h
  · intro h
    simp only [quoted_eq_some_iff.mpr h]

/-- **A group title is found exactly if there is one.** -/
theorem findGroup_eq_none_iff {t : Text} : findGroup t = none ↔ ¬ ShowsGroup t := by
  rw [findGroup, firstAt_eq_none_iff, ShowsGroup]
  push Not
  refine forall_congr' fun u => imp_congr_right fun _ => ?_
  rw [Option.eq_none_iff_forall_ne_some]
  constructor
  · intro h g n hgroup
    exact h (g, n) (groupAt_eq_some_iff.mpr hgroup)
  · rintro h ⟨g, n⟩ hgroup
    exact h g n (groupAt_eq_some_iff.mp hgroup)

/-- The end of a line of attributes, from the quote behind the logo on. -/
def lineEnd (g n : Text) : Text := '"' :: ' ' :: (GROUP_TITLE ++ (g ++ '"' :: ',' :: n))

theorem groupAt_cons {c : Char} (hc : c ≠ 'g') (t : Text) : groupAt (c :: t) = none := by
  rw [Option.eq_none_iff_forall_ne_some]
  rintro ⟨x, b⟩ h
  exact hc (List.cons.inj (groupAt_eq_some_iff.mp h).1).1

/-- There is no group title where there is none of its letters. -/
theorem findGroup_skip {p : Text} (hp : 'g' ∉ p) (t : Text) : findGroup (p ++ t) = findGroup t := by
  induction p with
  | nil => rfl
  | cons c p ih =>
    rw [List.mem_cons, not_or] at hp
    rw [List.cons_append, findGroup, firstAt_cons, groupAt_cons (Ne.symm hp.1), Option.none_or]
    exact ih hp.2

/-- A group title that begins before the end of a line ends before it, too. -/
theorem beginsGroup_append {g : Text} (hne : g ≠ []) (hcomma : g.head? ≠ some ',')
    {w n x b : Text} :
    BeginsGroup x b (w ++ lineEnd g n) ↔ ∃ b', BeginsGroup x b' w ∧ b = b' ++ lineEnd g n := by
  have hgt : GROUP_TITLE = "group-title=".toList ++ ['"'] := by decide
  have hno : '"' ∉ "group-title=".toList := by decide
  constructor
  · rintro ⟨h, hx⟩
    rw [hgt, List.append_assoc, List.singleton_append] at h
    -- the quotes of the title are the first two of the text
    rcases notMem_or_exists_first '"' w with hw | ⟨w₁, w₂, rfl, hw₁⟩
    · -- the first of them is that of the line end: then the title would begin with a comma
      have hno' : '"' ∉ ' ' :: "group-title=".toList := by decide
      obtain ⟨-, htail⟩ := append_cons_inj hw hno h
      have hsecond : (' ' :: "group-title=".toList) ++ '"' :: (g ++ '"' :: ',' :: n)
          = x ++ '"' :: ',' :: b := by
        rw [hgt, List.append_assoc] at htail
        exact htail
      obtain ⟨-, hg⟩ := append_cons_inj hno' hx hsecond
      cases g with
      | nil => exact absurd rfl hne
      | cons c g => exact absurd (congrArg some (List.cons.inj hg).1) hcomma
    · rw [List.append_assoc, List.cons_append] at h
      obtain ⟨rfl, htail⟩ := append_cons_inj hw₁ hno h
      rcases notMem_or_exists_first '"' w₂ with hw₂ | ⟨w₃, w₄, rfl, hw₃⟩
      · -- the second is that of the line end, which has no comma behind it
        obtain ⟨-, hspace⟩ := append_cons_inj hw₂ hx htail
        exact absurd (List.cons.inj hspace).1 (by decide)
      · rw [List.append_assoc, List.cons_append] at htail
        obtain ⟨rfl, hrest⟩ := append_cons_inj hw₃ hx htail
        cases w₄ with
        | nil => exact absurd (List.cons.inj hrest).1 (by decide)
        | cons c b' =>
          obtain ⟨rfl, rfl⟩ := List.cons.inj hrest
          exact ⟨b', ⟨by rw [hgt, List.append_assoc]; rfl, hx⟩, rfl⟩
  · rintro ⟨b', ⟨rfl, hx⟩, rfl⟩
    exact ⟨by simp, hx⟩

theorem groupAt_append {g : Text} (hne : g ≠ []) (hcomma : g.head? ≠ some ',') (w n : Text) :
    groupAt (w ++ lineEnd g n) = (groupAt w).map fun r => (r.1, r.2 ++ lineEnd g n) := by
  refine Option.ext fun ⟨x, b⟩ => ?_
  rw [groupAt_eq_some_iff, beginsGroup_append hne hcomma, Option.map_eq_some_iff, Prod.exists]
  constructor
  · rintro ⟨b', hbegins, rfl⟩
    exact ⟨x, b', groupAt_eq_some_iff.mpr hbegins, rfl⟩
  · rintro ⟨y, b', hfound, heq⟩
    obtain ⟨rfl, rfl⟩ := Prod.mk.inj heq
    exact ⟨b', groupAt_eq_some_iff.mp hfound, rfl⟩

/-- **The group title at the end of a line is found unless there is one before it.** -/
theorem findGroup_append {g : Text} (hne : g ≠ []) (hcomma : g.head? ≠ some ',') (hquote : '"' ∉ g)
    (w n : Text) :
    findGroup (w ++ lineEnd g n) = some (((findGroup w).map fun r =>
      (r.1, r.2 ++ lineEnd g n)).getD (g, n)) := by
  induction w with
  | nil =>
    have hend : groupAt (GROUP_TITLE ++ (g ++ '"' :: ',' :: n)) = some (g, n) :=
      groupAt_eq_some_iff.mpr ⟨rfl, hquote⟩
    have hquote' : groupAt ('"' :: ' ' :: (GROUP_TITLE ++ (g ++ '"' :: ',' :: n))) = none :=
      groupAt_cons (by decide) _
    have hspace : groupAt (' ' :: (GROUP_TITLE ++ (g ++ '"' :: ',' :: n))) = none :=
      groupAt_cons (by decide) _
    obtain ⟨c, t, hct⟩ : ∃ c t, GROUP_TITLE ++ (g ++ '"' :: ',' :: n) = c :: t := ⟨_, _, rfl⟩
    rw [List.nil_append, lineEnd, findGroup, firstAt_cons, hquote', firstAt_cons, hspace, hct,
      firstAt_cons, ← hct, hend]
    rfl
  | cons c w ih =>
    unfold findGroup at ih ⊢
    rw [List.cons_append, firstAt_cons, ← List.cons_append, groupAt_append hne hcomma, ih,
      firstAt_cons]
    cases groupAt (c :: w) with
    | some r => rfl
    | none => simp

/-! ### Attributes -/

/-- A text that begins with the id `e`, with the group title `g` and then `n` behind it. -/
def BeginsAttributes (e g n t : Text) : Prop :=
  ∃ u, t = TVG_ID ++ (e ++ '"' :: u) ∧ '"' ∉ e ∧
    ∃ v, FirstPlace (fun v => ∃ g n, BeginsGroup g n v) u v ∧ BeginsGroup g n v

/-- A line whose first attributes are the id `e`, the group title `g` and the name `n`. -/
def Shows (e g n line : Text) : Prop :=
  ∃ u, FirstPlace (fun u => ∃ e g n, BeginsAttributes e g n u) line u ∧ BeginsAttributes e g n u

theorem groupAt_isSome {t : Text} : (groupAt t).isSome ↔ ∃ g n, BeginsGroup g n t := by
  rw [Option.isSome_iff_exists, Prod.exists]
  exact exists_congr fun g => exists_congr fun n => groupAt_eq_some_iff

theorem findGroup_eq_some_iff {t g n : Text} : findGroup t = some (g, n) ↔
    ∃ v, FirstPlace (fun v => ∃ g n, BeginsGroup g n v) t v ∧ BeginsGroup g n v := by
  rw [findGroup, firstAt_eq_some_iff]
  simp only [groupAt_isSome, groupAt_eq_some_iff]

theorem attributesAt_eq_some_iff {t e g n : Text} :
    attributesAt t = some (e, g, n) ↔ BeginsAttributes e g n t := by
  unfold attributesAt BeginsAttributes
  rw [Option.bind_eq_some_iff]
  constructor
  · rintro ⟨⟨e', u⟩, hq, h⟩
    obtain ⟨r, hr, heq⟩ := Option.map_eq_some_iff.mp h
    obtain ⟨rfl, rfl⟩ := Prod.mk.inj heq
    obtain ⟨ht, he⟩ := quoted_eq_some_iff.mp hq
    exact ⟨u, ht, he, findGroup_eq_some_iff.mp hr⟩
  · rintro ⟨u, ht, he, h⟩
    exact ⟨(e, u), quoted_eq_some_iff.mpr ⟨ht, he⟩,
      Option.map_eq_some_iff.mpr ⟨(g, n), findGroup_eq_some_iff.mpr h, rfl⟩⟩

/-- There is no id where there is none of its letters. -/
theorem search_skip {p : Text} (hp : 't' ∉ p) (t : Text) : search (p ++ t) = search t := by
  induction p with
  | nil => rfl
  | cons c p ih =>
    rw [List.mem_cons, not_or] at hp
    have hnone : attributesAt (c :: (p ++ t)) = none := by
      rw [Option.eq_none_iff_forall_ne_some]
      rintro ⟨e, g, n⟩ h
      obtain ⟨u, ht, -⟩ := attributesAt_eq_some_iff.mp h
      exact hp.1 (List.cons.inj ht).1.symm
    rw [List.cons_append, search, firstAt_cons, hnone, Option.none_or]
    exact ih hp.2

/-- **The search finds the first attributes of a line.** -/
theorem search_eq_some_iff {line e g n : Text} :
    search line = some (e, g, n) ↔ Shows e g n line := by
  have hsome : ∀ t, (attributesAt t).isSome ↔ ∃ e g n, BeginsAttributes e g n t := by
    intro t
    rw [Option.isSome_iff_exists]
    simp only [Prod.exists, attributesAt_eq_some_iff]
  rw [search, firstAt_eq_some_iff]
  simp only [hsome, attributesAt_eq_some_iff, Shows]

/-- The id and the name of a line are parts of it. -/
theorem subset_of_shows {e g n line : Text} (h : Shows e g n line) : e ⊆ line ∧ n ⊆ line := by
  obtain ⟨u, ⟨hu, -, -⟩, r, rfl, -, v, ⟨hv, -, -⟩, rfl, -⟩ := h
  constructor
  · intro c hc
    exact hu.subset (by simp [hc])
  · intro c hc
    have hr : c ∈ r := hv.subset (by simp [hc])
    exact hu.subset (by simp [hr])

theorem readInfo_eq_iff {line e g n : Text} (hg : g ≠ []) :
    readInfo line = ⟨some n, some g, some e⟩ ↔ Shows e g n line := by
  rw [← search_eq_some_iff]
  unfold readInfo
  cases search line with
  | none => simpa using fun _ h => absurd h hg
  | some r =>
    obtain ⟨e', g', n'⟩ := r
    simp only [Info.mk.injEq, Option.some.injEq, Prod.mk.injEq]
    tauto

/-! ### Lines -/

/-- What is read of a line and its line feed. -/
theorem fileLines_concat {s z : Text}
    (hz : ∀ t, SrtText.universalNewlines (s ++ '\n' :: t)
      = z ++ '\n' :: SrtText.universalNewlines t) :
    fileLines (s ++ ['\n']) = z.splitOn '\n' := by
  rw [fileLines, hz, SrtText.universalNewlines, List.splitOn_append_cons_self, List.splitOn_nil]
  simp

/-- **The lines of a file are those up to a line feed and those behind it.** -/
theorem fileLines_append (s t : Text) :
    fileLines (s ++ '\n' :: t) = fileLines (s ++ ['\n']) ++ fileLines t := by
  obtain ⟨z, hz⟩ := SrtText.exists_universalNewlines s
  have hne := List.splitOn_ne_nil '\n' (SrtText.universalNewlines t)
  rw [fileLines_concat hz, fileLines, hz, fileLines, List.splitOn_append_cons_self]
  simp only [List.getLast?_append_of_ne_nil _ hne, List.dropLast_append_of_ne_nil hne]
  split <;> rfl

theorem unbroken_of_mem_fileLines {s l : Text} (h : l ∈ fileLines s) : Unbroken l := by
  have hmem : l ∈ (SrtText.universalNewlines s).splitOn '\n' := by
    simp only [fileLines] at h
    split at h
    · exact List.mem_of_mem_dropLast h
    · exact h
  refine ⟨notMem_of_mem_splitOn hmem, fun hcr => SrtText.notMem_universalNewlines s ?_⟩
  exact (within_of_mem_splitOn hmem).subset hcr

/-- A text without line feeds that is put before others is put before their first line. -/
theorem fileLines_prepend {p : Text} (hp : Unbroken p) (s : Text) :
    ∃ l ls, fileLines (p ++ (s ++ ['\n'])) = (p ++ l) :: ls := by
  obtain ⟨z, hz⟩ := SrtText.exists_universalNewlines s
  obtain ⟨l, ls, hls⟩ := List.exists_cons_of_ne_nil (List.splitOn_ne_nil '\n' z)
  refine ⟨l, ls, ?_⟩
  rw [← List.append_assoc, @fileLines_concat _ (p ++ z), splitOn_prepend hp.1 hls]
  intro t
  rw [List.append_assoc, SrtText.universalNewlines_append hp.2, hz, List.append_assoc]

theorem fileLines_unbroken {s : Text} (hs : Unbroken s) : fileLines (s ++ ['\n']) = [s] := by
  rw [@fileLines_concat s s, List.splitOn_eq_singleton hs.1]
  intro t
  rw [SrtText.universalNewlines_append hs.2, SrtText.universalNewlines_cons (by decide)]

/-- The lines of a text between two others in one line. -/
theorem fileLines_surround {p q : Text} (hp : Unbroken p) (hq : Unbroken ('"' :: q)) {t : Text}
    {first last : Text} {ls : List Text}
    (ht : (SrtText.universalNewlines t).splitOn '\n' = first :: (ls ++ [last])) :
    fileLines (p ++ (t ++ '"' :: q) ++ ['\n']) = (p ++ first) :: (ls ++ [last ++ '"' :: q]) := by
  rw [@fileLines_concat _ (p ++ (SrtText.universalNewlines t ++ '"' :: q)),
    splitOn_prepend hp.1 (@splitOn_append _ _ _ _ last _ (first :: ls) hq.1 ht)]
  · rfl
  · intro u
    rw [List.append_assoc, List.append_assoc, SrtText.universalNewlines_append hp.2,
      List.cons_append, SrtText.universalNewlines_append_cons (by decide), ← List.cons_append,
      SrtText.universalNewlines_append hq.2, SrtText.universalNewlines_cons (by decide)]
    simp

/-! ### The loop -/

/-- What is known behind some lines. -/
def infoAfter (i : Info) (ls : List Text) : Info :=
  ls.foldl (fun i l =>
    if isExtinf (trim isspace l) then readInfo (trim isspace l) else i) i

theorem isUrl_of_isExtinf {line : Text} (h : isExtinf line = true) : isUrl line = false := by
  obtain ⟨t, rfl⟩ := List.isPrefixOf_iff_prefix.mp h
  rfl

/-- **The channels of some lines, and of those behind them with what is known by then.** -/
theorem channelsFrom_append (i : Info) (ls ls' : List Text) :
    channelsFrom i (ls ++ ls') = channelsFrom i ls ++ channelsFrom (infoAfter i ls) ls' := by
  induction ls generalizing i with
  | nil => rfl
  | cons l ls ih =>
    simp only [List.cons_append, channelsFrom, infoAfter, List.foldl_cons]
    split
    · exact ih _
    · split
      · rw [List.cons_append, ih]
        rfl
      · exact ih _

theorem channelsFrom_eq_nil_iff {i : Info} {ls : List Text} :
    channelsFrom i ls = [] ↔ ∀ l ∈ ls, isUrl (trim isspace l) = false := by
  induction ls generalizing i with
  | nil => simp [channelsFrom]
  | cons l ls ih =>
    rw [channelsFrom, List.forall_mem_cons]
    split
    · next hext => rw [ih, and_iff_right (isUrl_of_isExtinf hext)]
    · split
      · next hurl => simp [hurl]
      · next hurl => rw [ih, and_iff_right (by simpa using hurl)]

/-- A line of attributes takes the place of what is known. -/
theorem channelsFrom_extinf {l : Text} (h : isExtinf (trim isspace l) = true) (i j : Info)
    (ls : List Text) : channelsFrom i (l :: ls) = channelsFrom j (l :: ls) ∧
      infoAfter i (l :: ls) = infoAfter j (l :: ls) := by
  simp only [channelsFrom, infoAfter, List.foldl_cons, h, if_true, and_self]

/-- The last line of attributes among some lines shows the id `e`, the group `g` and the name
`n`. -/
def LastShows (e g n : Text) (ls : List Text) : Prop :=
  ∃ pre l post, ls = pre ++ l :: post ∧ isExtinf (trim isspace l) = true ∧
    (∀ l' ∈ post, isExtinf (trim isspace l') = false) ∧ Shows e g n (trim isspace l)

theorem exists_last_extinf {ls : List Text} (h : ∃ l ∈ ls, isExtinf (trim isspace l) = true) :
    ∃ pre l post, ls = pre ++ l :: post ∧ isExtinf (trim isspace l) = true ∧
      ∀ l' ∈ post, isExtinf (trim isspace l') = false := by
  induction ls with
  | nil =>
    obtain ⟨l, hl, -⟩ := h
    cases hl
  | cons m ls ih =>
    by_cases hlater : ∃ l ∈ ls, isExtinf (trim isspace l) = true
    · obtain ⟨pre, l, post, rfl, hl, hpost⟩ := ih hlater
      exact ⟨m :: pre, l, post, rfl, hl, hpost⟩
    · obtain ⟨l, hl, hext⟩ := h
      rcases List.mem_cons.mp hl with rfl | hl
      · refine ⟨[], l, ls, rfl, hext, fun l' hl' => ?_⟩
        exact Bool.eq_false_iff.mpr fun hext' => hlater ⟨l', hl', hext'⟩
      · exact absurd ⟨l, hl, hext⟩ hlater

theorem lastShows_singleton {e g n l : Text} (h : isExtinf (trim isspace l) = true) :
    LastShows e g n [l] ↔ Shows e g n (trim isspace l) := by
  constructor
  · rintro ⟨pre, l', post, heq, -, -, hshows⟩
    have hmem : l' ∈ [l] := heq ▸ List.mem_append_right _ List.mem_cons_self
    rwa [List.mem_singleton.mp hmem] at hshows
  · exact fun hshows => ⟨[], l, [], rfl, h, List.forall_mem_nil _, hshows⟩

/-- The last line of attributes counts. -/
theorem infoAfter_eq_readInfo {i : Info} {l : Text} {pre post : List Text}
    (hl : isExtinf (trim isspace l) = true)
    (hpost : ∀ l' ∈ post, isExtinf (trim isspace l') = false) :
    infoAfter i (pre ++ l :: post) = readInfo (trim isspace l) := by
  have hrest : ∀ i, infoAfter i post = i := by
    intro i
    induction post with
    | nil => rfl
    | cons m post ih =>
      obtain ⟨hm, hpost⟩ := List.forall_mem_cons.mp hpost
      rw [infoAfter, List.foldl_cons, hm]
      exact ih hpost
  rw [infoAfter, List.foldl_append, List.foldl_cons, if_pos hl]
  exact hrest _

/-- An id is known behind a line of attributes. -/
theorem infoAfter_tvg_ne_none {i : Info} {ls : List Text}
    (h : ∃ l ∈ ls, isExtinf (trim isspace l) = true) : (infoAfter i ls).tvg ≠ none := by
  obtain ⟨pre, l, post, rfl, hl, hpost⟩ := exists_last_extinf h
  rw [infoAfter_eq_readInfo hl hpost, readInfo]
  split <;> exact Option.some_ne_none _

theorem infoAfter_eq_iff {i : Info} {ls : List Text} {e g n : Text} (hg : g ≠ [])
    (h : ∃ l ∈ ls, isExtinf (trim isspace l) = true) :
    infoAfter i ls = ⟨some n, some g, some e⟩ ↔ LastShows e g n ls := by
  constructor
  · intro hinfo
    obtain ⟨pre, l, post, rfl, hl, hpost⟩ := exists_last_extinf h
    rw [infoAfter_eq_readInfo hl hpost] at hinfo
    exact ⟨pre, l, post, rfl, hl, hpost, (readInfo_eq_iff hg).mp hinfo⟩
  · rintro ⟨pre, l, post, rfl, hl, hpost, hshows⟩
    rw [infoAfter_eq_readInfo hl hpost]
    exact (readInfo_eq_iff hg).mpr hshows

end Threadfin
end MediaHub

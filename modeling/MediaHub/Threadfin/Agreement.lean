import MediaHub.Threadfin.Channels

/-!
# What is written and what is read of the channels

The provider's texts are written into the playlist as they are, and found again by the quotes,
the commas and the line ends around them.  A stream that is kept is read as it is exactly if
nothing in its id, its name and its logo is taken for one of these.

## Main definitions

* `Plain` — a stream whose line can be read.
* `Readable`, `Clear` — a stream whose line, or lines, can be read.
* `expected` — what is to be read of a stream.

## Main results

* `shows_trim_extinf_iff` — which lines show their stream.
* `channels_entries` — **what is read of the playlist is what is read of its streams.**
* `channels_generate_iff` — **the playlist is read as it was written exactly if every stream that
  is kept can be read.**
-/

namespace MediaHub
namespace Threadfin

open Re

/-! ### A line of attributes -/

/-- The beginning of a line of attributes, up to the logo. -/
def lineStart (e n : Text) : Text :=
  "#EXTINF:-1 tvg-id=\"".toList ++ (e ++ ("\" tvg-name=\"".toList ++ (n ++
    "\" tvg-logo=\"".toList)))

/-- What is between the id and the end of a line of attributes. -/
def lineMiddle (n logo : Text) : Text :=
  " tvg-name=\"".toList ++ (n ++ ("\" tvg-logo=\"".toList ++ logo))

theorem extinf_eq (e n logo g : Text) :
    extinf e n logo g = lineStart e n ++ (logo ++ lineEnd g n) := by
  have hgroup : "\" group-title=\"".toList = '"' :: ' ' :: GROUP_TITLE := by decide
  have hend : "\",".toList = ['"', ','] := by decide
  unfold extinf lineStart lineEnd
  rw [hgroup, hend]
  generalize "#EXTINF:-1 tvg-id=\"".toList = a
  generalize "\" tvg-name=\"".toList = b
  generalize "\" tvg-logo=\"".toList = c
  simp only [List.append_assoc, List.cons_append, List.nil_append]

theorem lineStart_append (e n logo t : Text) : lineStart e n ++ (logo ++ t)
    = "#EXTINF:-1 ".toList ++ (TVG_ID ++ (e ++ '"' :: (lineMiddle n logo ++ t))) := by
  have hid : "#EXTINF:-1 tvg-id=\"".toList = "#EXTINF:-1 ".toList ++ TVG_ID := by decide
  have hname : "\" tvg-name=\"".toList = '"' :: " tvg-name=\"".toList := by decide
  unfold lineStart lineMiddle
  rw [hid, hname]
  generalize "#EXTINF:-1 ".toList = a
  generalize " tvg-name=\"".toList = b
  generalize "\" tvg-logo=\"".toList = c
  simp only [List.append_assoc, List.cons_append]

/-- Only the name at the end of the line is stripped. -/
theorem trim_extinf (e n logo g : Text) : trim isspace (extinf e n logo g)
    = lineStart e n ++ (logo ++ lineEnd g (n.rdropWhile isspace)) := by
  obtain ⟨t, ht⟩ : ∃ t, lineStart e n = '#' :: t := ⟨_, rfl⟩
  have htrim := @trim_cons_append _ isspace '#' ',' (by decide) (by decide)
    (t ++ (logo ++ '"' :: ' ' :: (GROUP_TITLE ++ (g ++ ['"'])))) n
  rw [extinf_eq, ht, lineEnd, lineEnd]
  simpa using htrim

/-- No group title begins in what is before the name. -/
theorem findGroup_tvg_name (t : Text) : findGroup (" tvg-name=\"".toList ++ t) = findGroup t := by
  have hsplit : " tvg-name=\"".toList = [' ', 't', 'v'] ++ 'g' :: '-' :: "name=\"".toList := by
    decide
  have hnone : groupAt ('g' :: '-' :: ("name=\"".toList ++ t)) = none := by
    rw [Option.eq_none_iff_forall_ne_some]
    rintro ⟨x, b⟩ h
    have htail := (List.cons.inj (groupAt_eq_some_iff.mp h).1).2
    exact absurd (List.cons.inj htail).1 (by decide)
  have hg : findGroup ('g' :: '-' :: ("name=\"".toList ++ t))
      = findGroup ('-' :: ("name=\"".toList ++ t)) := by
    rw [findGroup, firstAt_cons, hnone, Option.none_or, findGroup]
  calc findGroup (" tvg-name=\"".toList ++ t)
      = findGroup ([' ', 't', 'v'] ++ 'g' :: '-' :: ("name=\"".toList ++ t)) := by
        rw [hsplit]
        rfl
    _ = findGroup ('g' :: '-' :: ("name=\"".toList ++ t)) := findGroup_skip (by decide) _
    _ = findGroup ('-' :: ("name=\"".toList ++ t)) := hg
    _ = findGroup t := @findGroup_skip ('-' :: "name=\"".toList) (by decide) t

/-- What is written of a stream shows its id, its group and its name. -/
structure Plain (e n logo : Text) : Prop where
  no_quote : '"' ∉ e
  no_blank : ∀ c ∈ n.getLast?, isspace c = false
  no_group : ¬ ShowsGroup (n ++ ("\" tvg-logo=\"".toList ++ logo))

theorem rdropWhile_eq_self {n : Text} :
    n.rdropWhile isspace = n ↔ ∀ c ∈ n.getLast?, isspace c = false := by
  rw [List.rdropWhile_eq_self_iff]
  constructor
  · intro h c hc
    obtain ⟨hne, rfl⟩ := List.mem_getLast?_eq_getLast hc
    simpa using h hne
  · intro h hne
    simpa using h _ (List.getLast?_eq_getLast_of_ne_nil hne)

/-- The blanks behind the end of a line are those behind the name. -/
theorem rdropWhile_append_lineEnd (b g n : Text) :
    (b ++ lineEnd g n).rdropWhile isspace = b ++ lineEnd g (n.rdropWhile isspace) := by
  have hsplit : ∀ n, b ++ lineEnd g n
      = (b ++ '"' :: ' ' :: (GROUP_TITLE ++ (g ++ ['"']))) ++ ',' :: n := by
    intro n
    simp [lineEnd]
  rw [hsplit, hsplit, rdropWhile_append_of_exists ⟨',', List.mem_cons_self, by decide⟩,
    rdropWhile_cons (by decide)]

/-- A name does not end like the line it is at the end of. -/
theorem ne_append_lineEnd (b g n : Text) : n ≠ b ++ lineEnd g (n.rdropWhile isspace) := by
  intro h
  have hsame := congrArg (List.rdropWhile isspace) h
  rw [rdropWhile_append_lineEnd, List.rdropWhile_idempotent, ← h] at hsame
  rw [hsame] at h
  have hlen := congrArg List.length h
  simp only [lineEnd, List.length_append, List.length_cons] at hlen
  omega

/-- The search at the id, up to the first quote behind it. -/
theorem search_tvg_id {e : Text} (he : '"' ∉ e) {t g n : Text} (h : findGroup t = some (g, n)) :
    search (TVG_ID ++ (e ++ '"' :: t)) = some (e, g, n) := by
  have hquoted : quoted TVG_ID (TVG_ID ++ (e ++ '"' :: t)) = some (e, t) :=
    quoted_eq_some_iff.mpr ⟨rfl, he⟩
  refine firstAt_of_some ?_
  simp only [attributesAt, hquoted, Option.bind_some, h, Option.map_some]

/-- **What is stripped of the line of a stream shows the stream exactly if there is no quote in
its id, no blank at the end of its name, and no group title in its name and its logo.** -/
theorem shows_trim_extinf_iff {e n logo g : Text} (hg : CleanGroup g) :
    Shows e g n (trim isspace (extinf e n logo g)) ↔ Plain e n logo := by
  have hline := trim_extinf e n logo g
  have hfind := findGroup_append hg.ne_nil hg.no_comma hg.no_quote
  rw [lineStart_append] at hline
  rw [← search_eq_some_iff, hline, search_skip (by decide)]
  rcases notMem_or_exists_first '"' e with he | ⟨e₀, e₁, rfl, he₀⟩
  · have hmiddle : findGroup (lineMiddle n logo)
        = findGroup (n ++ ("\" tvg-logo=\"".toList ++ logo)) := findGroup_tvg_name _
    rw [search_tvg_id he (hfind _ _), hmiddle]
    cases hgroup : findGroup (n ++ ("\" tvg-logo=\"".toList ++ logo)) with
    | none =>
      simp only [Option.map_none, Option.some.injEq, Prod.mk.injEq, true_and]
      rw [rdropWhile_eq_self]
      exact ⟨fun hblank => ⟨he, hblank, findGroup_eq_none_iff.mp hgroup⟩, fun h => h.no_blank⟩
    | some r =>
      simp only [Option.map_some, Option.some.injEq, Prod.mk.injEq, true_and]
      constructor
      · rintro ⟨-, h⟩
        exact absurd h.symm (ne_append_lineEnd _ _ _)
      · intro h
        rw [findGroup_eq_none_iff.mpr h.no_group] at hgroup
        cases hgroup
  · -- the id is read up to its first quote
    have hpast : ∀ t, (e₀ ++ '"' :: e₁) ++ '"' :: (lineMiddle n logo ++ t)
        = e₀ ++ '"' :: ((e₁ ++ '"' :: lineMiddle n logo) ++ t) := by
      intro t
      simp
    rw [hpast, search_tvg_id he₀ (hfind _ _)]
    have hmem : '"' ∈ e₀ ++ '"' :: e₁ := by simp
    constructor
    · intro h
      rw [← (Prod.mk.inj (Option.some.inj h)).1] at hmem
      exact absurd hmem he₀
    · intro h
      exact absurd hmem h.no_quote

/-! ### The lines of a stream -/

theorem unbroken_append {a b : Text} : Unbroken (a ++ b) ↔ Unbroken a ∧ Unbroken b := by
  simp only [Unbroken, List.mem_append]
  tauto

theorem unbroken_lineStart {e n : Text} : Unbroken (lineStart e n) ↔ Unbroken e ∧ Unbroken n := by
  have hid : Unbroken "#EXTINF:-1 tvg-id=\"".toList := by decide
  have hname : Unbroken "\" tvg-name=\"".toList := by decide
  have hlogo : Unbroken "\" tvg-logo=\"".toList := by decide
  unfold lineStart
  generalize "#EXTINF:-1 tvg-id=\"".toList = a at hid
  generalize "\" tvg-name=\"".toList = b at hname
  generalize "\" tvg-logo=\"".toList = c at hlogo
  simp only [unbroken_append, hid, hname, hlogo, true_and, and_true]

theorem unbroken_lineEnd {g n : Text} : Unbroken (lineEnd g n) ↔ Unbroken g ∧ Unbroken n := by
  have hgroup : Unbroken ('"' :: ' ' :: GROUP_TITLE) := by decide
  have hend : Unbroken ['"', ','] := by decide
  have hsplit : lineEnd g n = ('"' :: ' ' :: GROUP_TITLE) ++ (g ++ (['"', ','] ++ n)) := rfl
  rw [hsplit, unbroken_append, unbroken_append, unbroken_append]
  tauto

/-- The lines that are read of the attributes. -/
def attributeLines (e n logo g : Text) : List Text := fileLines (extinf e n logo g ++ ['\n'])

/-- There is one line if no line end comes with the attributes. -/
theorem attributeLines_of_unbroken {e n logo g : Text} (he : Unbroken e) (hn : Unbroken n)
    (hlogo : Unbroken logo) (hg : Unbroken g) :
    attributeLines e n logo g = [extinf e n logo g] := by
  refine fileLines_unbroken ?_
  rw [extinf_eq, unbroken_append, unbroken_append, unbroken_lineStart, unbroken_lineEnd]
  exact ⟨⟨he, hn⟩, hlogo, hg, hn⟩

/-- The lines of a logo are between the beginning and the end. -/
theorem attributeLines_of_logo {e n logo g first last : Text} {ls : List Text} (he : Unbroken e)
    (hn : Unbroken n) (hg : Unbroken g)
    (hlogo : (SrtText.universalNewlines logo).splitOn '\n' = first :: (ls ++ [last])) :
    attributeLines e n logo g = (lineStart e n ++ first) :: (ls ++ [last ++ lineEnd g n]) := by
  rw [attributeLines, extinf_eq]
  exact fileLines_surround (unbroken_lineStart.mpr ⟨he, hn⟩) (unbroken_lineEnd.mpr ⟨hg, hn⟩) hlogo

theorem isExtinf_trim (t : Text) : isExtinf (trim isspace ("#EXTINF".toList ++ t)) = true := by
  have hsplit : "#EXTINF".toList = '#' :: ("EXTIN".toList ++ ['F']) := by decide
  have htrim := @trim_cons_append _ isspace '#' 'F' (by decide) (by decide) "EXTIN".toList t
  rw [isExtinf, List.isPrefixOf_iff_prefix, hsplit, List.cons_append, List.append_assoc,
    List.singleton_append, htrim]
  exact ⟨t.rdropWhile isspace, by simp⟩

/-- The first line is a line of attributes. -/
theorem attributeLines_eq_cons (e n logo g : Text) :
    ∃ l ls, attributeLines e n logo g = l :: ls ∧ isExtinf (trim isspace l) = true := by
  have hsplit : "#EXTINF:-1 tvg-id=\"".toList = "#EXTINF".toList ++ ":-1 tvg-id=\"".toList := by
    decide
  obtain ⟨t, ht⟩ : ∃ t, extinf e n logo g = "#EXTINF".toList ++ t := by
    unfold extinf
    rw [hsplit]
    exact ⟨_, List.append_assoc _ _ _⟩
  obtain ⟨l, ls, hls⟩ := fileLines_prepend (by decide : Unbroken "#EXTINF".toList) t
  refine ⟨_, ls, ?_, isExtinf_trim l⟩
  rw [← hls, attributeLines, ht]
  exact congrArg fileLines (List.append_assoc _ _ _)

/-! ### What is read of a stream -/

/-- The logo has several lines: those behind the first are comments, and the last line of
attributes among them all shows the stream. -/
def Overlaid (e n logo g : Text) : Prop :=
  ∃ first ls last, (SrtText.universalNewlines logo).splitOn '\n' = first :: (ls ++ [last]) ∧
    (∀ l ∈ ls ++ [last ++ lineEnd g n], isUrl (trim isspace l) = false) ∧
    LastShows e g n ((lineStart e n ++ first) :: (ls ++ [last ++ lineEnd g n]))

/-- The attributes of a stream can be read. -/
def Readable (e n logo g : Text) : Prop :=
  Unbroken e ∧ Unbroken n ∧ if Unbroken logo then Plain e n logo else Overlaid e n logo g

theorem unbroken_of_shows {e g n l : Text} (hl : Unbroken l) (h : Shows e g n (trim isspace l)) :
    Unbroken e ∧ Unbroken n := by
  obtain ⟨he, hn⟩ := subset_of_shows h
  have htrim : trim isspace l ⊆ l := (trim_within l).subset
  exact ⟨⟨fun h => hl.1 (htrim (he h)), fun h => hl.2 (htrim (he h))⟩,
    ⟨fun h => hl.1 (htrim (hn h)), fun h => hl.2 (htrim (hn h))⟩⟩

/-- **The lines of a stream are no urls, and the last line of attributes shows the stream,
exactly if its attributes can be read.** -/
theorem readable_iff {e n logo g : Text} (hg : CleanGroup g) :
    (∀ l ∈ attributeLines e n logo g, isUrl (trim isspace l) = false) ∧
      LastShows e g n (attributeLines e n logo g) ↔ Readable e n logo g := by
  obtain ⟨l, ls, hlines, hext⟩ := attributeLines_eq_cons e n logo g
  by_cases hunbroken : Unbroken e ∧ Unbroken n
  · obtain ⟨he, hn⟩ := hunbroken
    rw [Readable, and_iff_right he, and_iff_right hn]
    split
    · next hlogo =>
      have hone := attributeLines_of_unbroken he hn hlogo hg.unbroken
      obtain ⟨rfl, -⟩ := List.cons.inj (hlines.symm.trans hone)
      rw [hone, List.forall_mem_singleton, and_iff_right (isUrl_of_isExtinf hext),
        lastShows_singleton hext, shows_trim_extinf_iff hg]
    · next hlogo =>
      obtain hno | ⟨first, ls', last, hcut⟩ :=
        splitOn_cases '\n' (SrtText.universalNewlines logo)
      · exact absurd (SrtText.notMem_of_notMem_universalNewlines hno) hlogo
      · have hmany := attributeLines_of_logo he hn hg.unbroken hcut
        obtain ⟨rfl, -⟩ := List.cons.inj (hlines.symm.trans hmany)
        rw [hmany, List.forall_mem_cons, and_iff_right (isUrl_of_isExtinf hext)]
        constructor
        · rintro ⟨hurl, hshows⟩
          exact ⟨first, ls', last, hcut, hurl, hshows⟩
        · rintro ⟨first', ls'', last', hcut', hurl, hshows⟩
          rw [hcut] at hcut'
          obtain ⟨rfl, htail⟩ := List.cons.inj hcut'
          obtain ⟨rfl, hlast⟩ := List.append_inj' htail rfl
          obtain ⟨rfl, -⟩ := List.cons.inj hlast
          exact ⟨hurl, hshows⟩
  · -- what is read of one line is in one line
    refine iff_of_false ?_ fun h => hunbroken ⟨h.1, h.2.1⟩
    rintro ⟨-, pre, l', post, heq, -, -, hshows⟩
    have hmem : l' ∈ attributeLines e n logo g := heq ▸ List.mem_append_right _ List.mem_cons_self
    exact hunbroken (unbroken_of_shows (unbroken_of_mem_fileLines hmem) hshows)

section

variable (P : Provider) (s : ProviderStream)

/-- What is to be read of a stream. -/
def expected : Channel := ⟨some (name s), some (group P s), (epgId P s).value, url P s⟩

/-- What is written of a stream can be read. -/
def Clear : Prop :=
  ∃ e, epgId P s = .text e ∧ Readable e (name s) (logo P s).format (group P s)

/-- The lines that are read of the attributes of a stream. -/
def streamLines : List Text :=
  attributeLines (epgId P s).format (name s) (logo P s).format (group P s)

/-- What is known behind the attributes of a stream. -/
def streamInfo : Info := infoAfter ⟨none, none, none⟩ (streamLines P s)

/-- What is read of a stream. -/
def streamChannels : List Channel :=
  channelsFrom ⟨none, none, none⟩ (streamLines P s) ++
    [⟨(streamInfo P s).name, (streamInfo P s).group, (streamInfo P s).tvg, url P s⟩]

theorem trim_url : trim isspace (url P s) = url P s := by
  obtain ⟨t, ht⟩ := url_eq P s
  have htrim := @trim_cons_append _ isspace 'h' 's' (by decide) (by decide) t []
  rw [ht]
  exact htrim

theorem channelsFrom_url (i : Info) (ls : List Text) :
    channelsFrom i (url P s :: ls) = ⟨i.name, i.group, i.tvg, url P s⟩ :: channelsFrom i ls := by
  obtain ⟨t, ht⟩ := url_eq P s
  have hext : isExtinf (url P s) = false := by
    rw [ht]
    rfl
  have hurl : isUrl (url P s) = true := by
    rw [ht]
    rfl
  simp only [channelsFrom, trim_url, hext, hurl, Bool.false_eq_true, if_false, if_true]

/-- **Nothing is read of a stream that depends on what is before it.** -/
theorem channelsFrom_entry (i : Info) (rest : Text) :
    channelsFrom i (fileLines (entry P s ++ rest))
      = streamChannels P s ++ channelsFrom (streamInfo P s) (fileLines rest) := by
  obtain ⟨l, ls, hlines, hext⟩ :=
    attributeLines_eq_cons (epgId P s).format (name s) (logo P s).format (group P s)
  obtain ⟨hchannels, hinfo⟩ := channelsFrom_extinf hext i ⟨none, none, none⟩ ls
  rw [← hlines, ← streamLines] at hchannels hinfo
  have hurl : fileLines (url P s ++ '\n' :: rest) = url P s :: fileLines rest := by
    rw [fileLines_append, fileLines_unbroken (unbroken_url P s)]
    rfl
  have hcut : fileLines (entry P s ++ rest) = streamLines P s ++ url P s :: fileLines rest := by
    rw [entry, List.append_assoc, List.cons_append, List.append_assoc, fileLines_append, ← hurl]
    rfl
  rw [hcut, channelsFrom_append, hchannels, hinfo, channelsFrom_url, streamChannels,
    List.append_assoc]
  rfl

end

/-- **What is read of the playlist is what is read of its streams.** -/
theorem channels_entries (P : Provider) (streams : List ProviderStream) :
    channels ("#EXTM3U".toList ++ '\n' :: streams.flatMap (entry P))
      = streams.flatMap (streamChannels P) := by
  have hbody : ∀ i, channelsFrom i (fileLines (streams.flatMap (entry P)))
      = streams.flatMap (streamChannels P) := by
    induction streams with
    | nil => exact fun _ => rfl
    | cons s streams ih =>
      intro i
      rw [List.flatMap_cons, List.flatMap_cons, channelsFrom_entry, ih]
  rw [channels, fileLines_append, fileLines_unbroken (by decide), channelsFrom_append, hbody]
  rfl

/-- Pieces that are not empty have as many members in all as there are pieces. -/
theorem length_le_length_flatMap {α β : Type*} {f : α → List β} {l : List α}
    (h : ∀ a ∈ l, f a ≠ []) : l.length ≤ (l.flatMap f).length := by
  induction l with
  | nil => simp
  | cons a l ih =>
    obtain ⟨ha, hl⟩ := List.forall_mem_cons.mp h
    have hpos := List.length_pos_of_ne_nil ha
    have hrest := ih hl
    rw [List.flatMap_cons, List.length_append, List.length_cons]
    omega

/-- Pieces that are not empty are one member each exactly if each piece is that one. -/
theorem flatMap_eq_map_iff {α β : Type*} {f : α → List β} {g : α → β} {l : List α}
    (h : ∀ a ∈ l, f a ≠ []) : l.flatMap f = l.map g ↔ ∀ a ∈ l, f a = [g a] := by
  induction l with
  | nil => simp
  | cons a l ih =>
    obtain ⟨ha, hl⟩ := List.forall_mem_cons.mp h
    rw [List.flatMap_cons, List.map_cons, List.forall_mem_cons]
    refine Iff.trans ?_ (and_congr_right' (ih hl))
    constructor
    · intro heq
      have hone : (f a).length = [g a].length := by
        have hpos := List.length_pos_of_ne_nil ha
        have hrest := length_le_length_flatMap hl
        have hsum := congrArg List.length heq
        simp only [List.length_append, List.length_cons, List.length_map, List.length_nil]
          at hsum ⊢
        omega
      exact List.append_inj heq hone
    · rintro ⟨hone, hrest⟩
      rw [hone, hrest]
      rfl

/-- A stream is read as it is exactly if nothing is read before its url, and what is known there
is what it is. -/
theorem streamChannels_eq_singleton_iff {P : Provider} {s : ProviderStream} :
    streamChannels P s = [expected P s] ↔
      channelsFrom ⟨none, none, none⟩ (streamLines P s) = [] ∧
        streamInfo P s = ⟨some (name s), some (group P s), (epgId P s).value⟩ := by
  rw [streamChannels, ← List.nil_append [expected P s]]
  constructor
  · intro h
    obtain ⟨hnil, hlast⟩ := List.append_inj' h rfl
    obtain ⟨hname, hgroup, htvg, -⟩ := Channel.mk.inj (List.cons.inj hlast).1
    refine ⟨hnil, ?_⟩
    rw [← hname, ← hgroup, ← htvg]
  · rintro ⟨hnil, hinfo⟩
    rw [hnil, hinfo]
    rfl

/-- What is read of a stream is the stream exactly if what is written of it can be read. -/
theorem streamChannels_eq_iff {P : Provider} {s : ProviderStream} (hg : CleanGroup (group P s)) :
    streamChannels P s = [expected P s] ↔ Clear P s := by
  obtain ⟨l, ls, hlines, hext⟩ :=
    attributeLines_eq_cons (epgId P s).format (name s) (logo P s).format (group P s)
  have hexists : ∃ l ∈ streamLines P s, isExtinf (trim isspace l) = true := by
    rw [streamLines, hlines]
    exact ⟨l, List.mem_cons_self, hext⟩
  rw [streamChannels_eq_singleton_iff, channelsFrom_eq_nil_iff, Clear]
  cases hepg : epgId P s with
  | null =>
    -- an id is always read, if only the word for none
    refine iff_of_false ?_ (by simp)
    rintro ⟨-, hinfo⟩
    exact infoAfter_tvg_ne_none hexists (congrArg Info.tvg hinfo)
  | text e =>
    rw [streamInfo, Field.value, infoAfter_eq_iff hg.ne_nil hexists, streamLines, hepg,
      Field.format, readable_iff hg]
    simp

theorem channels_generate {P : Provider} {streams : List ProviderStream} {text : Text}
    (h : generate P streams = some text) :
    channels text = (kept P streams).flatMap (streamChannels P) := by
  unfold generate at h
  split at h
  · cases h
  · rw [← Option.some.inj h, channels_entries]

/-! ### Agreement -/

/-- An account with one category. -/
def account : Provider where
  characters := .ascii
  username := "user".toList
  password := "pass".toList
  categories := [("7".toList, "MX: Mexico News".toList)]
  username_ok := by decide
  password_ok := by decide

/-- A stream of that category. -/
def newsStream (epg : Field) : ProviderStream where
  name := some "News 1".toList
  streamId := some "4107".toList
  streamIcon := some (.text "http://cdn/news1.png".toList)
  epgChannelId := some epg
  categoryId := some "7".toList
  streamId_ok := by decide

theorem included_newsStream (epg : Field) : included account (newsStream epg) = true := rfl

/-- As many of a stream as the floor asks for. -/
theorem generate_replicate {P : Provider} {s : ProviderStream} (h : included P s = true) :
    kept P (List.replicate MIN_CHANNELS s) = List.replicate MIN_CHANNELS s ∧
      ∃ text, generate P (List.replicate MIN_CHANNELS s) = some text := by
  have hkept : kept P (List.replicate MIN_CHANNELS s) = List.replicate MIN_CHANNELS s := by
    rw [kept, List.filter_replicate_of_pos h]
  refine ⟨hkept, ?_⟩
  rw [generate, hkept, if_neg (by simp)]
  exact ⟨_, rfl⟩

theorem clear_newsStream : Clear account (newsStream (.text "news1.mx".toList)) := by
  have hlogo : (logo account (newsStream (.text "news1.mx".toList))).format
      = "http://cdn/news1.png".toList := by
    decide +kernel
  refine ⟨"news1.mx".toList, rfl, by decide, by decide, ?_⟩
  rw [hlogo, if_pos (by decide)]
  exact ⟨by decide, rdropWhile_eq_self.mp (by decide), findGroup_eq_none_iff.mp (by decide)⟩

/-- **The channels that are read of a playlist are the streams that are kept, in order and each
with its name, its group, its id and its url, exactly if all of them can be read:** the id and the
name are in one line, and, for a logo in one line, the id has no quotes, the name no blank at its
end, and the name and the logo no group title. -/
theorem channels_generate_iff {P : Provider} {streams : List ProviderStream} {text : Text}
    (h : generate P streams = some text) :
    channels text = (kept P streams).map (expected P) ↔ ∀ s ∈ kept P streams, Clear P s := by
  rw [channels_generate h, flatMap_eq_map_iff fun s _ => by simp [streamChannels]]
  refine forall₂_congr fun s hs => streamChannels_eq_iff ?_
  exact clean_group (List.mem_filter.mp hs).2

theorem channels_generate_news : ∃ text,
    generate account (List.replicate MIN_CHANNELS (newsStream (.text "news1.mx".toList)))
      = some text ∧
    channels text = List.replicate MIN_CHANNELS
      (expected account (newsStream (.text "news1.mx".toList))) := by
  obtain ⟨hkept, text, htext⟩ :=
    generate_replicate (included_newsStream (.text "news1.mx".toList))
  refine ⟨text, htext, ?_⟩
  rw [(channels_generate_iff htext).mpr, hkept, List.map_replicate]
  rw [hkept]
  intro s hs
  rw [List.eq_of_mem_replicate hs]
  exact clear_newsStream

/-- A channel without an id is read with the word for none. -/
theorem channels_generate_null_ne : ∃ text,
    generate account (List.replicate MIN_CHANNELS (newsStream .null)) = some text ∧
    channels text ≠ (kept account (List.replicate MIN_CHANNELS (newsStream .null))).map
      (expected account) := by
  obtain ⟨hkept, text, htext⟩ := generate_replicate (included_newsStream .null)
  refine ⟨text, htext, ?_⟩
  rw [channels_generate htext, hkept, Ne,
    flatMap_eq_map_iff fun s _ => by simp [streamChannels]]
  intro h
  have hread := h (newsStream .null) (by simp [MIN_CHANNELS])
  have hclear := (streamChannels_eq_iff (clean_group (included_newsStream .null))).mp hread
  obtain ⟨e, he, -⟩ := hclear
  have hnull : epgId account (newsStream .null) = .null := by decide +kernel
  rw [hnull] at he
  cases he

end Threadfin
end MediaHub

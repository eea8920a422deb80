import MediaHub.Subgen.LanguageCode
import Mathlib.Data.List.DropRight
import Mathlib.Data.List.Infix
import Mathlib.Data.List.Basic

/-!
# Which files need no subtitles

`stacks/subgen-r9/src/subgen.py`, `should_skip_file` with the functions it calls, and the
name under which `gen_subtitles` writes its result.  A scan asks for every media file
whether it can be skipped; it does not remember what it has done, and finds its own
subtitles again by their names.

A path is given by its folder and the name in it.  What is in a folder, the subtitle
streams of the file and the languages of its audio tracks are inputs.

## Main definitions

* `splitext`, `nameSubtitle` — the name of the written file.
* `hasExternalSubtitleInLanguage` — the search in the folder and the folders in it.
* `shouldSkipFile` — the answer, or `none` for the one way in which it raises.
* `writtenFile` — what `gen_subtitles` writes.

## Main results

* `rescanSkips` — **when the next scan skips a file that got its subtitles.**
* `staysSkipped` — **it is skipped from then on, whatever else comes into the folder.**
-/

namespace MediaHub
namespace Subgen

/-! ### Settings and inputs -/

/-- `subtitle_language_naming_type`. -/
inductive NamingType where
  | ISO_639_1
  | ISO_639_2_T
  | ISO_639_2_B
  | NAME
  | NATIVE
  | other
  deriving DecidableEq, Repr

structure SubtitleConfig where
  subtitleLanguageName : String
  /-- `transcribe_or_translate == 'translate'`. -/
  translate : Bool
  subtitleLanguageNamingType : NamingType
  showInSubnameSubgen : Bool
  showInSubnameModel : Bool
  whisperModel : String
  lrcForAudioFiles : Bool
  skipUnknownLanguage : Bool
  skipIfNoAudioLanguageButSubtitlesExist : Bool
  limitToPreferredAudioLanguages : Bool
  preferredAudioLanguages : List LanguageCode
  skipAudioLanguages : List LanguageCode
  skipIfTargetSubtitleExists : Bool
  onlyMatchSubgenSubtitles : Bool
  skipIfInternalSubLanguage : LanguageCode
  skipSubtitleLanguages : List LanguageCode
  skipIfExternalSubExists : Bool
  ignoreForcedSubtitles : Bool
  deriving DecidableEq, Repr

/-- A subtitle stream of a container. -/
structure SubtitleStream where
  /-- `stream.metadata.get('language')`. -/
  language : Option String
  forced : Bool
  deriving DecidableEq, Repr

/-- A file in a folder, or a folder with the names in it, if they can be listed, and which
of them are files. -/
inductive FolderEntry where
  | file
  | folder (listing : Option (List (List Char × Bool)))
  deriving DecidableEq, Repr

structure Folder where
  entries : List (List Char × FolderEntry)
  /-- `os.listdir` does not raise. -/
  readable : Bool
  deriving DecidableEq, Repr

/-- `os.path.exists`, in the folder. -/
def Folder.exists (name : List Char) (folder : Folder) : Bool :=
  folder.entries.any fun e => e.1 == name

/-- A file is written. -/
def Folder.write (name : List Char) (folder : Folder) : Folder :=
  { folder with entries := folder.entries.filter (fun e => e.1 ≠ name) ++ [(name, .file)] }

/-- `os.path.splitext`: a name of which the last dot has only dots before it is no stem and
extension. -/
def splitext (name : List Char) : List Char × List Char :=
  let stem := (name.rdropWhile (· ≠ '.')).dropLast
  if stem.all (· = '.') then (name, []) else (stem, '.' :: name.rtakeWhile (· ≠ '.'))

/-! ### The name of the subtitles -/

/-- `define_subtitle_language_naming`.  A format string shows `None` as it is. -/
def defineSubtitleLanguageNaming (cfg : SubtitleConfig) (language : LanguageCode) : String :=
  if cfg.subtitleLanguageName ≠ "" then cfg.subtitleLanguageName
  else
    let language := if cfg.translate then .ENGLISH else language
    (match cfg.subtitleLanguageNamingType with
      | .ISO_639_1 => language.toIso6391
      | .ISO_639_2_T => language.toIso6392T
      | .ISO_639_2_B => language.toIso6392B
      | .NAME => language.toName true
      | .NATIVE => language.toName false
      | .other => language.toName true).getD "None"

def nameSubtitle (cfg : SubtitleConfig) (base : List Char) (language : LanguageCode) : List Char :=
  (splitext base).1 ++ (if cfg.showInSubnameSubgen then ".subgen".toList else []) ++
    (if cfg.showInSubnameModel then '.' :: cfg.whisperModel.toList else []) ++
    '.' :: (defineSubtitleLanguageNaming cfg language).toList ++ ".srt".toList

/-! ### Subtitles that exist -/

variable (U : Unicodedata) (casefold : String → String)

def audioExtensions : List String :=
  [".mp3", ".wav", ".aac", ".flac", ".ogg", ".wma", ".alac", ".m4a", ".opus", ".aiff", ".aif",
    ".pcm", ".ra", ".ram", ".mid", ".midi", ".ape", ".wv", ".amr", ".vox", ".tak", ".spx",
    ".m4b", ".mka"]

def isAudioFileExtension (fileExtension : List Char) : Bool :=
  audioExtensions.contains (casefold (String.ofList fileExtension))

def subtitleExtensions : List String :=
  [".srt", ".vtt", ".sub", ".ass", ".ssa", ".idx", ".sbv", ".pgs", ".ttml", ".lrc"]

/-- `get_subtitle_languages`, of a file that can be opened. -/
def getSubtitleLanguages (cfg : SubtitleConfig) (streams : Option (List SubtitleStream)) :
    List LanguageCode :=
  ((streams.getD []).filter fun st => !(cfg.ignoreForcedSubtitles && st.forced)).map fun st =>
    match st.language with
    | some code => if code = "" then .NONE else LanguageCode.fromIso6392 code
    | none => .NONE

/-- `has_internal_subtitle_in_language`. -/
def hasInternalSubtitleInLanguage (cfg : SubtitleConfig) (streams : Option (List SubtitleStream))
    (target : LanguageCode) : Bool :=
  (streams.getD []).any fun st => st.language.any fun tag =>
    !(cfg.ignoreForcedSubtitles && st.forced) &&
      (LanguageCode.fromString U (U.lower tag)).eq target

/-- `is_valid_subtitle_language`. -/
def isValidSubtitleLanguage (subtitleParts : List (List Char)) (target : LanguageCode) : Bool :=
  subtitleParts.any fun part => (LanguageCode.fromString U (String.ofList part)).eq target

/-- The parts of the name of a subtitle file after the name of the video. -/
def subtitleParts (videoName fileName : List Char) : List (List Char) :=
  ((((splitext fileName).1.drop videoName.length).dropWhile (· = '.'))).splitOn '.'

/-- A file of a folder counts as a subtitle file of the video in the language. -/
def countsAsSubtitle (videoName : List Char) (target : LanguageCode) (onlyMatchSubgen : Bool)
    (fileName : List Char) : Bool :=
  subtitleExtensions.any (fun ext => ext.toList.isSuffixOf fileName) &&
    videoName.isPrefixOf (splitext fileName).1 &&
    let parts := subtitleParts videoName fileName
    let hasSubgen := parts.contains "subgen".toList
    if target.eq .NONE then !onlyMatchSubgen || hasSubgen
    else isValidSubtitleLanguage U parts target && (!onlyMatchSubgen || hasSubgen)

/-- `has_external_subtitle_in_language`, with `recursion=True`: the call for a folder in the
folder is made without. -/
def hasExternalSubtitleInLanguage (videoName : List Char) (target : LanguageCode)
    (onlyMatchSubgen : Bool) (folder : Folder) : Bool :=
  folder.readable && folder.entries.any fun e =>
    match e.2 with
    | .file => countsAsSubtitle U videoName target onlyMatchSubgen e.1
    | .folder listing => (listing.getD []).any fun f =>
        f.2 && countsAsSubtitle U videoName target onlyMatchSubgen f.1

/-! ### Skipping -/

/-- `named_output_configured`. -/
def namedOutput (cfg : SubtitleConfig) : Bool :=
  cfg.subtitleLanguageName ≠ "" && LanguageCode.isValidLanguage U cfg.subtitleLanguageName

/-- There are external subtitles in the language of the configured name. -/
def hasNamedSubtitle (cfg : SubtitleConfig) (videoName : List Char) (folder : Folder) : Bool :=
  namedOutput U cfg && hasExternalSubtitleInLanguage U videoName
    (LanguageCode.fromString U cfg.subtitleLanguageName) cfg.onlyMatchSubgenSubtitles folder

/-- `subtitle_exists_in_language`. -/
def subtitleExistsInLanguage (cfg : SubtitleConfig) (videoName : List Char)
    (streams : Option (List SubtitleStream)) (target : LanguageCode) (folder : Folder) : Bool :=
  (!cfg.onlyMatchSubgenSubtitles && hasInternalSubtitleInLanguage U cfg streams target) ||
    hasExternalSubtitleInLanguage U videoName target cfg.onlyMatchSubgenSubtitles folder

/-- Check 4: a subtitle in the target language. -/
def targetSubtitleExists (cfg : SubtitleConfig) (base : List Char)
    (streams : Option (List SubtitleStream)) (target : LanguageCode) (folder : Folder) : Bool :=
  (!(target.eq .NONE && namedOutput U cfg) &&
      subtitleExistsInLanguage U cfg (splitext base).1 streams target folder) ||
    hasNamedSubtitle U cfg (splitext base).1 folder ||
    folder.exists (nameSubtitle cfg base target)

/-- Check 1: an audio file that has its lyrics. -/
def hasLyrics (cfg : SubtitleConfig) (base : List Char) (folder : Folder) : Bool :=
  isAudioFileExtension casefold (splitext base).2 && cfg.lrcForAudioFiles &&
    folder.exists ((splitext base).1 ++ ".lrc".toList)

/-- Check 2: the language is not known. -/
def skipsUnknown (cfg : SubtitleConfig) (streams : Option (List SubtitleStream))
    (target : LanguageCode) : Bool :=
  target.eq .NONE && (cfg.skipUnknownLanguage ||
    (cfg.skipIfNoAudioLanguageButSubtitlesExist && !(getSubtitleLanguages cfg streams).isEmpty))

/-- Check 3a: no audio track is in a preferred language. -/
def noPreferredAudio (cfg : SubtitleConfig) (audioLangs : List LanguageCode) : Bool :=
  cfg.limitToPreferredAudioLanguages &&
    !audioLangs.any fun lang => cfg.preferredAudioLanguages.any lang.eq

/-- Checks 5a and 5b: subtitles in the container. -/
def skipsInternal (cfg : SubtitleConfig) (streams : Option (List SubtitleStream)) : Bool :=
  (!cfg.skipIfInternalSubLanguage.eq .NONE &&
      hasInternalSubtitleInLanguage U cfg streams cfg.skipIfInternalSubLanguage) ||
    (getSubtitleLanguages cfg streams).any fun lang => cfg.skipSubtitleLanguages.any lang.eq

/-- The language that the checks look for. -/
def targetOf (cfg : SubtitleConfig) (language : LanguageCode) : LanguageCode :=
  if cfg.translate then .ENGLISH else language

/-- `should_skip_file`.  `none` is the `TypeError` of check 3a, which joins the names of the
preferred languages for its message. -/
def shouldSkipFile (cfg : SubtitleConfig) (base : List Char) (language : LanguageCode)
    (audioLangs : List LanguageCode) (streams : Option (List SubtitleStream)) (folder : Folder) :
    Option Bool :=
  if hasLyrics casefold cfg base folder then some true
  else if skipsUnknown cfg streams (targetOf cfg language) then some true
  else if noPreferredAudio cfg audioLangs then
    if cfg.preferredAudioLanguages.any fun lang => lang.eq .NONE then none else some true
  else if audioLangs.any fun lang => cfg.skipAudioLanguages.any lang.eq then some true
  else if cfg.skipIfTargetSubtitleExists &&
      targetSubtitleExists U cfg base streams (targetOf cfg language) folder then some true
  else if skipsInternal U cfg streams then some true
  else some (cfg.skipIfExternalSubExists && hasNamedSubtitle U cfg (splitext base).1 folder)

/-- The name of the file that `gen_subtitles` writes. -/
def writtenFile (cfg : SubtitleConfig) (base : List Char) (outputLanguage : LanguageCode) :
    List Char :=
  if isAudioFileExtension casefold (splitext base).2 && cfg.lrcForAudioFiles then
    (splitext base).1 ++ ".lrc".toList
  else nameSubtitle cfg base outputLanguage

variable {U casefold} {cfg : SubtitleConfig} {base n m : List Char} {folder folder' : Folder}
  {audioLangs : List LanguageCode} {streams : Option (List SubtitleStream)}
  {known output target : LanguageCode} {onlyMatch : Bool} {videoName : List Char}

/-! ### The written name -/

theorem splitext_fst {x ext : List Char} (hext : '.' ∉ ext) :
    (splitext (x ++ '.' :: ext)).1 = if x.all (· = '.') then x ++ '.' :: ext else x := by
  have hdrop : (x ++ '.' :: ext).rdropWhile (· ≠ '.') = x ++ ['.'] := by
    rw [List.rdropWhile, List.reverse_append, List.reverse_cons, List.append_assoc,
      List.dropWhile_append_of_pos, List.singleton_append, List.dropWhile_cons_of_neg (by simp),
      List.reverse_cons, List.reverse_reverse]
    intro ch hch
    have hin : ch ∈ ext := List.mem_reverse.mp hch
    have hne : ch ≠ '.' := fun heq => hext (heq ▸ hin)
    simpa using hne
  unfold splitext
  simp only [hdrop, List.dropLast_concat]
  split <;> rfl

/-- What comes after the stem, before the extension. -/
def nameTail (cfg : SubtitleConfig) (language : LanguageCode) : List Char :=
  (if cfg.showInSubnameSubgen then ".subgen".toList else []) ++
    (if cfg.showInSubnameModel then '.' :: cfg.whisperModel.toList else []) ++
    '.' :: (defineSubtitleLanguageNaming cfg language).toList

theorem nameSubtitle_eq (cfg : SubtitleConfig) (base : List Char) (language : LanguageCode) :
    nameSubtitle cfg base language
      = ((splitext base).1 ++ nameTail cfg language) ++ '.' :: "srt".toList := by
  simp only [nameSubtitle, nameTail, List.append_assoc]
  rfl

/-- The written name begins with the name of the video, and is that of a subtitle file. -/
theorem prefix_splitext (cfg : SubtitleConfig) (base : List Char) (language : LanguageCode) :
    (splitext base).1 <+: (splitext (nameSubtitle cfg base language)).1 := by
  rw [nameSubtitle_eq, splitext_fst (by decide)]
  split
  · rw [List.append_assoc]
    exact List.prefix_append _ _
  · exact List.prefix_append _ _

/-- In a scan that does not know the language, a written file counts if it is marked. -/
theorem countsAsSubtitle_none (cfg : SubtitleConfig) (base : List Char) (language : LanguageCode) :
    countsAsSubtitle U (splitext base).1 .NONE onlyMatch (nameSubtitle cfg base language)
      = (!onlyMatch || (subtitleParts (splitext base).1 (nameSubtitle cfg base language)).contains
          "subgen".toList) := by
  have hext : subtitleExtensions.any
      (fun ext => ext.toList.isSuffixOf (nameSubtitle cfg base language)) = true := by
    refine List.any_eq_true.mpr ⟨".srt", List.mem_cons_self, ?_⟩
    rw [List.isSuffixOf_iff_suffix, nameSubtitle_eq]
    exact List.suffix_append _ _
  have hpre : (splitext base).1.isPrefixOf (splitext (nameSubtitle cfg base language)).1 = true :=
    List.isPrefixOf_iff_prefix.mpr (prefix_splitext cfg base language)
  unfold countsAsSubtitle
  rw [hext, hpre, if_pos ((LanguageCode.eq_iff _ _).mpr rfl), Bool.true_and, Bool.true_and]

/-- With `SHOW_IN_SUBNAME_SUBGEN` the written name has the mark. -/
theorem subgen_mem_subtitleParts (hshow : cfg.showInSubnameSubgen = true) (base : List Char)
    (language : LanguageCode) :
    (subtitleParts (splitext base).1 (nameSubtitle cfg base language)).contains "subgen".toList
      = true := by
  obtain ⟨rest, htail⟩ :
      ∃ rest, nameTail cfg language = '.' :: ("subgen".toList ++ '.' :: rest) := by
    unfold nameTail
    rw [if_pos hshow]
    split
    · exact ⟨_, by simp only [List.append_assoc]; rfl⟩
    · exact ⟨_, by simp only [List.append_assoc]; rfl⟩
  have hall : ((splitext base).1 ++ nameTail cfg language).all (· = '.') = false := by
    rw [htail]
    simp
  rw [subtitleParts, nameSubtitle_eq, splitext_fst (by decide), hall, if_neg Bool.false_ne_true,
    List.drop_left, htail, List.contains_iff_mem]
  rw [show ('.' :: ("subgen".toList ++ '.' :: rest)).dropWhile (· = '.')
    = "subgen".toList ++ '.' :: rest from rfl]
  rw [List.splitOn_append_cons_self]
  exact List.mem_append_left _ (by decide)

/-! ### What a written file changes -/

theorem exists_write : (folder.write n).exists m = (folder.exists m || n == m) := by
  unfold Folder.exists Folder.write
  rw [List.any_append, List.any_cons, List.any_nil, Bool.or_false]
  rcases eq_or_ne n m with rfl | hne
  · rw [beq_self_eq_true, Bool.or_true, Bool.or_true]
  · rw [List.any_filter]
    congr 1
    refine List.any_congr rfl fun e => ?_
    rcases eq_or_ne e.1 m with rfl | hem
    · simp [hne.symm]
    · simp [hem]

theorem hasExternal_write (hread : folder.readable = true)
    (hnone : hasExternalSubtitleInLanguage U videoName target onlyMatch folder = false) :
    hasExternalSubtitleInLanguage U videoName target onlyMatch (folder.write n)
      = countsAsSubtitle U videoName target onlyMatch n := by
  unfold hasExternalSubtitleInLanguage Folder.write at *
  rw [hread, Bool.true_and] at hnone ⊢
  rw [List.any_append, List.any_cons, List.any_nil, Bool.or_false]
  have hold := List.any_eq_false.mp hnone
  rw [List.any_eq_false.mpr fun e he => hold e (List.mem_of_mem_filter he), Bool.false_or]

set_option maxRecDepth 100000 in
/-- No language is named as none is. -/
theorem naming_ne_none : ∀ l ∈ LanguageCode.all, ∀ names ∈ l.value,
    names.iso6391 ≠ "None" ∧ names.iso6392T ≠ "None" ∧ names.iso6392B ≠ "None" ∧
      names.nameEn ≠ "None" ∧ names.nameNative ≠ "None" := by
  decide +kernel

theorem naming_eq_none (hname : cfg.subtitleLanguageName = "") (htranslate : cfg.translate = false)
    (houtput : output ≠ .NONE) :
    defineSubtitleLanguageNaming cfg output ≠ defineSubtitleLanguageNaming cfg .NONE := by
  have hnone : defineSubtitleLanguageNaming cfg .NONE = "None" := by
    unfold defineSubtitleLanguageNaming
    rw [if_neg (not_not_intro hname), htranslate]
    cases cfg.subtitleLanguageNamingType <;> rfl
  rw [hnone]
  cases hv : output.value with
  | none => exact absurd (LanguageCode.value_eq_none hv) houtput
  | some names =>
    obtain ⟨h1, h2, h3, h4, h5⟩ :=
      naming_ne_none output (LanguageCode.mem_all output) names (Option.mem_def.mpr hv)
    unfold defineSubtitleLanguageNaming
    rw [if_neg (not_not_intro hname), htranslate]
    cases cfg.subtitleLanguageNamingType <;>
      simpa [LanguageCode.toIso6391, LanguageCode.toIso6392T, LanguageCode.toIso6392B,
        LanguageCode.toName, hv]

/-! ### The next scan -/

theorem of_ite_eq {α : Type} {c : Prop} [Decidable c] {a b r : α} (ha : a ≠ r)
    (h : (if c then a else b) = r) : ¬c ∧ b = r := by
  split at h
  · exact absurd h ha
  · next hc => exact ⟨hc, h⟩

/-- What a scan found that did not skip the file. -/
theorem checks_of_not_skipped
    (h : shouldSkipFile U casefold cfg base known audioLangs streams folder = some false) :
    hasLyrics casefold cfg base folder = false ∧
      skipsUnknown cfg streams (targetOf cfg known) = false ∧
      noPreferredAudio cfg audioLangs = false ∧
      (audioLangs.any fun lang => cfg.skipAudioLanguages.any lang.eq) = false ∧
      (cfg.skipIfTargetSubtitleExists &&
        targetSubtitleExists U cfg base streams (targetOf cfg known) folder) = false ∧
      skipsInternal U cfg streams = false ∧
      (cfg.skipIfExternalSubExists && hasNamedSubtitle U cfg (splitext base).1 folder) = false := by
  unfold shouldSkipFile at h
  obtain ⟨h1, h⟩ := of_ite_eq (by simp) h
  obtain ⟨h2, h⟩ := of_ite_eq (by simp) h
  obtain ⟨h3, h⟩ := of_ite_eq (by split <;> simp) h
  obtain ⟨h4, h⟩ := of_ite_eq (by simp) h
  obtain ⟨h5, h⟩ := of_ite_eq (by simp) h
  obtain ⟨h6, h⟩ := of_ite_eq (by simp) h
  rw [Bool.not_eq_true] at h1 h2 h3 h4 h5 h6
  exact ⟨h1, h2, h3, h4, h5, h6, Option.some.inj h⟩

/-- What a later scan answers, after one that did not skip the file. -/
theorem shouldSkipFile_again
    (h : shouldSkipFile U casefold cfg base known audioLangs streams folder = some false) :
    shouldSkipFile U casefold cfg base known audioLangs streams folder'
      = some (hasLyrics casefold cfg base folder' ||
        (cfg.skipIfTargetSubtitleExists &&
          targetSubtitleExists U cfg base streams (targetOf cfg known) folder') ||
        (cfg.skipIfExternalSubExists && hasNamedSubtitle U cfg (splitext base).1 folder')) := by
  obtain ⟨-, h2, h3, h4, -, h6, -⟩ := checks_of_not_skipped h
  unfold shouldSkipFile
  simp only [h2, h3, h4, h6, Bool.false_eq_true, if_false]
  cases hasLyrics casefold cfg base folder' with
  | true => rfl
  | false =>
    cases (cfg.skipIfTargetSubtitleExists &&
      targetSubtitleExists U cfg base streams (targetOf cfg known) folder') <;> rfl

/-- The file is not found again: it is no lyrics file, its language is known from the
transcription only and is in its name, nothing but files with the mark counts, and it has
none. -/
structure LosesTrack (casefold : String → String) (cfg : SubtitleConfig) (base : List Char)
    (known output : LanguageCode) : Prop where
  noLyrics : (isAudioFileExtension casefold (splitext base).2 && cfg.lrcForAudioFiles) = false
  name : cfg.subtitleLanguageName = ""
  translate : cfg.translate = false
  unknown : known = .NONE
  heard : output ≠ .NONE
  onlyMatch : cfg.onlyMatchSubgenSubtitles = true
  unmarked : (subtitleParts (splitext base).1 (nameSubtitle cfg base output)).contains
    "subgen".toList = false

theorem nameSubtitle_inj (h : nameSubtitle cfg base output = nameSubtitle cfg base target) :
    defineSubtitleLanguageNaming cfg output = defineSubtitleLanguageNaming cfg target := by
  simp only [nameSubtitle, List.append_cancel_right_eq, List.append_cancel_left_eq,
    List.cons.injEq, true_and] at h
  exact String.toList_injective h

theorem nameSubtitle_congr
    (h : defineSubtitleLanguageNaming cfg output = defineSubtitleLanguageNaming cfg target) :
    nameSubtitle cfg base output = nameSubtitle cfg base target := by
  rw [nameSubtitle, nameSubtitle, h]

/-- The name of the file is not the one that the scan expects. -/
theorem unknown_of_ne (houtput : known ≠ .NONE → output = known)
    (hne : nameSubtitle cfg base output ≠ nameSubtitle cfg base (targetOf cfg known)) :
    cfg.subtitleLanguageName = "" ∧ cfg.translate = false ∧ known = .NONE ∧ output ≠ .NONE := by
  have hname : cfg.subtitleLanguageName = "" := by
    by_contra hname
    refine hne (nameSubtitle_congr ?_)
    unfold defineSubtitleLanguageNaming
    rw [if_pos hname, if_pos hname]
  have htranslate : cfg.translate = false := by
    by_contra htranslate
    refine hne (nameSubtitle_congr ?_)
    unfold defineSubtitleLanguageNaming
    simp [Bool.not_eq_false _ ▸ htranslate]
  rw [targetOf, htranslate, if_neg Bool.false_ne_true] at hne
  have hknown : known = .NONE := by
    by_contra hknown
    exact hne (by rw [houtput hknown])
  refine ⟨hname, htranslate, hknown, ?_⟩
  rintro rfl
  exact hne (by rw [hknown])

/-- **When the next scan skips a file that got its subtitles**: with
`SKIP_IF_TARGET_SUBTITLES_EXIST` on, after a scan that did not skip the file and the writing
of its subtitles, in the language that the scan knew if it knew one, the next scan skips it
if and only if it does not lose track of the written file. -/
theorem rescanSkips (hskip : cfg.skipIfTargetSubtitleExists = true)
    (hread : folder.readable = true)
    (hfirst : shouldSkipFile U casefold cfg base known audioLangs streams folder = some false)
    (houtput : known ≠ .NONE → output = known) :
    shouldSkipFile U casefold cfg base known audioLangs streams
        (folder.write (writtenFile casefold cfg base output)) = some true ↔
      ¬LosesTrack casefold cfg base known output := by
  obtain ⟨-, -, -, -, h5, -, -⟩ := checks_of_not_skipped hfirst
  rw [shouldSkipFile_again hfirst, hskip, Bool.true_and, Option.some.injEq]
  rw [hskip, Bool.true_and, targetSubtitleExists, Bool.or_eq_false_iff,
    Bool.or_eq_false_iff] at h5
  obtain ⟨⟨hsub, -⟩, hexists⟩ := h5
  cases haudio : isAudioFileExtension casefold (splitext base).2 && cfg.lrcForAudioFiles with
  | true =>
    refine iff_of_true ?_ fun hl => Bool.false_ne_true (hl.noLyrics.symm.trans haudio)
    rw [hasLyrics, writtenFile, if_pos haudio, haudio, exists_write, beq_self_eq_true,
      Bool.or_true]
    rfl
  | false =>
    rw [writtenFile, if_neg (by simp [haudio]), hasLyrics, haudio, Bool.false_and, Bool.false_or]
    by_cases hsame :
        nameSubtitle cfg base output = nameSubtitle cfg base (targetOf cfg known)
    · -- the scan finds the very file
      refine iff_of_true ?_ fun hl => ?_
      · rw [targetSubtitleExists, exists_write, beq_iff_eq.mpr hsame, Bool.or_true, Bool.or_true,
          Bool.true_or]
      · rw [targetOf, hl.translate, if_neg Bool.false_ne_true, hl.unknown] at hsame
        exact naming_eq_none hl.name hl.translate hl.heard (nameSubtitle_inj hsame)
    · -- it has to find it among the subtitles of any language
      obtain ⟨hname, htranslate, rfl, hout⟩ := unknown_of_ne houtput hsame
      have hnamed : namedOutput U cfg = false := by simp [namedOutput, hname]
      have hnone : (LanguageCode.NONE).eq .NONE = true := (LanguageCode.eq_iff _ _).mpr rfl
      rw [targetOf, htranslate, if_neg Bool.false_ne_true] at hexists hsub hsame ⊢
      rw [hnamed, hnone, Bool.and_false, Bool.not_false, Bool.true_and,
        subtitleExistsInLanguage, Bool.or_eq_false_iff] at hsub
      have hagain : targetSubtitleExists U cfg base streams .NONE
          (folder.write (nameSubtitle cfg base output))
          = (!cfg.onlyMatchSubgenSubtitles || (subtitleParts (splitext base).1
            (nameSubtitle cfg base output)).contains "subgen".toList) := by
        rw [targetSubtitleExists, hnamed, hnone, hasNamedSubtitle, hnamed, exists_write, hexists,
          beq_eq_false_iff_ne.mpr hsame, subtitleExistsInLanguage, hsub.1,
          hasExternal_write hread hsub.2, countsAsSubtitle_none]
        simp
      rw [hagain, hasNamedSubtitle, hnamed, Bool.false_and, Bool.and_false, Bool.or_false,
        Bool.or_eq_true, Bool.not_eq_true']
      constructor
      · rintro (honly | hmarked) hl
        · exact Bool.false_ne_true (honly.symm.trans hl.onlyMatch)
        · exact Bool.false_ne_true (hl.unmarked.symm.trans hmarked)
      · intro hl
        by_contra hneither
        obtain ⟨honly, hmarked⟩ := not_or.mp hneither
        exact hl ⟨haudio, hname, htranslate, rfl, hout, Bool.not_eq_false _ ▸ honly,
          Bool.not_eq_true _ ▸ hmarked⟩

/-- With the mark in the names no scan loses track. -/
theorem not_losesTrack_of_show (hshow : cfg.showInSubnameSubgen = true) :
    ¬LosesTrack casefold cfg base known output := fun hl =>
  Bool.false_ne_true (hl.unmarked.symm.trans (subgen_mem_subtitleParts hshow base output))

/-- The default settings. -/
def defaultConfig : SubtitleConfig where
  subtitleLanguageName := ""
  translate := false
  subtitleLanguageNamingType := .ISO_639_2_B
  showInSubnameSubgen := true
  showInSubnameModel := true
  whisperModel := "medium"
  lrcForAudioFiles := true
  skipUnknownLanguage := false
  skipIfNoAudioLanguageButSubtitlesExist := false
  limitToPreferredAudioLanguages := false
  preferredAudioLanguages := [.ENGLISH]
  skipAudioLanguages := []
  skipIfTargetSubtitleExists := true
  onlyMatchSubgenSubtitles := false
  skipIfInternalSubLanguage := .NONE
  skipSubtitleLanguages := []
  skipIfExternalSubExists := false
  ignoreForcedSubtitles := true

/-- A folder with one film. -/
def oneFilm : Folder := ⟨[("a.mkv".toList, .file)], true⟩

theorem rescanSkips_oneFilm :
    shouldSkipFile Unicodedata.ascii id defaultConfig "a.mkv".toList .NONE [] none
        (oneFilm.write (writtenFile id defaultConfig "a.mkv".toList .GERMAN)) = some true ↔
      ¬LosesTrack id defaultConfig "a.mkv".toList .NONE .GERMAN :=
  rescanSkips rfl rfl (by decide +kernel) (absurd rfl)

/-! ### All later scans -/

/-- A file is still there, and a folder with everything that was in it. -/
inductive FolderEntry.Grows : FolderEntry → FolderEntry → Prop
  | file : Grows .file .file
  | folder {listing listing' : Option (List (List Char × Bool))}
      (h : ∀ f ∈ listing.getD [], f ∈ listing'.getD []) : Grows (.folder listing) (.folder listing')

/-- Everything that is in the first folder and the folders in it is in the second one. -/
structure Extends (folder folder' : Folder) : Prop where
  entries : ∀ e ∈ folder.entries, ∃ entry, (e.1, entry) ∈ folder'.entries ∧ e.2.Grows entry
  readable : folder.readable = true → folder'.readable = true

theorem Extends.exists (h : Extends folder folder') (he : folder.exists n = true) :
    folder'.exists n = true := by
  obtain ⟨e, hin, heq⟩ := List.any_eq_true.mp he
  obtain ⟨entry, hentry, -⟩ := h.entries e hin
  exact List.any_eq_true.mpr ⟨_, hentry, heq⟩

theorem Extends.hasExternal (h : Extends folder folder')
    (he : hasExternalSubtitleInLanguage U videoName target onlyMatch folder = true) :
    hasExternalSubtitleInLanguage U videoName target onlyMatch folder' = true := by
  obtain ⟨hread, hany⟩ := Bool.and_eq_true_iff.mp he
  obtain ⟨⟨name, kind⟩, hin, hcounts⟩ := List.any_eq_true.mp hany
  obtain ⟨entry, hentry, hgrows⟩ := h.entries _ hin
  refine Bool.and_eq_true_iff.mpr ⟨h.readable hread, List.any_eq_true.mpr ⟨_, hentry, ?_⟩⟩
  cases hgrows with
  | file => exact hcounts
  | folder hall =>
    obtain ⟨f, hf, hcounts⟩ := List.any_eq_true.mp hcounts
    exact List.any_eq_true.mpr ⟨f, hall f hf, hcounts⟩

theorem Extends.hasNamed (h : Extends folder folder')
    (he : hasNamedSubtitle U cfg videoName folder = true) :
    hasNamedSubtitle U cfg videoName folder' = true :=
  Bool.and_eq_true_iff.mpr ((Bool.and_eq_true_iff.mp he).imp_right h.hasExternal)

theorem Extends.hasLyrics (h : Extends folder folder')
    (he : hasLyrics casefold cfg base folder = true) : hasLyrics casefold cfg base folder' = true :=
  Bool.and_eq_true_iff.mpr ((Bool.and_eq_true_iff.mp he).imp_right h.exists)

theorem Extends.targetExists (h : Extends folder folder')
    (he : targetSubtitleExists U cfg base streams target folder = true) :
    targetSubtitleExists U cfg base streams target folder' = true := by
  rw [targetSubtitleExists, Bool.or_eq_true, Bool.or_eq_true, Bool.and_eq_true,
    subtitleExistsInLanguage, Bool.or_eq_true] at he ⊢
  exact he.imp (Or.imp (And.imp_right (Or.imp_right h.hasExternal)) h.hasNamed) h.exists

/-- What comes into a folder does not make a scan take up a file that it skips. -/
theorem Extends.shouldSkipFile (h : Extends folder folder')
    (hs : shouldSkipFile U casefold cfg base known audioLangs streams folder = some true) :
    shouldSkipFile U casefold cfg base known audioLangs streams folder' = some true := by
  unfold Subgen.shouldSkipFile at hs ⊢
  by_cases h1 : Subgen.hasLyrics casefold cfg base folder' = true
  · rw [if_pos h1]
  rw [if_neg h1]
  rw [if_neg (mt h.hasLyrics h1)] at hs
  by_cases h2 : skipsUnknown cfg streams (targetOf cfg known) = true
  · rw [if_pos h2]
  rw [if_neg h2] at hs ⊢
  by_cases h3 : noPreferredAudio cfg audioLangs = true
  · rw [if_pos h3] at hs ⊢
    exact hs
  rw [if_neg h3] at hs ⊢
  by_cases h4 : (audioLangs.any fun lang => cfg.skipAudioLanguages.any lang.eq) = true
  · rw [if_pos h4]
  rw [if_neg h4] at hs ⊢
  by_cases h5 : (cfg.skipIfTargetSubtitleExists &&
      targetSubtitleExists U cfg base streams (targetOf cfg known) folder') = true
  · rw [if_pos h5]
  rw [if_neg h5]
  rw [if_neg fun h5' => h5 (Bool.and_eq_true_iff.mpr
    ((Bool.and_eq_true_iff.mp h5').imp_right h.targetExists))] at hs
  by_cases h6 : skipsInternal U cfg streams = true
  · rw [if_pos h6]
  rw [if_neg h6] at hs ⊢
  rw [Option.some.injEq, Bool.and_eq_true] at hs ⊢
  exact hs.imp_right h.hasNamed

variable (U casefold cfg base audioLangs streams known output)

/-- **A file that got its subtitles is skipped from then on**, unless the scans lose track of
the written file: whatever comes into the folder or the folders in it never makes a scan take
up a file that it skips. -/
theorem staysSkipped :
    (∀ folder folder', Extends folder folder' →
      shouldSkipFile U casefold cfg base known audioLangs streams folder = some true →
        shouldSkipFile U casefold cfg base known audioLangs streams folder' = some true) ∧
      ∀ folder folder', cfg.skipIfTargetSubtitleExists = true → folder.readable = true →
        shouldSkipFile U casefold cfg base known audioLangs streams folder = some false →
        (known ≠ .NONE → output = known) → ¬LosesTrack casefold cfg base known output →
        Extends (folder.write (writtenFile casefold cfg base output)) folder' →
          shouldSkipFile U casefold cfg base known audioLangs streams folder' = some true := by
  constructor
  · intro folder folder' hmore hs
    exact hmore.shouldSkipFile hs
  · intro folder folder' hskip hread hfirst houtput htrack hmore
    exact hmore.shouldSkipFile ((rescanSkips hskip hread hfirst houtput).mpr htrack)

/-- The folder later, with another film and more in the folder `Subs`. -/
def laterFolder : Folder :=
  ⟨[("b.mkv".toList, .file), ("Subs".toList, .folder (some [("b.srt".toList, true)])),
    ("a.mkv".toList, .file), (writtenFile id defaultConfig "a.mkv".toList .GERMAN, .file)], true⟩

theorem staysSkipped_oneFilm :
    shouldSkipFile Unicodedata.ascii id defaultConfig "a.mkv".toList .NONE [] none laterFolder
      = some true := by
  have h := staysSkipped Unicodedata.ascii id defaultConfig "a.mkv".toList [] none .NONE .GERMAN
  refine h.2 ⟨[("a.mkv".toList, .file), ("Subs".toList, .folder (some []))], true⟩ laterFolder rfl
    rfl (by decide +kernel) (absurd rfl) (not_losesTrack_of_show rfl) ⟨?_, fun _ => rfl⟩
  intro e he
  have hcases : e = ("a.mkv".toList, .file) ∨ e = ("Subs".toList, .folder (some [])) ∨
      e = (writtenFile id defaultConfig "a.mkv".toList .GERMAN, .file) := by
    revert e
    decide +kernel
  rcases hcases with rfl | rfl | rfl
  · exact ⟨.file, by decide +kernel, .file⟩
  · exact ⟨.folder (some [("b.srt".toList, true)]), by decide +kernel, .folder (by simp)⟩
  · exact ⟨.file, by decide +kernel, .file⟩

end Subgen
end MediaHub

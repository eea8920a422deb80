import MediaHub.Text
import Mathlib.Data.List.Basic

/-!
# Language codes

`stacks/subgen-r9/src/language_code.py`: the languages with their ISO codes and their names,
and the lookup of a language by any of them.

## Main definitions

* `LanguageCode`, `LanguageCode.value` — the table.
* `fromString` — `LanguageCode.from_string`.

## Main results

* `fromString_code` — **each ISO code of a language is read as that language.**
-/

namespace MediaHub
namespace Subgen

/-! ### The table -/

inductive LanguageCode where
  | AFAR | AFRIKAANS | AMHARIC | ARABIC | ASSAMESE | AZERBAIJANI | BASHKIR | BELARUSIAN
  | BULGARIAN | BENGALI | TIBETAN | BRETON | BOSNIAN | CATALAN | CZECH | WELSH | DANISH
  | GERMAN | GREEK | ENGLISH | SPANISH | ESTONIAN | BASQUE | PERSIAN | FINNISH | FAROESE
  | FRENCH | GALICIAN | GUJARATI | HAUSA | HAWAIIAN | HEBREW | HINDI | CROATIAN
  | HAITIAN_CREOLE | HUNGARIAN | ARMENIAN | INDONESIAN | ICELANDIC | ITALIAN | JAPANESE
  | JAVANESE | GEORGIAN | KAZAKH | KHMER | KANNADA | KOREAN | LATIN | LUXEMBOURGISH | LINGALA
  | LAO | LITHUANIAN | LATVIAN | MALAGASY | MAORI | MACEDONIAN | MALAYALAM | MONGOLIAN
  | MARATHI | MALAY | MALTESE | BURMESE | NEPALI | DUTCH | NORWEGIAN_NYNORSK | NORWEGIAN
  | OCCITAN | PUNJABI | POLISH | PASHTO | PORTUGUESE | ROMANIAN | RUSSIAN | SANSKRIT | SINDHI
  | SINHALA | SLOVAK | SLOVENE | SHONA | SOMALI | ALBANIAN | SERBIAN | SUNDANESE | SWEDISH
  | SWAHILI | TAMIL | TELUGU | TAJIK | THAI | TURKMEN | TAGALOG | TURKISH | TATAR | UKRAINIAN
  | URDU | UZBEK | VIETNAMESE | YIDDISH | YORUBA | CHINESE | CANTONESE | NONE
  deriving DecidableEq, Repr

/-- ISO 639-1, ISO 639-2/T, ISO 639-2/B, English name, native name. -/
structure LanguageNames where
  iso6391 : String
  iso6392T : String
  iso6392B : String
  nameEn : String
  nameNative : String
  deriving DecidableEq, Repr

namespace LanguageCode

/-- The value of a member; `NONE` has no names. -/
def value : LanguageCode → Option LanguageNames
  | .AFAR => some ⟨"aa", "aar", "aar", "Afar", "Afar"⟩
  | .AFRIKAANS => some ⟨"af", "afr", "afr", "Afrikaans", "Afrikaans"⟩
  | .AMHARIC => some ⟨"am", "amh", "amh", "Amharic", "አማርኛ"⟩
  | .ARABIC => some ⟨"ar", "ara", "ara", "Arabic", "العربية"⟩
  | .ASSAMESE => some ⟨"as", "asm", "asm", "Assamese", "অসমীয়া"⟩
  | .AZERBAIJANI => some ⟨"az", "aze", "aze", "Azerbaijani", "Azərbaycanca"⟩
  | .BASHKIR => some ⟨"ba", "bak", "bak", "Bashkir", "Башҡортса"⟩
  | .BELARUSIAN => some ⟨"be", "bel", "bel", "Belarusian", "Беларуская"⟩
  | .BULGARIAN => some ⟨"bg", "bul", "bul", "Bulgarian", "Български"⟩
  | .BENGALI => some ⟨"bn", "ben", "ben", "Bengali", "বাংলা"⟩
  | .TIBETAN => some ⟨"bo", "bod", "tib", "Tibetan", "བོད་ཡིག"⟩
  | .BRETON => some ⟨"br", "bre", "bre", "Breton", "Brezhoneg"⟩
  | .BOSNIAN => some ⟨"bs", "bos", "bos", "Bosnian", "Bosanski"⟩
  | .CATALAN => some ⟨"ca", "cat", "cat", "Catalan", "Català"⟩
  | .CZECH => some ⟨"cs", "ces", "cze", "Czech", "Čeština"⟩
  | .WELSH => some ⟨"cy", "cym", "wel", "Welsh", "Cymraeg"⟩
  | .DANISH => some ⟨"da", "dan", "dan", "Danish", "Dansk"⟩
  | .GERMAN => some ⟨"de", "deu", "ger", "German", "Deutsch"⟩
  | .GREEK => some ⟨"el", "ell", "gre", "Greek", "Ελληνικά"⟩
  | .ENGLISH => some ⟨"en", "eng", "eng", "English", "English"⟩
  | .SPANISH => some ⟨"es", "spa", "spa", "Spanish", "Español"⟩
  | .ESTONIAN => some ⟨"et", "est", "est", "Estonian", "Eesti"⟩
  | .BASQUE => some ⟨"eu", "eus", "baq", "Basque", "Euskara"⟩
  | .PERSIAN => some ⟨"fa", "fas", "per", "Persian", "فارسی"⟩
  | .FINNISH => some ⟨"fi", "fin", "fin", "Finnish", "Suomi"⟩
  | .FAROESE => some ⟨"fo", "fao", "fao", "Faroese", "Føroyskt"⟩
  | .FRENCH => some ⟨"fr", "fra", "fre", "French", "Français"⟩
  | .GALICIAN => some ⟨"gl", "glg", "glg", "Galician", "Galego"⟩
  | .GUJARATI => some ⟨"gu", "guj", "guj", "Gujarati", "ગુજરાતી"⟩
  | .HAUSA => some ⟨"ha", "hau", "hau", "Hausa", "Hausa"⟩
  | .HAWAIIAN => some ⟨"haw", "haw", "haw", "Hawaiian", "ʻŌlelo Hawaiʻi"⟩
  | .HEBREW => some ⟨"he", "heb", "heb", "Hebrew", "עברית"⟩
  | .HINDI => some ⟨"hi", "hin", "hin", "Hindi", "हिन्दी"⟩
  | .CROATIAN => some ⟨"hr", "hrv", "hrv", "Croatian", "Hrvatski"⟩
  | .HAITIAN_CREOLE => some ⟨"ht", "hat", "hat", "Haitian Creole", "Kreyòl Ayisyen"⟩
  | .HUNGARIAN => some ⟨"hu", "hun", "hun", "Hungarian", "Magyar"⟩
  | .ARMENIAN => some ⟨"hy", "hye", "arm", "Armenian", "Հայերեն"⟩
  | .INDONESIAN => some ⟨"id", "ind", "ind", "Indonesian", "Bahasa Indonesia"⟩
  | .ICELANDIC => some ⟨"is", "isl", "ice", "Icelandic", "Íslenska"⟩
  | .ITALIAN => some ⟨"it", "ita", "ita", "Italian", "Italiano"⟩
  | .JAPANESE => some ⟨"ja", "jpn", "jpn", "Japanese", "日本語"⟩
  | .JAVANESE => some ⟨"jw", "jav", "jav", "Javanese", "ꦧꦱꦗꦮ"⟩
  | .GEORGIAN => some ⟨"ka", "kat", "geo", "Georgian", "ქართული"⟩
  | .KAZAKH => some ⟨"kk", "kaz", "kaz", "Kazakh", "Қазақша"⟩
  | .KHMER => some ⟨"km", "khm", "khm", "Khmer", "ភាសាខ្មែរ"⟩
  | .KANNADA => some ⟨"kn", "kan", "kan", "Kannada", "ಕನ್ನಡ"⟩
  | .KOREAN => some ⟨"ko", "kor", "kor", "Korean", "한국어"⟩
  | .LATIN => some ⟨"la", "lat", "lat", "Latin", "Latina"⟩
  | .LUXEMBOURGISH => some ⟨"lb", "ltz", "ltz", "Luxembourgish", "Lëtzebuergesch"⟩
  | .LINGALA => some ⟨"ln", "lin", "lin", "Lingala", "Lingála"⟩
  | .LAO => some ⟨"lo", "lao", "lao", "Lao", "ພາສາລາວ"⟩
  | .LITHUANIAN => some ⟨"lt", "lit", "lit", "Lithuanian", "Lietuvių"⟩
  | .LATVIAN => some ⟨"lv", "lav", "lav", "Latvian", "Latviešu"⟩
  | .MALAGASY => some ⟨"mg", "mlg", "mlg", "Malagasy", "Malagasy"⟩
  | .MAORI => some ⟨"mi", "mri", "mao", "Maori", "Te Reo Māori"⟩
  | .MACEDONIAN => some ⟨"mk", "mkd", "mac", "Macedonian", "Македонски"⟩
  | .MALAYALAM => some ⟨"ml", "mal", "mal", "Malayalam", "മലയാളം"⟩
  | .MONGOLIAN => some ⟨"mn", "mon", "mon", "Mongolian", "Монгол"⟩
  | .MARATHI => some ⟨"mr", "mar", "mar", "Marathi", "मराठी"⟩
  | .MALAY => some ⟨"ms", "msa", "may", "Malay", "Bahasa Melayu"⟩
  | .MALTESE => some ⟨"mt", "mlt", "mlt", "Maltese", "Malti"⟩
  | .BURMESE => some ⟨"my", "mya", "bur", "Burmese", "မြန်မာစာ"⟩
  | .NEPALI => some ⟨"ne", "nep", "nep", "Nepali", "नेपाली"⟩
  | .DUTCH => some ⟨"nl", "nld", "dut", "Dutch", "Nederlands"⟩
  | .NORWEGIAN_NYNORSK => some ⟨"nn", "nno", "nno", "Norwegian Nynorsk", "Nynorsk"⟩
  | .NORWEGIAN => some ⟨"no", "nor", "nor", "Norwegian", "Norsk"⟩
  | .OCCITAN => some ⟨"oc", "oci", "oci", "Occitan", "Occitan"⟩
  | .PUNJABI => some ⟨"pa", "pan", "pan", "Punjabi", "ਪੰਜਾਬੀ"⟩
  | .POLISH => some ⟨"pl", "pol", "pol", "Polish", "Polski"⟩
  | .PASHTO => some ⟨"ps", "pus", "pus", "Pashto", "پښتو"⟩
  | .PORTUGUESE => some ⟨"pt", "por", "por", "Portuguese", "Português"⟩
  | .ROMANIAN => some ⟨"ro", "ron", "rum", "Romanian", "Română"⟩
  | .RUSSIAN => some ⟨"ru", "rus", "rus", "Russian", "Русский"⟩
  | .SANSKRIT => some ⟨"sa", "san", "san", "Sanskrit", "संस्कृतम्"⟩
  | .SINDHI => some ⟨"sd", "snd", "snd", "Sindhi", "سنڌي"⟩
  | .SINHALA => some ⟨"si", "sin", "sin", "Sinhala", "සිංහල"⟩
  | .SLOVAK => some ⟨"sk", "slk", "slo", "Slovak", "Slovenčina"⟩
  | .SLOVENE => some ⟨"sl", "slv", "slv", "Slovene", "Slovenščina"⟩
  | .SHONA => some ⟨"sn", "sna", "sna", "Shona", "ChiShona"⟩
  | .SOMALI => some ⟨"so", "som", "som", "Somali", "Soomaaliga"⟩
  | .ALBANIAN => some ⟨"sq", "sqi", "alb", "Albanian", "Shqip"⟩
  | .SERBIAN => some ⟨"sr", "srp", "srp", "Serbian", "Српски"⟩
  | .SUNDANESE => some ⟨"su", "sun", "sun", "Sundanese", "Basa Sunda"⟩
  | .SWEDISH => some ⟨"sv", "swe", "swe", "Swedish", "Svenska"⟩
  | .SWAHILI => some ⟨"sw", "swa", "swa", "Swahili", "Kiswahili"⟩
  | .TAMIL => some ⟨"ta", "tam", "tam", "Tamil", "தமிழ்"⟩
  | .TELUGU => some ⟨"te", "tel", "tel", "Telugu", "తెలుగు"⟩
  | .TAJIK => some ⟨"tg", "tgk", "tgk", "Tajik", "Тоҷикӣ"⟩
  | .THAI => some ⟨"th", "tha", "tha", "Thai", "ไทย"⟩
  | .TURKMEN => some ⟨"tk", "tuk", "tuk", "Turkmen", "Türkmençe"⟩
  | .TAGALOG => some ⟨"tl", "tgl", "tgl", "Tagalog", "Tagalog"⟩
  | .TURKISH => some ⟨"tr", "tur", "tur", "Turkish", "Türkçe"⟩
  | .TATAR => some ⟨"tt", "tat", "tat", "Tatar", "Татарча"⟩
  | .UKRAINIAN => some ⟨"uk", "ukr", "ukr", "Ukrainian", "Українська"⟩
  | .URDU => some ⟨"ur", "urd", "urd", "Urdu", "اردو"⟩
  | .UZBEK => some ⟨"uz", "uzb", "uzb", "Uzbek", "Oʻzbek"⟩
  | .VIETNAMESE => some ⟨"vi", "vie", "vie", "Vietnamese", "Tiếng Việt"⟩
  | .YIDDISH => some ⟨"yi", "yid", "yid", "Yiddish", "ייִדיש"⟩
  | .YORUBA => some ⟨"yo", "yor", "yor", "Yoruba", "Yorùbá"⟩
  | .CHINESE => some ⟨"zh", "zho", "chi", "Chinese", "中文"⟩
  | .CANTONESE => some ⟨"yue", "yue", "yue", "Cantonese", "粵語"⟩
  | .NONE => none

/-- The members in their order. -/
def all : List LanguageCode :=
  [ .AFAR, .AFRIKAANS, .AMHARIC, .ARABIC, .ASSAMESE, .AZERBAIJANI, .BASHKIR, .BELARUSIAN,
    .BULGARIAN, .BENGALI, .TIBETAN, .BRETON, .BOSNIAN, .CATALAN, .CZECH, .WELSH, .DANISH,
    .GERMAN, .GREEK, .ENGLISH, .SPANISH, .ESTONIAN, .BASQUE, .PERSIAN, .FINNISH, .FAROESE,
    .FRENCH, .GALICIAN, .GUJARATI, .HAUSA, .HAWAIIAN, .HEBREW, .HINDI, .CROATIAN,
    .HAITIAN_CREOLE, .HUNGARIAN, .ARMENIAN, .INDONESIAN, .ICELANDIC, .ITALIAN, .JAPANESE,
    .JAVANESE, .GEORGIAN, .KAZAKH, .KHMER, .KANNADA, .KOREAN, .LATIN, .LUXEMBOURGISH, .LINGALA,
    .LAO, .LITHUANIAN, .LATVIAN, .MALAGASY, .MAORI, .MACEDONIAN, .MALAYALAM, .MONGOLIAN,
    .MARATHI, .MALAY, .MALTESE, .BURMESE, .NEPALI, .DUTCH, .NORWEGIAN_NYNORSK, .NORWEGIAN,
    .OCCITAN, .PUNJABI, .POLISH, .PASHTO, .PORTUGUESE, .ROMANIAN, .RUSSIAN, .SANSKRIT, .SINDHI,
    .SINHALA, .SLOVAK, .SLOVENE, .SHONA, .SOMALI, .ALBANIAN, .SERBIAN, .SUNDANESE, .SWEDISH,
    .SWAHILI, .TAMIL, .TELUGU, .TAJIK, .THAI, .TURKMEN, .TAGALOG, .TURKISH, .TATAR, .UKRAINIAN,
    .URDU, .UZBEK, .VIETNAMESE, .YIDDISH, .YORUBA, .CHINESE, .CANTONESE, .NONE ]

theorem mem_all (l : LanguageCode) : l ∈ all := by
  cases l <;> decide

def toIso6391 (l : LanguageCode) : Option String := l.value.map LanguageNames.iso6391

def toIso6392T (l : LanguageCode) : Option String := l.value.map LanguageNames.iso6392T

def toIso6392B (l : LanguageCode) : Option String := l.value.map LanguageNames.iso6392B

/-- `to_name`. -/
def toName (inEnglish : Bool) (l : LanguageCode) : Option String :=
  l.value.map fun n => if inEnglish then n.nameEn else n.nameNative

/-- `__eq__` on members. -/
def eq (l m : LanguageCode) : Bool := l.toIso6391 == m.toIso6391

/-- `from_iso_639_2`. -/
def fromIso6392 (code : String) : LanguageCode :=
  (all.find? fun l => l.toIso6392T == some code || l.toIso6392B == some code).getD .NONE

variable (U : Unicodedata)

/-- One of the names of the language is `value`, which is in lower case. -/
def isNamed (value : String) (l : LanguageCode) : Bool :=
  l.value.any fun n => value == n.iso6391 || value == n.iso6392T || value == n.iso6392B ||
    value == U.lower n.nameEn || value == U.lower n.nameNative

/-- `from_string` of a string. -/
def fromString (value : String) : LanguageCode :=
  (all.find? (isNamed U (U.lower (strip U value)))).getD .NONE

/-- `is_valid_language`. -/
def isValidLanguage (language : String) : Bool := fromString U language ≠ .NONE

/-- The ISO codes of a language. -/
def codes (l : LanguageCode) : List String :=
  l.value.elim [] fun n => [n.iso6391, n.iso6392T, n.iso6392B]

/-! ### Reading a code -/

/-- What the interpreter knows of letters: the case of ASCII letters, that they are no white
space, and that no other character than the Kelvin sign has an ASCII letter as its lower
case. -/
structure KnowsAscii (U : Unicodedata) : Prop where
  lower_ascii : ∀ s : String, (∀ ch ∈ s.toList, ch.toNat < 128) → U.lower s = s.map Char.toLower
  lower_other : ∀ s : String, (∃ ch ∈ s.toList, 128 ≤ ch.toNat ∧ ch.toNat ≠ 0x212a) →
    ∃ ch ∈ (U.lower s).toList, 128 ≤ ch.toNat
  isspace_letter : ∀ ch : Char, ch.isAlpha = true → U.isspace ch = false

variable {U}

/-- A number for a text, which is compared faster. -/
def key (s : String) : ℕ := s.toList.foldl (fun n ch => n * 256 + ch.toNat) 0

set_option maxRecDepth 100000 in
/-- No code is that of two languages. -/
theorem find_key : ∀ l ∈ all, ∀ k ∈ l.codes.map key,
    all.find? (fun m => (m.codes.map key).any (Nat.beq k)) = some l := by
  decide +kernel

set_option maxRecDepth 100000 in
/-- The codes are short and in lower case. -/
theorem codes_letters : ∀ l ∈ all, ∀ v ∈ l.codes, v.toList.length ≤ 3 ∧
    v.toList.all (fun ch => 97 ≤ ch.toNat && ch.toNat ≤ 122) = true := by
  decide +kernel

set_option maxRecDepth 100000 in
/-- English names are longer than the codes, apart from one that is its own code. -/
theorem nameEn_letters : ∀ m ∈ all, ∀ n ∈ m.value,
    n.nameEn.toList.all (fun ch => ch.toNat < 128) = true ∧
      (3 < n.nameEn.toList.length ∨ m.codes.contains (n.nameEn.map Char.toLower) = true) := by
  decide +kernel

set_option maxRecDepth 100000 in
theorem nameNative_letters : ∀ m ∈ all, ∀ n ∈ m.value,
    n.nameNative.toList.any (fun ch => 128 ≤ ch.toNat && ch.toNat != 0x212a) = true ∨
      n.nameNative.toList.all (fun ch => ch.toNat < 128) = true ∧
        3 < n.nameNative.toList.length := by
  decide +kernel

theorem dropWhile_eq_self {α : Type} {p : α → Bool} {l : List α} (h : ∀ x ∈ l, p x = false) :
    l.dropWhile p = l := by
  cases l with
  | nil => rfl
  | cons x l => rw [List.dropWhile_cons_of_neg (by simp [h x List.mem_cons_self])]

theorem isLetter_of_code {l : LanguageCode} {v : String} (hv : v ∈ l.codes) {ch : Char}
    (hch : ch ∈ v.toList) : 97 ≤ ch.toNat ∧ ch.toNat ≤ 122 := by
  have h := List.all_eq_true.mp (codes_letters l (mem_all l) v hv).2 ch hch
  simpa using h

theorem toLower_of_lt {ch : Char} (h : 90 < ch.toNat) : ch.toLower = ch := by
  refine dif_neg fun hupper => ?_
  have hle : ch.toNat ≤ 90 := UInt32.le_iff_toNat_le.mp hupper.2
  omega

theorem isAlpha_of_letter {ch : Char} (h : 97 ≤ ch.toNat ∧ ch.toNat ≤ 122) :
    ch.isAlpha = true := by
  have hlower : (decide (97 ≤ ch.val) && decide (ch.val ≤ 122)) = true := by
    simpa [UInt32.le_iff_toNat_le] using h
  exact Bool.or_eq_true_iff.mpr (.inr hlower)

/-- `from_string` looks a code up as it is. -/
theorem lower_strip_code (hU : KnowsAscii U) {l : LanguageCode} {v : String} (hv : v ∈ l.codes) :
    U.lower (strip U v) = v := by
  have hspace : ∀ ch ∈ v.toList, U.isspace ch = false := fun ch hch =>
    hU.isspace_letter ch (isAlpha_of_letter (isLetter_of_code hv hch))
  have hstrip : strip U v = v := by
    rw [strip, dropWhile_eq_self hspace, dropWhile_eq_self, List.reverse_reverse,
      String.ofList_toList]
    exact fun ch hch => hspace ch (List.mem_reverse.mp hch)
  rw [hstrip, hU.lower_ascii v fun ch hch => by have := isLetter_of_code hv hch; omega]
  apply String.toList_injective
  rw [String.toList_map]
  calc v.toList.map Char.toLower = v.toList.map id :=
        List.map_congr_left fun ch hch => toLower_of_lt (by have := isLetter_of_code hv hch; omega)
    _ = v.toList := List.map_id _

/-- A code is not the name of a language, unless it is its code, too. -/
theorem isNamed_code (hU : KnowsAscii U) {l m : LanguageCode} {v : String} (hv : v ∈ l.codes) :
    isNamed U v m = m.codes.contains v := by
  have hshort := (codes_letters l (mem_all l) v hv).1
  cases hn : m.value with
  | none => simp [isNamed, codes, hn]
  | some n =>
    have hen : (v == U.lower n.nameEn) = true → m.codes.contains v = true := by
      intro heq
      obtain ⟨hascii, hlong⟩ := nameEn_letters m (mem_all m) n (Option.mem_def.mpr hn)
      rw [hU.lower_ascii n.nameEn fun ch hch => by
        simpa using List.all_eq_true.mp hascii ch hch] at heq
      obtain rfl := eq_of_beq heq
      refine hlong.resolve_left fun hlt => ?_
      rw [String.toList_map, List.length_map] at hshort
      omega
    have hnative : (v == U.lower n.nameNative) = true → m.codes.contains v = true := by
      intro heq
      rcases nameNative_letters m (mem_all m) n (Option.mem_def.mpr hn) with hother | hascii
      · obtain ⟨ch, hch, hbig⟩ := List.any_eq_true.mp hother
        obtain ⟨low, hlow, hge⟩ := hU.lower_other n.nameNative ⟨ch, hch, by simpa using hbig⟩
        rw [← eq_of_beq heq] at hlow
        have := isLetter_of_code hv hlow
        omega
      · rw [hU.lower_ascii n.nameNative fun ch hch => by
          simpa using List.all_eq_true.mp hascii.1 ch hch] at heq
        obtain rfl := eq_of_beq heq
        rw [String.toList_map, List.length_map] at hshort
        omega
    have hcodes : m.codes.contains v = (v == n.iso6391 || v == n.iso6392T || v == n.iso6392B) := by
      simp only [codes, hn, Option.elim_some, List.contains_cons, List.contains_nil,
        Bool.or_false, Bool.or_assoc]
    rw [hcodes] at hen hnative ⊢
    rw [isNamed, hn, Option.any_some]
    cases hc : (v == n.iso6391 || v == n.iso6392T || v == n.iso6392B) with
    | true => rfl
    | false =>
      rw [hc] at hen hnative
      rw [Bool.false_or, Bool.or_eq_false_iff]
      exact ⟨Bool.eq_false_iff.mpr fun h => Bool.false_ne_true (hen h),
        Bool.eq_false_iff.mpr fun h => Bool.false_ne_true (hnative h)⟩

theorem find_code {l : LanguageCode} {v : String} (hv : v ∈ l.codes) :
    all.find? (fun m => m.codes.contains v) = some l := by
  have hfind := find_key l (mem_all l) (key v) (List.mem_map_of_mem hv)
  obtain ⟨-, before, after, hall, hbefore⟩ := List.find?_eq_some_iff_append.mp hfind
  refine List.find?_eq_some_iff_append.mpr
    ⟨List.contains_iff_mem.mpr hv, before, after, hall, fun m hm => ?_⟩
  have hnot := hbefore m hm
  rw [Bool.not_eq_true'] at hnot ⊢
  refine Bool.eq_false_iff.mpr fun hin => ?_
  have hkey : key v ∈ m.codes.map key := List.mem_map_of_mem (List.contains_iff_mem.mp hin)
  exact Bool.false_ne_true (hnot.symm.trans
    (List.any_eq_true.mpr ⟨key v, hkey, Nat.beq_refl (key v)⟩))

/-- **Each ISO code of a language is read as that language.** -/
theorem fromString_code (hU : KnowsAscii U) {l : LanguageCode} {v : String} (hv : v ∈ l.codes) :
    fromString U v = l := by
  have hnamed : isNamed U v = fun m => m.codes.contains v :=
    funext fun m => isNamed_code hU hv
  rw [fromString, lower_strip_code hU hv, hnamed, find_code hv, Option.getD_some]

theorem knowsAscii_ascii : KnowsAscii Unicodedata.ascii where
  lower_ascii _ _ := rfl
  lower_other s := by
    rintro ⟨ch, hch, hbig, -⟩
    refine ⟨ch.toLower, ?_, ?_⟩
    · rw [show Unicodedata.ascii.lower s = s.map Char.toLower from rfl, String.toList_map]
      exact List.mem_map_of_mem hch
    · rw [toLower_of_lt (by omega)]
      exact hbig
  isspace_letter ch hch := by
    have hletter : 65 ≤ ch.toNat := by
      have halpha : (ch.isUpper || ch.isLower) = true := hch
      rcases Bool.or_eq_true_iff.mp halpha with hupper | hlower
      · have hle : 65 ≤ ch.val ∧ ch.val ≤ 90 := of_decide_eq_true hupper
        exact UInt32.le_iff_toNat_le.mp hle.1
      · have hle : (decide (97 ≤ ch.val) && decide (ch.val ≤ 122)) = true := hlower
        rw [Bool.and_eq_true, decide_eq_true_iff, UInt32.le_iff_toNat_le] at hle
        exact Nat.le_trans (by decide) hle.1
    simp only [Unicodedata.ascii, Bool.or_eq_false_iff, Bool.and_eq_false_iff,
      decide_eq_false_iff_not]
    omega

theorem fromString_code_german :
    fromString Unicodedata.ascii "ger" = .GERMAN ∧ fromString Unicodedata.ascii "de" = .GERMAN :=
  ⟨fromString_code knowsAscii_ascii (by decide), fromString_code knowsAscii_ascii (by decide)⟩

theorem value_eq_none {l : LanguageCode} (h : l.value = none) : l = .NONE := by
  cases l <;> first | rfl | cases h

/-- `__eq__` tells the members apart. -/
theorem eq_iff (l m : LanguageCode) : l.eq m = true ↔ l = m := by
  constructor
  · intro h
    have hiso : l.toIso6391 = m.toIso6391 := eq_of_beq h
    cases hl : l.value with
    | none =>
      have hm : m.value = none := by
        rw [toIso6391, toIso6391, hl] at hiso
        simpa using hiso.symm
      rw [value_eq_none hl, value_eq_none hm]
    | some n =>
      cases hm : m.value with
      | none => simp [toIso6391, hl, hm] at hiso
      | some n' =>
        have hcode : n.iso6391 = n'.iso6391 := by simpa [toIso6391, hl, hm] using hiso
        have hl' : n.iso6391 ∈ l.codes := by simp [codes, hl]
        have hm' : n.iso6391 ∈ m.codes := by simp [codes, hm, hcode]
        exact Option.some.inj ((find_code hl').symm.trans (find_code hm'))
  · rintro rfl
    exact beq_self_eq_true _

end LanguageCode

end Subgen
end MediaHub

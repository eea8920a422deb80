import MediaHub.Re
import MediaHub.Text
import MediaHub.Lib.Lines

/-!
# The playlist of live channels

`stacks/threadfin/generate_live_m3u.py` keeps the streams of the provider that are on its lists,
and writes an entry of two lines for each: what the channel is, with attributes in quotes, and
where it is.  The provider's texts are put between the quotes as they are.

## Main definitions

* `included`, `entry` — whether a stream is kept, and what is written of it.
* `generate` — the playlist, if enough streams are kept.

## Main results

* `clean_group` — the groups of the streams that are kept are harmless.
-/

namespace MediaHub
namespace Threadfin

open Re

/-! ### The lists -/

def HOST : String := "http://link4tv.cc:80"

def MIN_CHANNELS : ℕ := 100

def LOGO_OVERRIDES : List (String × String) :=
  [("CBS 2 WFMY GREENSBORO",
      "http://185.193.88.130:80/images/d90cbfe9c7b343dd2eafef8117272284.png"),
    ("CBS 6 WKMG ORLANDO",
      "https://upload.wikimedia.org/wikipedia/commons/d/d7/WKMG-TV_Logo.jpg"),
    ("NBC 2 WESH ORLANDO",
      "http://192.168.0.21:34400/images/5754cc8a4a5e72bb7cc79d3c0585559b.png")]

def EPG_ID_OVERRIDES : List (String × String) := [("NBC 2 WESH ORLANDO", "nbcwesh.us")]

def FULL_GROUPS : List String :=
  ["USA Latin UNIVISION", "USA Latin TELEMUNDO", "USA Latin GALAVISION", "USA Latin UNIMAS",
    "MX: Mexico Entertainment", "MX: Mexico General", "MX: Mexico News", "MX: Mexico Kids",
    "MX: Mexico Sports"]

def CURATED_GROUPS : List (String × List String) :=
  [("USA Sports",
      ["ESPN HD", "ESPN 2", "ESPN NEWS HD", "ESPN U HD", "ESPN SEC Network", "FOX SPORTS 1 HD",
        "FOX SPORTS 2 HD", "CBS Sports Network", "NFL Redzone", "Golf LHD", "Tennis Channel",
        "ACC Network", "Big Ten Network UHD", "PAC-12 Mountain", "UFC Fight Pass",
        "Fight Network", "MavTV Motorsports", "Olympic Channel", "Stadium 1", "FS1", "FS2",
        "NHL NETWORK HD", "CBS Sports Golazo", "FOX DEPORTES HD", "NFL NETWORK (Backup)"]),
    ("USA NBC Sports",
      ["NBC GOLF HD"]),
    ("USA News",
      ["CNN UHD", "CNN INTERNATIONAL", "CNN*", "Fox News Channel", "Fox Business UHD",
        "CNBC UHD", "C-SPAN", "C-SPAN 2", "C-SPAN 3", "AL JAZEERA HD", "NewsNation", "NEWSMAX",
        "Newsmax 2", "OAN (One America News Network)", "BBC World News", "Bloomberg", "HLN",
        "FOX Weather", "Scripps News"]),
    ("USA Entertainment",
      ["AMC", "A&E UHD", "Animal Planet East UHD", "BET East", "BET HER", "Bravo East",
        "Comedy Central FHD", "Discovery East", "Discovery Family", "E! Entertainment",
        "Food Network East UHD", "Freeform", "FX", "GSN (Game Show Network)", "Hallmark Channel",
        "Hallmark Movies & Mysteries UHD", "HGTV East UHD", "History East UHD", "IFC",
        "Lifetime East UHD", "MTV East UHD", "Nat Geo East", "Syfy East", "TBS East", "TLC East",
        "TNT East FHD", "truTV East", "USA Network East", "VH1 UHD", "BBC America HD",
        "The Weather Channel", "Oxygen East", "Paramount East UHD", "Science Channel"]),
    ("USA Movies Channels",
      ["HBO East", "HBO Comedy", "HBO Drama", "HBO Hits East", "HBO West", "Showtime Showcase",
        "Showtime Extreme", "Showtime 2", "Cinemax East", "Cinemax Hits East", "StarZ East",
        "Starz Cinema", "Starz Encore East", "Starz in Black East", "TCM",
        "Turner Classic Movies", "FXM", "FX East UHD", "EPIX", "EPIX2", "The Film Detective",
        "RetroPlex East", "Sundance", "MGM+ UHD", "LIFETIME MOVIES HD"]),
    ("USA Local - FOX",
      ["FOX 5 WNYW NEW YORK", "FOX 35 WOFL ORLANDO"]),
    ("USA Local - ABC",
      ["ABC 7 WABC NEW YORK", "ABC 9 WFTV ORLANDO"]),
    ("USA Local - CBS",
      ["CBS 2 WFMY GREENSBORO", "CBS 6 WKMG ORLANDO"]),
    ("USA Local - NBC",
      ["NBC 2 WESH ORLANDO"]),
    ("USA Family & Kids",
      ["Cartoon Network East", "Disney Channel East", "Disney Junior East", "Disney XD",
        "Nick Jr East", "Nickelodeon UHD", "Boomerang", "PBS Kids", "Teen Nick", "Nick Toon UHD"])]

def EXACT_NAMES : List (String × List String) :=
  [("USA NFL - Sunday Ticket", ["USA NFL Network"])]

/-! ### The provider -/

/-- A text in one line. -/
def Unbroken (t : Text) : Prop := '\n' ∉ t ∧ '\r' ∉ t

instance (t : Text) : Decidable (Unbroken t) := inferInstanceAs (Decidable (_ ∧ _))

/-- A field that is there: a text, or null. -/
inductive Field where
  | null
  | text (t : Text)
  deriving DecidableEq

/-- What an f-string makes of a field. -/
def Field.format : Field → Text
  | .null => "None".toList
  | .text t => t

/-- The value of a field. -/
def Field.value : Field → Option Text
  | .null => none
  | .text t => some t

/-- A stream of the provider; its ids are as `str` writes them, and a field may be missing. -/
structure ProviderStream where
  name : Option Text
  streamId : Option Text
  streamIcon : Option Field
  epgChannelId : Option Field
  categoryId : Option Text
  streamId_ok : ∀ t ∈ streamId, Unbroken t
  deriving DecidableEq

/-- The account, and what the provider says of the categories. -/
structure Provider where
  /-- The character database, for `str.lower`. -/
  characters : Unicodedata
  username : Text
  password : Text
  /-- The ids and names of the categories, in order. -/
  categories : List (Text × Text)
  username_ok : Unbroken username
  password_ok : Unbroken password

/-! ### The source -/

section

variable (P : Provider) (s : ProviderStream)

/-- `t.lower()`. -/
def lower (t : Text) : Text := (P.characters.lower (String.ofList t)).toList

/-- `s.get("name", "")`. -/
def name : Text := s.name.getD []

/-- Whether the key of an override is in the name. -/
def overrides (o : String × String) : Bool := lower P o.1.toList <:+: lower P (name s)

def logo : Field :=
  match LOGO_OVERRIDES.find? (overrides P s) with
  | some o => .text o.2.toList
  | none => s.streamIcon.getD (.text [])

def epgId : Field :=
  match s.epgChannelId.getD (.text []) with
  | .text (c :: t) => .text (c :: t)
  -- `if not epg_id:`
  | epg =>
    match EPG_ID_OVERRIDES.find? (overrides P s) with
    | some o => .text o.2.toList
    | none => epg

/-- `cat_map.get(cat_id, "Uncategorized")`: the last of several categories with an id counts. -/
def group : Text :=
  ((P.categories.reverse.find? (·.1 = s.categoryId.getD [])).map (·.2)).getD
    "Uncategorized".toList

/-- `keyword.lower().rstrip("*").strip()`. -/
def plain (keyword : Text) : Text := trim isspace ((lower P keyword).rdropWhile (· = '*'))

def matchesCurated (name : Text) (keywords : List String) : Bool :=
  keywords.any fun kw => plain P kw.toList <:+: plain P name

/-- `include`. -/
def included : Bool :=
  let group := String.ofList (group P s)
  if group ∈ FULL_GROUPS then true
  else
    match CURATED_GROUPS.lookup group with
    | some keywords => matchesCurated P (name s) keywords
    | none => ((EXACT_NAMES.lookup group).getD []).contains (String.ofList (name s))

def url : Text :=
  HOST.toList ++ '/' :: (P.username ++ '/' :: (P.password ++ '/' ::
    (s.streamId.getD [] ++ ".ts".toList)))

/-- The line of attributes, without its end. -/
def extinf (epg name logo group : Text) : Text :=
  "#EXTINF:-1 tvg-id=\"".toList ++ (epg ++ ("\" tvg-name=\"".toList ++ (name ++
    ("\" tvg-logo=\"".toList ++ (logo ++ ("\" group-title=\"".toList ++ (group ++
      ("\",".toList ++ name))))))))

/-- What is written of a stream. -/
def entry : Text :=
  extinf (epgId P s).format (name s) (logo P s).format (group P s) ++ '\n' :: (url P s ++ ['\n'])

end

/-- The streams that are kept. -/
def kept (P : Provider) (streams : List ProviderStream) : List ProviderStream :=
  streams.filter (included P)

/-- The file that is published, if there is one. -/
def generate (P : Provider) (streams : List ProviderStream) : Option Text :=
  if (kept P streams).length < MIN_CHANNELS then none
  else some ("#EXTM3U".toList ++ '\n' :: (kept P streams).flatMap (entry P))

/-! ### What is kept -/

/-- A group that does not get in the way of reading it. -/
structure CleanGroup (g : Text) : Prop where
  ne_nil : g ≠ []
  no_comma : g.head? ≠ some ','
  no_quote : '"' ∉ g
  unbroken : Unbroken g

/-- The groups of the lists. -/
def GROUPS : List String :=
  FULL_GROUPS ++ CURATED_GROUPS.map (·.1) ++ EXACT_NAMES.map (·.1)

theorem cleanGroup_of_mem : ∀ g ∈ GROUPS, CleanGroup g.toList := by
  have hall : ∀ g ∈ GROUPS, g.toList ≠ [] ∧ g.toList.head? ≠ some ',' ∧ '"' ∉ g.toList ∧
      Unbroken g.toList := by decide
  intro g hg
  obtain ⟨hne, hcomma, hquote, hunbroken⟩ := hall g hg
  exact ⟨hne, hcomma, hquote, hunbroken⟩

theorem mem_of_lookup {l : List (String × List String)} {k : String} {v : List String}
    (h : l.lookup k = some v) : k ∈ l.map (·.1) := by
  induction l with
  | nil => cases h
  | cons e l ih =>
    rw [List.lookup_cons] at h
    split at h
    · next hk => exact List.mem_cons.mpr (Or.inl (by simpa using hk))
    · exact List.mem_cons_of_mem _ (ih h)

/-- **The group of a stream that is kept is one of the lists, whatever the categories are
called.** -/
theorem clean_group {P : Provider} {s : ProviderStream} (h : included P s = true) :
    CleanGroup (group P s) := by
  have hmem : String.ofList (group P s) ∈ GROUPS := by
    unfold GROUPS
    simp only [included] at h
    split at h
    · next hfull => exact List.mem_append_left _ (List.mem_append_left _ hfull)
    · split at h
      · next keywords hlookup =>
        exact List.mem_append_left _ (List.mem_append_right _ (mem_of_lookup hlookup))
      · cases hexact : EXACT_NAMES.lookup (String.ofList (group P s)) with
        | none => simp [hexact] at h
        | some names => exact List.mem_append_right _ (mem_of_lookup hexact)
  have hclean := cleanGroup_of_mem _ hmem
  rwa [String.toList_ofList] at hclean

/-- The place of a stream is in one line, and begins and ends with what is not blank. -/
theorem url_eq (P : Provider) (s : ProviderStream) :
    ∃ t, url P s = 'h' :: (t ++ ['s']) := by
  refine ⟨"ttp://link4tv.cc:80".toList ++ '/' :: (P.username ++ '/' :: (P.password ++ '/' ::
    (s.streamId.getD [] ++ ".t".toList))), ?_⟩
  have hhost : HOST.toList = 'h' :: "ttp://link4tv.cc:80".toList := by decide
  have hts : ".ts".toList = ".t".toList ++ ['s'] := by decide
  rw [url, hhost, hts]
  simp

theorem unbroken_url (P : Provider) (s : ProviderStream) : Unbroken (url P s) := by
  have hid : Unbroken (s.streamId.getD []) := by
    cases hs : s.streamId with
    | none => exact ⟨List.not_mem_nil, List.not_mem_nil⟩
    | some t => exact s.streamId_ok t hs
  have hhost : Unbroken HOST.toList := by decide
  have hts : Unbroken ".ts".toList := by decide
  have huser := P.username_ok
  have hpass := P.password_ok
  unfold Unbroken at hid hhost hts huser hpass ⊢
  unfold url
  constructor
  · simp only [List.mem_append, List.mem_cons, not_or]
    exact ⟨hhost.1, by decide, huser.1, by decide, hpass.1, by decide, hid.1, hts.1⟩
  · simp only [List.mem_append, List.mem_cons, not_or]
    exact ⟨hhost.2, by decide, huser.2, by decide, hpass.2, by decide, hid.2, hts.2⟩

end Threadfin
end MediaHub

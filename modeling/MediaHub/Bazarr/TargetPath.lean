import MediaHub.Bazarr.TranslateMissing

/-!
# The file that is waited for

`build_es_target_path` of `stacks/arr-stack/scripts/bazarr-translate-missing-es.py` guesses
where Bazarr writes the Spanish subtitles: it cuts the path of the English ones at the last
`.en`, wherever that is in the path, and exchanges `/data` at its head, whatever comes behind
it.

## Main definitions

* `EnglishSub` — an English subtitle by its directory, its stem and its label.
* `EnglishSub.target` — the file beside it.
* `EnglishSub.OneLabel`, `EnglishSub.MountClear` — what the two guesses rest on.

## Main results

* `buildEsTargetPath_eq_target_iff` — **the file that is waited for is the one beside the
  English subtitles exactly if both guesses are right.**
* `prepare_eq_some` — every request waits for the file of its own path and flags.
-/

namespace MediaHub
namespace Bazarr
namespace TranslateMissing

/-! ### Texts within texts -/

/-- A text that a character is not in does not reach across it. -/
theorem prefix_append_cons_iff {p s r : List Char} {c : Char} (hc : c ∉ p) :
    p <+: s ++ c :: r ↔ p <+: s := by
  induction s generalizing p with
  | nil =>
    cases p with
    | nil => simp
    | cons d p =>
      have hd : d ≠ c := fun h => hc (h ▸ List.mem_cons_self)
      simp [List.cons_prefix_cons, hd]
  | cons d s ih =>
    cases p with
    | nil => simp
    | cons e p =>
      rw [List.cons_append, List.cons_prefix_cons, List.cons_prefix_cons,
        ih fun h => hc (List.mem_cons_of_mem _ h)]

theorem beforeLast_eq_none {sep s : List Char} (hsep : sep ≠ []) :
    beforeLast sep s = none ↔ ¬ sep <:+: s := by
  induction s with
  | nil => simp [beforeLast, hsep]
  | cons c s ih =>
    rw [beforeLast, List.infix_cons_iff]
    cases hs : beforeLast sep s with
    | some head =>
      have : sep <:+: s := by
        by_contra h
        rw [ih.mpr h] at hs
        cases hs
      simp [this]
    | none =>
      have : ¬ sep <:+: s := ih.mp hs
      by_cases hp : sep <+: c :: s <;> simp [hp, this]

/-- What is before the last `sep` is followed by one. -/
theorem eq_append_of_beforeLast {sep s head : List Char} (h : beforeLast sep s = some head) :
    ∃ t, s = head ++ (sep ++ t) := by
  induction s generalizing head with
  | nil => cases h
  | cons c s ih =>
    rw [beforeLast] at h
    cases hs : beforeLast sep s with
    | some head' =>
      rw [hs] at h
      obtain rfl : c :: head' = head := Option.some.inj h
      obtain ⟨t, rfl⟩ := ih hs
      exact ⟨t, rfl⟩
    | none =>
      rw [hs] at h
      by_cases hp : sep.isPrefixOf (c :: s) = true
      · obtain rfl : [] = head := by simpa [hp] using h
        obtain ⟨t, ht⟩ := List.isPrefixOf_iff_prefix.mp hp
        exact ⟨t, ht.symm⟩
      · simp [hp] at h

/-- If `sep` does not come again, the text before it is found. -/
theorem beforeLast_append {sep t : List Char} (hsep : sep ≠ []) (h : ¬ sep <:+: (sep ++ t).tail)
    (s : List Char) : beforeLast sep (s ++ (sep ++ t)) = some s := by
  induction s with
  | nil =>
    obtain ⟨c, sep', hcons⟩ := List.exists_cons_of_ne_nil hsep
    have hpre : sep.isPrefixOf (sep ++ t) = true :=
      List.isPrefixOf_iff_prefix.mpr (List.prefix_append sep t)
    rw [hcons, List.cons_append] at h hpre ⊢
    have hnone : beforeLast (c :: sep') (sep' ++ t) = none := (beforeLast_eq_none (by simp)).mpr h
    rw [List.nil_append, beforeLast, hnone]
    simp [hpre]
  | cons c s ih => rw [List.cons_append, beforeLast, ih]

/-- No `.en` begins in the text and ends in the extension. -/
theorem en_within_srt {s : List Char} :
    ".en".toList <:+: s ++ ".srt".toList ↔ ".en".toList <:+: s := by
  refine ⟨fun h => ?_, fun h => h.trans (List.prefix_append _ _).isInfix⟩
  rcases List.infix_append_iff.mp h with h | h | ⟨t, u, htu, ht, hu⟩
  · exact h
  · exact absurd h (by decide)
  · cases t with
    | nil =>
      obtain rfl : ".en".toList = u := htu
      exact absurd hu (by decide)
    | cons c t =>
      have hen : "en".toList = t ++ u := (List.cons.inj htu).2
      cases u with
      | nil =>
        rw [htu, List.append_nil]
        exact ht.isInfix
      | cons d u =>
        -- the extension begins with a dot, and there is none in `en`
        have hd : d ∈ "en".toList := hen ▸ List.mem_append_right t List.mem_cons_self
        obtain rfl : d = '.' := (List.cons_prefix_cons.mp hu).1
        exact absurd hd (by decide)

/-- Behind a `.en` there is another exactly if there is one in what comes behind `en`. -/
theorem en_within_tail {s : List Char} :
    ".en".toList <:+: (".en".toList ++ s).tail ↔ ".en".toList <:+: s := by
  show ".en".toList <:+: 'e' :: 'n' :: s ↔ _
  rw [List.infix_cons_iff, List.infix_cons_iff]
  simp [List.cons_prefix_cons]

/-! ### The files -/

/-- What is between the stem and the extension. -/
inductive SubLabel where
  /-- No label. -/
  | bare
  /-- `.en`, or `.en.` with flags. -/
  | en (flags : Option (List Char))

def SubLabel.text : SubLabel → List Char
  | .bare => []
  | .en none => ".en".toList
  | .en (some flags) => ".en".toList ++ '.' :: flags

/-- An English subtitle. -/
structure EnglishSub where
  /-- The directory, without a slash at its end. -/
  dir : List Char
  /-- The stem of the video file. -/
  stem : List Char
  label : SubLabel
  stem_ok : '/' ∉ stem
  flags_ok : ∀ flags, label = .en (some flags) → ¬ ".en".toList <:+: flags

namespace EnglishSub

variable (p : EnglishSub)

/-- The path without label and extension. -/
def trunk : List Char := p.dir ++ '/' :: p.stem

/-- The path as Bazarr reports it. -/
def path : String := String.ofList (p.trunk ++ (p.label.text ++ ".srt".toList))

/-- The first component of a directory is `/data`. -/
def UnderMount (dir : List Char) : Prop :=
  dir = CONTAINER_MEDIA_PREFIX ∨ CONTAINER_MEDIA_PREFIX ++ ['/'] <+: dir

instance (dir : List Char) : Decidable (UnderMount dir) := inferInstanceAs (Decidable (_ ∨ _))

/-- The directory on the host. -/
def hostDir (dir : List Char) : List Char :=
  if UnderMount dir then HOST_MEDIA_PREFIX ++ dir.drop CONTAINER_MEDIA_PREFIX.length else dir

/-- The Spanish subtitle beside the English one, on the host. -/
def target (forced hi : Bool) : String :=
  String.ofList (hostDir p.dir ++ '/' :: p.stem ++ (".es".toList ++
    (if forced then ".forced".toList else []) ++ (if hi then ".hi".toList else []) ++
    ".srt".toList))

/-- The label is the last `.en` of the path, and where there is none, there is no `.en`. -/
def OneLabel : Prop :=
  match p.label with
  | .bare => ¬ ".en".toList <:+: p.dir ++ '/' :: p.stem
  | .en flags => ∀ f ∈ flags, ¬ "en".toList <+: f

/-- A path that begins with the letters of the mount is under it. -/
def MountClear : Prop := CONTAINER_MEDIA_PREFIX <+: p.dir ++ '/' :: p.stem → UnderMount p.dir

end EnglishSub

/-! ### The two guesses -/

/-- What the path is cut to. -/
def baseOf (path : List Char) : List Char :=
  ((beforeLast ".en".toList path).or (beforeLast ".".toList path)).getD path

/-- The mount at the head exchanged. -/
def mapMount (target : List Char) : List Char :=
  if CONTAINER_MEDIA_PREFIX.isPrefixOf target then
    HOST_MEDIA_PREFIX ++ target.drop CONTAINER_MEDIA_PREFIX.length
  else target

/-- What is put behind the base. -/
def spanish (forced hi : Bool) : List Char :=
  ".es".toList ++ (if forced then ".forced".toList else []) ++ (if hi then ".hi".toList else []) ++
    ".srt".toList

theorem buildEsTargetPath_eq (path : String) (forced hi : Bool) :
    buildEsTargetPath path forced hi
      = String.ofList (mapMount (baseOf path.toList ++ spanish forced hi)) := by
  have hsuffix : (".es" ++ (if forced then ".forced" else "") ++ (if hi then ".hi" else "")).toList
      ++ ".srt".toList = spanish forced hi := by
    cases forced <;> cases hi <;> decide
  rw [buildEsTargetPath, List.append_assoc, hsuffix]
  rfl

/-- Where no other `.en` comes behind it, the path is cut at the label. -/
theorem baseOf_label {t : List Char} (h : ¬ ".en".toList <:+: t) (s : List Char) :
    baseOf (s ++ (".en".toList ++ (t ++ ".srt".toList))) = s := by
  have htail : ¬ ".en".toList <:+: (".en".toList ++ (t ++ ".srt".toList)).tail := by
    rw [en_within_tail, en_within_srt]
    exact h
  rw [baseOf, beforeLast_append (by decide) htail]
  rfl

/-- Where there is no `.en`, the extension is cut off. -/
theorem baseOf_bare {s : List Char} (h : ¬ ".en".toList <:+: s) :
    baseOf (s ++ ".srt".toList) = s := by
  have hnone : beforeLast ".en".toList (s ++ ".srt".toList) = none := by
    rw [beforeLast_eq_none (by decide), en_within_srt]
    exact h
  have hdot : beforeLast ".".toList (s ++ ".srt".toList) = some s :=
    beforeLast_append (t := "srt".toList) (by decide) (by decide) s
  rw [baseOf, hnone, hdot]
  rfl

/-- Where there is one before the extension, the path is cut there. -/
theorem exists_of_baseOf {s : List Char} (h : ".en".toList <:+: s) :
    ∃ r, s = baseOf (s ++ ".srt".toList) ++ '.' :: r := by
  cases hlast : beforeLast ".en".toList (s ++ ".srt".toList) with
  | none => exact absurd (en_within_srt.mpr h) ((beforeLast_eq_none (by decide)).mp hlast)
  | some base =>
    have hbase : baseOf (s ++ ".srt".toList) = base := by
      rw [baseOf, hlast]
      rfl
    obtain ⟨t, ht⟩ := eq_append_of_beforeLast hlast
    rw [hbase]
    rcases List.append_eq_append_iff.mp ht with ⟨u, -, hu⟩ | ⟨u, hs, hu⟩
    · -- the extension has no `.en`
      have : ".en".toList <:+: ".srt".toList := ⟨u, t, by rw [hu, List.append_assoc]⟩
      exact absurd this (by decide)
    · cases u with
      | nil => cases hu
      | cons c u =>
        obtain rfl : '.' = c := (List.cons.inj hu).1
        exact ⟨u, hs⟩

theorem mapMount_append (s : List Char) :
    mapMount (CONTAINER_MEDIA_PREFIX ++ s) = HOST_MEDIA_PREFIX ++ s := by
  rw [mapMount, if_pos (List.isPrefixOf_iff_prefix.mpr (List.prefix_append _ _)), List.drop_left]

theorem mapMount_eq_self {s : List Char} (h : ¬ CONTAINER_MEDIA_PREFIX <+: s) :
    mapMount s = s := by
  rw [mapMount, if_neg (mt List.isPrefixOf_iff_prefix.mp h)]

theorem hostDir_of_underMount {dir : List Char} (h : EnglishSub.UnderMount dir) :
    ∃ rest, dir = CONTAINER_MEDIA_PREFIX ++ rest ∧
      EnglishSub.hostDir dir = HOST_MEDIA_PREFIX ++ rest := by
  have hpre : CONTAINER_MEDIA_PREFIX <+: dir := by
    rcases h with rfl | h
    · exact List.prefix_rfl
    · exact (List.prefix_append _ _).trans h
  obtain ⟨rest, rfl⟩ := hpre
  exact ⟨rest, rfl, by rw [EnglishSub.hostDir, if_pos h, List.drop_left]⟩

/-- The two prefixes are different behind the slash. -/
theorem host_append_ne (s t : List Char) :
    HOST_MEDIA_PREFIX ++ s ≠ CONTAINER_MEDIA_PREFIX ++ t := by
  intro h
  have htake := congrArg (List.take 2) h
  rw [List.take_append_of_le_length (by decide), List.take_append_of_le_length (by decide)] at htake
  exact absurd htake (by decide)

/-- The mount is at the head of what is built exactly if it is at the head of the trunk. -/
theorem prefix_built_iff (p : EnglishSub) {base : List Char}
    (hbase : base = p.trunk ∨ (∃ r, p.trunk = base ++ '.' :: r) ∨
      ∃ r, base = p.trunk ++ '.' :: r)
    (forced hi : Bool) :
    CONTAINER_MEDIA_PREFIX <+: base ++ spanish forced hi ↔ CONTAINER_MEDIA_PREFIX <+: p.trunk := by
  have hdot : '.' ∉ CONTAINER_MEDIA_PREFIX := by decide
  obtain ⟨es, hes⟩ : ∃ es, spanish forced hi = '.' :: es := ⟨_, rfl⟩
  rw [hes, prefix_append_cons_iff hdot]
  rcases hbase with rfl | ⟨r, hr⟩ | ⟨r, rfl⟩
  · exact Iff.rfl
  · rw [hr, prefix_append_cons_iff hdot]
  · rw [prefix_append_cons_iff hdot]

/-- Where the mount is exchanged on both sides, what is behind it stays. -/
theorem mapMount_eq_iff_of_underMount {p : EnglishSub} (hU : EnglishSub.UnderMount p.dir)
    {base x : List Char} {forced hi : Bool}
    (hx : CONTAINER_MEDIA_PREFIX ++ x = base ++ spanish forced hi) :
    mapMount (base ++ spanish forced hi)
      = EnglishSub.hostDir p.dir ++ '/' :: p.stem ++ spanish forced hi ↔ base = p.trunk := by
  obtain ⟨rest, hdir, hhost⟩ := hostDir_of_underMount hU
  have htrunk : p.trunk ++ spanish forced hi
      = CONTAINER_MEDIA_PREFIX ++ (rest ++ ('/' :: p.stem ++ spanish forced hi)) := by
    simp [EnglishSub.trunk, hdir]
  rw [← hx, mapMount_append, hhost, List.append_assoc, List.append_assoc,
    List.append_cancel_left_eq]
  constructor
  · intro h
    rw [h, ← htrunk] at hx
    exact (List.append_cancel_right hx).symm
  · rintro rfl
    rw [htrunk] at hx
    exact List.append_cancel_left hx

/-- A base that is cut elsewhere than at the end of the trunk never gives the right file. -/
theorem mapMount_eq_iff (p : EnglishSub) {base : List Char}
    (hbase : base = p.trunk ∨ (∃ r, p.trunk = base ++ '.' :: r) ∨
      ∃ r, base = p.trunk ++ '.' :: r)
    (forced hi : Bool) :
    mapMount (base ++ spanish forced hi)
        = EnglishSub.hostDir p.dir ++ '/' :: p.stem ++ spanish forced hi
      ↔ base = p.trunk ∧ p.MountClear := by
  have hpre := prefix_built_iff p hbase forced hi
  by_cases hC : CONTAINER_MEDIA_PREFIX <+: p.trunk
  · obtain ⟨x, hx⟩ := hpre.mpr hC
    by_cases hU : EnglishSub.UnderMount p.dir
    · have hclear : p.MountClear := fun _ => hU
      rw [mapMount_eq_iff_of_underMount hU hx, and_iff_left hclear]
    · -- only the path that is built is moved to the host
      have hnot : ¬ p.MountClear := fun h => hU (h hC)
      obtain ⟨y, hy⟩ := hC
      have hdir : EnglishSub.hostDir p.dir = p.dir := if_neg hU
      have htarget : EnglishSub.hostDir p.dir ++ '/' :: p.stem ++ spanish forced hi
          = CONTAINER_MEDIA_PREFIX ++ (y ++ spanish forced hi) := by
        rw [hdir, ← List.append_assoc CONTAINER_MEDIA_PREFIX, hy, EnglishSub.trunk]
      rw [← hx, mapMount_append, htarget]
      exact iff_of_false (host_append_ne _ _) (fun h => hnot h.2)
  · have hU : ¬ EnglishSub.UnderMount p.dir := by
      intro h
      obtain ⟨rest, hdir, -⟩ := hostDir_of_underMount h
      exact hC ⟨rest ++ '/' :: p.stem, by rw [EnglishSub.trunk, hdir, List.append_assoc]⟩
    have hdir : EnglishSub.hostDir p.dir = p.dir := if_neg hU
    have hclear : p.MountClear := fun h => absurd h hC
    rw [mapMount_eq_self (mt hpre.mp hC), hdir]
    exact ⟨fun h => ⟨List.append_cancel_right h, hclear⟩, fun h => by rw [h.1]; rfl⟩

/-! ### When the guesses are right -/

/-- What a path is cut to, label by label. -/
theorem baseOf_path (p : EnglishSub) :
    (p.OneLabel ∧ baseOf p.path.toList = p.trunk) ∨
      (¬ p.OneLabel ∧ ((∃ r, p.trunk = baseOf p.path.toList ++ '.' :: r) ∨
        ∃ r, baseOf p.path.toList = p.trunk ++ '.' :: r)) := by
  have hpath : p.path.toList = p.trunk ++ (p.label.text ++ ".srt".toList) := String.toList_ofList
  rw [hpath]
  unfold EnglishSub.OneLabel
  cases hlabel : p.label with
  | bare =>
    rw [SubLabel.text, List.nil_append]
    by_cases h : ".en".toList <:+: p.trunk
    · exact Or.inr ⟨not_not.mpr h, Or.inl (exists_of_baseOf h)⟩
    · exact Or.inl ⟨h, baseOf_bare h⟩
  | en flags =>
    cases flags with
    | none => exact Or.inl ⟨by simp, @baseOf_label [] (by decide) _⟩
    | some f =>
      have hf : ¬ ".en".toList <:+: f := p.flags_ok f hlabel
      rw [SubLabel.text, List.append_assoc, List.cons_append]
      by_cases h : "en".toList <+: f
      · -- the flags begin with another label
        obtain ⟨t, rfl⟩ := h
        have ht : ¬ ".en".toList <:+: t := fun h => hf (h.trans (List.suffix_append _ _).isInfix)
        refine Or.inr ⟨by simp, Or.inr ⟨"en".toList, ?_⟩⟩
        have hbase := baseOf_label ht (p.trunk ++ ".en".toList)
        rw [List.append_assoc] at hbase
        exact hbase
      · have hdot : ¬ ".en".toList <:+: '.' :: f := by
          rw [List.infix_cons_iff]
          rintro (h' | h')
          · exact h (List.cons_prefix_cons.mp h').2
          · exact hf h'
        refine Or.inl ⟨by simpa using h, ?_⟩
        exact baseOf_label hdot p.trunk

/-- **The file that is waited for is the one beside the English subtitles exactly if there is no
other `.en` to cut at, and nothing but the mount begins like it.** -/
theorem buildEsTargetPath_eq_target_iff (p : EnglishSub) (forced hi : Bool) :
    buildEsTargetPath p.path forced hi = p.target forced hi ↔ p.OneLabel ∧ p.MountClear := by
  have htarget : p.target forced hi
      = String.ofList (EnglishSub.hostDir p.dir ++ '/' :: p.stem ++ spanish forced hi) := rfl
  rw [buildEsTargetPath_eq, htarget, String.ofList_inj]
  rcases baseOf_path p with ⟨hone, hbase⟩ | ⟨hone, hbase⟩
  · rw [mapMount_eq_iff p (Or.inl hbase)]
    exact ⟨fun h => ⟨hone, h.2⟩, fun h => ⟨hbase, h.2⟩⟩
  · rw [mapMount_eq_iff p (Or.inr hbase)]
    refine iff_of_false (fun h => ?_) (fun h => hone h.1)
    rcases hbase with ⟨r, hr⟩ | ⟨r, hr⟩
    · have := congrArg List.length hr
      simp [h.1] at this
    · have := congrArg List.length hr
      simp [h.1] at this

/-- The directory of a show whose name begins with the letters of the label. -/
def encore : EnglishSub where
  dir := "/data/tv/Show.encore".toList
  stem := "Ep".toList
  label := .bare
  stem_ok := by decide
  flags_ok := by simp

/-- The file that is waited for is in another directory, under another name. -/
theorem buildEsTargetPath_encore_ne :
    ¬ ∀ (p : EnglishSub) (forced hi : Bool),
      buildEsTargetPath p.path forced hi = p.target forced hi := by
  intro h
  exact absurd (h encore false false) (by decide)

/-! ### The requests -/

/-- A request waits for the file of its own path and flags. -/
theorem prepare_eq_some {kind : Kind} {item : Item} {detail : Option Detail} {r : Request}
    (h : prepare kind item detail = some r) :
    ∃ forced hi, r.targetPath = buildEsTargetPath r.patchData.path forced hi ∧
      r.patchData.forced = flagText forced ∧ r.patchData.hi = flagText hi := by
  rw [prepare, Option.map_eq_some_iff] at h
  obtain ⟨enPath, -, rfl⟩ := h
  exact ⟨_, _, rfl, rfl, rfl⟩

end TranslateMissing
end Bazarr
end MediaHub

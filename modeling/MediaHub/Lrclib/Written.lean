import MediaHub.Lrclib.Run
import Mathlib.Logic.Relation

/-!
# What happens to the files

Runs of `scripts/lrclib-embed-lyrics.py`, each of which may be stopped at any moment: what
is next to the tracks, and what is in them.

## Main definitions

* `Leaves` — what a run leaves, when it ends or is stopped.
* `Kept` — lyrics are replaced by better ones only.

## Main results

* `lyricsKept` — **lyrics next to a track are never lost or written in part.**
* `audioKept` — **the audio of a track is never lost, and is as before at the end.**
-/

namespace MediaHub
namespace Lrclib

open FileOp
open Subgen (splitext)

variable {ρ κ : Type*} [DecidableEq ρ] (U : Characters) (M : Contents κ) (o : Options ρ)

/-- LRCLIB answers with the text. -/
def Offers (v : Visit ρ κ) (text : String) : Prop :=
  ∃ e : Entry, (get v.exact = some (some e) ∨
      ∃ found, get v.search = some (some found) ∧ e ∈ found) ∧
    (e.syncedLyrics = some text ∨ e.plainLyrics = some text)

/-- What a run is about to do to the files: to those of a track, where LRCLIB has only such
texts, or in `finish`. -/
inductive Next (T : Set String) (s : RunState ρ κ) : List (FileOp (FilePath ρ) κ) → Prop
  | track (v : Visit ρ κ) (h : ∀ text, Offers v text → text ∈ T) :
      Next T s (writes U M o s.files s.misses v)
  | finish (saved : κ) : Next T s (finishOps o saved)

/-- The files after a run that met only such texts, or when it was stopped. -/
def Leaves (T : Set String) (files files' : Files (FilePath ρ) κ) : Prop :=
  ∃ (misses : Misses ρ) (visits : List (Visit ρ κ)) (s : RunState ρ κ)
      (ops : List (FileOp (FilePath ρ) κ)),
    (∀ w ∈ visits, ∀ text, Offers w text → text ∈ T) ∧
      runSteps (step U M o) (.init files misses) visits = some s ∧
      Next U M o T s ops ∧ CrashIn s.files ops files'

/-! ### Names -/

/-- The file is lyrics next to a track, or will be. -/
def IsLyrics (q : FilePath ρ) : Prop := ∃ p kind, q = sidecar p kind ∨ q = tmp (sidecar p kind)

variable {U M o} {T : Set String} {S : Set (FilePath ρ)} {files fs fs' fs'' : Files (FilePath ρ) κ}
  {p q : FilePath ρ} {kind kind' : LyricsKind} {misses : Misses ρ} {v : Visit ρ κ}

omit [DecidableEq ρ] in
/-- The last letter of a name. -/
theorem getLast?_sidecar :
    (sidecar p kind).2.getLast? = some (if kind = .synced then 'c' else 't') := by
  cases kind <;> simp [sidecar, LyricsKind.ext]

omit [DecidableEq ρ] in
theorem getLast?_tmp : (tmp p).2.getLast? = some 'p' := by simp [tmp]

omit [DecidableEq ρ] in
theorem sidecar_ne_tmp : sidecar p kind ≠ tmp q := by
  intro h
  have hlast := congrArg (fun r => r.2.getLast?) h
  simp only [getLast?_sidecar, getLast?_tmp] at hlast
  cases kind <;> exact absurd hlast (by decide)

omit [DecidableEq ρ] in
theorem synced_ne_plain : sidecar p .synced ≠ sidecar q .plain := by
  intro h
  have hlast := congrArg (fun r => r.2.getLast?) h
  simp only [getLast?_sidecar] at hlast
  exact absurd hlast (by decide)

omit [DecidableEq ρ] in
/-- Tracks that share a file of lyrics share both. -/
theorem sidecar_congr (h : sidecar p kind = sidecar q kind) :
    sidecar p kind' = sidecar q kind' := by
  obtain ⟨hdir, hname⟩ := Prod.ext_iff.mp h
  exact Prod.ext hdir (congrArg (· ++ kind'.ext) (List.append_cancel_right hname))

/-! ### Lyrics next to a track -/

variable (M T S) in
/-- Timed lyrics stay, others make way for timed ones only, and what is new is whole.  Other
files stay but for the state files `S`. -/
structure Kept (fs fs' : Files (FilePath ρ) κ) : Prop where
  synced : ∀ p c, fs (sidecar p .synced) = some c → fs' (sidecar p .synced) = some c
  plain : ∀ p c, fs (sidecar p .plain) = some c →
    fs' (sidecar p .plain) = some c ∨ (fs' (sidecar p .synced)).isSome = true
  whole : ∀ p kind c, fs' (sidecar p kind) = some c →
    fs (sidecar p kind) = some c ∨ ∃ text ∈ T, c = M.text (unixLines text.toList)
  others : ∀ q, ¬IsLyrics q → (∀ st ∈ S, q ≠ st ∧ q ≠ tmp st) → fs' q = fs q

namespace Kept

omit [DecidableEq ρ] in
theorem refl (fs : Files (FilePath ρ) κ) : Kept M T S fs fs :=
  ⟨fun _ _ h => h, fun _ _ h => .inl h, fun _ _ _ h => .inl h, fun _ _ _ => rfl⟩

omit [DecidableEq ρ] in
theorem trans (h : Kept M T S fs fs') (h' : Kept M T S fs' fs'') : Kept M T S fs fs'' where
  synced p c hc := h'.synced p c (h.synced p c hc)
  plain p c hc := by
    rcases h.plain p c hc with hc | htimed
    · exact h'.plain p c hc
    · obtain ⟨d, hd⟩ := Option.isSome_iff_exists.mp htimed
      exact .inr (by rw [h'.synced p d hd, Option.isSome_some])
  whole p kind c hc := (h'.whole p kind c hc).elim (h.whole p kind c) .inr
  others q hq hS := (h'.others q hq hS).trans (h.others q hq hS)

/-- Only the file that is being written changes. -/
theorem tmp (p : FilePath ρ) (kind : LyricsKind) (c : Option κ) :
    Kept M T S fs (Function.update fs (tmp (sidecar p kind)) c) := by
  have hside : ∀ q kind', Function.update fs (Lrclib.tmp (sidecar p kind)) c (sidecar q kind')
      = fs (sidecar q kind') := fun q kind' => Function.update_of_ne sidecar_ne_tmp _ _
  refine ⟨fun q d hd => by rw [hside, hd], fun q d hd => .inl (by rw [hside, hd]),
    fun q kind' d hd => .inl (by rw [← hd, hside]), fun q hq _ => ?_⟩
  exact Function.update_of_ne (fun heq => hq ⟨p, kind, .inr heq⟩) _ _

/-- New lyrics where there were none. -/
theorem new (hnone : fs (sidecar p kind) = none) {text : String} (htext : text ∈ T) :
    Kept M T S fs
      (Function.update fs (sidecar p kind) (some (M.text (unixLines text.toList)))) := by
  have hstay : ∀ q d, fs q = some d → Function.update fs (sidecar p kind)
      (some (M.text (unixLines text.toList))) q = some d := by
    intro q d hd
    rw [Function.update_of_ne (fun heq => by rw [heq, hnone] at hd; cases hd), hd]
  refine ⟨fun q d hd => hstay _ d hd, fun q d hd => .inl (hstay _ d hd), ?_, fun q hq _ => ?_⟩
  · intro q kind' d hd
    rw [Function.update_apply] at hd
    split at hd
    · exact .inr ⟨text, htext, (Option.some.inj hd).symm⟩
    · exact .inl hd
  · exact Function.update_of_ne (fun heq => hq ⟨p, kind, .inl heq⟩) _ _

/-- Lyrics make way for timed ones. -/
theorem remove (htimed : (fs (sidecar p .synced)).isSome = true) :
    Kept M T S fs (Function.update fs (sidecar p .plain) none) := by
  have hsynced : ∀ q, Function.update fs (sidecar p .plain) none (sidecar q .synced)
      = fs (sidecar q .synced) := fun q => Function.update_of_ne synced_ne_plain _ _
  refine ⟨fun q d hd => by rw [hsynced, hd], ?_, ?_, fun q hq _ => ?_⟩
  · intro q d hd
    by_cases heq : sidecar q .plain = sidecar p .plain
    · exact .inr (by rw [hsynced, sidecar_congr heq, htimed])
    · exact .inl (by rw [Function.update_of_ne heq, hd])
  · intro q kind d hd
    rw [Function.update_apply] at hd
    split at hd
    · cases hd
    · exact .inl hd
  · exact Function.update_of_ne (fun heq => hq ⟨p, .plain, .inl heq⟩) _ _

omit [DecidableEq ρ] in
/-- Only a state file changes, or what becomes one. -/
theorem state {st : FilePath ρ} (hst : ¬IsLyrics st) (hS : st ∈ S)
    (h : ∀ q, q ≠ st → q ≠ Lrclib.tmp st → fs' q = fs q) : Kept M T S fs fs' := by
  have hside : ∀ q kind, fs' (sidecar q kind) = fs (sidecar q kind) := fun q kind =>
    h _ (fun heq => hst ⟨q, kind, .inl heq.symm⟩) sidecar_ne_tmp
  exact ⟨fun q c hc => by rw [hside, hc], fun q c hc => .inl (by rw [hside, hc]),
    fun q kind c hc => .inl (by rw [← hside, hc]), fun q _ hq => h q (hq st hS).1 (hq st hS).2⟩

end Kept

/-- Whenever the writing of lyrics is stopped. -/
theorem kept_sidecarOps {text : String} (htext : text ∈ T)
    (hsynced : fs (sidecar p .synced) = none)
    (hplain : kind = .plain → fs (sidecar p .plain) = none)
    (h : CrashIn fs (sidecarOps M fs p kind text) fs') : Kept M T S fs fs' := by
  have htmp : Kept M T S fs (Function.update fs (tmp (sidecar p kind))
      (some (M.text (unixLines text.toList)))) := .tmp p kind _
  have hnone : fs (sidecar p kind) = none := by
    cases kind with
    | synced => exact hsynced
    | plain => exact hplain rfl
  rcases h with rfl | ⟨c, rfl⟩ | h
  · exact .refl _
  · exact .tmp p kind (some c)
  -- The text is written, and gets its name.
  have hfresh : Function.update fs (tmp (sidecar p kind))
      (some (M.text (unixLines text.toList))) (sidecar p kind) = none := by
    rw [Function.update_of_ne sidecar_ne_tmp, hnone]
  have hnew := htmp.trans (.new hfresh htext)
  have hdone := hnew.trans (.tmp p kind none)
  rcases h with rfl | h | h
  · exact htmp
  · exact h.elim
  have hself : FileOp.apply (Function.update fs (tmp (sidecar p kind))
      (some (M.text (unixLines text.toList)))) (.replace (tmp (sidecar p kind)) (sidecar p kind))
      = Function.update (Function.update (Function.update fs (tmp (sidecar p kind))
        (some (M.text (unixLines text.toList)))) (sidecar p kind)
        (some (M.text (unixLines text.toList)))) (tmp (sidecar p kind)) none := by
    rw [FileOp.apply, Function.update_self]
  rw [FileOp.apply, hself] at h
  split at h
  next hremove =>
    obtain ⟨rfl, -⟩ := hremove
    rcases h with rfl | h | rfl
    · exact hdone
    · exact h.elim
    · refine hdone.trans (.remove ?_)
      rw [Function.update_of_ne sidecar_ne_tmp, Function.update_self, Option.isSome_some]
  next => exact (show fs' = _ from h) ▸ hdone

omit [DecidableEq ρ] in
/-- Lyrics that were found are an answer, and the track has none. -/
theorem found_eq {text : String} (h : outcome U o fs misses v = .found kind text) :
    Offers v text ∧ ∃ tags, hasTarget o fs v tags = false := by
  unfold outcome at h
  split at h
  · cases h
  split at h
  · cases h
  split at h
  · cases h
  next tags _ =>
    split at h
    · cases h
    next htarget =>
      split at h
      · cases h
      split at h
      · cases h
      next hit hhit =>
        refine ⟨?_, tags, Bool.not_eq_true _ ▸ htarget⟩
        unfold answered at h
        split at h
        · cases h
        next e how =>
          refine ⟨e, mem_of_lookup hhit, ?_⟩
          split at h
          · cases h
          split at h
          next htext =>
            cases h
            exact .inl (Option.filter_eq_some_iff.mp htext).1
          next htext =>
            cases h
            exact .inr (Option.filter_eq_some_iff.mp htext).1
          · cases h

/-- Whenever a run without embedding is stopped at a file. -/
theorem kept_writes (hembed : o.embed = false) (hT : ∀ text, Offers v text → text ∈ T)
    (h : CrashIn fs (writes U M o fs misses v) fs') : Kept M T S fs fs' := by
  have hnothing : ∀ fs', CrashIn fs [] fs' → Kept M T S fs fs' := by
    rintro _ rfl
    exact .refl _
  unfold writes at h
  split at h
  next kind text hfound =>
    obtain ⟨hoffer, tags, htarget⟩ := found_eq hfound
    rw [hasTarget, if_neg (by simp [hembed]), Bool.or_eq_false_iff, Bool.and_eq_false_iff,
      Option.isSome_eq_false_iff, Option.isNone_iff_eq_none, Option.isSome_eq_false_iff,
      Option.isNone_iff_eq_none] at htarget
    split at h
    · exact hnothing _ h
    rw [if_neg (by simp [hembed])] at h
    split at h
    · exact hnothing _ h
    next hbetter =>
      refine kept_sidecarOps (hT text hoffer) htarget.1 (fun hkind => ?_) h
      refine htarget.2.resolve_right fun hup => hbetter ⟨by simpa using hup, by simp [hkind]⟩
  next => exact hnothing _ h

theorem files_step {s s' : RunState ρ κ} (h : step U M o s v = some s') :
    s'.files = applyAll s.files (writes U M o s.files s.misses v) := by
  obtain ⟨-, h⟩ := Option.ite_none_left_eq_some.mp h
  cases h
  rfl

omit [DecidableEq ρ] in
/-- `finish` writes to the state file and next to it. -/
theorem finishOps_paths (saved : κ) (hstate : q ≠ o.state) (htmp : q ≠ tmp o.state) :
    ∀ op ∈ finishOps o saved, q ∉ op.paths := by
  intro op hop
  unfold finishOps at hop
  split at hop
  · simp only [List.mem_cons, List.not_mem_nil, or_false] at hop
    rcases hop with rfl | rfl
    · simpa [FileOp.paths] using htmp
    · simpa [FileOp.paths] using ⟨htmp, hstate⟩
  · cases hop

theorem Leaves.kept (hembed : o.embed = false) (hS : o.state ∈ S) (hstate : ¬IsLyrics o.state)
    (h : Leaves U M o T files fs) : Kept M T S files fs := by
  obtain ⟨misses, visits, s, ops, hT, hrun, hnext, hcrash⟩ := h
  have hall : AllSteps (step U M o) (fun _ w => w ∈ visits) (.init files misses) visits :=
    allSteps_of_forall fun _ hw => hw
  have hs : Kept M T S files s.files := by
    refine invariant_of_allSteps (I := fun s : RunState ρ κ => Kept M T S files s.files) ?_
      (Kept.refl files) hall hrun
    intro s w s' hs hw h
    refine hs.trans ?_
    rw [files_step h]
    exact kept_writes hembed (hT w hw) crashIn_applyAll
  refine hs.trans ?_
  cases hnext with
  | track v hv => exact kept_writes hembed hv hcrash
  | finish saved =>
    exact .state hstate hS fun q hq htmp => hcrash.other (finishOps_paths saved hq htmp)

/-- **Lyrics next to a track are never lost or written in part**: after any runs without
embedding, each of which may have been stopped at any moment and none of which has its state
file among the lyrics, timed lyrics are as before, others are as before or there are timed
ones, all that is new is a whole text that LRCLIB answered with, and other files but the state
files are as before. -/
theorem lyricsKept (hS : ∀ st ∈ S, ¬IsLyrics st)
    (h : Relation.ReflTransGen
      (fun fs fs' => ∃ o : Options ρ, o.embed = false ∧ o.state ∈ S ∧ Leaves U M o T fs fs')
      files fs) :
    Kept M T S files fs := by
  induction h with
  | refl => exact .refl files
  | tail _ hrun ih =>
    obtain ⟨o, hembed, hstate, hleaves⟩ := hrun
    exact ih.trans (hleaves.kept hembed hstate (hS _ hstate))

/-- An entry with timed lyrics. -/
def timed : Entry := ⟨some "Song", some 200, some "[00:01.00]La", none, false⟩

theorem offers_timed {text : String} (h : Offers (song 9000000 (.json (some timed))) text) :
    text = "[00:01.00]La" := by
  obtain ⟨e, he, htext⟩ := h
  rcases he with he | ⟨found, hfound, -⟩
  · cases he
    exact (Option.some.inj (htext.resolve_right nofun)).symm
  · cases hfound

omit [DecidableEq ρ] in
/-- How the name of such a file ends. -/
theorem getLast?_of_isLyrics (h : IsLyrics q) :
    q.2.getLast? ∈ [some 'c', some 't', some 'p'] := by
  obtain ⟨p, kind, rfl | rfl⟩ := h
  · rw [getLast?_sidecar]
    cases kind <;> decide
  · rw [getLast?_tmp]
    decide

/-- Timed lyrics are written next to a track, and the process ends. -/
theorem lyricsKept_song :
    Kept soundAndText {"[00:01.00]La"} {(9, "misses.json".toList)}
      (fun _ : FilePath ℕ => none) (applyAll (fun _ => none) (sidecarOps soundAndText
        (fun _ => none) (0, "song.mp3".toList) .synced "[00:01.00]La")) := by
  have hwrites : writes asciiCharacters soundAndText sidecarOptions (fun _ => none) (fun _ => none)
      (song 9000000 (.json (some timed))) = sidecarOps soundAndText (fun _ => none)
        (0, "song.mp3".toList) .synced "[00:01.00]La" := by decide +kernel
  have hnext : Next asciiCharacters soundAndText sidecarOptions {"[00:01.00]La"}
      (.init (fun _ => none) fun _ => none) (sidecarOps soundAndText (fun _ => none)
        (0, "song.mp3".toList) .synced "[00:01.00]La") :=
    hwrites ▸ .track (song 9000000 (.json (some timed))) fun text htext => offers_timed htext
  have hleaves : Leaves asciiCharacters soundAndText sidecarOptions {"[00:01.00]La"}
      (fun _ => none) (applyAll (fun _ => none) (sidecarOps soundAndText (fun _ => none)
        (0, "song.mp3".toList) .synced "[00:01.00]La")) :=
    ⟨fun _ => none, [], _, _, fun _ hw => absurd hw List.not_mem_nil, rfl, hnext,
      crashIn_applyAll⟩
  refine lyricsKept (U := asciiCharacters) ?_ (.single ⟨sidecarOptions, rfl, rfl, hleaves⟩)
  rintro st rfl hlyrics
  exact absurd (getLast?_of_isLyrics hlyrics) (by decide)

/-! ### Lyrics in a track -/

omit [DecidableEq ρ] in
theorem lyricsBak_ne : lyricsBak p ≠ p := by
  intro h
  have hlen := congrArg (fun q => q.2.length) h
  simp [lyricsBak] at hlen

omit [DecidableEq ρ] in
/-- Only the backup folder gets a backup. -/
theorem backupOps_paths (e : Embedding κ) {op : FileOp (FilePath ρ) κ}
    (hop : op ∈ backupOps M o fs p e) (hq : o.backupDir ≠ some q.1) : q ∉ op.paths := by
  unfold backupOps at hop
  split at hop
  · cases hop
  next dir hdir =>
    have hne : q ≠ (dir, p.2) := by
      rintro rfl
      exact hq hdir
    split at hop
    · cases hop
    split at hop <;> obtain rfl := List.mem_singleton.mp hop <;>
      simpa [FileOp.paths] using hne

omit [DecidableEq ρ] in
/-- The operations between the copy and the removal leave the copy alone. -/
theorem embedOps_middle (e : Embedding κ) (hdir : o.backupDir ≠ some p.1) :
    ∀ op ∈ [.write p e.written] ++ backupOps M o fs p e ++
      (if embedded M o fs p e then [] else [.copy (lyricsBak p) p]), lyricsBak p ∉ op.paths := by
  intro op hop
  rcases List.mem_append.mp hop with hop | hop
  · rcases List.mem_append.mp hop with hop | hop
    · obtain rfl := List.mem_singleton.mp hop
      simpa [FileOp.paths] using lyricsBak_ne
    · exact backupOps_paths e hop hdir
  · split at hop
    · cases hop
    · obtain rfl := List.mem_singleton.mp hop
      simpa [FileOp.paths] using lyricsBak_ne

omit [DecidableEq ρ] in
theorem embedOps_eq (e : Embedding κ) :
    embedOps M o fs p e = [.copy p (lyricsBak p)] ++ (([.write p e.written] ++
      backupOps M o fs p e ++ (if embedded M o fs p e then [] else [.copy (lyricsBak p) p])) ++
      [.remove (lyricsBak p)]) := by
  simp [embedOps]

/-- After all but the removal the track is new and verified, or restored. -/
theorem applyAll_middle (e : Embedding κ) (hdir : o.backupDir ≠ some p.1)
    (hcopy : fs' (lyricsBak p) = fs p) :
    applyAll fs' ([.write p e.written] ++ backupOps M o fs p e ++
        (if embedded M o fs p e then [] else [.copy (lyricsBak p) p])) p
      = if embedded M o fs p e then some e.written else fs p := by
  have hbackup : ∀ op ∈ backupOps M o fs p e, p ∉ op.paths := fun op hop =>
    backupOps_paths e hop hdir
  have hwritten : applyAll fs' ([.write p e.written] ++ backupOps M o fs p e) p
      = some e.written := by
    rw [applyAll_append, applyAll_other hbackup, applyAll_cons, applyAll_nil, FileOp.apply,
      Function.update_self]
  rw [applyAll_append]
  split
  · rw [applyAll_nil, hwritten]
  · rw [applyAll_cons, applyAll_nil, FileOp.apply, Function.update_self, ← hcopy]
    refine applyAll_other fun op hop => ?_
    exact embedOps_middle e hdir op (List.mem_append_left _ hop)

variable (M) in
/-- The audio of a file, if it is there. -/
def audioAt (fs : Files (FilePath ρ) κ) (p : FilePath ρ) : Option String := (fs p).map M.audio

omit [DecidableEq ρ] in
/-- What is verified has the audio. -/
theorem audio_embedded (e : Embedding κ) :
    (if embedded M o fs p e then some e.written else fs p).map M.audio = audioAt M fs p := by
  split
  next hdone =>
    simp only [embedded, verified, Bool.and_eq_true, decide_eq_true_eq] at hdone
    exact hdone.1.1.2.symm
  next => rfl

/-- When the writing into a track is over, the track has the audio. -/
theorem audio_embedOps (e : Embedding κ) (hdir : o.backupDir ≠ some p.1) :
    audioAt M (applyAll fs (embedOps M o fs p e)) p = audioAt M fs p := by
  have hcopied : applyAll fs [.copy p (lyricsBak p)] (lyricsBak p) = fs p := by
    rw [applyAll_cons, applyAll_nil, FileOp.apply, Function.update_self]
  have hlast : ∀ fs' : Files (FilePath ρ) κ, applyAll fs' [.remove (lyricsBak p)] p = fs' p := by
    intro fs'
    rw [applyAll_cons, applyAll_nil, FileOp.apply, Function.update_of_ne lyricsBak_ne.symm]
  rw [embedOps_eq, applyAll_append, applyAll_append, audioAt, hlast,
    applyAll_middle e hdir hcopied, audio_embedded]

/-- Whenever the writing into a track is stopped, the track or its copy has the audio. -/
theorem crash_embedOps (e : Embedding κ) (hdir : o.backupDir ≠ some p.1)
    (h : CrashIn fs (embedOps M o fs p e) fs') :
    audioAt M fs' p = audioAt M fs p ∨ audioAt M fs' (lyricsBak p) = audioAt M fs p := by
  have hend : audioAt M (applyAll fs (embedOps M o fs p e)) p = audioAt M fs p :=
    audio_embedOps e hdir
  rw [embedOps_eq] at h hend
  have hcopied : applyAll fs [.copy p (lyricsBak p)] (lyricsBak p) = fs p := by
    rw [applyAll_cons, applyAll_nil, FileOp.apply, Function.update_self]
  rcases h.append with h | h
  · refine .inl (congrArg _ (h.other fun op hop => ?_))
    obtain rfl := List.mem_singleton.mp hop
    simpa [FileOp.paths] using lyricsBak_ne.symm
  rcases h.append with h | h
  · exact .inr (congrArg _ ((h.other (embedOps_middle e hdir)).trans hcopied))
  rcases h with rfl | h | rfl
  · exact .inr (congrArg _ ((applyAll_other (embedOps_middle e hdir)).trans hcopied))
  · exact h.elim
  · rw [applyAll_append, applyAll_append] at hend
    exact .inl hend

omit [DecidableEq ρ] in
/-- A name that ends otherwise is not that of a track. -/
theorem isTrack_eq_false {name : List Char} {c : Char}
    (hlast : (name.map Char.toLower).getLast? = some c) (hflac : c ≠ 'c') (hmp3 : c ≠ '3') :
    isTrack name = false := by
  refine List.any_eq_false.mpr fun ext hext hsuffix => ?_
  obtain ⟨stem, hstem⟩ := List.isSuffixOf_iff_suffix.mp hsuffix
  rw [← hstem, List.getLast?_append] at hlast
  simp only [exts, List.mem_cons, List.not_mem_nil, or_false] at hext
  rcases hext with rfl | rfl
  · exact hflac (by simpa using hlast.symm)
  · exact hmp3 (by simpa using hlast.symm)

omit [DecidableEq ρ] in
/-- A copy is no track. -/
theorem isTrack_lyricsBak : isTrack (lyricsBak p).2 = false := by
  have hlast : ((lyricsBak p).2.map Char.toLower).getLast? = some 'k' := by
    simp [lyricsBak]
  exact isTrack_eq_false hlast (by decide) (by decide)

omit [DecidableEq ρ] in
/-- Only the track, its copy and the backup folder are written to. -/
theorem embedOps_paths (e : Embedding κ) (hq : o.backupDir ≠ some q.1) (hne : q ≠ p)
    (hbak : q ≠ lyricsBak p) : ∀ op ∈ embedOps M o fs p e, q ∉ op.paths := by
  intro op hop
  simp only [embedOps, List.mem_append] at hop
  rcases hop with ((hop | hop) | hop) | hop
  · simp only [List.mem_cons, List.not_mem_nil, or_false] at hop
    rcases hop with rfl | rfl
    · simpa [FileOp.paths] using hbak
    · simpa [FileOp.paths] using hne
  · exact backupOps_paths e hop hq
  · split at hop
    · cases hop
    · obtain rfl := List.mem_singleton.mp hop
      simpa [FileOp.paths] using hne
  · obtain rfl := List.mem_singleton.mp hop
    simpa [FileOp.paths] using hbak

omit [DecidableEq ρ] in
/-- A file that is not written to. -/
theorem writes_paths (hembed : o.embed = true) (hq : o.backupDir ≠ some q.1) (hne : q ≠ v.path)
    (hbak : q ≠ lyricsBak v.path) :
    ∀ op ∈ writes U M o fs misses v, q ∉ op.paths := by
  intro op hop
  unfold writes at hop
  split at hop
  · split at hop
    · cases hop
    exact embedOps_paths v.embedding hq hne hbak op hop
  · cases hop

omit [DecidableEq ρ] in
/-- What embedding writes, if anything. -/
theorem writes_embed (hembed : o.embed = true) :
    writes U M o fs misses v = [] ∨
      writes U M o fs misses v = embedOps M o fs v.path v.embedding := by
  unfold writes
  split
  · split
    · exact .inl rfl
    · exact .inr rfl
  · exact .inl rfl

theorem audio_step {s s' : RunState ρ κ} (hembed : o.embed = true)
    (h : step U M o s v = some s') (hq : isTrack q.2 = true) (hdir : o.backupDir ≠ some q.1) :
    audioAt M s'.files q = audioAt M s.files q := by
  rw [files_step h]
  rcases eq_or_ne q v.path with rfl | hne
  · rcases writes_embed hembed with heq | heq
    · rw [heq, applyAll_nil]
    · rw [heq, audio_embedOps _ hdir]
  · have hbak : q ≠ lyricsBak v.path := by
      rintro rfl
      exact Bool.false_ne_true (isTrack_lyricsBak.symm.trans hq)
    exact congrArg _ (applyAll_other (writes_paths hembed hdir hne hbak))

/-- Whenever the run is stopped at a file. -/
theorem audio_crash {s : RunState ρ κ} (hembed : o.embed = true) (hq : isTrack q.2 = true)
    (hdir : o.backupDir ≠ some q.1)
    (hcrash : CrashIn s.files (writes U M o s.files s.misses v) fs') :
    audioAt M fs' q = audioAt M s.files q ∨
      q = v.path ∧ audioAt M fs' (lyricsBak q) = audioAt M s.files q := by
  rcases eq_or_ne q v.path with rfl | hne
  · have hcases : writes U M o s.files s.misses v = [] ∨
        writes U M o s.files s.misses v = embedOps M o s.files v.path v.embedding :=
      writes_embed hembed
    rcases hcases with heq | heq
    · rw [heq] at hcrash
      exact .inl (by rw [show fs' = s.files from hcrash])
    · rw [heq] at hcrash
      exact (crash_embedOps _ hdir hcrash).imp_right fun h => ⟨rfl, h⟩
  · have hbak : q ≠ lyricsBak v.path := by
      rintro rfl
      exact Bool.false_ne_true (isTrack_lyricsBak.symm.trans hq)
    exact .inl (congrArg _ (hcrash.other (writes_paths hembed hdir hne hbak)))

omit [DecidableEq ρ] in
/-- What becomes the state file is no track. -/
theorem isTrack_tmp : isTrack (tmp p).2 = false := by
  have hlast : ((tmp p).2.map Char.toLower).getLast? = some 'p' := by simp [tmp]
  exact isTrack_eq_false hlast (by decide) (by decide)

/-- **The audio of a track is never lost, and is as before at the end**: in every run that
embeds, outside the backup folder, each track that the run is done with has the audio that
it had; if the run is stopped at a file, that track has it, or else its copy; and saving the
misses changes no track, unless it is the state file. -/
theorem audioKept {visits : List (Visit ρ κ)} {s : RunState ρ κ} (hembed : o.embed = true)
    (hrun : runSteps (step U M o) (.init files misses) visits = some s) (q : FilePath ρ)
    (hq : isTrack q.2 = true) (hdir : o.backupDir ≠ some q.1) :
    audioAt M s.files q = audioAt M files q ∧
      (∀ v fs', CrashIn s.files (writes U M o s.files s.misses v) fs' →
        audioAt M fs' q = audioAt M files q ∨
          q = v.path ∧ audioAt M fs' (lyricsBak q) = audioAt M files q) ∧
      ∀ saved fs', q ≠ o.state → CrashIn s.files (finishOps o saved) fs' →
        audioAt M fs' q = audioAt M files q := by
  have hs : audioAt M s.files q = audioAt M files q := by
    refine invariant_of_runSteps
      (I := fun s : RunState ρ κ => audioAt M s.files q = audioAt M files q) ?_ rfl hrun
    intro s w s' hs h
    exact (audio_step hembed h hq hdir).trans hs
  refine ⟨hs, fun v fs' hcrash => ?_, fun saved fs' hstate hcrash => ?_⟩
  · rw [← hs]
    exact audio_crash hembed hq hdir hcrash
  · have htmp : q ≠ tmp o.state := by
      rintro rfl
      exact Bool.false_ne_true (isTrack_tmp.symm.trans hq)
    rw [← hs]
    exact congrArg _ (hcrash.other (finishOps_paths saved hstate htmp))

/-- Lyrics are written into a track, and the process ends before it is verified. -/
theorem audioKept_song :
    let files : Files (FilePath ℕ) String := fun p =>
      if p = (0, "song.mp3".toList) then some "sound|" else none
    let left := applyAll files [.copy (0, "song.mp3".toList) (lyricsBak (0, "song.mp3".toList)),
      .write (0, "song.mp3".toList) "noise"]
    audioAt soundAndText left (0, "song.mp3".toList) = some "sound" ∨
      audioAt soundAndText left (lyricsBak (0, "song.mp3".toList)) = some "sound" := by
  intro files left
  have hwrites : writes asciiCharacters soundAndText embedOptions files (fun _ => none)
      (song 9000000 (.json (some timed))) = embedOps soundAndText embedOptions files
        (0, "song.mp3".toList) (song 9000000 (.json (some timed))).embedding := by decide +kernel
  have hcrash : CrashIn files (writes asciiCharacters soundAndText embedOptions files
      (fun _ => none) (song 9000000 (.json (some timed)))) left := by
    rw [hwrites]
    exact Or.inr (Or.inr (Or.inr (Or.inl ⟨"noise", rfl⟩)))
  have hrun : runSteps (step asciiCharacters soundAndText embedOptions)
      (.init files fun _ => none) [] = some (.init files fun _ => none) := rfl
  have h := audioKept rfl hrun (0, "song.mp3".toList) (by decide) nofun
  exact (h.2.1 _ _ hcrash).imp_right And.right

end Lrclib
end MediaHub

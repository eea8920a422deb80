import MediaHub.Manga.Names
import Mathlib.Data.Char
import Mathlib.Data.List.Lex
import Mathlib.Data.List.Perm.Subperm
import Mathlib.Data.List.Sort
import Mathlib.Data.Rat.Defs

/-!
# The runs of the conversion

`main` of `scripts/manga-convert.py`: a run looks at the chapters in order and converts those that
are settled, not queued and complete, and whose file does not exist, a few in each run.  That a
file exists is all that is kept between the runs.

What a run finds is an input.  Nothing in `main` catches an exception: one that a chapter raises
ends the run, and the chapters behind it are not looked at.  An archive with a damaged member
raises in `is_complete`, which expects other exceptions, and a name that is too long in `exists`
or in the copy to it; both do so in every run.

Which chapter a file was made from is kept beside it here, though the script does not know it.

## Main definitions

* `turn`, `main`, `runs` — one chapter, one run, and runs one after the other.
* `NoShadow` — every chapter has a file of its own.

## Main results

* `noShadow_iff` — **every chapter comes to a file of its own exactly if no two have the same
  names left, the names fit, and no damaged archive is in front.**
-/

namespace MediaHub
namespace Manga

open Re

/-! ### The source -/

def SETTLE_SECONDS : ℚ := 10

def FALLBACK_SETTLE_SECONDS : ℚ := 120

def MAX_PER_RUN : ℕ := 6

/-- What a run finds. -/
structure World where
  /-- `KCC.exists()`. -/
  kcc : Bool
  /-- `--dry-run`. -/
  dryRun : Bool
  /-- The titles and chapters of Suwayomi's queue, if it answers. -/
  queue : Option (List (Text × Text))
  /-- The seconds since a file was changed. -/
  age : Cbz → ℚ
  /-- `is_complete`; `none` is an exception that it does not catch. -/
  complete : Cbz → Option Bool
  /-- Whether the folder of its output is there. -/
  folder : Cbz → Bool
  /-- Whether KCC makes one EPUB of it; `none` is an exception on the way. -/
  converts : Cbz → Option Bool

/-- `suwayomi_queue`. -/
def suwayomiQueue (W : World) : Option (List (Text × Text)) :=
  W.queue.map (·.map fun i => (safe i.1, safe i.2))

def settle (W : World) : ℚ :=
  if (suwayomiQueue W).isSome then SETTLE_SECONDS else FALLBACK_SETTLE_SECONDS

/-- `queued and any(series == qs and qc and qc in cbz.stem for qs, qc in queued)`. -/
def isQueued (W : World) (cbz : Cbz) : Bool :=
  ((suwayomiQueue W).getD []).any fun q =>
    safe cbz.series = q.1 ∧ q.2 ≠ [] ∧ q.2 <:+: cbz.chapter

/-- The files that exist, each with its chapter, and the counters of a run. -/
structure State where
  epubs : List (Text × Cbz)
  done : ℕ
  failed : ℕ

/-- How a run ends before the last chapter. -/
inductive Ending where
  /-- `break`. -/
  | broke
  /-- An exception that nothing catches. -/
  | raised
  deriving DecidableEq

/-- `out.exists()`; `none` where a name that is looked up is too long. -/
def outExists (W : World) (s : State) (cbz : Cbz) : Option Bool :=
  if tooLong (folderName cbz) then none
  else if W.folder cbz && tooLong (fileName cbz) then none
  else some ((s.epubs.map (·.1)).contains (outPath cbz))

/-- `convert`; `none` where it raises. -/
def convert (W : World) (cbz : Cbz) : Option Bool :=
  if W.dryRun then some true
  else
    match W.converts cbz with
    | some true => if tooLong (partName cbz) then none else some true
    | result => result

/-- The files that exist after `convert` returned `True`. -/
def converted (W : World) (epubs : List (Text × Cbz)) (cbz : Cbz) : List (Text × Cbz) :=
  if W.dryRun then epubs else epubs ++ [(outPath cbz, cbz)]

/-- One turn of the loop. -/
def turn (W : World) (s : State) (cbz : Cbz) : Except Ending State :=
  if W.age cbz < settle W then .ok s
  else if isQueued W cbz then .ok s
  else
    match W.complete cbz with
    | none => .error .raised
    | some false => .ok s
    | some true =>
      match outExists W s cbz with
      | none => .error .raised
      | some true => .ok s
      | some false =>
        if s.done ≥ MAX_PER_RUN then .error .broke
        else
          match convert W cbz with
          | none => .error .raised
          | some true => .ok { s with epubs := converted W s.epubs cbz, done := s.done + 1 }
          | some false => .ok { s with failed := s.failed + 1 }

/-- The loop over the chapters, and whether an exception ended it. -/
def loop (W : World) : List Cbz → State → State × Bool
  | [], s => (s, false)
  | cbz :: rest, s =>
    match turn W s cbz with
    | .error ending => (s, ending = .raised)
    | .ok s' => loop W rest s'

/-- The parts by which paths are compared. -/
def parts (cbz : Cbz) : List Text := [cbz.source, cbz.series, cbz.chapter ++ ".cbz".toList]

/-- `sorted(SRC.glob("*/*/*.cbz"))`. -/
def sorted (files : List Cbz) : List Cbz := files.insertionSort fun f g => parts f ≤ parts g

/-- `main`: the files that exist after the run, and the exit status. -/
def main (files : List Cbz) (W : World) (epubs : List (Text × Cbz)) : List (Text × Cbz) × ℕ :=
  if !W.kcc then (epubs, 2)
  else
    let (s, raised) := loop W (sorted files) ⟨epubs, 0, 0⟩
    (s.epubs, if raised || s.failed ≠ 0 then 1 else 0)

/-- The files that exist after some runs, the last of which comes first. -/
def runs (files : List Cbz) : List World → List (Text × Cbz)
  | [] => []
  | W :: before => (main files W (runs files before)).1

/-! ### What should come of the runs -/

/-- The chapter is settled, not queued and complete. -/
def eligible (W : World) (cbz : Cbz) : Bool :=
  !(W.age cbz < settle W) && !isQueued W cbz && W.complete cbz == some true

/-- A run that converts what it tries to. -/
def works (files : List Cbz) (W : World) : Bool :=
  W.kcc && !W.dryRun && files.all fun cbz => W.converts cbz == some true

/-- The chapters that are there. -/
structure Library where
  files : List Cbz
  nodup : files.Nodup
  /-- `is_complete` raises, as for an archive with a damaged member. -/
  damaged : Cbz → Bool

/-- The run finds these archives damaged. -/
def World.Finds (W : World) (L : Library) : Prop :=
  ∀ f ∈ L.files, W.complete f = none ↔ L.damaged f = true

/-- What is not damaged fits, and no damaged archive is in front of it. -/
def Library.Unblocked (L : Library) : Prop :=
  ∀ f ∈ L.files, L.damaged f = false → fits f = true ∧
    ∀ g ∈ L.files, L.damaged g = true → ¬ parts g ≤ parts f

/-- No chapter is shadowed by another. -/
structure NoShadow (L : Library) : Prop where
  /-- No two have the same file. -/
  apart : ∀ f ∈ L.files, ∀ g ∈ L.files, f ≠ g → outPath f ≠ outPath g
  /-- None finds the file of another. -/
  own : ∀ Ws, ∀ f ∈ L.files, ∀ g, (outPath f, g) ∈ runs L.files Ws → g = f
  /-- Each is converted if it is eligible in so many runs that work. -/
  converted : ∀ Ws : List World, (∀ W ∈ Ws, W.Finds L) → ∀ f ∈ L.files,
    L.files.length ≤ MAX_PER_RUN * Ws.countP (fun W => works L.files W && eligible W f) →
      (outPath f, f) ∈ runs L.files Ws

/-! ### One chapter -/

/-- What a turn can do. -/
inductive Turned (W : World) (s : State) (cbz : Cbz) : Except Ending State → Prop
  | skipped (h : eligible W cbz = true → outPath cbz ∈ s.epubs.map (·.1)) :
      Turned W s cbz (.ok s)
  | stopped (h : MAX_PER_RUN ≤ s.done) : Turned W s cbz (.error .broke)
  | damaged (h : W.complete cbz = none) : Turned W s cbz (.error .raised)
  | raised (h : W.complete cbz = some true) (hout : fits cbz = true → W.converts cbz = none) :
      Turned W s cbz (.error .raised)
  | dry (h : W.dryRun = true) : Turned W s cbz (.ok { s with done := s.done + 1 })
  | converted (h : outPath cbz ∉ s.epubs.map (·.1)) (hfits : fits cbz = true) : Turned W s cbz
      (.ok { s with epubs := s.epubs ++ [(outPath cbz, cbz)], done := s.done + 1 })
  | failed (h : W.converts cbz = some false) :
      Turned W s cbz (.ok { s with failed := s.failed + 1 })

theorem fits_iff {cbz : Cbz} :
    fits cbz = true ↔ tooLong (folderName cbz) = false ∧ tooLong (partName cbz) = false := by
  simp [fits]

/-- The file of a chapter that fits can be looked up. -/
theorem outExists_of_fits (W : World) (s : State) {cbz : Cbz} (h : fits cbz = true) :
    outExists W s cbz = some ((s.epubs.map (·.1)).contains (outPath cbz)) := by
  obtain ⟨hfolder, hpart⟩ := fits_iff.mp h
  simp [outExists, hfolder, tooLong_fileName hpart]

theorem outExists_eq_some {W : World} {s : State} {cbz : Cbz} {there : Bool}
    (h : outExists W s cbz = some there) :
    tooLong (folderName cbz) = false ∧
      (there = true ↔ outPath cbz ∈ s.epubs.map (·.1)) := by
  unfold outExists at h
  split at h
  · cases h
  · next hfolder =>
    split at h
    · cases h
    · obtain rfl := Option.some.inj h
      exact ⟨by simpa using hfolder, List.contains_iff_mem⟩

theorem turned (W : World) (s : State) (cbz : Cbz) : Turned W s cbz (turn W s cbz) := by
  unfold turn
  split
  · next h => exact .skipped (by simp [eligible, h])
  split
  · next h => exact .skipped (by simp [eligible, h])
  cases hcomplete : W.complete cbz with
  | none => exact .damaged hcomplete
  | some complete =>
    cases complete with
    | false => exact .skipped (by simp [eligible, hcomplete])
    | true =>
      cases hexists : outExists W s cbz with
      | none =>
        refine .raised hcomplete fun hfits => ?_
        rw [outExists_of_fits W s hfits] at hexists
        cases hexists
      | some there =>
        obtain ⟨hfolder, hthere⟩ := outExists_eq_some hexists
        cases there with
        | true => exact .skipped fun _ => hthere.mp rfl
        | false =>
          have hnew : outPath cbz ∉ s.epubs.map (·.1) := fun h => absurd (hthere.mpr h) (by decide)
          simp only
          split
          · next h => exact .stopped h
          unfold convert converted
          by_cases hdry : W.dryRun = true
          · simp only [hdry, if_true]
            exact .dry hdry
          · simp only [hdry]
            cases hconverts : W.converts cbz with
            | none => exact .raised hcomplete fun _ => hconverts
            | some made =>
              cases made with
              | false => exact .failed hconverts
              | true =>
                cases hpart : tooLong (partName cbz) with
                | true =>
                  refine .raised hcomplete fun hfits => ?_
                  rw [(fits_iff.mp hfits).2] at hpart
                  cases hpart
                | false => exact .converted hnew (fits_iff.mpr ⟨hfolder, hpart⟩)

/-! ### One run -/

/-- The files that exist are of chapters that are there and fit, and no two are the same. -/
structure Ledger (files : List Cbz) (epubs : List (Text × Cbz)) : Prop where
  nodup : (epubs.map (·.1)).Nodup
  of : ∀ e ∈ epubs, e.2 ∈ files ∧ e.1 = outPath e.2
  fits : ∀ e ∈ epubs, fits e.2 = true

theorem Ledger.convert {files : List Cbz} {epubs : List (Text × Cbz)} (h : Ledger files epubs)
    {cbz : Cbz} (hcbz : cbz ∈ files) (hnew : outPath cbz ∉ epubs.map (·.1))
    (hfits : Manga.fits cbz = true) : Ledger files (epubs ++ [(outPath cbz, cbz)]) := by
  constructor
  · rw [List.map_append, List.nodup_append]
    refine ⟨h.nodup, by simp, ?_⟩
    rintro o ho o' ho' rfl
    obtain rfl : o = outPath cbz := by simpa using ho'
    exact hnew ho
  · intro e he
    rcases List.mem_append.mp he with he | he
    · exact h.of e he
    · obtain rfl := List.mem_singleton.mp he
      exact ⟨hcbz, rfl⟩
  · intro e he
    rcases List.mem_append.mp he with he | he
    · exact h.fits e he
    · obtain rfl := List.mem_singleton.mp he
      exact hfits

/-- A run keeps the files that exist, and adds only files of its own. -/
theorem loop_ledger (W : World) {files l : List Cbz} (hl : ∀ f ∈ l, f ∈ files) {s : State}
    (hs : Ledger files s.epubs) :
    Ledger files (loop W l s).1.epubs ∧ s.epubs <+: (loop W l s).1.epubs := by
  induction l generalizing s with
  | nil => exact ⟨hs, List.prefix_rfl⟩
  | cons cbz l ih =>
    have hrest : ∀ f ∈ l, f ∈ files := fun f hf => hl f (List.mem_cons_of_mem _ hf)
    rw [loop]
    cases hturn : turn W s cbz with
    | error ending => exact ⟨hs, List.prefix_rfl⟩
    | ok s' =>
      have hturned := turned W s cbz
      rw [hturn] at hturned
      cases hturned with
      | skipped h => exact ih hrest hs
      | dry h => exact @ih hrest { s with done := s.done + 1 } hs
      | converted h hfits =>
        have hnext := hs.convert (hl cbz List.mem_cons_self) h hfits
        obtain ⟨hledger, hpre⟩ := @ih hrest { s with epubs := _, done := s.done + 1 } hnext
        exact ⟨hledger, (List.prefix_append _ _).trans hpre⟩
      | failed h => exact @ih hrest { s with failed := s.failed + 1 } hs

/-- What is counted as done is what is converted, but in a dry run. -/
theorem loop_done {W : World} (hW : W.dryRun = false) (l : List Cbz) (s : State) :
    (loop W l s).1.epubs.length + s.done = s.epubs.length + (loop W l s).1.done := by
  induction l generalizing s with
  | nil => rfl
  | cons cbz l ih =>
    rw [loop]
    cases hturn : turn W s cbz with
    | error ending => rfl
    | ok s' =>
      have hturned := turned W s cbz
      rw [hturn] at hturned
      cases hturned with
      | skipped h => exact ih _
      | dry h => rw [hW] at h; cases h
      | converted h hfits =>
        have hrest := ih { s with epubs := s.epubs ++ [(outPath cbz, cbz)], done := s.done + 1 }
        simp only [List.length_append, List.length_singleton] at hrest ⊢
        omega
      | failed h => exact ih _

/-- The chapters by the order in which a run looks at them. -/
def InOrder (l : List Cbz) : Prop := l.Pairwise fun f g => parts f ≤ parts g

/-- No exception ends a run that works before it comes to the chapter. -/
structure Open (W : World) (l : List Cbz) (f : Cbz) : Prop where
  converts : ∀ g ∈ l, W.converts g = some true
  fits : ∀ g ∈ l, W.complete g = some true → fits g = true
  damaged : ∀ g ∈ l, W.complete g = none → ¬ parts g ≤ parts f

theorem Open.tail {W : World} {g : Cbz} {l : List Cbz} {f : Cbz} (h : Open W (g :: l) f) :
    Open W l f :=
  ⟨fun k hk => h.converts k (List.mem_cons_of_mem _ hk),
    fun k hk => h.fits k (List.mem_cons_of_mem _ hk),
    fun k hk => h.damaged k (List.mem_cons_of_mem _ hk)⟩

/-- A run that works comes to an eligible chapter, or converts as many as it may. -/
theorem loop_reaches {W : World} {files l : List Cbz} (hl : ∀ f ∈ l, f ∈ files)
    (hord : InOrder l) {s : State} (hs : Ledger files s.epubs) (hdry : W.dryRun = false) {f : Cbz}
    (hopen : Open W l f) (hf : f ∈ l) (helig : eligible W f = true) :
    outPath f ∈ (loop W l s).1.epubs.map (·.1) ∨ MAX_PER_RUN ≤ (loop W l s).1.done := by
  induction l generalizing s with
  | nil => cases hf
  | cons cbz l ih =>
    have hrest : ∀ f ∈ l, f ∈ files := fun f hf => hl f (List.mem_cons_of_mem _ hf)
    have hord' : InOrder l := (List.pairwise_cons.mp hord).2
    -- the chapters up to this one are in front of it, or are it
    have hle : parts cbz ≤ parts f := by
      rcases List.mem_cons.mp hf with rfl | hf
      · exact le_rfl
      · exact (List.pairwise_cons.mp hord).1 f hf
    rw [loop]
    have hturned := turned W s cbz
    cases hturn : turn W s cbz with
    | error ending =>
      rw [hturn] at hturned
      cases hturned with
      | stopped h => exact Or.inr h
      | damaged h => exact absurd hle (hopen.damaged cbz List.mem_cons_self h)
      | raised h hout =>
        have hnone := hout (hopen.fits cbz List.mem_cons_self h)
        rw [hopen.converts cbz List.mem_cons_self] at hnone
        cases hnone
    | ok s' =>
      rw [hturn] at hturned
      -- what exists after the turn exists after the run
      have hkept : ∀ {t : State}, Ledger files t.epubs → outPath f ∈ t.epubs.map (·.1) →
          outPath f ∈ (loop W l t).1.epubs.map (·.1) := by
        intro t ht hmem
        exact ((loop_ledger W hrest ht).2.map _).subset hmem
      cases hturned with
      | skipped h =>
        rcases List.mem_cons.mp hf with rfl | hf
        · exact Or.inl (hkept hs (h helig))
        · exact ih hrest hord' hs hopen.tail hf
      | dry h => rw [hdry] at h; cases h
      | converted h hfits =>
        have hledger := hs.convert (hl cbz List.mem_cons_self) h hfits
        rcases List.mem_cons.mp hf with rfl | hf
        · exact Or.inl (hkept hledger (by simp))
        · exact ih hrest hord' hledger hopen.tail hf
      | failed h => rw [hopen.converts cbz List.mem_cons_self] at h; cases h

/-! ### Many runs -/

theorem mem_sorted {files : List Cbz} {f : Cbz} : f ∈ sorted files ↔ f ∈ files :=
  List.mem_insertionSort _

theorem inOrder_sorted (files : List Cbz) : InOrder (sorted files) :=
  List.pairwise_insertionSort _ files

theorem main_ledger {files : List Cbz} (W : World) {epubs : List (Text × Cbz)}
    (h : Ledger files epubs) :
    Ledger files (main files W epubs).1 ∧ epubs <+: (main files W epubs).1 := by
  rw [main]
  split
  · exact ⟨h, List.prefix_rfl⟩
  · exact @loop_ledger W files _ (fun f hf => mem_sorted.mp hf) ⟨epubs, 0, 0⟩ h

/-- A run that works converts the chapter, unless it exists or the run is full. -/
theorem main_reaches {files : List Cbz} {W : World} {epubs : List (Text × Cbz)}
    (h : Ledger files epubs) (hW : works files W = true) {f : Cbz} (hopen : Open W files f)
    (hf : f ∈ files) (helig : eligible W f = true) :
    outPath f ∈ (main files W epubs).1.map (·.1) ∨
      epubs.length + MAX_PER_RUN ≤ (main files W epubs).1.length := by
  obtain ⟨⟨hkcc, hdry⟩, -⟩ : (W.kcc = true ∧ W.dryRun = false) ∧
      ∀ g ∈ files, W.converts g = some true := by simpa [works] using hW
  have hopen' : Open W (sorted files) f :=
    ⟨fun g hg => hopen.converts g (mem_sorted.mp hg), fun g hg => hopen.fits g (mem_sorted.mp hg),
      fun g hg => hopen.damaged g (mem_sorted.mp hg)⟩
  rw [main, hkcc]
  have hdone : (loop W (sorted files) ⟨epubs, 0, 0⟩).1.epubs.length + 0
      = epubs.length + (loop W (sorted files) ⟨epubs, 0, 0⟩).1.done := loop_done hdry _ _
  refine (@loop_reaches W files _ (fun g hg => mem_sorted.mp hg) (inOrder_sorted files)
    ⟨epubs, 0, 0⟩ h hdry f hopen' (mem_sorted.mpr hf) helig).imp id fun hfull => ?_
  simp only [Bool.not_true, Bool.false_eq_true, if_false]
  omega

theorem runs_ledger (files : List Cbz) (Ws : List World) : Ledger files (runs files Ws) := by
  induction Ws with
  | nil => exact ⟨List.nodup_nil, by simp [runs], by simp [runs]⟩
  | cons W Ws ih => exact (main_ledger W ih).1

/-- The runs that work either convert the chapter or have converted as many as they may. -/
theorem runs_reaches (files : List Cbz) (Ws : List World) {f : Cbz} (hf : f ∈ files)
    (hopen : ∀ W ∈ Ws, works files W = true → eligible W f = true → Open W files f) :
    outPath f ∈ (runs files Ws).map (·.1) ∨
      MAX_PER_RUN * Ws.countP (fun W => works files W && eligible W f)
        ≤ (runs files Ws).length := by
  induction Ws with
  | nil => exact Or.inr (by simp)
  | cons W Ws ih =>
    obtain ⟨-, hpre⟩ := main_ledger W (runs_ledger files Ws)
    rcases ih fun W' hW' => hopen W' (List.mem_cons_of_mem _ hW') with hmem | hlen
    · exact Or.inl ((hpre.map _).subset hmem)
    · rw [runs, List.countP_cons]
      by_cases hW : (works files W && eligible W f) = true
      · obtain ⟨hworks, helig⟩ : works files W = true ∧ eligible W f = true := by simpa using hW
        have hopen' := hopen W List.mem_cons_self hworks helig
        refine (main_reaches (runs_ledger files Ws) hworks hopen' hf helig).imp id fun hmore => ?_
        rw [if_pos hW, Nat.mul_add, Nat.mul_one]
        omega
      · right
        have := hpre.length_le
        rw [if_neg hW, Nat.add_zero]
        omega

/-- There are fewer files than chapters, as long as a chapter has none. -/
theorem length_lt_of_notMem {files : List Cbz} {epubs : List (Text × Cbz)} (h : Ledger files epubs)
    {f : Cbz} (hf : outPath f ∉ epubs.map (·.1)) (hmem : f ∈ files) :
    epubs.length < files.length := by
  have hkeys : epubs.map (·.1) = (epubs.map (·.2)).map outPath := by
    rw [List.map_map]
    exact List.map_congr_left fun e he => (h.of e he).2
  have hnodup : (epubs.map (·.2)).Nodup := (hkeys ▸ h.nodup).of_map _
  have hsub : f :: epubs.map (·.2) ⊆ files := by
    intro g hg
    rcases List.mem_cons.mp hg with rfl | hg
    · exact hmem
    · obtain ⟨e, he, rfl⟩ := List.mem_map.mp hg
      exact (h.of e he).1
  have hnew : f ∉ epubs.map (·.2) := by
    intro hg
    rw [hkeys] at hf
    exact hf (List.mem_map_of_mem hg)
  have hlen := (List.subperm_of_subset (List.nodup_cons.mpr ⟨hnew, hnodup⟩) hsub).length_le
  simp only [List.length_cons, List.length_map] at hlen
  omega

/-! ### A chapter that ends every run -/

/-- A run that finds only some chapters settled, and in which nothing else goes wrong. -/
def finding (L : Library) (settled : Cbz → Bool) : World where
  kcc := true
  dryRun := false
  queue := some []
  age cbz := if settled cbz then SETTLE_SECONDS else 0
  complete cbz := if L.damaged cbz then none else some true
  folder _ := false
  converts _ := some true

theorem finding_finds (L : Library) (settled : Cbz → Bool) : (finding L settled).Finds L := by
  intro f _
  simp [finding]

theorem finding_age {L : Library} {settled : Cbz → Bool} {f : Cbz} :
    (finding L settled).age f < settle (finding L settled) ↔ settled f = false := by
  have hsettle : settle (finding L settled) = 10 := rfl
  have hage : (finding L settled).age f = if settled f then 10 else 0 := rfl
  rw [hsettle, hage]
  cases settled f with
  | false => exact iff_of_true (by decide) rfl
  | true => exact iff_of_false (by decide) (by decide)

theorem finding_eligible {L : Library} {settled : Cbz → Bool} {f : Cbz} (hf : settled f = true)
    (hok : L.damaged f = false) : eligible (finding L settled) f = true := by
  have hage : ¬ (finding L settled).age f < settle (finding L settled) := by
    simp [finding_age, hf]
  have hqueue : isQueued (finding L settled) f = false := rfl
  have hcomplete : (finding L settled).complete f = some true := by simp [finding, hok]
  simp [eligible, hage, hqueue, hcomplete]

/-- So many of these runs convert the chapter. -/
theorem NoShadow.mem_runs {L : Library} (h : NoShadow L) (settled : Cbz → Bool) {f : Cbz}
    (hf : f ∈ L.files) (hsettled : settled f = true) (hok : L.damaged f = false) :
    (outPath f, f) ∈ runs L.files (List.replicate L.files.length (finding L settled)) := by
  apply h.converted _ _ f hf
  · have hworks : works L.files (finding L settled) = true := by simp [works, finding]
    rw [List.countP_replicate, hworks, finding_eligible hsettled hok, MAX_PER_RUN]
    simp only [Bool.and_self, if_true]
    omega
  · intro W hW
    rw [List.eq_of_mem_replicate hW]
    exact finding_finds L settled

theorem parts_injective : Function.Injective parts := by
  intro f g h
  simp only [parts, List.cons.injEq, List.append_cancel_right_eq, and_true] at h
  cases f
  cases g
  simpa using h

/-- A damaged archive in front of a chapter ends the run before it. -/
theorem loop_blocked {L : Library} {f g : Cbz} (hdamaged : L.damaged g = true) (hne : g ≠ f)
    (hle : parts g ≤ parts f) {l : List Cbz} (hord : InOrder l) (hg : g ∈ l) (s : State) :
    (loop (finding L fun cbz => cbz = f ∨ cbz = g) l s).1 = s := by
  induction l with
  | nil => cases hg
  | cons cbz l ih =>
    rw [loop, turn]
    by_cases hcbz : cbz = g
    · subst hcbz
      have hage := mt (@finding_age L (fun k => k = f ∨ k = cbz) cbz).mp (by simp)
      rw [if_neg hage]
      simp [isQueued, suwayomiQueue, finding, hdamaged]
    · have hgl : g ∈ l := by
        rcases List.mem_cons.mp hg with rfl | hgl
        · exact absurd rfl hcbz
        · exact hgl
      have hf : cbz ≠ f := by
        rintro rfl
        have hge := (List.pairwise_cons.mp hord).1 g hgl
        exact hne (parts_injective (le_antisymm hle hge))
      have hage := (@finding_age L (fun k => k = f ∨ k = g) cbz).mpr (by simp [hf, hcbz])
      rw [if_pos hage]
      exact ih (List.pairwise_cons.mp hord).2 hgl

theorem runs_blocked {L : Library} {f g : Cbz} (hg : g ∈ L.files) (hdamaged : L.damaged g = true)
    (hne : g ≠ f) (hle : parts g ≤ parts f) (n : ℕ) :
    runs L.files (List.replicate n (finding L fun cbz => cbz = f ∨ cbz = g)) = [] := by
  induction n with
  | zero => rfl
  | succ n ih =>
    have hloop := loop_blocked hdamaged hne hle (inOrder_sorted L.files) (mem_sorted.mpr hg)
    rw [List.replicate_succ, runs, ih, main, if_neg (by simp [finding])]
    exact congrArg State.epubs (hloop ⟨[], 0, 0⟩)

/-! ### All chapters -/

theorem NoShadow.unblocked {L : Library} (h : NoShadow L) : L.Unblocked := by
  intro f hf hok
  constructor
  · have hmem := h.mem_runs (fun _ => true) hf rfl hok
    exact (runs_ledger L.files _).fits (outPath f, f) hmem
  · intro g hg hdamaged hle
    have hne : g ≠ f := by
      rintro rfl
      rw [hok] at hdamaged
      cases hdamaged
    have hmem := h.mem_runs (fun cbz => cbz = f ∨ cbz = g) hf (by simp) hok
    rw [runs_blocked hg hdamaged hne hle] at hmem
    cases hmem

theorem Library.Unblocked.open {L : Library} (h : L.Unblocked) {W : World} (hfinds : W.Finds L)
    (hW : works L.files W = true) {f : Cbz} (hf : f ∈ L.files) (helig : eligible W f = true) :
    Open W L.files f := by
  have hcomplete : W.complete f = some true := by
    have := (Bool.and_eq_true_iff.mp helig).2
    simpa using this
  have hsound : ∀ g ∈ L.files, W.complete g = some true → L.damaged g = false := by
    intro g hg hcomplete
    rw [← Bool.not_eq_true]
    intro hdamaged
    rw [(hfinds g hg).mpr hdamaged] at hcomplete
    cases hcomplete
  constructor
  · intro g hg
    have hall := (Bool.and_eq_true_iff.mp hW).2
    simpa using List.all_eq_true.mp hall g hg
  · exact fun g hg hdone => (h g hg (hsound g hg hdone)).1
  · intro g hg hnone
    exact (h f hf (hsound f hf hcomplete)).2 g hg ((hfinds g hg).mp hnone)

/-- The runs convert a chapter once they work often enough. -/
theorem Library.Unblocked.mem_runs {L : Library} (h : L.Unblocked) {Ws : List World}
    (hfinds : ∀ W ∈ Ws, W.Finds L) {f : Cbz} (hf : f ∈ L.files)
    (hmany : L.files.length ≤
      MAX_PER_RUN * Ws.countP (fun W => works L.files W && eligible W f)) :
    outPath f ∈ (runs L.files Ws).map (·.1) := by
  by_contra hnot
  -- otherwise the runs have converted more chapters than there are
  have hlt := length_lt_of_notMem (runs_ledger L.files Ws) hnot hf
  have hreached := runs_reaches L.files Ws hf fun W hW hworks helig =>
    h.open (hfinds W hW) hworks hf helig
  have hle := hreached.resolve_left hnot
  omega

/-- **Every chapter comes to a file of its own exactly if no two have the same names left, the
names fit, and no damaged archive is in front.** -/
theorem noShadow_iff (L : Library) :
    NoShadow L ↔
      (∀ f ∈ L.files, ∀ g ∈ L.files, f ≠ g → names f ≠ names g) ∧ L.Unblocked := by
  constructor
  · intro h
    exact ⟨fun f hf g hg hne heq => h.apart f hf g hg hne (outPath_eq_iff.mpr heq), h.unblocked⟩
  · rintro ⟨h, hopen⟩
    have hpath : ∀ f ∈ L.files, ∀ g ∈ L.files, outPath f = outPath g → g = f := by
      intro f hf g hg heq
      by_contra hne
      exact h g hg f hf hne (outPath_eq_iff.mp heq).symm
    have hown : ∀ Ws, ∀ f ∈ L.files, ∀ g, (outPath f, g) ∈ runs L.files Ws → g = f := by
      intro Ws f hf g hmem
      obtain ⟨hg, heq⟩ := (runs_ledger L.files Ws).of _ hmem
      exact hpath f hf g hg heq
    refine ⟨fun f hf g hg hne heq => hne (hpath f hf g hg heq).symm, hown, ?_⟩
    intro Ws hfinds f hf hmany
    obtain ⟨⟨o, g⟩, hmem, ho⟩ := List.mem_map.mp (hopen.mem_runs hfinds hf hmany)
    obtain rfl : o = outPath f := ho
    obtain rfl := hown Ws f hf g hmem
    exact hmem

/-- A chapter of a series that a source has in two languages. -/
def english : Cbz where
  source := "TCB Scans (EN)".toList
  series := "One Piece".toList
  chapter := "Chapter 1".toList
  source_ok := ⟨by decide, by decide, by decide, by decide, by decide⟩
  series_ok := ⟨by decide, by decide, by decide, by decide, by decide⟩
  chapter_ok := ⟨by decide, by decide, by decide, by decide, by decide⟩
  stem_ok := ⟨'C', by decide, by decide⟩
  file_ok := by decide

/-- The same chapter in the other language. -/
def spanish : Cbz :=
  { english with
    source := "TCB Scans (ES)".toList
    source_ok := ⟨by decide, by decide, by decide, by decide, by decide⟩ }

/-- Two languages of a source have the same file. -/
theorem not_noShadow_languages : ¬ ∀ L : Library, NoShadow L := by
  intro h
  have hne : english ≠ spanish := fun heq => absurd (congrArg Cbz.source heq) (by decide)
  have hshadow := h ⟨[english, spanish], by simp [hne], fun _ => false⟩
  exact absurd (hshadow.apart english (by simp) spanish (by simp) hne) (by decide)

end Manga
end MediaHub

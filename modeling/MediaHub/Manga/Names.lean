import MediaHub.Re
import MediaHub.Lib.Lines
import Mathlib.Algebra.GroupWithZero.Nat
import Mathlib.Data.List.DropRight

/-!
# Where a chapter is converted to

`scripts/manga-convert.py` converts the chapters that Suwayomi has downloaded, and puts each into
a file whose name is made from the names of the source, the series and the chapter.  What a file
name must not have is dropped from them, and so are the language of the source and the
scanlator of the chapter.

## Main definitions

* `safe`, `chapterLabel`, `dropTag` — the names without what is dropped.
* `outPath` — the file of a chapter.
* `fits` — the names of the file are not too long for the file system.

## Main results

* `outPath_eq_iff` — **two chapters have the same file exactly if the names that are left of
  them are the same.**
-/

namespace MediaHub
namespace Manga

open Re

/-! ### The source -/

/-- The characters of `[\\/:*?"<>|]`. -/
def FORBIDDEN : List Char := ['\\', '/', ':', '*', '?', '"', '<', '>', '|']

/-- `safe`. -/
def safe (name : Text) : Text := trim isspace (name.filter (· ∉ FORBIDDEN))

/-- `chapter_label`. -/
def chapterLabel (stem : Text) : Text :=
  safe (if '_' ∈ stem then (stem.dropWhile (· ≠ '_')).tail else stem)

/-- `[A-Za-z-]`. -/
def tagChar (c : Char) : Bool := c.isAlpha || c == '-'

/-- What is before a tag `\([A-Za-z-]{2,5}\)` at the end of a text. -/
def beforeTag (s : Text) : Option Text :=
  match s.reverse with
  | ')' :: r =>
    match r.takeWhile tagChar, r.dropWhile tagChar with
    | tag, '(' :: rest => if 2 ≤ tag.length ∧ tag.length ≤ 5 then some rest.reverse else none
    | _, _ => none
  | _ => none

/-- `re.sub(r"\s*\([A-Za-z-]{2,5}\)$", "", name)`; the end is also before a last line end. -/
def dropTag (name : Text) : Text :=
  let (body, nl) := if name.getLast? = some '\n' then (name.dropLast, ['\n']) else (name, [])
  match beforeTag body with
  | some rest => rest.rdropWhile isspace ++ nl
  | none => name

/-- The bytes of a name. -/
def byteLength (name : Text) : ℕ := (name.map Char.utf8Size).sum

/-- The bytes that the name of a directory entry can have. -/
def NAME_MAX : ℕ := 255

/-- A system call with such a name fails with `ENAMETOOLONG`. -/
def tooLong (name : Text) : Bool := NAME_MAX < byteLength name

/-- The name of a directory entry. -/
structure Legal (name : Text) : Prop where
  ne_nil : name ≠ []
  no_slash : '/' ∉ name
  no_nul : '\u0000' ∉ name
  not_dots : name ≠ ['.'] ∧ name ≠ ['.', '.']
  short : tooLong name = false

/-- A file `<source>/<series>/<chapter>.cbz`. -/
structure Cbz where
  source : Text
  series : Text
  /-- The stem of the file. -/
  chapter : Text
  source_ok : Legal source
  series_ok : Legal series
  chapter_ok : Legal chapter
  /-- The file has a suffix. -/
  stem_ok : ∃ c ∈ chapter, c ≠ '.'
  file_ok : tooLong (chapter ++ ".cbz".toList) = false
  deriving DecidableEq

def DST : Text := "/mnt/media/manga/converted".toList

/-- `f"{series} [{source}]"`. -/
def outFolder (series source : Text) : Text := series ++ (" [".toList ++ (source ++ "]".toList))

/-- `f"{series} - {label}.epub"`. -/
def outName (series label : Text) : Text := series ++ (" - ".toList ++ (label ++ ".epub".toList))

/-- `out`. -/
def outPath (cbz : Cbz) : Text :=
  let series := safe cbz.series
  let source := safe (dropTag cbz.source)
  let label := chapterLabel cbz.chapter
  DST ++ '/' :: (outFolder series source ++ '/' :: outName series label)

/-- `out.parent.name`. -/
def folderName (cbz : Cbz) : Text := outFolder (safe cbz.series) (safe (dropTag cbz.source))

/-- `out.name`. -/
def fileName (cbz : Cbz) : Text := outName (safe cbz.series) (chapterLabel cbz.chapter)

/-- `part.name`, of `out.with_suffix(".epub.part")`. -/
def partName (cbz : Cbz) : Text := fileName cbz ++ ".part".toList

/-- The names of the chapter's output can be written. -/
def fits (cbz : Cbz) : Bool := !tooLong (folderName cbz) && !tooLong (partName cbz)

theorem byteLength_append (name suffix : Text) :
    byteLength (name ++ suffix) = byteLength name + byteLength suffix := by
  rw [byteLength, List.map_append, List.sum_append, byteLength, byteLength]

/-- A file has room if what is first written to has. -/
theorem tooLong_fileName {cbz : Cbz} (h : tooLong (partName cbz) = false) :
    tooLong (fileName cbz) = false := by
  simp only [tooLong, partName, byteLength_append, decide_eq_false_iff_not] at h ⊢
  omega

/-! ### Names without what is dropped -/

theorem notMem_safe {c : Char} (hc : c ∈ FORBIDDEN) (name : Text) : c ∉ safe name := by
  intro h
  have hmem : c ∈ name.filter (· ∉ FORBIDDEN) := by
    have hdrop := (List.rdropWhile_prefix isspace _).subset h
    exact (List.dropWhile_suffix _).subset hdrop
  simpa [hc] using (List.mem_filter.mp hmem).2

/-- A name does not end in a blank. -/
theorem safe_ne_concat {c : Char} (hc : isspace c = true) (name s : Text) :
    safe name ≠ s ++ [c] := by
  intro h
  have hne : safe name ≠ [] := by rw [h]; simp
  have hlast : (safe name).getLast? = some c := by rw [h, List.getLast?_concat]
  rw [List.getLast?_eq_some_getLast hne, Option.some.injEq] at hlast
  exact List.rdropWhile_last_not isspace _ hne (by rw [← hc, ← hlast]; rfl)

/-! ### What is left of the names -/

/-- A series that ends in no blank is the same if it has the same folder and file. -/
theorem append_blank_inj {s s' x x' y y' : Text} (hs : ∀ t, s ≠ t ++ [' '])
    (hs' : ∀ t, s' ≠ t ++ [' ']) (hfolder : s ++ ' ' :: '[' :: x = s' ++ ' ' :: '[' :: x')
    (hfile : s ++ ' ' :: '-' :: y = s' ++ ' ' :: '-' :: y') : s = s' := by
  have hcut : ∀ {s s' x x' y y' : Text}, (∀ t, s' ≠ t ++ [' ']) →
      s ++ ' ' :: '-' :: y = s' ++ ' ' :: '-' :: y' → ∀ t, s' = s ++ t →
        ' ' :: '[' :: x = t ++ ' ' :: '[' :: x' → t = [] := by
    intro s s' x x' y y' hs' hfile t ht hx
    -- the rest would begin as the folder goes on and as the file does
    match t with
    | [] => rfl
    | [c] =>
      obtain rfl : ' ' = c := (List.cons.inj hx).1
      exact absurd ht (hs' s)
    | c :: d :: t =>
      obtain rfl : '[' = d := (List.cons.inj (List.cons.inj hx).2).1
      rw [ht, List.append_assoc, List.append_cancel_left_eq] at hfile
      have hd : '-' = '[' := (List.cons.inj (List.cons.inj hfile).2).1
      exact absurd hd (by decide)
  rcases List.append_eq_append_iff.mp hfolder with ⟨t, ht, hx⟩ | ⟨t, ht, hx⟩
  · rw [ht, hcut hs' hfile t ht hx, List.append_nil]
  · rw [ht, hcut hs hfile.symm t ht hx, List.append_nil]

/-- The names that are left of a chapter. -/
def names (cbz : Cbz) : Text × Text × Text :=
  (safe cbz.series, safe (dropTag cbz.source), chapterLabel cbz.chapter)

theorem outFolder_eq (series source : Text) :
    outFolder series source = series ++ ' ' :: '[' :: (source ++ [']']) := rfl

theorem outName_eq (series label : Text) :
    outName series label = series ++ ' ' :: '-' :: ' ' :: (label ++ ".epub".toList) := rfl

/-- **Two chapters have the same file exactly if the names that are left of them are the same.** -/
theorem outPath_eq_iff {f g : Cbz} : outPath f = outPath g ↔ names f = names g := by
  constructor
  · intro h
    have hslash : '/' ∈ FORBIDDEN := by decide
    have hfolder : '/' ∉ outFolder (safe f.series) (safe (dropTag f.source)) := by
      simp [outFolder, notMem_safe hslash]
    have hfolder' : '/' ∉ outFolder (safe g.series) (safe (dropTag g.source)) := by
      simp [outFolder, notMem_safe hslash]
    have hpath := (List.cons.inj (List.append_cancel_left h)).2
    obtain ⟨hfolders, hnames⟩ := append_cons_inj hfolder hfolder' hpath
    rw [outFolder_eq, outFolder_eq] at hfolders
    rw [outName_eq, outName_eq] at hnames
    have hseries : safe f.series = safe g.series :=
      append_blank_inj (fun t => safe_ne_concat rfl _ t) (fun t => safe_ne_concat rfl _ t)
        hfolders hnames
    rw [hseries, List.append_cancel_left_eq] at hfolders hnames
    have hsource : safe (dropTag f.source) = safe (dropTag g.source) :=
      List.append_cancel_right (List.cons.inj (List.cons.inj hfolders).2).2
    have hlabel : chapterLabel f.chapter = chapterLabel g.chapter :=
      List.append_cancel_right
        (List.cons.inj (List.cons.inj (List.cons.inj hnames).2).2).2
    rw [names, names, hseries, hsource, hlabel]
  · intro h
    obtain ⟨hseries, hsource, hlabel⟩ : safe f.series = safe g.series ∧
        safe (dropTag f.source) = safe (dropTag g.source) ∧
          chapterLabel f.chapter = chapterLabel g.chapter := by simpa [names] using h
    rw [outPath, outPath, hseries, hsource, hlabel]

end Manga
end MediaHub

import MediaHub.Lib.StepRuns
import Mathlib.Data.List.AList

/-!
# Moving an album into the library

`stacks/lidarr-ytdl/patches/processing.py`, `_copy_to_lidarr` and the end of
`process_album_download`: the files of the album folder are copied into the library one by
one, and then the folder is deleted.  Every step can fail, and the process can end after any
of them.  A copy empties the file of that name in the library before it writes to it.  In
between, `ensure_artist_image`, which is not in the repository, may write an image into the
folder of the artist.

## Main definitions

* `Folders` — the files, by their folder and name.
* `ImportConfig`, `ImportPhase` — what the paths are, and how far the import is.
* `step` — one operation on the files, or its failure.

## Main results

* `noTrackLost` — **at every moment each finished file is whole in the album folder or in
  the library.**
* `leavesTheRest` — **no other file is touched but the artist's image, and the album folder
  not before every finished file is in the library.**
-/

namespace MediaHub
namespace LidarrYtdl

inductive Node where
  | file (content : String)
  | dir
  deriving DecidableEq, Repr

/-- What is in the folders.  Folders that are the same on the disk have the same number,
whatever path leads to them. -/
abbrev Folders := AList fun _ : ℕ × String => Node

/-- `os.listdir`. -/
def listdir (d : ℕ) (fs : Folders) : List String :=
  (fs.keys.filter fun key => key.1 = d).map Prod.snd

/-- `os.mkdir`, which leaves what is there. -/
def mkdir (key : ℕ × String) (fs : Folders) : Folders :=
  if fs.lookup key = none then fs.insert key .dir else fs

/-- `os.rmdir`, of a folder in which nothing is left. -/
def rmdir (key : ℕ × String) (fs : Folders) : Folders :=
  if fs.lookup key = some .dir then fs.erase key else fs

structure ImportConfig where
  /-- `album_path`. -/
  album : ℕ
  /-- The folders in it. -/
  below : List ℕ
  /-- `artist_path`, in which the album folder is. -/
  artist : ℕ
  albumName : String
  /-- Where the artist folder is, and its name. -/
  artistEntry : ℕ × String
  /-- `lidarr_album_path`. -/
  library : ℕ
  /-- The folder that it is in. -/
  libraryArtist : ℕ
  /-- The folders that lead to it. -/
  libraryEntries : List (ℕ × String)
  /-- The names that `ensure_artist_image` gives to what it writes. -/
  images : List String
  /-- `lidarr_path` is set. -/
  lidarrPath : Bool
  /-- `os.path.realpath(lidarr_path) == os.path.realpath(DOWNLOAD_DIR)`. -/
  samePath : Bool
  artist_notMem : artist ∉ album :: below
  libraryArtist_ne : libraryArtist ≠ library
  /-- The library is not in a folder of the album. -/
  library_notMem : library ∉ below
  deriving DecidableEq

/-- `os.path.dirname(import_path)`. -/
def ImportConfig.imageFolder (c : ImportConfig) (copySucceeded : Bool) : ℕ :=
  if copySucceeded then c.libraryArtist else c.artist

/-- The items that are not copied. -/
def notCopied (item : String) : Bool :=
  "temp_".toList.isPrefixOf item.toList || ".part".toList.isSuffixOf item.toList

inductive ImportPhase where
  /-- `makedirs_safe` comes next. -/
  | making
  | copying (todo : List String)
  /-- `shutil.copyfile` has opened the file of the library. -/
  | writing (item : String) (todo : List String)
  /-- `_copy_to_lidarr` has returned, and this is its `copy_succeeded`. -/
  | returned (copySucceeded : Bool)
  /-- `shutil.rmtree` is at work. -/
  | removing
  | ended
  deriving DecidableEq, Repr

structure ImportState where
  files : Folders
  phase : ImportPhase

inductive ImportLabel where
  /-- `makedirs_safe` makes a folder. -/
  | mkdir (key : ℕ × String)
  | makedirs (ok : Bool)
  /-- The next item is not copied. -/
  | skip
  /-- `shutil.copyfile` compares and opens the files of the next item. -/
  | openFiles (ok : Bool)
  /-- So much of the file is written. -/
  | write (part : String)
  | closeFiles (ok : Bool)
  /-- `set_permissions`, after the last item. -/
  | setPermissions (ok : Bool)
  /-- `ensure_artist_image` writes to a file. -/
  | artistImage (name content : String)
  /-- The album is refreshed in Lidarr, and the folder is deleted if the copy succeeded. -/
  | cleanup
  | remove (key : ℕ × String)
  /-- `os.rmdir` of the album folder, with which `shutil.rmtree` ends. -/
  | rmdirAlbum
  /-- `os.rmdir` of the artist folder. -/
  | rmdirArtist
  /-- The rest is over, or an exception has ended it. -/
  | leave
  deriving DecidableEq, Repr

namespace ImportState

/-- `_copy_to_lidarr` is called. -/
def begin (c : ImportConfig) (fs : Folders) : ImportState :=
  ⟨fs, if c.lidarrPath = true ∧ c.samePath = false then .making else .returned false⟩

/-- One operation on the files, or its failure. -/
def step (c : ImportConfig) (s : ImportState) : ImportLabel → Option ImportState
  | .mkdir key =>
    match s.phase with
    | .making =>
      if key ∈ c.libraryEntries then some { s with files := mkdir key s.files } else none
    | _ => none
  | .makedirs ok =>
    match s.phase with
    | .making =>
      some { s with phase := if ok then .copying (listdir c.album s.files) else .returned false }
    | _ => none
  | .skip =>
    match s.phase with
    | .copying (item :: todo) =>
      match s.files.lookup (c.album, item) with
      | some (.file _) => if notCopied item then some { s with phase := .copying todo } else none
      | _ => some { s with phase := .copying todo }
    | _ => none
  | .openFiles ok =>
    match s.phase with
    | .copying (item :: todo) =>
      match s.files.lookup (c.album, item) with
      | some (.file _) =>
        if notCopied item then none
        -- `SameFileError`, `IsADirectoryError`, or another exception
        else if c.album = c.library ∨ s.files.lookup (c.library, item) = some .dir ∨ ok = false then
          some { s with phase := .returned false }
        else some ⟨s.files.insert (c.library, item) (.file ""), .writing item todo⟩
      | _ => none
    | _ => none
  | .write part =>
    match s.phase with
    | .writing item _ => some { s with files := s.files.insert (c.library, item) (.file part) }
    | _ => none
  | .closeFiles ok =>
    match s.phase with
    | .writing item todo =>
      if ok then (s.files.lookup (c.album, item)).map fun node =>
        ⟨s.files.insert (c.library, item) node, .copying todo⟩
      else some { s with phase := .returned false }
    | _ => none
  | .setPermissions ok =>
    match s.phase with
    | .copying [] => some { s with phase := .returned ok }
    | _ => none
  | .artistImage name content =>
    match s.phase with
    | .returned copySucceeded =>
      let key := (c.imageFolder copySucceeded, name)
      if name ∈ c.images ∧ s.files.lookup key ≠ some .dir then
        some { s with files := s.files.insert key (.file content) }
      else none
    | _ => none
  | .cleanup =>
    match s.phase with
    | .returned copySucceeded =>
      some { s with phase := if copySucceeded then .removing else .ended }
    | _ => none
  | .remove key =>
    match s.phase with
    | .removing =>
      if key.1 ∈ c.album :: c.below then some { s with files := s.files.erase key } else none
    | _ => none
  | .rmdirAlbum =>
    match s.phase with
    | .removing =>
      if listdir c.album s.files = [] then
        some { s with files := rmdir (c.artist, c.albumName) s.files }
      else none
    | _ => none
  | .rmdirArtist =>
    match s.phase with
    | .removing =>
      if listdir c.artist s.files = [] then
        some { s with files := rmdir c.artistEntry s.files, phase := .ended }
      else some { s with phase := .ended }
    | _ => none
  | .leave =>
    match s.phase with
    | .returned _ | .removing => some { s with phase := .ended }
    | _ => none

variable {c : ImportConfig} {fs : Folders} {s s' : ImportState} {l : ImportLabel}
  {ls : List ImportLabel} {todo : List String} {item name content : String}

/-! ### Where the finished files are -/

/-- A finished file of the album folder, before the import. -/
def Finished (c : ImportConfig) (fs : Folders) (name content : String) : Prop :=
  notCopied name = false ∧ fs.lookup (c.album, name) = some (.file content)

instance : Decidable (Finished c fs name content) := inferInstanceAs (Decidable (_ ∧ _))

/-- The same file, if any, is at a place.  Folders may have been made or removed there. -/
def SameFile (fs files : Folders) (key : ℕ × String) : Prop :=
  ∀ content, files.lookup key = some (.file content) ↔ fs.lookup key = some (.file content)

/-- The files of the album folder are as they were. -/
def AlbumKept (c : ImportConfig) (fs files : Folders) : Prop :=
  ∀ key : ℕ × String, key.1 ∈ c.album :: c.below → SameFile fs files key

/-- All finished files but those in `todo` are in the library. -/
def CopiedBut (c : ImportConfig) (fs : Folders) (todo : List String) (files : Folders) : Prop :=
  ∀ name content, Finished c fs name content → name ∈ todo ∨
    c.album ≠ c.library ∧ files.lookup (c.library, name) = some (.file content)

/-- What holds of the files when the import is so far. -/
def SafeAt (c : ImportConfig) (fs files : Folders) : ImportPhase → Prop
  | .making => AlbumKept c fs files
  | .copying todo => AlbumKept c fs files ∧ CopiedBut c fs todo files
  | .writing item todo =>
    c.album ≠ c.library ∧ AlbumKept c fs files ∧ CopiedBut c fs (item :: todo) files ∧
      ∃ content, Finished c fs item content
  | .returned false => AlbumKept c fs files
  | .returned true => CopiedBut c fs [] files
  | .removing => CopiedBut c fs [] files
  | .ended => AlbumKept c fs files ∨ CopiedBut c fs [] files

/-- The import is on the safe side. -/
def Safe (c : ImportConfig) (fs : Folders) (s : ImportState) : Prop := SafeAt c fs s.files s.phase

theorem mem_listdir {d : ℕ} {node : Node} (h : fs.lookup (d, name) = some node) :
    name ∈ listdir d fs := by
  have hmem : (d, name) ∈ fs.keys := by
    rw [← AList.mem_keys, ← AList.lookup_isSome, h]
    rfl
  exact List.mem_map_of_mem (List.mem_filter.mpr ⟨hmem, decide_eq_true rfl⟩)

theorem SameFile.trans {files files' : Folders} {key : ℕ × String} (h : SameFile fs files key)
    (h' : SameFile files files' key) : SameFile fs files' key :=
  fun content => (h' content).trans (h content)

theorem sameFile_insert {key key' : ℕ × String} (fs : Folders) (node : Node) (hne : key' ≠ key) :
    SameFile fs (fs.insert key node) key' := by
  intro content
  rw [AList.lookup_insert_ne hne]

theorem sameFile_erase {key key' : ℕ × String} (fs : Folders) (hne : key' ≠ key) :
    SameFile fs (fs.erase key) key' := by
  intro content
  rw [AList.lookup_erase_ne hne]

/-- A folder is made where nothing is. -/
theorem sameFile_mkdir (key : ℕ × String) (fs : Folders) (key' : ℕ × String) :
    SameFile fs (mkdir key fs) key' := by
  intro content
  unfold mkdir
  split
  · next hnone =>
    rcases eq_or_ne key' key with rfl | hne
    · simp [hnone]
    · rw [AList.lookup_insert_ne hne]
  · rfl

/-- No file is removed with a folder. -/
theorem sameFile_rmdir (key : ℕ × String) (fs : Folders) (key' : ℕ × String) :
    SameFile fs (rmdir key fs) key' := by
  intro content
  unfold rmdir
  split
  · next hdir =>
    rcases eq_or_ne key' key with rfl | hne
    · simp [hdir]
    · rw [AList.lookup_erase_ne hne]
  · rfl

/-- The library is outside the album folder if it is not the folder itself. -/
theorem library_notMem_album (hne : c.album ≠ c.library) : c.library ∉ c.album :: c.below :=
  List.not_mem_cons_of_ne_of_not_mem hne.symm c.library_notMem

theorem AlbumKept.trans {files files' : Folders} (h : AlbumKept c fs files)
    (h' : ∀ key : ℕ × String, key.1 ∈ c.album :: c.below → SameFile files files' key) :
    AlbumKept c fs files' :=
  fun key hkey => (h key hkey).trans (h' key hkey)

/-- A file outside the album folder is written to. -/
theorem AlbumKept.insert {files : Folders} {key : ℕ × String} {node : Node}
    (h : AlbumKept c fs files) (hkey : key.1 ∉ c.album :: c.below) :
    AlbumKept c fs (files.insert key node) :=
  h.trans fun _ hin => sameFile_insert files node fun heq => hkey (heq ▸ hin)

theorem AlbumKept.lookup {files : Folders} (h : AlbumKept c fs files) (item content : String) :
    files.lookup (c.album, item) = some (.file content) ↔
      fs.lookup (c.album, item) = some (.file content) :=
  h (c.album, item) List.mem_cons_self content

theorem CopiedBut.trans {files files' : Folders} (h : CopiedBut c fs todo files)
    (h' : ∀ name, SameFile files files' (c.library, name)) : CopiedBut c fs todo files' := by
  intro name content hf
  exact (h name content hf).imp_right fun ⟨hne, hin⟩ => ⟨hne, (h' name content).mpr hin⟩

/-- A file that is still to be copied is written to. -/
theorem CopiedBut.insert {files : Folders} {node : Node} (h : CopiedBut c fs todo files)
    (hin : item ∈ todo) : CopiedBut c fs todo (files.insert (c.library, item) node) := by
  intro name content hf
  rcases eq_or_ne name item with rfl | hne
  · exact .inl hin
  · rw [AList.lookup_insert_ne fun heq => hne (Prod.mk.inj heq).2]
    exact h name content hf

/-- A file is copied as a whole. -/
theorem CopiedBut.copied {files : Folders} (h : CopiedBut c fs (item :: todo) files)
    (hne : c.album ≠ c.library) (hitem : Finished c fs item content) :
    CopiedBut c fs todo (files.insert (c.library, item) (.file content)) := by
  intro name content' hf
  rcases eq_or_ne name item with rfl | hname
  · refine .inr ⟨hne, ?_⟩
    rw [AList.lookup_insert, ← hf.2, hitem.2]
  · rw [AList.lookup_insert_ne fun heq => hname (Prod.mk.inj heq).2]
    exact (h name content' hf).imp_left fun hin => List.mem_of_ne_of_mem hname hin

theorem CopiedBut.skip {files : Folders} (h : CopiedBut c fs (item :: todo) files)
    (hitem : ∀ content, ¬Finished c fs item content) : CopiedBut c fs todo files := by
  intro name content hf
  rcases eq_or_ne name item with rfl | hname
  · exact absurd hf (hitem content)
  · exact (h name content hf).imp_left fun hin => List.mem_of_ne_of_mem hname hin

/-- What is removed is not in the library, once something has been copied there. -/
theorem CopiedBut.erase {files : Folders} {key : ℕ × String} (h : CopiedBut c fs [] files)
    (hkey : key.1 ∈ c.album :: c.below) : CopiedBut c fs [] (files.erase key) := by
  intro n content hf
  obtain ⟨hne, hin⟩ := (h n content hf).resolve_left List.not_mem_nil
  refine .inr ⟨hne, ?_⟩
  have hother : (c.library, n) ≠ key := by
    rintro rfl
    rcases List.mem_cons.mp hkey with heq | hbelow
    · exact hne heq.symm
    · exact c.library_notMem hbelow
  rw [AList.lookup_erase_ne hother]
  exact hin

theorem safe_begin (c : ImportConfig) (fs : Folders) : Safe c fs (begin c fs) := by
  have hkept : AlbumKept c fs fs := fun _ _ _ => Iff.rfl
  unfold begin Safe
  split
  · exact hkept
  · exact hkept

/-- The item that is left out is no finished file. -/
theorem step_skip (hs : step c s .skip = some s') : ∃ item todo, s.phase = .copying (item :: todo) ∧
    s' = { s with phase := .copying todo } ∧
    (notCopied item = true ∨ ∀ content, s.files.lookup (c.album, item) ≠ some (.file content)) := by
  simp only [step] at hs
  split at hs
  · next item todo hphase =>
    refine ⟨item, todo, hphase, ?_⟩
    split at hs
    · obtain ⟨hnot, hs⟩ := Option.ite_none_right_eq_some.mp hs
      exact ⟨(Option.some.inj hs).symm, .inl hnot⟩
    · next hnofile =>
      exact ⟨(Option.some.inj hs).symm, .inr hnofile⟩
  · cases hs

theorem step_openFiles {ok : Bool} (hs : step c s (.openFiles ok) = some s') :
    ∃ item todo content, s.phase = .copying (item :: todo) ∧ notCopied item = false ∧
      s.files.lookup (c.album, item) = some (.file content) ∧
      (s' = { s with phase := .returned false } ∨ c.album ≠ c.library ∧
        s' = ⟨s.files.insert (c.library, item) (.file ""), .writing item todo⟩) := by
  simp only [step] at hs
  split at hs
  · next item todo hphase =>
    split at hs
    · next content hfile =>
      obtain ⟨hnot, hs⟩ := Option.ite_none_left_eq_some.mp hs
      refine ⟨item, todo, content, hphase, Bool.not_eq_true _ ▸ hnot, hfile, ?_⟩
      split at hs
      · exact .inl (Option.some.inj hs).symm
      · next hother =>
        exact .inr ⟨fun heq => hother (.inl heq), (Option.some.inj hs).symm⟩
    · cases hs
  · cases hs

theorem step_closeFiles {ok : Bool} (hs : step c s (.closeFiles ok) = some s') :
    ∃ item todo, s.phase = .writing item todo ∧
      (s' = { s with phase := .returned false } ∨
        ∃ node, s.files.lookup (c.album, item) = some node ∧
          s' = ⟨s.files.insert (c.library, item) node, .copying todo⟩) := by
  simp only [step] at hs
  split at hs
  · next item todo hphase =>
    refine ⟨item, todo, hphase, ?_⟩
    split at hs
    · obtain ⟨node, hnode, rfl⟩ := Option.map_eq_some_iff.mp hs
      exact .inr ⟨node, hnode, rfl⟩
    · exact .inl (Option.some.inj hs).symm
  · cases hs

theorem step_mkdir {key : ℕ × String} (hs : step c s (.mkdir key) = some s') :
    s.phase = .making ∧ s' = { s with files := mkdir key s.files } := by
  simp only [step] at hs
  split at hs
  · next hphase =>
    obtain ⟨-, hs⟩ := Option.ite_none_right_eq_some.mp hs
    exact ⟨hphase, (Option.some.inj hs).symm⟩
  · cases hs

theorem step_artistImage (hs : step c s (.artistImage name content) = some s') :
    ∃ copySucceeded, s.phase = .returned copySucceeded ∧ name ∈ c.images ∧
      s' = ⟨s.files.insert (c.imageFolder copySucceeded, name) (.file content), s.phase⟩ := by
  simp only [step] at hs
  split at hs
  · next copySucceeded hphase =>
    obtain ⟨⟨hname, -⟩, hs⟩ := Option.ite_none_right_eq_some.mp hs
    exact ⟨copySucceeded, hphase, hname, (Option.some.inj hs).symm⟩
  · cases hs

theorem step_remove {key : ℕ × String} (hs : step c s (.remove key) = some s') :
    s.phase = .removing ∧ key.1 ∈ c.album :: c.below ∧
      s' = { s with files := s.files.erase key } := by
  simp only [step] at hs
  split at hs
  · next hphase =>
    obtain ⟨hkey, hs⟩ := Option.ite_none_right_eq_some.mp hs
    exact ⟨hphase, hkey, (Option.some.inj hs).symm⟩
  · cases hs

theorem step_rmdirAlbum (hs : step c s .rmdirAlbum = some s') :
    s.phase = .removing ∧ s' = { s with files := rmdir (c.artist, c.albumName) s.files } := by
  simp only [step] at hs
  split at hs
  · next hphase =>
    obtain ⟨-, hs⟩ := Option.ite_none_right_eq_some.mp hs
    exact ⟨hphase, (Option.some.inj hs).symm⟩
  · cases hs

theorem step_rmdirArtist (hs : step c s .rmdirArtist = some s') :
    s.phase = .removing ∧ s'.phase = .ended ∧
      (s'.files = s.files ∨ s'.files = rmdir c.artistEntry s.files) := by
  simp only [step] at hs
  split at hs
  · next hphase =>
    refine ⟨hphase, ?_⟩
    split at hs
    · obtain rfl := Option.some.inj hs
      exact ⟨rfl, .inr rfl⟩
    · obtain rfl := Option.some.inj hs
      exact ⟨rfl, .inl rfl⟩
  · cases hs

/-- One operation keeps the import on the safe side. -/
theorem Safe.step (h : Safe c fs s) (hs : step c s l = some s') : Safe c fs s' := by
  obtain ⟨files, phase⟩ := s
  cases l with
  | mkdir key =>
    obtain ⟨rfl, rfl⟩ := step_mkdir hs
    exact AlbumKept.trans h fun key' _ => sameFile_mkdir key files key'
  | makedirs ok =>
    cases phase with
    | making =>
      cases hs
      cases ok with
      | false => exact h
      | true =>
        refine ⟨h, fun name content hf => .inl ?_⟩
        exact mem_listdir ((AlbumKept.lookup h name content).mpr hf.2)
    | _ => cases hs
  | skip =>
    obtain ⟨item, todo, rfl, rfl, hitem⟩ := step_skip hs
    refine ⟨h.1, h.2.skip fun content hf => ?_⟩
    rcases hitem with hnot | hnofile
    · exact Bool.false_ne_true (hf.1.symm.trans hnot)
    · exact hnofile content ((h.1.lookup item content).mpr hf.2)
  | openFiles ok =>
    obtain ⟨item, todo, content, rfl, hnot, hfile, rfl | ⟨hne, rfl⟩⟩ := step_openFiles hs
    · exact h.1
    · exact ⟨hne, h.1.insert (library_notMem_album hne), h.2.insert List.mem_cons_self, content,
        hnot, (h.1.lookup item content).mp hfile⟩
  | write part =>
    cases phase with
    | writing item todo =>
      cases hs
      obtain ⟨hne, hkept, hcopied, hitem⟩ := h
      exact ⟨hne, hkept.insert (library_notMem_album hne), hcopied.insert List.mem_cons_self,
        hitem⟩
    | _ => cases hs
  | closeFiles ok =>
    obtain ⟨item, todo, rfl, rfl | ⟨node, hnode, rfl⟩⟩ := step_closeFiles hs
    · exact h.2.1
    · obtain ⟨hne, hkept, hcopied, content, hitem⟩ := h
      have hwhole := (hkept.lookup item content).mpr hitem.2
      obtain rfl := Option.some.inj (hnode.symm.trans hwhole)
      exact ⟨hkept.insert (library_notMem_album hne), hcopied.copied hne hitem⟩
  | setPermissions ok =>
    cases phase with
    | copying todo =>
      cases todo with
      | nil =>
        cases hs
        cases ok with
        | false => exact h.1
        | true => exact h.2
      | cons item todo => cases hs
    | _ => cases hs
  | artistImage name content =>
    obtain ⟨copySucceeded, rfl, -, rfl⟩ := step_artistImage hs
    cases copySucceeded with
    | false => exact @AlbumKept.insert c fs files (c.artist, name) _ h c.artist_notMem
    | true =>
      refine CopiedBut.trans h fun n => sameFile_insert files _ fun heq => ?_
      exact c.libraryArtist_ne (Prod.mk.inj heq).1.symm
  | cleanup =>
    cases phase with
    | returned ok =>
      cases hs
      cases ok with
      | false => exact .inl h
      | true => exact h
    | _ => cases hs
  | remove key =>
    obtain ⟨rfl, hkey, rfl⟩ := step_remove hs
    exact CopiedBut.erase h hkey
  | rmdirAlbum =>
    obtain ⟨rfl, rfl⟩ := step_rmdirAlbum hs
    exact CopiedBut.trans h fun n => sameFile_rmdir _ files _
  | rmdirArtist =>
    obtain ⟨rfl, hphase, heq⟩ := step_rmdirArtist hs
    have hcopied : CopiedBut c fs [] s'.files := by
      rcases heq with heq | heq
      · exact heq ▸ h
      · exact heq ▸ CopiedBut.trans h fun n => sameFile_rmdir _ files _
    rw [Safe, hphase]
    exact .inr hcopied
  | leave =>
    cases phase with
    | returned ok =>
      cases hs
      cases ok with
      | false => exact .inl h
      | true => exact .inr h
    | removing =>
      cases hs
      exact .inr h
    | _ => cases hs

/-- Where the finished files are, whatever the phase. -/
theorem Safe.kept_or_copied (h : Safe c fs s) :
    AlbumKept c fs s.files ∨ CopiedBut c fs [] s.files := by
  obtain ⟨files, phase⟩ := s
  cases phase with
  | making => exact .inl h
  | copying todo => exact .inl h.1
  | writing item todo => exact .inl h.2.1
  | returned copySucceeded =>
    cases copySucceeded with
    | false => exact .inl h
    | true => exact .inr h
  | removing => exact .inr h
  | ended => exact h

/-- **At every moment each finished file is whole in the album folder or in the library**,
whichever operations fail and wherever the process ends. -/
theorem noTrackLost (hrun : runSteps (step c) (begin c fs) ls = some s)
    (hfinished : Finished c fs name content) :
    s.files.lookup (c.album, name) = some (.file content) ∨
      s.files.lookup (c.library, name) = some (.file content) := by
  have h : Safe c fs s := invariant_of_runSteps (fun _ _ _ => Safe.step) (safe_begin c fs) hrun
  rcases h.kept_or_copied with hkept | hcopied
  · exact .inl ((hkept.lookup name content).mpr hfinished.2)
  · exact .inr ((hcopied name content hfinished).resolve_left List.not_mem_nil).2

/-- One finished track and the rest of a download. -/
def oneTrack : Folders :=
  [(⟨(0, "01 - A.mp3"), .file "abc"⟩ : Sigma fun _ : ℕ × String => Node),
    ⟨(0, "temp_02_f.part"), .file "ab"⟩, ⟨(1, "01 - A.mp3"), .file "old"⟩,
    ⟨(2, "Album (2020)"), .dir⟩, ⟨(3, "Album (2020)"), .dir⟩, ⟨(4, "Artist"), .dir⟩].toAList

/-- The album folder is 0 and that of the library 1, in the artist's folders 2 and 3. -/
def otherLibrary : ImportConfig where
  album := 0
  below := []
  artist := 2
  albumName := "Album (2020)"
  artistEntry := (4, "Artist")
  library := 1
  libraryArtist := 3
  libraryEntries := [(5, "Artist"), (3, "Album (2020)")]
  images := ["folder.jpg"]
  lidarrPath := true
  samePath := false
  artist_notMem := by decide
  libraryArtist_ne := by decide
  library_notMem := by decide

/-- The track is copied, and the folders are about to go. -/
def copyAndClean : List ImportLabel :=
  [.mkdir (5, "Artist"), .makedirs true, .openFiles true, .write "a", .closeFiles true, .skip,
    .setPermissions true, .artistImage "folder.jpg" "poster", .cleanup, .remove (0, "01 - A.mp3"),
    .remove (0, "temp_02_f.part"), .rmdirAlbum, .rmdirArtist]

theorem noTrackLost_oneTrack :
    ∃ s, runSteps (step otherLibrary) (begin otherLibrary oneTrack) copyAndClean = some s ∧
      Finished otherLibrary oneTrack "01 - A.mp3" "abc" ∧
      (s.files.lookup (0, "01 - A.mp3") = some (.file "abc") ∨
        s.files.lookup (1, "01 - A.mp3") = some (.file "abc")) :=
  ⟨_, rfl, by decide, @noTrackLost otherLibrary oneTrack _ copyAndClean _ _ rfl (by decide)⟩

/-! ### The other files -/

/-- A file that the import may write to outside the album folder: one of the library with the
name of a finished file, or an image in the artist's folder. -/
def MayChange (c : ImportConfig) (fs : Folders) (key : ℕ × String) : Prop :=
  (key.1 = c.library ∧ ∃ content, Finished c fs key.2 content) ∨
    ((key.1 = c.artist ∨ key.1 = c.libraryArtist) ∧ key.2 ∈ c.images)

/-- The other files outside the album folder are as they were. -/
def RestKept (c : ImportConfig) (fs files : Folders) : Prop :=
  ∀ key : ℕ × String, key.1 ∉ c.album :: c.below → ¬MayChange c fs key → SameFile fs files key

/-- What an operation does to the files. -/
theorem files_of_step (h : Safe c fs s) (hs : step c s l = some s') :
    (∀ key, SameFile s.files s'.files key) ∨
      (∃ key node, MayChange c fs key ∧ s'.files = s.files.insert key node) ∨
      ∃ key : ℕ × String, key.1 ∈ c.album :: c.below ∧ s'.files = s.files.erase key := by
  obtain ⟨files, phase⟩ := s
  have hsame : ∀ key, SameFile files files key := fun _ _ => Iff.rfl
  cases l with
  | mkdir key =>
    obtain ⟨-, rfl⟩ := step_mkdir hs
    exact .inl (sameFile_mkdir key files)
  | skip =>
    obtain ⟨item, todo, -, rfl, -⟩ := step_skip hs
    exact .inl hsame
  | openFiles ok =>
    obtain ⟨item, todo, content, rfl, hnot, hfile, rfl | ⟨-, rfl⟩⟩ := step_openFiles hs
    · exact .inl hsame
    · have hitem : Finished c fs item content := ⟨hnot, (h.1.lookup item content).mp hfile⟩
      exact .inr (.inl ⟨_, _, .inl ⟨rfl, content, hitem⟩, rfl⟩)
  | write part =>
    cases phase with
    | writing item todo =>
      cases hs
      exact .inr (.inl ⟨_, _, .inl ⟨rfl, h.2.2.2⟩, rfl⟩)
    | _ => cases hs
  | closeFiles ok =>
    obtain ⟨item, todo, rfl, rfl | ⟨node, -, rfl⟩⟩ := step_closeFiles hs
    · exact .inl hsame
    · exact .inr (.inl ⟨_, _, .inl ⟨rfl, h.2.2.2⟩, rfl⟩)
  | setPermissions ok =>
    cases phase with
    | copying todo =>
      cases todo with
      | nil =>
        cases hs
        exact .inl hsame
      | cons item todo => cases hs
    | _ => cases hs
  | artistImage name content =>
    obtain ⟨copySucceeded, -, hname, rfl⟩ := step_artistImage hs
    refine .inr (.inl ⟨_, _, .inr ⟨?_, hname⟩, rfl⟩)
    cases copySucceeded with
    | false => exact .inl rfl
    | true => exact .inr rfl
  | remove key =>
    obtain ⟨-, hkey, rfl⟩ := step_remove hs
    exact .inr (.inr ⟨key, hkey, rfl⟩)
  | rmdirAlbum =>
    obtain ⟨-, rfl⟩ := step_rmdirAlbum hs
    exact .inl (sameFile_rmdir _ files)
  | rmdirArtist =>
    obtain ⟨-, -, heq | heq⟩ := step_rmdirArtist hs
    · rw [heq]
      exact .inl hsame
    · rw [heq]
      exact .inl (sameFile_rmdir _ files)
  | makedirs ok | cleanup | leave =>
    left
    cases phase <;> cases hs <;> exact hsame

theorem RestKept.step (h : RestKept c fs s.files) (hsafe : Safe c fs s)
    (hs : step c s l = some s') : RestKept c fs s'.files := by
  intro key houtside hother
  have hkept := h key houtside hother
  rcases files_of_step hsafe hs with hsame | ⟨key', node, hmay, heq⟩ | ⟨key', hin, heq⟩
  · exact hkept.trans (hsame key)
  · rw [heq]
    exact hkept.trans (sameFile_insert s.files node fun hkey => hother (hkey ▸ hmay))
  · rw [heq]
    exact hkept.trans (sameFile_erase s.files fun hkey => houtside (hkey ▸ hin))

/-- **No other file is touched but the artist's image, and the album folder not before every
finished file is in the library.** -/
theorem leavesTheRest (hrun : runSteps (step c) (begin c fs) ls = some s) :
    (∀ key : ℕ × String, key.1 ∉ c.album :: c.below →
      ¬SameFile fs s.files key → MayChange c fs key) ∧
      ∀ key : ℕ × String, key.1 ∈ c.album :: c.below → ¬SameFile fs s.files key →
        ∀ n content, Finished c fs n content →
          s.files.lookup (c.library, n) = some (.file content) := by
  have h : Safe c fs s ∧ RestKept c fs s.files := by
    refine invariant_of_runSteps (I := fun t => Safe c fs t ∧ RestKept c fs t.files) ?_
      ⟨safe_begin c fs, fun _ _ _ _ => Iff.rfl⟩ hrun
    rintro t l t' ⟨hsafe, hrest⟩ hs
    exact ⟨hsafe.step hs, hrest.step hsafe hs⟩
  refine ⟨fun key houtside hchanged => ?_, fun key hin hchanged n content hf => ?_⟩
  · by_contra hother
    exact hchanged (h.2 key houtside hother)
  · rcases h.1.kept_or_copied with hkept | hcopied
    · exact absurd (hkept key hin) hchanged
    · exact ((hcopied n content hf).resolve_left List.not_mem_nil).2

theorem leavesTheRest_oneTrack :
    ∃ s, runSteps (step otherLibrary) (begin otherLibrary oneTrack) copyAndClean = some s ∧
      s.files.lookup (0, "01 - A.mp3") = none ∧ s.files.lookup (4, "Artist") = none ∧
      s.files.lookup (3, "folder.jpg") = some (.file "poster") ∧
      ∀ n content, Finished otherLibrary oneTrack n content →
        s.files.lookup (1, n) = some (.file content) := by
  refine ⟨_, rfl, by decide, by decide, by decide, ?_⟩
  refine (@leavesTheRest otherLibrary oneTrack _ copyAndClean rfl).2 (0, "01 - A.mp3")
    (by decide) fun hsame => ?_
  exact absurd ((hsame "abc").mpr (by decide)) (by decide)

end ImportState

end LidarrYtdl
end MediaHub

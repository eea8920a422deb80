import MediaHub.Subgen.SrtText
import Mathlib.Algebra.Order.BigOperators.Group.List
import Mathlib.Algebra.Order.Ring.Nat

/-!
# Cues and their text

A subtitle file is a list of cues with blank lines in between.  An empty line behind the lines
of a cue ends its block; a second one is the first line of the next block, and then the time
line of the next cue is its third line, which is taken for text.

## Main definitions

* `Cue`, `Rendering` — the cues of a file, and the blank lines around them.
* `closes` — whether blank lines end with the end of a block.
* `Rendering.Clean` — each index line has an odd number of empty lines before it, and no text
  has a tag across its lines.

## Main results

* `divide_gap` — what the blank lines between two cues do to the blocks.
* `extractText_eq_iff` — **the transcript is the text of the cues exactly if the file is
  clean.**
-/

namespace MediaHub
namespace SrtText

open Re

/-! ### Renderings -/

/-- The characters of one line. -/
def IsLine (l : Text) : Prop := '\n' ∉ l ∧ '\r' ∉ l

def Blank (l : Text) : Prop := ∀ c ∈ l, isspace c = true

instance (l : Text) : Decidable (IsLine l) := inferInstanceAs (Decidable (_ ∧ _))

instance (l : Text) : Decidable (Blank l) := List.decidableBAll _ l

theorem blank_nil : Blank [] := by
  intro c hc
  cases hc

/-- A cue: its index line, its time line, and its text. -/
structure Cue where
  index : Text
  time : Text
  texts : List Text
  lines : ∀ l ∈ index :: time :: texts, IsLine l ∧ ¬ Blank l ∧ '\u007b' ∉ l
  heading : '<' ∉ index ∧ '<' ∉ time
  texts_ne : texts ≠ []
  /-- There is no tag in a line of the text. -/
  untagged : ∀ l ∈ texts, ¬ Tagged l

/-- A cue with the blank lines before it. -/
structure Piece where
  gap : List Text
  cue : Cue
  blank : ∀ l ∈ gap, IsLine l ∧ Blank l

/-- A file: cues with blank lines between them, and maybe before and behind them. -/
structure Rendering where
  pieces : List Piece
  after : List Text
  gaps : ∀ p ∈ pieces.tail, p.gap ≠ []
  blank : ∀ l ∈ after, IsLine l ∧ Blank l

def Cue.lineList (c : Cue) : List Text := c.index :: c.time :: c.texts

/-- The lines of some cues and the blank lines before them. -/
def linesOf (pieces : List Piece) : List Text :=
  pieces.flatMap fun p => p.gap ++ p.cue.lineList

/-- What is in the file. -/
def Rendering.text (r : Rendering) : Text := joinLines '\n' (linesOf r.pieces ++ r.after)

/-- The text of a cue, with its white space collapsed. -/
def Cue.said (c : Cue) : Text := collapse isspace ' ' (joinLines ' ' c.texts)

/-- The texts of the cues. -/
def Rendering.transcript (r : Rendering) : Text :=
  joinLines ' ' (r.pieces.map fun p => p.cue.said)

/-- The words of the cues. -/
def Rendering.words (r : Rendering) : List Text :=
  r.pieces.flatMap fun p => p.cue.texts.flatMap (MediaHub.words isspace)

/-- How many empty lines there are at the end of some lines. -/
def emptiesBefore (gap : List Text) : ℕ := (gap.reverse.takeWhile List.isEmpty).length

/-- Every index line but the first has an odd number of empty lines before it, and no text of
a cue has a tag across its lines. -/
def Rendering.Clean (r : Rendering) : Prop :=
  (∀ p ∈ r.pieces.tail, emptiesBefore p.gap % 2 = 1) ∧
    ∀ p ∈ r.pieces, ¬ Tagged (joinLines ' ' p.cue.texts)

/-! ### The lines between two cues -/

/-- The blank lines end with the end of a block, where a block was open before them. -/
def closes : List Text → Bool
  | [] => false
  | [l] => l.isEmpty
  | l :: l' :: gap => if l = [] then closes gap else closes (l' :: gap)

theorem emptiesBefore_le (gap : List Text) : emptiesBefore gap ≤ gap.length := by
  have hlength := (List.takeWhile_sublist List.isEmpty (l := gap.reverse)).length_le
  rwa [List.length_reverse] at hlength

theorem emptiesBefore_cons (l : Text) (gap : List Text) :
    emptiesBefore (l :: gap) =
      if emptiesBefore gap = gap.length ∧ l = [] then gap.length + 1 else emptiesBefore gap := by
  unfold emptiesBefore
  rw [List.reverse_cons, List.takeWhile_append, List.length_reverse]
  by_cases hall : (gap.reverse.takeWhile List.isEmpty).length = gap.length
  · rw [if_pos hall, List.length_append, List.length_reverse]
    cases l <;> simp [hall]
  · rw [if_neg hall, if_neg (fun h => hall h.1)]

/-- They do so exactly if the number of empty lines at their end is odd. -/
theorem closes_iff (gap : List Text) : closes gap = true ↔ emptiesBefore gap % 2 = 1 := by
  fun_induction closes gap with
  | case1 => simp [emptiesBefore]
  | case2 l => cases l <;> simp [emptiesBefore]
  | case3 l' gap ih =>
    -- two lines more at the start change the number by two, or not at all
    have hle := emptiesBefore_le gap
    rw [ih, emptiesBefore_cons, emptiesBefore_cons, List.length_cons]
    by_cases hall : emptiesBefore gap = gap.length ∧ l' = []
    · rw [if_pos hall, if_pos ⟨rfl, rfl⟩, hall.1]
      omega
    · rw [if_neg hall, if_neg]
      omega
  | case4 l l' gap hl ih => rw [ih, emptiesBefore_cons l, if_neg (fun h => hl h.2)]

/-- **What blank lines do to the blocks.**  They add some lines to the open block, and make
blocks of their own; the next line is the first of a block exactly if the last of them ends
one. -/
theorem divide_gap {gap : List Text} (hgap : ∀ l ∈ gap, Blank l) (cur : List Text) {l : Text}
    (hl : l ≠ []) (ls : List Text) :
    ∃ ws, (∀ w ∈ ws, Blank w) ∧
      ((closes gap = false ∧ divide cur (gap ++ l :: ls) = divide (cur ++ ws ++ [l]) ls) ∨
      ∃ junk b, (∀ x ∈ junk, ∀ w ∈ x, Blank w) ∧ (∀ w ∈ b, Blank w) ∧
        (b = [] ↔ closes gap = true) ∧
        divide cur (gap ++ l :: ls) = (cur ++ ws) :: (junk ++ divide (b ++ [l]) ls)) := by
  fun_induction closes gap generalizing cur with
  | case1 =>
    refine ⟨[], by simp, Or.inl ⟨rfl, ?_⟩⟩
    rw [List.nil_append, divide_cons _ hl, List.append_nil]
  | case2 g =>
    rcases eq_or_ne g [] with rfl | hg
    · refine ⟨[], by simp, Or.inr ⟨[], [], by simp, by simp, by simp, ?_⟩⟩
      simp [divide]
    · refine ⟨[g], hgap, Or.inl ⟨by simpa using hg, ?_⟩⟩
      rw [List.singleton_append, divide_cons _ hg, divide_cons _ hl]
  | case3 l' gap ih =>
    -- an empty line ends the block, and the line behind it is the first of the next
    obtain ⟨ws, hws, h⟩ := ih (fun w hw => hgap w (by simp [hw])) [l']
    have hblock : ∀ w ∈ l' :: ws, Blank w := List.forall_mem_cons.mpr ⟨hgap l' (by simp), hws⟩
    have hstep : divide cur ([] :: l' :: gap ++ l :: ls) = cur :: divide [l'] (gap ++ l :: ls) := by
      rw [List.cons_append, List.cons_append, divide]
    refine ⟨[], by simp, Or.inr ?_⟩
    rw [hstep, List.append_nil]
    rcases h with ⟨hopen, hdivide⟩ | ⟨junk, b, hjunk, hb, hcloses, hdivide⟩
    · exact ⟨[], l' :: ws, by simp, hblock, by simp [hopen], by rw [hdivide]; simp⟩
    · exact ⟨(l' :: ws) :: junk, b, List.forall_mem_cons.mpr ⟨hblock, hjunk⟩, hb, hcloses,
        by rw [hdivide]; simp⟩
  | case4 g l' gap hg ih =>
    -- a line of spaces is read into the block
    obtain ⟨hblank, hrest⟩ := List.forall_mem_cons.mp hgap
    obtain ⟨ws, hws, h⟩ := ih hrest (cur ++ [g])
    refine ⟨g :: ws, List.forall_mem_cons.mpr ⟨hblank, hws⟩, ?_⟩
    rw [List.cons_append, divide_cons _ hg]
    simpa using h

theorem Cue.ne_nil_of_mem (c : Cue) {l : Text} (h : l ∈ c.lineList) : l ≠ [] := by
  rintro rfl
  exact (c.lines [] h).2.1 blank_nil

/-- A cue behind blank lines: its lines are read into the block that they leave. -/
theorem divide_piece (p : Piece) (cur rest : List Text) :
    ∃ ws, (∀ w ∈ ws, Blank w) ∧
      ((closes p.gap = false ∧
        divide cur (p.gap ++ p.cue.lineList ++ rest) =
          divide (cur ++ ws ++ p.cue.lineList) rest) ∨
      ∃ junk b, (∀ x ∈ junk, ∀ w ∈ x, Blank w) ∧ (∀ w ∈ b, Blank w) ∧
        (b = [] ↔ closes p.gap = true) ∧
        divide cur (p.gap ++ p.cue.lineList ++ rest) =
          (cur ++ ws) :: (junk ++ divide (b ++ p.cue.lineList) rest)) := by
  have hread : ∀ b : List Text, divide (b ++ [p.cue.index]) (p.cue.time :: p.cue.texts ++ rest)
      = divide (b ++ p.cue.lineList) rest := by
    intro b
    rw [divide_append _ fun l hl => p.cue.ne_nil_of_mem (List.mem_cons_of_mem _ hl),
      List.append_assoc]
    rfl
  obtain ⟨ws, hws, h⟩ := divide_gap (fun l hl => (p.blank l hl).2) cur
    (p.cue.ne_nil_of_mem List.mem_cons_self) (p.cue.time :: p.cue.texts ++ rest)
  refine ⟨ws, hws, ?_⟩
  have hlines : p.gap ++ p.cue.lineList ++ rest
      = p.gap ++ p.cue.index :: (p.cue.time :: p.cue.texts ++ rest) := by
    simp [Cue.lineList]
  rw [hlines]
  rcases h with ⟨hopen, hdivide⟩ | ⟨junk, b, hjunk, hb, hcloses, hdivide⟩
  · exact Or.inl ⟨hopen, by rw [hdivide, hread]⟩
  · exact Or.inr ⟨junk, b, hjunk, hb, hcloses, by rw [hdivide, hread]⟩

/-! ### What is taken for text -/

/-- White space does not count. -/
theorem countP_of_blank {q : Char → Bool} (hq : ∀ c, isspace c = true → q c = false)
    {ls : List Text} (h : ∀ l ∈ ls, Blank l) : ls.flatten.countP q = 0 := by
  rw [List.countP_eq_zero]
  intro c hc
  obtain ⟨l, hl, hcl⟩ := List.mem_flatten.mp hc
  simp [hq c (h l hl c hcl)]

/-- What is taken for text of a block that blank lines and then a cue begin. -/
theorem exists_own (c : Cue) {b : List Text} (hb : ∀ l ∈ b, Blank l) :
    ∃ own : List Text, (own = [] ↔ b = []) ∧ (∀ l ∈ own, l = c.index ∨ l = c.time) ∧
      ∀ q : Char → Bool, (∀ c, isspace c = true → q c = false) →
        ((b ++ c.lineList).drop 2).flatten.countP q =
          c.texts.flatten.countP q + own.flatten.countP q := by
  match b with
  | [] => exact ⟨[], by simp, by simp, fun q _ => by simp [Cue.lineList]⟩
  | [l] =>
    refine ⟨[c.time], by simp, by simp, fun q _ => ?_⟩
    simp [Cue.lineList]
    omega
  | l :: l' :: b =>
    refine ⟨[c.index, c.time], by simp, by simp, fun q hq => ?_⟩
    have hrest : ∀ l ∈ b, Blank l := fun l hl => hb l (by simp [hl])
    simp [Cue.lineList, countP_of_blank hq hrest]
    omega

/-- **What is taken for text**: the texts of the cues, and maybe other lines of theirs, of which
there are none exactly if all blank lines end with the end of a block. -/
theorem exists_leaked (ps : List Piece) {cur : List Text} (hcur : 2 ≤ cur.length) :
    ∃ leaked : List Text, (leaked = [] ↔ ∀ p ∈ ps, closes p.gap = true) ∧
      (∀ l ∈ leaked, ¬ Blank l ∧ '<' ∉ l) ∧
      ∀ q : Char → Bool, (∀ c, isspace c = true → q c = false) →
        ((divide cur (linesOf ps)).flatMap (List.drop 2)).flatten.countP q =
          (cur.drop 2).flatten.countP q + (ps.flatMap fun p => p.cue.texts).flatten.countP q +
            leaked.flatten.countP q := by
  induction ps generalizing cur with
  | nil => exact ⟨[], by simp, by simp, fun q _ => by simp [linesOf, divide]⟩
  | cons p ps ih =>
    have hindex := p.cue.lines p.cue.index (by simp)
    have htime := p.cue.lines p.cue.time (by simp)
    have hheading : ∀ l, l = p.cue.index ∨ l = p.cue.time → ¬ Blank l ∧ '<' ∉ l := by
      rintro l (rfl | rfl)
      · exact ⟨hindex.2.1, p.cue.heading.1⟩
      · exact ⟨htime.2.1, p.cue.heading.2⟩
    obtain ⟨ws, hws, ⟨hopen, hdivide⟩ | ⟨junk, b, hjunk, hb, hcloses, hdivide⟩⟩ :=
      divide_piece p cur (linesOf ps)
    · -- the cue is read into the open block
      obtain ⟨leaked, -, hlines, hcount⟩ :=
        @ih (cur ++ ws ++ p.cue.lineList) (by simp [Cue.lineList]; omega)
      refine ⟨p.cue.index :: p.cue.time :: leaked, by simp [hopen], ?_, fun q hq => ?_⟩
      · intro l hl
        rcases List.mem_cons.mp hl with rfl | hl
        · exact hheading _ (Or.inl rfl)
        rcases List.mem_cons.mp hl with rfl | hl
        · exact hheading _ (Or.inr rfl)
        · exact hlines l hl
      · have hblank := countP_of_blank hq hws
        have hdrop : (cur ++ ws ++ p.cue.lineList).drop 2
            = cur.drop 2 ++ (ws ++ p.cue.lineList) := by
          rw [List.append_assoc, List.drop_append_of_le_length hcur]
        show ((divide cur (p.gap ++ p.cue.lineList ++ linesOf ps)).flatMap _).flatten.countP q = _
        rw [hdivide, hcount q hq, hdrop]
        simp [Cue.lineList, hblank]
        omega
    · -- the cue is in a block of its own, behind what is left of the blank lines
      obtain ⟨own, hown, hownlines, howncount⟩ := exists_own p.cue hb
      obtain ⟨leaked, hnil, hlines, hcount⟩ :=
        @ih (b ++ p.cue.lineList) (by simp [Cue.lineList]; omega)
      refine ⟨own ++ leaked, ?_, ?_, fun q hq => ?_⟩
      · rw [List.append_eq_nil_iff, hown, hcloses, hnil, List.forall_mem_cons]
      · intro l hl
        rcases List.mem_append.mp hl with hl | hl
        · exact hheading l (hownlines l hl)
        · exact hlines l hl
      · have hblank := countP_of_blank hq hws
        have hjunkcount : (junk.flatMap (List.drop 2)).flatten.countP q = 0 := by
          apply countP_of_blank hq
          intro l hl
          obtain ⟨x, hx, hlx⟩ := List.mem_flatMap.mp hl
          exact hjunk x hx l (List.mem_of_mem_drop hlx)
        show ((divide cur (p.gap ++ p.cue.lineList ++ linesOf ps)).flatMap _).flatten.countP q = _
        rw [hdivide, List.flatMap_cons, List.flatMap_append, List.drop_append_of_le_length hcur]
        simp only [List.flatten_append, List.countP_append, List.flatMap_cons, hblank, hjunkcount,
          hcount q hq, howncount q hq]
        omega

/-- The text of a cue is behind the first two lines of a block, whatever is before it. -/
theorem Cue.texts_isInfix (c : Cue) (b : List Text) : c.texts <:+: (b ++ c.lineList).drop 2 := by
  match b with
  | [] => exact List.infix_rfl
  | [_] => exact (List.suffix_cons _ _).isInfix
  | _ :: _ :: b =>
    exact (((List.suffix_cons _ _).trans (List.suffix_cons _ _)).trans
      (List.suffix_append b _)).isInfix

/-- The text of a cue stays together. -/
theorem exists_block_within (ps : List Piece) {cur : List Text} (hcur : 2 ≤ cur.length) :
    (∃ block ∈ divide cur (linesOf ps), cur.drop 2 <:+: block.drop 2) ∧
      ∀ p ∈ ps, ∃ block ∈ divide cur (linesOf ps), p.cue.texts <:+: block.drop 2 := by
  induction ps generalizing cur with
  | nil => exact ⟨⟨cur, by simp [linesOf, divide], List.infix_rfl⟩, by simp⟩
  | cons p ps ih =>
    show (∃ block ∈ divide cur (p.gap ++ p.cue.lineList ++ linesOf ps), _) ∧
      ∀ p' ∈ p :: ps, ∃ block ∈ divide cur (p.gap ++ p.cue.lineList ++ linesOf ps), _
    obtain ⟨ws, -, ⟨-, hdivide⟩ | ⟨junk, b, -, -, -, hdivide⟩⟩ := divide_piece p cur (linesOf ps)
    · -- the cue is read into the open block, which holds both then
      obtain ⟨⟨block, hblock, hopen⟩, hrest⟩ :=
        @ih (cur ++ ws ++ p.cue.lineList) (by simp [Cue.lineList]; omega)
      rw [hdivide]
      have hcurdrop : cur.drop 2 <:+: (cur ++ ws ++ p.cue.lineList).drop 2 := by
        rw [List.append_assoc, List.drop_append_of_le_length hcur]
        exact (List.prefix_append _ _).isInfix
      refine ⟨⟨block, hblock, hcurdrop.trans hopen⟩, List.forall_mem_cons.mpr ⟨?_, hrest⟩⟩
      exact ⟨block, hblock, (p.cue.texts_isInfix (cur ++ ws)).trans hopen⟩
    · -- the open block ends, and the cue is in a later one
      obtain ⟨⟨block, hblock, hopen⟩, hrest⟩ :=
        @ih (b ++ p.cue.lineList) (by simp [Cue.lineList]; omega)
      have hmem : ∀ {x : List Text}, x ∈ divide (b ++ p.cue.lineList) (linesOf ps) →
          x ∈ (cur ++ ws) :: (junk ++ divide (b ++ p.cue.lineList) (linesOf ps)) := fun hx =>
        List.mem_cons_of_mem _ (List.mem_append_right _ hx)
      rw [hdivide]
      refine ⟨⟨cur ++ ws, List.mem_cons_self, ?_⟩, List.forall_mem_cons.mpr ⟨?_, ?_⟩⟩
      · rw [List.drop_append_of_le_length hcur]
        exact (List.prefix_append _ _).isInfix
      · exact ⟨block, hmem hblock, (p.cue.texts_isInfix b).trans hopen⟩
      · intro p' hp'
        obtain ⟨block, hblock, hwithin⟩ := hrest p' hp'
        exact ⟨block, hmem hblock, hwithin⟩

/-! ### The transcript of a clean file -/

/-- What is read of the text of a cue: lines with something to say, without tags. -/
structure Says (ls : List Text) : Prop where
  not_tagged : ¬ Tagged (joinLines ' ' ls)
  braces : ∀ l ∈ ls, '\u007b' ∉ l
  not_blank : ∃ l ∈ ls, ¬ Blank l

theorem words_eq_nil_iff {ls : List Text} :
    words isspace (joinLines ' ' ls) = [] ↔ ∀ l ∈ ls, Blank l := by
  rw [words_joinLines (by decide), List.flatMap_eq_nil_iff]
  exact forall₂_congr fun l _ => words_eq_nil

theorem blank_joinLines {nl : Char} (hnl : isspace nl = true) {ls : List Text}
    (h : ∀ l ∈ ls, Blank l) : Blank (joinLines nl ls) := by
  intro c hc
  rcases mem_joinLines hc with rfl | ⟨l, hl, hcl⟩
  · exact hnl
  · exact h l hl c hcl

/-- Blank lines behind some lines are white space behind the text. -/
theorem joinLines_append_blank {nl : Char} (hnl : isspace nl = true) {ls ws : List Text}
    (hls : ls ≠ []) (hws : ∀ w ∈ ws, Blank w) :
    ∃ w, Blank w ∧ joinLines nl (ls ++ ws) = joinLines nl ls ++ w := by
  rcases eq_or_ne ws [] with rfl | hne
  · exact ⟨[], blank_nil, by rw [List.append_nil, List.append_nil]⟩
  · refine ⟨nl :: joinLines nl ws, ?_, joinLines_append nl hls hne⟩
    exact List.forall_mem_cons.mpr ⟨hnl, blank_joinLines hnl hws⟩

theorem joinLines_prepend_blank {nl : Char} (hnl : isspace nl = true) {ls ws : List Text}
    (hls : ls ≠ []) (hws : ∀ w ∈ ws, Blank w) :
    ∃ w, Blank w ∧ joinLines nl (ws ++ ls) = w ++ joinLines nl ls := by
  rcases eq_or_ne ws [] with rfl | hne
  · exact ⟨[], blank_nil, rfl⟩
  · refine ⟨joinLines nl ws ++ [nl], ?_, ?_⟩
    · intro c hc
      rcases List.mem_append.mp hc with hc | hc
      · exact blank_joinLines hnl hws c hc
      · rwa [List.mem_singleton.mp hc]
    · rw [joinLines_append nl hne hls, List.append_assoc]
      rfl

/-- Blank lines behind the text of a cue do not change it. -/
theorem Says.blockText {b ls ws : List Text} (h : Says ls) (hb : b.length = 2)
    (hws : ∀ w ∈ ws, Blank w) :
    blockText (b ++ ls ++ ws) = some (collapse isspace ' ' (joinLines ' ' ls)) := by
  obtain ⟨l, hl, hblank⟩ := h.not_blank
  have hne : ls ≠ [] := List.ne_nil_of_mem hl
  have hlength : ¬ (b ++ ls ++ ws).length < 3 := by
    have hpos := List.length_pos_iff.mpr hne
    simp only [List.length_append]
    omega
  have hdrop : (b ++ ls ++ ws).drop 2 = ls ++ ws := by
    rw [List.append_assoc, ← hb, List.drop_left]
  obtain ⟨w, hw, hjoin⟩ := joinLines_append_blank (by decide : isspace ' ' = true) hne hws
  have htext : cleanText (ls ++ ws) = collapse isspace ' ' (joinLines ' ' ls) := by
    rw [cleanText_of_not_tagged, hjoin, collapse, words_append hw, collapse]
    · rw [hjoin, tagged_append_iff hw]
      exact h.not_tagged
    · intro l hl hc
      rcases List.mem_append.mp hl with hl | hl
      · exact h.braces l hl hc
      · exact absurd (hws l hl _ hc) (by decide)
  have hnonempty : collapse isspace ' ' (joinLines ' ' ls) ≠ [] := by
    rw [Ne, collapse_eq_nil, words_eq_nil_iff]
    exact fun hall => hblank (hall l hl)
  rw [SrtText.blockText, if_neg hlength, hdrop, htext]
  exact if_neg hnonempty

theorem blockText_of_blank {b : List Text} (h : ∀ l ∈ b, Blank l) : blockText b = none := by
  have htext : cleanText (b.drop 2) = [] := by
    rw [cleanText, collapse_eq_nil, words_eq_nil]
    intro c hc
    rcases mem_joinLines ((Regex.scan_sublist ..).subset ((Regex.scan_sublist ..).subset hc)) with
      rfl | ⟨l, hl, hcl⟩
    · decide
    · exact h l (List.mem_of_mem_drop hl) c hcl
  rw [blockText, htext]
  simp

/-- Where all blank lines end with the end of a block and there are no tags, every cue gives its
text. -/
theorem filterMap_divide {ps : List Piece} (hps : ∀ p ∈ ps, closes p.gap = true)
    (hspeaks : ∀ p ∈ ps, Says p.cue.texts) {b ls : List Text} (hb : b.length = 2) (h : Says ls) :
    (divide (b ++ ls) (linesOf ps)).filterMap blockText =
      collapse isspace ' ' (joinLines ' ' ls) :: ps.map fun p => p.cue.said := by
  induction ps generalizing b ls with
  | nil =>
    have hblock := @Says.blockText b ls [] h hb (by simp)
    rw [List.append_nil] at hblock
    simp [linesOf, divide, hblock]
  | cons p ps ih =>
    obtain ⟨hgap, hrest⟩ := List.forall_mem_cons.mp hps
    obtain ⟨hp, hcues⟩ := List.forall_mem_cons.mp hspeaks
    show (divide (b ++ ls) (p.gap ++ p.cue.lineList ++ linesOf ps)).filterMap blockText = _
    obtain ⟨ws, hws, ⟨hopen, -⟩ | ⟨junk, b', hjunk, -, hcloses, hdivide⟩⟩ :=
      divide_piece p (b ++ ls) (linesOf ps)
    · rw [hgap] at hopen
      cases hopen
    · obtain rfl : b' = [] := hcloses.mpr hgap
      have hnone : junk.filterMap blockText = [] :=
        List.filterMap_eq_nil_iff.mpr fun x hx => blockText_of_blank (hjunk x hx)
      have htail := @ih hrest hcues [p.cue.index, p.cue.time] p.cue.texts rfl hp
      rw [hdivide, List.filterMap_cons_some (h.blockText hb hws), List.filterMap_append, hnone,
        List.nil_append, List.map_cons]
      exact congrArg _ htail

/-! ### The ends of the file -/

/-- White space at the end of a line. -/
theorem exists_rstrip (l : Text) (h : ¬ Blank l) :
    ∃ w, l = l.rdropWhile isspace ++ w ∧ (∀ c ∈ w, isspace c = true) ∧
      ¬ Blank (l.rdropWhile isspace) := by
  obtain ⟨w, hl, hw⟩ := exists_rdropWhile_append (p := isspace) l
  refine ⟨w, hl, hw, fun hblank => h fun c hc => ?_⟩
  rw [hl] at hc
  rcases List.mem_append.mp hc with hc | hc
  · exact hblank c hc
  · exact hw c hc

/-- The last line of the text of a cue. -/
def Cue.lastText (c : Cue) : Text := c.texts.getLast c.texts_ne

theorem Cue.lastText_mem (c : Cue) : c.lastText ∈ c.texts := List.getLast_mem c.texts_ne

theorem Cue.texts_eq (c : Cue) : c.texts.dropLast ++ [c.lastText] = c.texts :=
  List.dropLast_append_getLast c.texts_ne

theorem Cue.lastText_not_blank (c : Cue) : ¬ Blank c.lastText :=
  (c.lines _ (List.mem_cons_of_mem _ (List.mem_cons_of_mem _ c.lastText_mem))).2.1

/-- The cue without the white space at its end. -/
def Cue.trimEnd (c : Cue) : Cue where
  index := c.index
  time := c.time
  texts := c.texts.dropLast ++ [c.lastText.rdropWhile isspace]
  lines := by
    intro l hl
    have hlines : l ∈ c.index :: c.time :: c.texts ∨ l = c.lastText.rdropWhile isspace := by
      simp only [List.mem_cons, List.mem_append, List.not_mem_nil, or_false] at hl ⊢
      rcases hl with h | h | h | h
      · exact Or.inl (Or.inl h)
      · exact Or.inl (Or.inr (Or.inl h))
      · exact Or.inl (Or.inr (Or.inr ((List.dropLast_sublist _).subset h)))
      · exact Or.inr h
    rcases hlines with hl | rfl
    · exact c.lines l hl
    · obtain ⟨w, hw, -, hblank⟩ := exists_rstrip c.lastText c.lastText_not_blank
      have hsubset : c.lastText.rdropWhile isspace ⊆ c.lastText :=
        (List.rdropWhile_prefix isspace c.lastText).subset
      obtain ⟨⟨hnl, hcr⟩, -, hbrace⟩ :=
        c.lines _ (List.mem_cons_of_mem _ (List.mem_cons_of_mem _ c.lastText_mem))
      exact ⟨⟨fun h => hnl (hsubset h), fun h => hcr (hsubset h)⟩, hblank,
        fun h => hbrace (hsubset h)⟩
  heading := c.heading
  texts_ne := by simp
  untagged := by
    intro l hl h
    rcases List.mem_append.mp hl with hl | hl
    · exact c.untagged l ((List.dropLast_sublist _).subset hl) h
    · obtain rfl := List.mem_singleton.mp hl
      exact c.untagged _ c.lastText_mem (h.mono (List.rdropWhile_prefix isspace _).isInfix)

/-- Its text ends in white space that is not there any more. -/
theorem Cue.joinLines_trimEnd (c : Cue) :
    ∃ w, (∀ x ∈ w, isspace x = true) ∧
      joinLines ' ' c.texts = joinLines ' ' c.trimEnd.texts ++ w := by
  obtain ⟨w, hw, hspace, -⟩ := exists_rstrip c.lastText c.lastText_not_blank
  refine ⟨w, hspace, ?_⟩
  show joinLines ' ' c.texts = joinLines ' ' (c.texts.dropLast ++ [_]) ++ w
  conv_lhs => rw [← c.texts_eq, hw]
  rcases eq_or_ne c.texts.dropLast [] with hnil | hne
  · rw [hnil, List.nil_append, List.nil_append, joinLines_singleton, joinLines_singleton]
  · rw [joinLines_concat ' ' hne, joinLines_concat ' ' hne, List.append_assoc]
    rfl

@[simp] theorem Cue.said_trimEnd (c : Cue) : c.trimEnd.said = c.said := by
  obtain ⟨w, hw, hjoin⟩ := c.joinLines_trimEnd
  rw [said, said, hjoin, collapse, collapse, words_append hw]

theorem Cue.tagged_trimEnd (c : Cue) :
    Tagged (joinLines ' ' c.trimEnd.texts) ↔ Tagged (joinLines ' ' c.texts) := by
  obtain ⟨w, hw, hjoin⟩ := c.joinLines_trimEnd
  rw [hjoin, tagged_append_iff hw]

/-- The cues without the white space at the end of the last. -/
def trimLast (p : Piece) : List Piece → Piece × List Piece
  | [] => ({ p with cue := p.cue.trimEnd }, [])
  | q :: ps => (p, (trimLast q ps).1 :: (trimLast q ps).2)

theorem map_trimLast {β : Type} {f : Piece → β}
    (hf : ∀ p : Piece, f { p with cue := p.cue.trimEnd } = f p) (p : Piece) (ps : List Piece) :
    f (trimLast p ps).1 = f p ∧ (trimLast p ps).2.map f = ps.map f := by
  induction ps generalizing p with
  | nil => exact ⟨hf p, rfl⟩
  | cons q ps ih =>
    obtain ⟨hq, hps⟩ := ih q
    refine ⟨rfl, ?_⟩
    show f (trimLast q ps).1 :: (trimLast q ps).2.map f = _
    rw [hq, hps, List.map_cons]

/-- The white space at the end is all that they lose. -/
theorem exists_trimLast (p : Piece) (ps : List Piece) :
    (trimLast p ps).1.gap = p.gap ∧ (trimLast p ps).1.cue.index = p.cue.index ∧
      (trimLast p ps).1.cue.time = p.cue.time ∧
      ∃ init last, ¬ Blank last ∧ p.cue.texts ++ linesOf ps = init ++ [last] ∧
        (trimLast p ps).1.cue.texts ++ linesOf (trimLast p ps).2 =
          init ++ [last.rdropWhile isspace] := by
  induction ps generalizing p with
  | nil =>
    refine ⟨rfl, rfl, rfl, p.cue.texts.dropLast, p.cue.lastText, p.cue.lastText_not_blank, ?_, ?_⟩
    · rw [p.cue.texts_eq]
      exact List.append_nil _
    · exact List.append_nil _
  | cons q ps ih =>
    obtain ⟨hgap, hindex, htime, init, last, hlast, hlines, htrim⟩ := ih q
    refine ⟨rfl, rfl, rfl,
      p.cue.texts ++ (q.gap ++ q.cue.index :: q.cue.time :: init), last, hlast, ?_, ?_⟩
    · show p.cue.texts ++ (q.gap ++ q.cue.index :: q.cue.time :: q.cue.texts ++ linesOf ps) = _
      rw [List.append_assoc q.gap, List.cons_append, List.cons_append, hlines]
      simp
    · show p.cue.texts ++ ((trimLast q ps).1.gap ++ (trimLast q ps).1.cue.index ::
        (trimLast q ps).1.cue.time :: (trimLast q ps).1.cue.texts ++ linesOf (trimLast q ps).2) = _
      rw [List.append_assoc (trimLast q ps).1.gap, List.cons_append, List.cons_append, htrim, hgap,
        hindex, htime]
      simp

theorem exists_of_not_blank {l : Text} (h : ¬ Blank l) : ∃ c ∈ l, isspace c = false := by
  simpa [Blank] using h

/-- **What `strip` leaves of the file**: its first line and its last one are trimmed. -/
theorem trim_text (p : Piece) (ps : List Piece) {after : List Text}
    (hafter : ∀ l ∈ after, Blank l) :
    trim isspace (joinLines '\n' (linesOf (p :: ps) ++ after)) =
      joinLines '\n' (p.cue.index.dropWhile isspace :: p.cue.time ::
        ((trimLast p ps).1.cue.texts ++ linesOf (trimLast p ps).2)) := by
  have hnl : isspace '\n' = true := by decide
  obtain ⟨-, -, -, init, last, hlast, hlines, htrim⟩ := exists_trimLast p ps
  have hindex : ¬ Blank p.cue.index := (p.cue.lines p.cue.index (by simp)).2.1
  -- what is between the ends, of any first and last line
  have hbody : ∀ first last : Text, joinLines '\n' (first :: p.cue.time :: (init ++ [last]))
      = first ++ ('\n' :: (joinLines '\n' (p.cue.time :: init) ++ ['\n']) ++ last) := by
    intro first last
    rw [joinLines_cons '\n' first (by simp), ← List.cons_append, joinLines_concat '\n' (by simp)]
    simp
  have hfile : linesOf (p :: ps) ++ after
      = p.gap ++ (p.cue.index :: p.cue.time :: (init ++ [last]) ++ after) := by
    show p.gap ++ p.cue.index :: p.cue.time :: p.cue.texts ++ linesOf ps ++ after = _
    rw [← hlines]
    simp
  obtain ⟨y, hy, hafter⟩ := joinLines_append_blank hnl
    (List.cons_ne_nil p.cue.index (p.cue.time :: (init ++ [last]))) hafter
  obtain ⟨x, hx, hgap⟩ := joinLines_prepend_blank hnl
    (List.append_ne_nil_of_left_ne_nil
      (List.cons_ne_nil p.cue.index (p.cue.time :: (init ++ [last]))) after)
    (fun l hl => (p.blank l hl).2)
  obtain ⟨c, hc, hspace⟩ := exists_of_not_blank hindex
  rw [hfile, hgap, hafter, htrim, hbody, hbody, trim_append hx ⟨c, by simp [hc], hspace⟩ hy, trim,
    dropWhile_append_of_exists ⟨c, hc, hspace⟩, ← List.append_assoc,
    rdropWhile_append_of_exists (exists_of_not_blank hlast), List.append_assoc]

/-! ### The transcript -/

/-- The blocks of a file are read by their lines. -/
theorem extractText_of_lines {content l : Text} {ls : List Text} (hcr : '\r' ∉ content)
    (hlines : ∀ l' ∈ l :: ls, '\n' ∉ l')
    (h : trim isspace content = joinLines '\n' (l :: ls)) :
    extractText content = joinLines ' ' ((divide [l] ls).filterMap blockText) := by
  have hsplit : ∀ block ∈ divide [l] ls, (joinLines '\n' block).splitOn '\n' = block := by
    intro block hblock
    obtain ⟨hne, hmem⟩ := of_mem_divide (List.cons_ne_nil l []) hblock
    refine List.splitOn_intercalate '\n' (fun l' hl' => hlines l' ?_) hne
    rcases hmem l' hl' with h | h
    · simp [List.mem_singleton.mp h]
    · exact List.mem_cons_of_mem _ h
  rw [extractText, universalNewlines_of_notMem hcr, h, blocks_joinLines '\n' hlines,
    List.filterMap_map]
  congr 1
  apply List.filterMap_congr
  intro block hblock
  exact congrArg blockText (hsplit block hblock)

/-- What is counted in the texts of the cues is counted in their transcript. -/
theorem countP_said {q : Char → Bool} (hq : ∀ c, isspace c = true → q c = false)
    (ps : List Piece) : (joinLines ' ' (ps.map fun p => p.cue.said)).countP q
      = (ps.flatMap fun p => p.cue.texts).flatten.countP q := by
  rw [countP_joinLines (hq ' ' (by decide))]
  induction ps with
  | nil => rfl
  | cons p ps ih =>
    rw [List.map_cons, List.flatten_cons, List.countP_append, ih, List.flatMap_cons,
      List.flatten_append, List.countP_append, Cue.said, countP_collapse hq (by decide),
      countP_joinLines (hq ' ' (by decide))]

/-- What is counted in what is taken of the blocks. -/
theorem countP_blockTexts {q : Char → Bool} (hq : ∀ c, isspace c = true → q c = false)
    (bs : List (List Text)) : (joinLines ' ' (bs.filterMap blockText)).countP q
      = (bs.map fun b => (cleanText (b.drop 2)).countP q).sum := by
  have hblock : ∀ b : List Text,
      ((blockText b).toList).flatten.countP q = (cleanText (b.drop 2)).countP q := by
    intro b
    rw [blockText]
    by_cases hshort : b.length < 3
    · rw [if_pos hshort, List.drop_of_length_le (by omega)]
      rfl
    · rw [if_neg hshort]
      by_cases hnil : cleanText (b.drop 2) = []
      · simp [hnil]
      · simp [hnil]
  rw [countP_joinLines (hq ' ' (by decide))]
  induction bs with
  | nil => rfl
  | cons b bs ih =>
    rw [List.map_cons, List.sum_cons, ← ih, ← hblock b]
    cases hb : blockText b with
    | none =>
      rw [List.filterMap_cons_none hb]
      simp
    | some text =>
      rw [List.filterMap_cons_some hb]
      simp

/-- What is counted in the lines that are taken of the blocks. -/
theorem countP_kept (q : Char → Bool) (bs : List (List Text)) :
    (bs.flatMap (List.drop 2)).flatten.countP q
      = (bs.map fun b => (b.drop 2).flatten.countP q).sum := by
  induction bs with
  | nil => rfl
  | cons b bs ih => simp [ih]

section

variable {ps : List Piece} {cur : List Text} {said : Text}

/-- If the transcript of some cues is that of their texts, there is no tag in a block: it would
have taken an opening bracket out. -/
theorem not_tagged_of_transcript (hcur : 2 ≤ cur.length)
    (hsaid : ∀ q : Char → Bool, (∀ c, isspace c = true → q c = false) →
      said.countP q = (cur.drop 2).flatten.countP q +
        (ps.flatMap fun p => p.cue.texts).flatten.countP q)
    (h : joinLines ' ' ((divide cur (linesOf ps)).filterMap blockText) = said) :
    ∀ block ∈ divide cur (linesOf ps), ¬ Tagged (joinLines ' ' (block.drop 2)) := by
  intro block hblock htagged
  have hq : ∀ c, isspace c = true → opens c = false := fun c hc => opens_of_isspace hc
  obtain ⟨leaked, -, hleaked, hcount⟩ := exists_leaked ps hcur
  have hnone : leaked.flatten.countP opens = 0 := by
    rw [List.countP_eq_zero]
    intro c hc
    obtain ⟨l, hl, hcl⟩ := List.mem_flatten.mp hc
    have hne : c ≠ '<' := fun h => (hleaked l hl).2 (h ▸ hcl)
    simpa [opens] using hne
  have hkept := hcount opens hq
  have htaken := hsaid opens hq
  rw [countP_kept] at hkept
  rw [← h, countP_blockTexts hq] at htaken
  have hlt : ((divide cur (linesOf ps)).map fun b => (cleanText (b.drop 2)).countP opens).sum
      < ((divide cur (linesOf ps)).map fun b => (b.drop 2).flatten.countP opens).sum :=
    List.sum_lt_sum _ _ (fun b _ => countP_cleanText_le hq _)
      ⟨block, hblock, countP_cleanText_lt htagged⟩
  rw [hnone, Nat.add_zero] at hkept
  exact absurd (htaken.trans hkept.symm) hlt.ne

/-- If the transcript of some cues is that of their texts, all blank lines end with the end of a
block: other lines would have been taken for text. -/
theorem closes_of_transcript (hcur : 2 ≤ cur.length) (hbrace : ∀ l ∈ cur, '\u007b' ∉ l)
    (hsaid : ∀ q : Char → Bool, (∀ c, isspace c = true → q c = false) →
      said.countP q = (cur.drop 2).flatten.countP q +
        (ps.flatMap fun p => p.cue.texts).flatten.countP q)
    (h : joinLines ' ' ((divide cur (linesOf ps)).filterMap blockText) = said) :
    ∀ p ∈ ps, closes p.gap = true := by
  have htags := not_tagged_of_transcript hcur hsaid h
  have hq : ∀ c, isspace c = true → visible c = false := fun c hc => visible_of_isspace hc
  obtain ⟨leaked, hnil, hleaked, hcount⟩ := exists_leaked ps hcur
  apply hnil.mp
  have hlines : ∀ block ∈ divide cur (linesOf ps), ∀ l ∈ block, '\u007b' ∉ l := by
    intro block hblock l hl
    have hne : cur ≠ [] := List.ne_nil_of_length_pos (by omega)
    rcases (of_mem_divide hne hblock).2 l hl with hl | hl
    · exact hbrace l hl
    obtain ⟨p, -, hl⟩ := List.mem_flatMap.mp hl
    rcases List.mem_append.mp hl with hl | hl
    · intro hc
      exact absurd ((p.blank l hl).2 _ hc) (by decide)
    · exact (p.cue.lines l hl).2.2
  have hsame : ∀ block ∈ divide cur (linesOf ps),
      (cleanText (block.drop 2)).countP visible = (block.drop 2).flatten.countP visible := by
    intro block hblock
    rw [cleanText_of_not_tagged (htags block hblock)
      fun l hl => hlines block hblock l (List.mem_of_mem_drop hl),
      countP_collapse hq (by decide), countP_joinLines (hq ' ' (by decide))]
  have hkept := hcount visible hq
  have htaken := hsaid visible hq
  rw [countP_kept] at hkept
  rw [← h, countP_blockTexts hq, List.map_congr_left hsame] at htaken
  have hzero : leaked.flatten.countP visible = 0 := by
    have hsum := hkept.symm.trans htaken
    omega
  -- a line that is not blank counts
  rw [List.eq_nil_iff_forall_not_mem]
  intro l hl
  obtain ⟨c, hc, hspace⟩ := exists_of_not_blank (hleaked l hl).1
  have hone := List.countP_eq_zero.mp hzero c (List.mem_flatten.mpr ⟨l, hl, hc⟩)
  simp [visible, hspace] at hone

end

theorem isLine_of_mem_linesOf {ps : List Piece} {l : Text} (h : l ∈ linesOf ps) : IsLine l := by
  obtain ⟨p, -, hl⟩ := List.mem_flatMap.mp h
  rcases List.mem_append.mp hl with hl | hl
  · exact (p.blank l hl).1
  · exact (p.cue.lines l hl).1

theorem Rendering.notMem_text (r : Rendering) : '\r' ∉ r.text := by
  intro hc
  rcases mem_joinLines hc with heq | ⟨l, hl, hcl⟩
  · exact absurd heq (by decide)
  rcases List.mem_append.mp hl with hl | hl
  · exact (isLine_of_mem_linesOf hl).2 hcl
  · exact (r.blank l hl).1.2 hcl

theorem Cue.speaks (c : Cue) (h : ¬ Tagged (joinLines ' ' c.texts)) : Says c.texts where
  not_tagged := h
  braces l hl := (c.lines l (List.mem_cons_of_mem _ (List.mem_cons_of_mem _ hl))).2.2
  not_blank := ⟨c.lastText, c.lastText_mem, c.lastText_not_blank⟩

/-- A file is read by the blocks of its lines, without the white space at its ends. -/
theorem extractText_pieces {r : Rendering} {p : Piece} {ps : List Piece} (h : r.pieces = p :: ps) :
    extractText r.text = joinLines ' ' ((divide ([p.cue.index.dropWhile isspace, p.cue.time] ++
      (trimLast p ps).1.cue.texts) (linesOf (trimLast p ps).2)).filterMap blockText) := by
  have htrim := trim_text p ps fun l hl => (r.blank l hl).2
  rw [← h] at htrim
  rw [extractText_of_lines r.notMem_text ?_ htrim, ← List.cons_append, divide_append]
  · rfl
  · intro l hl
    rcases List.mem_cons.mp hl with rfl | hl
    · exact p.cue.ne_nil_of_mem (by simp [Cue.lineList])
    · exact (trimLast p ps).1.cue.ne_nil_of_mem (by simp [Cue.lineList, hl])
  · intro l hl
    rcases List.mem_cons.mp hl with rfl | hl
    · exact fun hc => (p.cue.lines p.cue.index (by simp)).1.1 ((List.dropWhile_sublist _).subset hc)
    rcases List.mem_cons.mp hl with rfl | hl
    · exact (p.cue.lines p.cue.time (by simp)).1.1
    rcases List.mem_append.mp hl with hl | hl
    · exact ((trimLast p ps).1.cue.lines l (by simp [hl])).1.1
    · exact (isLine_of_mem_linesOf hl).1

/-- A file is clean exactly if it is without the white space at its end. -/
theorem clean_iff {r : Rendering} {p : Piece} {ps : List Piece} (h : r.pieces = p :: ps) :
    r.Clean ↔ (∀ q ∈ (trimLast p ps).2, closes q.gap = true) ∧
      ¬ Tagged (joinLines ' ' (trimLast p ps).1.cue.texts) ∧
      ∀ q ∈ (trimLast p ps).2, ¬ Tagged (joinLines ' ' q.cue.texts) := by
  have hgaps : (trimLast p ps).2.map (·.gap) = ps.map (·.gap) :=
    (map_trimLast (fun _ => rfl) p ps).2
  obtain ⟨htag, htags⟩ := @map_trimLast _ (fun q : Piece => ¬ Tagged (joinLines ' ' q.cue.texts))
    (fun q => propext (not_congr q.cue.tagged_trimEnd)) p ps
  have hcloses : (∀ q ∈ (trimLast p ps).2, closes q.gap = true) ↔
      ∀ q ∈ ps, emptiesBefore q.gap % 2 = 1 := by
    have hmem := fun l : List Piece =>
      (List.forall_mem_map (f := (·.gap)) (l := l) (P := fun g => closes g = true)).symm
    rw [hmem, hgaps, ← hmem]
    exact forall₂_congr fun q _ => closes_iff q.gap
  have htexts : (∀ q ∈ (trimLast p ps).2, ¬ Tagged (joinLines ' ' q.cue.texts)) ↔
      ∀ q ∈ ps, ¬ Tagged (joinLines ' ' q.cue.texts) := by
    have hmem := fun l : List Piece => (List.forall_mem_map
      (f := fun q : Piece => ¬ Tagged (joinLines ' ' q.cue.texts)) (l := l) (P := id)).symm
    exact (hmem _).trans ((iff_of_eq (by rw [htags])).trans (hmem _).symm)
  rw [Rendering.Clean, h, hcloses, htag, htexts, List.tail_cons, List.forall_mem_cons]

/-- **The transcript of a file is the text of its cues exactly if the file is clean.** -/
theorem extractText_eq_iff (r : Rendering) : extractText r.text = r.transcript ↔ r.Clean := by
  cases h : r.pieces with
  | nil =>
    -- there is only white space
    have hlines : linesOf r.pieces ++ r.after = r.after := by rw [h]; rfl
    have htrim : trim isspace r.text = joinLines '\n' [[]] := by
      rw [Rendering.text, hlines]
      exact trim_eq_nil (blank_joinLines (by decide) fun l hl => (r.blank l hl).2)
    refine iff_of_true ?_ ⟨by simp [h], by simp [h]⟩
    rw [extractText_of_lines r.notMem_text (by simp) htrim, Rendering.transcript, h]
    rfl
  | cons p ps =>
    have hsaid : r.transcript = joinLines ' '
        (((trimLast p ps).1 :: (trimLast p ps).2).map fun q => q.cue.said) := by
      obtain ⟨hp, hps⟩ := @map_trimLast _ (fun q : Piece => q.cue.said)
        (fun q => q.cue.said_trimEnd) p ps
      rw [Rendering.transcript, h, List.map_cons, List.map_cons, hps, hp]
    rw [extractText_pieces h, hsaid, clean_iff h]
    constructor
    · intro heq
      have hcur : 2 ≤ ([p.cue.index.dropWhile isspace, p.cue.time] ++
          (trimLast p ps).1.cue.texts).length := by simp
      have hcount := fun (q : Char → Bool) (hq : ∀ c, isspace c = true → q c = false) =>
        countP_said hq ((trimLast p ps).1 :: (trimLast p ps).2)
      simp only [List.flatMap_cons, List.flatten_append, List.countP_append] at hcount
      have hbrace : ∀ l ∈ [p.cue.index.dropWhile isspace, p.cue.time] ++
          (trimLast p ps).1.cue.texts, '\u007b' ∉ l := by
        intro l hl
        simp only [List.cons_append, List.nil_append, List.mem_cons] at hl
        rcases hl with rfl | rfl | hl
        · exact fun hc => (p.cue.lines p.cue.index (by simp)).2.2
            ((List.dropWhile_sublist _).subset hc)
        · exact (p.cue.lines p.cue.time (by simp)).2.2
        · exact ((trimLast p ps).1.cue.lines l (by simp [hl])).2.2
      have htags := not_tagged_of_transcript hcur hcount heq
      obtain ⟨⟨block, hblock, hopen⟩, hcues⟩ := exists_block_within (trimLast p ps).2 hcur
      refine ⟨closes_of_transcript hcur hbrace hcount heq, ?_, ?_⟩
      · exact fun htag => htags block hblock (htag.mono (joinLines_within ' ' hopen))
      · intro q hq htag
        obtain ⟨block, hblock, hwithin⟩ := hcues q hq
        exact htags block hblock (htag.mono (joinLines_within ' ' hwithin))
    · rintro ⟨hcloses, htag, htags⟩
      rw [filterMap_divide hcloses (fun q hq => q.cue.speaks (htags q hq)) rfl
        ((trimLast p ps).1.cue.speaks htag)]
      rfl

end SrtText
end MediaHub

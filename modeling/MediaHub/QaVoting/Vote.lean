import MediaHub.Lib.Argmax
import MediaHub.QaVoting.Defs

/-!
# The vote in one slot

The groups of the vote are the words of the slot filtered by normalized text, in
the order in which the texts come up.  The winner is a word of highest
probability in a group of largest key.

## Main results

* `mem_voteGroups_iff` — the groups of a slot.
* `voteSlot_eq_some_iff` — what the winner of a slot is.
* `isSome_voteSlot_iff` — **there is a winner exactly when the quorum is met.**
* `voteSlot_of_unanimous` — where all words agree, probability decides.
-/

namespace MediaHub
namespace QaVoting

variable (U : Unicodedata)

/-- The words of a slot with a given normalized text. -/
def wordsWith (slot : List PooledWord) (key : String) : List PooledWord :=
  slot.filter fun w => normalize U w.word = key

@[simp] theorem mem_wordsWith {slot : List PooledWord} {key : String} {w : PooledWord} :
    w ∈ wordsWith U slot key ↔ w ∈ slot ∧ normalize U w.word = key := by
  simp [wordsWith]

theorem voteGroups_eq (slot : List PooledWord) :
    voteGroups U slot
      = (slot.map fun w => normalize U w.word).eraseDups.map fun k => (k, wordsWith U slot k) :=
  groupsBy_eq _ slot

/-- The groups of a slot: one for each text that comes up in it. -/
theorem mem_voteGroups_iff {slot : List PooledWord} {g : String × List PooledWord} :
    g ∈ voteGroups U slot ↔
      (∃ w ∈ slot, normalize U w.word = g.1) ∧ g.2 = wordsWith U slot g.1 := by
  rw [voteGroups_eq, List.mem_map]
  constructor
  · rintro ⟨k, hk, rfl⟩
    exact ⟨by simpa using hk, rfl⟩
  · rintro ⟨hk, hg⟩
    exact ⟨g.1, by simpa using hk, by rw [← hg]⟩

theorem voteGroups_eq_nil_iff {slot : List PooledWord} : voteGroups U slot = [] ↔ slot = [] := by
  constructor
  · intro h
    cases slot with
    | nil => rfl
    | cons w slot =>
      have hmem : (normalize U w.word, wordsWith U (w :: slot) (normalize U w.word))
          ∈ voteGroups U (w :: slot) :=
        (mem_voteGroups_iff U).mpr ⟨⟨w, List.mem_cons_self, rfl⟩, rfl⟩
      rw [h] at hmem
      simp at hmem
  · rintro rfl
    rfl

/-- No group is empty. -/
theorem ne_nil_of_mem_voteGroups {slot : List PooledWord} {g : String × List PooledWord}
    (h : g ∈ voteGroups U slot) : g.2 ≠ [] := by
  obtain ⟨⟨w, hw, hk⟩, hg⟩ := (mem_voteGroups_iff U).mp h
  rw [hg]
  exact List.ne_nil_of_mem ((mem_wordsWith U).mpr ⟨hw, hk⟩)

theorem groupKey_lt_iff {g g' : List PooledWord} :
    groupKey g < groupKey g' ↔ g.length < g'.length ∨ g.length = g'.length ∧
      floatSum (g.map (·.probability)) < floatSum (g'.map (·.probability)) :=
  Prod.Lex.toLex_lt_toLex

theorem groupKey_eq_iff {g g' : List PooledWord} :
    groupKey g = groupKey g' ↔ g.length = g'.length ∧
      floatSum (g.map (·.probability)) = floatSum (g'.map (·.probability)) := by
  rw [groupKey, groupKey, toLex_inj, Prod.mk.injEq]

/-- **What the winner of a slot is**: with the quorum met, the first word of
highest probability in the first group of largest key. -/
theorem voteSlot_eq_some_iff {slot : List PooledWord} {w : PooledWord} :
    voteSlot U slot = some w ↔ 2 ≤ (contributingPasses slot).card ∧
      ∃ best, (voteGroups U slot).argmax (fun group => groupKey group.2) = some best ∧
        best.2.argmax (·.probability) = some w := by
  rw [voteSlot]
  by_cases hq : (contributingPasses slot).card < 2
  · rw [if_pos hq]
    simp [Nat.not_le.mpr hq]
  · rw [if_neg hq]
    have hq' : 2 ≤ (contributingPasses slot).card := Nat.not_lt.mp hq
    cases hbest : (voteGroups U slot).argmax fun group => groupKey group.2 with
    | none => simp
    | some best => simp [hq']

/-- The winner is a word of the slot. -/
theorem mem_of_voteSlot {slot : List PooledWord} {w : PooledWord}
    (h : voteSlot U slot = some w) : w ∈ slot := by
  obtain ⟨-, best, hbest, hw⟩ := (voteSlot_eq_some_iff U).mp h
  obtain ⟨-, hg⟩ := (mem_voteGroups_iff U).mp (List.argmax_mem hbest)
  have hmem := List.argmax_mem hw
  rw [hg] at hmem
  exact ((mem_wordsWith U).mp hmem).1

theorem card_contributingPasses_le (slot : List PooledWord) :
    (contributingPasses slot).card ≤ slot.length := by
  have := List.toFinset_card_le (slot.map (·.passId))
  simpa [contributingPasses] using this

/-- A slot with a winner holds two words or more. -/
theorem two_le_length_of_voteSlot {slot : List PooledWord} {w : PooledWord}
    (h : voteSlot U slot = some w) : 2 ≤ slot.length :=
  le_trans ((voteSlot_eq_some_iff U).mp h).1 (card_contributingPasses_le slot)

/-- **There is a winner exactly when the quorum is met.** -/
theorem isSome_voteSlot_iff {slot : List PooledWord} :
    (voteSlot U slot).isSome ↔ 2 ≤ (contributingPasses slot).card := by
  constructor
  · intro h
    obtain ⟨w, hw⟩ := Option.isSome_iff_exists.mp h
    exact ((voteSlot_eq_some_iff U).mp hw).1
  · intro hq
    have hslot : slot ≠ [] := by
      rintro rfl
      simp [contributingPasses] at hq
    obtain ⟨best, hbest⟩ := exists_argmax (fun group => groupKey group.2)
      (mt (voteGroups_eq_nil_iff U).mp hslot)
    obtain ⟨w, hw⟩ := exists_argmax (fun w : PooledWord => w.probability)
      (ne_nil_of_mem_voteGroups U (List.argmax_mem hbest))
    exact Option.isSome_iff_exists.mpr ⟨w, (voteSlot_eq_some_iff U).mpr ⟨hq, best, hbest, hw⟩⟩

/-- **Where all words of a slot agree, probability decides.** -/
theorem voteSlot_of_unanimous {slot : List PooledWord} {key : String}
    (hq : 2 ≤ (contributingPasses slot).card) (h : ∀ w ∈ slot, normalize U w.word = key) :
    voteSlot U slot = slot.argmax (·.probability) := by
  have hslot : slot ≠ [] := by
    rintro rfl
    simp [contributingPasses] at hq
  have hwords : wordsWith U slot key = slot :=
    List.filter_eq_self.mpr fun w hw => by simpa using h w hw
  have hgroup : ∀ g ∈ voteGroups U slot, g.2 = slot := by
    intro g hg
    obtain ⟨⟨w, hw, hk⟩, hg2⟩ := (mem_voteGroups_iff U).mp hg
    rw [hg2, ← hk, h w hw, hwords]
  obtain ⟨best, hbest⟩ := exists_argmax (fun group => groupKey group.2)
    (mt (voteGroups_eq_nil_iff U).mp hslot)
  rw [voteSlot, if_neg (Nat.not_lt.mpr hq), hbest]
  simp only
  rw [hgroup best (List.argmax_mem hbest)]

end QaVoting
end MediaHub

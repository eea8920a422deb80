import Mathlib.Data.List.Basic

/-!
# Histories

A history is a list of what has happened, the latest last.  What a program remembers is about
what has happened *since*: something happened, and nothing but certain things after it.  A
property of a whole history says of each thing in it what was before it.

## Main definitions

* `Since` — something happened, and only certain things since then.
* `Historically` — everything fits what was before it.

## Main results

* `since_concat`, `historically_concat` — the same after one more thing.
* `Since.mono`, `Historically.mono` — weaker conditions.
-/

namespace MediaHub

variable {α : Type*}

/-- Something with `P` happened, and only things with `Q` since then. -/
def Since (P Q : α → Prop) (past : List α) : Prop :=
  ∃ before a after, past = before ++ a :: after ∧ P a ∧ ∀ b ∈ after, Q b

/-- Everything in the history fits what was before it. -/
def Historically (R : List α → α → Prop) (past : List α) : Prop :=
  ∀ before a after, past = before ++ a :: after → R before a

variable {P P' Q Q' : α → Prop} {R R' : List α → α → Prop} {past : List α} {a : α}

theorem not_since_nil : ¬ Since P Q [] := by
  rintro ⟨before, b, after, h, -⟩
  simp at h

/-- Either it happened just now, or it holds since an earlier time. -/
theorem since_concat : Since P Q (past ++ [a]) ↔ P a ∨ Since P Q past ∧ Q a := by
  constructor
  · rintro ⟨before, b, after, h, hb, hafter⟩
    rcases List.eq_nil_or_concat after with rfl | ⟨after, c, rfl⟩
    · obtain ⟨-, hlast⟩ := List.append_inj' h rfl
      obtain rfl : a = b := by simpa using hlast
      exact .inl hb
    · have hsplit : past ++ [a] = (before ++ b :: after) ++ [c] := by simp [h]
      obtain ⟨rfl, hlast⟩ := List.append_inj' hsplit rfl
      obtain rfl : a = c := by simpa using hlast
      exact .inr ⟨⟨before, b, after, rfl, hb, fun d hd => hafter d (by simp [hd])⟩,
        hafter a (by simp)⟩
  · rintro (ha | ⟨⟨before, b, after, rfl, hb, hafter⟩, ha⟩)
    · exact ⟨past, a, [], rfl, ha, nofun⟩
    · refine ⟨before, b, after ++ [a], by simp, hb, ?_⟩
      intro c hc
      rcases List.mem_append.mp hc with hc | hc
      · exact hafter c hc
      · exact List.mem_singleton.mp hc ▸ ha

theorem Since.mono (hP : ∀ b, P b → P' b) (hQ : ∀ b, Q b → Q' b) (h : Since P Q past) :
    Since P' Q' past := by
  obtain ⟨before, b, after, rfl, hb, hafter⟩ := h
  exact ⟨before, b, after, rfl, hP b hb, fun c hc => hQ c (hafter c hc)⟩

theorem historically_nil : Historically R [] := by
  intro before b after h
  simp at h

/-- One more thing has to fit what was before it. -/
theorem historically_concat : Historically R (past ++ [a]) ↔ Historically R past ∧ R past a := by
  constructor
  · intro h
    refine ⟨?_, h past a [] rfl⟩
    rintro before b after rfl
    exact h before b (after ++ [a]) (by simp)
  · rintro ⟨h, ha⟩ before b after heq
    rcases List.eq_nil_or_concat after with rfl | ⟨after, c, rfl⟩
    · obtain ⟨rfl, hlast⟩ := List.append_inj' heq rfl
      obtain rfl : a = b := by simpa using hlast
      exact ha
    · have hsplit : past ++ [a] = (before ++ b :: after) ++ [c] := by simp [heq]
      exact h before b after (List.append_inj' hsplit rfl).1

theorem Historically.mono (hR : ∀ before b, R before b → R' before b)
    (h : Historically R past) : Historically R' past :=
  fun before b after heq => hR before b (h before b after heq)

end MediaHub

import MediaHub.LidarrYtdl.Course

/-!
# The temporary files of a track

A download that succeeds leaves a temporary file in the folder of the album, until it is
accepted or cleaned up.  Between the turns of the loop the files left over are those that
are held back, the one of the unverified fallback and that of the last resort, and those
that a download has left with another ending than the one that is looked for.  What is
held when the function returns stays behind, and so does what nobody has looked for.

## Main definitions

* `LeftOver` — a file that a download has left and that was neither accepted nor cleaned up.
* `Body.Holds` — a file that is held back.
* `Body.Account` — what waits to be accepted or cleaned up is held, but for a file in hand.
* `OwnsTempFiles` — nothing is left behind, and at most one file is accepted.
* `leavesFiles` — the courses in which something is.

## Main results

* `ownsTempFiles_iff` — **when every temporary file is accepted or cleaned up.**
-/

namespace MediaHub
namespace LidarrYtdl

/-! ### Files that wait -/

/-- The file an effect is about. -/
def Effect.temp : Effect → Option Temp
  | .downloaded t => some t
  | .measured t _ => some t
  | .cleaned t => some t
  | .accepted a => some a.temp
  | _ => none

/-- The file was downloaded under the name that is looked for, and neither accepted nor
cleaned up. -/
def Pending (es : List Effect) (t : Temp) : Prop :=
  .downloaded t ∈ es ∧ .cleaned t ∉ es ∧ ∀ a, .accepted a ∈ es → a.temp ≠ t

/-- The effect adds no file that waits, and disposes of none. -/
def Effect.quiet : Effect → Bool
  | .downloaded _ => false
  | .cleaned _ => false
  | .accepted _ => false
  | _ => true

section

variable {es es' : List Effect} {t u : Temp}

/-- Quiet effects change nothing. -/
theorem pending_quiet (h : es'.all Effect.quiet = true) :
    Pending (es ++ es') t ↔ Pending es t := by
  rw [List.all_eq_true] at h
  have hd : Effect.downloaded t ∉ es' := by
    intro hmem
    cases h _ hmem
  have hc : Effect.cleaned t ∉ es' := by
    intro hmem
    cases h _ hmem
  have ha : ∀ a, Effect.accepted a ∉ es' := by
    intro a hmem
    cases h _ hmem
  simp only [Pending, List.mem_append, hd, hc, ha, or_false]

theorem pending_cleaned (h : es'.all Effect.quiet = true) :
    Pending (es ++ .cleaned u :: es') t ↔ Pending es t ∧ t ≠ u := by
  rw [List.append_cons, pending_quiet h]
  simp only [Pending, List.mem_append, List.mem_singleton, reduceCtorEq, or_false, not_or,
    Effect.cleaned.injEq]
  tauto

theorem pending_accepted {a : Accepted} (h : es'.all Effect.quiet = true) :
    Pending (es ++ .accepted a :: es') t ↔ Pending es t ∧ t ≠ a.temp := by
  rw [List.append_cons, pending_quiet h]
  simp only [Pending, List.mem_append, List.mem_singleton, reduceCtorEq, or_false,
    Effect.accepted.injEq]
  constructor
  · rintro ⟨hd, hc, ha⟩
    refine ⟨⟨hd, hc, ?_⟩, ?_⟩
    · intro a' h'
      exact ha a' (.inl h')
    · rintro rfl
      exact ha a (.inr rfl) rfl
  · rintro ⟨⟨hd, hc, ha⟩, hne⟩
    refine ⟨hd, hc, ?_⟩
    rintro a' (h' | rfl)
    · exact ha a' h'
    · exact hne.symm

/-- A download adds its file, if it is a new one. -/
theorem pending_downloaded (hnew : ∀ e ∈ es, e.temp ≠ some u) (h : es'.all Effect.quiet = true) :
    Pending (es ++ .downloaded u :: es') t ↔ Pending es t ∨ t = u := by
  rw [List.append_cons, pending_quiet h]
  simp only [Pending, List.mem_append, List.mem_singleton, reduceCtorEq, or_false,
    Effect.downloaded.injEq]
  constructor
  · rintro ⟨hd | rfl, hc, ha⟩
    · exact .inl ⟨hd, hc, ha⟩
    · exact .inr rfl
  · rintro (⟨hd, hc, ha⟩ | rfl)
    · exact ⟨.inl hd, hc, ha⟩
    -- no effect has been about the new file
    · refine ⟨.inr rfl, ?_, ?_⟩
      · intro hmem
        exact hnew _ hmem rfl
      · intro a hmem heq
        exact hnew _ hmem (congrArg some heq)

end

/-! ### Files that are left over -/

/-- The file that an effect leaves with another ending. -/
def Effect.stray : Effect → Option Temp
  | .misnamed t => some t
  | _ => none

/-- The files that downloads have left with another ending. -/
def strays (es : List Effect) : List Temp := es.filterMap Effect.stray

@[simp] theorem strays_append (es es' : List Effect) :
    strays (es ++ es') = strays es ++ strays es' :=
  List.filterMap_append

@[simp] theorem strays_nil : strays [] = [] := rfl

@[simp] theorem strays_cons (e : Effect) (es : List Effect) :
    strays (e :: es) = e.stray.toList ++ strays es := by
  cases h : e.stray <;> simp [strays, h]

theorem mem_strays {es : List Effect} {t : Temp} : t ∈ strays es ↔ .misnamed t ∈ es := by
  rw [strays, List.mem_filterMap]
  constructor
  · rintro ⟨e, he, heq⟩
    cases e <;> cases heq
    exact he
  · exact fun h => ⟨_, h, rfl⟩

/-- A download has left the file, and it was neither accepted nor cleaned up. -/
def LeftOver (es : List Effect) (t : Temp) : Prop :=
  (.downloaded t ∈ es ∨ .misnamed t ∈ es) ∧ .cleaned t ∉ es ∧ ∀ a, .accepted a ∈ es → a.temp ≠ t

/-- Where nothing is done about the files with another ending, they are left over beside those
that wait. -/
theorem leftOver_iff {es : List Effect} (h : ∀ t ∈ strays es, ∀ e ∈ es, e.temp ≠ some t)
    (t : Temp) : LeftOver es t ↔ Pending es t ∨ t ∈ strays es := by
  rw [LeftOver, Pending, mem_strays]
  constructor
  · rintro ⟨hd | hm, hrest⟩
    · exact .inl ⟨hd, hrest⟩
    · exact .inr hm
  · rintro (⟨hd, hrest⟩ | hm)
    · exact ⟨.inl hd, hrest⟩
    · have hnew := h t (mem_strays.mpr hm)
      exact ⟨.inr hm, fun hc => hnew _ hc rfl, fun a ha heq => hnew _ ha (congrArg some heq)⟩

/-! ### The account -/

namespace Body

/-- The file is held back. -/
def Holds (b : Body) (t : Temp) : Prop :=
  (∃ r, b.heldUnverified = some (t, r)) ∨ ∃ fb, b.heldFallback = some fb ∧ fb.temp = t

/-- The two files that are held are not the same. -/
def Apart (b : Body) : Prop :=
  ∀ fb r, b.heldFallback = some fb → b.heldUnverified ≠ some (fb.temp, r)

/-- No effect is about the file. -/
def Fresh (b : Body) (t : Temp) : Prop := ∀ e ∈ b.effects, e.temp ≠ some t

/-- What waits is held, but for the file in hand, if there is one. -/
structure Account (b : Body) (inHand : Option Temp) : Prop where
  pending_iff : ∀ t, Pending b.effects t ↔ b.Holds t ∨ inHand = some t
  apart : b.Apart
  not_holds : ∀ t, inHand = some t → ¬ b.Holds t

variable {b b' : Body} {t u : Temp} {inHand : Option Temp}

/-- What is held was downloaded. -/
theorem Account.downloaded_mem (h : b.Account inHand) (ht : b.Holds t) :
    .downloaded t ∈ b.effects :=
  ((h.pending_iff t).mpr (.inl ht)).1

/-- A file that no effect is about is not held. -/
theorem Account.not_holds_fresh (h : b.Account inHand) (hfresh : b.Fresh t) : ¬ b.Holds t :=
  fun ht => hfresh _ (h.downloaded_mem ht) rfl

theorem holds_congr (hu : b'.heldUnverified = b.heldUnverified)
    (hf : b'.heldFallback = b.heldFallback) (t : Temp) : b'.Holds t ↔ b.Holds t := by
  rw [Holds, Holds, hu, hf]

theorem Apart.congr (h : b.Apart) (hu : b'.heldUnverified = b.heldUnverified)
    (hf : b'.heldFallback = b.heldFallback) : b'.Apart := by
  rw [Apart, hu, hf]
  exact h

/-- The account goes by the files that wait and those that are held alone. -/
theorem Account.congr (h : b.Account inHand)
    (heffects : ∀ t, Pending b'.effects t ↔ Pending b.effects t)
    (hu : b'.heldUnverified = b.heldUnverified) (hf : b'.heldFallback = b.heldFallback) :
    b'.Account inHand := by
  refine ⟨?_, h.apart.congr hu hf, ?_⟩
  · intro t
    rw [heffects, holds_congr hu hf, h.pending_iff]
  · intro t ht
    rw [holds_congr hu hf]
    exact h.not_holds t ht

/-- A new file comes into hand. -/
theorem Account.download (h : b.Account none) (hfresh : b.Fresh u)
    (heffects : ∀ t, Pending b'.effects t ↔ Pending b.effects t ∨ t = u)
    (hu : b'.heldUnverified = b.heldUnverified) (hf : b'.heldFallback = b.heldFallback) :
    b'.Account (some u) := by
  refine ⟨?_, h.apart.congr hu hf, ?_⟩
  · intro t
    rw [heffects, h.pending_iff, holds_congr hu hf]
    simp [eq_comm]
  · rintro t ⟨rfl⟩
    rw [holds_congr hu hf]
    exact h.not_holds_fresh hfresh

/-- The file in hand is disposed of. -/
theorem Account.dispose (h : b.Account (some u))
    (heffects : ∀ t, Pending b'.effects t ↔ Pending b.effects t ∧ t ≠ u)
    (hu : b'.heldUnverified = b.heldUnverified) (hf : b'.heldFallback = b.heldFallback) :
    b'.Account none := by
  refine ⟨?_, h.apart.congr hu hf, fun _ h => by cases h⟩
  intro t
  rw [heffects, holds_congr hu hf, h.pending_iff]
  constructor
  · rintro ⟨ht | hin, hne⟩
    · exact .inl ht
    · exact absurd (Option.some.inj hin).symm hne
  · rintro (ht | hnone)
    · refine ⟨.inl ht, ?_⟩
      -- the file in hand is not held
      rintro rfl
      exact h.not_holds t rfl ht
    · cases hnone

/-- Cleaning up after a download that left no file changes nothing. -/
theorem Account.clean (h : b.Account none) (hfresh : b.Fresh u)
    (heffects : ∀ t, Pending b'.effects t ↔ Pending b.effects t ∧ t ≠ u)
    (hu : b'.heldUnverified = b.heldUnverified) (hf : b'.heldFallback = b.heldFallback) :
    b'.Account none := by
  refine h.congr ?_ hu hf
  intro t
  rw [heffects, and_iff_left_iff_imp]
  rintro hleft rfl
  exact hfresh _ hleft.1 rfl

/-- The file in hand is held as a last resort, where none is held. -/
theorem Account.hold (h : b.Account (some u)) (hnone : b.heldFallback = none) {fb : HeldFallback}
    (htemp : fb.temp = u) : Account { b with heldFallback := some fb } none := by
  refine ⟨?_, ?_, fun _ h => by cases h⟩
  · intro t
    rw [h.pending_iff]
    simp [Holds, hnone, htemp]
  · rintro _ r ⟨rfl⟩ hheld
    exact h.not_holds u rfl (.inl ⟨r, htemp ▸ hheld⟩)

/-- The file in hand is held as the unverified fallback, where none is held. -/
theorem Account.holdUnverified (h : b.Account (some u)) (hnone : b.heldUnverified = none)
    (c : Candidate) (r : DlResult) :
    Account { b with bestUnverified := some c, heldUnverified := some (u, r) } none := by
  refine ⟨?_, ?_, fun _ h => by cases h⟩
  · intro t
    rw [h.pending_iff]
    simp [Holds, hnone, or_comm]
  · rintro fb r' hfb ⟨rfl⟩
    exact h.not_holds _ rfl (.inr ⟨fb, hfb, rfl⟩)

/-- The unverified fallback is taken in hand. -/
theorem Account.takeUnverified (h : b.Account none) {r : DlResult}
    (hheld : b.heldUnverified = some (u, r)) :
    Account { b with heldUnverified := none } (some u) := by
  refine ⟨?_, fun fb r _ => by simp, ?_⟩
  · intro t
    rw [h.pending_iff]
    simp [Holds, hheld, or_comm]
  · rintro t ht (⟨r', ⟨⟩⟩ | ⟨fb, hfb, rfl⟩)
    obtain rfl := Option.some.inj ht
    exact h.apart fb r hfb hheld

/-- The last resort is taken in hand. -/
theorem Account.takeFallback (h : b.Account none) {fb : HeldFallback}
    (hheld : b.heldFallback = some fb) :
    Account { b with heldFallback := none } (some fb.temp) := by
  refine ⟨?_, fun _ _ hnone => (by cases hnone), ?_⟩
  · intro t
    rw [h.pending_iff]
    simp [Holds, hheld]
  · rintro t ht (⟨r, hu⟩ | ⟨_, ⟨⟩, _⟩)
    obtain rfl := Option.some.inj ht
    exact h.apart fb r hheld hu

/-- Dropping the unverified fallback cleans up its file. -/
theorem Account.dropHeldUnverified (h : b.Account inHand) :
    b.dropHeldUnverified.Account inHand := by
  unfold Body.dropHeldUnverified
  cases hheld : b.heldUnverified with
  | none => exact h
  | some x =>
    obtain ⟨u, r⟩ := x
    refine ⟨?_, fun fb r _ => by simp, ?_⟩
    · intro t
      show Pending (b.effects ++ [.cleaned u]) t ↔ _
      rw [pending_cleaned rfl, h.pending_iff]
      simp only [Holds, hheld, reduceCtorEq, exists_false, false_or, Option.some.injEq,
        Prod.mk.injEq]
      constructor
      · rintro ⟨(⟨_, rfl, _⟩ | hfb) | hin, hne⟩
        · exact absurd rfl hne
        · exact .inl hfb
        · exact .inr hin
      -- the two files that are held are not the same
      · rintro (⟨fb, hfb, rfl⟩ | hin)
        · refine ⟨.inl (.inr ⟨fb, hfb, rfl⟩), ?_⟩
          rintro rfl
          exact h.apart fb r hfb hheld
        · refine ⟨.inr hin, ?_⟩
          rintro rfl
          exact h.not_holds t hin (.inl ⟨r, hheld⟩)
    · rintro t ht (⟨r', ⟨⟩⟩ | hfb)
      exact h.not_holds t ht (.inr hfb)

/-- Dropping the last resort cleans up its file. -/
theorem Account.dropHeldFallback (h : b.Account inHand) :
    b.dropHeldFallback.Account inHand := by
  unfold Body.dropHeldFallback
  cases hheld : b.heldFallback with
  | none => exact h
  | some fb =>
    refine ⟨?_, fun _ _ hnone => (by cases hnone), ?_⟩
    · intro t
      show Pending (b.effects ++ [.cleaned fb.temp]) t ↔ _
      rw [pending_cleaned rfl, h.pending_iff]
      simp only [Holds, hheld, reduceCtorEq, false_and, exists_false, or_false, Option.some.injEq,
        exists_eq_left']
      constructor
      · rintro ⟨(hu | hfb) | hin, hne⟩
        · exact .inl hu
        · exact absurd hfb.symm hne
        · exact .inr hin
      · rintro (⟨r, hu⟩ | hin)
        · refine ⟨.inl (.inl ⟨r, hu⟩), ?_⟩
          rintro rfl
          exact h.apart fb r hheld hu
        · refine ⟨.inr hin, ?_⟩
          rintro rfl
          exact h.not_holds _ hin (.inr ⟨fb, hheld, rfl⟩)
    · rintro t ht (hu | ⟨_, ⟨⟩, _⟩)
      exact h.not_holds t ht (.inl hu)

/-- Offering the file in hand as a last resort disposes of it or holds it. -/
theorem Account.holdFallback (h : b.Account (some u)) (fb : HeldFallback) (htemp : fb.temp = u) :
    (b.holdFallback fb).Account none := by
  unfold Body.holdFallback
  split
  · refine h.dispose ?_ rfl rfl
    intro t
    show Pending (b.effects ++ [.cleaned fb.temp]) t ↔ _
    rw [pending_cleaned rfl, htemp]
  · exact h.dropHeldFallback.hold (by simp) htemp

theorem Fresh.log (h : b.Fresh u) {es : List Effect} (hes : ∀ e ∈ es, e.temp ≠ some u) :
    (b.log es).Fresh u := by
  intro e he
  rcases List.mem_append.mp he with he | he
  · exact h e he
  · exact hes e he

/-- Dropping a held file is about that file alone. -/
theorem Fresh.dropHeldUnverified (h : b.Fresh u) (hnot : ¬ b.Holds u) :
    b.dropHeldUnverified.Fresh u := by
  unfold Body.dropHeldUnverified
  split
  · rename_i temp r hheld
    intro e he
    rcases List.mem_append.mp he with he | he
    · exact h e he
    · rw [List.mem_singleton.mp he]
      intro heq
      exact hnot (.inl ⟨r, Option.some.inj heq ▸ hheld⟩)
  · exact h

theorem Fresh.dropHeldFallback (h : b.Fresh u) (hnot : ¬ b.Holds u) :
    b.dropHeldFallback.Fresh u := by
  unfold Body.dropHeldFallback
  split
  · rename_i fb hheld
    intro e he
    rcases List.mem_append.mp he with he | he
    · exact h e he
    · rw [List.mem_singleton.mp he]
      intro heq
      exact hnot (.inr ⟨fb, hheld, Option.some.inj heq⟩)
  · exact h

theorem Fresh.holdFallback (h : b.Fresh u) (hnot : ¬ b.Holds u) (fb : HeldFallback)
    (htemp : fb.temp ≠ u) : (b.holdFallback fb).Fresh u := by
  unfold Body.holdFallback
  split
  · intro e he
    rcases List.mem_append.mp he with he | he
    · exact h e he
    · rw [List.mem_singleton.mp he]
      intro heq
      exact htemp (Option.some.inj heq)
  · exact h.dropHeldFallback hnot

end Body

/-! ### One turn -/

variable {O : Outside} {W : TrackWorld} {b : Body} {u : Temp}

/-- The file of a turn comes into hand when it is downloaded. -/
theorem Body.Account.downloaded {ci : ℕ} (h : b.Account none) (hfresh : b.Fresh (.attempt ci))
    (reason : String) : (b.downloaded (.attempt ci) reason).Account (some (.attempt ci)) := by
  have hnoted : ∀ e ∈ b.effects ++ [.noted true ""], e.temp ≠ some (.attempt ci) :=
    hfresh.log (by simp [Effect.temp])
  refine h.download hfresh ?_ rfl rfl
  intro t
  show Pending (b.effects ++ [.noted true "", .downloaded (.attempt ci),
    .measured (.attempt ci) reason]) t ↔ _
  rw [List.append_cons, pending_downloaded hnoted rfl, pending_quiet rfl]

/-- One turn keeps the account. -/
theorem act_account {ci : ℕ} (h : b.Account none) (hfresh : b.Fresh (.attempt ci))
    (hheld : b.heldUnverified.isSome = b.bestUnverified.isSome) (c : Candidate) (f : Found) :
    (act O W ci c b f).body.Account none := by
  have htagged : ∀ r reason, Body.Account ((b.downloaded (.attempt ci) reason).tagged W.track
      (W.inputs ci).config r) (some (.attempt ci)) := by
    intro r reason
    exact (h.downloaded hfresh reason).congr (fun _ => Iff.rfl) rfl rfl
  cases f with
  | skip => exact h.dropHeldUnverified.congr (fun _ => Iff.rfl) rfl rfl
  | lowScore => exact h.congr (fun _ => Iff.rfl) rfl rfl
  | liveStream => exact h.congr (fun _ => pending_quiet rfl) rfl rfl
  | downloadSkipped =>
    have hclean : Body.Account ((b.setStatus .skipped).log [.cleaned (.attempt ci)]) none :=
      h.clean hfresh (fun _ => pending_cleaned rfl) rfl rfl
    exact Body.Account.dropHeldUnverified (hclean.congr (fun _ => Iff.rfl) rfl rfl)
  | downloadFailed said =>
    simp only [act, Turned.body_ite]
    cases said with
    | none => exact h.clean hfresh (fun _ => pending_cleaned rfl) rfl rfl
    | some e =>
      have hnoted : Body.Account (b.log [.noted false e.1]) none :=
        h.congr (fun _ => pending_quiet rfl) rfl rfl
      exact hnoted.clean (hfresh.log (by simp [Effect.temp])) (fun _ => pending_cleaned rfl) rfl rfl
  | missing left =>
    simp only [act, Turned.body_ite]
    exact h.congr (fun _ => pending_quiet (by cases left <;> rfl)) rfl rfl
  | rejectedLength r reason =>
    exact (h.downloaded hfresh reason).dispose (fun _ => pending_cleaned rfl) rfl rfl
  | otherRecording r reason fp =>
    exact ((htagged r reason).holdFallback (lastResort ..) rfl).congr
      (fun _ => Iff.rfl) rfl rfl
  | mismatch r reason fp matchedId =>
    exact (htagged r reason).dispose (fun _ => pending_cleaned rfl) rfl rfl
  | unverified r reason =>
    simp only [act]
    split
    -- the first one: no file is held unverified yet
    · rename_i hnone
      have hnotHeld : b.heldUnverified = none := by
        rw [← Option.not_isSome_iff_eq_none, hheld, Option.not_isSome_iff_eq_none]
        exact Option.isNone_iff_eq_none.mp hnone
      exact ((htagged r reason).holdUnverified hnotHeld c r).congr (fun _ => Iff.rfl) rfl rfl
    · exact (htagged r reason).dispose (fun _ => pending_cleaned rfl) rfl rfl
  | kept r reason how fp =>
    have hkept : Body.Account (((b.downloaded (.attempt ci) reason).tagged W.track
        (W.inputs ci).config r).noteKept O W.track c fp how) (some (.attempt ci)) :=
      (htagged r reason).congr (fun _ => by simp) (by simp) (by simp)
    simp only [act]
    split
    · exact (hkept.holdFallback (lastResort ..) rfl).congr (fun _ => Iff.rfl) rfl rfl
    · exact hkept.dropHeldUnverified.dispose (fun _ => pending_accepted rfl) rfl rfl

/-- One turn is about its own file and those that are held. -/
theorem act_fresh {ci : ℕ} (h : b.Account none) (hfresh : b.Fresh u) (hne : .attempt ci ≠ u)
    (c : Candidate) (f : Found) : (act O W ci c b f).body.Fresh u := by
  have hnot : ¬ b.Holds u := h.not_holds_fresh hfresh
  have hdownloaded : ∀ reason, (b.downloaded (.attempt ci) reason).Fresh u := by
    intro reason
    exact hfresh.log (by simp [Effect.temp, hne])
  have hclean : Body.Fresh (b.log [.cleaned (.attempt ci)]) u :=
    hfresh.log (by simp [Effect.temp, hne])
  cases f with
  | skip => exact hfresh.dropHeldUnverified hnot
  | lowScore => exact hfresh
  | liveStream => exact hfresh.log (by simp [Effect.temp])
  | downloadSkipped => exact Body.Fresh.dropHeldUnverified hclean hnot
  | downloadFailed said =>
    simp only [act, Turned.body_ite]
    cases said with
    | none => exact hclean
    | some e =>
      have hnoted : Body.Fresh (b.log [.noted false e.1]) u := hfresh.log (by simp [Effect.temp])
      exact hnoted.log (by simp [Effect.temp, hne])
  | missing left =>
    simp only [act, Turned.body_ite]
    exact hfresh.log (by cases left <;> simp [Effect.temp])
  | rejectedLength r reason => exact (hdownloaded reason).log (by simp [Effect.temp, hne])
  | otherRecording r reason fp =>
    have htagged : Body.Fresh ((b.downloaded (.attempt ci) reason).tagged W.track
        (W.inputs ci).config r) u := hdownloaded reason
    exact htagged.holdFallback hnot (lastResort ..) hne
  | mismatch r reason fp matchedId => exact (hdownloaded reason).log (by simp [Effect.temp, hne])
  | unverified r reason =>
    simp only [act]
    split
    · exact hdownloaded reason
    · exact (hdownloaded reason).log (by simp [Effect.temp, hne])
  | kept r reason how fp =>
    have hkept : Body.Fresh (((b.downloaded (.attempt ci) reason).tagged W.track
        (W.inputs ci).config r).noteKept O W.track c fp how) u := by
      simpa [Body.Fresh] using hdownloaded reason
    have hnotKept : ¬ Body.Holds (((b.downloaded (.attempt ci) reason).tagged W.track
        (W.inputs ci).config r).noteKept O W.track c fp how) u := by
      simpa [Body.Holds] using hnot
    simp only [act]
    split
    · exact hkept.holdFallback hnotKept (lastResort ..) hne
    · exact (hkept.dropHeldUnverified hnotKept).log (by simp [Effect.temp, hne])

/-! ### Accepted files -/

/-- The file that an effect accepts. -/
def Effect.acceptance : Effect → Option Accepted
  | .accepted a => some a
  | _ => none

/-- The files that were accepted. -/
def acceptances (es : List Effect) : List Accepted := es.filterMap Effect.acceptance

@[simp] theorem acceptances_append (es es' : List Effect) :
    acceptances (es ++ es') = acceptances es ++ acceptances es' :=
  List.filterMap_append

@[simp] theorem acceptances_nil : acceptances [] = [] := rfl

@[simp] theorem acceptances_cons (e : Effect) (es : List Effect) :
    acceptances (e :: es) = e.acceptance.toList ++ acceptances es := by
  cases h : e.acceptance <;> simp [acceptances, h]

@[simp] theorem acceptances_dropHeldUnverified (b : Body) :
    acceptances b.dropHeldUnverified.effects = acceptances b.effects :=
  b.filterMap_dropHeldUnverified fun _ => rfl

@[simp] theorem acceptances_dropHeldFallback (b : Body) :
    acceptances b.dropHeldFallback.effects = acceptances b.effects :=
  b.filterMap_dropHeldFallback fun _ => rfl

@[simp] theorem acceptances_holdFallback (b : Body) (fb : HeldFallback) :
    acceptances (b.holdFallback fb).effects = acceptances b.effects :=
  b.filterMap_holdFallback (fun _ => rfl) fb

/-- A turn accepts a file only to end the loop. -/
theorem act_acceptances (O : Outside) (W : TrackWorld) (b : Body) (ci : ℕ) (c : Candidate)
    (f : Found) : (acceptances (act O W ci c b f).body.effects).length =
      (acceptances b.effects).length + if f.accepts then 1 else 0 := by
  cases f with
  | downloadFailed said =>
    simp only [act, Turned.body_ite]
    cases said <;> simp [Effect.acceptance, Found.accepts]
  | missing left =>
    simp only [act, Turned.body_ite]
    cases left <;> simp [Effect.acceptance, Found.accepts]
  | unverified r reason =>
    simp only [act]
    split <;> simp [Effect.acceptance, Found.accepts]
  | kept r reason how fp =>
    by_cases hreason : reason = ""
    · simp [act, Body.acceptTrackFile, Effect.acceptance, Found.accepts, hreason]
    · simp [act, Effect.acceptance, Found.accepts, hreason]
  | _ => simp [act, Effect.acceptance, Found.accepts]

/-- A turn leaves at most its own file with another ending. -/
theorem act_strays (O : Outside) (W : TrackWorld) (b : Body) (ci : ℕ) (c : Candidate)
    (f : Found) : strays (act O W ci c b f).body.effects =
      strays b.effects ++ if f.strands then [.attempt ci] else [] := by
  have hdropped : ∀ b : Body, strays b.dropHeldUnverified.effects = strays b.effects :=
    fun b => b.filterMap_dropHeldUnverified fun _ => rfl
  have hheld : ∀ (b : Body) fb, strays (b.holdFallback fb).effects = strays b.effects :=
    fun b fb => b.filterMap_holdFallback (fun _ => rfl) fb
  cases f with
  | downloadFailed said =>
    simp only [act, Turned.body_ite]
    cases said <;> simp [Effect.stray, Found.strands]
  | missing left =>
    simp only [act, Turned.body_ite]
    cases left <;> simp [Effect.stray, Found.strands]
  | unverified r reason =>
    simp only [act]
    split <;> simp [Effect.stray, Found.strands]
  | kept r reason how fp =>
    by_cases hreason : reason = ""
    · simp [act, Body.acceptTrackFile, Effect.stray, Found.strands, hreason, hdropped]
    · simp [act, Effect.stray, Found.strands, hreason, hheld]
  | _ => simp [act, Effect.stray, Found.strands, hdropped, hheld]

/-! ### The loop -/

/-- Before the turn `ci`: the account, the files of the turns to come are new, nothing was
done about files with another ending, and at most one file was accepted. -/
structure Body.Keeps (b : Body) (ci : ℕ) : Prop where
  account : b.Account none
  fresh : ∀ k, ci ≤ k → b.Fresh (.attempt k)
  fallback : b.Fresh .fallback
  strays : ∀ t ∈ strays b.effects, b.Fresh t ∧ ∃ k < ci, t = .attempt k
  acceptances : (acceptances b.effects).length = if b.accepted then 1 else 0

theorem act_keeps {xs : List Turnout} {ci : ℕ} (h : b.Keeps ci)
    (hleft : (Turned.next b).LeftBy xs) (c : Candidate) (f : Found) :
    (act O W ci c b f).body.Keeps (ci + 1) where
  account := act_account h.account (h.fresh ci le_rfl) hleft.held c f
  fresh := by
    intro k hk
    have hne : Temp.attempt ci ≠ .attempt k := by
      simp
      omega
    exact act_fresh h.account (h.fresh k (by omega)) hne c f
  fallback := act_fresh h.account h.fallback (by simp) c f
  strays := by
    intro t ht
    rw [act_strays, List.mem_append] at ht
    rcases ht with hold | hnew
    · obtain ⟨hfresh, k, hk, rfl⟩ := h.strays t hold
      have hne : Temp.attempt ci ≠ .attempt k := by
        simp
        omega
      exact ⟨act_fresh h.account hfresh hne c f, k, by omega, rfl⟩
    · cases f with
      | missing left =>
        obtain rfl : t = .attempt ci := by cases left <;> simp_all [Found.strands]
        refine ⟨?_, ci, by omega, rfl⟩
        simp only [act, Turned.body_ite]
        exact (h.fresh ci le_rfl).log (by cases left <;> simp [Effect.temp])
      | _ => simp [Found.strands] at hnew
  acceptances := by
    have haccepted : b.accepted = false := hleft.accepted.trans hleft.of_next.1
    have hdoes := act_does O W b haccepted (hleft.postprocessError.trans hleft.of_next.2.2)
      hleft.held ci c f
    rw [act_acceptances, h.acceptances, hdoes.accepted, haccepted]
    simp

/-! ### After the loop -/

/-- What was done since `b` is about files of `P`, and leaves none with another ending. -/
def Body.Since (b : Body) (P : Temp → Prop) (b' : Body) : Prop :=
  ∃ es, b'.effects = b.effects ++ es ∧ ∀ e ∈ es, e.stray = none ∧ ∀ t, e.temp = some t → P t

namespace Body

variable {P : Temp → Prop} {b₁ b₂ b₃ : Body}

theorem Since.refl (P : Temp → Prop) (b : Body) : b.Since P b := ⟨[], by simp⟩

theorem Since.trans (h : b₁.Since P b₂) (h' : b₂.Since P b₃) : b₁.Since P b₃ := by
  obtain ⟨es, hes, hP⟩ := h
  obtain ⟨es', hes', hP'⟩ := h'
  refine ⟨es ++ es', by rw [hes', hes, List.append_assoc], ?_⟩
  intro e he
  exact (List.mem_append.mp he).elim (hP e) (hP' e)

/-- Nothing but the effects matters. -/
theorem Since.congr (h : b₁.Since P b₂) (heffects : b₃.effects = b₂.effects) : b₁.Since P b₃ := by
  obtain ⟨es, hes, hP⟩ := h
  exact ⟨es, heffects.trans hes, hP⟩

theorem Since.log (h : b₁.Since P b₂) (es : List Effect)
    (hes : ∀ e ∈ es, e.stray = none ∧ ∀ t, e.temp = some t → P t) : b₁.Since P (b₂.log es) :=
  h.trans ⟨es, rfl, hes⟩

theorem Since.dropHeldUnverified (h : b₁.Since P b₂) (hP : ∀ t, b₂.Holds t → P t) :
    b₁.Since P b₂.dropHeldUnverified := by
  unfold Body.dropHeldUnverified
  split
  · rename_i temp r hheld
    refine h.trans ⟨[.cleaned temp], rfl, ?_⟩
    simpa [Effect.stray, Effect.temp] using hP temp (.inl ⟨r, hheld⟩)
  · exact h

theorem Since.dropHeldFallback (h : b₁.Since P b₂) (hP : ∀ t, b₂.Holds t → P t) :
    b₁.Since P b₂.dropHeldFallback := by
  unfold Body.dropHeldFallback
  split
  · rename_i fb hheld
    refine h.trans ⟨[.cleaned fb.temp], rfl, ?_⟩
    simpa [Effect.stray, Effect.temp] using hP fb.temp (.inr ⟨fb, hheld, rfl⟩)
  · exact h

variable {b : Body} {tried : ℕ} {low : Bool}

/-! The functions below are called with a body that has done the same as `b₂`. -/

theorem Since.fail (h : b₁.Since P b₂) (heffects : b.effects = b₂.effects) :
    b₁.Since P (LidarrYtdl.fail O W tried low b) := by
  have hrecorded : ∀ {b : Body} (reason : String) (attempts : List Attempt), b₁.Since P b →
      b₁.Since P (recordTrackFailure b reason attempts) := fun reason attempts h =>
    (h.log [.failure reason attempts] (by simp [Effect.stray, Effect.temp])).congr rfl
  unfold LidarrYtdl.fail
  dsimp only
  split
  · exact hrecorded _ _ ((h.congr heffects).log [.pausedForFullDisk]
      (by simp [Effect.stray, Effect.temp]))
  · exact hrecorded _ _ (h.congr heffects)

theorem Since.acceptTrackFile (h : b₁.Since P b₂) (heffects : b.effects = b₂.effects)
    {temp : Temp} (hP : P temp) (r : DlResult) (fp : FpData) :
    b₁.Since P (b.acceptTrackFile W temp r fp) := by
  refine (h.congr heffects).trans ⟨[.accepted ⟨temp, r, fp, b.attempts⟩,
    .succeeded W.trackDownloadId r.youtubeUrl r.youtubeTitle], rfl, ?_⟩
  simpa [Effect.stray, Effect.temp] using hP

theorem Since.finishFallback (h : b₁.Since P b₂) (heffects : b.effects = b₂.effects)
    (c : Candidate) {temp : Temp} (hP : P temp) (result : Except (Option String) DlResult) :
    b₁.Since P (LidarrYtdl.finishFallback O W tried b c temp result) := by
  have hcleaned : b₁.Since P (b.log [.cleaned temp]) :=
    (h.congr heffects).log [.cleaned temp] (by simpa [Effect.stray, Effect.temp] using hP)
  unfold LidarrYtdl.finishFallback
  split
  · refine h.acceptTrackFile ?_ hP _ _
    exact heffects
  · exact hcleaned.fail rfl
  · exact hcleaned.fail rfl

theorem Since.unverifiedFallback (h : b₁.Since P b₂) (hP : ∀ t, b₂.Holds t → P t)
    (hfallback : P .fallback) (c : Candidate) :
    b₁.Since P (LidarrYtdl.unverifiedFallback O W tried b₂ c) := by
  have hdropped : b₁.Since P b₂.dropHeldUnverified := h.dropHeldUnverified hP
  unfold LidarrYtdl.unverifiedFallback
  split
  · have hnoted : ∀ message, b₁.Since P
        (b₂.note W.track c .REJECTED_LOW_SCORE .empty message).dropHeldUnverified :=
      fun message => Since.dropHeldUnverified (h.congr rfl) hP
    apply (hnoted _).fail
    rfl
  · split
    · rename_i temp r hheld _
      refine h.finishFallback ?_ c (hP temp (.inl ⟨r, hheld⟩)) _
      rfl
    · have hagain : b₁.Since P (b₂.dropHeldUnverified.log [.downloaded .fallback]) :=
        hdropped.log [.downloaded .fallback] (by simpa [Effect.stray, Effect.temp] using hfallback)
      dsimp only
      split
      · refine (hdropped.log [.cleaned .fallback] ?_).congr rfl
        simpa [Effect.stray, Effect.temp] using hfallback
      · refine hdropped.finishFallback ?_ c hfallback _
        rfl
      · split
        · refine hagain.finishFallback ?_ c hfallback _
          rfl
        · refine hdropped.finishFallback ?_ c hfallback _
          rfl

/-- **What follows the loop is about the files that are held, and the fallback.** -/
theorem since_afterLoop (O : Outside) (W : TrackWorld) (tried : ℕ) (b : Body) :
    b.Since (fun t => b.Holds t ∨ t = .fallback) (LidarrYtdl.afterLoop O W tried b) := by
  have hrefl := Since.refl (fun t => b.Holds t ∨ t = .fallback) b
  unfold LidarrYtdl.afterLoop
  split
  · exact hrefl.dropHeldFallback fun t ht => .inl ht
  · split
    · rename_i fb hheld _
      have haccepted : ∀ b' : Body, b'.effects = b.effects → Since b
          (fun t => b.Holds t ∨ t = .fallback) (b'.acceptTrackFile W fb.temp fb.result fb.fp) :=
        fun b' heffects => hrefl.acceptTrackFile heffects (.inl (.inr ⟨fb, hheld, rfl⟩)) _ _
      unfold keepLastResort
      refine ((haccepted _ ?_).log [.notified fb.note] ?_).congr rfl
      · rfl
      · simp [Effect.stray, Effect.temp]
    · exact hrefl.unverifiedFallback (fun t ht => .inl ht) (.inr rfl) _
    · exact hrefl.fail rfl

end Body

/-- When the function returns: the account, nothing is held unverified, and whether a last
resort is. -/
structure Body.Settled (b : Body) (left : Bool) : Prop where
  account : b.Account none
  unverified : b.heldUnverified = none
  fallback : b.heldFallback.isSome = left
  acceptances : (acceptances b.effects).length ≤ 1

variable {left low : Bool} {tried : ℕ}

/-- Recording the failure changes nothing about the files. -/
theorem Body.Settled.fail (h : b.Settled left) : (fail O W tried low b).Settled left := by
  have hpaused : Body.Settled (b.log [.pausedForFullDisk]) left :=
    ⟨h.account.congr (fun _ => pending_quiet rfl) rfl rfl, h.unverified, h.fallback, by
      simpa [Effect.acceptance] using h.acceptances⟩
  have hrecorded : ∀ {b : Body} (reason : String) (attempts : List Attempt), b.Settled left →
      (recordTrackFailure b reason attempts).Settled left := by
    intro b reason attempts h
    refine ⟨h.account.congr (fun _ => pending_quiet rfl) rfl rfl, h.unverified, h.fallback, ?_⟩
    simpa [recordTrackFailure, Effect.acceptance] using h.acceptances
  unfold LidarrYtdl.fail
  dsimp only
  split
  · exact hrecorded _ _ hpaused
  · exact hrecorded _ _ h

/-- The file in hand is accepted or cleaned up. -/
theorem finishFallback_settled {temp : Temp} (h : b.Account (some temp))
    (hu : b.heldUnverified = none) (hnone : acceptances b.effects = []) (c : Candidate)
    (r : DlResult) : (finishFallback O W tried b c temp (.ok r)).Settled b.heldFallback.isSome := by
  unfold finishFallback
  cases W.fbExists with
  | true =>
    refine ⟨h.dispose (fun _ => pending_accepted rfl) rfl rfl, hu, rfl, ?_⟩
    simp [Body.acceptTrackFile, Body.noteUnverifiedKeep, Effect.acceptance, hnone]
  | false =>
    refine Body.Settled.fail ⟨h.dispose (fun _ => pending_cleaned rfl) rfl rfl, hu, rfl, ?_⟩
    simp [Effect.acceptance, hnone]

/-- The unverified fallback leaves the last resort alone. -/
theorem unverifiedFallback_settled (h : b.Account none) (hfresh : b.Fresh .fallback)
    (hnone : acceptances b.effects = []) (c : Candidate) :
    (unverifiedFallback O W tried b c).Settled b.heldFallback.isSome := by
  have hdropped : b.dropHeldUnverified.Account none := h.dropHeldUnverified
  have hfresh' := hfresh.dropHeldUnverified (h.not_holds_fresh hfresh)
  have hcleaned : ∀ b' : Body, b'.effects = b.dropHeldUnverified.effects ++ [.cleaned .fallback] →
      b'.heldUnverified = none → b'.heldFallback = b.heldFallback →
        b'.Settled b.heldFallback.isSome := by
    intro b' heffects hu hf
    refine ⟨hdropped.clean hfresh' ?_ (by simp [hu]) (by simp [hf]), hu, by rw [hf], ?_⟩
    · intro t
      rw [heffects, pending_cleaned rfl]
    · simp [heffects, Effect.acceptance, hnone]
  unfold unverifiedFallback
  split
  -- its score is too low
  · have hnoted : ∀ attempts, Body.Account (Body.dropHeldUnverified { b with attempts := attempts })
        none := fun _ => Body.Account.dropHeldUnverified (h.congr (fun _ => Iff.rfl) rfl rfl)
    refine Body.Settled.fail ⟨(hnoted _).congr (fun _ => Iff.rfl) rfl rfl, ?_, ?_, ?_⟩
    · simp
    · simp
    · simp [hnone]
  · split
    -- its file is still there
    · rename_i temp r hheld hexists
      exact finishFallback_settled (h.takeUnverified hheld) rfl hnone c r
    -- it is downloaded again
    · dsimp only
      split
      · exact hcleaned _ rfl (by simp) (by simp)
      · exact (hcleaned _ rfl (by simp) (by simp)).fail
      · rename_i r hdone
        cases hexists : W.fbExists with
        | true =>
          have hinHand : Body.Account ((b.dropHeldUnverified.setStatus .downloading).log
              [.downloaded .fallback]) (some .fallback) :=
            hdropped.download hfresh' (fun _ => pending_downloaded hfresh' rfl) rfl rfl
          have hfinish : (finishFallback O W tried _ c .fallback (.ok r)).Settled _ :=
            finishFallback_settled hinHand (by simp) (by simp [Effect.acceptance, hnone]) c r
          simpa using hfinish
        | false =>
          unfold finishFallback
          rw [hexists]
          exact (hcleaned _ rfl (by simp) (by simp)).fail

/-- A last resort that is held stays behind where an unverified fallback is tried. -/
theorem afterLoop_settled {n : ℕ} (h : b.Keeps n)
    (hu : b.heldUnverified.isSome = (b.bestUnverified.isSome && !b.accepted)) :
    (afterLoop O W tried b).Settled
      (!b.accepted && b.heldFallback.isSome && b.bestUnverified.isSome) := by
  have honce := h.acceptances
  unfold afterLoop
  cases haccepted : b.accepted with
  | true =>
    rw [haccepted] at hu honce
    have hnone : b.heldUnverified = none := by simpa using hu
    refine ⟨h.account.dropHeldFallback, by simp [hnone], by simp, ?_⟩
    simp [honce]
  | false =>
    rw [haccepted] at hu honce
    have hnone : acceptances b.effects = [] := by simpa using honce
    -- nothing was accepted: the unverified fallback comes before the last resort
    cases hbest : b.bestUnverified with
    | some c =>
      have hfallback : (unverifiedFallback O W tried b c).Settled b.heldFallback.isSome :=
        unverifiedFallback_settled h.account h.fallback hnone c
      cases hheld : b.heldFallback <;> simpa [hheld] using hfallback
    | none =>
      rw [hbest] at hu
      have hnotHeld : b.heldUnverified = none := by simpa using hu
      cases hheld : b.heldFallback with
      | some fb =>
        have hlog : ∀ t, Pending (keepLastResort W b fb).effects t ↔
            Pending b.effects t ∧ t ≠ fb.temp := by
          intro t
          show Pending ((b.effects ++ [_, _]) ++ [_]) t ↔ _
          rw [pending_quiet rfl, pending_accepted rfl]
        refine ⟨(h.account.takeFallback hheld).dispose hlog rfl rfl, hnotHeld, rfl, ?_⟩
        · simp [keepLastResort, Body.acceptTrackFile, Effect.acceptance, hnone]
      | none =>
        exact Body.Settled.fail ⟨h.account, hnotHeld, by simp [hheld], by simp [hnone]⟩

/-! ### The whole function -/

/-- Every file that a download has left was accepted or cleaned up, and at most one was
accepted. -/
def OwnsTempFiles (b : Body) : Prop :=
  (∀ t, ¬ LeftOver b.effects t) ∧ (acceptances b.effects).length ≤ 1

/-- A last resort is offered, and then the track is skipped, or no file is accepted in the
loop and AcoustID could not say anything about some file. -/
def abandonsLastResort (O : Outside) (W : TrackWorld) : Bool :=
  let xs := course O W
  xs.any (·.2.offers) &&
    (xs.any (·.2.skips) || (!xs.any (·.2.accepts) && xs.any (·.2.isUnverified)))

/-- A download leaves a file with another ending than the one that is looked for. -/
def strandsFile (O : Outside) (W : TrackWorld) : Bool := (course O W).any (·.2.strands)

/-- A file stays behind: a last resort, or one that is not looked for. -/
def leavesFiles (O : Outside) (W : TrackWorld) : Bool :=
  abandonsLastResort O W || strandsFile O W

/-- What is held when the function returns is left behind, and so is what has another ending. -/
theorem Body.Settled.owns_iff (h : b.Settled left)
    (hstrays : ∀ t ∈ strays b.effects, b.Fresh t) :
    OwnsTempFiles b ↔ left = false ∧ strays b.effects = [] := by
  have hleft : ∀ t, LeftOver b.effects t ↔
      (∃ fb, b.heldFallback = some fb ∧ fb.temp = t) ∨ t ∈ strays b.effects := by
    intro t
    rw [leftOver_iff hstrays, h.account.pending_iff]
    simp [Body.Holds, h.unverified]
  rw [← h.fallback]
  constructor
  · rintro ⟨hnone, _⟩
    refine ⟨?_, List.eq_nil_iff_forall_not_mem.mpr fun t ht =>
      hnone t ((hleft t).mpr (.inr ht))⟩
    cases hheld : b.heldFallback with
    | none => rfl
    | some fb => exact absurd ((hleft fb.temp).mpr (.inl ⟨fb, hheld, rfl⟩)) (hnone _)
  · rintro ⟨hnone, hempty⟩
    refine ⟨?_, h.acceptances⟩
    intro t ht
    rcases (hleft t).mp ht with ⟨fb, hheld, _⟩ | hstray
    · rw [hheld] at hnone
      cases hnone
    · rw [hempty] at hstray
      cases hstray

theorem Body.init_keeps (status : Status) : (Body.init.setStatus status).Keeps 0 where
  account := ⟨by simp [Body.init, Pending, Body.Holds], fun fb r h => (by cases h),
    fun _ h => (by cases h)⟩
  fresh := by simp [Body.init, Body.Fresh]
  fallback := by simp [Body.init, Body.Fresh]
  strays := by simp [Body.init]
  acceptances := rfl

/-- The loop keeps the account. -/
theorem iterate_keeps (status : Status) (hstart : W.skipAtStart = false) :
    ∃ n, (iterate O W (Body.init.setStatus status)).2.body.Keeps n :=
  iterate_invariant (I := fun n _ b => b.Keeps n) (fun c f hleft h => act_keeps h hleft c f)
    (Body.init_leftBy status) (Body.init_keeps status) hstart

/-- Which turns leave a file with another ending is read from the course. -/
theorem iterate_strays (status : Status) (hstart : W.skipAtStart = false) :
    strays (iterate O W (Body.init.setStatus status)).2.body.effects = [] ↔
      strandsFile O W = false := by
  obtain ⟨_, h⟩ := iterate_invariant (O := O) (W := W)
    (I := fun _ xs b => strays b.effects = [] ↔ xs.any (·.2.strands) = false)
    (fun {ci xs b} c f _ h => by
      rw [act_strays, List.any_append, List.append_eq_nil_iff, h]
      cases hf : f.strands <;> simp [hf])
    (Body.init_leftBy status) (by simp [Body.init]) hstart
  exact h

/-- Nothing is done about a file with another ending after the loop either. -/
theorem afterLoop_strays {n : ℕ} (h : b.Keeps n) :
    strays (afterLoop O W tried b).effects = strays b.effects ∧
      ∀ t ∈ strays b.effects, (afterLoop O W tried b).Fresh t := by
  obtain ⟨es, heffects, hes⟩ := Body.since_afterLoop O W tried b
  have hnone : strays es = [] := List.filterMap_eq_nil_iff.mpr fun e he => (hes e he).1
  rw [heffects, strays_append, hnone, List.append_nil]
  refine ⟨rfl, ?_⟩
  intro t ht e he
  obtain ⟨hfresh, k, _, rfl⟩ := h.strays t ht
  rw [heffects] at he
  rcases List.mem_append.mp he with he | he
  · exact hfresh e he
  · intro htemp
    rcases (hes e he).2 _ htemp with hheld | hfallback
    · exact h.account.not_holds_fresh hfresh hheld
    · cases hfallback

/-- After the loop a last resort stays behind if the loop has left an unverified candidate
and accepted nothing. -/
theorem afterLoop_owns_iff {T : Turned} {n : ℕ} (hkeeps : T.body.Keeps n)
    (hleft : T.LeftBy (course O W)) (hgoes : T.isStop = false) :
    OwnsTempFiles (afterLoop O W tried T.body) ↔
      abandonsLastResort O W = false ∧ strays T.body.effects = [] := by
  have hu := hleft.unverified
  have hskips := hleft.isStop
  rw [hgoes] at hu hskips
  have hsettled : (afterLoop O W tried T.body).Settled _ :=
    afterLoop_settled hkeeps (by simpa using hu)
  obtain ⟨hstrays, hfresh⟩ := @afterLoop_strays O W _ tried _ hkeeps
  rw [hsettled.owns_iff (hstrays ▸ hfresh), hstrays, hleft.accepted, hleft.fallback, hleft.best,
    abandonsLastResort, Option.isSome_map, List.isSome_find?, ← hskips]
  cases (course O W).any (·.2.offers) <;> cases (course O W).any (·.2.accepts) <;> simp

/-- A track that is skipped leaves the last resort behind. -/
theorem stop_owns_iff {T : Turned} {n : ℕ} (hkeeps : T.body.Keeps n)
    (hleft : T.LeftBy (course O W)) (hstop : T.isStop = true) :
    OwnsTempFiles T.body ↔ abandonsLastResort O W = false ∧ strays T.body.effects = [] := by
  have hskips : (course O W).any (·.2.skips) = true := hleft.isStop.symm.trans hstop
  have hunverified : T.body.heldUnverified = none := by
    have hheld := hleft.unverified
    rw [hstop, Bool.not_true, Bool.and_false] at hheld
    exact Option.isNone_iff_eq_none.mp (Option.isSome_eq_false_iff.mp hheld)
  have hsettled : T.body.Settled T.body.heldFallback.isSome :=
    ⟨hkeeps.account, hunverified, rfl, by rw [hkeeps.acceptances]; split <;> omega⟩
  rw [hsettled.owns_iff fun t ht => (hkeeps.strays t ht).1, hleft.fallback, abandonsLastResort,
    hskips]
  simp

/-- **When every temporary file is accepted or cleaned up.**  They are, and at most one is
accepted, unless a download has left a file with another ending than the one that is looked
for, or a last resort was offered and then the track was skipped, or no file was accepted in
the loop and some candidate was left unverified. -/
theorem ownsTempFiles_iff (O : Outside) (W : TrackWorld) :
    OwnsTempFiles (processTrackBody O W) ↔ leavesFiles O W = false := by
  rw [leavesFiles, Bool.or_eq_false_iff]
  rcases processTrackBody_cases O W with ⟨hcourse, heffects⟩ | ⟨hstart, tried, T, hT, hbody⟩
  · refine iff_of_true ?_ (by simp [abandonsLastResort, strandsFile, hcourse])
    rcases heffects with h | ⟨reason, h⟩ <;>
      simp [OwnsTempFiles, LeftOver, Effect.acceptance, h]
  · rw [← iterate_strays .searching hstart, ← hT]
    have hleft := iterate_leftBy (O := O) (W := W) (Body.init_leftBy .searching) hstart
    obtain ⟨n, hkeeps⟩ := iterate_keeps (O := O) .searching hstart
    rw [← hT] at hleft hkeeps
    rw [hbody]
    cases hstop : T.isStop with
    | true => exact stop_owns_iff hkeeps hleft hstop
    | false => exact afterLoop_owns_iff hkeeps hleft hstop

/-! ### A track that is stopped -/

/-- A search result. -/
def upload (url : String) : Candidate := ⟨url, "Song", "Band", 1, 200, false, false⟩

/-- A file of some length is downloaded, and AcoustID gives no answer. -/
def downloadedInputs (realSec : ℚ) : Inputs where
  skip := false
  live := false
  download := .done ⟨"", "Song", 1, 200, "opus"⟩
  realSec := realSec
  config := ⟨true, "key", 1 / 2, 10⟩
  verify := none
  fingerprint := none

/-- Two search results for a track of 200 seconds; the first is cut to 180 seconds, and
then the user stops. -/
def stoppedWorld : TrackWorld where
  track := ⟨"Song", "Band", 200000, some "recording"⟩
  skipAtStart := false
  albumCandidate := none
  search := [upload "first", upload "second"]
  skipWithoutCandidates := false
  config := ⟨true, "key", 1 / 2, 10⟩
  skipAtExtend := false
  inputs ci := if ci = 0 then downloadedInputs 180 else { downloadedInputs 200 with skip := true }
  heldExists := true
  redownload := .failed none
  fbExists := true
  fileSize := 0
  trackDownloadId := some 1

/-- An interpreter that is right about ASCII, and a channel that belongs to no artist. -/
def asciiOutside : Outside where
  extractVideoId _ := none
  toAscii s := s
  artistChannel _ _ := false
  hostFailurePrefix := "Host failure"
  diskFullPrefix := "Disk full"

/-- The file of the first result stays behind. -/
theorem stopped_leaves_file : ¬ OwnsTempFiles (processTrackBody asciiOutside stoppedWorld) := by
  have heffects : (processTrackBody asciiOutside stoppedWorld).effects =
      [.noted true "", .downloaded (.attempt 0), .measured (.attempt 0)
        "file is 180s, shorter than the expected 200s"] := by decide +kernel
  intro h
  refine h.1 (.attempt 0) ?_
  rw [heffects]
  simp [LeftOver]

end LidarrYtdl
end MediaHub

import Mathlib.Logic.Function.Basic

/-!
# Operations on files, and crashes

A program writes, copies, renames and removes files, one after the other, and can be stopped
at any moment.  A rename or a removal happens at once or not at all.  A file that is being
written or copied to when the program stops can hold anything.

## Main definitions

* `Files`, `FileOp` — the files, by their path, and what is done to them.
* `FileOp.applyAll` — all operations of a list.
* `CrashIn` — what can be there when the operations were stopped somewhere.

## Main results

* `CrashIn.other` — **a path that no operation names is as before.**
* `CrashIn.append` — a crash in two lists of operations is a crash in one of them.
-/

namespace MediaHub

/-- The files, by their path. -/
abbrev Files (ρ κ : Type*) := ρ → Option κ

inductive FileOp (ρ κ : Type*) where
  | write (p : ρ) (c : κ)
  | copy (src dst : ρ)
  /-- A rename, over what was there. -/
  | replace (src dst : ρ)
  | remove (p : ρ)
  deriving DecidableEq, Repr

variable {ρ κ : Type*} [DecidableEq ρ]

namespace FileOp

/-- The paths that the operation changes. -/
def paths : FileOp ρ κ → List ρ
  | .write p _ => [p]
  | .copy _ q => [q]
  | .replace p q => [p, q]
  | .remove p => [p]

def apply (fs : Files ρ κ) : FileOp ρ κ → Files ρ κ
  | .write p c => Function.update fs p (some c)
  | .copy p q => Function.update fs q (fs p)
  | .replace p q => Function.update (Function.update fs q (fs p)) p none
  | .remove p => Function.update fs p none

/-- All operations, in order. -/
def applyAll (fs : Files ρ κ) (ops : List (FileOp ρ κ)) : Files ρ κ := ops.foldl apply fs

/-- What a crash during the operation can leave. -/
def Torn (fs : Files ρ κ) : FileOp ρ κ → Files ρ κ → Prop
  | .write p _, fs' => ∃ c, fs' = Function.update fs p (some c)
  | .copy _ q, fs' => ∃ c, fs' = Function.update fs q (some c)
  | .replace .., _ => False
  | .remove _, _ => False

end FileOp

open FileOp

/-- What can be there when the operations were stopped, after all of them at the latest. -/
def CrashIn : Files ρ κ → List (FileOp ρ κ) → Files ρ κ → Prop
  | fs, [], fs' => fs' = fs
  | fs, op :: ops, fs' => fs' = fs ∨ op.Torn fs fs' ∨ CrashIn (op.apply fs) ops fs'

variable {fs fs' : Files ρ κ} {op : FileOp ρ κ} {ops ops' : List (FileOp ρ κ)} {p : ρ}

@[simp] theorem applyAll_nil : applyAll fs [] = fs := rfl

@[simp] theorem applyAll_cons : applyAll fs (op :: ops) = applyAll (op.apply fs) ops := rfl

theorem applyAll_append : applyAll fs (ops ++ ops') = applyAll (applyAll fs ops) ops' :=
  List.foldl_append

theorem FileOp.apply_other (hp : p ∉ op.paths) : op.apply fs p = fs p := by
  cases op <;> simp only [paths, List.mem_cons, List.not_mem_nil, or_false, not_or] at hp <;>
    simp [apply, Function.update_of_ne, hp]

theorem FileOp.Torn.other (h : op.Torn fs fs') (hp : p ∉ op.paths) : fs' p = fs p := by
  cases op with
  | write q _ | copy _ q =>
    obtain ⟨c, rfl⟩ := h
    exact Function.update_of_ne (List.ne_of_not_mem_cons hp) _ _
  | replace | remove => exact h.elim

/-- **A path that no operation names is as before.** -/
theorem CrashIn.other (h : CrashIn fs ops fs') (hp : ∀ op ∈ ops, p ∉ op.paths) :
    fs' p = fs p := by
  induction ops generalizing fs with
  | nil => rw [show fs' = fs from h]
  | cons op ops ih =>
    have hop := hp op List.mem_cons_self
    rcases h with rfl | h | h
    · rfl
    · exact h.other hop
    · rw [ih h fun op' hop' => hp op' (List.mem_cons_of_mem op hop'), apply_other hop]

/-- A crash in two lists of operations is a crash in one of them. -/
theorem CrashIn.append (h : CrashIn fs (ops ++ ops') fs') :
    CrashIn fs ops fs' ∨ CrashIn (applyAll fs ops) ops' fs' := by
  induction ops generalizing fs with
  | nil => exact .inr h
  | cons op ops ih =>
    rcases h with h | h | h
    · exact .inl (.inl h)
    · exact .inl (.inr (.inl h))
    · exact (ih h).imp_left fun h => .inr (.inr h)

/-- What is there after all operations. -/
theorem crashIn_applyAll : CrashIn fs ops (applyAll fs ops) := by
  induction ops generalizing fs with
  | nil => rfl
  | cons op ops ih => exact .inr (.inr ih)

theorem applyAll_other (hp : ∀ op ∈ ops, p ∉ op.paths) : applyAll fs ops p = fs p :=
  crashIn_applyAll.other hp

end MediaHub

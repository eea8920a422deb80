import MediaHub.Subgen.TaskQueue
import Mathlib.Data.List.Count
import Mathlib.Logic.Function.Basic

/-!
# Unloading the model

`stacks/subgen-r9/src/subgen.py`, `start_model`, `delete_model`, `schedule_model_cleanup`
and `perform_model_cleanup`: the model is loaded by the first task that needs it, and a
timer unloads it when the queue is idle and no request uses it directly.  The workers of
the task queue, the requests that bypass the queue and the timers are threads of their own.

## Main definitions

* `ServerState` — the task queue with the model, the direct requests and the timers.
* `ServerState.step` — a step of one of the threads.
* `StartsOutsideCleanup` — a step that does not call `start_model` between the idle check
  of a cleanup and its end.

## Main results

* `neverUnloadedInUse` — **whoever has started the model finds it loaded**, as long as no
  one starts it within a cleanup.
* `cleanupComes` — **when all is quiet and the model is loaded, a cleanup is on its way.**
-/

namespace MediaHub
namespace Subgen

/-! ### The threads -/

/-- A request of `/detect-language`, which uses the model outside the queue. -/
inductive Direct where
  /-- `active_direct_tasks` counts it. -/
  | counted
  /-- It is past `start_model`. -/
  | started
  /-- It is no longer counted; what is left is `delete_model`. -/
  | released
  /-- It is past the check of `delete_model`, which has found the system idle or not. -/
  | checked (idle : Bool)
  | over
  deriving DecidableEq, Repr

/-- `active_direct_tasks` counts the request. -/
def Direct.isCounted : Direct → Bool
  | .counted => true
  | .started => true
  | _ => false

/-- The request will still call `delete_model`, or has called it and found the system idle. -/
def Direct.Owes (d : Direct) : Prop := d ≠ .over ∧ d ≠ .checked false

theorem Direct.owes_of_counted {d : Direct} (h : d.isCounted = true) : d.Owes := by
  constructor <;> rintro rfl <;> cases h

/-- A timer of `schedule_model_cleanup`. -/
inductive CleanupTimer where
  | waiting
  /-- Its thread waits for `model_cleanup_lock`. -/
  | fired
  | cancelled
  | over
  deriving DecidableEq, Repr

/-- How far a thread is in `perform_model_cleanup`. -/
inductive Cleanup where
  /-- It has found the system to be cleared, or not. -/
  | checked (clear : Bool)
  /-- It is past `if model:`, and unloads the model, or not. -/
  | tested (unloads : Bool)
  deriving DecidableEq, Repr

/-- The cleanup will unload the model if it is loaded. -/
def Cleanup.Clears (c : Cleanup) : Prop := c = .checked true ∨ c = .tested true

instance : DecidablePred Cleanup.Clears := fun _ => inferInstanceAs (Decidable (_ ∨ _))

structure ServerState where
  tasks : QueueState
  /-- The workers that are past `start_model` with their task. -/
  withModel : Finset ℕ
  /-- The workers past the check of `delete_model`, and what it has found. -/
  checked : ℕ → Option Bool
  directs : List Direct
  activeDirectTasks : ℕ
  /-- `model is not None`. -/
  model : Bool
  timers : List CleanupTimer
  /-- `model_cleanup_timer`. -/
  modelCleanupTimer : Option ℕ
  /-- The thread in `perform_model_cleanup`, which holds the lock. -/
  cleanup : Option Cleanup

def ServerState.initial (n : ℕ) : ServerState :=
  ⟨.initial n, ∅, fun _ => none, [], 0, false, [], none, none⟩

inductive ServerLabel where
  /-- A step of the task queue. -/
  | task (l : QueueLabel)
  /-- The task of a worker calls `start_model`. -/
  | startModel (i : ℕ)
  /-- A worker is in `delete_model`, after its task. -/
  | check (i : ℕ)
  /-- It schedules the cleanup if the system was idle, and begins its loop again. -/
  | leave (i : ℕ)
  | directBegin
  | directStart (k : ℕ)
  | directRelease (k : ℕ)
  | directCheck (k : ℕ)
  | directLeave (k : ℕ)
  /-- The time of a timer is over. -/
  | fire (k : ℕ)
  /-- Its thread enters `perform_model_cleanup`. -/
  | beginCleanup (k : ℕ)
  /-- It looks whether there is a model. -/
  | testModel
  /-- It leaves it; `unload_model` may have raised. -/
  | endCleanup (unloaded : Bool)
  deriving DecidableEq, Repr

/-- The workers that use the model after a step of the task queue. -/
def keepModel : QueueLabel → Finset ℕ → Finset ℕ
  | .markDone i _, withModel => withModel.erase i
  | _, withModel => withModel

namespace ServerState

/-- `CLEAR_VRAM_ON_COMPLETE`, and `task_queue.is_idle() and active_direct_tasks == 0`. -/
def toBeCleared (clearVram : Bool) (s : ServerState) : Bool :=
  clearVram && (s.tasks.queue.isIdle && s.activeDirectTasks == 0)

/-- `timer.cancel()`, which does nothing to a timer that has fired. -/
def cancel (k : ℕ) (timers : List CleanupTimer) : List CleanupTimer :=
  if timers[k]? = some .waiting then timers.set k .cancelled else timers

/-- `schedule_model_cleanup`. -/
def scheduleModelCleanup (s : ServerState) : Option ServerState :=
  match s.cleanup with
  | some _ => none
  | none =>
    let timers := (s.modelCleanupTimer.map fun k => cancel k s.timers).getD s.timers
    some { s with timers := timers ++ [.waiting], modelCleanupTimer := some timers.length }

/-- The end of `delete_model`. -/
def finishDelete (clear : Bool) (s : ServerState) : Option ServerState :=
  if clear then s.scheduleModelCleanup else some s

/-- A step of one of the threads.  The calls of `delete_model` inside of a task are left
out: the task itself is in `_processing`, so they find the queue not idle. -/
def step (clearVram : Bool) (s : ServerState) : ServerLabel → Option ServerState
  | .task (.leave _) => none
  | .task l => (s.tasks.step l).map fun tasks =>
      { s with tasks, withModel := keepModel l s.withModel }
  | .startModel i =>
    match s.tasks.workers[i]? with
    | some (.running _) => some { s with model := true, withModel := insert i s.withModel }
    | _ => none
  | .check i =>
    if s.tasks.workers[i]? = some (.done none) ∧ s.checked i = none ∧ s.tasks.queue.lock = none then
      some { s with checked := Function.update s.checked i (some (s.toBeCleared clearVram)) }
    else none
  | .leave i =>
    (s.checked i).bind fun clear => (s.finishDelete clear).bind fun s =>
      (s.tasks.step (.leave i)).map fun tasks =>
        { s with tasks, checked := Function.update s.checked i none }
  | .directBegin => some { s with
      directs := s.directs ++ [.counted], activeDirectTasks := s.activeDirectTasks + 1 }
  | .directStart k =>
    if s.directs[k]? = some .counted then
      some { s with model := true, directs := s.directs.set k .started }
    else none
  | .directRelease k =>
    if s.directs[k]? = some .counted ∨ s.directs[k]? = some .started then
      some { s with
        directs := s.directs.set k .released, activeDirectTasks := s.activeDirectTasks - 1 }
    else none
  | .directCheck k =>
    if s.directs[k]? = some .released ∧ s.tasks.queue.lock = none then
      some { s with directs := s.directs.set k (.checked (s.toBeCleared clearVram)) }
    else none
  | .directLeave k =>
    match s.directs[k]? with
    | some (.checked clear) => (s.finishDelete clear).map fun s =>
        { s with directs := s.directs.set k .over }
    | _ => none
  | .fire k =>
    if s.timers[k]? = some .waiting then some { s with timers := s.timers.set k .fired } else none
  | .beginCleanup k =>
    if s.timers[k]? = some .fired ∧ s.cleanup = none ∧ s.tasks.queue.lock = none then
      some { s with
        timers := s.timers.set k .over, cleanup := some (.checked (s.toBeCleared clearVram)) }
    else none
  | .testModel =>
    match s.cleanup with
    | some (.checked clear) => some { s with cleanup := some (.tested (clear && s.model)) }
    | _ => none
  | .endCleanup unloaded =>
    match s.cleanup with
    | some (.tested unloads) => some { s with
        model := s.model && !(unloads && unloaded), modelCleanupTimer := none, cleanup := none }
    | _ => none

variable {clearVram clear : Bool} {s s' : ServerState} {l : ServerLabel} {ls : List ServerLabel}
  {ql : QueueLabel} {i k : ℕ}

/-! ### What the parts do -/

theorem step_task (h : s.step clearVram (.task ql) = some s') :
    (∀ i, ql ≠ .leave i) ∧ ∃ tasks, s.tasks.step ql = some tasks ∧
      s' = { s with tasks, withModel := keepModel ql s.withModel } := by
  cases ql with
  | leave i => cases h
  | _ =>
    obtain ⟨tasks, htasks, rfl⟩ := Option.map_eq_some_iff.mp h
    exact ⟨nofun, tasks, htasks, rfl⟩

/-- `delete_model` changes nothing but the timers; where it has found the system idle, one
is waiting after it. -/
theorem finishDelete_eq (h : s.finishDelete clear = some s') :
    ∃ timers timer, s' = { s with timers, modelCleanupTimer := timer } ∧
      (clear = true → .waiting ∈ timers) ∧ (clear = false → timers = s.timers) := by
  unfold finishDelete at h
  split at h
  · next hclear =>
    unfold scheduleModelCleanup at h
    split at h
    · cases h
    · cases h
      exact ⟨_, _, rfl, fun _ => List.mem_append_right _ List.mem_cons_self,
        fun hf => nomatch hclear.symm.trans hf⟩
  · next hclear =>
    cases h
    exact ⟨s.timers, s.modelCleanupTimer, rfl, fun ht => absurd ht hclear, fun _ => rfl⟩

theorem step_leave (h : s.step clearVram (.leave i) = some s') :
    ∃ clear timers timer tasks, s.checked i = some clear ∧
      s.tasks.step (.leave i) = some tasks ∧
      s' = { s with tasks, checked := Function.update s.checked i none
                    timers, modelCleanupTimer := timer } ∧
      (clear = true → .waiting ∈ timers) ∧ (clear = false → timers = s.timers) := by
  obtain ⟨clear, hi, h⟩ := Option.bind_eq_some_iff.mp h
  obtain ⟨t, hdel, h⟩ := Option.bind_eq_some_iff.mp h
  obtain ⟨tasks, htasks, rfl⟩ := Option.map_eq_some_iff.mp h
  obtain ⟨timers, timer, rfl, hw, hs⟩ := finishDelete_eq hdel
  exact ⟨clear, timers, timer, tasks, hi, htasks, rfl, hw, hs⟩

theorem step_directLeave (h : s.step clearVram (.directLeave k) = some s') :
    ∃ clear timers timer, s.directs[k]? = some (.checked clear) ∧
      s' = { s with directs := s.directs.set k .over, timers, modelCleanupTimer := timer } ∧
      (clear = true → .waiting ∈ timers) ∧ (clear = false → timers = s.timers) := by
  simp only [step] at h
  split at h
  · next clear hk =>
    obtain ⟨t, hdel, rfl⟩ := Option.map_eq_some_iff.mp h
    obtain ⟨timers, timer, rfl, hw, hs⟩ := finishDelete_eq hdel
    exact ⟨clear, timers, timer, hk, rfl, hw, hs⟩
  · cases h

theorem step_startModel (h : s.step clearVram (.startModel i) = some s') :
    ∃ task, s.tasks.workers[i]? = some (.running task) ∧
      s' = { s with model := true, withModel := insert i s.withModel } := by
  simp only [step] at h
  split at h
  · next task hi =>
    cases h
    exact ⟨task, hi, rfl⟩
  · cases h

theorem step_testModel (h : s.step clearVram .testModel = some s') :
    ∃ clear, s.cleanup = some (.checked clear) ∧
      s' = { s with cleanup := some (.tested (clear && s.model)) } := by
  simp only [step] at h
  split at h
  · next clear hclear =>
    cases h
    exact ⟨clear, hclear, rfl⟩
  · cases h

theorem step_endCleanup {unloaded : Bool} (h : s.step clearVram (.endCleanup unloaded) = some s') :
    ∃ unloads, s.cleanup = some (.tested unloads) ∧
      s' = { s with
        model := s.model && !(unloads && unloaded)
        modelCleanupTimer := none
        cleanup := none } := by
  simp only [step] at h
  split at h
  · next unloads hunloads =>
    cases h
    exact ⟨unloads, hunloads, rfl⟩
  · cases h

/-! ### What holds in every state -/

/-- The bookkeeping: who uses the model runs a task, who is in `delete_model` has none, and
the counter counts. -/
structure Sound (s : ServerState) : Prop where
  tracked : s.tasks.Tracked
  withModel : ∀ i ∈ s.withModel, ∃ task, s.tasks.workers[i]? = some (.running task)
  checked : ∀ i clear, s.checked i = some clear → s.tasks.workers[i]? = some (.done none)
  count : s.activeDirectTasks = s.directs.countP Direct.isCounted

theorem sound_initial (n : ℕ) : (initial n).Sound where
  tracked := QueueState.tracked_initial n
  withModel := by simp [initial]
  checked := by simp [initial]
  count := rfl

/-- The count after a request changes. -/
theorem countP_set {directs : List Direct} {d : Direct} (d' : Direct) (hk : directs[k]? = some d) :
    (directs.set k d').countP Direct.isCounted + (if d.isCounted then 1 else 0)
      = directs.countP Direct.isCounted + (if d'.isCounted then 1 else 0) := by
  obtain ⟨hlt, rfl⟩ := List.getElem?_eq_some_iff.mp hk
  have hpos : (if directs[k].isCounted then 1 else 0) ≤ directs.countP Direct.isCounted := by
    split
    · next hc => exact List.countP_pos_iff.mpr ⟨_, List.getElem_mem hlt, hc⟩
    · exact Nat.zero_le _
  rw [List.countP_set hlt]
  omega

theorem Sound.step (h : s.Sound) (hs : s.step clearVram l = some s') : s'.Sound := by
  obtain ⟨htr, hwm, hch, hcount⟩ := h
  cases l with
  | task ql =>
    obtain ⟨hleave, tasks, htasks, rfl⟩ := step_task hs
    refine ⟨htr.step htasks, ?_, ?_, hcount⟩
    · intro i hi
      have hmem : i ∈ s.withModel ∧ ∀ detected, ql ≠ .markDone i detected := by
        cases ql with
        | markDone j detected =>
          obtain ⟨hne, hi⟩ := Finset.mem_erase.mp hi
          exact ⟨hi, fun _ he => hne (by cases he; rfl)⟩
        | _ => exact ⟨hi, nofun⟩
      obtain ⟨task, hrun⟩ := hwm i hmem.1
      refine ⟨task, QueueState.worker_kept htasks hrun ?_⟩
      intro w' hturn
      cases hturn
      exact hmem.2 _ rfl
    · intro i clear hi
      refine QueueState.worker_kept htasks (hch i clear hi) ?_
      intro w' hturn
      cases hturn
      exact hleave i rfl
  | startModel i =>
    obtain ⟨task, hi, rfl⟩ := step_startModel hs
    refine ⟨htr, ?_, hch, hcount⟩
    intro j hj
    rcases Finset.mem_insert.mp hj with rfl | hj
    · exact ⟨task, hi⟩
    · exact hwm j hj
  | check i =>
    obtain ⟨⟨hi, -⟩, hs⟩ := Option.ite_none_right_eq_some.mp hs
    cases hs
    refine ⟨htr, hwm, ?_, hcount⟩
    intro j clear hj
    rcases eq_or_ne j i with rfl | hne
    · exact hi
    · exact hch j clear (by simpa [hne] using hj)
  | leave i =>
    obtain ⟨clear, timers, timer, tasks, -, htasks, rfl, -⟩ := step_leave hs
    refine ⟨htr.step htasks, ?_, ?_, hcount⟩
    · intro j hj
      obtain ⟨task, hrun⟩ := hwm j hj
      refine ⟨task, QueueState.worker_kept htasks hrun ?_⟩
      intro w' hturn
      cases hturn
    · intro j clear' hj
      have hne : j ≠ i := by
        rintro rfl
        simp at hj
      refine QueueState.worker_kept htasks (hch j clear' (by simpa [hne] using hj)) ?_
      intro w' hturn
      cases hturn
      exact hne rfl
  | directBegin =>
    cases hs
    refine ⟨htr, hwm, hch, ?_⟩
    simp [hcount, Direct.isCounted]
  | directStart k =>
    obtain ⟨hk, hs⟩ := Option.ite_none_right_eq_some.mp hs
    cases hs
    have hset := countP_set .started hk
    exact ⟨htr, hwm, hch, by simpa [Direct.isCounted, hcount] using hset.symm⟩
  | directRelease k =>
    obtain ⟨hk, hs⟩ := Option.ite_none_right_eq_some.mp hs
    cases hs
    refine ⟨htr, hwm, hch, ?_⟩
    have hset : (s.directs.set k .released).countP Direct.isCounted + 1
        = s.directs.countP Direct.isCounted := by
      rcases hk with hk | hk
      · simpa [Direct.isCounted] using countP_set .released hk
      · simpa [Direct.isCounted] using countP_set .released hk
    change s.activeDirectTasks - 1 = (s.directs.set k .released).countP Direct.isCounted
    omega
  | directCheck k =>
    obtain ⟨⟨hk, -⟩, hs⟩ := Option.ite_none_right_eq_some.mp hs
    cases hs
    have hset := countP_set (.checked (s.toBeCleared clearVram)) hk
    exact ⟨htr, hwm, hch, by simpa [Direct.isCounted, hcount] using hset.symm⟩
  | directLeave k =>
    obtain ⟨clear, timers, timer, hk, rfl, -⟩ := step_directLeave hs
    have hset := countP_set .over hk
    exact ⟨htr, hwm, hch, by simpa [Direct.isCounted, hcount] using hset.symm⟩
  | fire k =>
    obtain ⟨-, hs⟩ := Option.ite_none_right_eq_some.mp hs
    cases hs
    exact ⟨htr, hwm, hch, hcount⟩
  | beginCleanup k =>
    obtain ⟨-, hs⟩ := Option.ite_none_right_eq_some.mp hs
    cases hs
    exact ⟨htr, hwm, hch, hcount⟩
  | testModel =>
    obtain ⟨clear, -, rfl⟩ := step_testModel hs
    exact ⟨htr, hwm, hch, hcount⟩
  | endCleanup unloaded =>
    obtain ⟨unloads, -, rfl⟩ := step_endCleanup hs
    exact ⟨htr, hwm, hch, hcount⟩

/-- What makes a system busy. -/
inductive Busy (s : ServerState) : Prop
  | waiting (heap : s.tasks.queue.heap ≠ [])
  | running (i : ℕ) (task : Task) (worker : s.tasks.workers[i]? = some (.running task))
  | direct (k : ℕ) (d : Direct) (request : s.directs[k]? = some d) (counted : d.isCounted = true)

/-- The check is right: it finds the system not idle if and only if it is busy. -/
theorem Sound.toBeCleared_iff (h : s.Sound) : s.toBeCleared true = true ↔ ¬s.Busy := by
  have hproc : s.tasks.queue.processing = ∅ ↔
      ¬∃ (i : ℕ) (task : Task), s.tasks.workers[i]? = some (.running task) := by
    rw [Finset.eq_empty_iff_forall_notMem]
    constructor
    · rintro hnone ⟨i, task, hi⟩
      refine hnone task.path ((h.tracked.processing _).mpr (List.mem_map_of_mem ?_))
      exact mem_holdings_of hi List.mem_cons_self
    · intro hnone path hpath
      obtain ⟨task, htask, -⟩ := List.mem_map.mp ((h.tracked.processing path).mp hpath)
      obtain ⟨w, hw, htask⟩ := mem_holdings.mp htask
      obtain ⟨i, hi⟩ := List.getElem?_of_mem hw
      cases w with
      | running t => exact hnone ⟨i, t, hi⟩
      | _ => cases htask
  have hdirect : s.activeDirectTasks = 0 ↔
      ¬∃ (k : ℕ) (d : Direct), s.directs[k]? = some d ∧ d.isCounted = true := by
    rw [h.count, List.countP_eq_zero]
    constructor
    · rintro hnone ⟨k, d, hk, hd⟩
      exact hnone d (List.mem_of_getElem? hk) hd
    · intro hnone d hd hc
      obtain ⟨k, hk⟩ := List.getElem?_of_mem hd
      exact hnone ⟨k, d, hk, hc⟩
  simp only [toBeCleared, DeduplicatedQueue.isIdle, Bool.true_and, Bool.and_eq_true,
    List.isEmpty_iff, decide_eq_true_iff, beq_iff_eq, hproc, hdirect]
  constructor
  · rintro ⟨⟨hheap, hrun⟩, hdir⟩ (hw | ⟨i, task, hi⟩ | ⟨k, d, hk, hd⟩)
    · exact hw hheap
    · exact hrun ⟨i, task, hi⟩
    · exact hdir ⟨k, d, hk, hd⟩
  · intro hbusy
    refine ⟨⟨?_, fun ⟨i, task, hi⟩ => hbusy (.running i task hi)⟩,
      fun ⟨k, d, hk, hd⟩ => hbusy (.direct k d hk hd)⟩
    by_contra hheap
    exact hbusy (.waiting hheap)

/-! ### Who has started the model finds it -/

/-- No one calls `start_model` between the check of a cleanup, if it has found the system
idle, and its end, unless there is no model for it to unload. -/
def StartsOutsideCleanup (s : ServerState) : ServerLabel → Prop
  | .startModel _ => ∀ c ∈ s.cleanup, ¬c.Clears
  | .directStart _ => ∀ c ∈ s.cleanup, ¬c.Clears
  | _ => True

instance (s : ServerState) (l : ServerLabel) : Decidable (StartsOutsideCleanup s l) := by
  cases l <;> unfold StartsOutsideCleanup <;> infer_instance

/-- Someone is past `start_model`. -/
def InUse (s : ServerState) : Prop := s.withModel.Nonempty ∨ .started ∈ s.directs

/-- The model is there for those who use it, and no cleanup is about to take it. -/
structure Kept (s : ServerState) : Prop where
  sound : s.Sound
  loaded : s.InUse → s.model = true
  safe : ∀ c ∈ s.cleanup, c.Clears → ¬s.InUse

theorem Kept.step (h : s.Kept) (hl : StartsOutsideCleanup s l)
    (hs : s.step clearVram l = some s') : s'.Kept := by
  obtain ⟨hsound, hloaded, hsafe⟩ := h
  have hsound' := hsound.step hs
  -- the steps that start no use of the model and change neither it nor the cleanup
  have hkeep : (s'.InUse → s.InUse) → s'.model = s.model → s'.cleanup = s.cleanup → s'.Kept :=
    fun huse hm hc => ⟨hsound', fun hu => hm.trans (hloaded (huse hu)),
      fun c ht hclears hu => hsafe c (hc ▸ ht) hclears (huse hu)⟩
  have hset : ∀ (k : ℕ) (d : Direct), d ≠ .started → .started ∈ s.directs.set k d →
      .started ∈ s.directs := by
    intro k d hne hmem
    rcases List.mem_or_eq_of_mem_set hmem with hmem | heq
    · exact hmem
    · exact absurd heq.symm hne
  cases l with
  | task ql =>
    obtain ⟨-, tasks, -, rfl⟩ := step_task hs
    refine hkeep ?_ rfl rfl
    rintro (⟨i, hi⟩ | hd)
    · refine .inl ⟨i, ?_⟩
      cases ql with
      | markDone j detected => exact Finset.mem_of_mem_erase hi
      | _ => exact hi
    · exact .inr hd
  | startModel i =>
    obtain ⟨task, hi, rfl⟩ := step_startModel hs
    exact ⟨hsound', fun _ => rfl, fun c hc hclears => absurd hclears (hl c hc)⟩
  | check i =>
    obtain ⟨-, hs⟩ := Option.ite_none_right_eq_some.mp hs
    cases hs
    exact hkeep id rfl rfl
  | leave i =>
    obtain ⟨clear, timers, timer, tasks, -, -, rfl, -⟩ := step_leave hs
    exact hkeep id rfl rfl
  | directBegin =>
    cases hs
    refine hkeep ?_ rfl rfl
    rintro (hw | hd)
    · exact .inl hw
    · exact .inr (by simpa using hd)
  | directStart k =>
    obtain ⟨-, hs⟩ := Option.ite_none_right_eq_some.mp hs
    cases hs
    exact ⟨hsound', fun _ => rfl, fun c hc hclears => absurd hclears (hl c hc)⟩
  | directRelease k =>
    obtain ⟨-, hs⟩ := Option.ite_none_right_eq_some.mp hs
    cases hs
    exact hkeep (Or.imp_right (hset k .released nofun)) rfl rfl
  | directCheck k =>
    obtain ⟨-, hs⟩ := Option.ite_none_right_eq_some.mp hs
    cases hs
    exact hkeep (Or.imp_right (hset k (.checked _) nofun)) rfl rfl
  | directLeave k =>
    obtain ⟨clear, timers, timer, -, rfl, -⟩ := step_directLeave hs
    exact hkeep (Or.imp_right (hset k .over nofun)) rfl rfl
  | fire k =>
    obtain ⟨-, hs⟩ := Option.ite_none_right_eq_some.mp hs
    cases hs
    exact hkeep id rfl rfl
  | beginCleanup k =>
    obtain ⟨-, hs⟩ := Option.ite_none_right_eq_some.mp hs
    cases hs
    refine ⟨hsound', hloaded, ?_⟩
    rintro c hc hclears huse
    obtain rfl := Option.some.inj hc
    have hclear : s.toBeCleared clearVram = true := by simpa [Cleanup.Clears] using hclears
    have hidle : s.toBeCleared true = true := by
      simp only [toBeCleared, Bool.and_eq_true, Bool.true_and] at hclear ⊢
      exact hclear.2
    refine hsound.toBeCleared_iff.mp hidle ?_
    rcases huse with ⟨i, hi⟩ | hd
    · obtain ⟨task, hrun⟩ := hsound.withModel i hi
      exact .running i task hrun
    · obtain ⟨k, hk⟩ := List.getElem?_of_mem hd
      exact .direct k .started hk rfl
  | testModel =>
    obtain ⟨clear, hclear, rfl⟩ := step_testModel hs
    refine ⟨hsound', hloaded, ?_⟩
    rintro c hc hclears
    obtain rfl := Option.some.inj hc
    cases clear with
    | true => exact hsafe _ hclear (.inl rfl)
    | false => simp [Cleanup.Clears] at hclears
  | endCleanup unloaded =>
    obtain ⟨unloads, hunloads, rfl⟩ := step_endCleanup hs
    refine ⟨hsound', ?_, nofun⟩
    intro huse
    cases unloads with
    | true => exact absurd huse (hsafe _ hunloads (.inr rfl))
    | false => simpa using hloaded huse

/-- **Whoever has started the model finds it loaded**: in every run of workers, direct
requests and timers in which no one calls `start_model` between the idle check of a cleanup
and its end, the model is loaded as long as a task or a direct request is past its
`start_model`. -/
theorem neverUnloadedInUse {n : ℕ} (hrun : runSteps (step clearVram) (initial n) ls = some s)
    (hstarts : AllSteps (step clearVram) StartsOutsideCleanup (initial n) ls) :
    s.withModel.Nonempty ∨ .started ∈ s.directs → s.model = true := by
  have hinit : (initial n).Kept := ⟨sound_initial n, by simp [InUse, initial], nofun⟩
  exact (invariant_of_allSteps (fun _ _ _ => Kept.step) hinit hstarts hrun).loaded

/-- One worker takes a file, loads the model for it and is done with it. -/
def oneFile : List ServerLabel :=
  [.task (.put ⟨"/tv/a.mkv", none, false, none⟩ 1), .task .putAdd, .task (.getPop 0),
    .task (.getRegister 0), .startModel 0, .task (.markDone 0 false), .check 0, .leave 0]

/-- The timer of the first file is over while the worker is at the next. -/
def cleanupDuringTask : List ServerLabel :=
  oneFile ++ [.task (.put ⟨"/tv/b.mkv", none, false, none⟩ 2), .task .putAdd, .task (.getPop 0),
    .task (.getRegister 0), .startModel 0, .fire 0, .beginCleanup 0, .testModel,
    .endCleanup true]

theorem neverUnloadedInUse_cleanupDuringTask :
    ∃ s, runSteps (step true) (initial 1) cleanupDuringTask = some s ∧
      (s.withModel.Nonempty ∨ .started ∈ s.directs) ∧ s.model = true :=
  ⟨_, rfl, .inl (by decide),
    @neverUnloadedInUse true _ cleanupDuringTask 1 rfl (by decide) (.inl (by decide))⟩

/-! ### A cleanup comes -/

/-- A worker that has not yet seen in `delete_model` that others are busy. -/
def WorkerOwes (s : ServerState) (i : ℕ) (w : Worker) : Prop :=
  w ≠ .idle ∧ s.checked i ≠ some false

/-- Someone will call `delete_model`, or has called it and found the system idle. -/
inductive Owed (s : ServerState) : Prop
  | waiting (heap : s.tasks.queue.heap ≠ [])
  | worker (owes : ∃ i w, s.tasks.workers[i]? = some w ∧ s.WorkerOwes i w)
  | direct (owes : ∃ (k : ℕ) (d : Direct), s.directs[k]? = some d ∧ d.Owes)

/-- A cleanup is on its way. -/
inductive Coming (s : ServerState) : Prop
  | timer (t : CleanupTimer) (mem : t ∈ s.timers) (live : t = .waiting ∨ t = .fired)
  | cleanup (clears : ∃ c ∈ s.cleanup, c.Clears)
  | owed (owed : s.Owed)

theorem Owed.congr (h : s.Owed) (ht : s'.tasks = s.tasks) (hc : s'.checked = s.checked)
    (hd : s'.directs = s.directs) : s'.Owed := by
  rcases h with hheap | hworker | hdirect
  · exact .waiting (ht ▸ hheap)
  · exact .worker (by simpa only [ht, WorkerOwes, hc] using hworker)
  · exact .direct (hd ▸ hdirect)

/-- A worker that runs a task is not in `delete_model`. -/
theorem Sound.owes_of_running {task : Task} (h : s.Sound)
    (hi : s.tasks.workers[i]? = some (.running task)) : s.WorkerOwes i (.running task) := by
  refine ⟨nofun, ?_⟩
  intro hc
  cases hi.symm.trans (h.checked i false hc)

/-- Who is busy owes a call of `delete_model`. -/
theorem Sound.owed_of_busy (h : s.Sound) (hbusy : s.Busy) : s.Owed := by
  rcases hbusy with hheap | ⟨i, task, hi⟩ | ⟨k, d, hk, hd⟩
  · exact .waiting hheap
  · exact .worker ⟨i, _, hi, h.owes_of_running hi⟩
  · exact .direct ⟨k, d, hk, Direct.owes_of_counted hd⟩

/-- A worker that has looked in `delete_model` owes the rest of it, or someone else is busy. -/
theorem Sound.owed_check (h : s.Sound) (hi : s.tasks.workers[i]? = some (.done none)) :
    ({ s with checked := Function.update s.checked i (some (s.toBeCleared true)) } :
      ServerState).Owed := by
  by_cases hclear : s.toBeCleared true = true
  · exact .worker ⟨i, _, hi, nofun, by simp [hclear]⟩
  · -- it has found someone busy, and that is not itself
    rcases not_not.mp (mt h.toBeCleared_iff.mpr hclear) with hw | ⟨j, task, hj⟩ | ⟨k, d, hk, hd⟩
    · exact .waiting hw
    · have hne : j ≠ i := by
        rintro rfl
        cases hi.symm.trans hj
      refine .worker ⟨j, _, hj, nofun, ?_⟩
      simp only [Function.update_of_ne hne]
      exact (h.owes_of_running hj).2
    · exact .direct ⟨k, d, hk, Direct.owes_of_counted hd⟩

/-- So does a direct request that has. -/
theorem Sound.owed_directCheck (h : s.Sound) (hk : s.directs[k]? = some .released) :
    ({ s with directs := s.directs.set k (.checked (s.toBeCleared true)) } :
      ServerState).Owed := by
  by_cases hclear : s.toBeCleared true = true
  · refine .direct ⟨k, .checked true, ?_, nofun, nofun⟩
    rw [hclear]
    exact getElem?_set_party hk
  · rcases not_not.mp (mt h.toBeCleared_iff.mpr hclear) with hw | ⟨i, task, hi⟩ | ⟨j, d, hj, hd⟩
    · exact .waiting hw
    · exact .worker ⟨i, _, hi, h.owes_of_running hi⟩
    · have hne : k ≠ j := by
        rintro rfl
        cases hk.symm.trans hj
        cases hd
      refine .direct ⟨j, d, ?_, Direct.owes_of_counted hd⟩
      rw [List.getElem?_set_ne hne, hj]

/-- A step of the task queue leaves someone who owes the call. -/
theorem Sound.owed_task {tasks : QueueState} (h : s.Sound) (howed : s.Owed)
    (hleave : ∀ i, ql ≠ .leave i) (hs : s.tasks.step ql = some tasks) :
    ({ s with tasks, withModel := keepModel ql s.withModel } : ServerState).Owed := by
  rcases howed with hheap | hworker | hdirect
  · by_cases hpop : ∃ i, ql = .getPop i
    · -- the worker that has popped the task owes the call instead
      obtain ⟨i, rfl⟩ := hpop
      rcases QueueState.workers_of_step hs with ⟨-, hl | ⟨_, _, hl⟩⟩ | ⟨j, w, w', hj, hw, hturn⟩
      · cases hl
      · cases hl
      · cases hturn with
        | getPop _ task =>
          refine .worker ⟨i, .popped task, ?_, nofun, ?_⟩
          · rw [hw, getElem?_set_party hj]
          · intro hc
            cases hj.symm.trans (h.checked i false hc)
    · exact .waiting (QueueState.heap_ne_nil_of_step hs hheap fun i hi => hpop ⟨i, hi⟩)
  · rcases QueueState.workers_of_step hs with ⟨hw, -⟩ | ⟨j, w, w', hj, hw, hturn⟩
    · exact .worker (by rw [hw]; exact hworker)
    · refine .worker ?_
      rw [hw]
      refine exists_party_set hworker hj fun howes => ⟨?_, howes.2⟩
      rintro rfl
      cases hturn
      exact hleave j rfl
  · exact .direct hdirect

theorem Coming.task {tasks : QueueState} (h : s.Sound) (hcome : s.Coming)
    (hleave : ∀ i, ql ≠ .leave i) (hs : s.tasks.step ql = some tasks) :
    ({ s with tasks, withModel := keepModel ql s.withModel } : ServerState).Coming := by
  rcases hcome with ⟨t, ht, hlive⟩ | hclear | howed
  · exact .timer t ht hlive
  · exact .cleanup hclear
  · exact .owed (h.owed_task howed hleave hs)

/-- A worker that has seen that others are busy is not the one that owes the call. -/
theorem Owed.leave {tasks : QueueState} {timers : List CleanupTimer} {timer : Option ℕ}
    (howed : s.Owed) (hi : s.checked i = some false)
    (hs : s.tasks.step (.leave i) = some tasks) :
    ({ s with tasks, checked := Function.update s.checked i none
              timers, modelCleanupTimer := timer } : ServerState).Owed := by
  rcases howed with hheap | ⟨j, w, hj, howes⟩ | hdirect
  · exact .waiting (QueueState.heap_ne_nil_of_step hs hheap nofun)
  · have hne : j ≠ i := by
      rintro rfl
      exact howes.2 hi
    refine .worker ⟨j, w, QueueState.worker_kept hs hj ?_, howes.1, ?_⟩
    · intro w' hturn
      cases hturn
      exact hne rfl
    · simpa [hne] using howes.2
  · exact .direct hdirect

/-- No cleanup fails to unload the model. -/
def Unloads : ServerLabel → Prop
  | .endCleanup unloaded => unloaded = true
  | _ => True

instance : DecidablePred Unloads := by
  intro l
  cases l <;> unfold Unloads <;> infer_instance

/-- As long as the model is loaded, a cleanup is on its way. -/
structure Swept (s : ServerState) : Prop where
  sound : s.Sound
  coming : s.model = true → s.Coming

theorem Swept.step (h : s.Swept) (hl : Unloads l) (hs : s.step true l = some s') : s'.Swept := by
  obtain ⟨hsound, hcome⟩ := h
  refine ⟨hsound.step hs, ?_⟩
  cases l with
  | task ql =>
    obtain ⟨hleave, tasks, htasks, rfl⟩ := step_task hs
    exact fun hm => (hcome hm).task hsound hleave htasks
  | startModel i =>
    obtain ⟨task, hi, rfl⟩ := step_startModel hs
    exact fun _ => .owed ((hsound.owed_of_busy (.running i task hi)).congr rfl rfl rfl)
  | check i =>
    obtain ⟨⟨hi, hnot, -⟩, hs⟩ := Option.ite_none_right_eq_some.mp hs
    cases hs
    exact fun _ => .owed (hsound.owed_check hi)
  | leave i =>
    obtain ⟨clear, timers, timer, tasks, hi, htasks, rfl, hwait, hsame⟩ := step_leave hs
    intro hm
    cases clear with
    | true => exact .timer .waiting (hwait rfl) (.inl rfl)
    | false =>
      rcases hcome hm with ⟨t, ht, hlive⟩ | hclear | howed
      · exact .timer t (hsame rfl ▸ ht) hlive
      · exact .cleanup hclear
      · exact .owed (howed.leave hi htasks)
  | directBegin =>
    cases hs
    refine fun _ => .owed (.direct ⟨s.directs.length, .counted, ?_, nofun, nofun⟩)
    exact List.getElem?_concat_length
  | directStart k =>
    obtain ⟨hk, hs⟩ := Option.ite_none_right_eq_some.mp hs
    cases hs
    exact fun _ => .owed (.direct ⟨k, .started, getElem?_set_party hk, nofun, nofun⟩)
  | directRelease k =>
    obtain ⟨hk, hs⟩ := Option.ite_none_right_eq_some.mp hs
    cases hs
    refine fun _ => .owed (.direct ⟨k, .released, ?_, nofun, nofun⟩)
    rcases hk with hk | hk
    · exact getElem?_set_party hk
    · exact getElem?_set_party hk
  | directCheck k =>
    obtain ⟨⟨hk, -⟩, hs⟩ := Option.ite_none_right_eq_some.mp hs
    cases hs
    exact fun _ => .owed (hsound.owed_directCheck hk)
  | directLeave k =>
    obtain ⟨clear, timers, timer, hk, rfl, hwait, hsame⟩ := step_directLeave hs
    intro hm
    cases clear with
    | true => exact .timer .waiting (hwait rfl) (.inl rfl)
    | false =>
      rcases hcome hm with ⟨t, ht, hlive⟩ | hclear | hw | hw | hd
      · exact .timer t (hsame rfl ▸ ht) hlive
      · exact .cleanup hclear
      · exact .owed (.waiting hw)
      · exact .owed (.worker hw)
      · exact .owed (.direct (exists_party_set hd hk fun howes => absurd rfl howes.2))
  | fire k =>
    obtain ⟨hk, hs⟩ := Option.ite_none_right_eq_some.mp hs
    cases hs
    exact fun _ => .timer .fired (List.mem_of_getElem? (getElem?_set_party hk)) (.inr rfl)
  | beginCleanup k =>
    obtain ⟨-, hs⟩ := Option.ite_none_right_eq_some.mp hs
    cases hs
    intro _
    by_cases hclear : s.toBeCleared true = true
    · exact .cleanup ⟨_, rfl, .inl (congrArg _ hclear)⟩
    · have hbusy : s.Busy := not_not.mp (mt hsound.toBeCleared_iff.mpr hclear)
      exact .owed ((hsound.owed_of_busy hbusy).congr rfl rfl rfl)
  | testModel =>
    obtain ⟨clear, hclear, rfl⟩ := step_testModel hs
    intro hm
    rcases hcome hm with ⟨t, ht, hlive⟩ | ⟨c, hc, hclears⟩ | howed
    · exact .timer t ht hlive
    · -- the cleanup finds the model
      obtain rfl := Option.some.inj (hclear.symm.trans hc)
      obtain rfl : clear = true := by simpa [Cleanup.Clears] using hclears
      exact .cleanup ⟨_, rfl, .inr (congrArg _ hm)⟩
    · exact .owed (howed.congr rfl rfl rfl)
  | endCleanup unloaded =>
    obtain ⟨unloads, hunloads, rfl⟩ := step_endCleanup hs
    obtain rfl : unloaded = true := hl
    intro hm
    cases unloads with
    | true => simp at hm
    | false =>
      rcases hcome (by simpa using hm) with ⟨t, ht, hlive⟩ | ⟨c, hc, hclears⟩ | howed
      · exact .timer t ht hlive
      · obtain rfl := Option.some.inj (hunloads.symm.trans hc)
        simp [Cleanup.Clears] at hclears
      · exact .owed (howed.congr rfl rfl rfl)

/-- **When all is quiet and the model is loaded, a cleanup is on its way**: with
`CLEAR_VRAM_ON_COMPLETE` on, after every run in which each cleanup that unloads the model
succeeds, if the heap is empty, all workers wait for a task, all direct requests are over
and no cleanup is under way, then the model is not loaded or a timer for its cleanup is
running. -/
theorem cleanupComes {n : ℕ} (hrun : runSteps (step true) (initial n) ls = some s)
    (hunload : ∀ l ∈ ls, Unloads l) (hheap : s.tasks.queue.heap = [])
    (hworkers : ∀ w ∈ s.tasks.workers, w = .idle) (hdirects : ∀ d ∈ s.directs, d = .over)
    (hcleanup : s.cleanup = none) :
    s.model = false ∨ .waiting ∈ s.timers ∨ .fired ∈ s.timers := by
  have hinit : (initial n).Swept := ⟨sound_initial n, nofun⟩
  have hall : AllSteps (step true) (fun _ l => Unloads l) (initial n) ls :=
    allSteps_of_forall hunload
  have h : s.Swept := invariant_of_allSteps (fun _ _ _ => Swept.step) hinit hall hrun
  by_cases hm : s.model = true
  · rcases h.coming hm with ⟨t, ht, rfl | rfl⟩ | hclear | hw | ⟨i, w, hi, howes⟩ | ⟨k, d, hk, howes⟩
    · exact .inr (.inl ht)
    · exact .inr (.inr ht)
    · rw [hcleanup] at hclear
      obtain ⟨c, hc, -⟩ := hclear
      cases hc
    · exact absurd hheap hw
    · exact absurd (hworkers w (List.mem_of_getElem? hi)) howes.1
    · exact absurd (hdirects d (List.mem_of_getElem? hk)) howes.1
  · exact .inl (Bool.not_eq_true _ ▸ hm)

theorem cleanupComes_oneFile :
    ∃ s, runSteps (step true) (initial 1) oneFile = some s ∧ s.model = true ∧
      (s.model = false ∨ .waiting ∈ s.timers ∨ .fired ∈ s.timers) :=
  ⟨_, rfl, rfl, @cleanupComes _ oneFile 1 rfl (by decide) rfl (by decide) (by decide) rfl⟩

end ServerState

end Subgen
end MediaHub

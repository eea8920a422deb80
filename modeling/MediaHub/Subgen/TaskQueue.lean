import MediaHub.Lib.Lanes
import MediaHub.Lib.Parties
import MediaHub.Lib.StepRuns
import Mathlib.Algebra.Order.Ring.Unbundled.Rat
import Mathlib.Data.Finset.Insert
import Mathlib.Data.Finset.Erase

/-!
# The task queue and its workers

`stacks/subgen-r9/src/subgen.py`, `DeduplicatedQueue` and `transcription_worker`: tasks
come from the endpoints, the webhooks and the folder scan, and several worker threads
handle them.  A task is known by its path.  The queue remembers which paths wait and which
are being handled, so that a path that is in the system is not taken in again.

The steps are those of the threads.  `put` pushes into the heap and adds to the set in one
critical section, but `get` pops from the heap before it takes the lock; both halves are
steps of their own.

## Main definitions

* `DeduplicatedQueue` — the heap, the two sets and the lock.
* `Worker` — how far a worker thread is with its task.
* `step` — a step of one of the threads.

## Main results

* `exclusive` — **no path is in the system twice, and the queue knows which paths are.**
* `conserved` — **every task that was taken in waits, is in one worker's hands, or was
  handled, once.**
* `firstInFirstOut` — **the three kinds of tasks are three lanes, each first in, first out.**
-/

namespace MediaHub
namespace Subgen

/-! ### Tasks -/

/-- `item["type"]`. -/
inductive TaskType where
  | detectLanguage
  | asr
  | transcribe
  deriving DecidableEq, Repr

/-- An item of the queue, with what the queue and the workers read of it. -/
structure Task where
  /-- `item["path"]`, under which the queue knows the task. -/
  path : String
  /-- `item["type"]`, if it is given. -/
  type : Option TaskType
  /-- `"audio_content" in task`. -/
  hasAudioContent : Bool
  /-- `item["result_container"]`, by the number of the object. -/
  resultContainer : Option ℕ
  deriving DecidableEq, Repr

/-- `item.get("type", "transcribe")`. -/
def Task.taskType (item : Task) : TaskType := item.type.getD .transcribe

/-- 0 (detect), 1 (ASR), 2 (transcribe). -/
def TaskType.priority : TaskType → ℕ
  | .detectLanguage => 0
  | .asr => 1
  | .transcribe => 2

/-- The tuple `(priority, time.time(), item)` of the heap. -/
structure Entry where
  priority : ℕ
  timestamp : ℚ
  item : Task
  deriving DecidableEq, Repr

/-- The entry of a task that is put in at `now`. -/
def Task.entry (item : Task) (now : ℚ) : Entry := ⟨item.taskType.priority, now, item⟩

/-- What `detect_language_task` returns: the transcription task of the same file, with the
other data of the task. -/
def detectLanguageTask (task : Task) : Task := { task with type := some .transcribe }

/-! ### The queue -/

structure DeduplicatedQueue where
  /-- The entries, in the order in which they will come out. -/
  heap : List Entry
  /-- `_queued`. -/
  queued : Finset String
  /-- `_processing`. -/
  processing : Finset String
  /-- The path that the holder of `_lock` has put into the heap and not yet into `_queued`. -/
  lock : Option String
  deriving DecidableEq

namespace DeduplicatedQueue

def empty : DeduplicatedQueue := ⟨[], ∅, ∅, none⟩

/-- `put` up to the call of `PriorityQueue.put`, and its answer.  Two entries of one
priority and one time are not compared here: Python would compare their dictionaries and
raise a `TypeError`. -/
def put (item : Task) (now : ℚ) (q : DeduplicatedQueue) : Option (DeduplicatedQueue × Bool) :=
  match q.lock with
  | some _ => none
  | none =>
    if item.path ∈ q.queued ∨ item.path ∈ q.processing then some (q, false)
    else if ∃ e ∈ q.heap, (item.entry now).priority = e.priority ∧ now = e.timestamp then none
    else
      let heap := enqueue Entry.priority Entry.timestamp (item.entry now) q.heap
      some ({ q with heap, lock := some item.path }, true)

/-- The rest of `put`: `self._queued.add(task_id)`. -/
def putAdd (q : DeduplicatedQueue) : Option DeduplicatedQueue :=
  q.lock.map fun path => { q with queued := insert path q.queued, lock := none }

/-- `get` up to the return of `PriorityQueue.get`. -/
def getPop (q : DeduplicatedQueue) : Option (DeduplicatedQueue × Entry) :=
  match q.heap with
  | [] => none
  | e :: heap => some ({ q with heap }, e)

/-- The rest of `get`: the path is moved from one set to the other. -/
def getRegister (item : Task) (q : DeduplicatedQueue) : Option DeduplicatedQueue :=
  match q.lock with
  | some _ => none
  | none => some { q with
      queued := q.queued.erase item.path, processing := insert item.path q.processing }

/-- `mark_done`. -/
def markDone (item : Task) (q : DeduplicatedQueue) : Option DeduplicatedQueue :=
  match q.lock with
  | some _ => none
  | none => some { q with processing := q.processing.erase item.path }

/-- `is_idle`. -/
def isIdle (q : DeduplicatedQueue) : Bool := q.heap.isEmpty && decide (q.processing = ∅)

/-- `is_active`. -/
def isActive (taskId : String) (q : DeduplicatedQueue) : Bool :=
  decide (taskId ∈ q.queued ∨ taskId ∈ q.processing)

end DeduplicatedQueue

/-! ### The workers -/

/-- How far a worker thread is. -/
inductive Worker where
  /-- It waits in `get`. -/
  | idle
  /-- `PriorityQueue.get` has returned, `get` has not. -/
  | popped (task : Task)
  | running (task : Task)
  /-- `mark_done` was called; what is left is to queue the next task, if there is one, and
  `delete_model`. -/
  | done (nextTask : Option Task)
  deriving DecidableEq, Repr

/-- The task that the worker has popped and not registered. -/
def Worker.poppedTask : Worker → List Task
  | .popped task => [task]
  | _ => []

/-- The task that the worker handles. -/
def Worker.runningTask : Worker → List Task
  | .running task => [task]
  | _ => []

/-- The queue, the workers, and what happened so far. -/
structure QueueState where
  queue : DeduplicatedQueue
  workers : List Worker
  /-- What `put` has taken in. -/
  accepted : List Entry
  /-- What `get` has popped. -/
  started : List Entry
  /-- What was marked as done. -/
  finished : List Task
  deriving DecidableEq

/-- The server has started `n` workers. -/
def QueueState.initial (n : ℕ) : QueueState :=
  ⟨.empty, List.replicate n .idle, [], [], []⟩

/-- What one of the threads does.  Workers are known by their number. -/
inductive QueueLabel where
  /-- A thread calls `put`. -/
  | put (item : Task) (now : ℚ)
  /-- A worker calls `put` with the task that follows from a detected language. -/
  | putNext (i : ℕ) (now : ℚ)
  /-- The thread that is in `put` leaves it. -/
  | putAdd
  | getPop (i : ℕ)
  | getRegister (i : ℕ)
  /-- The worker is through with its task, or an exception has ended it. -/
  | markDone (i : ℕ) (detected : Bool)
  /-- `delete_model`, and the loop begins again. -/
  | leave (i : ℕ)
  deriving DecidableEq, Repr

/-- The task to queue next: a task of a local file whose language was to be detected. -/
def nextTask (task : Task) (detected : Bool) : Option Task :=
  if task.taskType = .detectLanguage ∧ task.hasAudioContent = false ∧ detected = true then
    some (detectLanguageTask task)
  else none

/-- A thread calls `put`, whose answer is not used again. -/
def QueueState.put (item : Task) (now : ℚ) (s : QueueState) : Option QueueState :=
  (s.queue.put item now).map fun r =>
    { s with queue := r.1, accepted := s.accepted ++ if r.2 then [item.entry now] else [] }

/-- A step of one of the threads. -/
def QueueState.step (s : QueueState) : QueueLabel → Option QueueState
  | .put item now => s.put item now
  | .putNext i now =>
    match s.workers[i]? with
    | some (.done (some task)) =>
      ({ s with workers := s.workers.set i (.done none) } : QueueState).put task now
    | _ => none
  | .putAdd => s.queue.putAdd.map fun q => { s with queue := q }
  | .getPop i =>
    match s.workers[i]? with
    | some .idle => s.queue.getPop.map fun r => { s with
        queue := r.1, workers := s.workers.set i (.popped r.2.item), started := s.started ++ [r.2] }
    | _ => none
  | .getRegister i =>
    match s.workers[i]? with
    | some (.popped task) => (s.queue.getRegister task).map fun q =>
        { s with queue := q, workers := s.workers.set i (.running task) }
    | _ => none
  | .markDone i detected =>
    match s.workers[i]? with
    | some (.running task) => (s.queue.markDone task).map fun q => { s with
        queue := q, workers := s.workers.set i (.done (nextTask task detected))
        finished := s.finished ++ [task] }
    | _ => none
  | .leave i =>
    match s.workers[i]? with
    | some (.done none) => some { s with workers := s.workers.set i .idle }
    | _ => none

/-! ### What the queue knows -/

/-- The queue tracks the paths `outside` that wait or were popped, and the paths `inside`
that are being handled. -/
structure DeduplicatedQueue.Tracks (q : DeduplicatedQueue) (outside inside : List String) :
    Prop where
  nodup : (outside ++ inside).Nodup
  queued : ∀ path, path ∈ q.queued ∨ q.lock = some path ↔ path ∈ outside
  processing : ∀ path, path ∈ q.processing ↔ path ∈ inside

namespace DeduplicatedQueue

variable {q q' : DeduplicatedQueue} {outside inside outside' inside' : List String} {item : Task}
  {now : ℚ} {e : Entry} {answer : Bool}

/-- All that `put` can do while no one else holds the lock. -/
theorem put_cases (h : q.put item now = some (q', answer)) :
    q.lock = none ∧
      (answer = false ∧ q' = q ∧ (item.path ∈ q.queued ∨ item.path ∈ q.processing) ∨
        answer = true ∧ item.path ∉ q.queued ∧ item.path ∉ q.processing ∧
          (∀ e ∈ q.heap, (item.entry now).priority = e.priority → now ≠ e.timestamp) ∧
          q' = { q with
            heap := enqueue Entry.priority Entry.timestamp (item.entry now) q.heap
            lock := some item.path }) := by
  unfold put at h
  split at h
  · cases h
  · next hlock =>
    refine ⟨hlock, ?_⟩
    split at h
    · next hin =>
      cases h
      exact .inl ⟨rfl, rfl, hin⟩
    · next hout =>
      obtain ⟨hq, hp⟩ := not_or.mp hout
      split at h
      · cases h
      · next htie =>
        cases h
        exact .inr ⟨rfl, hq, hp, fun e he hprio hnow => htie ⟨e, he, hprio, hnow⟩, rfl⟩

theorem getPop_eq_some (h : q.getPop = some (q', e)) :
    q.heap = e :: q'.heap ∧ q' = { q with heap := q'.heap } := by
  unfold getPop at h
  split at h
  · cases h
  · next heap =>
    cases h
    exact ⟨heap, rfl⟩

namespace Tracks

theorem empty : DeduplicatedQueue.empty.Tracks [] [] where
  nodup := List.nodup_nil
  queued := by simp [DeduplicatedQueue.empty]
  processing := by simp [DeduplicatedQueue.empty]

/-- The order in which the paths are listed does not matter. -/
theorem perm (h : q.Tracks outside inside) (ho : outside.Perm outside')
    (hi : inside.Perm inside') : q.Tracks outside' inside' where
  nodup := (ho.append hi).nodup_iff.mp h.nodup
  queued path := (h.queued path).trans ho.mem_iff
  processing path := (h.processing path).trans hi.mem_iff

/-- While no one holds the lock, `is_active` tells the paths in the system. -/
theorem isActive_iff (h : q.Tracks outside inside) (hlock : q.lock = none) (path : String) :
    q.isActive path = true ↔ path ∈ outside ++ inside := by
  rw [isActive, decide_eq_true_iff, List.mem_append, ← h.queued path, ← h.processing path]
  simp [hlock]

/-- `put` takes in what is not in the system, and nothing else. -/
theorem put (h : q.Tracks outside inside) (hput : q.put item now = some (q', answer)) :
    answer = false ∧ item.path ∈ outside ++ inside ∧ q' = q ∨
      answer = true ∧ item.path ∉ outside ++ inside ∧ q'.Tracks (item.path :: outside) inside := by
  obtain ⟨hlock, ⟨rfl, rfl, hin⟩ | ⟨rfl, hq, hp, -, rfl⟩⟩ := put_cases hput
  · refine .inl ⟨rfl, (h.isActive_iff hlock item.path).mp ?_, rfl⟩
    exact decide_eq_true_iff.mpr hin
  · have hout : item.path ∉ outside ++ inside := by
      rw [← h.isActive_iff hlock item.path, isActive, decide_eq_true_iff, not_or]
      exact ⟨hq, hp⟩
    refine .inr ⟨rfl, hout, List.nodup_cons.mpr ⟨hout, h.nodup⟩, ?_, h.processing⟩
    intro path
    have hold := h.queued path
    simp only [hlock, reduceCtorEq, or_false] at hold
    rw [List.mem_cons, ← hold, Option.some.injEq, or_comm, eq_comm]

theorem putAdd (h : q.Tracks outside inside) (hadd : q.putAdd = some q') :
    q'.Tracks outside inside := by
  obtain ⟨path, hlock, rfl⟩ := Option.map_eq_some_iff.mp hadd
  refine ⟨h.nodup, fun p => ?_, h.processing⟩
  rw [← h.queued p, hlock, Finset.mem_insert, Option.some.injEq]
  simp only [reduceCtorEq, or_false]
  rw [or_comm, eq_comm]

theorem getPop (h : q.Tracks outside inside) (hpop : q.getPop = some (q', e)) :
    q'.Tracks outside inside := by
  obtain ⟨-, hq⟩ := getPop_eq_some hpop
  rw [hq]
  exact ⟨h.nodup, h.queued, h.processing⟩

theorem getRegister (h : q.Tracks (item.path :: outside) inside)
    (hreg : q.getRegister item = some q') : q'.Tracks outside (item.path :: inside) := by
  unfold DeduplicatedQueue.getRegister at hreg
  split at hreg
  · cases hreg
  · next hlock =>
    cases hreg
    have hnot : item.path ∉ outside ++ inside := (List.nodup_cons.mp h.nodup).1
    refine ⟨List.perm_middle.symm.nodup_iff.mp h.nodup, fun p => ?_, fun p => ?_⟩
    · have hold := h.queued p
      simp only [hlock, reduceCtorEq, or_false, List.mem_cons] at hold ⊢
      rw [Finset.mem_erase, hold]
      constructor
      · rintro ⟨hne, rfl | hp⟩
        · exact absurd rfl hne
        · exact hp
      · intro hp
        refine ⟨?_, .inr hp⟩
        rintro rfl
        exact hnot (List.mem_append_left _ hp)
    · rw [Finset.mem_insert, h.processing p, List.mem_cons]

theorem markDone (h : q.Tracks outside (item.path :: inside))
    (hdone : q.markDone item = some q') : q'.Tracks outside inside := by
  unfold DeduplicatedQueue.markDone at hdone
  split at hdone
  · cases hdone
  · cases hdone
    have hnodup : (item.path :: (outside ++ inside)).Nodup :=
      List.perm_middle.nodup_iff.mp h.nodup
    have hnot : item.path ∉ inside := fun hp =>
      (List.nodup_cons.mp hnodup).1 (List.mem_append_right _ hp)
    refine ⟨(List.nodup_cons.mp hnodup).2, h.queued, fun p => ?_⟩
    rw [Finset.mem_erase, h.processing p, List.mem_cons]
    constructor
    · rintro ⟨hne, rfl | hp⟩
      · exact absurd rfl hne
      · exact hp
    · intro hp
      refine ⟨?_, .inr hp⟩
      rintro rfl
      exact hnot hp

end Tracks

end DeduplicatedQueue

/-! ### Where the tasks are -/

namespace QueueState

variable {s s' : QueueState} {l : QueueLabel} {ls : List QueueLabel} {i : ℕ} {item task : Task}
  {now : ℚ} {w : Worker}

/-- The tasks in the heap. -/
def waiting (s : QueueState) : List Task := s.queue.heap.map Entry.item

/-- The tasks that were popped and are not registered. -/
def popped (s : QueueState) : List Task := holdings Worker.poppedTask s.workers

/-- The tasks that are being handled. -/
def running (s : QueueState) : List Task := holdings Worker.runningTask s.workers

/-- The tasks that were taken in and are not done. -/
def inSystem (s : QueueState) : List Task := s.waiting ++ s.popped ++ s.running

/-- The queue tracks where the tasks are. -/
def Tracked (s : QueueState) : Prop :=
  s.queue.Tracks ((s.waiting ++ s.popped).map Task.path) (s.running.map Task.path)

/-- What was taken in is somewhere. -/
structure Balanced (s : QueueState) : Prop where
  accepted : (s.accepted.map Entry.item).Perm (s.started.map Entry.item ++ s.waiting)
  started : (s.started.map Entry.item).Perm (s.popped ++ s.running ++ s.finished)

/-! ### What a step does -/

/-- What a step does to the tasks: the cases of a call of `put`, of the halves of `get` and
of `mark_done`, and the steps that move no task. -/
inductive Moves (l : QueueLabel) (s s' : QueueState) : Prop
  | put (item : Task) (now : ℚ) (answer : Bool)
      (label : l = .put item now ∨
        ∃ i, l = .putNext i now ∧ s.workers[i]? = some (.done (some item)))
      (queue : s.queue.put item now = some (s'.queue, answer))
      (popped : s'.popped.Perm s.popped) (running : s'.running.Perm s.running)
      (accepted : s'.accepted = s.accepted ++ if answer then [item.entry now] else [])
      (started : s'.started = s.started) (finished : s'.finished = s.finished)
  | pop (e : Entry) (label : ∃ i, l = .getPop i) (queue : s.queue.getPop = some (s'.queue, e))
      (popped : s'.popped.Perm (e.item :: s.popped)) (running : s'.running.Perm s.running)
      (accepted : s'.accepted = s.accepted) (started : s'.started = s.started ++ [e])
      (finished : s'.finished = s.finished)
  | register (task : Task) (queue : s.queue.getRegister task = some s'.queue)
      (popped : s.popped.Perm (task :: s'.popped))
      (running : s'.running.Perm (task :: s.running)) (accepted : s'.accepted = s.accepted)
      (started : s'.started = s.started) (finished : s'.finished = s.finished)
  | done (task : Task)
      (label : ∃ i detected, l = .markDone i detected ∧ s.workers[i]? = some (.running task))
      (queue : s.queue.markDone task = some s'.queue)
      (popped : s'.popped.Perm s.popped) (running : s.running.Perm (task :: s'.running))
      (accepted : s'.accepted = s.accepted) (started : s'.started = s.started)
      (finished : s'.finished = s.finished ++ [task])
  | rest (queue : s'.queue = s.queue ∨ s.queue.putAdd = some s'.queue)
      (popped : s'.popped.Perm s.popped) (running : s'.running.Perm s.running)
      (accepted : s'.accepted = s.accepted) (started : s'.started = s.started)
      (finished : s'.finished = s.finished)

/-- A worker that holds no task before and after. -/
theorem perm_of_empty_handed (w' : Worker) (hi : s.workers[i]? = some w)
    (hp : w.poppedTask = w'.poppedTask) (hr : w.runningTask = w'.runningTask) :
    ({ s with workers := s.workers.set i w' } : QueueState).popped.Perm s.popped ∧
      ({ s with workers := s.workers.set i w' } : QueueState).running.Perm s.running :=
  ⟨perm_holdings_set_of_eq hi hp, perm_holdings_set_of_eq hi hr⟩

/-- Every step is one of these moves. -/
theorem moves_of_step (h : s.step l = some s') : Moves l s s' := by
  cases l with
  | put item now =>
    obtain ⟨⟨q', answer⟩, hput, rfl⟩ := Option.map_eq_some_iff.mp h
    exact .put item now answer (.inl rfl) hput (List.Perm.refl _) (List.Perm.refl _) rfl rfl rfl
  | putNext i now =>
    simp only [QueueState.step] at h
    split at h
    · next task hi =>
      obtain ⟨hp, hr⟩ := perm_of_empty_handed (.done none) hi rfl rfl
      obtain ⟨⟨q', answer⟩, hput, rfl⟩ := Option.map_eq_some_iff.mp h
      exact .put task now answer (.inr ⟨i, rfl, hi⟩) hput hp hr rfl rfl rfl
    · cases h
  | putAdd =>
    obtain ⟨q', hadd, rfl⟩ := Option.map_eq_some_iff.mp h
    exact .rest (.inr hadd) (List.Perm.refl _) (List.Perm.refl _) rfl rfl rfl
  | getPop i =>
    simp only [QueueState.step] at h
    split at h
    · next hi =>
      obtain ⟨⟨q', e⟩, hpop, rfl⟩ := Option.map_eq_some_iff.mp h
      have htake := perm_holdings_take (f := Worker.poppedTask) (b := .popped e.item) hi rfl
      exact .pop e ⟨i, rfl⟩ hpop (htake.trans (List.perm_append_singleton _ _))
        (perm_holdings_set_of_eq hi rfl) rfl rfl rfl
    · cases h
  | getRegister i =>
    simp only [QueueState.step] at h
    split at h
    · next task hi =>
      obtain ⟨q', hreg, rfl⟩ := Option.map_eq_some_iff.mp h
      have hgive := perm_holdings_give (f := Worker.poppedTask) (b := .running task) hi rfl
      have htake := perm_holdings_take (f := Worker.runningTask) (b := .running task) hi rfl
      exact .register task hreg (hgive.symm.trans (List.perm_append_singleton _ _))
        (htake.trans (List.perm_append_singleton _ _)) rfl rfl rfl
    · cases h
  | markDone i detected =>
    simp only [QueueState.step] at h
    split at h
    · next task hi =>
      obtain ⟨q', hdone, rfl⟩ := Option.map_eq_some_iff.mp h
      have hgive := perm_holdings_give (f := Worker.runningTask)
        (b := .done (nextTask task detected)) hi rfl
      exact .done task ⟨i, detected, rfl, hi⟩ hdone (perm_holdings_set_of_eq hi rfl)
        (hgive.symm.trans (List.perm_append_singleton _ _)) rfl rfl rfl
    · cases h
  | leave i =>
    simp only [QueueState.step] at h
    split at h
    · next hi =>
      cases h
      obtain ⟨hp, hr⟩ := perm_of_empty_handed .idle hi rfl rfl
      exact .rest (.inl rfl) hp hr rfl rfl rfl
    · cases h

/-- The heap after a call of `put`. -/
theorem waiting_of_put {answer : Bool} (h : s.queue.put item now = some (s'.queue, answer)) :
    s'.waiting.Perm ((if answer then [item] else []) ++ s.waiting) := by
  obtain ⟨-, ⟨rfl, hq, -⟩ | ⟨rfl, -, -, -, hq⟩⟩ := DeduplicatedQueue.put_cases h
  · rw [waiting, hq]
    exact List.Perm.refl _
  · rw [waiting, hq]
    exact (perm_enqueue (item.entry now) s.queue.heap).map Entry.item

theorem waiting_of_pop {e : Entry} (h : s.queue.getPop = some (s'.queue, e)) :
    s.waiting = e.item :: s'.waiting := by
  rw [waiting, (DeduplicatedQueue.getPop_eq_some h).1, List.map_cons, waiting]

/-- The other operations leave the heap. -/
theorem heap_of_register (h : s.queue.getRegister task = some s'.queue) :
    s'.queue.heap = s.queue.heap := by
  unfold DeduplicatedQueue.getRegister at h
  split at h
  · cases h
  · rw [← Option.some.inj h]

theorem heap_of_done (h : s.queue.markDone task = some s'.queue) :
    s'.queue.heap = s.queue.heap := by
  unfold DeduplicatedQueue.markDone at h
  split at h
  · cases h
  · rw [← Option.some.inj h]

theorem heap_of_rest (h : s'.queue = s.queue ∨ s.queue.putAdd = some s'.queue) :
    s'.queue.heap = s.queue.heap := by
  rcases h with h | h
  · rw [h]
  · obtain ⟨path, -, hq⟩ := Option.map_eq_some_iff.mp h
    rw [← hq]

theorem waiting_congr (h : s'.queue.heap = s.queue.heap) : s'.waiting = s.waiting := by
  rw [waiting, h, waiting]

/-- How a step changes a worker. -/
inductive Turns : QueueLabel → ℕ → Worker → Worker → Prop
  | putNext (i : ℕ) (now : ℚ) (task : Task) :
      Turns (.putNext i now) i (.done (some task)) (.done none)
  | getPop (i : ℕ) (task : Task) : Turns (.getPop i) i .idle (.popped task)
  | getRegister (i : ℕ) (task : Task) : Turns (.getRegister i) i (.popped task) (.running task)
  | markDone (i : ℕ) (detected : Bool) (task : Task) :
      Turns (.markDone i detected) i (.running task) (.done (nextTask task detected))
  | leave (i : ℕ) : Turns (.leave i) i (.done none) .idle

/-- A step changes no worker, or one. -/
theorem workers_of_step (h : s.step l = some s') :
    (s'.workers = s.workers ∧ (l = .putAdd ∨ ∃ item now, l = .put item now)) ∨
      ∃ i w w', s.workers[i]? = some w ∧ s'.workers = s.workers.set i w' ∧ Turns l i w w' := by
  cases l with
  | put item now =>
    obtain ⟨-, -, rfl⟩ := Option.map_eq_some_iff.mp h
    exact .inl ⟨rfl, .inr ⟨item, now, rfl⟩⟩
  | putAdd =>
    obtain ⟨-, -, rfl⟩ := Option.map_eq_some_iff.mp h
    exact .inl ⟨rfl, .inl rfl⟩
  | putNext i now =>
    simp only [QueueState.step] at h
    split at h
    · next task hi =>
      obtain ⟨-, -, rfl⟩ := Option.map_eq_some_iff.mp h
      exact .inr ⟨i, _, _, hi, rfl, .putNext i now task⟩
    · cases h
  | getPop i =>
    simp only [QueueState.step] at h
    split at h
    · next hi =>
      obtain ⟨⟨q', e⟩, -, rfl⟩ := Option.map_eq_some_iff.mp h
      exact .inr ⟨i, _, _, hi, rfl, .getPop i e.item⟩
    · cases h
  | getRegister i =>
    simp only [QueueState.step] at h
    split at h
    · next task hi =>
      obtain ⟨-, -, rfl⟩ := Option.map_eq_some_iff.mp h
      exact .inr ⟨i, _, _, hi, rfl, .getRegister i task⟩
    · cases h
  | markDone i detected =>
    simp only [QueueState.step] at h
    split at h
    · next task hi =>
      obtain ⟨-, -, rfl⟩ := Option.map_eq_some_iff.mp h
      exact .inr ⟨i, _, _, hi, rfl, .markDone i detected task⟩
    · cases h
  | leave i =>
    simp only [QueueState.step] at h
    split at h
    · next hi =>
      cases h
      exact .inr ⟨i, _, _, hi, rfl, .leave i⟩
    · cases h

/-- A worker that the step does not turn stays as it is. -/
theorem worker_kept (h : s.step l = some s') (hi : s.workers[i]? = some w)
    (hkeep : ∀ w', ¬Turns l i w w') : s'.workers[i]? = some w := by
  rcases workers_of_step h with ⟨hw, -⟩ | ⟨j, w₁, w₂, hj, hw, hturn⟩
  · rw [hw, hi]
  · rcases eq_or_ne j i with rfl | hne
    · obtain rfl : w₁ = w := Option.some.inj (hj.symm.trans hi)
      exact absurd hturn (hkeep w₂)
    · rw [hw, List.getElem?_set_ne hne, hi]

/-- Only a pop takes from the heap. -/
theorem heap_ne_nil_of_step (h : s.step l = some s') (hheap : s.queue.heap ≠ [])
    (hpop : ∀ i, l ≠ .getPop i) : s'.queue.heap ≠ [] := by
  have hwait : s.waiting ≠ [] := by simpa [waiting] using hheap
  rcases moves_of_step h with
    ⟨item, now, answer, -, hq, -⟩ | ⟨e, ⟨i, hl⟩, -⟩ | ⟨task, hq, -⟩ | ⟨task, -, hq, -⟩ | ⟨hq, -⟩
  · intro hnil
    have hperm := waiting_of_put hq
    rw [waiting, hnil, List.map_nil] at hperm
    exact hwait (List.append_eq_nil_iff.mp hperm.symm.eq_nil).2
  · exact absurd hl (hpop i)
  · rw [heap_of_register hq]
    exact hheap
  · rw [heap_of_done hq]
    exact hheap
  · rw [heap_of_rest hq]
    exact hheap

/-- A task that is in the system after a step was there before, or was put in. -/
theorem inSystem_before (h : s.step l = some s') (ht : task ∈ s'.inSystem) :
    task ∈ s.inSystem ∨ (∃ now, l = .put task now) ∨
      ∃ i now, l = .putNext i now ∧ s.workers[i]? = some (.done (some task)) := by
  simp only [inSystem, List.mem_append] at ht ⊢
  rcases moves_of_step h with
    ⟨item, now, answer, hl, hq, hp, hr, -⟩ | ⟨e, -, hq, hp, hr, -⟩ | ⟨t, hq, hp, hr, -⟩ |
    ⟨t, -, hq, hp, hr, -⟩ | ⟨hq, hp, hr, -⟩
  · rw [hp.mem_iff, hr.mem_iff, (waiting_of_put hq).mem_iff, List.mem_append] at ht
    rcases ht with ((hnew | hw) | hpop) | hrun
    · have heq : task = item := by
        cases answer
        · cases hnew
        · exact List.mem_singleton.mp hnew
      subst heq
      rcases hl with rfl | ⟨i, rfl, hi⟩
      · exact .inr (.inl ⟨now, rfl⟩)
      · exact .inr (.inr ⟨i, now, rfl, hi⟩)
    · exact .inl (.inl (.inl hw))
    · exact .inl (.inl (.inr hpop))
    · exact .inl (.inr hrun)
  · rw [hp.mem_iff, hr.mem_iff, List.mem_cons] at ht
    rw [waiting_of_pop hq, List.mem_cons]
    tauto
  · rw [hr.mem_iff, List.mem_cons, waiting_congr (heap_of_register hq)] at ht
    rw [hp.mem_iff, List.mem_cons]
    tauto
  · rw [hp.mem_iff, waiting_congr (heap_of_done hq)] at ht
    rw [hr.mem_iff, List.mem_cons]
    tauto
  · rw [hp.mem_iff, hr.mem_iff, waiting_congr (heap_of_rest hq)] at ht
    exact .inl ht

/-- A task that is in the system before a step is there after it, or it was marked as
done. -/
theorem inSystem_after (h : s.step l = some s') (ht : task ∈ s.inSystem) :
    task ∈ s'.inSystem ∨
      ∃ i detected, l = .markDone i detected ∧ s.workers[i]? = some (.running task) := by
  simp only [inSystem, List.mem_append] at ht ⊢
  rcases moves_of_step h with
    ⟨item, now, answer, -, hq, hp, hr, -⟩ | ⟨e, -, hq, hp, hr, -⟩ | ⟨t, hq, hp, hr, -⟩ |
    ⟨t, hl, hq, hp, hr, -⟩ | ⟨hq, hp, hr, -⟩
  · rw [hp.mem_iff, hr.mem_iff, (waiting_of_put hq).mem_iff, List.mem_append]
    tauto
  · rw [waiting_of_pop hq, List.mem_cons] at ht
    rw [hp.mem_iff, hr.mem_iff, List.mem_cons]
    tauto
  · rw [hp.mem_iff, List.mem_cons] at ht
    rw [hr.mem_iff, List.mem_cons, waiting_congr (heap_of_register hq)]
    tauto
  · rw [hr.mem_iff, List.mem_cons] at ht
    rw [hp.mem_iff, waiting_congr (heap_of_done hq)]
    rcases ht with (hw | hpop) | rfl | hrun
    · exact .inl (.inl (.inl hw))
    · exact .inl (.inl (.inr hpop))
    · exact .inr hl
    · exact .inl (.inr hrun)
  · rw [hp.mem_iff, hr.mem_iff, waiting_congr (heap_of_rest hq)]
    exact .inl ht

/-! ### The queue knows what is in the system -/

/-- Every step keeps the two sets exact. -/
theorem Tracked.step (h : s.Tracked) (hs : s.step l = some s') : s'.Tracked := by
  unfold Tracked at h ⊢
  rcases moves_of_step hs with
    ⟨item, now, answer, -, hq, hp, hr, -⟩ | ⟨e, -, hq, hp, hr, -⟩ | ⟨task, hq, hp, hr, -⟩ |
    ⟨task, -, hq, hp, hr, -⟩ | ⟨hq, hp, hr, -⟩
  · have hw := (waiting_of_put hq).append hp
    rcases h.put hq with ⟨rfl, -, hqq⟩ | ⟨rfl, -, htr⟩
    · rw [hqq]
      exact h.perm (hw.symm.map _) (hr.symm.map _)
    · exact htr.perm (hw.symm.map _) (hr.symm.map _)
  · have hw : (s.waiting ++ s.popped).Perm (s'.waiting ++ s'.popped) := by
      rw [waiting_of_pop hq]
      exact List.perm_middle.symm.trans (hp.symm.append_left _)
    exact (h.getPop hq).perm (hw.map _) (hr.symm.map _)
  · have hw : (s.waiting ++ s.popped).Perm (task :: (s'.waiting ++ s'.popped)) := by
      rw [waiting_congr (heap_of_register hq)]
      exact (hp.append_left _).trans List.perm_middle
    exact ((h.perm (hw.map _) (List.Perm.refl _)).getRegister hq).perm (List.Perm.refl _)
      (hr.symm.map _)
  · rw [waiting_congr (heap_of_done hq)]
    exact ((h.perm (List.Perm.refl _) (hr.map _)).markDone hq).perm
      ((hp.symm.append_left _).map _) (List.Perm.refl _)
  · rw [waiting_congr (heap_of_rest hq)]
    have hsame := h.perm ((hp.symm.append_left _).map _) (hr.symm.map _)
    rcases hq with hq | hq
    · rw [hq]
      exact hsame
    · exact hsame.putAdd hq

theorem tracked_initial (n : ℕ) : (initial n).Tracked := by
  have hp : (initial n).popped = [] := by
    simp [popped, initial, holdings, List.flatMap_replicate, Worker.poppedTask]
  have hr : (initial n).running = [] := by
    simp [running, initial, holdings, List.flatMap_replicate, Worker.runningTask]
  unfold Tracked
  rw [hp, hr]
  exact DeduplicatedQueue.Tracks.empty

/-- **No path is in the system twice, and the queue knows which paths are**: after every
run, the tasks that wait, that were popped and that are handled have different paths, and
`put`, whenever it can be called, takes in exactly the tasks whose path is not among them. -/
theorem exclusive {n : ℕ} (hrun : runSteps step (initial n) ls = some s) :
    (s.inSystem.map Task.path).Nodup ∧
      ∀ item now q' answer, s.queue.put item now = some (q', answer) →
        (answer = true ↔ item.path ∉ s.inSystem.map Task.path) := by
  have h : s.Tracked := invariant_of_runSteps (fun _ _ _ => Tracked.step) (tracked_initial n) hrun
  rw [inSystem, List.map_append]
  refine ⟨h.nodup, ?_⟩
  intro item now q' answer hput
  rcases DeduplicatedQueue.Tracks.put h hput with ⟨rfl, hin, -⟩ | ⟨rfl, hout, -⟩
  · exact iff_of_false Bool.false_ne_true (not_not_intro hin)
  · exact iff_of_true rfl hout

/-- A file whose language is to be detected is put in while an upload waits, is handled
first and gives a task of its own. -/
def detectedBeforeUpload : List QueueLabel :=
  [.put ⟨"asr-1", some .asr, true, some 0⟩ 1, .putAdd,
    .put ⟨"/tv/a.mkv", some .detectLanguage, false, none⟩ 2, .putAdd,
    .getPop 0, .getRegister 0, .put ⟨"/tv/a.mkv", none, false, none⟩ 3,
    .markDone 0 true, .putNext 0 4, .putAdd, .leave 0, .getPop 0]

theorem exclusive_detectedBeforeUpload :
    ∃ s, runSteps step (initial 1) detectedBeforeUpload = some s ∧
      (s.inSystem.map Task.path).Nodup ∧
      ∀ item now q' answer, s.queue.put item now = some (q', answer) →
        (answer = true ↔ item.path ∉ s.inSystem.map Task.path) :=
  ⟨_, rfl, @exclusive _ detectedBeforeUpload 1 rfl⟩

/-! ### Nothing is lost -/

theorem Balanced.step (h : s.Balanced) (hs : s.step l = some s') : s'.Balanced := by
  obtain ⟨hacc, hsta⟩ := h
  rcases moves_of_step hs with
    ⟨item, now, answer, -, hq, hp, hr, ha, hst, hf⟩ | ⟨e, -, hq, hp, hr, ha, hst, hf⟩ |
    ⟨task, hq, hp, hr, ha, hst, hf⟩ | ⟨task, -, hq, hp, hr, ha, hst, hf⟩ |
    ⟨hq, hp, hr, ha, hst, hf⟩
  · constructor
    · have hnew : (if answer then [item.entry now] else []).map Entry.item
          = if answer then [item] else [] := by
        cases answer <;> rfl
      rw [ha, hst, List.map_append, hnew]
      refine ((hacc.append_right _).trans ?_)
      rw [List.append_assoc]
      exact (List.perm_append_comm.trans (waiting_of_put hq).symm).append_left _
    · rw [hst, hf]
      exact hsta.trans ((hp.symm.append hr.symm).append_right _)
  · constructor
    · rw [ha, hst, List.map_append, List.append_assoc]
      rw [waiting_of_pop hq] at hacc
      exact hacc
    · rw [hst, hf, List.map_append]
      refine (hsta.append_right _).trans ((List.perm_append_singleton _ _).trans ?_)
      exact ((hp.symm.append hr.symm).append_right _)
  · constructor
    · rw [ha, hst, waiting_congr (heap_of_register hq)]
      exact hacc
    · rw [hst, hf]
      refine hsta.trans (List.Perm.append_right _ ?_)
      exact (hp.append_right _).trans (List.perm_middle.symm.trans (hr.symm.append_left _))
  · constructor
    · rw [ha, hst, waiting_congr (heap_of_done hq)]
      exact hacc
    · rw [hst, hf]
      have hmove : (s.popped ++ s.running).Perm (s'.popped ++ s'.running ++ [task]) :=
        (hp.symm.append hr).trans
          (List.perm_middle.trans (List.perm_append_singleton _ _).symm)
      refine hsta.trans ((hmove.append_right _).trans ?_)
      rw [List.append_assoc]
      exact List.perm_append_comm.append_left _
  · constructor
    · rw [ha, hst, waiting_congr (heap_of_rest hq)]
      exact hacc
    · rw [hst, hf]
      exact hsta.trans ((hp.symm.append hr.symm).append_right _)

theorem balanced_initial (n : ℕ) : (initial n).Balanced := by
  have hp : (initial n).popped = [] := by
    simp [popped, initial, holdings, List.flatMap_replicate, Worker.poppedTask]
  have hr : (initial n).running = [] := by
    simp [running, initial, holdings, List.flatMap_replicate, Worker.runningTask]
  constructor
  · exact List.Perm.refl _
  · rw [hp, hr]
    exact List.Perm.refl _

/-- **Every task that was taken in waits, is in one worker's hands, or was handled, once**:
after every run, the tasks that `put` has taken in are, up to their order, the tasks in the
heap, those that workers hold, and those that were marked as done. -/
theorem conserved {n : ℕ} (hrun : runSteps step (initial n) ls = some s) :
    (s.accepted.map Entry.item).Perm (s.inSystem ++ s.finished) := by
  have h : s.Balanced :=
    invariant_of_runSteps (fun _ _ _ => Balanced.step) (balanced_initial n) hrun
  calc (s.accepted.map Entry.item).Perm (s.started.map Entry.item ++ s.waiting) := h.accepted
    _ |>.Perm (s.popped ++ s.running ++ s.finished ++ s.waiting) := h.started.append_right _
    _ |>.Perm (s.inSystem ++ s.finished) := by
      rw [inSystem, List.append_assoc s.waiting, List.append_assoc s.waiting]
      exact List.perm_append_comm

theorem conserved_detectedBeforeUpload :
    ∃ s, runSteps step (initial 1) detectedBeforeUpload = some s ∧
      (s.accepted.map Entry.item).Perm (s.inSystem ++ s.finished) :=
  ⟨_, rfl, @conserved _ detectedBeforeUpload 1 rfl⟩

/-! ### The lanes -/

/-- The clock has moved since the last task was taken in. -/
def ClockMoves (s : QueueState) : QueueLabel → Prop
  | .put _ now => ∀ e ∈ s.accepted, e.timestamp < now
  | .putNext _ now => ∀ e ∈ s.accepted, e.timestamp < now
  | _ => True

instance (s : QueueState) (l : QueueLabel) : Decidable (ClockMoves s l) := by
  cases l <;> unfold ClockMoves <;> infer_instance

/-- The three kinds of tasks are lanes. -/
def Lanes (s : QueueState) : Prop :=
  Served Entry.priority Entry.timestamp s.accepted s.started s.queue.heap

theorem Lanes.step (h : s.Lanes) (hclock : ClockMoves s l) (hs : s.step l = some s') :
    s'.Lanes := by
  unfold Lanes at h ⊢
  rcases moves_of_step hs with
    ⟨item, now, answer, hl, hq, -, -, ha, hst, -⟩ | ⟨e, -, hq, -, -, ha, hst, -⟩ |
    ⟨task, hq, -, -, ha, hst, -⟩ | ⟨task, -, hq, -, -, ha, hst, -⟩ | ⟨hq, -, -, ha, hst, -⟩
  · rw [ha, hst]
    obtain ⟨-, ⟨rfl, hqq, -⟩ | ⟨rfl, -, -, -, hqq⟩⟩ := DeduplicatedQueue.put_cases hq
    · rw [hqq]
      simpa using h
    · have hlate : ∀ e ∈ s.accepted, e.timestamp < now := by
        rcases hl with rfl | ⟨i, rfl, -⟩
        · exact hclock
        · exact hclock
      rw [hqq]
      exact h.enqueue fun b hb _ => hlate b (h.mem_accepted hb)
  · rw [ha, hst]
    rw [(DeduplicatedQueue.getPop_eq_some hq).1] at h
    exact h.dequeue
  · rw [ha, hst, heap_of_register hq]
    exact h
  · rw [ha, hst, heap_of_done hq]
    exact h
  · rw [ha, hst, heap_of_rest hq]
    exact h

/-- **The three kinds of tasks are three lanes, each first in, first out**: in every run in
which the clock moves between two tasks, the tasks of a kind are handled in the order in
which they were taken in, none of them twice and none left out; and a worker that takes a
task leaves no task of a more urgent kind, and none of its kind that came before. -/
theorem firstInFirstOut {n : ℕ} (hrun : runSteps step (initial n) ls = some s)
    (hclock : AllSteps step ClockMoves (initial n) ls) :
    (∀ p, s.accepted.filter (fun e => e.priority = p)
      = s.started.filter (fun e => e.priority = p)
        ++ s.queue.heap.filter (fun e => e.priority = p)) ∧
      ∀ i s', s.step (.getPop i) = some s' → ∃ e, s'.started = s.started ++ [e] ∧
        ∀ b ∈ s'.queue.heap,
          e.priority < b.priority ∨ e.priority = b.priority ∧ e.timestamp < b.timestamp := by
  have hinit : (initial n).Lanes := Served.nil
  have h : s.Lanes := invariant_of_allSteps (fun _ _ _ => Lanes.step) hinit hclock hrun
  refine ⟨h.lanes, ?_⟩
  intro i s' hs
  simp only [QueueState.step] at hs
  split at hs
  · obtain ⟨⟨q', e⟩, hpop, rfl⟩ := Option.map_eq_some_iff.mp hs
    refine ⟨e, rfl, ?_⟩
    unfold Lanes at h
    rw [(DeduplicatedQueue.getPop_eq_some hpop).1] at h
    exact h.head_before
  · cases hs

theorem firstInFirstOut_detectedBeforeUpload :
    ∃ s, runSteps step (initial 1) detectedBeforeUpload = some s ∧
      ∀ p, s.accepted.filter (fun e => e.priority = p)
        = s.started.filter (fun e => e.priority = p)
          ++ s.queue.heap.filter (fun e => e.priority = p) :=
  ⟨_, rfl, (@firstInFirstOut _ detectedBeforeUpload 1 rfl (by decide)).1⟩

end QueueState

end Subgen
end MediaHub

import MediaHub.Subgen.AsrWorker
import MediaHub.Subgen.TaskQueue

/-!
# The requests that wait for a transcription

`stacks/subgen-r9/src/subgen.py`, the endpoints `/asr`, `/v1/audio/transcriptions` and
`/v1/audio/translations`: a request looks its task id up in `task_results`, makes a
`TaskResult` if there is none, puts a task into the queue and blocks until the `TaskResult`
is set, or its time is over; then it removes the entry.  A request whose task is in the
system already waits for the other one's result.  The containers are set by
`asr_task_worker`, from the task, and by `gen_subtitles`, from the table.

## Main definitions

* `EndpointState` — the task queue with the containers, the table and the requests.
* `EndpointState.step` — a step of one of the requests or threads.

## Main results

* `allowed_of_asrTaskWorker` — the worker keeps to the order that the steps ask of it.
* `answersOwnTask` — **no request is answered with the result of another task id**, and the
  table holds nothing but entries of requests that are still open.
* `acceptedIsAnswered` — **a request whose task was taken in is never left without an
  answer.**
-/

namespace MediaHub
namespace Subgen

/-- A `TaskResult`, with what it was made for and, once it is set, the path of the task
whose worker has set it. -/
structure TaskResult where
  taskId : String
  done : Option (Signal × String)
  deriving DecidableEq, Repr

/-- How far a request is. -/
inductive RequestStage where
  /-- It has its container. -/
  | registered
  /-- It waits for the container, and this was the answer of `put`. -/
  | waiting (accepted : Bool)
  /-- It was answered with what was in the container, set for the task with this path. -/
  | answered (outcome : Signal) (path : String)
  | timedOut
  /-- Its `finally` block was run. -/
  | closed
  deriving DecidableEq, Repr

structure AsrRequest where
  taskId : String
  container : ℕ
  stage : RequestStage
  deriving DecidableEq, Repr

structure EndpointState where
  tasks : QueueState
  containers : List TaskResult
  /-- `task_results`. -/
  taskResults : List (String × ℕ)
  requests : List AsrRequest
  /-- The workers that have set the container of their task. -/
  signalled : Finset ℕ

def EndpointState.initial (n : ℕ) : EndpointState := ⟨.initial n, [], [], [], ∅⟩

inductive EndpointLabel where
  /-- A step of the task queue. -/
  | task (l : QueueLabel)
  /-- A request comes in and gets its container from the table. -/
  | register (taskId : String)
  /-- It calls `put`. -/
  | put (k : ℕ) (now : ℚ)
  /-- `asr_task_worker` sets the container of its task. -/
  | signal (i : ℕ) (outcome : Signal)
  /-- `gen_subtitles` sets the container that the table has for its file, if there is one. -/
  | publish (i : ℕ) (outcome : Signal)
  /-- `wait` returns. -/
  | answer (k : ℕ)
  | timeout (k : ℕ)
  /-- The `finally` block of a request, which may have ended by an exception. -/
  | close (k : ℕ)
  deriving DecidableEq, Repr

/-- The task of a request. -/
def AsrRequest.task (r : AsrRequest) : Task := ⟨r.taskId, some .asr, true, some r.container⟩

namespace EndpointState

/-- The steps of the task queue that are not steps of a request: other threads put tasks
without a container, and `asr_task_worker` does not return before it has set the container
of its task. -/
def Allowed (s : EndpointState) : QueueLabel → Prop
  | .put item _ => item.resultContainer = none
  | .markDone i _ =>
    ∀ task, s.tasks.workers[i]? = some (.running task) → task.resultContainer ≠ none →
      i ∈ s.signalled
  | _ => True

instance (s : EndpointState) : ∀ l, Decidable (s.Allowed l)
  | .put item _ => decEq item.resultContainer none
  | .markDone i _ => decidable_of_iff (∀ w ∈ s.tasks.workers[i]?.toList, ∀ task ∈ w.runningTask,
      task.resultContainer.isSome = true → i ∈ s.signalled) <| by
    constructor
    · intro h task hi hcontainer
      exact h _ (Option.mem_toList.mpr hi) task List.mem_cons_self
        (Option.isSome_iff_ne_none.mpr hcontainer)
    · intro h w hw task htask hcontainer
      cases w with
      | running t =>
        obtain rfl : task = t := List.mem_singleton.mp htask
        exact h task (Option.mem_toList.mp hw) (Option.isSome_iff_ne_none.mp hcontainer)
      | _ => cases htask
  | .putNext _ _ | .putAdd | .getPop _ | .getRegister _ | .leave _ => .isTrue trivial

/-- The workers whose task is still the one whose container they have set. -/
def keepSignalled : QueueLabel → Finset ℕ → Finset ℕ
  | .markDone i _, signalled => signalled.erase i
  | _, signalled => signalled

/-- A `TaskResult` is set. -/
def setContainer (c : ℕ) (outcome : Signal) (path : String) (containers : List TaskResult) :
    List TaskResult :=
  containers.modify c fun t => { t with done := some (outcome, path) }

/-- A step of one of the requests or threads. -/
def step (s : EndpointState) : EndpointLabel → Option EndpointState
  | .task l =>
    if s.Allowed l then (s.tasks.step l).map fun tasks =>
      { s with tasks, signalled := keepSignalled l s.signalled }
    else none
  | .register taskId =>
    match s.taskResults.lookup taskId with
    | some c => some { s with requests := s.requests ++ [⟨taskId, c, .registered⟩] }
    | none => some { s with
        containers := s.containers ++ [⟨taskId, none⟩]
        taskResults := (taskId, s.containers.length) :: s.taskResults
        requests := s.requests ++ [⟨taskId, s.containers.length, .registered⟩] }
  | .put k now =>
    match s.requests[k]? with
    | some ⟨taskId, c, .registered⟩ =>
      (s.tasks.queue.put (AsrRequest.task ⟨taskId, c, .registered⟩) now).bind fun r =>
        (s.tasks.put (AsrRequest.task ⟨taskId, c, .registered⟩) now).map fun tasks =>
          { s with tasks, requests := s.requests.set k ⟨taskId, c, .waiting r.2⟩ }
    | _ => none
  | .signal i outcome =>
    match s.tasks.workers[i]? with
    | some (.running task) => task.resultContainer.map fun c => { s with
        containers := setContainer c outcome task.path s.containers
        signalled := insert i s.signalled }
    | _ => none
  | .publish i outcome =>
    match s.tasks.workers[i]? with
    | some (.running task) =>
      match s.taskResults.lookup task.path with
      | some c => some { s with containers := setContainer c outcome task.path s.containers }
      | none => some s
    | _ => none
  | .answer k =>
    match s.requests[k]? with
    | some ⟨taskId, c, .waiting _⟩ =>
      (s.containers[c]?.bind TaskResult.done).map fun o =>
        { s with requests := s.requests.set k ⟨taskId, c, .answered o.1 o.2⟩ }
    | _ => none
  | .timeout k =>
    match s.requests[k]? with
    | some ⟨taskId, c, .waiting _⟩ =>
      some { s with requests := s.requests.set k ⟨taskId, c, .timedOut⟩ }
    | _ => none
  | .close k =>
    match s.requests[k]? with
    | some ⟨taskId, c, stage⟩ =>
      if stage = .closed then none
      else some { s with
        requests := s.requests.set k ⟨taskId, c, .closed⟩
        taskResults := s.taskResults.filter fun e => e.1 ≠ taskId }
    | none => none

variable {s s' : EndpointState} {l : EndpointLabel} {ls : List EndpointLabel}
  {ql : QueueLabel} {k i c : ℕ} {l₁ : List TaskResult}

/-! ### The containers -/

/-- The containers of `l₁` are still there, for the same task ids, and what was set is. -/
def Grows (l₁ l₂ : List TaskResult) : Prop :=
  ∀ (c : ℕ) (t : TaskResult), l₁[c]? = some t →
    ∃ t', l₂[c]? = some t' ∧ t'.taskId = t.taskId ∧ (t.done ≠ none → t'.done ≠ none)

theorem Grows.refl (l₁ : List TaskResult) : Grows l₁ l₁ := fun _ t ht => ⟨t, ht, rfl, id⟩

theorem Grows.append (l₁ l₂ : List TaskResult) : Grows l₁ (l₁ ++ l₂) := fun _ t ht =>
  ⟨t, List.getElem?_append_left (List.getElem?_eq_some_iff.mp ht).1 ▸ ht, rfl, id⟩

theorem getElem?_setContainer {outcome : Signal} {path : String} {j : ℕ} :
    (setContainer c outcome path l₁)[j]? = l₁[j]?.map fun t =>
      if c = j then { t with done := some (outcome, path) } else t := by
  rw [setContainer, List.getElem?_modify]
  split <;> simp

theorem Grows.set (i : ℕ) (outcome : Signal) (path : String) (l₁ : List TaskResult) :
    Grows l₁ (setContainer i outcome path l₁) := by
  intro j t ht
  refine ⟨_, by rw [getElem?_setContainer, ht]; rfl, ?_, ?_⟩
  · split <;> rfl
  · split
    · exact fun _ => nofun
    · exact id

/-- The container with this number was made for this task id. -/
def MadeFor (s : EndpointState) (c : ℕ) (taskId : String) : Prop :=
  ∃ t, s.containers[c]? = some t ∧ t.taskId = taskId

/-- The container with this number is set. -/
def IsSet (s : EndpointState) (c : ℕ) : Prop :=
  ∃ t, s.containers[c]? = some t ∧ t.done ≠ none

theorem MadeFor.grows {taskId : String} (h : s.MadeFor c taskId)
    (hg : Grows s.containers s'.containers) : s'.MadeFor c taskId := by
  obtain ⟨t, ht, rfl⟩ := h
  obtain ⟨t', ht', hid, -⟩ := hg c t ht
  exact ⟨t', ht', hid⟩

theorem IsSet.grows (h : s.IsSet c) (hg : Grows s.containers s'.containers) : s'.IsSet c := by
  obtain ⟨t, ht, hdone⟩ := h
  obtain ⟨t', ht', -, hset⟩ := hg c t ht
  exact ⟨t', ht', hset hdone⟩

/-- The containers that are set were set for their own task id. -/
def OwnOutcomes (containers : List TaskResult) : Prop :=
  ∀ t ∈ containers, ∀ outcome path, t.done = some (outcome, path) → path = t.taskId

theorem OwnOutcomes.set {outcome : Signal} {path : String}
    (h : OwnOutcomes s.containers) (hc : s.MadeFor c path) :
    OwnOutcomes (setContainer c outcome path s.containers) := by
  obtain ⟨tc, htc, hid⟩ := hc
  intro t ht o p hdone
  obtain ⟨j, hj⟩ := List.getElem?_of_mem ht
  rw [getElem?_setContainer, Option.map_eq_some_iff] at hj
  obtain ⟨u, hu, rfl⟩ := hj
  split at hdone
  · next heq =>
    subst heq
    obtain rfl : tc = u := Option.some.inj (htc.symm.trans hu)
    obtain ⟨rfl, rfl⟩ := Prod.mk.inj (Option.some.inj hdone)
    rw [if_pos rfl]
    exact hid.symm
  · next hne =>
    rw [if_neg hne]
    exact h u (List.mem_of_getElem? hu) o p hdone

/-! ### What a step does -/

theorem step_task (h : s.step (.task ql) = some s') :
    s.Allowed ql ∧ ∃ tasks, s.tasks.step ql = some tasks ∧
      s' = { s with tasks, signalled := keepSignalled ql s.signalled } := by
  obtain ⟨hallowed, h⟩ := Option.ite_none_right_eq_some.mp h
  obtain ⟨tasks, htasks, rfl⟩ := Option.map_eq_some_iff.mp h
  exact ⟨hallowed, tasks, htasks, rfl⟩

theorem step_register {taskId : String} (h : s.step (.register taskId) = some s') :
    ∃ c, s' = { s with containers := s'.containers, taskResults := s'.taskResults
                       requests := s.requests ++ [⟨taskId, c, .registered⟩] } ∧
      Grows s.containers s'.containers ∧
      ((taskId, c) ∈ s.taskResults ∧ s'.taskResults = s.taskResults ∧
          s'.containers = s.containers ∨
        s'.taskResults = (taskId, c) :: s.taskResults ∧ c = s.containers.length ∧
          s'.containers = s.containers ++ [⟨taskId, none⟩]) := by
  simp only [step] at h
  split at h
  · next c hc =>
    cases h
    refine ⟨c, rfl, Grows.refl _, .inl ⟨?_, rfl, rfl⟩⟩
    obtain ⟨l₁, l₂, heq, -⟩ := List.lookup_eq_some_iff.mp hc
    rw [heq]
    exact List.mem_append_right _ List.mem_cons_self
  · cases h
    exact ⟨s.containers.length, rfl, Grows.append _ _, .inr ⟨rfl, rfl, rfl⟩⟩

theorem step_put {now : ℚ} (h : s.step (.put k now) = some s') :
    ∃ taskId c answer tasks, s.requests[k]? = some ⟨taskId, c, .registered⟩ ∧
      s.tasks.queue.put (AsrRequest.task ⟨taskId, c, .registered⟩) now
        = some (tasks.queue, answer) ∧
      s.tasks.step (.put (AsrRequest.task ⟨taskId, c, .registered⟩) now) = some tasks ∧
      s' = { s with tasks, requests := s.requests.set k ⟨taskId, c, .waiting answer⟩ } := by
  simp only [step] at h
  split at h
  · next taskId c hk =>
    obtain ⟨⟨q', answer⟩, hq, h⟩ := Option.bind_eq_some_iff.mp h
    obtain ⟨tasks, htasks, rfl⟩ := Option.map_eq_some_iff.mp h
    refine ⟨taskId, c, answer, tasks, hk, ?_, htasks, rfl⟩
    obtain ⟨r, hr, rfl⟩ := Option.map_eq_some_iff.mp htasks
    rw [hq] at hr
    rw [hq, ← Option.some.inj hr]
  · cases h

/-- `asr_task_worker` or `gen_subtitles` sets a container, or the latter finds none. -/
theorem step_set {outcome : Signal}
    (h : s.step (.signal i outcome) = some s' ∨ s.step (.publish i outcome) = some s') :
    s' = s ∨ ∃ task c, s.tasks.workers[i]? = some (.running task) ∧
      (task.resultContainer = some c ∨ (task.path, c) ∈ s.taskResults) ∧
      s' = { s with
        containers := setContainer c outcome task.path s.containers, signalled := s'.signalled } ∧
      (s'.signalled = s.signalled ∨
        task.resultContainer = some c ∧ s'.signalled = insert i s.signalled) := by
  rcases h with h | h
  · simp only [step] at h
    split at h
    · next task hi =>
      obtain ⟨c, hc, rfl⟩ := Option.map_eq_some_iff.mp h
      exact .inr ⟨task, c, hi, .inl hc, rfl, .inr ⟨hc, rfl⟩⟩
    · cases h
  · simp only [step] at h
    split at h
    · next task hi =>
      split at h
      · next c hc =>
        cases h
        obtain ⟨l₁, l₂, heq, -⟩ := List.lookup_eq_some_iff.mp hc
        refine .inr ⟨task, c, hi, .inr ?_, rfl, .inl rfl⟩
        rw [heq]
        exact List.mem_append_right _ List.mem_cons_self
      · exact .inl (Option.some.inj h).symm
    · cases h

/-- **`asr_task_worker` is done with its task only after it has set the container**, whatever
the request, its audio and the model are. -/
theorem allowed_of_asrTaskWorker (U : Unicodedata) (S : StableWhisper) (cfg : Config)
    (env : Env) (t : AsrTask) (detected : Bool)
    (hrun : runSteps step s ((asrTaskWorker U S cfg env t).map (.signal i)) = some s') :
    s'.Allowed (.markDone i detected) := by
  obtain ⟨signal, hsignal⟩ := asrTaskWorker_eq_singleton U S cfg env t
  rw [hsignal, List.map_singleton] at hrun
  obtain ⟨m, hs, hm⟩ := runSteps_cons.mp hrun
  obtain rfl := Option.some.inj hm
  simp only [step] at hs
  split at hs
  · obtain ⟨c, -, rfl⟩ := Option.map_eq_some_iff.mp hs
    exact fun _ _ _ => Finset.mem_insert_self i s.signalled
  · cases hs

/-- A request ends its wait, or is closed. -/
theorem step_end (h : s.step (.answer k) = some s' ∨ s.step (.timeout k) = some s' ∨
      s.step (.close k) = some s') :
    ∃ taskId c stage stage', s.requests[k]? = some ⟨taskId, c, stage⟩ ∧
      s' = { s with requests := s.requests.set k ⟨taskId, c, stage'⟩
                    taskResults := s'.taskResults } ∧
      ((∃ outcome path, stage' = .answered outcome path ∧ s'.taskResults = s.taskResults ∧
          (s.containers[c]?.bind TaskResult.done) = some (outcome, path)) ∨
        stage' = .timedOut ∧ s'.taskResults = s.taskResults ∨
        stage' = .closed ∧ s'.taskResults = s.taskResults.filter fun e => e.1 ≠ taskId) := by
  rcases h with h | h | h
  · simp only [step] at h
    split at h
    · next taskId c accepted hk =>
      obtain ⟨⟨outcome, path⟩, ho, rfl⟩ := Option.map_eq_some_iff.mp h
      exact ⟨taskId, c, _, _, hk, rfl, .inl ⟨outcome, path, rfl, rfl, ho⟩⟩
    · cases h
  · simp only [step] at h
    split at h
    · next taskId c accepted hk =>
      cases h
      exact ⟨taskId, c, _, _, hk, rfl, .inr (.inl ⟨rfl, rfl⟩)⟩
    · cases h
  · simp only [step] at h
    split at h
    · next taskId c stage hk =>
      obtain ⟨-, h⟩ := Option.ite_none_left_eq_some.mp h
      cases h
      exact ⟨taskId, c, _, _, hk, rfl, .inr (.inr ⟨rfl, rfl⟩)⟩
    · cases h

/-! ### Everyone has their own -/

/-- Containers are used for the task id they were made for, in the table, by the requests
and by the tasks; and the table has entries of open requests only. -/
structure Owned (s : EndpointState) : Prop where
  table : ∀ taskId c, (taskId, c) ∈ s.taskResults →
    s.MadeFor c taskId ∧ ∃ r ∈ s.requests, r.taskId = taskId ∧ r.stage ≠ .closed
  requests : ∀ r ∈ s.requests, s.MadeFor r.container r.taskId
  tasks : ∀ task ∈ s.tasks.inSystem, ∀ c, task.resultContainer = some c →
    s.MadeFor c task.path ∧ task.taskType ≠ .detectLanguage
  next : ∀ (i : ℕ) (task : Task), s.tasks.workers[i]? = some (.done (some task)) →
    task.resultContainer = none
  outcomes : OwnOutcomes s.containers
  answered : ∀ r ∈ s.requests, ∀ outcome path, r.stage = .answered outcome path →
    path = r.taskId

theorem owned_initial (n : ℕ) : (initial n).Owned where
  table := nofun
  requests := nofun
  tasks := by
    have hnone : (initial n).tasks.inSystem = [] := by
      simp [initial, QueueState.inSystem, QueueState.waiting, QueueState.popped,
        QueueState.running, QueueState.initial, DeduplicatedQueue.empty, holdings,
        List.flatMap_replicate, Worker.poppedTask, Worker.runningTask]
    simp [hnone]
  next i task hi := by
    have hw := List.eq_of_mem_replicate (List.mem_of_getElem? hi)
    cases hw
  outcomes := nofun
  answered := nofun

/-- A task that a worker runs is in the system. -/
theorem mem_inSystem_of_running {task : Task}
    (hi : s.tasks.workers[i]? = some (.running task)) : task ∈ s.tasks.inSystem :=
  List.mem_append_right _ (mem_holdings_of hi List.mem_cons_self)

theorem nextTask_eq_some {task next : Task} {detected : Bool}
    (h : nextTask task detected = some next) :
    task.taskType = .detectLanguage ∧ next = detectLanguageTask task := by
  obtain ⟨hdetect, h⟩ := Option.ite_none_right_eq_some.mp h
  exact ⟨hdetect.1, (Option.some.inj h).symm⟩

/-- The tasks after a step of the task queue that puts in no task of a request. -/
theorem Owned.task_step {tasks : QueueState} (h : s.Owned) (hallowed : s.Allowed ql)
    (hs : s.tasks.step ql = some tasks) :
    (∀ task ∈ tasks.inSystem, ∀ c, task.resultContainer = some c →
      s.MadeFor c task.path ∧ task.taskType ≠ .detectLanguage) ∧
      ∀ (i : ℕ) (task : Task), tasks.workers[i]? = some (.done (some task)) →
        task.resultContainer = none := by
  constructor
  · intro task ht c hc
    rcases QueueState.inSystem_before hs ht with hold | ⟨now, rfl⟩ | ⟨i, now, -, hi⟩
    · exact h.tasks task hold c hc
    · rw [show task.resultContainer = none from hallowed] at hc
      cases hc
    · rw [h.next i task hi] at hc
      cases hc
  · intro i task hi
    rcases QueueState.workers_of_step hs with ⟨hw, -⟩ | ⟨j, w, w', hj, hw, hturn⟩
    · exact h.next i task (hw ▸ hi)
    · rw [hw] at hi
      rcases eq_or_ne j i with rfl | hne
      · rw [getElem?_set_party hj] at hi
        have hdone : w' = .done (some task) := Option.some.inj hi
        cases hturn with
        | markDone _ detected t =>
          obtain ⟨hdetect, rfl⟩ := nextTask_eq_some (Worker.done.inj hdone)
          by_contra hsome
          obtain ⟨c, hc⟩ := Option.ne_none_iff_exists'.mp hsome
          exact (h.tasks t (mem_inSystem_of_running hj) c hc).2 hdetect
        | _ => cases hdone
      · rw [List.getElem?_set_ne hne] at hi
        exact h.next i task hi

theorem Owned.register {taskId : String} (h : s.Owned)
    (hs : s.step (.register taskId) = some s') : s'.Owned := by
  obtain ⟨c, heq, hg, hnew⟩ := step_register hs
  have hreq : s'.requests = s.requests ++ [⟨taskId, c, .registered⟩] := by rw [heq]
  have htasks : s'.tasks = s.tasks := by rw [heq]
  have hown : s'.MadeFor c taskId := by
    rcases hnew with ⟨hin, -, hc⟩ | ⟨-, rfl, hc⟩
    · obtain ⟨t, ht, hid⟩ := (h.table taskId c hin).1
      exact ⟨t, hc ▸ ht, hid⟩
    · refine ⟨⟨taskId, none⟩, ?_, rfl⟩
      rw [hc, List.getElem?_append_right le_rfl, Nat.sub_self]
      rfl
  have hold : ∀ id d, (id, d) ∈ s.taskResults →
      s'.MadeFor d id ∧ ∃ r ∈ s'.requests, r.taskId = id ∧ r.stage ≠ .closed := by
    intro id d hd
    obtain ⟨hmade, r, hr, hrid⟩ := h.table id d hd
    exact ⟨hmade.grows hg, r, hreq ▸ List.mem_append_left _ hr, hrid⟩
  refine ⟨?_, ?_, ?_, ?_, ?_, ?_⟩
  · intro id d hd
    rcases hnew with ⟨-, htab, -⟩ | ⟨htab, -, -⟩
    · exact hold id d (htab ▸ hd)
    · rw [htab, List.mem_cons] at hd
      rcases hd with hd | hd
      · obtain ⟨rfl, rfl⟩ := Prod.mk.inj hd
        refine ⟨hown, ⟨id, d, .registered⟩, ?_, rfl, nofun⟩
        rw [hreq]
        exact List.mem_append_right _ List.mem_cons_self
      · exact hold id d hd
  · intro r hr
    rw [hreq, List.mem_append] at hr
    rcases hr with hr | hr
    · exact (h.requests r hr).grows hg
    · obtain rfl := List.mem_singleton.mp hr
      exact hown
  · intro task ht d hd
    obtain ⟨hmade, htype⟩ := h.tasks task (htasks ▸ ht) d hd
    exact ⟨hmade.grows hg, htype⟩
  · intro i task hi
    exact h.next i task (htasks ▸ hi)
  · rcases hnew with ⟨-, -, hc⟩ | ⟨-, -, hc⟩
    · exact hc ▸ h.outcomes
    · intro t ht
      rw [hc, List.mem_append] at ht
      rcases ht with ht | ht
      · exact h.outcomes t ht
      · obtain rfl := List.mem_singleton.mp ht
        nofun
  · intro r hr
    rw [hreq, List.mem_append] at hr
    rcases hr with hr | hr
    · exact h.answered r hr
    · obtain rfl := List.mem_singleton.mp hr
      nofun

/-- A request that goes on to another stage leaves everyone what they have, if the entries
that stay in the table are not of a request that it closes. -/
theorem Owned.turn {taskId : String} {stage stage' : RequestStage}
    {table : List (String × ℕ)} (h : s.Owned) (hk : s.requests[k]? = some ⟨taskId, c, stage⟩)
    (htable : ∀ e ∈ table, e ∈ s.taskResults ∧ (stage' = .closed → e.1 ≠ taskId))
    (hanswer : ∀ outcome path, stage' = .answered outcome path → path = taskId) :
    ({ s with
      requests := s.requests.set k ⟨taskId, c, stage'⟩
      taskResults := table } : EndpointState).Owned := by
  refine ⟨?_, ?_, h.tasks, h.next, h.outcomes, ?_⟩
  · intro id d hd
    obtain ⟨hin, hopen⟩ := htable _ hd
    obtain ⟨hmade, hr⟩ := h.table id d hin
    refine ⟨hmade, exists_mem_set hr hk ?_⟩
    rintro ⟨rfl, -⟩
    exact ⟨rfl, fun hclosed => hopen hclosed rfl⟩
  · have hmade : s.MadeFor c taskId := h.requests _ (List.mem_of_getElem? hk)
    exact forall_mem_set h.requests hmade
  · exact forall_mem_set h.answered hanswer

/-- A request calls `put`. -/
theorem Owned.put {now : ℚ} (h : s.Owned) (hs : s.step (.put k now) = some s') : s'.Owned := by
  obtain ⟨taskId, c, answer, tasks, hk, -, hput, rfl⟩ := step_put hs
  have hmade : s.MadeFor c taskId := h.requests _ (List.mem_of_getElem? hk)
  have hown : ({ s with tasks } : EndpointState).Owned := by
    refine ⟨h.table, h.requests, ?_, ?_, h.outcomes, h.answered⟩
    · intro task ht d hd
      rcases QueueState.inSystem_before hput ht with hold | ⟨now', hl⟩ | ⟨i, now', hl, -⟩
      · exact h.tasks task hold d hd
      · cases hl
        cases hd
        exact ⟨hmade, nofun⟩
      · cases hl
    · intro i task hi
      rcases QueueState.workers_of_step hput with ⟨hw, -⟩ | ⟨j, w, w', -, -, hturn⟩
      · exact h.next i task (hw ▸ hi)
      · cases hturn
  exact hown.turn hk (fun e he => ⟨he, nofun⟩) nofun

/-- A container is set for the task id it was made for. -/
theorem Owned.set {outcome : Signal}
    (h : s.Owned) (hs : s.step (.signal i outcome) = some s' ∨
      s.step (.publish i outcome) = some s') : s'.Owned := by
  rcases step_set hs with rfl | ⟨task, c, hi, hc, heq, -⟩
  · exact h
  have hmade : s.MadeFor c task.path := by
    rcases hc with hc | hc
    · exact (h.tasks task (mem_inSystem_of_running hi) c hc).1
    · exact (h.table task.path c hc).1
  have hg : Grows s.containers s'.containers := by
    rw [heq]
    exact Grows.set c outcome task.path s.containers
  rw [heq]
  rw [heq] at hg
  refine ⟨?_, ?_, ?_, h.next, h.outcomes.set hmade, h.answered⟩
  · intro id d hd
    obtain ⟨hold, hopen⟩ := h.table id d hd
    exact ⟨hold.grows hg, hopen⟩
  · intro r hr
    exact (h.requests r hr).grows hg
  · intro t ht d hd
    obtain ⟨hold, htype⟩ := h.tasks t ht d hd
    exact ⟨hold.grows hg, htype⟩

/-- A request ends its wait, or is closed. -/
theorem Owned.finish (h : s.Owned) (hs : s.step (.answer k) = some s' ∨
      s.step (.timeout k) = some s' ∨ s.step (.close k) = some s') : s'.Owned := by
  obtain ⟨taskId, c, stage, stage', hk, heq, hstage⟩ := step_end hs
  rw [heq]
  refine h.turn hk ?_ ?_
  · intro e he
    rcases hstage with ⟨_, _, rfl, htab, -⟩ | ⟨rfl, htab⟩ | ⟨rfl, htab⟩
    · exact ⟨htab ▸ he, nofun⟩
    · exact ⟨htab ▸ he, nofun⟩
    · rw [htab, List.mem_filter] at he
      exact ⟨he.1, fun _ => of_decide_eq_true he.2⟩
  · rintro outcome path rfl
    rcases hstage with ⟨o, p, heq', -, hset⟩ | ⟨hne, -⟩ | ⟨hne, -⟩
    · cases heq'
      obtain ⟨t, ht, hdone⟩ := Option.bind_eq_some_iff.mp hset
      obtain ⟨t', ht', hid⟩ := h.requests _ (List.mem_of_getElem? hk)
      obtain rfl : t = t' := Option.some.inj (ht.symm.trans ht')
      exact (h.outcomes t (List.mem_of_getElem? ht) outcome path hdone).trans hid
    · cases hne
    · cases hne

theorem Owned.step (h : s.Owned) (hs : s.step l = some s') : s'.Owned := by
  cases l with
  | task ql =>
    obtain ⟨hallowed, tasks, htasks, rfl⟩ := step_task hs
    obtain ⟨ht, hn⟩ := h.task_step hallowed htasks
    exact ⟨h.table, h.requests, ht, hn, h.outcomes, h.answered⟩
  | register taskId => exact h.register hs
  | put k now => exact h.put hs
  | signal i outcome => exact h.set (.inl hs)
  | publish i outcome => exact h.set (.inr hs)
  | answer k => exact h.finish (.inl hs)
  | timeout k => exact h.finish (.inr (.inl hs))
  | close k => exact h.finish (.inr (.inr hs))

/-- **No request is answered with the result of another task id, and the table holds
nothing but entries of open requests**, after every run. -/
theorem answersOwnTask {n : ℕ} (hrun : runSteps step (initial n) ls = some s) :
    (∀ r ∈ s.requests, ∀ outcome path, r.stage = .answered outcome path → path = r.taskId) ∧
      ∀ taskId c, (taskId, c) ∈ s.taskResults →
        ∃ r ∈ s.requests, r.taskId = taskId ∧ r.stage ≠ .closed := by
  have h : s.Owned := invariant_of_runSteps (fun _ _ _ => Owned.step) (owned_initial n) hrun
  exact ⟨h.answered, fun taskId c hin => (h.table taskId c hin).2⟩

/-- Two requests of one upload and one of another: the second shares the container of the
first, and the others are handled one after the other. -/
def sharedUpload : List EndpointLabel :=
  [.register "asr-1", .put 0 1, .task .putAdd, .register "asr-1", .put 1 2,
    .register "asr-2", .put 2 3, .task .putAdd, .task (.getPop 0), .task (.getRegister 0),
    .signal 0 (.result "1"), .answer 0, .close 0, .answer 1,
    .task (.markDone 0 false), .task (.leave 0), .task (.getPop 0)]

theorem answersOwnTask_sharedUpload :
    ∃ s, runSteps step (initial 1) sharedUpload = some s ∧
      (∀ r ∈ s.requests, ∀ outcome path, r.stage = .answered outcome path → path = r.taskId) ∧
      ∀ taskId c, (taskId, c) ∈ s.taskResults →
        ∃ r ∈ s.requests, r.taskId = taskId ∧ r.stage ≠ .closed :=
  ⟨_, rfl, @answersOwnTask _ sharedUpload 1 rfl⟩

/-! ### Everyone gets their answer -/

/-- What a request whose task was taken in waits for is there, or is being worked on; and
a worker that has set the container of its task has done so. -/
structure Promised (s : EndpointState) : Prop where
  accepted : ∀ r ∈ s.requests, r.stage = .waiting true →
    s.IsSet r.container ∨ ∃ task ∈ s.tasks.inSystem,
      task.path = r.taskId ∧ task.resultContainer = some r.container
  signalled : ∀ i ∈ s.signalled, ∃ task c, s.tasks.workers[i]? = some (.running task) ∧
    task.resultContainer = some c ∧ s.IsSet c

theorem promised_initial (n : ℕ) : (initial n).Promised where
  accepted := nofun
  signalled := nofun

/-- The containers grow, and the workers that have signalled since have set theirs. -/
theorem Promised.grows (h : s.Promised) (hg : Grows s.containers s'.containers)
    (htasks : s'.tasks = s.tasks)
    (hrequests : ∀ r ∈ s'.requests, r.stage = .waiting true → r ∈ s.requests)
    (hsignalled : ∀ i ∈ s'.signalled, i ∈ s.signalled ∨
      ∃ task c, s.tasks.workers[i]? = some (.running task) ∧ task.resultContainer = some c ∧
        s'.IsSet c) :
    s'.Promised where
  accepted r hr hstage := by
    rcases h.accepted r (hrequests r hr hstage) hstage with hset | htask
    · exact .inl (hset.grows hg)
    · exact .inr (htasks ▸ htask)
  signalled i hi := by
    rw [htasks]
    rcases hsignalled i hi with hi | hi
    · obtain ⟨task, c, hw, hc, hset⟩ := h.signalled i hi
      exact ⟨task, c, hw, hc, hset.grows hg⟩
    · exact hi

/-- A step of the task queue. -/
theorem Promised.task_step (h : s.Promised) (hs : s.step (.task ql) = some s') :
    s'.Promised := by
  obtain ⟨hallowed, tasks, htasks, rfl⟩ := step_task hs
  constructor
  · intro r hr hstage
    rcases h.accepted r hr hstage with hset | ⟨task, ht, hpath, hc⟩
    · exact .inl hset
    · rcases QueueState.inSystem_after htasks ht with hkept | ⟨i, detected, rfl, hi⟩
      · exact .inr ⟨task, hkept, hpath, hc⟩
      · -- the worker does not return before it has set the container
        have hsig : i ∈ s.signalled := hallowed task hi (by simp [hc])
        obtain ⟨task', c, hi', hc', hset⟩ := h.signalled i hsig
        obtain rfl : task = task' := Worker.running.inj (Option.some.inj (hi.symm.trans hi'))
        obtain rfl : r.container = c := Option.some.inj (hc.symm.trans hc')
        exact .inl hset
  · intro i hi
    have hold : i ∈ s.signalled ∧ ∀ detected, ql ≠ .markDone i detected := by
      cases ql with
      | markDone j detected =>
        obtain ⟨hne, hin⟩ := Finset.mem_erase.mp hi
        exact ⟨hin, fun d heq => hne (QueueLabel.markDone.inj heq).1.symm⟩
      | _ => exact ⟨hi, nofun⟩
    obtain ⟨task, c, hw, hc, hset⟩ := h.signalled i hold.1
    refine ⟨task, c, QueueState.worker_kept htasks hw ?_, hc, hset⟩
    intro w' hturn
    cases hturn with
    | markDone _ detected => exact hold.2 detected rfl

theorem Promised.put {now : ℚ} (h : s.Promised) (hs : s.step (.put k now) = some s') :
    s'.Promised := by
  obtain ⟨taskId, c, answer, tasks, hk, hq, hput, rfl⟩ := step_put hs
  constructor
  · refine forall_mem_set ?_ ?_
    · intro r hr hstage
      rcases h.accepted r hr hstage with hset | ⟨task, ht, hpath, hc⟩
      · exact .inl hset
      · rcases QueueState.inSystem_after hput ht with hkept | ⟨i, detected, hl, -⟩
        · exact .inr ⟨task, hkept, hpath, hc⟩
        · cases hl
    · rintro hstage
      cases hstage
      refine .inr ⟨AsrRequest.task ⟨taskId, c, .registered⟩, ?_, rfl, rfl⟩
      have hmem := (QueueState.waiting_of_put hq).mem_iff.mpr
        (List.mem_append_left _ List.mem_cons_self)
      exact List.mem_append_left _ (List.mem_append_left _ hmem)
  · intro i hi
    obtain ⟨task, d, hw, hd, hset⟩ := h.signalled i hi
    exact ⟨task, d, QueueState.worker_kept hput hw nofun, hd, hset⟩

theorem Promised.set {outcome : Signal}
    (h : s.Promised) (howned : s.Owned) (hs : s.step (.signal i outcome) = some s' ∨
      s.step (.publish i outcome) = some s') : s'.Promised := by
  rcases step_set hs with rfl | ⟨task, c, hi, -, heq, hsig⟩
  · exact h
  refine h.grows ?_ (by rw [heq]) (by rw [heq]; exact fun r hr _ => hr) ?_
  · rw [heq]
    exact Grows.set c outcome task.path s.containers
  · intro j hj
    rcases hsig with hsame | ⟨hc, hins⟩
    · exact .inl (hsame ▸ hj)
    · rw [hins, Finset.mem_insert] at hj
      rcases hj with rfl | hj
      · obtain ⟨⟨t, ht, -⟩, -⟩ := howned.tasks task (mem_inSystem_of_running hi) c hc
        refine .inr ⟨task, c, hi, hc, ?_⟩
        rw [heq]
        refine ⟨{ t with done := some (outcome, task.path) }, ?_, nofun⟩
        rw [getElem?_setContainer, ht]
        simp
      · exact .inl hj

theorem Promised.finish (h : s.Promised) (hs : s.step (.answer k) = some s' ∨
      s.step (.timeout k) = some s' ∨ s.step (.close k) = some s') : s'.Promised := by
  obtain ⟨taskId, c, stage, stage', -, heq, hstage⟩ := step_end hs
  rw [heq]
  refine h.grows (Grows.refl _) rfl ?_ (fun i hi => .inl hi)
  intro r hr hwaits
  rcases List.mem_or_eq_of_mem_set hr with hr | rfl
  · exact hr
  · obtain rfl : stage' = .waiting true := hwaits
    simp at hstage

theorem Promised.step (h : s.Promised) (howned : s.Owned) (hs : s.step l = some s') :
    s'.Promised := by
  cases l with
  | task ql => exact h.task_step hs
  | register taskId =>
    obtain ⟨c, heq, hg, -⟩ := step_register hs
    refine h.grows hg (by rw [heq]) ?_ (by rw [heq]; exact fun i hi => .inl hi)
    rw [heq]
    intro r hr hstage
    rcases List.mem_append.mp hr with hr | hr
    · exact hr
    · obtain rfl := List.mem_singleton.mp hr
      cases hstage
  | put k now => exact h.put hs
  | signal i outcome => exact h.set howned (.inl hs)
  | publish i outcome => exact h.set howned (.inr hs)
  | answer k => exact h.finish (.inl hs)
  | timeout k => exact h.finish (.inr (.inl hs))
  | close k => exact h.finish (.inr (.inr hs))

/-- **A request whose task was taken in is never left without an answer**: after every
run, while it waits, either its wait can return, or its task, with its container, still
waits for a worker or is in the hands of one, which will not be done with it before it has
set the container. -/
theorem acceptedIsAnswered {n : ℕ} {r : AsrRequest}
    (hrun : runSteps step (initial n) ls = some s) (hk : s.requests[k]? = some r)
    (hwaits : r.stage = .waiting true) :
    (∃ s', s.step (.answer k) = some s') ∨ ∃ task ∈ s.tasks.inSystem,
      task.path = r.taskId ∧ task.resultContainer = some r.container := by
  have h : s.Owned ∧ s.Promised := by
    refine invariant_of_runSteps (I := fun t => t.Owned ∧ t.Promised) ?_
      ⟨owned_initial n, promised_initial n⟩ hrun
    rintro t l t' ⟨howned, hpromised⟩ hs
    exact ⟨howned.step hs, hpromised.step howned hs⟩
  refine (h.2.accepted r (List.mem_of_getElem? hk) hwaits).imp_left ?_
  rintro ⟨t, ht, hdone⟩
  obtain ⟨o, ho⟩ := Option.ne_none_iff_exists'.mp hdone
  obtain ⟨taskId, c, stage⟩ := r
  obtain rfl : stage = .waiting true := hwaits
  have hbind : s.containers[c]?.bind TaskResult.done = some o :=
    Option.bind_eq_some_iff.mpr ⟨t, ht, ho⟩
  simp only [EndpointState.step, hk, hbind, Option.map_some]
  exact ⟨_, rfl⟩

theorem acceptedIsAnswered_sharedUpload :
    ∃ s r, runSteps step (initial 1) (sharedUpload.take 10) = some s ∧
      s.requests[0]? = some r ∧ r.stage = .waiting true ∧
      ((∃ s', s.step (.answer 0) = some s') ∨ ∃ task ∈ s.tasks.inSystem,
        task.path = r.taskId ∧ task.resultContainer = some r.container) :=
  ⟨_, _, rfl, rfl, rfl, @acceptedIsAnswered _ (sharedUpload.take 10) 0 1 _ rfl rfl rfl⟩

end EndpointState

end Subgen
end MediaHub

import Tdi.Foundation.Runs

/-!
# The thread pool

`TdiThreadPool` as a transition system. Every operation on a mutex, on the
condition variable, on `shutdown_` and on the queue is one step, and the steps of
the workers, of any number of `submitTask` calls and of the destructor interleave
freely. A task is the call that submits it, so different calls have different
tasks. `queueMutex` is the mutex inside `ThreadSafeQueue`, `poolMutex` the one
the condition variable is used with.

`enqueued`, `dequeued` and `performed` are histories that no step reads.
-/
namespace Tdi.Pool

open Foundation

/-- A task, named by the `submitTask` call that packages it. -/
abbrev Task := ℕ

/-- The next operation of a worker, in the order of `WorkerThread::operator()`. -/
inductive WorkerPc where
  | readShutdown
  | lockPool
  -- `queue_.empty()`, under both mutexes
  | lockEmpty
  | readEmpty
  | unlockEmpty (isEmpty : Bool)
  -- `cond_var_.wait(lock)` releases `mtx_` and blocks in one step
  | wait
  | waiting
  | woken
  | unlockPool
  -- `queue_.dequeue(&fn)`
  | lockDequeue
  | readDequeue
  | front
  | pop (task : Task)
  | unlockDequeue (task : Option Task)
  | perform (task : Task)
  | exited
  deriving DecidableEq, Repr

/-- The next operation of a `submitTask` call; a call that has not begun is about to
lock the queue. -/
inductive ClientPc where
  | lockQueue
  | push
  | unlockQueue
  | notify
  | returned
  deriving DecidableEq, Repr

inductive DestructorPc where
  | store
  | notifyAll
  | join
  | done
  deriving DecidableEq, Repr

inductive Thread (n : ℕ) where
  | worker (w : Fin n)
  | client (call : ℕ)
  deriving DecidableEq

structure State (n : ℕ) where
  shutdown : Bool
  queue : List Task
  poolMutex : Option (Fin n)
  queueMutex : Option (Thread n)
  worker : Fin n → WorkerPc
  client : ℕ → ClientPc
  destructor : DestructorPc
  enqueued : List Task
  dequeued : List (Fin n × Task)
  performed : List (Fin n × Task)

def init (n : ℕ) : State n where
  shutdown := false
  queue := []
  poolMutex := none
  queueMutex := none
  worker _ := .readShutdown
  client _ := .lockQueue
  destructor := .store
  enqueued := []
  dequeued := []
  performed := []

/-- Which thread moves. A notification says which blocked worker it wakes, if any is. -/
inductive Event (n : ℕ) where
  | worker (w : Fin n)
  | wakeSpuriously (w : Fin n)
  | client (call : ℕ)
  | notifyOne (call : ℕ) (pick : Option (Fin n))
  | destructor

namespace State

variable {n : ℕ} (s : State n)

def goto (w : Fin n) (pc : WorkerPc) : State n :=
  { s with worker := Function.update s.worker w pc }

def clientGoto (call : ℕ) (pc : ClientPc) : State n :=
  { s with client := Function.update s.client call pc }

def workerNext (w : Fin n) : Option (State n) :=
  match s.worker w with
  | .readShutdown => some (s.goto w (if s.shutdown then .exited else .lockPool))
  | .lockPool =>
    if s.poolMutex = none then some ({ s with poolMutex := some w }.goto w .lockEmpty) else none
  | .lockEmpty =>
    if s.queueMutex = none then
      some ({ s with queueMutex := some (.worker w) }.goto w .readEmpty)
    else none
  | .readEmpty => some (s.goto w (.unlockEmpty s.queue.isEmpty))
  | .unlockEmpty isEmpty =>
    some ({ s with queueMutex := none }.goto w (if isEmpty then .wait else .unlockPool))
  | .wait => some ({ s with poolMutex := none }.goto w .waiting)
  | .waiting => none
  | .woken =>
    if s.poolMutex = none then some ({ s with poolMutex := some w }.goto w .unlockPool) else none
  | .unlockPool => some ({ s with poolMutex := none }.goto w .lockDequeue)
  | .lockDequeue =>
    if s.queueMutex = none then
      some ({ s with queueMutex := some (.worker w) }.goto w .readDequeue)
    else none
  | .readDequeue => some (s.goto w (if s.queue.isEmpty then .unlockDequeue none else .front))
  | .front => s.queue.head?.map fun task => s.goto w (.pop task)
  | .pop task =>
    some ({ s with queue := s.queue.tail, dequeued := s.dequeued ++ [(w, task)] }.goto w
      (.unlockDequeue (some task)))
  | .unlockDequeue none => some ({ s with queueMutex := none }.goto w .readShutdown)
  | .unlockDequeue (some task) => some ({ s with queueMutex := none }.goto w (.perform task))
  | .perform task =>
    some ({ s with performed := s.performed ++ [(w, task)] }.goto w .readShutdown)
  | .exited => none

def clientNext (call : ℕ) : Option (State n) :=
  match s.client call with
  | .lockQueue =>
    if s.queueMutex = none then
      some ({ s with queueMutex := some (.client call) }.clientGoto call .push)
    else none
  | .push =>
    some ({ s with queue := s.queue ++ [call], enqueued := s.enqueued ++ [call] }.clientGoto call
      .unlockQueue)
  | .unlockQueue => some ({ s with queueMutex := none }.clientGoto call .notify)
  | .notify => none
  | .returned => none

/-- `notify_one` wakes one blocked worker; without one it has no effect. -/
def notifyOneNext (call : ℕ) (pick : Option (Fin n)) : Option (State n) :=
  if s.client call = .notify then
    match pick with
    | some w =>
      if s.worker w = .waiting then some ((s.goto w .woken).clientGoto call .returned) else none
    | none => if ∀ w, s.worker w ≠ .waiting then some (s.clientGoto call .returned) else none
  else none

def destructorNext : Option (State n) :=
  match s.destructor with
  | .store => some { s with shutdown := true, destructor := .notifyAll }
  | .notifyAll =>
    some { s with
      worker := fun w => if s.worker w = .waiting then .woken else s.worker w
      destructor := .join }
  | .join => if ∀ w, s.worker w = .exited then some { s with destructor := .done } else none
  | .done => none

def next (s : State n) : Event n → Option (State n)
  | .worker w => s.workerNext w
  | .wakeSpuriously w => if s.worker w = .waiting then some (s.goto w .woken) else none
  | .client call => s.clientNext call
  | .notifyOne call pick => s.notifyOneNext call pick
  | .destructor => s.destructorNext

section Goto

variable {s} {v w : Fin n} {pc : WorkerPc} {c call : ℕ} {cpc : ClientPc}

@[simp] theorem goto_worker : (s.goto w pc).worker v = if v = w then pc else s.worker v :=
  Function.update_apply ..

@[simp] theorem goto_shutdown : (s.goto w pc).shutdown = s.shutdown := rfl
@[simp] theorem goto_queue : (s.goto w pc).queue = s.queue := rfl
@[simp] theorem goto_poolMutex : (s.goto w pc).poolMutex = s.poolMutex := rfl
@[simp] theorem goto_queueMutex : (s.goto w pc).queueMutex = s.queueMutex := rfl
@[simp] theorem goto_client : (s.goto w pc).client = s.client := rfl
@[simp] theorem goto_destructor : (s.goto w pc).destructor = s.destructor := rfl
@[simp] theorem goto_enqueued : (s.goto w pc).enqueued = s.enqueued := rfl
@[simp] theorem goto_dequeued : (s.goto w pc).dequeued = s.dequeued := rfl
@[simp] theorem goto_performed : (s.goto w pc).performed = s.performed := rfl

@[simp] theorem clientGoto_client :
    (s.clientGoto call cpc).client c = if c = call then cpc else s.client c :=
  Function.update_apply ..

@[simp] theorem clientGoto_worker : (s.clientGoto call cpc).worker = s.worker := rfl
@[simp] theorem clientGoto_queue : (s.clientGoto call cpc).queue = s.queue := rfl
@[simp] theorem clientGoto_poolMutex : (s.clientGoto call cpc).poolMutex = s.poolMutex := rfl
@[simp] theorem clientGoto_queueMutex : (s.clientGoto call cpc).queueMutex = s.queueMutex := rfl
@[simp] theorem clientGoto_destructor : (s.clientGoto call cpc).destructor = s.destructor := rfl
@[simp] theorem clientGoto_enqueued : (s.clientGoto call cpc).enqueued = s.enqueued := rfl
@[simp] theorem clientGoto_dequeued : (s.clientGoto call cpc).dequeued = s.dequeued := rfl
@[simp] theorem clientGoto_performed : (s.clientGoto call cpc).performed = s.performed := rfl

end Goto

/-- The steps, one rule for each operation of the source. -/
inductive Step (s : State n) : Event n → State n → Prop where
  | readShutdown {w} (hpc : s.worker w = .readShutdown) :
    Step s (.worker w) (s.goto w (if s.shutdown then .exited else .lockPool))
  | lockPool {w} (hpc : s.worker w = .lockPool) (hfree : s.poolMutex = none) :
    Step s (.worker w) ({ s with poolMutex := some w }.goto w .lockEmpty)
  | lockEmpty {w} (hpc : s.worker w = .lockEmpty) (hfree : s.queueMutex = none) :
    Step s (.worker w) ({ s with queueMutex := some (.worker w) }.goto w .readEmpty)
  | readEmpty {w} (hpc : s.worker w = .readEmpty) :
    Step s (.worker w) (s.goto w (.unlockEmpty s.queue.isEmpty))
  | unlockEmpty {w isEmpty} (hpc : s.worker w = .unlockEmpty isEmpty) :
    Step s (.worker w)
      ({ s with queueMutex := none }.goto w (if isEmpty then .wait else .unlockPool))
  | wait {w} (hpc : s.worker w = .wait) :
    Step s (.worker w) ({ s with poolMutex := none }.goto w .waiting)
  | relockPool {w} (hpc : s.worker w = .woken) (hfree : s.poolMutex = none) :
    Step s (.worker w) ({ s with poolMutex := some w }.goto w .unlockPool)
  | unlockPool {w} (hpc : s.worker w = .unlockPool) :
    Step s (.worker w) ({ s with poolMutex := none }.goto w .lockDequeue)
  | lockDequeue {w} (hpc : s.worker w = .lockDequeue) (hfree : s.queueMutex = none) :
    Step s (.worker w) ({ s with queueMutex := some (.worker w) }.goto w .readDequeue)
  | readDequeue {w} (hpc : s.worker w = .readDequeue) :
    Step s (.worker w) (s.goto w (if s.queue.isEmpty then .unlockDequeue none else .front))
  | front {w task} (hpc : s.worker w = .front) (hhead : s.queue.head? = some task) :
    Step s (.worker w) (s.goto w (.pop task))
  | pop {w task} (hpc : s.worker w = .pop task) :
    Step s (.worker w)
      ({ s with queue := s.queue.tail, dequeued := s.dequeued ++ [(w, task)] }.goto w
        (.unlockDequeue (some task)))
  | unlockDequeueNone {w} (hpc : s.worker w = .unlockDequeue none) :
    Step s (.worker w) ({ s with queueMutex := none }.goto w .readShutdown)
  | unlockDequeue {w task} (hpc : s.worker w = .unlockDequeue (some task)) :
    Step s (.worker w) ({ s with queueMutex := none }.goto w (.perform task))
  | perform {w task} (hpc : s.worker w = .perform task) :
    Step s (.worker w)
      ({ s with performed := s.performed ++ [(w, task)] }.goto w .readShutdown)
  | wakeSpuriously {w} (hpc : s.worker w = .waiting) :
    Step s (.wakeSpuriously w) (s.goto w .woken)
  | lockQueue {call} (hpc : s.client call = .lockQueue) (hfree : s.queueMutex = none) :
    Step s (.client call)
      ({ s with queueMutex := some (.client call) }.clientGoto call .push)
  | push {call} (hpc : s.client call = .push) :
    Step s (.client call)
      ({ s with queue := s.queue ++ [call], enqueued := s.enqueued ++ [call] }.clientGoto call
        .unlockQueue)
  | unlockQueue {call} (hpc : s.client call = .unlockQueue) :
    Step s (.client call) ({ s with queueMutex := none }.clientGoto call .notify)
  | notifyOne {call w} (hpc : s.client call = .notify) (hwait : s.worker w = .waiting) :
    Step s (.notifyOne call (some w)) ((s.goto w .woken).clientGoto call .returned)
  | notifyNone {call} (hpc : s.client call = .notify) (hwait : ∀ w, s.worker w ≠ .waiting) :
    Step s (.notifyOne call none) (s.clientGoto call .returned)
  | store (hpc : s.destructor = .store) :
    Step s .destructor { s with shutdown := true, destructor := .notifyAll }
  | notifyAll (hpc : s.destructor = .notifyAll) :
    Step s .destructor { s with
      worker := fun w => if s.worker w = .waiting then .woken else s.worker w
      destructor := .join }
  | join (hpc : s.destructor = .join) (hexit : ∀ w, s.worker w = .exited) :
    Step s .destructor { s with destructor := .done }

theorem step_of_workerNext {w : Fin n} {t : State n} (h : s.workerNext w = some t) :
    Step s (.worker w) t := by
  unfold workerNext at h
  split at h <;> rename_i hpc
  case h_1 => cases h; exact .readShutdown hpc
  case h_2 => split_ifs at h with hfree; cases h; exact .lockPool hpc hfree
  case h_3 => split_ifs at h with hfree; cases h; exact .lockEmpty hpc hfree
  case h_4 => cases h; exact .readEmpty hpc
  case h_5 => cases h; exact .unlockEmpty hpc
  case h_6 => cases h; exact .wait hpc
  case h_7 => cases h
  case h_8 => split_ifs at h with hfree; cases h; exact .relockPool hpc hfree
  case h_9 => cases h; exact .unlockPool hpc
  case h_10 => split_ifs at h with hfree; cases h; exact .lockDequeue hpc hfree
  case h_11 => cases h; exact .readDequeue hpc
  case h_12 =>
    obtain ⟨task, hhead, rfl⟩ := Option.map_eq_some_iff.mp h
    exact .front hpc hhead
  case h_13 => cases h; exact .pop hpc
  case h_14 => cases h; exact .unlockDequeueNone hpc
  case h_15 => cases h; exact .unlockDequeue hpc
  case h_16 => cases h; exact .perform hpc
  case h_17 => cases h

theorem step_of_clientNext {call : ℕ} {t : State n} (h : s.clientNext call = some t) :
    Step s (.client call) t := by
  unfold clientNext at h
  split at h <;> rename_i hpc
  case h_1 => split_ifs at h with hfree; cases h; exact .lockQueue hpc hfree
  case h_2 => cases h; exact .push hpc
  case h_3 => cases h; exact .unlockQueue hpc
  case h_4 => cases h
  case h_5 => cases h

theorem step_of_notifyOneNext {call : ℕ} {pick : Option (Fin n)} {t : State n}
    (h : s.notifyOneNext call pick = some t) : Step s (.notifyOne call pick) t := by
  cases pick with
  | some w =>
    simp only [notifyOneNext] at h
    split_ifs at h with hpc hwait
    cases h
    exact .notifyOne hpc hwait
  | none =>
    simp only [notifyOneNext] at h
    split_ifs at h with hpc hwait
    cases h
    exact .notifyNone hpc hwait

theorem step_of_destructorNext {t : State n} (h : s.destructorNext = some t) :
    Step s .destructor t := by
  unfold destructorNext at h
  split at h <;> rename_i hpc
  case h_1 => cases h; exact .store hpc
  case h_2 => cases h; exact .notifyAll hpc
  case h_3 => split_ifs at h with hexit; cases h; exact .join hpc hexit
  case h_4 => cases h

/-- Whatever event happens, its step is one of the rules. -/
theorem step_of_next {e : Event n} {t : State n} (h : s.next e = some t) : Step s e t := by
  cases e with
  | worker w => exact s.step_of_workerNext h
  | wakeSpuriously w =>
    simp only [next] at h
    split_ifs at h with hpc
    cases h
    exact .wakeSpuriously hpc
  | client call => exact s.step_of_clientNext h
  | notifyOne call pick => exact s.step_of_notifyOneNext h
  | destructor => exact s.step_of_destructorNext h

end State
end Tdi.Pool

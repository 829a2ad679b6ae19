import Tdi.Foundation.Mutex
import Tdi.Pool.ThreadPool

/-!
# No task is lost, duplicated or reordered

The queue's mutex has one owner, so what a worker copied from the front is still
there when it pops. With that, the dequeued tasks followed by the queue are the
enqueued tasks, and each worker performs the tasks it dequeued, in that order,
the last of them possibly still in its hands.
-/
namespace Tdi.Pool

open Foundation

/-- The worker holds the mutex of the queue. -/
def WorkerPc.holdsQueue : WorkerPc → Bool
  | .readEmpty => true
  | .unlockEmpty _ => true
  | .readDequeue => true
  | .front => true
  | .pop _ => true
  | .unlockDequeue _ => true
  | _ => false

def ClientPc.holdsQueue : ClientPc → Bool
  | .push => true
  | .unlockQueue => true
  | _ => false

/-- The call has put its task into the queue. -/
def ClientPc.pushed : ClientPc → Bool
  | .unlockQueue => true
  | .notify => true
  | .returned => true
  | _ => false

/-- What a worker relies on in the queue: there is a front, or it is the task it copied. -/
def WorkerPc.Expects (queue : List Task) : WorkerPc → Prop
  | .front => queue ≠ []
  | .pop task => queue.head? = some task
  | _ => True

/-- The task a worker has dequeued and not yet performed. -/
def WorkerPc.inHand : WorkerPc → List Task
  | .unlockDequeue (some task) => [task]
  | .perform task => [task]
  | _ => []

/-- The tasks of one worker in a history. -/
def tasksOf {n : ℕ} (w : Fin n) (history : List (Fin n × Task)) : List Task :=
  (history.filter fun entry => entry.1 = w).map Prod.snd

@[simp] theorem tasksOf_concat {n : ℕ} (v w : Fin n) (history : List (Fin n × Task)) (task : Task) :
    tasksOf v (history ++ [(w, task)]) = tasksOf v history ++ if w = v then [task] else [] := by
  unfold tasksOf
  split_ifs with h <;> simp [h]

theorem mem_tasksOf {n : ℕ} {w : Fin n} {history : List (Fin n × Task)} {task : Task} :
    task ∈ tasksOf w history ↔ (w, task) ∈ history := by
  simp [tasksOf]

theorem count_tasksOf {n : ℕ} (w : Fin n) (history : List (Fin n × Task)) (task : Task) :
    (tasksOf w history).count task = history.count (w, task) := by
  induction history using List.reverseRecOn with
  | nil => rfl
  | append_singleton history entry ih =>
    obtain ⟨v, other⟩ := entry
    rw [tasksOf_concat, List.count_append, List.count_append, ih]
    by_cases hv : v = w <;> simp [hv, List.count_singleton]

/-- With one worker every entry of a history is its own. -/
theorem tasksOf_eq_map {w : Fin 1} (history : List (Fin 1 × Task)) :
    tasksOf w history = history.map Prod.snd := by
  unfold tasksOf
  rw [List.filter_eq_self.mpr fun entry _ => by simpa using Subsingleton.elim entry.1 w]

/-- Tasks added at the back do not disturb the front. -/
theorem WorkerPc.Expects.append {pc : WorkerPc} {queue : List Task} (h : pc.Expects queue)
    (task : Task) : pc.Expects (queue ++ [task]) := by
  cases pc with
  | front => simp [WorkerPc.Expects]
  | pop front =>
    have hhead : queue.head? = some front := h
    simp [WorkerPc.Expects, hhead]
  | _ => trivial

/-- Only a worker inside the queue's critical section relies on the queue. -/
theorem WorkerPc.expects_of_not_holdsQueue {pc : WorkerPc} (h : pc.holdsQueue ≠ true)
    (queue : List Task) : pc.Expects queue := by
  cases pc with
  | front => exact absurd rfl h
  | pop task => exact absurd rfl h
  | _ => trivial

namespace State

variable {n : ℕ} {s t : State n} {e : Event n}

def holdsQueue (s : State n) : Thread n → Bool
  | .worker w => (s.worker w).holdsQueue
  | .client call => (s.client call).holdsQueue

theorem holdsQueue_goto (s : State n) (w : Fin n) (pc : WorkerPc) :
    (s.goto w pc).holdsQueue = Function.update s.holdsQueue (.worker w) pc.holdsQueue := by
  funext thread
  cases thread with
  | worker v => by_cases hv : v = w <;> simp [holdsQueue, hv]
  | client call => simp [holdsQueue]

theorem holdsQueue_clientGoto (s : State n) (call : ℕ) (pc : ClientPc) :
    (s.clientGoto call pc).holdsQueue =
      Function.update s.holdsQueue (.client call) pc.holdsQueue := by
  funext thread
  cases thread with
  | worker v => simp [holdsQueue]
  | client c => by_cases hc : c = call <;> simp [holdsQueue, hc]

/-- The owner of the queue's mutex is the thread inside its critical section. -/
def QueueOwned (s : State n) : Prop := Owned s.holdsQueue s.queueMutex

theorem QueueOwned.goto_keep (h : s.QueueOwned) {w : Fin n} {pc : WorkerPc}
    (hpc : pc.holdsQueue = (s.worker w).holdsQueue) : (s.goto w pc).QueueOwned := by
  unfold QueueOwned
  rw [holdsQueue_goto]
  exact Owned.keep h hpc

theorem QueueOwned.goto_acquire (h : s.QueueOwned) {w : Fin n} {pc : WorkerPc}
    (hfree : s.queueMutex = none) (hpc : pc.holdsQueue = true) :
    ({ s with queueMutex := some (.worker w) }.goto w pc).QueueOwned := by
  unfold QueueOwned
  rw [holdsQueue_goto, hpc]
  exact Owned.acquire h hfree

theorem QueueOwned.goto_release (h : s.QueueOwned) {w : Fin n} {pc : WorkerPc}
    (hin : (s.worker w).holdsQueue = true) (hpc : pc.holdsQueue = false) :
    ({ s with queueMutex := none }.goto w pc).QueueOwned := by
  unfold QueueOwned
  rw [holdsQueue_goto, hpc]
  exact Owned.release h hin

theorem QueueOwned.clientGoto_keep (h : s.QueueOwned) {call : ℕ} {pc : ClientPc}
    (hpc : pc.holdsQueue = (s.client call).holdsQueue) : (s.clientGoto call pc).QueueOwned := by
  unfold QueueOwned
  rw [holdsQueue_clientGoto]
  exact Owned.keep h hpc

theorem QueueOwned.step (h : s.QueueOwned) (hstep : Step s e t) : t.QueueOwned := by
  cases hstep with
  | readShutdown hpc =>
    apply h.goto_keep
    split_ifs <;> rw [hpc] <;> rfl
  | lockPool hpc _ => exact h.goto_keep (by rw [hpc]; rfl)
  | lockEmpty hpc hfree => exact h.goto_acquire hfree rfl
  | readEmpty hpc => exact h.goto_keep (by rw [hpc]; rfl)
  | unlockEmpty hpc =>
    apply h.goto_release (by rw [hpc]; rfl)
    split_ifs <;> rfl
  | wait hpc => exact h.goto_keep (by rw [hpc]; rfl)
  | relockPool hpc _ => exact h.goto_keep (by rw [hpc]; rfl)
  | unlockPool hpc => exact h.goto_keep (by rw [hpc]; rfl)
  | lockDequeue hpc hfree => exact h.goto_acquire hfree rfl
  | readDequeue hpc =>
    apply h.goto_keep
    split_ifs <;> rw [hpc] <;> rfl
  | front hpc _ => exact h.goto_keep (by rw [hpc]; rfl)
  | pop hpc => exact h.goto_keep (by rw [hpc]; rfl)
  | unlockDequeueNone hpc => exact h.goto_release (by rw [hpc]; rfl) rfl
  | unlockDequeue hpc => exact h.goto_release (by rw [hpc]; rfl) rfl
  | perform hpc => exact h.goto_keep (by rw [hpc]; rfl)
  | wakeSpuriously hpc => exact h.goto_keep (by rw [hpc]; rfl)
  | lockQueue hpc hfree =>
    unfold QueueOwned
    rw [holdsQueue_clientGoto]
    exact Owned.acquire h hfree
  | push hpc => exact h.clientGoto_keep (by rw [hpc]; rfl)
  | unlockQueue hpc =>
    unfold QueueOwned
    rw [holdsQueue_clientGoto]
    exact Owned.release h (by simp only [holdsQueue]; rw [hpc]; rfl)
  | @notifyOne call w hpc hwait =>
    have hwoken : (s.goto w .woken).QueueOwned := h.goto_keep (by rw [hwait]; rfl)
    exact hwoken.clientGoto_keep (by rw [goto_client, hpc]; rfl)
  | notifyNone hpc _ => exact h.clientGoto_keep (by rw [hpc]; rfl)
  | store _ => exact h
  | notifyAll _ =>
    intro thread
    rw [← h thread]
    cases thread with
    | worker v =>
      simp only [holdsQueue]
      split_ifs with hwait
      · rw [hwait]
        rfl
      · rfl
    | client c => rfl
  | join _ _ => exact h

/-- Every worker finds in the queue what it relies on. -/
def Expecting (s : State n) : Prop := ∀ w, (s.worker w).Expects s.queue

theorem Expecting.goto (h : s.Expecting) {w : Fin n} {pc : WorkerPc}
    (hpc : pc.Expects s.queue) : (s.goto w pc).Expecting := by
  intro v
  rw [goto_worker, goto_queue]
  split_ifs
  · exact hpc
  · exact h v

theorem Expecting.step (h : s.Expecting) (hown : s.QueueOwned) (hstep : Step s e t) :
    t.Expecting := by
  cases hstep with
  | readShutdown _ =>
    apply h.goto
    split_ifs <;> trivial
  | unlockEmpty _ =>
    apply Expecting.goto h
    split_ifs <;> trivial
  | readDequeue _ =>
    apply h.goto
    split_ifs with hempty
    · trivial
    · simpa [WorkerPc.Expects] using hempty
  | front _ hhead => exact h.goto hhead
  | @pop w task hpc =>
    -- the other workers are outside the critical section
    intro v
    by_cases hv : v = w
    · simp [hv, WorkerPc.Expects]
    · rw [goto_worker, if_neg hv]
      apply WorkerPc.expects_of_not_holdsQueue
      intro hin
      have hpop : s.holdsQueue (.worker w) = true := by
        simp only [holdsQueue]
        rw [hpc]
        rfl
      exact hv (Thread.worker.inj (hown.unique (a := .worker v) hin hpop))
  | push _ => exact fun v => (h v).append _
  | @notifyOne call w _ _ =>
    have hwoken : (s.goto w .woken).Expecting := h.goto trivial
    exact hwoken
  | notifyNone _ _ => exact h
  | notifyAll _ =>
    intro v
    show WorkerPc.Expects s.queue (if s.worker v = .waiting then .woken else s.worker v)
    split_ifs
    · trivial
    · exact h v
  | lockQueue _ _ => exact h
  | unlockQueue _ => exact h
  | store _ => exact h
  | join _ _ => exact h
  | _ => exact Expecting.goto h trivial

/-- The tasks dequeued so far, then the queue, are the tasks enqueued so far. -/
def Conserving (s : State n) : Prop := s.dequeued.map Prod.snd ++ s.queue = s.enqueued

theorem Conserving.step (h : s.Conserving) (hexp : s.Expecting) (hstep : Step s e t) :
    t.Conserving := by
  unfold Conserving at h ⊢
  cases hstep with
  | @pop w task hpc =>
    have hhead : (s.worker w).Expects s.queue := hexp w
    rw [hpc] at hhead
    obtain ⟨rest, hqueue⟩ := List.head?_eq_some_iff.mp hhead
    simp [← h, hqueue]
  | push _ => simp [← h]
  | _ => exact h

/-- The enqueued tasks are those of the calls that have pushed, each once. -/
structure PushedOnce (client : ℕ → ClientPc) (enqueued : List Task) : Prop where
  mem_iff : ∀ c, c ∈ enqueued ↔ (client c).pushed = true
  nodup : enqueued.Nodup

/-- A call that moves without pushing leaves the enqueued tasks alone. -/
theorem PushedOnce.update {client : ℕ → ClientPc} {enqueued : List Task}
    (h : PushedOnce client enqueued) {call : ℕ} {pc : ClientPc}
    (hpc : pc.pushed = (client call).pushed) :
    PushedOnce (Function.update client call pc) enqueued := by
  refine ⟨fun c => ?_, h.nodup⟩
  rw [Function.update_apply, h.mem_iff c]
  split_ifs with hc
  · rw [hc, hpc]
  · rfl

theorem PushedOnce.push {client : ℕ → ClientPc} {enqueued : List Task}
    (h : PushedOnce client enqueued) {call : ℕ} (hpc : client call = .push) :
    PushedOnce (Function.update client call .unlockQueue) (enqueued ++ [call]) := by
  have hnew : call ∉ enqueued := by
    rw [h.mem_iff, hpc]
    simp [ClientPc.pushed]
  refine ⟨fun c => ?_, ?_⟩
  · rw [Function.update_apply, List.mem_append, List.mem_singleton, h.mem_iff c]
    split_ifs with hc <;> simp [hc, ClientPc.pushed]
  · exact List.nodup_append.mpr ⟨h.nodup, List.nodup_singleton call, fun c hc d hd he =>
      hnew (List.mem_singleton.mp hd ▸ he ▸ hc)⟩

theorem PushedOnce.step (h : PushedOnce s.client s.enqueued) (hstep : Step s e t) :
    PushedOnce t.client t.enqueued := by
  cases hstep with
  | lockQueue hpc _ => exact h.update (by rw [hpc]; rfl)
  | push hpc => exact h.push hpc
  | unlockQueue hpc => exact h.update (by rw [hpc]; rfl)
  | notifyOne hpc _ => exact h.update (by rw [hpc]; rfl)
  | notifyNone hpc _ => exact h.update (by rw [hpc]; rfl)
  | _ => exact h

/-- Each worker performs what it dequeues, in order. -/
def Handed (s : State n) : Prop :=
  ∀ w, tasksOf w s.dequeued = tasksOf w s.performed ++ (s.worker w).inHand

theorem Handed.goto (h : s.Handed) {w : Fin n} {pc : WorkerPc}
    (hpc : pc.inHand = (s.worker w).inHand) : (s.goto w pc).Handed := by
  intro v
  rw [goto_worker, goto_dequeued, goto_performed, h v]
  split_ifs with hv
  · rw [hv, hpc]
  · rfl

/-- A step of one worker concerns this worker's tasks only. -/
theorem Handed.of_worker (h : s.Handed) (w : Fin n)
    (hown : tasksOf w t.dequeued = tasksOf w t.performed ++ (t.worker w).inHand)
    (hother : ∀ v, v ≠ w → tasksOf v t.dequeued = tasksOf v s.dequeued ∧
      tasksOf v t.performed = tasksOf v s.performed ∧ t.worker v = s.worker v) : t.Handed := by
  intro v
  by_cases hv : v = w
  · rw [hv, hown]
  · obtain ⟨hdequeued, hperformed, hworker⟩ := hother v hv
    rw [hdequeued, hperformed, hworker, h v]

theorem Handed.step (h : s.Handed) (hstep : Step s e t) : t.Handed := by
  cases hstep with
  | readShutdown hpc =>
    apply h.goto
    split_ifs <;> rw [hpc] <;> rfl
  | unlockEmpty hpc =>
    apply Handed.goto h
    split_ifs <;> rw [hpc] <;> rfl
  | readDequeue hpc =>
    apply h.goto
    split_ifs <;> rw [hpc] <;> rfl
  | @pop w task hpc =>
    have hw := h w
    rw [hpc] at hw
    apply h.of_worker w
    · simp [hw, WorkerPc.inHand]
    · intro v hv
      simp [hv, Ne.symm hv]
  | @perform w task hpc =>
    have hw := h w
    rw [hpc] at hw
    apply h.of_worker w
    · simp [hw, WorkerPc.inHand]
    · intro v hv
      simp [hv, Ne.symm hv]
  | @notifyOne call w hpc hwait =>
    have hwoken : (s.goto w .woken).Handed := h.goto (by rw [hwait]; rfl)
    exact hwoken
  | notifyNone _ _ => exact h
  | notifyAll _ =>
    intro v
    rw [h v]
    show _ = _ ++ WorkerPc.inHand (if s.worker v = .waiting then .woken else s.worker v)
    split_ifs with hwait
    · rw [hwait]
      rfl
    · rfl
  | lockQueue _ _ => exact h
  | push _ => exact h
  | unlockQueue _ => exact h
  | store _ => exact h
  | join _ _ => exact h
  | lockPool hpc _ => exact Handed.goto h (by rw [hpc]; rfl)
  | lockEmpty hpc _ => exact Handed.goto h (by rw [hpc]; rfl)
  | relockPool hpc _ => exact Handed.goto h (by rw [hpc]; rfl)
  | lockDequeue hpc _ => exact Handed.goto h (by rw [hpc]; rfl)
  | front hpc _ => exact Handed.goto h (by rw [hpc]; rfl)
  | readEmpty hpc => exact Handed.goto h (by rw [hpc]; rfl)
  | wait hpc => exact Handed.goto h (by rw [hpc]; rfl)
  | unlockPool hpc => exact Handed.goto h (by rw [hpc]; rfl)
  | unlockDequeueNone hpc => exact Handed.goto h (by rw [hpc]; rfl)
  | unlockDequeue hpc => exact Handed.goto h (by rw [hpc]; rfl)
  | wakeSpuriously hpc => exact Handed.goto h (by rw [hpc]; rfl)

structure Invariant (s : State n) : Prop where
  queueOwned : s.QueueOwned
  expecting : s.Expecting
  conserving : s.Conserving
  pushedOnce : PushedOnce s.client s.enqueued
  handed : s.Handed

theorem Invariant.step (h : s.Invariant) (hstep : Step s e t) : t.Invariant where
  queueOwned := h.queueOwned.step hstep
  expecting := h.expecting.step h.queueOwned hstep
  conserving := h.conserving.step h.expecting hstep
  pushedOnce := h.pushedOnce.step hstep
  handed := h.handed.step hstep

theorem invariant_init : (init n).Invariant where
  queueOwned := by
    intro thread
    cases thread <;> simp [init, holdsQueue, WorkerPc.holdsQueue, ClientPc.holdsQueue]
  expecting := fun _ => trivial
  conserving := rfl
  pushedOnce := ⟨by simp [init, ClientPc.pushed], List.nodup_nil⟩
  handed := fun _ => rfl

theorem invariant_of_reaches {ok : State n → Event n → Prop} (h : Reaches next ok (init n) s) :
    s.Invariant :=
  h.invariant (fun _ _ _ hinv _ hnext => hinv.step (step_of_next _ hnext)) invariant_init

theorem Invariant.dequeued_nodup (h : s.Invariant) : (s.dequeued.map Prod.snd).Nodup := by
  have hnodup := h.pushedOnce.nodup
  rw [← h.conserving] at hnodup
  exact hnodup.of_append_left

theorem Invariant.mem_dequeued (h : s.Invariant) {entry : Fin n × Task}
    (hp : entry ∈ s.performed) : entry ∈ s.dequeued := by
  obtain ⟨w, task⟩ := entry
  rw [← mem_tasksOf, h.handed w]
  exact List.mem_append_left _ (mem_tasksOf.mpr hp)

theorem Invariant.performed_nodup (h : s.Invariant) : (s.performed.map Prod.snd).Nodup := by
  have hinj := List.inj_on_of_nodup_map h.dequeued_nodup
  have hpairs : s.performed.Nodup := by
    rw [List.nodup_iff_count_le_one]
    rintro ⟨w, task⟩
    calc s.performed.count (w, task)
        = (tasksOf w s.performed).count task := (count_tasksOf w _ task).symm
      _ ≤ (tasksOf w s.dequeued).count task := by
          rw [h.handed w, List.count_append]
          omega
      _ = s.dequeued.count (w, task) := count_tasksOf w _ task
      _ ≤ 1 := List.nodup_iff_count_le_one.mp (List.Nodup.of_map _ h.dequeued_nodup) _
  exact hpairs.map_on fun a ha b hb hab => hinj (h.mem_dequeued ha) (h.mem_dequeued hb) hab

/-- The queue as every interleaving leaves it. -/
structure TasksKept (s : State n) : Prop where
  conserved : s.dequeued.map Prod.snd ++ s.queue = s.enqueued
  performed_once : (s.performed.map Prod.snd).Nodup
  performed_by : ∀ w task, (w, task) ∈ s.performed →
    (w, task) ∈ s.dequeued ∧ ∀ v, (v, task) ∈ s.dequeued → v = w
  in_order : n = 1 → s.performed.map Prod.snd <+: s.enqueued

/-- In every reachable state, of any number of workers and calls. -/
theorem tasksKept_of_reaches (h : Reaches next anyStep (init n) s) : s.TasksKept := by
  have hinv := invariant_of_reaches h
  refine ⟨hinv.conserving, hinv.performed_nodup, fun w task hp => ?_, ?_⟩
  · refine ⟨hinv.mem_dequeued hp, fun v hv => ?_⟩
    have hsame := List.inj_on_of_nodup_map hinv.dequeued_nodup hv (hinv.mem_dequeued hp) rfl
    exact (Prod.ext_iff.mp hsame).1
  · rintro rfl
    have hhanded := hinv.handed 0
    rw [tasksOf_eq_map, tasksOf_eq_map] at hhanded
    rw [← hinv.conserving, hhanded, List.append_assoc]
    exact List.prefix_append _ _

/-- Two calls and two workers. The worker that takes the first task performs it last. -/
def twoTasksRun : List (Event 2) :=
  List.replicate 3 (.client 0) ++ List.replicate 3 (.client 1) ++
    [.notifyOne 0 none, .notifyOne 1 none] ++ List.replicate 11 (.worker 0) ++
    List.replicate 12 (.worker 1) ++ [.worker 0]

theorem tasksKept_of_reaches_twoTasksRun :
    ∃ s, exec next (init 2) twoTasksRun = some s ∧ s.enqueued = [0, 1] ∧
      s.performed = [(1, 1), (0, 0)] ∧ s.TasksKept :=
  ⟨_, rfl, rfl, rfl, tasksKept_of_reaches (reaches_of_exec twoTasksRun rfl)⟩

end State
end Tdi.Pool

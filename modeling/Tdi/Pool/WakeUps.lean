import Tdi.Foundation.Mutex
import Tdi.Pool.ThreadPool

/-!
# Lost wake-ups

A worker tests the queue and then blocks, under a mutex that neither `enqueue`,
`notify_one`, the store to `shutdown_` nor `notify_all` takes. A notification that
falls between the test and the block reaches nobody. Three kinds of steps do this;
a run without them never strands a task or a worker, and each of them can be
continued to a stranded task or worker.
-/
namespace Tdi.Pool

open Foundation

/-- The worker has found the queue empty and is about to block. -/
def WorkerPc.foundEmpty : WorkerPc → Bool
  | .unlockEmpty true => true
  | .wait => true
  | _ => false

/-- The worker is blocked, or will be without looking at the queue again. -/
def WorkerPc.committed : WorkerPc → Bool
  | .unlockEmpty true => true
  | .wait => true
  | .waiting => true
  | _ => false

/-- The worker holds the mutex of the condition variable. -/
def WorkerPc.holdsPool : WorkerPc → Bool
  | .lockEmpty => true
  | .readEmpty => true
  | .unlockEmpty _ => true
  | .wait => true
  | .unlockPool => true
  | _ => false

/-- The call has enqueued its task and not yet called `notify_one`. -/
def ClientPc.unannounced : ClientPc → Bool
  | .unlockQueue => true
  | .notify => true
  | _ => false

def DestructorPc.notified : DestructorPc → Bool
  | .join => true
  | .done => true
  | _ => false

theorem WorkerPc.committed_iff {pc : WorkerPc} :
    pc.committed = true ↔ pc.foundEmpty = true ∨ pc = .waiting := by
  cases pc with
  | unlockEmpty isEmpty => cases isEmpty <;> simp [committed, foundEmpty]
  | _ => simp [committed, foundEmpty]

theorem WorkerPc.holdsPool_of_foundEmpty {pc : WorkerPc} (h : pc.foundEmpty = true) :
    pc.holdsPool = true := by
  cases pc with
  | unlockEmpty _ => rfl
  | wait => rfl
  | _ => cases h

namespace State

variable {n : ℕ} {s t : State n} {e : Event n}

/-- Every worker is blocked, there is a task, and nobody is about to announce one. -/
structure TaskStranded (s : State n) : Prop where
  blocked : ∀ w, s.worker w = .waiting
  queue : s.queue ≠ []
  announced : ∀ c, (s.client c).unannounced = false

/-- A worker is blocked after the destructor has woken everybody. -/
def WorkerStranded (s : State n) : Prop :=
  s.destructor.notified = true ∧ ∃ w, s.worker w = .waiting

/-- The steps whose notification, or whose worker, comes too late. -/
inductive TooLate (s : State n) : Event n → Prop where
  /-- The last outstanding `notify_one`, while every worker is between test and block. -/
  | notifyOne {call} (hqueue : s.queue ≠ []) (hworkers : ∀ w, (s.worker w).foundEmpty = true)
      (hothers : ∀ c, c ≠ call → (s.client c).unannounced = false) :
      TooLate s (.notifyOne call none)
  /-- `notify_all` while a worker is between test and block. -/
  | notifyAll {w} (hpc : s.destructor = .notifyAll) (hw : (s.worker w).foundEmpty = true) :
      TooLate s .destructor
  /-- A test that finds the queue empty after `notify_all`. -/
  | readEmpty {w} (hnotified : s.destructor.notified = true) (hpc : s.worker w = .readEmpty)
      (hqueue : s.queue = []) : TooLate s (.worker w)

/-- The condition on a step under which no wake-up is lost. -/
def InTime (s : State n) (e : Event n) : Prop := ¬ TooLate s e

/-- When nobody is going to look at the queue and there is a task, a call will announce it. -/
def TasksAttended (s : State n) : Prop :=
  (∀ w, (s.worker w).committed = true) → s.queue ≠ [] → ∃ c, (s.client c).unannounced = true

/-- After `notify_all` no worker is blocked or about to block. -/
def WorkersAwake (s : State n) : Prop :=
  s.destructor.notified = true → ∀ w, (s.worker w).committed = false

/-- A worker moves and is committed only if it was before. -/
theorem TasksAttended.goto (h : s.TasksAttended) {w : Fin n} {pc : WorkerPc}
    (hpc : pc.committed = true → (s.worker w).committed = true) : (s.goto w pc).TasksAttended := by
  intro hall hqueue
  apply h _ hqueue
  intro v
  have hv := hall v
  rw [goto_worker] at hv
  split_ifs at hv with hvw
  · rw [hvw]
    exact hpc hv
  · exact hv

theorem WorkersAwake.goto (h : s.WorkersAwake) {w : Fin n} {pc : WorkerPc}
    (hpc : pc.committed = true → (s.worker w).committed = true) : (s.goto w pc).WorkersAwake := by
  intro hnotified v
  rw [goto_worker]
  split_ifs with hvw
  · have hw : (s.worker w).committed = false := h hnotified w
    cases hc : pc.committed with
    | false => rfl
    | true => exact absurd (hpc hc) (by simp [hw])
  · exact h hnotified v

theorem TasksAttended.clientGoto (h : s.TasksAttended) {call : ℕ} {pc : ClientPc}
    (hpc : (s.client call).unannounced = true → pc.unannounced = true) :
    (s.clientGoto call pc).TasksAttended := by
  intro hall hqueue
  obtain ⟨c, hc⟩ := h hall hqueue
  use c
  rw [clientGoto_client]
  split_ifs with hcc
  · rw [hcc] at hc
    exact hpc hc
  · exact hc

/-- The call that has just enqueued its task will announce it. -/
theorem tasksAttended_clientGoto (s : State n) {call : ℕ} {pc : ClientPc}
    (hpc : pc.unannounced = true) : (s.clientGoto call pc).TasksAttended := by
  intro _ _
  use call
  rw [clientGoto_client, if_pos rfl, hpc]

/-- A worker that is not committed looks at the queue again. -/
theorem tasksAttended_of_not_committed {w : Fin n} (hw : (s.worker w).committed = false) :
    s.TasksAttended := by
  intro hall _
  have hc := hall w
  rw [hw] at hc
  cases hc

/-- `notify_one` with nobody blocked: a call other than the one returning has yet to notify. -/
theorem tasksAttended_notifyNone {call : ℕ}
    (hwait : ∀ w, s.worker w ≠ .waiting) (hok : InTime s (.notifyOne call none)) :
    (s.clientGoto call .returned).TasksAttended := by
  intro hall hqueue
  rw [clientGoto_queue] at hqueue
  have hfound : ∀ w, (s.worker w).foundEmpty = true := fun w =>
    (WorkerPc.committed_iff.mp (hall w)).resolve_right (hwait w)
  by_contra hnone
  apply hok
  apply TooLate.notifyOne hqueue hfound
  intro c hc
  by_contra hun
  apply hnone
  use c
  rw [clientGoto_client, if_neg hc]
  simpa using hun

theorem TasksAttended.step (h : s.TasksAttended) (hok : InTime s e) (hstep : Step s e t) :
    t.TasksAttended := by
  cases hstep with
  | readShutdown _ =>
    apply h.goto
    split_ifs <;> exact fun hc => by cases hc
  | @readEmpty w _ =>
    by_cases hqueue : s.queue = []
    · exact fun _ hne => absurd hqueue hne
    · apply tasksAttended_of_not_committed (w := w)
      simp [hqueue, WorkerPc.committed]
  | @unlockEmpty w isEmpty hpc =>
    apply TasksAttended.goto h
    rw [hpc]
    cases isEmpty with
    | true => exact fun _ => rfl
    | false => exact fun hc => by cases hc
  | wait hpc => exact TasksAttended.goto h fun _ => by rw [hpc]; rfl
  | readDequeue _ =>
    apply h.goto
    split_ifs <;> exact fun hc => by cases hc
  | @pop w _ _ => exact tasksAttended_of_not_committed (w := w) (by simp [WorkerPc.committed])
  | lockQueue hpc _ => exact TasksAttended.clientGoto h fun hc => by rw [hpc] at hc; cases hc
  | push _ => exact tasksAttended_clientGoto _ rfl
  | unlockQueue _ => exact tasksAttended_clientGoto _ rfl
  | @notifyOne _ w _ _ =>
    exact tasksAttended_of_not_committed (w := w) (by simp [WorkerPc.committed])
  | notifyNone _ hwait => exact tasksAttended_notifyNone hwait hok
  | store _ => exact h
  | notifyAll _ =>
    intro hall
    apply h
    intro v
    have hv : (if s.worker v = .waiting then .woken else s.worker v).committed = true := hall v
    split_ifs at hv with hwait
    · rw [hwait]
      rfl
    · exact hv
  | join _ _ => exact h
  | _ => exact TasksAttended.goto h fun hc => by cases hc

theorem WorkersAwake.step (h : s.WorkersAwake) (hok : InTime s e) (hstep : Step s e t) :
    t.WorkersAwake := by
  cases hstep with
  | readShutdown _ =>
    apply h.goto
    split_ifs <;> exact fun hc => by cases hc
  | @readEmpty w hpc =>
    by_cases hqueue : s.queue = []
    · exact fun hnotified => absurd (.readEmpty hnotified hpc hqueue) hok
    · apply h.goto
      simp [hqueue, WorkerPc.committed]
  | @unlockEmpty w isEmpty hpc =>
    apply WorkersAwake.goto h
    rw [hpc]
    cases isEmpty with
    | true => exact fun _ => rfl
    | false => exact fun hc => by cases hc
  | wait hpc => exact WorkersAwake.goto h fun _ => by rw [hpc]; rfl
  | readDequeue _ =>
    apply h.goto
    split_ifs <;> exact fun hc => by cases hc
  | lockQueue _ _ => exact h
  | push _ => exact h
  | unlockQueue _ => exact h
  | @notifyOne _ w _ _ =>
    have hwoken : (s.goto w .woken).WorkersAwake := h.goto fun hc => by cases hc
    exact hwoken
  | notifyNone _ _ => exact h
  | store _ => exact fun hnotified => by cases hnotified
  | notifyAll hpc =>
    intro _ v
    show (if s.worker v = .waiting then .woken else s.worker v).committed = false
    split_ifs with hwait
    · rfl
    · rw [Bool.eq_false_iff]
      intro hc
      have hfound := (WorkerPc.committed_iff.mp hc).resolve_right hwait
      exact hok (.notifyAll hpc hfound)
  | join hpc _ => exact fun _ => h (by rw [hpc]; rfl)
  | _ => exact WorkersAwake.goto h fun hc => by cases hc

/-- No worker sleeps through what concerns it. -/
structure NoWakeUpLost (s : State n) : Prop where
  tasks : ¬ s.TaskStranded
  workers : ¬ s.WorkerStranded

theorem noWakeUpLost_of_attended (htasks : s.TasksAttended) (hworkers : s.WorkersAwake) :
    s.NoWakeUpLost := by
  constructor
  · rintro ⟨hblocked, hqueue, hannounced⟩
    obtain ⟨c, hc⟩ := htasks (fun w => by rw [hblocked w]; rfl) hqueue
    rw [hannounced c] at hc
    cases hc
  · rintro ⟨hnotified, w, hw⟩
    have hawake := hworkers hnotified w
    rw [hw] at hawake
    cases hawake

/-- A run whose notifications all come in time. -/
theorem noWakeUpLost_of_reaches_inTime (h : Reaches next InTime (init n) s) : s.NoWakeUpLost := by
  have htasks : s.TasksAttended :=
    h.invariant (fun _ _ _ hinv hok hnext => hinv.step hok (step_of_next _ hnext))
      fun _ hqueue => absurd rfl hqueue
  have hworkers : s.WorkersAwake :=
    h.invariant (fun _ _ _ hinv hok hnext => hinv.step hok (step_of_next _ hnext))
      fun hnotified => by cases hnotified
  exact noWakeUpLost_of_attended htasks hworkers

theorem holdsPool_goto (s : State n) (w : Fin n) (pc : WorkerPc) :
    (fun v => ((s.goto w pc).worker v).holdsPool) =
      Function.update (fun v => (s.worker v).holdsPool) w pc.holdsPool := by
  funext v
  by_cases hv : v = w <;> simp [hv]

/-- The owner of the pool's mutex is the worker inside its critical section. -/
def PoolOwned (s : State n) : Prop := Owned (fun w => (s.worker w).holdsPool) s.poolMutex

theorem PoolOwned.goto_keep (h : s.PoolOwned) {w : Fin n} {pc : WorkerPc}
    (hpc : pc.holdsPool = (s.worker w).holdsPool) : (s.goto w pc).PoolOwned := by
  unfold PoolOwned
  rw [holdsPool_goto]
  exact Owned.keep h hpc

theorem PoolOwned.goto_acquire (h : s.PoolOwned) {w : Fin n} {pc : WorkerPc}
    (hfree : s.poolMutex = none) (hpc : pc.holdsPool = true) :
    ({ s with poolMutex := some w }.goto w pc).PoolOwned := by
  unfold PoolOwned
  rw [holdsPool_goto, hpc]
  exact Owned.acquire h hfree

theorem PoolOwned.goto_release (h : s.PoolOwned) {w : Fin n} {pc : WorkerPc}
    (hin : (s.worker w).holdsPool = true) (hpc : pc.holdsPool = false) :
    ({ s with poolMutex := none }.goto w pc).PoolOwned := by
  unfold PoolOwned
  rw [holdsPool_goto, hpc]
  exact Owned.release h hin

theorem PoolOwned.step (h : s.PoolOwned) (hstep : Step s e t) : t.PoolOwned := by
  cases hstep with
  | readShutdown hpc =>
    apply h.goto_keep
    split_ifs <;> rw [hpc] <;> rfl
  | lockPool hpc hfree => exact h.goto_acquire hfree rfl
  | unlockEmpty hpc =>
    apply PoolOwned.goto_keep h
    split_ifs <;> rw [hpc] <;> rfl
  | wait hpc => exact h.goto_release (by rw [hpc]; rfl) rfl
  | relockPool hpc hfree => exact h.goto_acquire hfree rfl
  | unlockPool hpc => exact h.goto_release (by rw [hpc]; rfl) rfl
  | readDequeue hpc =>
    apply h.goto_keep
    split_ifs <;> rw [hpc] <;> rfl
  | @notifyOne _ w _ hwait =>
    have hwoken : (s.goto w .woken).PoolOwned := h.goto_keep (by rw [hwait]; rfl)
    exact hwoken
  | notifyAll _ =>
    intro v
    rw [← h v]
    show (if s.worker v = .waiting then .woken else s.worker v).holdsPool = true ↔ _
    split_ifs with hwait
    · simp [hwait, WorkerPc.holdsPool]
    · rfl
  | lockQueue _ _ => exact h
  | push _ => exact h
  | unlockQueue _ => exact h
  | notifyNone _ _ => exact h
  | store _ => exact h
  | join _ _ => exact h
  | lockEmpty hpc _ => exact PoolOwned.goto_keep h (by rw [hpc]; rfl)
  | readEmpty hpc => exact PoolOwned.goto_keep h (by rw [hpc]; rfl)
  | lockDequeue hpc _ => exact PoolOwned.goto_keep h (by rw [hpc]; rfl)
  | front hpc _ => exact PoolOwned.goto_keep h (by rw [hpc]; rfl)
  | pop hpc => exact PoolOwned.goto_keep h (by rw [hpc]; rfl)
  | unlockDequeueNone hpc => exact PoolOwned.goto_keep h (by rw [hpc]; rfl)
  | unlockDequeue hpc => exact PoolOwned.goto_keep h (by rw [hpc]; rfl)
  | perform hpc => exact PoolOwned.goto_keep h (by rw [hpc]; rfl)
  | wakeSpuriously hpc => exact PoolOwned.goto_keep h (by rw [hpc]; rfl)

theorem poolOwned_of_reaches {ok : State n → Event n → Prop} (h : Reaches next ok (init n) s) :
    s.PoolOwned :=
  h.invariant (fun _ _ _ hinv _ hnext => hinv.step (step_of_next _ hnext))
    fun w => by simp [init, WorkerPc.holdsPool]

/-- The mutex lets one worker at a time be between its test and its block. -/
theorem PoolOwned.foundEmpty_unique (h : s.PoolOwned) {v w : Fin n}
    (hv : (s.worker v).foundEmpty = true) (hw : (s.worker w).foundEmpty = true) : v = w :=
  Owned.unique h (WorkerPc.holdsPool_of_foundEmpty hv) (WorkerPc.holdsPool_of_foundEmpty hw)

/-- A worker between its test and its block can block, whatever happens elsewhere. -/
theorem reaches_waiting_of_foundEmpty {w : Fin n} (hw : (s.worker w).foundEmpty = true) :
    ∃ u, Reaches next anyStep s u ∧ u.worker w = .waiting ∧ u.queue = s.queue ∧
      u.client = s.client ∧ u.destructor = s.destructor := by
  cases hpc : s.worker w with
  | unlockEmpty isEmpty =>
    obtain rfl : isEmpty = true := by
      rw [hpc] at hw
      cases isEmpty with
      | true => rfl
      | false => cases hw
    let s₁ := { s with queueMutex := none }.goto w .wait
    have h₁ : s.next (.worker w) = some s₁ := by simp [next, workerNext, hpc, s₁]
    have h₂ : s₁.next (.worker w) = some ({ s₁ with poolMutex := none }.goto w .waiting) := by
      simp [next, workerNext, s₁]
    exact ⟨_, (Reaches.refl.tail trivial h₁).tail trivial h₂, by simp, rfl, rfl, rfl⟩
  | wait =>
    have hnext : s.next (.worker w) = some ({ s with poolMutex := none }.goto w .waiting) := by
      simp [next, workerNext, hpc]
    exact ⟨_, Reaches.refl.tail trivial hnext, by simp, rfl, rfl, rfl⟩
  | _ =>
    rw [hpc] at hw
    cases hw

/-- A worker that blocks after `notify_all` is stranded. -/
theorem workerStranded_of_foundEmpty {w : Fin n} (hnotified : s.destructor.notified = true)
    (hw : (s.worker w).foundEmpty = true) :
    ∃ u, Reaches next anyStep s u ∧ u.WorkerStranded := by
  obtain ⟨u, hreach, hwaiting, -, -, hdestructor⟩ := reaches_waiting_of_foundEmpty hw
  exact ⟨u, hreach, by rw [hdestructor, hnotified], w, hwaiting⟩

/-- With a task in the queue and every call done, the one worker that blocks strands the task. -/
theorem taskStranded_of_foundEmpty (hown : s.PoolOwned) (hqueue : s.queue ≠ [])
    (hworkers : ∀ w, (s.worker w).foundEmpty = true)
    (hannounced : ∀ c, (s.client c).unannounced = false) :
    ∃ u, Reaches next anyStep s u ∧ u.TaskStranded := by
  cases isEmpty_or_nonempty (Fin n) with
  | inl hnone => exact ⟨s, .refl, hnone.elim, hqueue, hannounced⟩
  | inr hsome =>
    obtain ⟨w⟩ := hsome
    obtain ⟨u, hreach, hwaiting, hq, hclient, -⟩ := reaches_waiting_of_foundEmpty (hworkers w)
    refine ⟨u, hreach, fun v => ?_, ?_, fun c => ?_⟩
    · rw [hown.foundEmpty_unique (hworkers v) (hworkers w), hwaiting]
    · rwa [hq]
    · rw [hclient, hannounced c]

/-- A notification or a test that comes too late can be the last thing that matters. -/
theorem wakeUpLost_of_tooLate (hown : s.PoolOwned) (hlate : TooLate s e)
    (hnext : s.next e = some t) : ∃ u, Reaches next anyStep t u ∧ ¬ u.NoWakeUpLost := by
  have hstep := step_of_next _ hnext
  have hown' : t.PoolOwned := hown.step hstep
  cases hlate with
  | @notifyOne call hqueue hworkers hothers =>
    cases hstep
    obtain ⟨u, hreach, hstranded⟩ := taskStranded_of_foundEmpty hown' hqueue hworkers fun c => by
      rw [clientGoto_client]
      split_ifs with hc
      · rfl
      · exact hothers c hc
    exact ⟨u, hreach, fun hlost => hlost.tasks hstranded⟩
  | @notifyAll w hpc hw =>
    have ht : t = { s with
        worker := fun v => if s.worker v = .waiting then .woken else s.worker v
        destructor := .join } := by
      simpa [next, destructorNext, hpc] using hnext.symm
    have hw' : (t.worker w).foundEmpty = true := by
      have hne : s.worker w ≠ .waiting := by
        intro hwaiting
        rw [hwaiting] at hw
        cases hw
      simp [ht, hne, hw]
    obtain ⟨u, hreach, hstranded⟩ := workerStranded_of_foundEmpty (by rw [ht]; rfl) hw'
    exact ⟨u, hreach, fun hlost => hlost.workers hstranded⟩
  | @readEmpty w hnotified hpc hqueue =>
    have ht : t = s.goto w (.unlockEmpty true) := by
      simpa [next, workerNext, hpc, hqueue] using hnext.symm
    have hw' : (t.worker w).foundEmpty = true := by simp [ht, WorkerPc.foundEmpty]
    obtain ⟨u, hreach, hstranded⟩ := workerStranded_of_foundEmpty (by rw [ht]; exact hnotified) hw'
    exact ⟨u, hreach, fun hlost => hlost.workers hstranded⟩

/-- While nothing comes too late no wake-up is lost, and the first thing that does can
lose one: the condition on the steps is exact. -/
theorem noWakeUpLost_of_reaches (h : Reaches next InTime (init n) s) :
    s.NoWakeUpLost ∧ ∀ e t, TooLate s e → s.next e = some t →
      ∃ u, Reaches next anyStep t u ∧ ¬ u.NoWakeUpLost :=
  ⟨noWakeUpLost_of_reaches_inTime h, fun _ _ hlate hnext =>
    wakeUpLost_of_tooLate (poolOwned_of_reaches h) hlate hnext⟩

theorem inTime_worker (w : Fin n) (h : s.destructor.notified = false) :
    InTime s (.worker w) := by
  intro hlate
  cases hlate with
  | readEmpty hnotified _ _ =>
    rw [h] at hnotified
    cases hnotified

theorem inTime_client (call : ℕ) : InTime s (.client call) := fun hlate => by cases hlate

/-- `notify_one` while the worker has not yet tested the queue. -/
theorem inTime_notifyOne (call : ℕ) {w : Fin n} (h : (s.worker w).foundEmpty = false) :
    InTime s (.notifyOne call none) := by
  intro hlate
  cases hlate with
  | notifyOne _ hworkers _ =>
    have hw := hworkers w
    rw [h] at hw
    cases hw

/-- A call notifies before the worker's test, which then finds the task. -/
theorem noWakeUpLost_of_reaches_earlyCall :
    ∃ s : State 1, s.queue = [0] ∧ s.worker 0 = .unlockEmpty false ∧ s.NoWakeUpLost := by
  have h₁ : Reaches next InTime (init 1) _ :=
    ((Reaches.refl.tail (inTime_client 0) rfl).tail (inTime_client 0) rfl).tail
      (inTime_client 0) rfl
  have h₂ := h₁.tail (inTime_notifyOne 0 (w := 0) rfl) rfl
  have h₃ := (h₂.tail (inTime_worker 0 rfl) rfl).tail (inTime_worker 0 rfl) rfl
  have h₄ := (h₃.tail (inTime_worker 0 rfl) rfl).tail (inTime_worker 0 rfl) rfl
  exact ⟨_, rfl, rfl, (noWakeUpLost_of_reaches h₄).1⟩

/-- The worker finds the queue empty, then the task is enqueued and announced, or the
shutdown is, and only then does the worker block. -/
theorem wakeUps_lost :
    (∃ s : State 1, Reaches next anyStep (init 1) s ∧ s.TaskStranded) ∧
      ∃ s : State 1, Reaches next anyStep (init 1) s ∧ s.WorkerStranded := by
  constructor
  · refine ⟨_, reaches_of_exec (List.replicate 5 (.worker 0) ++ List.replicate 3 (.client 0) ++
      [.notifyOne 0 none, .worker 0]) rfl, ?_, ?_, ?_⟩
    · intro w
      rw [Subsingleton.elim w 0]
      rfl
    · exact List.cons_ne_nil 0 []
    · intro c
      by_cases hc : c = 0
      · rw [hc]
        rfl
      · simp [hc, init, ClientPc.unannounced]
  · exact ⟨_, reaches_of_exec (List.replicate 5 (.worker 0) ++
      [.destructor, .destructor, .worker 0]) rfl, rfl, 0, rfl⟩

end State
end Tdi.Pool

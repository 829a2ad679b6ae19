import Tdi.Foundation.Mutex
import Tdi.Foundation.Runs

/-!
# The one device manager

`DevMgr::getInstance` as a transition system. Any number of threads call it, again and
again, and every read and write of `dev_mgr_instance` and every operation on the mutex
is one step. The managers are numbered in the order in which they are constructed.
-/
namespace Tdi.Info.Instance

open Foundation

/-- The next operation of a call. -/
inductive Pc where
  | check
  | lock
  | recheck
  -- `new DevMgr()`
  | construct
  | assign (manager : ℕ)
  | unlock
  -- `*(DevMgr::dev_mgr_instance)`
  | read
  | returned (manager : Option ℕ)
  deriving DecidableEq

structure State (T : Type*) where
  devMgrInstance : Option ℕ
  devMgrInstanceMutex : Option T
  built : ℕ
  pc : T → Pc

def init (T : Type*) : State T := ⟨none, none, 0, fun _ => .check⟩

variable {T : Type*} [DecidableEq T]

def State.goto (s : State T) (thread : T) (pc : Pc) : State T :=
  { s with pc := Function.update s.pc thread pc }

/-- The step of a thread. One that has returned calls the function again. -/
def next (s : State T) (thread : T) : Option (State T) :=
  match s.pc thread with
  | .check => some (s.goto thread (if s.devMgrInstance = none then .lock else .read))
  | .lock =>
    if s.devMgrInstanceMutex = none then
      some ({ s with devMgrInstanceMutex := some thread }.goto thread .recheck)
    else none
  | .recheck => some (s.goto thread (if s.devMgrInstance = none then .construct else .unlock))
  | .construct => some ({ s with built := s.built + 1 }.goto thread (.assign s.built))
  | .assign manager => some ({ s with devMgrInstance := some manager }.goto thread .unlock)
  | .unlock => some ({ s with devMgrInstanceMutex := none }.goto thread .read)
  | .read => some (s.goto thread (.returned s.devMgrInstance))
  | .returned _ => some (s.goto thread .check)

/-- The thread is between the operations on the mutex. -/
def Pc.holds : Pc → Bool
  | .recheck => true
  | .construct => true
  | .assign _ => true
  | .unlock => true
  | _ => false

/-- How far the call is from its end. -/
def Pc.left : Pc → ℕ
  | .check => 7
  | .lock => 6
  | .recheck => 5
  | .construct => 4
  | .assign _ => 3
  | .unlock => 2
  | .read => 1
  | .returned _ => 0

section Invariant

/-- What a thread relies on. -/
def Pc.Expects (devMgrInstance : Option ℕ) (built : ℕ) : Pc → Prop
  | .construct => devMgrInstance = none
  | .assign manager => devMgrInstance = none ∧ manager = 0 ∧ built = 1
  | .unlock => devMgrInstance = some 0
  | .read => devMgrInstance = some 0
  | .returned manager => manager = some 0 ∧ devMgrInstance = some 0
  | _ => True

/-- Outside the critical section only a manager that is there counts. -/
theorem Pc.Expects.of_not_holds {pc : Pc} {d d' : Option ℕ} {n n' : ℕ} (h : pc.Expects d n)
    (hout : pc.holds ≠ true) (hd : d = some 0 → d' = some 0) : pc.Expects d' n' := by
  cases pc with
  | read => exact hd h
  | returned => exact ⟨h.1, hd h.2⟩
  | check => trivial
  | lock => trivial
  | _ => exact absurd rfl hout

/-- No manager is there, or the one that was constructed, or a thread is about to store it. -/
inductive Counted (pc : T → Pc) : Option ℕ → ℕ → Prop where
  | unbuilt : Counted pc none 0
  | constructed (thread : T) (h : pc thread = .assign 0) : Counted pc none 1
  | stored : Counted pc (some 0) 1

/-- The mutex has one owner, and there is one manager at most. -/
structure Inv (s : State T) : Prop where
  owned : Owned (fun thread => (s.pc thread).holds) s.devMgrInstanceMutex
  expects : ∀ thread, (s.pc thread).Expects s.devMgrInstance s.built
  counted : Counted s.pc s.devMgrInstance s.built

omit [DecidableEq T] in
theorem inv_init : Inv (init T) where
  owned _ := iff_of_false nofun nofun
  expects _ := trivial
  counted := .unbuilt

section Counted

variable {pc : T → Pc} {devMgrInstance : Option ℕ} {built : ℕ}

omit [DecidableEq T] in
theorem Counted.eq_some (h : Counted pc devMgrInstance built) (hne : devMgrInstance ≠ none) :
    devMgrInstance = some 0 := by
  cases h with
  | unbuilt => exact absurd rfl hne
  | constructed => exact absurd rfl hne
  | stored => rfl

omit [DecidableEq T] in
theorem Counted.built_le (h : Counted pc devMgrInstance built) : built ≤ 1 := by
  cases h with
  | unbuilt => exact Nat.zero_le 1
  | constructed => exact le_rfl
  | stored => exact le_rfl

theorem Counted.update (h : Counted pc devMgrInstance built) {thread : T}
    (hne : ∀ manager, pc thread ≠ .assign manager) (p : Pc) :
    Counted (Function.update pc thread p) devMgrInstance built := by
  cases h with
  | unbuilt => exact .unbuilt
  | constructed other hother =>
    have hdiff : other ≠ thread := by
      rintro rfl
      exact hne 0 hother
    exact .constructed other (by rw [Function.update_of_ne hdiff, hother])
  | stored => exact .stored

end Counted

variable {s t : State T} {thread : T}

theorem pc_goto (s : State T) (thread other : T) (pc : Pc) :
    (s.goto thread pc).pc other = if other = thread then pc else s.pc other :=
  Function.update_apply ..

theorem holds_goto (s : State T) (thread : T) (pc : Pc) :
    (fun other => ((s.goto thread pc).pc other).holds) =
      Function.update (fun other => (s.pc other).holds) thread pc.holds :=
  funext fun _ => Function.apply_update (fun _ => Pc.holds) ..

/-- A step that neither constructs nor stores a manager. -/
theorem Inv.goto (h : Inv s) (hne : ∀ manager, s.pc thread ≠ .assign manager) (pc : Pc)
    (mutex : Option T) (hpc : pc.Expects s.devMgrInstance s.built)
    (howned : Owned (Function.update (fun other => (s.pc other).holds) thread pc.holds) mutex) :
    Inv ({ s with devMgrInstanceMutex := mutex }.goto thread pc) where
  owned := by
    rw [holds_goto]
    exact howned
  expects other := by
    rw [pc_goto]
    split_ifs
    · exact hpc
    · exact h.expects other
  counted := h.counted.update hne pc

/-- The owner of the mutex constructs a manager only if none has been constructed. -/
theorem Inv.construct (h : Inv s) (hpc : s.pc thread = .construct) :
    Inv ({ s with built := s.built + 1 }.goto thread (.assign s.built)) := by
  have hin : (s.pc thread).holds = true := by simp [hpc, Pc.holds]
  have hout : ∀ other, other ≠ thread → (s.pc other).holds ≠ true :=
    fun other hother hholds => hother (h.owned.unique hholds hin)
  have hnone : s.devMgrInstance = none := by
    have hexpects := h.expects thread
    rwa [hpc] at hexpects
  have hbuilt : s.built = 0 := by
    have hcounted := h.counted
    rw [hnone] at hcounted
    generalize s.built = built at hcounted
    cases hcounted with
    | unbuilt => rfl
    | constructed other hother =>
      have hdiff : other ≠ thread := by
        rintro rfl
        rw [hpc] at hother
        cases hother
      exact absurd (by simp [hother, Pc.holds]) (hout other hdiff)
  constructor
  · rw [holds_goto]
    exact h.owned.keep (by simp [hpc, Pc.holds])
  · intro other
    rw [pc_goto]
    split_ifs with hother
    · exact ⟨hnone, hbuilt, congrArg (· + 1) hbuilt⟩
    · exact (h.expects other).of_not_holds (hout other hother) id
  · have hassign := pc_goto s thread thread (.assign s.built)
    rw [if_pos rfl, hbuilt] at hassign
    simp only [State.goto, hnone, hbuilt] at hassign ⊢
    exact .constructed thread hassign

theorem Inv.assign (h : Inv s) {manager : ℕ} (hpc : s.pc thread = .assign manager) :
    Inv ({ s with devMgrInstance := some manager }.goto thread .unlock) := by
  have hin : (s.pc thread).holds = true := by simp [hpc, Pc.holds]
  have hexpects := h.expects thread
  rw [hpc] at hexpects
  obtain ⟨hnone, rfl, hbuilt⟩ := hexpects
  constructor
  · rw [holds_goto]
    exact h.owned.keep (by simp [hpc, Pc.holds])
  · intro other
    rw [pc_goto]
    split_ifs with hother
    · rfl
    · exact (h.expects other).of_not_holds
        (fun hholds => hother (h.owned.unique hholds hin)) fun _ => rfl
  · simp only [State.goto, hbuilt]
    exact .stored

/-- What a step of a thread preserves. -/
theorem Inv.step (h : Inv s) (hstep : next s thread = some t) : Inv t := by
  have hexpects := h.expects thread
  have hkeep : ∀ pc : Pc, pc.holds = (s.pc thread).holds →
      Owned (Function.update (fun other => (s.pc other).holds) thread pc.holds)
        s.devMgrInstanceMutex := fun pc hpc => h.owned.keep hpc
  have hread : s.devMgrInstance ≠ none → Pc.read.Expects s.devMgrInstance s.built :=
    fun hdev => h.counted.eq_some hdev
  unfold next at hstep
  split at hstep <;> rename_i hpc <;> rw [hpc] at hexpects hkeep
  case h_1 =>
    cases hstep
    refine h.goto (by simp [hpc]) _ _ ?_ (hkeep _ ?_)
    · split_ifs with hdev
      · trivial
      · exact hread hdev
    · split_ifs <;> rfl
  case h_2 =>
    split_ifs at hstep with hfree
    cases hstep
    exact h.goto (by simp [hpc]) _ _ trivial (h.owned.acquire hfree)
  case h_3 =>
    cases hstep
    refine h.goto (by simp [hpc]) _ _ ?_ (hkeep _ ?_)
    · split_ifs with hdev
      · exact hdev
      · exact hread hdev
    · split_ifs <;> rfl
  case h_4 =>
    cases hstep
    exact h.construct hpc
  case h_5 =>
    cases hstep
    exact h.assign hpc
  case h_6 =>
    cases hstep
    exact h.goto (by simp [hpc]) _ _ hexpects (h.owned.release (by simp [hpc, Pc.holds]))
  case h_7 =>
    cases hstep
    exact h.goto (by simp [hpc]) _ _ ⟨hexpects, hexpects⟩ (hkeep _ rfl)
  case h_8 =>
    cases hstep
    exact h.goto (by simp [hpc]) _ _ trivial (hkeep _ rfl)

theorem next_stored (h : Inv s) (hstep : next s thread = some t) {manager : ℕ}
    (hstored : s.devMgrInstance = some manager) : t.devMgrInstance = some manager := by
  have hexpects := h.expects thread
  unfold next at hstep
  split at hstep <;> rename_i hpc
  case h_2 =>
    split_ifs at hstep
    cases hstep
    exact hstored
  case h_5 =>
    rw [hpc, hstored] at hexpects
    cases hexpects.1
  all_goals
    cases hstep
    exact hstored

end Invariant

section Progress

variable {s t : State T} {thread : T}

/-- Only a thread that waits for the mutex has no step. -/
theorem exists_next (hfree : s.pc thread = .lock → s.devMgrInstanceMutex = none) :
    ∃ t, next s thread = some t := by
  unfold next
  split
  case h_2 hpc => exact ⟨_, if_pos (hfree hpc)⟩
  all_goals exact ⟨_, rfl⟩

/-- A step of a call comes nearer to its end, and takes the mutex or gives it back at most. -/
theorem left_lt_of_next (hstep : next s thread = some t)
    (hcall : ∀ manager, s.pc thread ≠ .returned manager) :
    (t.pc thread).left < (s.pc thread).left ∧
      (t.devMgrInstanceMutex = s.devMgrInstanceMutex ∨ t.devMgrInstanceMutex = none ∨
        t.devMgrInstanceMutex = some thread) := by
  unfold next at hstep
  split at hstep <;> rename_i hpc
  case h_2 =>
    split_ifs at hstep
    cases hstep
    rw [pc_goto, if_pos rfl, hpc]
    exact ⟨by decide, .inr (.inr rfl)⟩
  case h_8 manager => exact absurd hpc (hcall manager)
  all_goals
    cases hstep
    rw [pc_goto, if_pos rfl, hpc]
  case h_1 =>
    refine ⟨?_, .inl rfl⟩
    split_ifs <;> decide
  case h_3 =>
    refine ⟨?_, .inl rfl⟩
    split_ifs <;> decide
  case h_6 => exact ⟨by decide, .inr (.inl rfl)⟩
  all_goals exact ⟨by simp [Pc.left], .inl rfl⟩

/-- While no other thread has the mutex, a thread finishes its call alone, and gives the mutex
back. -/
theorem Inv.finishes (h : Inv s) (thread : T)
    (hown : s.devMgrInstanceMutex = none ∨ s.devMgrInstanceMutex = some thread) :
    ∃ t manager, Reaches next (fun _ e => e = thread) s t ∧ t.pc thread = .returned manager ∧
      t.devMgrInstanceMutex = none := by
  induction hn : (s.pc thread).left using Nat.strong_induction_on generalizing s with
  | _ n ih =>
    have hfree : ∀ pc, s.pc thread = pc → pc.holds = false → s.devMgrInstanceMutex = none := by
      intro pc hpc hout
      refine hown.resolve_right fun hmine => ?_
      have hholds : (s.pc thread).holds = true := (h.owned thread).mpr hmine
      rw [← hpc, hholds] at hout
      cases hout
    by_cases hcall : ∃ manager, s.pc thread = .returned manager
    · obtain ⟨manager, hpc⟩ := hcall
      exact ⟨s, manager, .refl, hpc, hfree _ hpc rfl⟩
    · push Not at hcall
      obtain ⟨u, hnext⟩ := exists_next fun hpc => hfree _ hpc rfl
      obtain ⟨hless, hmutex⟩ := left_lt_of_next hnext hcall
      have hown' : u.devMgrInstanceMutex = none ∨ u.devMgrInstanceMutex = some thread := by
        rcases hmutex with hsame | hmutex
        · rwa [hsame]
        · exact hmutex
      obtain ⟨t, manager, hreach, hreturned⟩ := ih _ (hn ▸ hless) (h.step hnext) hown' rfl
      exact ⟨t, manager, hreach.head rfl hnext, hreturned⟩

end Progress

/-- However the calls of the threads interleave, one manager is constructed at most, and every call
that returns returns it. Once it is stored it stays. A call can always be finished by the thread
itself and the one that has the mutex. -/
theorem getInstance_one_manager {s : State T} (h : Reaches next anyStep (init T) s) :
    s.built ≤ 1 ∧
    (∀ thread manager, s.pc thread = .returned manager →
      manager = some 0 ∧ s.devMgrInstance = some 0) ∧
    (∀ t manager, Reaches next anyStep s t → s.devMgrInstance = some manager →
      t.devMgrInstance = some manager) ∧
    ∀ thread, ∃ t manager,
      Reaches next (fun _ e => e = thread ∨ s.devMgrInstanceMutex = some e) s t ∧
        t.pc thread = .returned manager := by
  have hinv : Inv s := h.invariant (fun _ _ _ hi _ hnext => hi.step hnext) inv_init
  refine ⟨?_, ?_, ?_, ?_⟩
  · exact hinv.counted.built_le
  · intro thread manager hpc
    have hexpects := hinv.expects thread
    rwa [hpc] at hexpects
  · intro t manager hreach hstored
    have hboth : Inv t ∧ t.devMgrInstance = some manager :=
      hreach.invariant (I := fun t => Inv t ∧ t.devMgrInstance = some manager)
        (fun _ _ _ hi _ hnext => ⟨hi.1.step hnext, next_stored hi.1 hnext hi.2⟩) ⟨hinv, hstored⟩
    exact hboth.2
  · intro thread
    cases hmutex : s.devMgrInstanceMutex with
    | none =>
      obtain ⟨t, manager, hreach, hpc, -⟩ := hinv.finishes thread (.inl hmutex)
      exact ⟨t, manager, hreach.mono fun _ _ => .inl, hpc⟩
    | some owner =>
      obtain ⟨u, -, hfirst, -, hfree⟩ := hinv.finishes owner (.inr hmutex)
      have hinv' : Inv u := hfirst.invariant (fun _ _ _ hi _ hnext => hi.step hnext) hinv
      obtain ⟨t, manager, hreach, hpc, -⟩ := hinv'.finishes thread (.inl hfree)
      refine ⟨t, manager, (hfirst.mono ?_).trans (hreach.mono fun _ _ => .inl), hpc⟩
      rintro _ _ rfl
      exact .inr rfl

/-- Two threads that both find no manager. -/
def bothCheck : List Bool := [false, true, true, true, true, true]

def afterBothCheck : State Bool := (exec next (init Bool) bothCheck).getD (init Bool)

theorem getInstance_one_manager_bothCheck :
    afterBothCheck.built ≤ 1 ∧ ∃ t manager, Reaches next
      (fun _ e => e = false ∨ afterBothCheck.devMgrInstanceMutex = some e) afterBothCheck t ∧
        t.pc false = .returned manager :=
  have h := getInstance_one_manager (reaches_of_exec bothCheck rfl : Reaches next anyStep _
    afterBothCheck)
  ⟨h.1, h.2.2.2 false⟩

end Tdi.Info.Instance

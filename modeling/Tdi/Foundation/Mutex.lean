import Mathlib

/-!
# A mutex and its owner

Which threads are inside a critical section is read off their own positions, and
the mutex records one owner. The two agree as long as a thread enters only when
the mutex is free and takes it, and gives it back when it leaves.
-/
namespace Tdi.Foundation

variable {T : Type*} {holds : T → Bool} {owner : Option T} {thread : T}

/-- The threads that hold the mutex, by their positions, are the recorded owner. -/
def Owned (holds : T → Bool) (owner : Option T) : Prop :=
  ∀ thread, holds thread = true ↔ owner = some thread

theorem Owned.unique (h : Owned holds owner) {a b : T} (ha : holds a = true)
    (hb : holds b = true) : a = b := by
  have hown := (h a).mp ha
  rw [(h b).mp hb, Option.some.injEq] at hown
  exact hown.symm

variable [DecidableEq T]

/-- A thread moves inside or outside its critical section. -/
theorem Owned.keep (h : Owned holds owner) {b : Bool} (hb : b = holds thread) :
    Owned (Function.update holds thread b) owner := by
  rwa [hb, Function.update_eq_self]

theorem Owned.acquire (h : Owned holds owner) (hfree : owner = none) :
    Owned (Function.update holds thread true) (some thread) := by
  intro other
  have hout : holds other ≠ true := by
    rw [ne_eq, h other, hfree]
    simp
  by_cases ho : other = thread
  · simp [ho]
  · simp [ho, hout, Ne.symm ho]

theorem Owned.release (h : Owned holds owner) (hin : holds thread = true) :
    Owned (Function.update holds thread false) none := by
  intro other
  by_cases ho : other = thread
  · simp [ho]
  · have hout : holds other ≠ true := fun hother => ho (h.unique hother hin)
    simp [ho, hout]

end Tdi.Foundation

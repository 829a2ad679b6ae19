import Mathlib

/-!
# Arrays of the caller

A function that returns a list writes its elements to an array of the caller, from the
first position on. The array is a function of the position. The positions behind the
list keep what they hold, so a caller that has asked for the length reads the list.
-/
namespace Tdi.Foundation

variable {α : Type*}

/-- The loop that writes the elements from a position on. -/
def fillFrom : ℕ → List α → (ℕ → α) → ℕ → α
  | _, [], out => out
  | i, a :: l, out => fillFrom (i + 1) l (Function.update out i a)

/-- What the caller reads from an array of a length. -/
def readArray (n : ℕ) (out : ℕ → α) : List α := (List.range n).map out

theorem fillFrom_of_lt {i j : ℕ} (h : j < i) (l : List α) (out : ℕ → α) :
    fillFrom i l out j = out j := by
  induction l generalizing i out with
  | nil => rfl
  | cons a l ih =>
    rw [fillFrom, ih (h.trans (Nat.lt_succ_self i)), Function.update_of_ne h.ne]

theorem fillFrom_add (i j : ℕ) (l : List α) (out : ℕ → α) :
    fillFrom i l out (i + j) = l[j]?.getD (out (i + j)) := by
  induction l generalizing i j out with
  | nil => rfl
  | cons a l ih =>
    rw [fillFrom]
    cases j with
    | zero =>
      rw [add_zero, fillFrom_of_lt (Nat.lt_succ_self i), Function.update_self]
      rfl
    | succ j =>
      have hne : i + (j + 1) ≠ i := by omega
      have hnext := ih (i + 1) j (Function.update out i a)
      rw [add_assoc, add_comm 1 j, Function.update_of_ne hne] at hnext
      rw [hnext, List.getElem?_cons_succ]

/-- Behind the list the array is as it was. -/
theorem fillFrom_of_length_le {l : List α} {j : ℕ} (h : l.length ≤ j) (out : ℕ → α) :
    fillFrom 0 l out j = out j := by
  have hj := fillFrom_add 0 j l out
  rwa [zero_add, List.getElem?_eq_none h, Option.getD_none] at hj

/-- An array of the length of the list holds the list. -/
theorem readArray_fillFrom (l : List α) (out : ℕ → α) :
    readArray l.length (fillFrom 0 l out) = l := by
  apply List.ext_getElem
  · simp [readArray]
  · intro j hj hj'
    have hfill := fillFrom_add 0 j l out
    rw [zero_add, List.getElem?_eq_getElem hj', Option.getD_some] at hfill
    rw [← hfill]
    simp [readArray]

end Tdi.Foundation

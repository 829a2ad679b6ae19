import Mathlib

/-!
# What is put in a place while it is free

Some operations put something in a place, but only while there is nothing, and some
clear the place. What is there after a list of operations was put there when the place
was free, and has not been cleared since.
-/
namespace Tdi.Foundation

variable {A Op : Type*} (puts : Op → Option A) (clears : Op → Bool)

def holdStep (held : Option A) (op : Op) : Option A :=
  if clears op then none else held.or (puts op)

def holding (ops : List Op) : Option A := ops.foldl (holdStep puts clears) none

theorem holding_concat (ops : List Op) (op : Op) :
    holding puts clears (ops ++ [op]) = holdStep puts clears (holding puts clears ops) op := by
  rw [holding, holding, List.foldl_append, List.foldl_cons, List.foldl_nil]

variable {puts clears}

/-- What is held is kept while nothing is cleared. -/
theorem holding_append_of_kept {ops : List Op} {a : A} (h : holding puts clears ops = some a)
    {post : List Op} (hpost : ∀ op ∈ post, clears op = false) :
    holding puts clears (ops ++ post) = some a := by
  induction post using List.reverseRecOn with
  | nil => rwa [List.append_nil]
  | append_singleton post op ih =>
    rw [← List.append_assoc, holding_concat, ih fun op' hop' => hpost op' (by simp [hop']),
      holdStep, hpost op (by simp)]
    rfl

theorem holding_eq_some_iff {ops : List Op} {a : A} :
    holding puts clears ops = some a ↔
      ∃ pre op post, ops = pre ++ op :: post ∧ holding puts clears pre = none ∧
        puts op = some a ∧ ∀ op' ∈ op :: post, clears op' = false := by
  constructor
  · intro h
    induction ops using List.reverseRecOn with
    | nil => cases h
    | append_singleton ops op ih =>
      rw [holding_concat, holdStep] at h
      split_ifs at h with hclear
      rw [Bool.not_eq_true] at hclear
      cases hheld : holding puts clears ops with
      | none =>
        rw [hheld, Option.none_or] at h
        exact ⟨ops, op, [], rfl, hheld, h, by simpa using hclear⟩
      | some b =>
        rw [hheld, Option.some_or] at h
        obtain ⟨pre, first, post, rfl, hpre, hputs, hkept⟩ := ih (by rw [hheld, h])
        refine ⟨pre, first, post ++ [op], by simp, hpre, hputs, ?_⟩
        intro op' hop'
        rw [← List.cons_append, List.mem_append, List.mem_singleton] at hop'
        rcases hop' with hop' | rfl
        · exact hkept op' hop'
        · exact hclear
  · rintro ⟨pre, op, post, rfl, hpre, hputs, hkept⟩
    rw [List.forall_mem_cons] at hkept
    have hnow : holding puts clears (pre ++ [op]) = some a := by
      rw [holding_concat, hpre, holdStep, hkept.1, Option.none_or, hputs]
      rfl
    have hafter := holding_append_of_kept hnow hkept.2
    rwa [List.append_assoc] at hafter

end Tdi.Foundation

import Mathlib

/-!
# Stores into a buffer

A program that writes through a pointer is described by its stores: the offset from
where the pointer stood first, and the value. Stores at consecutive offsets replace
one interval of the buffer and leave the rest of it.
-/
namespace Tdi.Foundation

variable {β : Type*}

/-- The values stored one after another from an offset on. -/
def storesAt (offset : ℕ) : List β → List (ℕ × β)
  | [] => []
  | x :: values => (offset, x) :: storesAt (offset + 1) values

/-- The buffer after the stores. A store past its end is no part of it. -/
def commit (buffer : List β) (stores : List (ℕ × β)) : List β :=
  stores.foldl (fun buffer store => buffer.set store.1 store.2) buffer

variable {offset : ℕ} {values more buffer : List β} {stores : List (ℕ × β)}

theorem storesAt_append :
    storesAt offset (values ++ more) =
      storesAt offset values ++ storesAt (offset + values.length) more := by
  induction values generalizing offset with
  | nil => rfl
  | cons x values ih =>
    have hlen : offset + 1 + values.length = offset + (x :: values).length := by
      simp only [List.length_cons]
      omega
    rw [List.cons_append, storesAt, storesAt, ih, hlen, List.cons_append]

theorem fst_lt_of_mem_storesAt {store : ℕ × β} (h : store ∈ storesAt offset values) :
    store.1 < offset + values.length := by
  induction values generalizing offset with
  | nil => cases h
  | cons x values ih =>
    rw [List.length_cons]
    rcases List.mem_cons.mp h with rfl | h
    · simp
    · have hlt := ih h
      omega

@[simp] theorem length_commit : (commit buffer stores).length = buffer.length := by
  induction stores generalizing buffer with
  | nil => rfl
  | cons store stores ih => exact ih.trans (List.length_set ..)

/-- Consecutive stores replace their interval of the buffer. -/
theorem commit_storesAt (h : offset + values.length ≤ buffer.length) :
    commit buffer (storesAt offset values) =
      buffer.take offset ++ values ++ buffer.drop (offset + values.length) := by
  induction values generalizing offset buffer with
  | nil => simp [storesAt, commit]
  | cons x values ih =>
    have hlen : offset + (x :: values).length = offset + 1 + values.length := by
      simp only [List.length_cons]
      omega
    have hlt : offset < buffer.length := by omega
    have hset : offset + 1 + values.length ≤ (buffer.set offset x).length := by
      rw [List.length_set]
      omega
    have htake : (buffer.set offset x).take (offset + 1) = buffer.take offset ++ [x] := by
      rw [List.take_set, List.take_add_one, List.getElem?_eq_getElem hlt]
      have hlen' : (buffer.take offset).length = offset := List.length_take_of_le hlt.le
      rw [List.set_append_right _ _ hlen'.le, hlen', Nat.sub_self]
      rfl
    calc
      _ = commit (buffer.set offset x) (storesAt (offset + 1) values) := rfl
      _ = (buffer.set offset x).take (offset + 1) ++ values ++
          (buffer.set offset x).drop (offset + 1 + values.length) := ih hset
      _ = _ := by
        rw [htake, List.drop_set_of_lt (by omega), hlen]
        simp

end Tdi.Foundation

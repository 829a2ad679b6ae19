import Mathlib
import Tdi.Foundation.LastEntry
import Tdi.Foundation.Runs

/-!
# Registers that keep part of a value

Registers are written with values and keep of each value what fits. After a list of
writes a register holds the part it keeps of the value written to it last, so that
reading gives that value back exactly when all of it is kept.
-/
namespace Tdi.Foundation

/-- Registers that are read and written by number; a number without a register reads
as `none`. -/
structure Registers (S K V : Type*) [DecidableEq K] where
  write : S → K → V → S
  read : S → K → Option V
  keep : K → V → V
  read_write : ∀ s k v j,
    read (write s k v) j = if k = j then (read s j).map fun _ => keep k v else read s j

namespace Registers

variable {S K V : Type*} [DecidableEq K] (R : Registers S K V)

def writeAll (s : S) (writes : List (K × V)) : S :=
  run (fun s w => R.write s w.1 w.2) s writes

@[simp] theorem writeAll_nil (s : S) : R.writeAll s [] = s := rfl

@[simp] theorem writeAll_concat (s : S) (writes : List (K × V)) (w : K × V) :
    R.writeAll s (writes ++ [w]) = R.write (R.writeAll s writes) w.1 w.2 := by
  simp [writeAll]

theorem read_writeAll (s : S) (writes : List (K × V)) (k : K) :
    R.read (R.writeAll s writes) k =
      (R.read s k).map fun old => ((lastValue writes k).map (R.keep k)).getD old := by
  induction writes using List.reverseRecOn with
  | nil => simp
  | append_singleton writes w ih =>
    rw [writeAll_concat, R.read_write, ih, lastValue_concat]
    split_ifs with h
    · subst h
      cases R.read s w.1 <;> rfl
    · rfl

/-- What is read is the last value written, or the old one, exactly when the register keeps
all of the last value. -/
theorem read_writeAll_eq_iff {s : S} {k : K} {old : V} (h : R.read s k = some old)
    (writes : List (K × V)) :
    R.read (R.writeAll s writes) k = some ((lastValue writes k).getD old) ↔
      ∀ v, lastValue writes k = some v → R.keep k v = v := by
  rw [read_writeAll, h, Option.map_some, Option.some_inj]
  cases lastValue writes k with
  | none => simp
  | some v => simp

end Registers
end Tdi.Foundation

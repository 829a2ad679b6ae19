import Mathlib

/-!
# Handles that are obtained and released

A trace of what was done with handles is balanced when every handle that was
obtained is released once and nothing is done with a handle after that. Work that
releases nothing is balanced by releasing what it obtained, and by nothing less.
-/
namespace Tdi.Foundation

inductive HandleEvent (H : Type*) where
  | obtained (h : H)
  | passed (h : H)
  | released (h : H)
  deriving DecidableEq

namespace HandleEvent

variable {H : Type*}

def IsRelease : HandleEvent H → Prop
  | released _ => True
  | _ => False

theorem no_release_map_passed (hs : List H) : ∀ e ∈ hs.map passed, ¬ e.IsRelease := by
  intro e he
  obtain ⟨h, -, rfl⟩ := List.mem_map.mp he
  exact id

/-- Nothing is done with a handle after it was released. -/
def UnusedAfterRelease (trace : List (HandleEvent H)) : Prop :=
  trace.Pairwise fun e later => ∀ h, e = released h → later ≠ passed h ∧ later ≠ released h

structure Balanced [DecidableEq H] (trace : List (HandleEvent H)) : Prop where
  released_once : ∀ h, obtained h ∈ trace → trace.count (released h) = 1
  unused_after : UnusedAfterRelease trace

variable [DecidableEq H] {trace : List (HandleEvent H)}

/-- A handle that is obtained and not released is leaked. -/
theorem not_balanced_of_leak {h : H} (hobtained : obtained h ∈ trace)
    (hreleased : released h ∉ trace) : ¬ Balanced trace := by
  intro hbalanced
  have hone := hbalanced.released_once h hobtained
  rw [List.count_eq_zero_of_not_mem hreleased] at hone
  cases hone

end HandleEvent

open HandleEvent

variable {H : Type*} {work work' : List (HandleEvent H)} {hs hs' : List H}

/-- Work that releases nothing and obtains these handles. -/
structure Holding (hs : List H) (work : List (HandleEvent H)) : Prop where
  no_release : ∀ e ∈ work, ¬ e.IsRelease
  obtained_iff : ∀ h, obtained h ∈ work ↔ h ∈ hs

namespace Holding

theorem nil : Holding [] ([] : List (HandleEvent H)) := ⟨by simp, by simp⟩

theorem obtain (h : H) : Holding [h] [obtained h] := by
  refine ⟨fun e he => ?_, fun h' => ?_⟩
  · rw [List.mem_singleton.mp he]
    exact id
  · simp

/-- Passing handles on changes nothing about what is held. -/
theorem of_passed (hpassed : ∀ e ∈ work, ∃ h, e = passed h) : Holding [] work := by
  refine ⟨fun e he => ?_, fun h => ?_⟩
  · obtain ⟨h, rfl⟩ := hpassed e he
    exact id
  · refine ⟨fun hmem => ?_, nofun⟩
    obtain ⟨h', he⟩ := hpassed _ hmem
    cases he

theorem append (hwork : Holding hs work) (hwork' : Holding hs' work') :
    Holding (hs ++ hs') (work ++ work') := by
  refine ⟨fun e he => ?_, fun h => ?_⟩
  · rcases List.mem_append.mp he with he | he
    · exact hwork.no_release e he
    · exact hwork'.no_release e he
  · rw [List.mem_append, List.mem_append, hwork.obtained_iff, hwork'.obtained_iff]

theorem append_passed (hwork : Holding hs work) (hpassed : ∀ e ∈ work', ∃ h, e = passed h) :
    Holding hs (work ++ work') := by
  have happend := hwork.append (of_passed hpassed)
  rwa [List.append_nil] at happend

theorem released_not_mem (hwork : Holding hs work) (h : H) : released h ∉ work :=
  fun hmem => hwork.no_release _ hmem trivial

/-- Releasing distinct handles balances the work exactly when they are all that is held. -/
theorem balanced_append_released_iff [DecidableEq H] (hwork : Holding hs work) {rs : List H}
    (hnodup : rs.Nodup) : Balanced (work ++ rs.map released) ↔ ∀ h ∈ hs, h ∈ rs := by
  have hnone := hwork.released_not_mem
  have hinj : Function.Injective (released : H → HandleEvent H) := fun _ _ he => by cases he; rfl
  have hmem : ∀ h, released h ∈ work ++ rs.map released ↔ h ∈ rs := fun h => by simp [hnone]
  have hobtained : ∀ h, obtained h ∈ work ++ rs.map released ↔ h ∈ hs := fun h => by
    simp [hwork.obtained_iff]
  constructor
  · intro hbalanced h hh
    by_contra hr
    exact not_balanced_of_leak ((hobtained h).mpr hh) (fun hm => hr ((hmem h).mp hm)) hbalanced
  · intro hall
    constructor
    · intro h hh
      rw [List.count_append, List.count_eq_zero_of_not_mem (hnone h), zero_add,
        List.count_map_of_injective _ _ hinj]
      exact List.count_eq_one_of_mem hnodup (hall h ((hobtained h).mp hh))
    · rw [UnusedAfterRelease, List.pairwise_append]
      refine ⟨List.pairwise_of_forall_mem_list ?_, ?_, ?_⟩
      · rintro e he later - h rfl
        exact absurd he (hnone h)
      · rw [List.pairwise_map]
        refine hnodup.imp fun {a b} hne h he => ⟨nofun, fun hb => ?_⟩
        cases he
        cases hb
        exact hne rfl
      · rintro e he later - h rfl
        exact absurd he (hnone h)

theorem balanced_iff [DecidableEq H] (hwork : Holding hs work) : Balanced work ↔ hs = [] := by
  have hiff : Balanced (work ++ [].map released) ↔ ∀ h ∈ hs, h ∈ [] :=
    hwork.balanced_append_released_iff List.nodup_nil
  rw [List.map_nil, List.append_nil] at hiff
  rw [hiff, List.eq_nil_iff_forall_not_mem]
  simp

end Holding

end Tdi.Foundation

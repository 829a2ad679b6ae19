import Tdi.Foundation.Runs

/-!
# Lifetimes

Operations add elements to a collection and remove elements from it. An element is
live after a list of operations when one of them added it and none removed it
afterwards, and a machine whose steps add and remove accordingly holds exactly the
live elements.
-/
namespace Tdi.Foundation

variable {A S Op : Type*} {adds removes : Op → A → Prop}

def LiveAfter (adds removes : Op → A → Prop) (ops : List Op) (a : A) : Prop :=
  ∃ pre op post, ops = pre ++ op :: post ∧ adds op a ∧ ∀ op' ∈ post, ¬ removes op' a

theorem not_liveAfter_nil (a : A) : ¬ LiveAfter adds removes [] a := by
  rintro ⟨pre, op, post, h, -⟩
  simp at h

theorem liveAfter_concat {ops : List Op} {op : Op} {a : A} :
    LiveAfter adds removes (ops ++ [op]) a ↔
      adds op a ∨ LiveAfter adds removes ops a ∧ ¬ removes op a := by
  constructor
  · rintro ⟨pre, added, post, h, hadds, hpost⟩
    rcases post.eq_nil_or_concat with rfl | ⟨post, last, rfl⟩
    · obtain ⟨-, hop⟩ := List.append_inj' h rfl
      cases hop
      exact .inl hadds
    · rw [List.concat_eq_append, ← List.cons_append, ← List.append_assoc] at h
      obtain ⟨hops, hop⟩ := List.append_inj' h rfl
      cases hop
      rw [List.concat_eq_append] at hpost
      exact .inr ⟨⟨pre, added, post, hops, hadds, fun op' hop' =>
        hpost op' (List.mem_append_left _ hop')⟩, hpost _ (by simp)⟩
  · rintro (hadds | ⟨⟨pre, added, post, rfl, hadds, hpost⟩, hkept⟩)
    · exact ⟨ops, op, [], rfl, hadds, by simp⟩
    · refine ⟨pre, added, post ++ [op], by simp, hadds, fun op' hop' => ?_⟩
      rcases List.mem_append.mp hop' with hold | hnew
      · exact hpost op' hold
      · rwa [List.mem_singleton.mp hnew]

/-- A machine that starts empty holds what is live. -/
theorem holds_run_iff_liveAfter {step : S → Op → S} (holds : S → A → Prop)
    (hstep : ∀ s op a, holds (step s op) a ↔ adds op a ∨ holds s a ∧ ¬ removes op a) {s : S}
    (hs : ∀ a, ¬ holds s a) (ops : List Op) (a : A) :
    holds (run step s ops) a ↔ LiveAfter adds removes ops a := by
  induction ops using List.reverseRecOn with
  | nil => exact iff_of_false (hs a) (not_liveAfter_nil a)
  | append_singleton ops op ih => rw [run_concat, hstep, ih, liveAfter_concat]

end Tdi.Foundation

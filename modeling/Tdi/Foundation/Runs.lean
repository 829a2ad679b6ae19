import Mathlib

/-!
# Runs of a machine

A machine takes a list of operations one after the other. What one operation
preserves a run preserves, a machine that simulates another step by step does so
over a run, and a property holds in every state of a run exactly when every
operation that is taken meets the condition under which it is kept.

A concurrent system offers a choice of events in each state, of which some are
enabled. Its runs are described by the states they reach, possibly by steps that
all meet a condition.
-/
namespace Tdi.Foundation

variable {S A Op : Type*} {step : S → Op → S}

def run (step : S → Op → S) (s : S) (ops : List Op) : S := ops.foldl step s

@[simp] theorem run_nil (s : S) : run step s [] = s := rfl

@[simp] theorem run_concat (s : S) (ops : List Op) (op : Op) :
    run step s (ops ++ [op]) = step (run step s ops) op := by
  simp [run]

theorem run_invariant {I : S → Prop} (hstep : ∀ s op, I s → I (step s op)) {s : S} (hs : I s)
    (ops : List Op) : I (run step s ops) := by
  induction ops using List.reverseRecOn with
  | nil => exact hs
  | append_singleton ops op ih =>
    rw [run_concat]
    exact hstep _ op ih

/-- Two machines that stay related over a step stay related over a run. -/
theorem run_simulates {R : S → A → Prop} {absStep : A → Op → A}
    (hstep : ∀ s a op, R s a → R (step s op) (absStep a op)) {s : S} {a : A} (h : R s a)
    (ops : List Op) : R (run step s ops) (run absStep a ops) := by
  induction ops using List.reverseRecOn with
  | nil => exact h
  | append_singleton ops op ih =>
    rw [run_concat, run_concat]
    exact hstep _ _ op ih

/-- A property holds in every state of a run exactly when each operation meets the
condition `Q` under which it keeps the property, given an invariant of all states. -/
theorem forall_prefix_iff {I P : S → Prop} {Q : S → Op → Prop}
    (hI : ∀ s op, I s → I (step s op)) (hQ : ∀ s op, I s → P s → (P (step s op) ↔ Q s op))
    {s : S} (hs : I s) (hp : P s) (ops : List Op) :
    (∀ pre, pre <+: ops → P (run step s pre)) ↔
      ∀ pre op, pre ++ [op] <+: ops → Q (run step s pre) op := by
  constructor
  · intro h pre op hpre
    have hnext := h (pre ++ [op]) hpre
    rw [run_concat] at hnext
    have hnow := h pre ((List.prefix_append pre [op]).trans hpre)
    exact (hQ _ op (run_invariant hI hs pre) hnow).mp hnext
  · intro h pre
    induction pre using List.reverseRecOn with
    | nil => exact fun _ => hp
    | append_singleton pre op ih =>
      intro hpre
      have hnow := ih ((List.prefix_append pre [op]).trans hpre)
      rw [run_concat]
      exact (hQ _ op (run_invariant hI hs pre) hnow).mpr (h pre op hpre)

section Events

variable {E : Type*} {next : S → E → Option S} {ok : S → E → Prop} {s t : S}

/-- The states reached from `s` by steps that meet the condition `ok`. -/
inductive Reaches (next : S → E → Option S) (ok : S → E → Prop) (s : S) : S → Prop where
  | refl : Reaches next ok s s
  | tail {t u : S} {e : E} : Reaches next ok s t → ok t e → next t e = some u →
      Reaches next ok s u

/-- The condition that every step meets. -/
def anyStep (_ : S) (_ : E) : Prop := True

def exec (next : S → E → Option S) (s : S) (events : List E) : Option S := events.foldlM next s

theorem Reaches.invariant {I : S → Prop}
    (hstep : ∀ t e u, I t → ok t e → next t e = some u → I u) (hs : I s)
    (h : Reaches next ok s t) : I t := by
  induction h with
  | refl => exact hs
  | tail _ hok hnext ih => exact hstep _ _ _ ih hok hnext

theorem Reaches.mono {ok' : S → E → Prop} (hok : ∀ t e, ok t e → ok' t e)
    (h : Reaches next ok s t) : Reaches next ok' s t := by
  induction h with
  | refl => exact .refl
  | tail _ hmeets hnext ih => exact ih.tail (hok _ _ hmeets) hnext

theorem Reaches.trans {u : S} (h : Reaches next ok s t) (h' : Reaches next ok t u) :
    Reaches next ok s u := by
  induction h' with
  | refl => exact h
  | tail _ hok hnext ih => exact ih.tail hok hnext

theorem Reaches.head {u : S} {e : E} (hok : ok s e) (hnext : next s e = some t)
    (h : Reaches next ok t u) : Reaches next ok s u :=
  (Reaches.refl.tail hok hnext).trans h

theorem exec_append (s : S) (events more : List E) :
    exec next s (events ++ more) = (exec next s events).bind fun t => exec next t more :=
  List.foldlM_append

theorem exec_singleton (s : S) (e : E) : exec next s [e] = next s e := bind_pure (next s e)

theorem exec_concat_eq_some_iff {events : List E} {e : E} :
    exec next s (events ++ [e]) = some t ↔
      ∃ u, exec next s events = some u ∧ next u e = some t := by
  simp only [exec_append, Option.bind_eq_some_iff, exec_singleton]

theorem reaches_of_exec (events : List E) (h : exec next s events = some t) :
    Reaches next anyStep s t := by
  induction events generalizing s with
  | nil =>
    cases h
    exact .refl
  | cons e events ih =>
    obtain ⟨u, hu, hrest⟩ := Option.bind_eq_some_iff.mp h
    exact (Reaches.refl.tail trivial hu).trans (ih hrest)

end Events

end Tdi.Foundation

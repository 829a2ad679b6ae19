import Mathlib

/-!
# Computations that return under a condition

A guarded computation returns its value exactly under a condition, and otherwise raises
an error of a given kind. The rules follow the computation. A loop returns exactly if all
of its rounds do, whatever the state is that they come to.
-/
namespace Tdi.Foundation

universe u

variable {ε : Type u} {α β σ : Type u} {ι : Type*} {bad : ε → Prop} {p q : Prop}

theorem ok_bind (a : α) (f : α → Except ε β) : Except.ok a >>= f = f a := rfl

/-- The computation returns the value exactly under the condition. -/
structure Guarded (bad : ε → Prop) (p : Prop) (x : Except ε α) (a : α) : Prop where
  returns : p → x = .ok a
  raises : ¬p → ∃ e, bad e ∧ x = .error e

namespace Guarded

variable {x : Except ε α} {a : α} {f : α → Except ε β} {b : β}

theorem of_iff (h : Guarded bad p x a) (hpq : p ↔ q) : Guarded bad q x a :=
  ⟨fun hq => h.returns (hpq.mpr hq), fun hq => h.raises (mt hpq.mp hq)⟩

theorem ok (a : α) : Guarded bad True (.ok a) a := ⟨fun _ => rfl, fun h => absurd trivial h⟩

theorem error {e : ε} (he : bad e) (a : α) : Guarded bad False (.error e : Except ε α) a :=
  ⟨False.elim, fun _ => ⟨e, he, rfl⟩⟩

theorem bind (hx : Guarded bad p x a) (hf : p → Guarded bad q (f a) b) :
    Guarded bad (p ∧ q) (x >>= f) b := by
  by_cases hp : p
  · rw [hx.returns hp, ok_bind]
    exact (hf hp).of_iff (by simp [hp])
  · obtain ⟨e, he, hraise⟩ := hx.raises hp
    refine ⟨fun h => absurd h.1 hp, fun _ => ⟨e, he, ?_⟩⟩
    rw [hraise]
    rfl

theorem map (h : Guarded bad p x a) (g : α → β) :
    Guarded bad p (x >>= fun a => .ok (g a)) (g a) :=
  (h.bind fun _ => ok (g a)).of_iff (iff_of_eq (and_true p))

theorem ite {c : Prop} [Decidable c] {y : Except ε α} {a' : α} (hx : c → Guarded bad p x a)
    (hy : ¬c → Guarded bad q y a') :
    Guarded bad ((c → p) ∧ (¬c → q)) (if c then x else y) (if c then a else a') := by
  split_ifs with h
  · exact (hx h).of_iff (by simp [h])
  · exact (hy h).of_iff (by simp [h])

theorem foldlM {r : ι → Prop} {step : σ → ι → Except ε σ} {next : σ → ι → σ} {l : List ι}
    (h : ∀ i ∈ l, ∀ s, Guarded bad (r i) (step s i) (next s i)) (s : σ) :
    Guarded bad (∀ i ∈ l, r i) (l.foldlM step s) (l.foldl next s) := by
  induction l generalizing s with
  | nil => exact (ok s).of_iff (by simp)
  | cons i l ih =>
    rw [List.forall_mem_cons] at h
    rw [List.foldlM_cons]
    exact ((h.1 s).bind fun _ => ih h.2 _).of_iff List.forall_mem_cons.symm

theorem mapM {r : ι → Prop} {step : ι → Except ε α} {next : ι → α} {l : List ι}
    (h : ∀ i ∈ l, Guarded bad (r i) (step i) (next i)) :
    Guarded bad (∀ i ∈ l, r i) (l.mapM step) (l.map next) := by
  induction l with
  | nil => exact (ok []).of_iff (by simp)
  | cons i l ih =>
    rw [List.forall_mem_cons] at h
    rw [List.mapM_cons]
    have hrest : Guarded bad (∀ j ∈ l, r j)
        (l.mapM step >>= fun as => pure (next i :: as)) (next i :: l.map next) :=
      (ih h.2).map (next i :: ·)
    exact (h.1.bind fun _ => hrest).of_iff List.forall_mem_cons.symm

end Guarded
end Tdi.Foundation

import Mathlib

/-!
# Tails of a separated list

A tail of a list is the list itself or what follows one of its separators. The
tails of `a.b.c` are `a.b.c`, `b.c` and `c`. Trimming removes the separators at
the end of a list.
-/
namespace Tdi.Foundation

variable {α : Type*} {x : α} {q n t : List α}

/-- `q` is `n`, or what follows a separator `x` in `n`. -/
def IsTail (x : α) (q n : List α) : Prop := q = n ∨ ∃ p, n = p ++ x :: q

theorem isTail_of_not_mem (h : x ∉ n) : IsTail x q n ↔ q = n := by
  refine or_iff_left ?_
  rintro ⟨p, rfl⟩
  exact h (by simp)

/-- The tails of `t.n` are itself and the tails of `n`, when `t` has no separator. -/
theorem isTail_append_cons (h : x ∉ t) :
    IsTail x q (t ++ x :: n) ↔ q = t ++ x :: n ∨ IsTail x q n := by
  unfold IsTail
  refine or_congr_right ?_
  constructor
  · rintro ⟨p, hp⟩
    rcases List.append_eq_append_iff.mp hp with ⟨r, rfl, hr⟩ | ⟨r, rfl, hr⟩
    · cases r with
      | nil => exact Or.inl (List.cons.inj hr).2.symm
      | cons y r =>
        obtain ⟨rfl, hn⟩ := List.cons.inj hr
        exact Or.inr ⟨r, hn⟩
    · cases r with
      | nil => exact Or.inl (List.cons.inj hr).2
      | cons y r =>
        obtain ⟨rfl, -⟩ := List.cons.inj hr
        exact absurd (by simp) h
  · rintro (rfl | ⟨p, rfl⟩)
    · exact ⟨t, rfl⟩
    · exact ⟨t ++ x :: p, by simp⟩

theorem IsTail.getLast? (h : IsTail x q n) (hq : q ≠ []) : n.getLast? = q.getLast? := by
  rcases h with rfl | ⟨p, rfl⟩
  · rfl
  · obtain ⟨m, y, rfl⟩ := (List.eq_nil_or_concat q).resolve_left hq
    have hsplit : p ++ x :: m.concat y = (p ++ x :: m) ++ [y] := by simp
    rw [hsplit, List.getLast?_concat]
    simp

theorem getLast?_append_cons_eq_some_iff :
    (t ++ x :: n).getLast? = some x ↔ n = [] ∨ n.getLast? = some x := by
  rcases List.eq_nil_or_concat n with rfl | ⟨m, y, rfl⟩
  · simp
  · have hsplit : t ++ x :: m.concat y = (t ++ x :: m) ++ [y] := by simp
    rw [hsplit, List.getLast?_concat]
    simp

variable [DecidableEq α]

theorem sep_not_mem_of_mem_splitOn (h : t ∈ n.splitOn x) : x ∉ t := by
  induction n generalizing t with
  | nil => simp_all
  | cons y n ih =>
    rw [List.splitOn_cons_eq_if_modifyHead] at h
    split_ifs at h with hy
    · rcases List.mem_cons.mp h with rfl | h
      · simp
      · exact ih h
    · obtain ⟨u, us, hu⟩ := List.exists_cons_of_ne_nil (List.splitOn_ne_nil x n)
      rw [hu, List.modifyHead_cons] at h
      rw [hu] at ih
      rcases List.mem_cons.mp h with rfl | h
      · have hne : x ≠ y := fun he => hy (by simp [he])
        simpa [hne] using ih List.mem_cons_self
      · exact ih (List.mem_cons_of_mem _ h)

/-- A list without the separators at its end. -/
def trim (x : α) (n : List α) : List α := n.rdropWhile (· == x)

theorem trim_of_not_mem (h : x ∉ n) : trim x n = n := by
  refine List.rdropWhile_eq_self_iff.mpr fun hne => ?_
  have hlast : n.getLast hne ≠ x := fun he => h (he ▸ List.getLast_mem hne)
  simpa using hlast

theorem trim_append_cons_of_ne_nil (hn : trim x n ≠ []) :
    trim x (t ++ x :: n) = t ++ x :: trim x n := by
  induction n using List.reverseRecOn with
  | nil => simp [trim] at hn
  | append_singleton n y ih =>
    have hsplit : t ++ x :: (n ++ [y]) = (t ++ x :: n) ++ [y] := by simp
    unfold trim at hn ih ⊢
    rw [hsplit, List.rdropWhile_concat, List.rdropWhile_concat]
    rw [List.rdropWhile_concat] at hn
    split_ifs with hy
    · rw [if_pos hy] at hn
      exact ih hn
    · simp

theorem trim_append_cons_of_eq_nil (ht : x ∉ t) (hn : trim x n = []) :
    trim x (t ++ x :: n) = t := by
  induction n using List.reverseRecOn with
  | nil =>
    unfold trim
    rw [List.rdropWhile_concat, if_pos (by simp)]
    exact trim_of_not_mem ht
  | append_singleton n y ih =>
    have hsplit : t ++ x :: (n ++ [y]) = (t ++ x :: n) ++ [y] := by simp
    unfold trim at hn ih ⊢
    rw [List.rdropWhile_concat] at hn
    split_ifs at hn with hy
    · rw [hsplit, List.rdropWhile_concat, if_pos hy]
      exact ih hn
    · simp at hn

theorem trim_eq_self_iff : trim x n = n ↔ n.getLast? ≠ some x := by
  unfold trim
  rw [List.rdropWhile_eq_self_iff]
  rcases List.eq_nil_or_concat n with rfl | ⟨m, y, rfl⟩
  · simp
  · simp

theorem getLast?_of_trim_eq_nil (h : trim x n = []) : n = [] ∨ n.getLast? = some x := by
  by_contra hn
  obtain ⟨hne, hlast⟩ := not_or.mp hn
  exact hne (trim_eq_self_iff.mpr hlast ▸ h)

/-- No tail of a trimmed list ends in a separator. -/
theorem getLast?_ne_of_isTail_trim (h : IsTail x q (trim x n)) : q.getLast? ≠ some x := by
  intro hq
  have hne : q ≠ [] := by
    rintro rfl
    cases hq
  have hlast : (trim x n).getLast? = some x := (h.getLast? hne).trans hq
  have htrim : trim x n ≠ [] := by
    intro he
    simp [he] at hlast
  rw [List.getLast?_eq_some_getLast htrim, Option.some.injEq] at hlast
  exact List.rdropWhile_last_not _ _ htrim (beq_iff_eq.mpr hlast)

end Tdi.Foundation

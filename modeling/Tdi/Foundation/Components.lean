import Mathlib
import Tdi.Foundation.Tails

/-!
# The last components of a separated list

Looking for a separator from the end, and again from where it was found, counts the
components of a list backwards. After as many searches as components are wanted, what
stands behind the separator is these components; a search that finds nothing means that
the list has no more components than that.
-/
namespace Tdi.Foundation

variable {α : Type*} {x : α} {p q s : List α}

/-- A list has no separator, or a last one. -/
theorem eq_append_cons_last (h : x ∈ s) : ∃ p q, s = p ++ x :: q ∧ x ∉ q := by
  obtain ⟨q, p, hrev, hq⟩ := List.eq_append_cons_of_mem (List.mem_reverse.mpr h)
  refine ⟨p.reverse, q.reverse, ?_, by simpa using hq⟩
  rw [← List.reverse_reverse s, hrev]
  simp

/-- What holds of a component, and of a list with one more component, holds of every list. -/
@[elab_as_elim]
theorem componentsInduction (x : α) {motive : List α → Prop}
    (component : ∀ q, x ∉ q → motive q)
    (extend : ∀ p q, x ∉ q → motive p → motive (p ++ x :: q)) (s : List α) : motive s := by
  by_cases hx : x ∈ s
  · obtain ⟨p, q, hs, hq⟩ := eq_append_cons_last hx
    have hlt : p.length < s.length := by
      rw [hs, List.length_append, List.length_cons]
      omega
    rw [hs]
    exact extend p q hq (componentsInduction x component extend p)
  · exact component s hx
termination_by s.length

theorem intercalate_append {as bs : List (List α)} (ha : as ≠ []) (hb : bs ≠ []) :
    [x].intercalate (as ++ bs) = [x].intercalate as ++ x :: [x].intercalate bs := by
  induction as with
  | nil => exact absurd rfl ha
  | cons a as ih =>
    cases as with
    | nil => rw [List.singleton_append, List.intercalate_cons_of_ne_nil hb]; simp
    | cons a' as =>
      have hne : a' :: as ++ bs ≠ [] := by simp
      have hne' : a' :: as ≠ [] := by simp
      rw [List.cons_append, List.intercalate_cons_of_ne_nil hne, ih hne',
        List.intercalate_cons_of_ne_nil hne']
      simp only [List.append_assoc]

theorem map_intercalate {β : Type*} (f : α → β) (l : List (List α)) :
    ([x].intercalate l).map f = [f x].intercalate (l.map (List.map f)) := by
  induction l with
  | nil => rfl
  | cons a l ih =>
    rcases eq_or_ne l [] with rfl | hl
    · simp
    · have hmap : l.map (List.map f) ≠ [] := mt List.map_eq_nil_iff.mp hl
      rw [List.map_cons, List.intercalate_cons_of_ne_nil hl,
        List.intercalate_cons_of_ne_nil hmap, ← ih]
      simp

variable [DecidableEq α]

/-- The last place of `x` below `stop`. -/
def rfind (x : α) (s : List α) (stop : ℕ) : Option ℕ :=
  (List.range stop).reverse.find? fun i => s[i]? = some x

/-- Each search starts where the one before ended. -/
def rfindTimes (x : α) (s : List α) : ℕ → ℕ → Option ℕ
  | 0, stop => some stop
  | n + 1, stop =>
    match rfind x s stop with
    | none => none
    | some i => rfindTimes x s n i

/-- `s[i + 1:]`, where nothing is found at `-1`. -/
def sliceAfter (s : List α) : Option ℕ → List α
  | none => s
  | some i => s.drop (i + 1)

/-- The last `n` components of a list. -/
def lastComponents (x : α) (n : ℕ) (s : List α) : List (List α) :=
  (s.splitOn x).drop ((s.splitOn x).length - n)

section Search

theorem rfind_of_not_mem (h : x ∉ p) (q : List α) : rfind x (p ++ q) p.length = none := by
  rw [rfind, List.find?_eq_none]
  intro i hi
  have hlt : i < p.length := by simpa using hi
  rw [List.getElem?_append_left hlt, List.getElem?_eq_getElem hlt]
  simp only [Option.some_inj, decide_eq_true_eq]
  exact fun he => h (he ▸ List.getElem_mem hlt)

theorem rfind_append_cons (h : x ∉ q) (s : List α) :
    rfind x (p ++ x :: (q ++ s)) (p.length + 1 + q.length) = some p.length := by
  induction q using List.reverseRecOn generalizing s with
  | nil =>
    have hrange : List.range (p.length + 1) = List.range p.length ++ [p.length] :=
      List.range_succ
    simp [rfind, hrange]
  | append_singleton q y ih =>
    simp only [List.mem_append, List.mem_singleton, not_or] at h
    obtain ⟨hq, hy⟩ := h
    have hrange : List.range (p.length + 1 + (q ++ [y]).length) =
        List.range (p.length + 1 + q.length) ++ [p.length + 1 + q.length] := by
      rw [List.length_append, List.length_singleton, ← Nat.add_assoc, List.range_succ]
    have hget : (p ++ x :: (q ++ [y] ++ s))[p.length + 1 + q.length]? = some y := by
      rw [List.getElem?_append_right (by omega)]
      have hsub : p.length + 1 + q.length - p.length = q.length + 1 := by omega
      rw [hsub, List.getElem?_cons_succ, List.append_assoc, List.getElem?_append_right le_rfl]
      simp
    have hne : ¬(some y = some x) := fun he => hy (Option.some_inj.mp he).symm
    rw [rfind, hrange, List.reverse_append, List.reverse_singleton, List.singleton_append,
      List.find?_cons_of_neg (by rw [hget]; simpa using hne)]
    rw [List.append_assoc, List.singleton_append]
    exact ih hq (y :: s)

theorem splitOn_append_cons_last (h : x ∉ q) :
    (p ++ x :: q).splitOn x = p.splitOn x ++ [q] := by
  rw [List.splitOn_append_cons_self, List.splitOn_eq_singleton h]

/-- The searches end in nothing exactly when there are not more components than searches,
and otherwise at the end of the components that are left. -/
theorem rfindTimes_eq (x : α) (n : ℕ) (p q : List α) :
    rfindTimes x (p ++ q) n p.length =
      if (p.splitOn x).length ≤ n then none
      else some ([x].intercalate ((p.splitOn x).take ((p.splitOn x).length - n))).length := by
  induction n generalizing p q with
  | zero =>
    have hpos := List.length_pos_iff.mpr (List.splitOn_ne_nil x p)
    rw [rfindTimes, if_neg (by omega), Nat.sub_zero, List.take_length, List.intercalate_splitOn]
  | succ n ih =>
    by_cases hx : x ∈ p
    · obtain ⟨a, b, rfl, hb⟩ := eq_append_cons_last hx
      have hlen : (a ++ x :: b).length = a.length + 1 + b.length := by simp; omega
      have hfind : rfind x (a ++ x :: b ++ q) (a ++ x :: b).length = some a.length := by
        rw [hlen, List.append_assoc, List.cons_append]
        exact rfind_append_cons hb q
      have hcut : (a.splitOn x).length - n ≤ (a.splitOn x).length := Nat.sub_le _ _
      rw [rfindTimes, hfind, splitOn_append_cons_last hb, List.length_append,
        List.length_singleton, Nat.add_sub_add_right, List.take_append_of_le_length hcut]
      simp only [Nat.add_le_add_iff_right]
      rw [List.append_assoc]
      exact ih a (x :: b ++ q)
    · rw [rfindTimes, rfind_of_not_mem hx, List.splitOn_eq_singleton hx, if_pos (by simp)]

/-- What the searches leave behind them is the last components. -/
theorem drop_rfindTimes {n : ℕ} (hn : 1 ≤ n) (s : List α) :
    sliceAfter s (rfindTimes x s n s.length) = [x].intercalate (lastComponents x n s) := by
  have htimes := rfindTimes_eq x n s []
  rw [List.append_nil] at htimes
  rw [htimes, lastComponents]
  split_ifs with hle
  · rw [sliceAfter, Nat.sub_eq_zero_of_le hle, List.drop_zero, List.intercalate_splitOn]
  · have hjoin := List.take_append_drop ((s.splitOn x).length - n) (s.splitOn x)
    have htake : (s.splitOn x).take ((s.splitOn x).length - n) ≠ [] := by
      rw [Ne, List.take_eq_nil_iff, not_or]
      exact ⟨by omega, List.splitOn_ne_nil x s⟩
    have hdrop : (s.splitOn x).drop ((s.splitOn x).length - n) ≠ [] := by
      rw [Ne, List.drop_eq_nil_iff]
      omega
    have hs : s = [x].intercalate ((s.splitOn x).take ((s.splitOn x).length - n)) ++
        x :: [x].intercalate ((s.splitOn x).drop ((s.splitOn x).length - n)) := by
      rw [← intercalate_append htake hdrop, hjoin, List.intercalate_splitOn]
    generalize (s.splitOn x).take ((s.splitOn x).length - n) = as at hs ⊢
    generalize (s.splitOn x).drop ((s.splitOn x).length - n) = bs at hs ⊢
    rw [sliceAfter, hs]
    simp [List.drop_append]

end Search

theorem not_mem_of_mem_splitOn (h : q ∈ s.splitOn x) : x ∉ q := by
  induction s using componentsInduction x with
  | component s hs =>
    rw [List.splitOn_eq_singleton hs, List.mem_singleton] at h
    rwa [h]
  | extend p b hb ih =>
    rw [splitOn_append_cons_last hb, List.mem_append, List.mem_singleton] at h
    rcases h with h | rfl
    · exact ih h
    · exact hb

/-- A function that works piece by piece and leaves the separators alone works on each
component. -/
theorem splitOn_apply {g : List α → List α} (happend : ∀ a b, g (a ++ b) = g a ++ g b)
    (hsep : g [x] = [x]) (hnot : ∀ q, x ∉ q → x ∉ g q) (s : List α) :
    (g s).splitOn x = (s.splitOn x).map g := by
  induction s using componentsInduction x with
  | component s hs =>
    rw [List.splitOn_eq_singleton hs, List.splitOn_eq_singleton (hnot s hs), List.map_singleton]
  | extend p q hq ih =>
    have hg : g (p ++ x :: q) = g p ++ x :: g q := by
      rw [happend, ← List.singleton_append, happend, hsep, List.singleton_append]
    rw [hg, splitOn_append_cons_last (hnot q hq), splitOn_append_cons_last hq, ih,
      List.map_append, List.map_singleton]

end Tdi.Foundation

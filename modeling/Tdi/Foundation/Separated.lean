import Mathlib

/-!
# Lists joined by a separator

Filtering a joined list filters its parts, as long as the separator stays. Removing
an element that is less than all others makes a list greater, provided that
something greater than the element comes after it.
-/
namespace Tdi.Foundation

variable {α : Type*} {x a : α}

theorem filter_intercalate {p : α → Bool} (hp : p x = true) (ls : List (List α)) :
    ([x].intercalate ls).filter p = [x].intercalate (ls.map (List.filter p)) := by
  match ls with
  | [] => rfl
  | [l] => simp
  | l :: m :: ls =>
    have ih := filter_intercalate hp (m :: ls)
    rw [List.map_cons] at ih
    simp [List.intercalate_cons_cons, ih, hp]

theorem intercalate_append_cons (l : List α) (ls ms : List (List α)) (m : List α) :
    [x].intercalate (l :: ls ++ m :: ms) =
      [x].intercalate (l :: ls) ++ x :: [x].intercalate (m :: ms) := by
  induction ls generalizing l with
  | nil => simp [List.intercalate_cons_cons]
  | cons l' ls ih =>
    have h := ih l'
    simp only [List.cons_append, List.intercalate_cons_cons] at h ⊢
    rw [h]
    simp

theorem mem_intercalate {ls : List (List α)} (h : a ∈ [x].intercalate ls) :
    a = x ∨ ∃ l ∈ ls, a ∈ l := by
  match ls with
  | [] => cases h
  | [l] => exact .inr ⟨l, by simp, by simpa using h⟩
  | l :: m :: ls =>
    rw [List.intercalate_cons_cons, List.mem_append, List.mem_append] at h
    rcases h with (h | h) | h
    · exact .inr ⟨l, by simp, h⟩
    · exact .inl (by simpa using h)
    · rcases mem_intercalate h with h | ⟨n, hn, h⟩
      · exact .inl h
      · exact .inr ⟨n, List.mem_cons_of_mem l hn, h⟩

theorem lt_filter_append [LinearOrder α] {d : α} {l r : List α} {c : α} (hc : d < c)
    (h : ∀ a ∈ l, a = d ∨ d < a) : l < l.filter (· ≠ d) ++ c :: r := by
  induction l with
  | nil => exact List.nil_lt_cons c r
  | cons a l ih =>
    rw [List.forall_mem_cons] at h
    rcases h.1 with rfl | ha
    · have hhead : ∃ b m, l.filter (· ≠ a) ++ c :: r = b :: m ∧ a < b := by
        cases hl : l.filter (· ≠ a) with
        | nil => exact ⟨c, r, rfl, hc⟩
        | cons b m =>
          have hb : b ∈ l.filter (· ≠ a) := hl ▸ List.mem_cons_self
          obtain ⟨hmem, hne⟩ := List.mem_filter.mp hb
          exact ⟨b, m ++ c :: r, rfl, (h.2 b hmem).resolve_left (by simpa using hne)⟩
      obtain ⟨b, m, hm, hb⟩ := hhead
      rw [List.filter_cons_of_neg (by simp), hm, List.cons_lt_cons_iff]
      exact .inl hb
    · have hne : a ≠ d := ha.ne'
      rw [List.filter_cons_of_pos (by simpa using hne), List.cons_append, List.cons_lt_cons_iff]
      exact .inr ⟨rfl, ih h.2⟩

end Tdi.Foundation

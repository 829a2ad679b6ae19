import Mathlib
import Tdi.Foundation.Tails

/-!
# Words of a text

The words of a text are its maximal parts without the separator. Joining words by
single separators is inverted by taking words when no word is empty and none has
the separator in it; taking words and joining them again leaves a text without
separators at its ends and with one separator in the place of each run.
-/
namespace Tdi.Foundation

variable {α : Type*} [DecidableEq α] {sep : α}

def words (sep : α) (text : List α) : List (List α) :=
  (text.splitOn sep).filter (· ≠ [])

/-- A text with each run of separators replaced by one. -/
def squeeze (sep : α) : List α → List α
  | [] => []
  | x :: text =>
    if x = sep ∧ text.head? = some sep then squeeze sep text else x :: squeeze sep text

/-- A text without the separators at its two ends and with one in the place of each run. -/
def tidy (sep : α) (text : List α) : List α :=
  squeeze sep ((trim sep text).dropWhile (· == sep))

/-- A list that is one of the words of some text. -/
def IsWord (sep : α) (word : List α) : Prop := word ≠ [] ∧ sep ∉ word

instance (word : List α) : Decidable (IsWord sep word) := inferInstanceAs (Decidable (_ ∧ _))

theorem isWord_of_mem_words {word text : List α} (h : word ∈ words sep text) :
    IsWord sep word := by
  obtain ⟨hmem, hne⟩ := List.mem_filter.mp h
  exact ⟨of_decide_eq_true hne, sep_not_mem_of_mem_splitOn hmem⟩

@[simp] theorem words_nil : words sep [] = [] := by simp [words]

@[simp] theorem words_sep_cons (text : List α) : words sep (sep :: text) = words sep text := by
  simp [words, List.splitOn_cons_eq_if_modifyHead]

theorem words_eq_singleton {word : List α} (h : IsWord sep word) : words sep word = [word] := by
  simp [words, List.splitOn_eq_singleton h.2, h.1]

theorem words_append_sep_cons {word : List α} (h : IsWord sep word) (text : List α) :
    words sep (word ++ sep :: text) = word :: words sep text := by
  simp [words, List.splitOn_append_cons_self_of_not_mem h.2, h.1]

/-- A text is empty, starts with a separator, is a word, or is a word with a separator and
a text after it. -/
@[elab_as_elim]
theorem word_induction (sep : α) {motive : List α → Prop} (nil : motive [])
    (skip : ∀ text, motive text → motive (sep :: text))
    (last : ∀ word, IsWord sep word → motive word)
    (more : ∀ word text, IsWord sep word → motive text → motive (word ++ sep :: text))
    (text : List α) : motive text := by
  induction hn : text.length using Nat.strong_induction_on generalizing text with
  | _ n ih =>
    subst hn
    by_cases hmem : sep ∈ text
    · obtain ⟨word, rest, rfl, hword⟩ := List.eq_append_cons_of_mem hmem
      have hrest : motive rest := ih rest.length (by simp; omega) rest rfl
      by_cases hne : word = []
      · subst hne
        exact skip rest hrest
      · exact more word rest ⟨hne, hword⟩ hrest
    · by_cases hne : text = []
      · exact hne ▸ nil
      · exact last text ⟨hne, hmem⟩

/-- Joining by separators and taking words give the same list back exactly for words. -/
theorem words_intercalate_iff {ws : List (List α)} :
    words sep ([sep].intercalate ws) = ws ↔ ∀ word ∈ ws, IsWord sep word := by
  constructor
  · intro h word hmem
    rw [← h] at hmem
    exact isWord_of_mem_words hmem
  · intro h
    by_cases hws : ws = []
    · simp [hws, words]
    · have hsplit := List.splitOn_intercalate sep (fun word hmem => (h word hmem).2) hws
      rw [words, hsplit, List.filter_eq_self]
      intro word hmem
      simpa using (h word hmem).1

omit [DecidableEq α] in
theorem intercalate_cons_eq (word : List α) (ws : List (List α)) :
    [sep].intercalate (word :: ws) = word ++ ws.flatMap (sep :: ·) := by
  induction ws generalizing word with
  | nil => simp
  | cons next ws ih => rw [List.intercalate_cons_cons, ih]; simp

section Tidy

theorem squeeze_append {word : List α} (h : sep ∉ word) (text : List α) :
    squeeze sep (word ++ text) = word ++ squeeze sep text := by
  induction word with
  | nil => rfl
  | cons x word ih =>
    obtain ⟨hx, hword⟩ := not_or.mp (mt List.mem_cons.mpr h)
    have hne : ¬(x = sep ∧ (word ++ text).head? = some sep) := fun hand => hx hand.1.symm
    rw [List.cons_append, squeeze, if_neg hne, ih hword, List.cons_append]

theorem squeeze_sep_cons {text : List α} (h : text.dropWhile (· == sep) ≠ []) :
    squeeze sep (sep :: text) = sep :: squeeze sep (text.dropWhile (· == sep)) := by
  induction text with
  | nil => exact absurd rfl h
  | cons x text ih =>
    by_cases hx : x = sep
    · subst hx
      have hdrop : (x :: text).dropWhile (· == x) = text.dropWhile (· == x) := by simp
      rw [hdrop] at h ⊢
      rw [squeeze, if_pos (by simp), ih h]
    · have hdrop : (x :: text).dropWhile (· == sep) = x :: text := by simp [hx]
      rw [hdrop, squeeze, if_neg (by simpa using hx)]

theorem dropWhile_append_of_isWord {word : List α} (h : IsWord sep word) (text : List α) :
    (word ++ text).dropWhile (· == sep) = word ++ text := by
  obtain ⟨x, tail, rfl⟩ := List.exists_cons_of_ne_nil h.1
  have hx : x ≠ sep := fun he => h.2 (by simp [he])
  simp [hx]

theorem dropWhile_trim_ne_nil {text : List α} (h : trim sep text ≠ []) :
    (trim sep text).dropWhile (· == sep) ≠ [] := by
  intro hdrop
  have hall := List.dropWhile_eq_nil_iff.mp hdrop
  exact List.rdropWhile_last_not _ _ h (hall _ (List.getLast_mem h))

@[simp] theorem tidy_nil : tidy sep [] = [] := by simp [tidy, trim, squeeze]

theorem tidy_word {word : List α} (h : IsWord sep word) : tidy sep word = word := by
  have hdrop := dropWhile_append_of_isWord h []
  have hsq := squeeze_append h.2 []
  rw [List.append_nil] at hdrop hsq
  rw [tidy, trim_of_not_mem h.2, hdrop, hsq, squeeze, List.append_nil]

theorem trim_sep_cons (text : List α) :
    trim sep (sep :: text) = if trim sep text = [] then [] else sep :: trim sep text := by
  split_ifs with h
  · exact trim_append_cons_of_eq_nil (t := []) List.not_mem_nil h
  · exact trim_append_cons_of_ne_nil (t := []) h

@[simp] theorem tidy_sep_cons (text : List α) : tidy sep (sep :: text) = tidy sep text := by
  unfold tidy
  rw [trim_sep_cons]
  split_ifs with h
  · rw [h]
  · simp

theorem tidy_eq_nil_iff {text : List α} : tidy sep text = [] ↔ trim sep text = [] := by
  constructor
  · intro h
    by_contra hne
    obtain ⟨x, rest, hx⟩ := List.exists_cons_of_ne_nil (dropWhile_trim_ne_nil hne)
    have hhead : x ≠ sep := by
      have := List.head_dropWhile_not (· == sep) (dropWhile_trim_ne_nil hne)
      simpa [hx] using this
    rw [tidy, hx, squeeze, if_neg (fun hand => hhead hand.1)] at h
    cases h
  · intro h
    simp [tidy, h, squeeze]

theorem tidy_append_sep_cons {word : List α} (h : IsWord sep word) (text : List α) :
    tidy sep (word ++ sep :: text) =
      if tidy sep text = [] then word else word ++ sep :: tidy sep text := by
  split_ifs with hnil
  · rw [tidy, trim_append_cons_of_eq_nil h.2 (tidy_eq_nil_iff.mp hnil)]
    have hword := tidy_word h
    rwa [tidy, trim_of_not_mem h.2] at hword
  · have htrim : trim sep text ≠ [] := mt tidy_eq_nil_iff.mpr hnil
    rw [tidy, trim_append_cons_of_ne_nil htrim, dropWhile_append_of_isWord h,
      squeeze_append h.2, squeeze_sep_cons (dropWhile_trim_ne_nil htrim)]
    rfl

/-- Joining the words of a text by single separators tidies the text. -/
theorem intercalate_words (text : List α) : [sep].intercalate (words sep text) = tidy sep text := by
  induction text using word_induction sep with
  | nil => simp
  | skip text ih => rw [words_sep_cons, tidy_sep_cons, ih]
  | last word hword => rw [words_eq_singleton hword, tidy_word hword, List.intercalate_singleton]
  | more word text hword ih =>
    rw [words_append_sep_cons hword, tidy_append_sep_cons hword, ← ih]
    cases hws : words sep text with
    | nil => simp
    | cons first rest =>
      have hfirst : IsWord sep first := isWord_of_mem_words (hws ▸ List.mem_cons_self)
      have hne : [sep].intercalate (first :: rest) ≠ [] := by
        cases rest <;> simp [hfirst.1]
      rw [if_neg hne, List.intercalate_cons_cons]
      simp

end Tidy

end Tdi.Foundation

import Mathlib

/-!
# Names in Python

The words that Python keeps for itself, and the strings that it takes as a name.
-/
namespace Tdi.Cli

def pythonKeywords : List String :=
  ["False", "None", "True", "and", "as", "assert", "async", "await", "break", "class", "continue",
   "def", "del", "elif", "else", "except", "finally", "for", "from", "global", "if", "import", "in",
   "is", "lambda", "nonlocal", "not", "or", "pass", "raise", "return", "try", "while", "with",
   "yield"]

/-- `str.isidentifier`, of a string that is decoded as ASCII -/
def isidentifier (s : String) : Bool :=
  match s.toList with
  | [] => false
  | c :: r => !c.isDigit && (c :: r).all fun d => d.isAlphanum || d == '_'

/-- What a definition cannot have as a parameter although it is an identifier. -/
def reservedWords : List String := pythonKeywords ++ ["__debug__"]

/-- A name that a definition can have as a parameter. -/
def isParameter (s : String) : Bool := isidentifier s && !reservedWords.contains s

theorem isParameter_iff {s : String} :
    isParameter s = true ↔ isidentifier s = true ∧ s ∉ reservedWords := by
  simp [isParameter]

theorem isAlphanum_or_underscore {s : String} (h : isidentifier s = true) {c : Char}
    (hc : c ∈ s.toList) : (c.isAlphanum || c == '_') = true := by
  unfold isidentifier at h
  split at h
  next => cases h
  next d r hs =>
    rw [Bool.and_eq_true, List.all_eq_true] at h
    exact h.2 c (hs ▸ hc)

/-- What follows an identifier may begin with a digit. -/
theorem isidentifier_append {s t : String} (hs : isidentifier s = true)
    (ht : ∀ c ∈ t.toList, (c.isAlphanum || c == '_') = true) : isidentifier (s ++ t) = true := by
  unfold isidentifier at hs ⊢
  rw [String.toList_append]
  cases hlist : s.toList with
  | nil => simp [hlist] at hs
  | cons c r =>
    simp only [hlist, Bool.and_eq_true] at hs
    simp only [List.cons_append, Bool.and_eq_true]
    refine ⟨hs.1, ?_⟩
    rw [← List.cons_append, List.all_append, Bool.and_eq_true]
    exact ⟨hs.2, List.all_eq_true.mpr ht⟩

theorem isidentifier_intercalate {l : List (List Char)} (hne : l ≠ [])
    (hl : ∀ p ∈ l, isidentifier (String.ofList p) = true) :
    isidentifier (String.ofList (['_'].intercalate l)) = true := by
  induction l with
  | nil => exact absurd rfl hne
  | cons p l ih =>
    rw [List.forall_mem_cons] at hl
    rcases eq_or_ne l [] with rfl | hrest
    · simpa using hl.1
    · have htail := ih hrest hl.2
      rw [List.intercalate_cons_of_ne_nil hrest, List.append_assoc, String.ofList_append]
      apply isidentifier_append hl.1
      intro c hc
      rw [String.toList_ofList, List.singleton_append, List.mem_cons] at hc
      rcases hc with rfl | hc
      · decide
      · exact isAlphanum_or_underscore htail (by simpa using hc)

end Tdi.Cli

import Tdi.Json.Document
import Tdi.Json.InfoParser

/-!
# Annotations as pairs of texts

Annotations are compared by the text `name.value`. Two pairs have that text in common
without being the same when a dotted part goes from the front of the one value to the
end of the other name, and only then; of such a pair a set keeps the one listed first.
-/
namespace Tdi.Json

open Foundation Cjson

namespace Annotation

/-- `operator<` -/
def less (a b : Annotation) : Prop := a.fullName < b.fullName

/-- `operator==` -/
def equals (a b : Annotation) : Prop := a.fullName = b.fullName

instance (a b : Annotation) : Decidable (a.less b) := inferInstanceAs (Decidable (_ < _))

instance (a b : Annotation) : Decidable (a.equals b) := inferInstanceAs (Decidable (_ = _))

/-- The value of `a` begins with a part and a dot that in `b` are a dot and a part at the end
of the name. -/
def Shifts (a b : Annotation) : Prop :=
  ∃ part, b.name = a.name ++ "." ++ part ∧ a.value = part ++ "." ++ b.value

theorem equals_of_shifts {a b : Annotation} (h : a.Shifts b) : a.equals b := by
  obtain ⟨part, hname, hvalue⟩ := h
  simp only [equals, fullName, hname, hvalue, String.append_assoc]

theorem ne_of_shifts {a b : Annotation} (h : a.Shifts b) : a ≠ b := by
  obtain ⟨part, hname, _⟩ := h
  rintro rfl
  have hlen := congrArg String.length hname
  simp only [String.length_append] at hlen
  have hdot : ".".length = 1 := rfl
  omega

theorem shifts_of_append {a b : Annotation} {tail : List Char}
    (hname : b.name.toList = a.name.toList ++ tail)
    (hvalue : '.' :: a.value.toList = tail ++ '.' :: b.value.toList) : a = b ∨ a.Shifts b := by
  cases tail with
  | nil =>
    left
    have hn : a.name = b.name := String.toList_inj.mp (by simpa using hname.symm)
    have hv : a.value = b.value := String.toList_inj.mp (by simpa using hvalue)
    cases a; cases b
    simp_all
  | cons c tail =>
    right
    simp only [List.cons_append, List.cons.injEq] at hvalue
    obtain ⟨rfl, hvalue⟩ := hvalue
    refine ⟨String.ofList tail, ?_, ?_⟩
    · rw [← String.toList_inj]
      simpa using hname
    · rw [← String.toList_inj]
      simpa using hvalue

/-- Annotations are equal to the program exactly when they are the same or one shifts a part
of the other. -/
theorem equals_iff (a b : Annotation) : a.equals b ↔ a = b ∨ a.Shifts b ∨ b.Shifts a := by
  constructor
  · intro h
    have hlist :
        a.name.toList ++ '.' :: a.value.toList = b.name.toList ++ '.' :: b.value.toList := by
      have := congrArg String.toList h
      simpa [fullName] using this
    rcases List.append_eq_append_iff.mp hlist with ⟨tail, hname, hvalue⟩ | ⟨tail, hname, hvalue⟩
    · exact (shifts_of_append hname hvalue).imp_right .inl
    · exact (shifts_of_append hname hvalue).symm.elim (fun hs => .inr (.inr hs))
        fun he => .inl he.symm
  · rintro (rfl | h | h)
    · rfl
    · exact equals_of_shifts h
    · exact (equals_of_shifts h).symm

theorem equals_iff_not_less (a b : Annotation) : a.equals b ↔ ¬a.less b ∧ ¬b.less a := by
  unfold equals less
  rw [not_lt, not_lt, and_comm, le_antisymm_iff]

theorem less_isStrictWeakOrder : IsStrictWeakOrder Annotation less where
  irrefl a := lt_irrefl a.fullName
  trans a b c := lt_trans
  incomp_trans a b c hab hbc := by
    rw [← equals_iff_not_less] at hab hbc ⊢
    exact hab.trans hbc

/-- Comparing two annotations tells whether they are the same pair. -/
def ComparedAsPairs (a b : Annotation) : Prop :=
  (a.equals b ↔ a.name = b.name ∧ a.value = b.value) ∧
    (¬a.less b ∧ ¬b.less a ↔ a.name = b.name ∧ a.value = b.value)

theorem eq_iff (a b : Annotation) : a = b ↔ a.name = b.name ∧ a.value = b.value := by
  cases a
  cases b
  simp

theorem comparedAsPairs_iff (a b : Annotation) :
    a.ComparedAsPairs b ↔ ¬a.Shifts b ∧ ¬b.Shifts a := by
  rw [ComparedAsPairs, ← equals_iff_not_less, and_self_iff, ← eq_iff]
  constructor
  · intro h
    constructor
    · exact fun hs => ne_of_shifts hs (h.mp (equals_of_shifts hs))
    · exact fun hs => ne_of_shifts hs (h.mp (equals_of_shifts hs).symm).symm
  · rintro ⟨hab, hba⟩
    simp [equals_iff, hab, hba]

end Annotation

section Sets

open Annotation

variable {Node : Type} (lib : CjsonApi Node)

/-- The annotations that a list of objects spells out. -/
def listedAnnotations (annotationCjson : Cjson Node) : List Annotation :=
  (getCjsonChildVec lib annotationCjson).map fun annotation =>
    ⟨toStr lib (item lib annotation "name"), toStr lib (item lib annotation "value")⟩

/-- The set has an annotation exactly when the list has an object with its name and value. -/
def AnnotationsFaithful (annotationCjson : Cjson Node) : Prop :=
  ∀ name value, ⟨name, value⟩ ∈ (parseAnnotations lib annotationCjson).values ↔
    ∃ annotation ∈ getCjsonChildVec lib annotationCjson,
      toStr lib (item lib annotation "name") = name ∧
        toStr lib (item lib annotation "value") = value

theorem annotationsFaithful_iff (annotationCjson : Cjson Node) :
    AnnotationsFaithful lib annotationCjson ↔
      ∀ a ∈ listedAnnotations lib annotationCjson,
        ∀ b ∈ listedAnnotations lib annotationCjson, ¬a.Shifts b := by
  have hlisted : ∀ a : Annotation, (∃ annotation ∈ getCjsonChildVec lib annotationCjson,
      toStr lib (item lib annotation "name") = a.name ∧
        toStr lib (item lib annotation "value") = a.value) ↔
      a ∈ listedAnnotations lib annotationCjson := by
    intro a
    simp only [listedAnnotations, List.mem_map, eq_iff]
  have hfaithful : AnnotationsFaithful lib annotationCjson ↔
      ∀ a, a ∈ (parseAnnotations lib annotationCjson).values ↔
        a ∈ listedAnnotations lib annotationCjson :=
    ⟨fun h a => (h a.name a.value).trans (hlisted a),
      fun h name value => (h ⟨name, value⟩).trans (hlisted ⟨name, value⟩).symm⟩
  refine hfaithful.trans (KeyedMap.mem_values_addAll_empty_iff.trans ?_)
  constructor
  · intro h a ha b hb hs
    exact ne_of_shifts hs (h a ha b hb (equals_of_shifts hs))
  · intro h a ha b hb hkey
    rcases (equals_iff a b).mp hkey with heq | hs | hs
    · exact heq
    · exact absurd hs (h a ha b hb)
    · exact absurd hs (h b hb a ha)

/-- A set of annotations is faithful, and two annotations compare as the pairs they are,
exactly when no part is shifted from a value to a name. The order is always a strict weak
order. -/
theorem annotations_faithful_iff :
    (∀ annotationCjson : Cjson Node, AnnotationsFaithful lib annotationCjson ↔
      ∀ a ∈ listedAnnotations lib annotationCjson,
        ∀ b ∈ listedAnnotations lib annotationCjson, ¬a.Shifts b) ∧
    (∀ a b : Annotation, a.ComparedAsPairs b ↔ ¬a.Shifts b ∧ ¬b.Shifts a) ∧
    IsStrictWeakOrder Annotation Annotation.less :=
  ⟨annotationsFaithful_iff lib, comparedAsPairs_iff,
    less_isStrictWeakOrder⟩

/-- The annotations `("a.b", "c")` and `("a", "b.c")` in one list: the second is lost. -/
def shiftedAnnotations : Document :=
  .array [.object [("name", .string "a.b"), ("value", .string "c")],
    .object [("name", .string "a"), ("value", .string "b.c")]]

theorem shiftedAnnotations_not_faithful :
    ¬AnnotationsFaithful Document.api (some shiftedAnnotations) ∧
      ¬(⟨"a.b", "c"⟩ : Annotation).ComparedAsPairs ⟨"a", "b.c"⟩ := by
  have hshifts : (⟨"a", "b.c"⟩ : Annotation).Shifts ⟨"a.b", "c"⟩ := ⟨"b", by decide, by decide⟩
  have hlisted : listedAnnotations Document.api (some shiftedAnnotations) =
      [⟨"a.b", "c"⟩, ⟨"a", "b.c"⟩] := by decide
  constructor
  · rw [annotationsFaithful_iff, hlisted]
    intro h
    exact h _ (by simp) _ (by simp) hshifts
  · rw [comparedAsPairs_iff]
    exact fun h => h.2 hshifts

end Sets
end Tdi.Json

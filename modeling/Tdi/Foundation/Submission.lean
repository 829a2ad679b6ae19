import Mathlib

/-!
# Submitting entries until one stops the loop

A loop reads entries one after the other, makes a call for each that can be read, and is
left at the first entry that cannot be read and after the first call that is rejected.
Whether a call is rejected may depend on the calls before it. What the loop submits is a
longest beginning of the entries; it is also the longest beginning of good ones exactly
when no entry that the loop gets to and reads is a bad one.
-/
namespace Tdi.Foundation

variable {E C : Type*} (parse : E → Option C) (accepts : List C → C → Bool)

/-- The calls that are made after some others. -/
def submitFrom (made : List C) : List E → List C
  | [] => []
  | e :: es =>
    match parse e with
    | none => []
    | some c => c :: if accepts made c = true then submitFrom (made ++ [c]) es else []

/-- The calls are those for the longest beginning of the entries that are good and can be
read, up to and including the first that is rejected. -/
structure SubmitsGood (good : E → Prop) (made : List C) (es : List E) (calls : List C) :
    Prop where
  read : ∃ sent rest, es = sent ++ rest ∧
    List.Forall₂ (fun e c => good e ∧ parse e = some c) sent calls ∧
    ∀ e tail, rest = e :: tail → ¬(good e ∧ (parse e).isSome = true) ∨
      ∃ pre last, calls = pre ++ [last] ∧ accepts (made ++ pre) last = false
  accepted : ∀ pre c post, calls = pre ++ c :: post → post ≠ [] → accepts (made ++ pre) c = true

/-- The calls made for entries that can all be read, when all of them are accepted. -/
def acceptedFrom (made : List C) : List E → Option (List C)
  | [] => some made
  | e :: es =>
    match parse e with
    | none => none
    | some c => if accepts made c = true then acceptedFrom (made ++ [c]) es else none

variable {parse accepts} {good : E → Prop} {made : List C} {e : E} {es : List E} {c : C}

theorem submitFrom_cons_of_none (h : parse e = none) :
    submitFrom parse accepts made (e :: es) = [] := by
  simp [submitFrom, h]

theorem submitFrom_cons_of_some (h : parse e = some c) :
    submitFrom parse accepts made (e :: es) =
      c :: if accepts made c = true then submitFrom parse accepts (made ++ [c]) es else [] := by
  simp [submitFrom, h]

section Spec

theorem SubmitsGood.nil (made : List C) : SubmitsGood parse accepts good made [] [] where
  read := ⟨[], [], rfl, .nil, nofun⟩
  accepted pre c post h := by simp at h

theorem SubmitsGood.stop (h : ¬(good e ∧ (parse e).isSome = true)) :
    SubmitsGood parse accepts good made (e :: es) [] where
  read := by
    refine ⟨[], e :: es, rfl, .nil, ?_⟩
    rintro e' tail heq
    cases heq
    exact .inl h
  accepted pre c post h := by simp at h

theorem SubmitsGood.rejected (hgood : good e) (hparse : parse e = some c)
    (hreject : accepts made c = false) : SubmitsGood parse accepts good made (e :: es) [c] where
  read := by
    refine ⟨[e], es, rfl, .cons ⟨hgood, hparse⟩ .nil, ?_⟩
    rintro e' tail -
    exact .inr ⟨[], c, rfl, by simpa using hreject⟩
  accepted pre c' post h hpost := by
    have hlen := congrArg List.length h
    have hpos := List.length_pos_iff.mpr hpost
    simp at hlen
    omega

theorem SubmitsGood.cons (hgood : good e) (hparse : parse e = some c)
    (haccept : accepts made c = true) {calls : List C}
    (h : SubmitsGood parse accepts good (made ++ [c]) es calls) :
    SubmitsGood parse accepts good made (e :: es) (c :: calls) where
  read := by
    obtain ⟨sent, rest, rfl, hread, hstop⟩ := h.read
    refine ⟨e :: sent, rest, rfl, .cons ⟨hgood, hparse⟩ hread, ?_⟩
    intro e' tail heq
    refine (hstop e' tail heq).imp_right ?_
    rintro ⟨pre, last, rfl, hlast⟩
    exact ⟨c :: pre, last, rfl, by simpa using hlast⟩
  accepted pre c' post heq hpost := by
    cases pre with
    | nil =>
      cases heq
      simpa using haccept
    | cons c'' pre =>
      cases heq
      simpa using h.accepted pre c' post rfl hpost

/-- Every entry that is submitted is good. -/
theorem SubmitsGood.good_of_mem_take {calls : List C}
    (h : SubmitsGood parse accepts good made es calls) : ∀ e ∈ es.take calls.length, good e := by
  obtain ⟨sent, rest, rfl, hread, -⟩ := h.read
  rw [← hread.length_eq, List.take_left]
  intro e he
  obtain ⟨i, hi, rfl⟩ := List.getElem_of_mem he
  exact (hread.get hi (hread.length_eq ▸ hi)).1

end Spec

section Loop

/-- The loop submits the longest beginning that it can read. -/
theorem submitsGood_submitFrom (made : List C) (es : List E) (hgood : ∀ e ∈ es.take
    (submitFrom parse accepts made es).length, good e) :
    SubmitsGood parse accepts good made es (submitFrom parse accepts made es) := by
  induction es generalizing made with
  | nil => exact .nil made
  | cons e es ih =>
    cases hparse : parse e with
    | none =>
      rw [submitFrom_cons_of_none hparse]
      exact .stop (by simp [hparse])
    | some c =>
      rw [submitFrom_cons_of_some hparse] at hgood ⊢
      simp only [List.length_cons, List.take_succ_cons, List.forall_mem_cons] at hgood
      obtain ⟨he, hes⟩ := hgood
      split_ifs at hes ⊢ with haccept
      · exact .cons he hparse haccept (ih _ hes)
      · exact .rejected he hparse (by simpa using haccept)

/-- The loop gets to the first entry, and to a later one only past an accepted call. -/
theorem forall_reached_cons_iff (made : List C) (e : E) (es : List E) :
    (∀ pre e' post, e :: es = pre ++ e' :: post →
      (acceptedFrom parse accepts made pre).isSome = true → (parse e').isSome = true →
        good e') ↔
      ((parse e).isSome = true → good e) ∧ ∀ c, parse e = some c → accepts made c = true →
        ∀ pre e' post, es = pre ++ e' :: post →
          (acceptedFrom parse accepts (made ++ [c]) pre).isSome = true →
            (parse e').isSome = true → good e' := by
  constructor
  · intro h
    refine ⟨h [] e es rfl rfl, ?_⟩
    intro c hc haccept pre e' post heq hpre
    apply h (e :: pre) e' post (by rw [heq]; rfl)
    simpa [acceptedFrom, hc, haccept] using hpre
  · rintro ⟨hfirst, hrest⟩ pre e' post heq hpre
    cases pre with
    | nil =>
      cases heq
      exact hfirst
    | cons e'' pre =>
      cases heq
      cases hparse : parse e with
      | none => simp [acceptedFrom, hparse] at hpre
      | some c =>
        by_cases haccept : accepts made c = true
        · apply hrest c hparse haccept pre e' post rfl
          simpa [acceptedFrom, hparse, haccept] using hpre
        · simp [acceptedFrom, hparse, haccept] at hpre

/-- An entry is submitted exactly when it can be read and all calls before are accepted. -/
theorem forall_mem_take_submitFrom_iff (made : List C) (es : List E) :
    (∀ e ∈ es.take (submitFrom parse accepts made es).length, good e) ↔
      ∀ pre e post, es = pre ++ e :: post → (acceptedFrom parse accepts made pre).isSome = true →
        (parse e).isSome = true → good e := by
  induction es generalizing made with
  | nil =>
    refine iff_of_true (by simp) ?_
    intro pre e post h
    simp at h
  | cons e es ih =>
    rw [forall_reached_cons_iff]
    cases hparse : parse e with
    | none =>
      rw [submitFrom_cons_of_none hparse]
      simp
    | some c =>
      rw [submitFrom_cons_of_some hparse, List.length_cons, List.take_succ_cons,
        List.forall_mem_cons]
      simp only [Option.isSome_some, forall_const, Option.some.injEq, forall_eq']
      by_cases haccept : accepts made c = true
      · rw [if_pos haccept, ih]
        simp only [haccept, forall_const]
      · simp [haccept]

/-- The loop submits the longest beginning of good entries exactly when every entry that it
gets to and reads is good. -/
theorem submitsGood_submitFrom_iff (made : List C) (es : List E) :
    SubmitsGood parse accepts good made es (submitFrom parse accepts made es) ↔
      ∀ pre e post, es = pre ++ e :: post → (acceptedFrom parse accepts made pre).isSome = true →
        (parse e).isSome = true → good e := by
  rw [← forall_mem_take_submitFrom_iff]
  exact ⟨SubmitsGood.good_of_mem_take, submitsGood_submitFrom made es⟩

end Loop
end Tdi.Foundation

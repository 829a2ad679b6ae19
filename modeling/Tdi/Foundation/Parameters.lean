import Mathlib

/-!
# Names of parameters

A family of names is made by appending endings to a base, where the empty ending gives the
base itself. When no ending ends another one, the base and the ending can be read off a
name with a proper ending. Two families with different bases then share a name only if the
base of one is a name of the other.

The names are also the parameters of a function, and a call gives each of them the argument
at its place.
-/
namespace Tdi.Foundation

/-- No ending ends another one. -/
def EndingFree (endings : List String) : Prop :=
  ∀ s ∈ endings, ∀ t ∈ endings, s.toList <:+ t.toList → s = t

instance (endings : List String) : Decidable (EndingFree endings) :=
  inferInstanceAs (Decidable (∀ s ∈ endings, ∀ t ∈ endings, _ → _))

section Endings

variable {endings : List String} {a b s t : String}

theorem append_inj_of_endingFree (h : EndingFree endings) (hs : s ∈ endings) (ht : t ∈ endings)
    (he : a ++ s = b ++ t) : a = b := by
  have hlist : a.toList ++ s.toList = b.toList ++ t.toList := by
    rw [← String.toList_append, he, String.toList_append]
  have hst : s = t := by
    rcases List.suffix_or_suffix_of_suffix (List.suffix_append a.toList s.toList)
      (hlist ▸ List.suffix_append b.toList t.toList) with h' | h'
    · exact h s hs t ht h'
    · exact (h t ht s hs h').symm
  rw [hst] at hlist
  exact String.toList_inj.mp (List.append_cancel_right hlist)

theorem append_ne_self (hs : s ≠ "") : a ≠ a ++ s := by
  intro he
  have hboth : a ++ "" = a ++ s := by rw [← he, String.append_empty]
  exact hs ((String.append_right_inj a).mp hboth).symm

/-- Two families with different bases share a name only if the base of one has a proper ending
of the other. -/
theorem disjoint_endings_iff (h : EndingFree endings) (hab : a ≠ b) {ss ts : List String}
    (hss : ∀ s ∈ ss, s ≠ "" → s ∈ endings) (hts : ∀ t ∈ ts, t ≠ "" → t ∈ endings) :
    (ss.map (a ++ ·)).Disjoint (ts.map (b ++ ·)) ↔
      ("" ∈ ss → ∀ t ∈ ts, t ≠ "" → a ≠ b ++ t) ∧ ("" ∈ ts → ∀ s ∈ ss, s ≠ "" → b ≠ a ++ s) := by
  constructor
  · intro hdisjoint
    constructor
    · intro hown t ht _ he
      exact hdisjoint (List.mem_map.mpr ⟨"", hown, String.append_empty⟩)
        (List.mem_map.mpr ⟨t, ht, he.symm⟩)
    · intro hown s hs _ he
      exact hdisjoint (List.mem_map.mpr ⟨s, hs, he.symm⟩)
        (List.mem_map.mpr ⟨"", hown, String.append_empty⟩)
  · rintro ⟨hleft, hright⟩ x hx hx'
    obtain ⟨s, hs, rfl⟩ := List.mem_map.mp hx
    obtain ⟨t, ht, he⟩ := List.mem_map.mp hx'
    by_cases hs' : s = ""
    · rw [hs'] at hs he
      rw [String.append_empty] at he
      by_cases ht' : t = ""
      · rw [ht', String.append_empty] at he
        exact hab he.symm
      · exact hleft hs t ht ht' he.symm
    · by_cases ht' : t = ""
      · rw [ht'] at ht he
        rw [String.append_empty] at he
        exact hright ht s hs hs' he
      · exact hab (append_inj_of_endingFree h (hts t ht ht') (hss s hs hs') he).symm

/-- The names of all families differ exactly when no base is a name of another family. -/
theorem nodup_flatMap_endings {ι : Type*} {fields : List ι} {base : ι → String}
    {suffixes : ι → List String} (h : EndingFree endings) (hbase : (fields.map base).Nodup)
    (hnodup : ∀ f ∈ fields, (suffixes f).Nodup)
    (hendings : ∀ f ∈ fields, ∀ s ∈ suffixes f, s ≠ "" → s ∈ endings) :
    (fields.flatMap fun f => (suffixes f).map (base f ++ ·)).Nodup ↔
      ∀ f ∈ fields, "" ∈ suffixes f → ∀ g ∈ fields, ∀ s ∈ suffixes g, s ≠ "" →
        base f ≠ base g ++ s := by
  have hdiff : ∀ f ∈ fields, ∀ g ∈ fields, f ≠ g → base f ≠ base g :=
    fun f hf g hg hfg hsame => hfg (List.inj_on_of_nodup_map hbase hf hg hsame)
  rw [List.nodup_flatMap]
  constructor
  · rintro ⟨-, hdisjoint⟩ f hf hown g hg s hs hne he
    have hfg : f ≠ g := by
      rintro rfl
      exact append_ne_self hne he
    have hsymm : Std.Symm (Function.onFun List.Disjoint fun f =>
        (suffixes f).map (base f ++ ·)) := ⟨fun _ _ hd => hd.symm⟩
    have hpair := disjoint_endings_iff h (hdiff f hf g hg hfg) (hendings f hf) (hendings g hg)
    exact (hpair.mp (hdisjoint.forall hf hg hfg)).1 hown s hs hne he
  · intro hclash
    constructor
    · intro f hf
      apply (hnodup f hf).map
      intro s t he
      exact (String.append_right_inj (base f)).mp he
    · apply (List.Nodup.of_map base hbase).pairwise_of_forall_ne
      intro f hf g hg hfg
      apply (disjoint_endings_iff h (hdiff f hf g hg hfg) (hendings f hf) (hendings g hg)).mpr
      exact ⟨fun hown => hclash f hf hown g hg, fun hown => hclash g hg hown f hf⟩

/-- A name with a proper ending is none of the names that end in no ending. -/
theorem forall_not_mem_endings {ι : Type*} {fields : List ι} {base : ι → String}
    {suffixes : ι → List String} {reserved : List String}
    (hreserved : ∀ x ∈ reserved, ∀ s ∈ endings, ¬s.toList <:+ x.toList)
    (hendings : ∀ f ∈ fields, ∀ s ∈ suffixes f, s ≠ "" → s ∈ endings) :
    (∀ x ∈ fields.flatMap fun f => (suffixes f).map (base f ++ ·), x ∉ reserved) ↔
      ∀ f ∈ fields, "" ∈ suffixes f → base f ∉ reserved := by
  simp only [List.mem_flatMap, List.mem_map]
  constructor
  · intro h f hf hown
    exact h (base f) ⟨f, hf, "", hown, String.append_empty⟩
  · rintro h x ⟨f, hf, s, hs, rfl⟩ hmem
    by_cases hne : s = ""
    · rw [hne] at hs hmem
      rw [String.append_empty] at hmem
      exact h f hf hs hmem
    · apply hreserved _ hmem s (hendings f hf s hs hne)
      rw [String.toList_append]
      exact List.suffix_append _ _

end Endings

/-- What a name stands for in the body of a function. -/
inductive Binding where
  | global
  | argument (i : ℕ)
  | computed
  deriving DecidableEq

/-- A call binds the parameters to its arguments. Other names are global ones. -/
def bindParams (params : List String) (x : String) : Binding :=
  if x ∈ params then .argument (params.idxOf x) else .global

section Arguments

variable {ι : Type*} (env : String → Binding)

/-- The values of fields that are given by variables. -/
def readFields (fields : List (ι × List String)) : List (ι × List Binding) :=
  fields.map fun p => (p.1, p.2.map env)

/-- The arguments in the order of the fields, from a place on. -/
def argumentsFrom (start : ℕ) : List (ι × List String) → List (ι × List Binding)
  | [] => []
  | p :: ps =>
    (p.1, (List.range' start p.2.length).map .argument) :: argumentsFrom (start + p.2.length) ps

variable {env}

theorem readFields_eq_iff {fields : List (ι × List String)} {start : ℕ} :
    readFields env fields = argumentsFrom start fields ↔
      (fields.flatMap Prod.snd).map env =
        (List.range' start (fields.flatMap Prod.snd).length).map .argument := by
  induction fields generalizing start with
  | nil => simp [readFields, argumentsFrom]
  | cons p fields ih =>
    have hrange : List.range' start (p.2.length + (fields.flatMap Prod.snd).length) =
        List.range' start p.2.length ++
          List.range' (start + p.2.length) (fields.flatMap Prod.snd).length := by
      rw [List.range'_append_1]
    have hcons : readFields env (p :: fields) = argumentsFrom start (p :: fields) ↔
        p.2.map env = (List.range' start p.2.length).map .argument ∧
          readFields env fields = argumentsFrom (start + p.2.length) fields := by
      simp [readFields, argumentsFrom]
    rw [hcons, ih, List.flatMap_cons, List.map_append, List.length_append, hrange,
      List.map_append]
    constructor
    · rintro ⟨hp, hfields⟩
      rw [hp, hfields]
    · intro h
      exact List.append_inj h (by simp)

/-- With no parameter twice, each of them stands for the argument at its place. -/
theorem map_bindParams {before names after : List String}
    (h : (before ++ names ++ after).Nodup) :
    names.map (bindParams (before ++ names ++ after)) =
      (List.range' before.length names.length).map .argument := by
  apply List.ext_getElem
  · simp
  · intro i hi _
    have hlen : i < names.length := by simpa using hi
    have hplace : before.length + i < (before ++ names ++ after).length := by
      simp only [List.length_append]
      omega
    have hget : (before ++ names ++ after)[before.length + i] = names[i] := by
      simp [List.getElem_append_right, hlen]
    have hmem : names[i] ∈ before ++ names ++ after := by simp
    have hidx := h.idxOf_getElem (before.length + i) hplace
    rw [hget] at hidx
    rw [List.getElem_map, bindParams, if_pos hmem, hidx, List.getElem_map, List.getElem_range'_1]

end Arguments
end Tdi.Foundation

import Mathlib

/-!
# Keeping the keys that have a single claimant

Owners claim keys one after the other. The first claim of a key is held, every
later claim of it only marks the key, and the marked keys are dropped at the
end. What is left is a key for each owner that nobody else claims, whatever the
order of the claims was.
-/
namespace Tdi.Foundation

open Std

variable {K V O : Type*} [Ord K] [TransOrd K] [LawfulEqOrd K]

/-- The claims seen so far: what is held, and which keys were claimed again. -/
structure Ledger (K V : Type*) [Ord K] where
  held : ExtTreeMap K V
  marked : ExtTreeSet K

namespace Ledger

def start : Ledger K V := ⟨∅, ∅⟩

def claim (s : Ledger K V) (k : K) (v : V) : Ledger K V :=
  if k ∈ s.held then { s with marked := s.marked.insert k }
  else { s with held := s.held.insert k v }

/-- Erase every marked key. -/
def dropMarked (s : Ledger K V) : ExtTreeMap K V :=
  s.marked.toList.foldl (fun m k => m.erase k) s.held

def claimAll (s : Ledger K V) (claims : List (K × V)) : Ledger K V :=
  claims.foldl (fun s c => s.claim c.1 c.2) s

/-- The keys left after a list of claims. -/
def settle (claims : List (K × V)) : ExtTreeMap K V := (start.claimAll claims).dropMarked

omit [LawfulEqOrd K] in
theorem claimAll_append (s : Ledger K V) (l₁ l₂ : List (K × V)) :
    s.claimAll (l₁ ++ l₂) = (s.claimAll l₁).claimAll l₂ := by
  simp [claimAll]

variable [DecidableEq K]

/-- The claims made on one key, in order. -/
def claimsOn (claims : List (K × V)) (k : K) : List (K × V) := claims.filter fun c => c.1 = k

/-- What the ledger says about one key depends only on the claims on that key. -/
structure Records (s : Ledger K V) (claims : List (K × V)) : Prop where
  held : ∀ k, s.held[k]? = ((claimsOn claims k).head?).map Prod.snd
  marked : ∀ k, k ∈ s.marked ↔ 2 ≤ (claimsOn claims k).length

theorem Records.claim {s : Ledger K V} {claims : List (K × V)} (h : s.Records claims)
    (k : K) (v : V) : (s.claim k v).Records (claims ++ [(k, v)]) := by
  have hon : ∀ k', claimsOn (claims ++ [(k, v)]) k' =
      claimsOn claims k' ++ if k = k' then [(k, v)] else [] := by
    intro k'
    by_cases hk : k = k' <;> simp [claimsOn, hk]
  have hmem : k ∈ s.held ↔ claimsOn claims k ≠ [] := by
    rw [ExtTreeMap.mem_iff_isSome_getElem?, h.held k]
    cases claimsOn claims k <;> simp
  by_cases hk : k ∈ s.held
  · -- a later claim: the held value stays, the key is marked
    obtain ⟨c, cs, hc⟩ := List.exists_cons_of_ne_nil (hmem.mp hk)
    constructor
    · intro k'
      rw [hon, Ledger.claim, if_pos hk, h.held k']
      by_cases he : k = k'
      · subst he
        simp [hc]
      · simp [he]
    · intro k'
      rw [hon, Ledger.claim, if_pos hk, ExtTreeSet.mem_insert, h.marked k',
        LawfulEqCmp.compare_eq_iff_eq]
      by_cases he : k = k'
      · subst he
        simp [hc]
      · simp [he]
  · -- the first claim
    have hnil : claimsOn claims k = [] := not_not.mp (mt hmem.mpr hk)
    constructor
    · intro k'
      simp only [hon, Ledger.claim, if_neg hk, ExtTreeMap.getElem?_insert, h.held k',
        LawfulEqCmp.compare_eq_iff_eq]
      by_cases he : k = k'
      · subst he
        simp [hnil]
      · simp [he]
    · intro k'
      rw [hon, Ledger.claim, if_neg hk, h.marked k']
      by_cases he : k = k'
      · subst he
        simp [hnil]
      · simp [he]

theorem records_claimAll (claims : List (K × V)) : (start.claimAll claims).Records claims := by
  induction claims using List.reverseRecOn with
  | nil => constructor <;> simp [start, claimAll, claimsOn]
  | append_singleton l c ih =>
    rw [claimAll_append]
    exact ih.claim c.1 c.2

theorem getElem?_foldl_erase (l : List K) (m : ExtTreeMap K V) (k : K) :
    (l.foldl (fun m k => m.erase k) m)[k]? = if k ∈ l then none else m[k]? := by
  induction l generalizing m with
  | nil => simp
  | cons a l ih =>
    simp only [List.foldl_cons, ih, ExtTreeMap.getElem?_erase, LawfulEqCmp.compare_eq_iff_eq]
    by_cases hk : k ∈ l
    · simp [hk]
    · by_cases ha : a = k
      · simp [hk, ha]
      · simp [hk, ha, Ne.symm ha]

theorem getElem?_dropMarked (s : Ledger K V) (k : K) :
    s.dropMarked[k]? = if k ∈ s.marked then none else s.held[k]? := by
  simp only [dropMarked, getElem?_foldl_erase, ExtTreeSet.mem_toList]

/-- A key survives exactly when it was claimed once, and then with that claim. -/
theorem getElem?_settle_eq_some_iff {claims : List (K × V)} {k : K} {v : V} :
    (settle claims)[k]? = some v ↔ claimsOn claims k = [(k, v)] := by
  have h := records_claimAll claims
  have hkey : ∀ c ∈ claimsOn claims k, c.1 = k := by
    intro c hc
    simpa using (List.mem_filter.mp hc).2
  rw [settle, getElem?_dropMarked, h.held k]
  simp only [h.marked k]
  rcases hc : claimsOn claims k with - | ⟨⟨k', v'⟩, - | ⟨c, cs⟩⟩
  · simp
  · have hk' : k' = k := hkey (k', v') (by simp [hc])
    simp [hk']
  · simp

/-- The order of the claims does not matter. -/
theorem settle_perm {l₁ l₂ : List (K × V)} (h : l₁.Perm l₂) :
    (settle l₁ : ExtTreeMap K V) = settle l₂ := by
  refine ExtTreeMap.ext_getElem? fun k => Option.ext fun v => ?_
  have hp : (claimsOn l₁ k).Perm (claimsOn l₂ k) := h.filter _
  rw [getElem?_settle_eq_some_iff, getElem?_settle_eq_some_iff]
  constructor
  · intro h₁
    exact List.perm_singleton.mp (h₁ ▸ hp).symm
  · intro h₂
    exact List.perm_singleton.mp (h₂ ▸ hp)

section Owners

variable (keys : O → List K) (value : O → V)

/-- Every owner claims each of its keys with its own value. -/
def claimsOf (owners : List O) : List (K × V) :=
  owners.flatMap fun o => (keys o).map fun k => (k, value o)

omit [Ord K] [TransOrd K] [LawfulEqOrd K] in
theorem claimsOn_claimsOf (owners : List O) (hkeys : ∀ o ∈ owners, (keys o).Nodup) (k : K) :
    claimsOn (claimsOf keys value owners) k =
      (owners.filter fun o => k ∈ keys o).map fun o => (k, value o) := by
  have hone : ∀ o ∈ owners, claimsOn ((keys o).map fun k => (k, value o)) k =
      if k ∈ keys o then [(k, value o)] else [] := by
    intro o ho
    have hf : (keys o).filter (fun k' => k' = k) = if k ∈ keys o then [k] else [] := by
      have hb : (keys o).filter (fun k' => k' = k) = (keys o).filter (· == k) :=
        List.filter_congr fun k' _ => (beq_eq_decide k' k).symm
      rw [hb, List.filter_beq]
      split_ifs with hk
      · rw [List.count_eq_one_of_mem (hkeys o ho) hk]
        rfl
      · rw [List.count_eq_zero_of_not_mem hk]
        rfl
    simp only [claimsOn, List.filter_map, Function.comp_def]
    rw [hf]
    split_ifs <;> simp
  induction owners with
  | nil => simp [claimsOf, claimsOn]
  | cons o os ih =>
    have hsplit : claimsOn (claimsOf keys value (o :: os)) k =
        claimsOn ((keys o).map fun k => (k, value o)) k ++
          claimsOn (claimsOf keys value os) k := by
      simp [claimsOf, claimsOn]
    rw [hsplit, hone o List.mem_cons_self, ih (fun o ho => hkeys o (List.mem_cons_of_mem _ ho))
      (fun o ho => hone o (List.mem_cons_of_mem _ ho))]
    by_cases hk : k ∈ keys o <;> simp [hk]

/-- A key resolves to an owner's value exactly when that owner alone claims it. -/
theorem getElem?_settle_claimsOf {owners : List O} (hnodup : owners.Nodup)
    (hkeys : ∀ o ∈ owners, (keys o).Nodup) {k : K} {v : V} :
    (settle (claimsOf keys value owners))[k]? = some v ↔
      ∃ o ∈ owners, k ∈ keys o ∧ value o = v ∧ ∀ o' ∈ owners, k ∈ keys o' → o' = o := by
  classical
  rw [getElem?_settle_eq_some_iff, claimsOn_claimsOf keys value owners hkeys,
    List.map_eq_singleton_iff]
  constructor
  · rintro ⟨o, ho, hv⟩
    have hmem : ∀ o', o' ∈ owners ∧ k ∈ keys o' ↔ o' = o := by
      intro o'
      have hf : o' ∈ owners.filter (fun o => k ∈ keys o) ↔ o' = o := by simp [ho]
      simpa using hf
    obtain ⟨hm, hk⟩ := (hmem o).mpr rfl
    exact ⟨o, hm, hk, (Prod.ext_iff.mp hv).2, fun o' hm' hk' => (hmem o').mp ⟨hm', hk'⟩⟩
  · rintro ⟨o, hm, hk, hv, huniq⟩
    refine ⟨o, ?_, by rw [hv]⟩
    refine List.perm_singleton.mp ((List.perm_ext_iff_of_nodup (hnodup.filter _)
      (List.nodup_singleton o)).mpr fun o' => ?_)
    simp only [List.mem_filter, decide_eq_true_eq, List.mem_singleton]
    exact ⟨fun h => huniq o' h.1 h.2, fun h => h ▸ ⟨hm, hk⟩⟩

end Owners

end Ledger
end Tdi.Foundation

import Mathlib

/-!
# Dictionaries that keep their order

A dictionary lists its entries in the order in which their keys were first
assigned. Assigning the entries of a dictionary in turn to an empty one builds it
again, and so does every loop that assigns under the keys it goes through. Deleting a
key raises an error where it is missing, and a loop that deletes keys leaves the entries
under the others.
-/
namespace Tdi.Foundation

variable {α β ε : Type*}

structure Dict (α : Type*) where
  entries : List (String × α)
  nodup : (entries.map Prod.fst).Nodup

namespace Dict

def empty : Dict α := ⟨[], List.nodup_nil⟩

def keys (d : Dict α) : List String := d.entries.map Prod.fst

def get? (d : Dict α) (k : String) : Option α := d.entries.lookup k

/-- A key that is there keeps its place. -/
def set (d : Dict α) (k : String) (v : α) : Dict α where
  entries :=
    if k ∈ d.keys then d.entries.map fun p => if p.1 = k then (k, v) else p
    else d.entries ++ [(k, v)]
  nodup := by
    split_ifs with hk
    · have hsame : (d.entries.map fun p => if p.1 = k then (k, v) else p).map Prod.fst =
          d.entries.map Prod.fst := by
        rw [List.map_map]
        apply List.map_congr_left
        intro p _
        by_cases hp : p.1 = k <;> simp [hp]
      rw [hsame]
      exact d.nodup
    · rw [List.map_append, List.nodup_append]
      refine ⟨d.nodup, List.nodup_singleton k, ?_⟩
      intro a ha b hb hab
      rw [hab, List.mem_singleton.mp hb] at ha
      exact hk ha

/-- Assign the entries in turn. -/
def ofList (l : List (String × α)) : Dict α := l.foldl (fun d p => d.set p.1 p.2) empty

theorem entries_set_of_not_mem {d : Dict α} {k : String} (hk : k ∉ d.keys) (v : α) :
    (d.set k v).entries = d.entries ++ [(k, v)] :=
  if_neg hk

theorem entries_foldl_set {d : Dict α} {l : List (String × α)}
    (h : (d.keys ++ l.map Prod.fst).Nodup) :
    (l.foldl (fun d p => d.set p.1 p.2) d).entries = d.entries ++ l := by
  induction l generalizing d with
  | nil => simp
  | cons p l ih =>
    have hp : p.1 ∉ d.keys := by
      intro hmem
      exact (List.nodup_append.mp h).2.2 _ hmem _ (by simp) rfl
    have hset := entries_set_of_not_mem hp p.2
    have hkeys : (d.set p.1 p.2).keys = d.keys ++ [p.1] := by simp [keys, hset]
    rw [List.foldl_cons, ih (by simpa [hkeys] using h), hset]
    simp

theorem entries_ofList {l : List (String × α)} (h : (l.map Prod.fst).Nodup) :
    (ofList l).entries = l := by
  have hfold := entries_foldl_set (d := empty) (by simpa [keys, empty] using h)
  rw [ofList, hfold]
  rfl

theorem get?_of_mem {d : Dict α} {k : String} {v : α} (h : (k, v) ∈ d.entries) :
    d.get? k = some v := by
  obtain ⟨entries, nodup⟩ := d
  unfold get?
  simp only at h nodup ⊢
  induction entries with
  | nil => cases h
  | cons p entries ih =>
    rw [List.map_cons, List.nodup_cons] at nodup
    rcases List.mem_cons.mp h with h | h
    · rw [← h]
      simp
    · have hne : (k == p.1) = false := by
        rw [beq_eq_false_iff_ne]
        intro he
        rw [← he] at nodup
        exact nodup.1 (List.mem_map_of_mem h)
      rw [List.lookup_cons, hne]
      exact ih nodup.2 h

theorem get?_eq_some_iff {d : Dict α} {k : String} {v : α} :
    d.get? k = some v ↔ (k, v) ∈ d.entries := by
  constructor
  · intro h
    obtain ⟨before, after, hentries, -⟩ := List.lookup_eq_some_iff.mp h
    rw [hentries]
    simp
  · exact get?_of_mem

theorem map_of_not_mem {l : List (String × α)} {k : String} (hk : k ∉ l.map Prod.fst) (v : α) :
    (l.map fun p => if p.1 = k then (k, v) else p) = l := by
  rw [← List.map_id l, List.map_map]
  apply List.map_congr_left
  intro p hp
  have hne : p.1 ≠ k := fun he => hk (he ▸ List.mem_map_of_mem hp)
  exact if_neg hne

theorem entries_set_of_split {d : Dict α} {k : String} {w : α} {before after : List (String × α)}
    (h : d.entries = before ++ (k, w) :: after) (v : α) :
    (d.set k v).entries = before ++ (k, v) :: after := by
  have hnodup := d.nodup
  rw [h, List.map_append, List.map_cons, List.nodup_middle, List.nodup_cons,
    List.mem_append, not_or] at hnodup
  have hk : k ∈ d.keys := by simp [keys, h]
  have hset : (d.set k v).entries = d.entries.map fun p => if p.1 = k then (k, v) else p :=
    if_pos hk
  rw [hset, h, List.map_append, List.map_cons, map_of_not_mem hnodup.1.1,
    map_of_not_mem hnodup.1.2, if_pos rfl]

def erase (d : Dict α) (k : String) : Dict α where
  entries := d.entries.filter (·.1 ≠ k)
  nodup := d.nodup.sublist (List.filter_sublist.map Prod.fst)

theorem get?_erase (d : Dict α) (k k' : String) :
    (d.erase k).get? k' = if k' = k then none else d.get? k' := by
  ext v
  rw [get?_eq_some_iff]
  by_cases hk : k' = k
  · simp [erase, hk]
  · rw [if_neg hk, get?_eq_some_iff]
    simp [erase, hk]

theorem mem_keys_iff {d : Dict α} {k : String} : k ∈ d.keys ↔ ∃ v, d.get? k = some v := by
  simp [keys, get?_eq_some_iff]

theorem get?_set (d : Dict α) (k : String) (v : α) (k' : String) :
    (d.set k v).get? k' = if k' = k then some v else d.get? k' := by
  ext w
  rw [get?_eq_some_iff]
  by_cases hmem : k ∈ d.keys
  · have hset : (d.set k v).entries = d.entries.map fun p => if p.1 = k then (k, v) else p :=
      if_pos hmem
    obtain ⟨u, hu⟩ := mem_keys_iff.mp hmem
    rw [hset, List.mem_map]
    by_cases hk : k' = k
    · rw [hk, if_pos rfl]
      constructor
      · rintro ⟨p, -, hp⟩
        split at hp
        · cases hp
          rfl
        next hne =>
          rw [hp] at hne
          exact absurd rfl hne
      · intro hv
        cases hv
        exact ⟨(k, u), get?_eq_some_iff.mp hu, if_pos rfl⟩
    · rw [if_neg hk, get?_eq_some_iff]
      constructor
      · rintro ⟨p, hp, he⟩
        split at he
        · cases he
          exact absurd rfl hk
        · rwa [← he]
      · intro hw
        exact ⟨(k', w), hw, if_neg hk⟩
  · rw [entries_set_of_not_mem hmem, List.mem_append, List.mem_singleton]
    by_cases hk : k' = k
    · have hnot : (k, w) ∉ d.entries := fun h => hmem (List.mem_map_of_mem h)
      rw [hk, if_pos rfl]
      simp [hnot, eq_comm]
    · rw [if_neg hk, get?_eq_some_iff]
      simp [hk]

theorem mem_keys_set {d : Dict α} {k : String} {v : α} {k' : String} :
    k' ∈ (d.set k v).keys ↔ k' = k ∨ k' ∈ d.keys := by
  rw [mem_keys_iff, get?_set]
  by_cases hk : k' = k
  · simp [hk]
  · simp [hk, mem_keys_iff]

/-- Values that are filed under keys are found again, whatever groups they form. -/
theorem flatMap_set_append_perm (d : Dict (List α)) (k : String) (a : α) (g : String → α → β) :
    ((d.set k ((d.get? k).getD [] ++ [a])).entries.flatMap fun p => p.2.map (g p.1)).Perm
      ((d.entries.flatMap fun p => p.2.map (g p.1)) ++ [g k a]) := by
  cases hget : d.get? k with
  | none =>
    have hk : k ∉ d.keys := by
      intro hk
      obtain ⟨p, hp, rfl⟩ := List.mem_map.mp hk
      have hsome : d.get? p.1 = some p.2 := get?_of_mem hp
      rw [hget] at hsome
      cases hsome
    rw [entries_set_of_not_mem hk]
    simp
  | some group =>
    obtain ⟨before, after, hentries, -⟩ := List.lookup_eq_some_iff.mp hget
    rw [entries_set_of_split hentries, hentries]
    simp only [Option.getD_some, List.flatMap_append, List.flatMap_cons, List.map_append,
      List.map_cons, List.map_nil, List.append_assoc]
    exact (List.perm_append_comm.append_left _).append_left _

end Dict

theorem exists_of_mem_right {R : α → β → Prop} {l : List α} {l' : List β}
    (h : List.Forall₂ R l l') {b : β} (hb : b ∈ l') : ∃ a ∈ l, R a b := by
  induction h with
  | nil => cases hb
  | @cons a c l l' hac _ ih =>
    rcases List.mem_cons.mp hb with rfl | hb
    · exact ⟨a, by simp, hac⟩
    · obtain ⟨a', ha', hr⟩ := ih hb
      exact ⟨a', by simp [ha'], hr⟩

/-- Three loops, each over what the one before produced, reach the wanted results exactly
when each element of the first list does. -/
theorem exists_forall₂_iff {γ δ : Type*} {R : α → β → Prop} {T : β → γ → Prop}
    {U : γ → δ → Prop} {S : α → δ → Prop} {l : List α} :
    (∃ bs cs ds, List.Forall₂ R l bs ∧ List.Forall₂ T bs cs ∧ List.Forall₂ U cs ds ∧
      List.Forall₂ S l ds) ↔ ∀ a ∈ l, ∃ b c d, R a b ∧ T b c ∧ U c d ∧ S a d := by
  induction l with
  | nil => exact iff_of_true ⟨[], [], [], .nil, .nil, .nil, .nil⟩ (by simp)
  | cons a l ih =>
    rw [List.forall_mem_cons, ← ih]
    constructor
    · rintro ⟨_, _, _, _ | ⟨hr, hrs⟩, _ | ⟨ht, hts⟩, _ | ⟨hu, hus⟩, _ | ⟨hs, hss⟩⟩
      exact ⟨⟨_, _, _, hr, ht, hu, hs⟩, _, _, _, hrs, hts, hus, hss⟩
    · rintro ⟨⟨b, c, d, hr, ht, hu, hs⟩, bs, cs, ds, hrs, hts, hus, hss⟩
      exact ⟨b :: bs, c :: cs, d :: ds, .cons hr hrs, .cons ht hts, .cons hu hus, .cons hs hss⟩

theorem bind_eq_ok_iff.{u} {σ τ : Type u} {x : Except ε σ} {f : σ → Except ε τ} {b : τ} :
    x >>= f = .ok b ↔ ∃ a, x = .ok a ∧ f a = .ok b := by
  constructor
  · intro h
    cases x with
    | error e => cases h
    | ok a => exact ⟨a, rfl, h⟩
  · rintro ⟨a, rfl, h⟩
    exact h

theorem bind_eq_error_iff.{u} {σ τ : Type u} {x : Except ε σ} {f : σ → Except ε τ} {e : ε} :
    x >>= f = .error e ↔ x = .error e ∨ ∃ a, x = .ok a ∧ f a = .error e := by
  cases x with
  | error e' => simp [bind, Except.bind]
  | ok a => simp [bind, Except.bind]

theorem map_eq_ok_iff {x : Except ε α} {f : α → β} {b : β} :
    x.map f = .ok b ↔ ∃ a, x = .ok a ∧ f a = b := by
  constructor
  · intro h
    cases x with
    | error e => cases h
    | ok a => exact ⟨a, rfl, Except.ok.inj h⟩
  · rintro ⟨a, rfl, rfl⟩
    rfl

theorem foldlM_cons_eq_ok_iff.{u} {σ : Type u} {f : σ → β → Except ε σ} {b : β} {l : List β}
    {s s' : σ} :
    (b :: l).foldlM f s = .ok s' ↔ ∃ next, f s b = .ok next ∧ l.foldlM f next = .ok s' := by
  rw [List.foldlM_cons, bind_eq_ok_iff]

/-- A loop that stops does so in one of its rounds. -/
theorem exists_of_foldlM_eq_error.{u} {σ : Type u} {f : σ → β → Except ε σ} {l : List β} {s : σ}
    {e : ε} (h : l.foldlM f s = .error e) : ∃ b ∈ l, ∃ s', f s' b = .error e := by
  induction l generalizing s with
  | nil => cases h
  | cons b l ih =>
    rw [List.foldlM_cons] at h
    rcases bind_eq_error_iff.mp h with hround | ⟨_, -, hrest⟩
    · exact ⟨b, by simp, s, hround⟩
    · obtain ⟨b', hb', s', hround⟩ := ih hrest
      exact ⟨b', by simp [hb'], s', hround⟩

/-- Two loops that go round together run through exactly when each does on its own. -/
theorem foldlM_prod_eq_ok_iff.{u} {σ τ : Type u} {f : σ → β → Except ε σ} {g : τ → β → Except ε τ}
    {l : List β} {s s' : σ × τ} :
    (l.foldlM (fun s b => do
        let a ← f s.1 b
        let c ← g s.2 b
        .ok (a, c)) s) = .ok s' ↔
      l.foldlM f s.1 = .ok s'.1 ∧ l.foldlM g s.2 = .ok s'.2 := by
  induction l generalizing s with
  | nil =>
    simp only [List.foldlM_nil, pure, Except.pure, Except.ok.injEq]
    exact Prod.ext_iff
  | cons b l ih =>
    simp only [foldlM_cons_eq_ok_iff, bind_eq_ok_iff]
    constructor
    · rintro ⟨_, ⟨a, ha, c, hc, ⟨⟩⟩, hrest⟩
      have hloops := ih.mp hrest
      exact ⟨⟨a, ha, hloops.1⟩, c, hc, hloops.2⟩
    · rintro ⟨⟨a, ha, hfirst⟩, c, hc, hsecond⟩
      exact ⟨(a, c), ⟨a, ha, c, hc, rfl⟩, ih.mpr ⟨hfirst, hsecond⟩⟩

namespace Dict

variable {missing : String → ε} {d d' : Dict α} {k : String}

theorem ext (h : d.entries = d'.entries) : d = d' := by
  obtain ⟨entries, nodup⟩ := d
  obtain ⟨entries', nodup'⟩ := d'
  simp only at h
  subst h
  rfl

theorem eq_of_mem {v w : α} (hv : (k, v) ∈ d.entries) (hw : (k, w) ∈ d.entries) :
    v = w :=
  Option.some.inj ((get?_of_mem hv).symm.trans (get?_of_mem hw))

def filter (d : Dict α) (test : String × α → Bool) : Dict α where
  entries := d.entries.filter test
  nodup := d.nodup.sublist (List.filter_sublist.map Prod.fst)

theorem mem_keys_filter_iff {test : String × α → Bool} :
    k ∈ (d.filter test).keys ↔ ∃ v, (k, v) ∈ d.entries ∧ test (k, v) = true := by
  simp [keys, filter]

/-- Entries are left out by their keys as by a test. -/
theorem filter_not_mem_keys (d : Dict α) (test : String × α → Bool) :
    d.filter (·.1 ∉ (d.filter test).keys) = d.filter fun p => !test p := by
  apply ext
  apply List.filter_congr
  rintro ⟨k, v⟩ hv
  have hk : k ∈ (d.filter test).keys ↔ test (k, v) = true := by
    rw [mem_keys_filter_iff]
    constructor
    · rintro ⟨w, hw, htest⟩
      rwa [eq_of_mem hv hw]
    · intro htest
      exact ⟨v, hv, htest⟩
  simp only [hk, decide_not, Bool.decide_eq_true]

/-- `del d[k]` -/
def delete (missing : String → ε) (d : Dict α) (k : String) : Except ε (Dict α) :=
  if k ∈ d.keys then .ok (d.erase k) else .error (missing k)

theorem mem_keys_erase {k' : String} : k' ∈ (d.erase k).keys ↔ k' ∈ d.keys ∧ k' ≠ k := by
  simp [mem_keys_iff, get?_erase, and_comm]

theorem delete_eq_ok_iff : d.delete missing k = .ok d' ↔ k ∈ d.keys ∧ d.erase k = d' := by
  unfold delete
  split_ifs with hk <;> simp [hk]

theorem delete_eq_error_iff {e : ε} :
    d.delete missing k = .error e ↔ k ∉ d.keys ∧ missing k = e := by
  unfold delete
  split_ifs with hk <;> simp [hk]

/-- Keys that differ are deleted in turn exactly when all of them are there. -/
theorem foldlM_delete_eq_ok_iff {ks : List String} (hks : ks.Nodup) :
    ks.foldlM (delete missing) d = .ok d' ↔
      (∀ k ∈ ks, k ∈ d.keys) ∧ d.filter (·.1 ∉ ks) = d' := by
  induction ks generalizing d with
  | nil =>
    have hall : d.filter (·.1 ∉ ([] : List String)) = d := ext (by simp [filter])
    rw [hall, List.foldlM_nil]
    simp [pure, Except.pure]
  | cons k ks ih =>
    rw [List.nodup_cons] at hks
    have hfilter : (d.erase k).filter (·.1 ∉ ks) = d.filter (·.1 ∉ k :: ks) :=
      ext (by simp [erase, filter, List.filter_filter, Bool.and_comm])
    have hkeys : (∀ k' ∈ ks, k' ∈ (d.erase k).keys) ↔ ∀ k' ∈ ks, k' ∈ d.keys := by
      constructor
      · intro h k' hk'
        exact (mem_keys_erase.mp (h k' hk')).1
      · intro h k' hk'
        exact mem_keys_erase.mpr ⟨h k' hk', ne_of_mem_of_not_mem hk' hks.1⟩
    rw [foldlM_cons_eq_ok_iff, List.forall_mem_cons, and_assoc, ← hkeys, ← hfilter, ← ih hks.2]
    constructor
    · rintro ⟨_, hdelete, hrest⟩
      obtain ⟨hk, rfl⟩ := delete_eq_ok_iff.mp hdelete
      exact ⟨hk, hrest⟩
    · rintro ⟨hk, hrest⟩
      exact ⟨d.erase k, delete_eq_ok_iff.mpr ⟨hk, rfl⟩, hrest⟩

end Dict

/-- A loop that stops at the first error computes each element from its own. -/
theorem mapM_eq_ok_iff {f : α → Except ε β} {l : List α} {l' : List β} :
    l.mapM f = .ok l' ↔ List.Forall₂ (fun a b => f a = .ok b) l l' := by
  induction l generalizing l' with
  | nil =>
    cases l' with
    | nil => exact ⟨fun _ => .nil, fun _ => rfl⟩
    | cons b l' => exact ⟨nofun, nofun⟩
  | cons a l ih =>
    rw [List.mapM_cons]
    constructor
    · intro h
      obtain ⟨b, hf, h⟩ := bind_eq_ok_iff.mp h
      obtain ⟨rest, hl, h⟩ := bind_eq_ok_iff.mp h
      cases h
      exact .cons hf (ih.mp hl)
    · intro h
      cases h with
      | cons hf hrest =>
        rw [hf, ih.mpr hrest]
        rfl

/-- A loop over the entries of a dictionary that computes a value for each key. -/
def mapEntries (f : String → α → Except ε β) (l : List (String × α)) :
    Except ε (List (String × β)) :=
  l.mapM fun p => (f p.1 p.2).map fun w => (p.1, w)

theorem mapEntries_eq_ok_iff {f : String → α → Except ε β} {l : List (String × α)}
    {l' : List (String × β)} :
    mapEntries f l = .ok l' ↔
      List.Forall₂ (fun p q => q.1 = p.1 ∧ f p.1 p.2 = .ok q.2) l l' := by
  rw [mapEntries, mapM_eq_ok_iff]
  apply iff_of_eq
  congr 1
  funext p q
  obtain ⟨k, w⟩ := q
  simp [map_eq_ok_iff, eq_comm, and_comm]

theorem keys_of_mapEntries {f : String → α → Except ε β} {l : List (String × α)}
    {l' : List (String × β)} (h : mapEntries f l = .ok l') :
    l'.map Prod.fst = l.map Prod.fst := by
  have hall := mapEntries_eq_ok_iff.mp h
  clear h
  induction hall with
  | nil => rfl
  | cons hp _ ih => rw [List.map_cons, List.map_cons, ih, hp.1]

/-- A second loop over what a first one produced succeeds with the wanted results exactly
when each element of the first one's input is as it should be. -/
theorem exists_mapEntries_iff {γ : Type*} {f : String → β → Except ε γ}
    {T : String × α → String × β → Prop} {S : String × α → γ → Prop} {Q : String × α → Prop}
    {l : List (String × α)} {l' : List (String × β)}
    (h : List.Forall₂ (fun p q => q.1 = p.1 ∧ T p q) l l')
    (hQ : ∀ p ∈ l, ∀ q, q.1 = p.1 → T p q → ((∃ w, f q.1 q.2 = .ok w ∧ S p w) ↔ Q p)) :
    (∃ m, mapEntries f l' = .ok m ∧ List.Forall₂ (fun p r => r.1 = p.1 ∧ S p r.2) l m) ↔
      ∀ p ∈ l, Q p := by
  simp only [mapEntries_eq_ok_iff]
  induction h with
  | nil => simp
  | @cons p q l l' hpq _ ih =>
    have hrest := ih fun a ha => hQ a (by simp [ha])
    have hp := hQ p (by simp) q hpq.1 hpq.2
    rw [List.forall_mem_cons, ← hp, ← hrest]
    constructor
    · rintro ⟨m, hparse, hsame⟩
      cases hsame with
      | cons hs hsrest =>
        cases hparse with
        | cons hw hwrest => exact ⟨⟨_, hw.2, hs.2⟩, _, hwrest, hsrest⟩
    · rintro ⟨⟨w, hw, hs⟩, m, hwrest, hsrest⟩
      exact ⟨(q.1, w) :: m, .cons ⟨rfl, hw⟩ hwrest, .cons ⟨hpq.1, hs⟩ hsrest⟩

end Tdi.Foundation

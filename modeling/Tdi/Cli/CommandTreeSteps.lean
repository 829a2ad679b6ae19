import Tdi.Cli.CommandTree

/-!
# Filing one table

A step of `make_deep_tree` files one table. What it can do to the tree is said by
the origin of each object afterwards, whatever the tree. Where the table fits, that
is, where all on its way are nodes spelled as the table spells them, the step
succeeds and keeps the names of siblings apart.
-/
namespace Tdi.Cli.CommandTree

open Foundation NamedTree

theorem withoutDollars_withoutDollars (s : String) :
    withoutDollars (withoutDollars s) = withoutDollars s := by
  simp [withoutDollars]

/-- The leaf of the table is the object, or is below it. -/
def Has (x : CliObject) (t : TdiTable) : Prop := ∃ p y, Leads x p y ∧ IsLeafOf t y

/-- The names of the objects are as they are shown. -/
def Plain (x : CliObject) : Prop := ∀ p y, Leads x p y → withoutDollars y.name = y.name

theorem has_iff {x : CliObject} {t : TdiTable} :
    Has x t ↔ IsLeafOf t x ∨ ∃ c ∈ x.children, Has c t := by
  constructor
  · rintro ⟨_, y, hy, hleaf⟩
    cases hy with
    | here => exact .inl hleaf
    | down hc hy => exact .inr ⟨_, hc, _, y, hy, hleaf⟩
  · rintro (hleaf | ⟨c, hc, q, y, hy, hleaf⟩)
    · exact ⟨_, x, .here x, hleaf⟩
    · exact ⟨_, y, .down hc hy, hleaf⟩

theorem not_isLeafOf_of_node {x : CliObject} {t : TdiTable} (h : x.label = .node) :
    ¬IsLeafOf t x := by
  rintro ⟨commands, hleaf⟩
  rw [h] at hleaf
  cases hleaf

theorem Plain.child {x c : CliObject} (h : Plain x) (hc : c ∈ x.children) : Plain c :=
  fun _ y hy => h _ y (.down hc hy)

theorem Plain.name {x : CliObject} (h : Plain x) : withoutDollars x.name = x.name :=
  h [] x (.here x)

theorem plain_tdiNode (k : String) : Plain (tdiNode k) := by
  intro _ y hy
  cases hy with
  | here => exact withoutDollars_withoutDollars k
  | down hc => cases hc

theorem not_has_tdiNode (k : String) (t : TdiTable) : ¬Has (tdiNode k) t := by
  rw [has_iff]
  rintro (hleaf | ⟨c, hc, -⟩)
  · exact not_isLeafOf_of_node rfl hleaf
  · cases hc

theorem mem_children_of_nodesOf {x : CliObject} {l : List CliObject} (h : nodesOf x = .ok l)
    {c : CliObject} (hc : c ∈ l) : c ∈ x.children := by
  unfold nodesOf at h
  split at h
  · cases h
    exact hc
  · split_ifs at h
    cases h
    cases hc
  · cases h

theorem mem_of_mem_children_leafObject {k : String} {t : TdiTable} {l : List CliObject}
    {c : CliObject} (hc : c ∈ (leafObject k t l).children) : c ∈ l ∧ c.name ∉ t.methodNames := by
  obtain ⟨hmem, hname⟩ := List.mem_filter.mp hc
  rcases mem_of_mem_foldl_assign hmem with hnil | hl
  · cases hnil
  · exact ⟨hl, by simpa using hname⟩

section Steps

variable {t : TdiTable} {k : String} {x x' : CliObject}

theorem tdiLeaf_eq_ok_iff {l : List CliObject} :
    tdiLeaf k t l = .ok x ↔ t.definitionsCompile = true ∧ x = leafObject k t l := by
  unfold tdiLeaf
  split_ifs with h
  · simp [h, eq_comm]
  · simp [h]

theorem tdiLeaf_of_compile (h : t.definitionsCompile = true) (l : List CliObject) :
    tdiLeaf k t l = .ok (leafObject k t l) :=
  if_pos h

/-- What filing a table under a parent can do: nothing, or a new leaf comes last, or a leaf
takes the place of a child. The methods of the table are compiled each time. -/
theorem addLeaf_cases (h : addLeaf t k x = .ok x') :
    t.definitionsCompile = true ∧ (x' = x ∨ x.label = .node ∧
      ((∀ c ∈ x.children, c.name ≠ k) ∧
          x' = x.withChildren (x.children ++ [leafObject k t []]) ∨
        ∃ before c after adopted, x.children = before ++ c :: after ∧ c.name = k ∧
          nodesOf c = .ok adopted ∧
          x' = x.withChildren (before ++ after ++ [leafObject k t adopted]))) := by
  unfold addLeaf at h
  split at h
  next =>
    obtain ⟨_, hleaf, rfl⟩ := map_eq_ok_iff.mp h
    exact ⟨(tdiLeaf_eq_ok_iff.mp hleaf).1, .inl rfl⟩
  next hlabel =>
    split at h
    next hnone =>
      obtain ⟨_, hleaf, rfl⟩ := map_eq_ok_iff.mp h
      obtain ⟨hcompile, rfl⟩ := tdiLeaf_eq_ok_iff.mp hleaf
      exact ⟨hcompile, .inr ⟨hlabel, .inl ⟨by simpa using hnone, rfl⟩⟩⟩
    next c hc =>
      obtain ⟨hname, before, after, hsplit, hbefore⟩ := List.find?_eq_some_iff_append.mp hc
      obtain ⟨adopted, hadopted, h⟩ := bind_eq_ok_iff.mp h
      obtain ⟨_, hleaf, h⟩ := bind_eq_ok_iff.mp h
      obtain ⟨hcompile, rfl⟩ := tdiLeaf_eq_ok_iff.mp hleaf
      cases h
      refine ⟨hcompile, .inr ⟨hlabel, .inr
        ⟨before, c, after, adopted, hsplit, by simpa using hname, hadopted, ?_⟩⟩⟩
      rw [hsplit, List.eraseP_append_right _ (by simpa using hbefore),
        List.eraseP_cons_of_pos (p := fun c : CliObject => decide (c.name = k)) hname]

/-- What a step of the walk can do: nothing below a leaf, where it goes on apart from the tree,
or the walk goes on in a new child that comes last, or it goes on in a child of that name. -/
theorem updateNodeTree_cons_cases {add : CliObject → Except TreeError CliObject}
    {prefs : List String} (h : updateNodeTree add (k :: prefs) x = .ok x') :
    (x' = x ∧ ∃ new, updateNodeTree add prefs (tdiNode k) = .ok new) ∨ x.label = .node ∧
      ((∀ c ∈ x.children, c.name ≠ k) ∧
          (∃ new, updateNodeTree add prefs (tdiNode k) = .ok new ∧
            x' = x.withChildren (x.children ++ [new])) ∨
        ∃ before c after c', x.children = before ++ c :: after ∧ c.name = k ∧
          updateNodeTree add prefs c = .ok c' ∧ x' = x.withChildren (before ++ c' :: after)) := by
  unfold updateNodeTree at h
  split at h
  next =>
    obtain ⟨_, -, h⟩ := bind_eq_ok_iff.mp h
    obtain ⟨new, hnew, h⟩ := bind_eq_ok_iff.mp h
    cases h
    exact .inl ⟨rfl, new, hnew⟩
  next hlabel =>
    refine .inr ⟨hlabel, ?_⟩
    obtain ⟨l, hl, rfl⟩ := map_eq_ok_iff.mp h
    rcases forall_not_or_split (fun c => decide (c.name = k)) x.children with
      hnone | ⟨before, c, after, hsplit, hbefore, hc⟩
    · rw [updateFirst_of_forall_not hnone] at hl
      obtain ⟨new, hnew, rfl⟩ := map_eq_ok_iff.mp hl
      exact .inl ⟨by simpa using hnone, new, hnew, rfl⟩
    · rw [hsplit, updateFirst_append hbefore hc] at hl
      obtain ⟨c', hc', rfl⟩ := map_eq_ok_iff.mp hl
      exact .inr ⟨before, c, after, c', hsplit, by simpa using hc, hc', rfl⟩

theorem definitionsCompile_of_updateNodeTree {prefs : List String}
    (h : updateNodeTree (addLeaf t k) prefs x = .ok x') : t.definitionsCompile = true := by
  induction prefs generalizing x x' with
  | nil => exact (addLeaf_cases h).1
  | cons p prefs ih =>
    rcases updateNodeTree_cons_cases h with
      ⟨-, _, hnew⟩ | ⟨-, ⟨-, _, hnew, -⟩ | ⟨_, _, _, _, -, -, hc', -⟩⟩
    · exact ih hnew
    · exact ih hnew
    · exact ih hc'

theorem name_of_addLeaf (h : addLeaf t k x = .ok x') : x'.name = x.name := by
  rcases addLeaf_cases h with ⟨-, rfl | ⟨-, ⟨-, rfl⟩ | ⟨_, _, _, _, -, -, -, rfl⟩⟩⟩ <;> rfl

theorem label_of_addLeaf (h : addLeaf t k x = .ok x') : x'.label = x.label := by
  rcases addLeaf_cases h with ⟨-, rfl | ⟨-, ⟨-, rfl⟩ | ⟨_, _, _, _, -, -, -, rfl⟩⟩⟩ <;> rfl

theorem name_of_updateNodeTree {prefs : List String}
    (h : updateNodeTree (addLeaf t k) prefs x = .ok x') : x'.name = x.name := by
  cases prefs with
  | nil => exact name_of_addLeaf h
  | cons p prefs =>
    rcases updateNodeTree_cons_cases h with
      ⟨rfl, -⟩ | ⟨-, ⟨-, _, -, rfl⟩ | ⟨_, _, _, _, -, -, -, rfl⟩⟩ <;> rfl

theorem label_of_updateNodeTree {prefs : List String}
    (h : updateNodeTree (addLeaf t k) prefs x = .ok x') : x'.label = x.label := by
  cases prefs with
  | nil => exact label_of_addLeaf h
  | cons p prefs =>
    rcases updateNodeTree_cons_cases h with
      ⟨rfl, -⟩ | ⟨-, ⟨-, _, -, rfl⟩ | ⟨_, _, _, _, -, -, -, rfl⟩⟩ <;> rfl

/-- Where an object of the tree after a step comes from: it was there, or it stands on the way to
the table, in the place of an object spelled so, or it is new and has nothing else below. -/
inductive Origin (t : TdiTable) (spelled : List String) (x : CliObject) (p : List String)
    (y : CliObject) : Prop
  | kept : Leads x p y → Origin t spelled x p y
  | changed : p <+: spelled.map withoutDollars →
      (∀ s commands, y.label = .leaf s commands →
        s = t ∧ p = spelled.map withoutDollars ∧ ∀ c ∈ y.children, c.name ∉ t.methodNames) →
      ((spelled.take p.length = p ∧ ∃ z, Leads x p z ∧ ∀ s, Has y s → Has z s ∨ s = t) ∨
        ∀ s, Has y s → s = t) →
      Origin t spelled x p y

theorem has_leafObject {l : List CliObject} {s : TdiTable} (h : Has (leafObject k t l) s) :
    s = t ∨ ∃ c ∈ l, Has c s := by
  rcases has_iff.mp h with ⟨commands, hleaf⟩ | ⟨c, hc, hs⟩
  · cases hleaf
    exact .inl rfl
  · exact .inr ⟨c, (mem_of_mem_children_leafObject hc).1, hs⟩

/-- The parent itself, once all its children have been accounted for. -/
theorem origin_self {spelled : List String} (hlabel : x.label = .node)
    (hx' : x'.label = x.label) (h : ∀ c ∈ x'.children, ∀ s, Has c s → Has x s ∨ s = t) :
    Origin t spelled x [] x' := by
  refine .changed List.nil_prefix ?_ (.inl ⟨rfl, x, .here x, ?_⟩)
  · intro s commands hs
    rw [hx', hlabel] at hs
    cases hs
  · intro s hs
    rcases has_iff.mp hs with hleaf | ⟨c, hc, hs⟩
    · exact absurd hleaf (not_isLeafOf_of_node (hx'.trans hlabel))
    · exact h c hc s hs

theorem origin_leafObject {l : List CliObject} {p : List String} {y : CliObject}
    (hl : l = [] ∨ ∃ c ∈ x.children, c.name = k ∧ withoutDollars k = k ∧ ∀ d ∈ l, d ∈ c.children)
    (hy : Leads (leafObject k t l) p y) : Origin t [k] x (withoutDollars k :: p) y := by
  cases hy with
  | here =>
    refine .changed (by simp) ?_ ?_
    · intro s commands hs
      cases hs
      exact ⟨rfl, rfl, fun c hc => (mem_of_mem_children_leafObject hc).2⟩
    · rcases hl with rfl | ⟨c, hc, rfl, hplain, hl⟩
      · refine .inr fun s hs => ?_
        rcases has_leafObject hs with hs | ⟨d, hd, -⟩
        · exact hs
        · cases hd
      · rw [hplain]
        refine .inl ⟨rfl, c, .down hc (.here c), fun s hs => ?_⟩
        rcases has_leafObject hs with hs | ⟨d, hd, hs⟩
        · exact .inr hs
        · exact .inl (has_iff.mpr (.inr ⟨d, hl d hd, hs⟩))
  | @down _ d q _ hd hy =>
    have hmem := (mem_of_mem_children_leafObject hd).1
    rcases hl with rfl | ⟨c, hc, rfl, hplain, hl⟩
    · cases hmem
    · rw [hplain]
      exact .kept (.down hc (.down (hl d hmem) hy))

theorem origin_addLeaf (h : addLeaf t k x = .ok x') (hplain : Plain x) {p : List String}
    {y : CliObject} (hy : Leads x' p y) : Origin t [k] x p y := by
  rcases (addLeaf_cases h).2 with rfl | ⟨hlabel, hcases⟩
  · exact .kept hy
  · obtain ⟨l, others, hx', hothers, hl⟩ : ∃ l others,
        x' = x.withChildren (others ++ [leafObject k t l]) ∧ (∀ c ∈ others, c ∈ x.children) ∧
          (l = [] ∨
            ∃ c ∈ x.children, c.name = k ∧ withoutDollars k = k ∧ ∀ d ∈ l, d ∈ c.children) := by
      rcases hcases with ⟨-, hx'⟩ | ⟨before, c, after, adopted, hsplit, rfl, hadopted, hx'⟩
      · exact ⟨[], x.children, hx', fun c hc => hc, .inl rfl⟩
      · have hc : c ∈ x.children := by simp [hsplit]
        refine ⟨adopted, before ++ after, hx', ?_, .inr ⟨c, hc, rfl, (hplain.child hc).name,
          fun d hd => mem_children_of_nodesOf hadopted hd⟩⟩
        intro d hd
        rw [hsplit]
        simp only [List.mem_append, List.mem_cons] at hd ⊢
        exact hd.imp id .inr
    cases hy with
    | here =>
      refine origin_self hlabel (label_of_addLeaf h) ?_
      rw [hx']
      intro d hd s hs
      rcases List.mem_append.mp hd with hd | hd
      · exact .inl (has_iff.mpr (.inr ⟨d, hothers d hd, hs⟩))
      · rw [List.mem_singleton.mp hd] at hs
        rcases has_leafObject hs with hs | ⟨e, he, hs⟩
        · exact .inr hs
        · rcases hl with rfl | ⟨c, hc, -, -, hl⟩
          · cases he
          · exact .inl (has_iff.mpr (.inr ⟨c, hc, has_iff.mpr (.inr ⟨e, hl e he, hs⟩)⟩))
    | @down _ d q _ hd hy =>
      rw [hx'] at hd
      rcases List.mem_append.mp hd with hd | hd
      · exact .kept (.down (hothers d hd) hy)
      · rw [List.mem_singleton.mp hd] at hy ⊢
        exact origin_leafObject hl hy

theorem Has.of_leads {p : List String} {y : CliObject} {s : TdiTable} (h : Has y s)
    (hy : Leads x p y) : Has x s := by
  obtain ⟨q, z, hz, hleaf⟩ := h
  exact ⟨p ++ q, z, leads_append_iff.mpr ⟨y, hy, hz⟩, hleaf⟩

theorem Origin.has {spelled p : List String} {y : CliObject} {s : TdiTable}
    (h : Origin t spelled x p y) (hs : Has y s) : Has x s ∨ s = t := by
  cases h with
  | kept hy => exact .inl (hs.of_leads hy)
  | changed _ _ hbefore =>
    rcases hbefore with ⟨-, z, hz, hback⟩ | hnew
    · exact (hback s hs).imp_left fun h => h.of_leads hz
    · exact .inr (hnew s hs)

theorem Origin.down_child {spelled p : List String} {c y : CliObject} (hc : c ∈ x.children)
    (hplain : withoutDollars c.name = c.name) (h : Origin t spelled c p y) :
    Origin t (c.name :: spelled) x (c.name :: p) y := by
  cases h with
  | kept hy => exact .kept (.down hc hy)
  | changed hstart hleaf hbefore =>
    refine .changed ?_ ?_ ?_
    · rw [List.map_cons, hplain]
      exact (List.prefix_cons_inj _).mpr hstart
    · intro s commands hs
      obtain ⟨hst, hp, hchildren⟩ := hleaf s commands hs
      exact ⟨hst, by rw [List.map_cons, hplain, hp], hchildren⟩
    · refine hbefore.imp_left ?_
      rintro ⟨htake, z, hz, hback⟩
      exact ⟨by rw [List.length_cons, List.take_succ_cons, htake], z, .down hc hz, hback⟩

theorem Origin.down_new {spelled p : List String} {y : CliObject}
    (h : Origin t spelled (tdiNode k) p y) :
    Origin t (k :: spelled) x (withoutDollars k :: p) y := by
  have hnew : ∀ s, Has y s → s = t := fun s hs =>
    (h.has hs).resolve_left (not_has_tdiNode k s)
  cases h with
  | kept hy =>
    cases hy with
    | here => exact .changed (by simp) (fun s commands hs => by cases hs) (.inr hnew)
    | down hc => cases hc
  | changed hstart hleaf _ =>
    refine .changed ?_ ?_ (.inr hnew)
    · rw [List.map_cons]
      exact (List.prefix_cons_inj _).mpr hstart
    · intro s commands hs
      obtain ⟨hst, hp, hchildren⟩ := hleaf s commands hs
      exact ⟨hst, by rw [List.map_cons, hp], hchildren⟩

theorem origin_updateNodeTree {prefs : List String}
    (h : updateNodeTree (addLeaf t k) prefs x = .ok x') (hplain : Plain x) {p : List String}
    {y : CliObject} (hy : Leads x' p y) : Origin t (prefs ++ [k]) x p y := by
  induction prefs generalizing x x' p y with
  | nil => exact origin_addLeaf h hplain hy
  | cons k₀ prefs ih =>
    have hself := label_of_updateNodeTree h
    rcases updateNodeTree_cons_cases h with ⟨rfl, -⟩ | ⟨hlabel, hcases⟩
    · exact .kept hy
    rcases hcases with ⟨-, new, hnew, rfl⟩ | ⟨before, c, after, c', hsplit, rfl, hc', rfl⟩
    · have horigin := fun p y => ih (p := p) (y := y) hnew (plain_tdiNode k₀)
      cases hy with
      | here =>
        refine origin_self hlabel hself ?_
        intro d hd s hs
        rcases List.mem_append.mp hd with hd | hd
        · exact .inl (has_iff.mpr (.inr ⟨d, hd, hs⟩))
        · rw [List.mem_singleton.mp hd] at hs
          exact ((horigin [] new (.here new)).has hs).imp_left fun h => (not_has_tdiNode _ _ h).elim
      | @down _ d q _ hd hy =>
        rcases List.mem_append.mp hd with hd | hd
        · exact .kept (.down hd hy)
        · rw [List.mem_singleton.mp hd] at hy ⊢
          rw [name_of_updateNodeTree hnew]
          exact (horigin q y hy).down_new
    · have hc : c ∈ x.children := by simp [hsplit]
      have horigin := fun p y => ih (p := p) (y := y) hc' (hplain.child hc)
      have hmem : ∀ d ∈ before ++ c' :: after, d ∈ x.children ∨ d = c' := by
        intro d hd
        rw [hsplit]
        simp only [List.mem_append, List.mem_cons] at hd ⊢
        tauto
      cases hy with
      | here =>
        refine origin_self hlabel hself ?_
        intro d hd s hs
        rcases hmem d hd with hd | rfl
        · exact .inl (has_iff.mpr (.inr ⟨d, hd, hs⟩))
        · exact ((horigin [] d (.here d)).has hs).imp_left fun h => has_iff.mpr (.inr ⟨c, hc, h⟩)
      | @down _ d q _ hd hy =>
        rcases hmem d hd with hd | rfl
        · exact .kept (.down hd hy)
        · rw [name_of_updateNodeTree hc']
          exact (horigin q y hy).down_child hc (hplain.child hc).name

/-- Whatever is on the way to the table is a node and is spelled as it is shown, and no method
of the table has the name of a child to adopt. -/
def Fits (t : TdiTable) (spelled : List String) (x : CliObject) : Prop :=
  ∀ p y, p ≠ [] → Leads x p y → p <+: spelled.map withoutDollars →
    spelled.take p.length = p ∧ y.label = .node ∧
      (p = spelled.map withoutDollars → ∀ c ∈ y.children, c.name ∉ t.methodNames)

/-- The table is found on its path, and no other table is lost. -/
structure Filed (t : TdiTable) (path : List String) (x x' : CliObject) : Prop where
  distinct : x'.Distinct
  found : ∃ y, Leads x' path y ∧ IsLeafOf t y
  kept : ∀ p y s, Leads x p y → IsLeafOf s y → ∃ z, Leads x' p z ∧ IsLeafOf s z

theorem Fits.child {spelled : List String} {c : CliObject} (h : Fits t (c.name :: spelled) x)
    (hc : c ∈ x.children) (hplain : withoutDollars c.name = c.name) : Fits t spelled c := by
  intro p y hp hy hstart
  have hfit := h (c.name :: p) y (List.cons_ne_nil _ _) (.down hc hy)
  rw [List.map_cons, hplain, List.prefix_cons_inj] at hfit
  obtain ⟨htake, hlabel, hmethods⟩ := hfit hstart
  rw [List.length_cons, List.take_succ_cons] at htake
  exact ⟨(List.cons.inj htake).2, hlabel, fun hend => hmethods (by rw [hend])⟩

/-- A component that no child is spelled like is not shown for a child either. -/
theorem Fits.name_ne {spelled : List String} (h : Fits t (k :: spelled) x)
    (hnone : ∀ c ∈ x.children, c.name ≠ k) : withoutDollars k ∉ x.children.map NamedTree.name := by
  intro hmem
  obtain ⟨c, hc, hname⟩ := List.mem_map.mp hmem
  have hfit := h [c.name] c (List.cons_ne_nil _ _) (.down hc (.here c)) (by simp [hname])
  exact hnone c hc (List.cons.inj hfit.1).1.symm

theorem Fits.label {spelled : List String} {c : CliObject} (h : Fits t (c.name :: spelled) x)
    (hc : c ∈ x.children) (hplain : withoutDollars c.name = c.name) : c.label = .node :=
  (h [c.name] c (List.cons_ne_nil _ _) (.down hc (.here c)) (by simp [hplain])).2.1

theorem fits_tdiNode (spelled : List String) : Fits t spelled (tdiNode k) := by
  intro p y hp hy
  cases hy with
  | here => exact absurd rfl hp
  | down hc => cases hc

theorem children_leafObject {l : List CliObject} (hl : (l.map NamedTree.name).Nodup)
    (hnames : ∀ c ∈ l, c.name ∉ t.methodNames) : (leafObject k t l).children = l := by
  have hfold : l.foldl assign [] = l := foldl_assign_of_nodup (l := []) hl
  unfold leafObject
  rw [hfold, children_mk, List.filter_eq_self]
  simpa using hnames

/-- A new child with a name of its own, which has the table on its path. -/
theorem filed_append {path : List String} {new : CliObject} (hlabel : x.label = .node)
    (hdistinct : x.Distinct) (hname : new.name ∉ x.children.map NamedTree.name)
    (hnew : new.Distinct) (hfound : ∃ y, Leads new path y ∧ IsLeafOf t y) :
    Filed t (new.name :: path) x (x.withChildren (x.children ++ [new])) := by
  obtain ⟨hnodup, hchildren⟩ := distinct_iff.mp hdistinct
  refine ⟨distinct_iff.mpr ⟨?_, ?_⟩, ?_, ?_⟩
  · rw [children_withChildren, List.map_append]
    exact hnodup.append (List.nodup_singleton _) (by simpa using hname)
  · intro c hc
    rcases List.mem_append.mp hc with hc | hc
    · exact hchildren c hc
    · rw [List.mem_singleton.mp hc]
      exact hnew
  · obtain ⟨y, hy, hleaf⟩ := hfound
    exact ⟨y, .down (by simp) hy, hleaf⟩
  · intro p y s hy hleaf
    cases hy with
    | here => exact absurd hleaf (not_isLeafOf_of_node hlabel)
    | down hd hy => exact ⟨y, .down (List.mem_append_left _ hd) hy, hleaf⟩

/-- A child gives way to another of its name, in some place, under which nothing is lost. -/
theorem filed_replace {path : List String} {c c' : CliObject} {before after l : List CliObject}
    (hlabel : x.label = .node) (hdistinct : x.Distinct) (hsplit : x.children = before ++ c :: after)
    (hl : l.Perm (c' :: (before ++ after))) (hname : c'.name = c.name)
    (hfiled : Filed t path c c') : Filed t (c.name :: path) x (x.withChildren l) := by
  obtain ⟨hnodup, hchildren⟩ := distinct_iff.mp hdistinct
  have hc' : c' ∈ l := hl.mem_iff.mpr (List.mem_cons_self ..)
  have hperm : x.children.Perm (c :: (before ++ after)) := hsplit ▸ List.perm_middle
  refine ⟨distinct_iff.mpr ⟨?_, ?_⟩, ?_, ?_⟩
  · rw [children_withChildren, (hl.map _).nodup_iff, List.map_cons, hname, ← List.map_cons,
      ← (hperm.map _).nodup_iff]
    exact hnodup
  · intro d hd
    rcases List.mem_cons.mp (hl.mem_iff.mp hd) with rfl | hd
    · exact hfiled.distinct
    · exact hchildren d (hperm.mem_iff.mpr (List.mem_cons_of_mem _ hd))
  · obtain ⟨y, hy, hleaf⟩ := hfiled.found
    refine ⟨y, ?_, hleaf⟩
    rw [← hname]
    exact .down hc' hy
  · intro p y s hy hleaf
    cases hy with
    | here => exact absurd hleaf (not_isLeafOf_of_node hlabel)
    | @down _ d q _ hd hy =>
      rcases List.mem_cons.mp (hperm.mem_iff.mp hd) with rfl | hd
      · obtain ⟨z, hz, hleaf⟩ := hfiled.kept q y s hy hleaf
        refine ⟨z, ?_, hleaf⟩
        rw [← hname]
        exact .down hc' hz
      · exact ⟨y, .down (hl.mem_iff.mpr (List.mem_cons_of_mem _ hd)) hy, hleaf⟩

/-- A leaf in the place of a node whose children it all adopts. -/
theorem filed_leafObject {c : CliObject} (hc : c.label = .node) (hdistinct : c.Distinct)
    (hnames : ∀ d ∈ c.children, d.name ∉ t.methodNames) :
    Filed t [] c (leafObject k t c.children) := by
  have hchildren := children_leafObject (k := k) (distinct_iff.mp hdistinct).1 hnames
  refine ⟨?_, ⟨_, .here _, _, rfl⟩, ?_⟩
  · rw [distinct_iff, hchildren, ← distinct_iff]
    exact hdistinct
  · intro p y s hy hleaf
    cases hy with
    | here => exact absurd hleaf (not_isLeafOf_of_node hc)
    | down hd hy =>
      refine ⟨y, .down ?_ hy, hleaf⟩
      rw [hchildren]
      exact hd

theorem filed_addLeaf (hcompile : t.definitionsCompile = true) (hlabel : x.label = .node)
    (hplain : Plain x) (hdistinct : x.Distinct) (hfits : Fits t [k] x) :
    ∃ x', addLeaf t k x = .ok x' ∧ Filed t [withoutDollars k] x x' := by
  unfold addLeaf
  rw [hlabel]
  cases hfind : x.children.find? fun c => c.name = k with
  | none =>
    have hname : (leafObject k t []).name ∉ x.children.map NamedTree.name :=
      hfits.name_ne (by simpa using hfind)
    simp only [tdiLeaf_of_compile hcompile]
    exact ⟨_, rfl, filed_append hlabel hdistinct hname (distinct_of_children_eq_nil rfl)
      ⟨_, .here _, _, rfl⟩⟩
  | some c =>
    obtain ⟨hname, before, after, hsplit, hbefore⟩ := List.find?_eq_some_iff_append.mp hfind
    obtain rfl : c.name = k := by simpa using hname
    have hc : c ∈ x.children := by simp [hsplit]
    have hcplain := (hplain.child hc).name
    obtain ⟨-, hnode, hmethods⟩ :=
      hfits [c.name] c (List.cons_ne_nil _ _) (.down hc (.here c)) (by simp [hcplain])
    have hnodes : nodesOf c = .ok c.children := by
      unfold nodesOf
      rw [hnode]
    simp only [hnodes, tdiLeaf_of_compile hcompile]
    refine ⟨_, rfl, ?_⟩
    rw [hcplain]
    have hfiled : Filed t [] c (leafObject c.name t c.children) :=
      filed_leafObject hnode ((distinct_iff.mp hdistinct).2 c hc) (hmethods (by simp [hcplain]))
    have hleaf : (leafObject c.name t c.children).name = c.name := hcplain
    refine filed_replace hlabel hdistinct hsplit ?_ hleaf hfiled
    rw [hsplit, List.eraseP_append_right _ (by simpa using hbefore),
      List.eraseP_cons_of_pos (p := fun d : CliObject => decide (d.name = c.name)) hname]
    exact List.perm_append_singleton _ _

theorem filed_updateNodeTree (hcompile : t.definitionsCompile = true) {prefs : List String}
    (hlabel : x.label = .node) (hplain : Plain x) (hdistinct : x.Distinct)
    (hfits : Fits t (prefs ++ [k]) x) :
    ∃ x', updateNodeTree (addLeaf t k) prefs x = .ok x' ∧
      Filed t ((prefs ++ [k]).map withoutDollars) x x' := by
  induction prefs generalizing x with
  | nil => exact filed_addLeaf hcompile hlabel hplain hdistinct hfits
  | cons k₀ prefs ih =>
    unfold updateNodeTree
    rw [hlabel]
    rcases forall_not_or_split (fun c => decide (c.name = k₀)) x.children with
      hnone | ⟨before, c, after, hsplit, hbefore, hc⟩
    · obtain ⟨new, hnew, hfiled⟩ := ih (x := tdiNode k₀) rfl (plain_tdiNode k₀)
        (distinct_of_children_eq_nil rfl) (fits_tdiNode _)
      have hname : new.name = withoutDollars k₀ := name_of_updateNodeTree hnew
      simp only [updateFirst_of_forall_not hnone, hnew]
      refine ⟨_, rfl, ?_⟩
      rw [List.cons_append, List.map_cons, ← hname]
      refine filed_append hlabel hdistinct ?_ hfiled.distinct hfiled.found
      rw [hname]
      exact hfits.name_ne (by simpa using hnone)
    · obtain rfl : c.name = k₀ := by simpa using hc
      have hmem : c ∈ x.children := by simp [hsplit]
      have hcplain := (hplain.child hmem).name
      obtain ⟨c', hc', hfiled⟩ := ih (hfits.label hmem hcplain) (hplain.child hmem)
        ((distinct_iff.mp hdistinct).2 c hmem) (hfits.child hmem hcplain)
      simp only [hsplit, updateFirst_append hbefore hc, hc']
      refine ⟨_, rfl, ?_⟩
      rw [List.cons_append, List.map_cons, hcplain]
      exact filed_replace hlabel hdistinct hsplit List.perm_middle (name_of_updateNodeTree hc')
        hfiled

end Steps

end Tdi.Cli.CommandTree

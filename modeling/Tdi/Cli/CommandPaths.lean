import Tdi.Cli.CommandTreeSteps
import Tdi.Foundation.Separated

/-!
# Every table under its own name

The tables come in the order of their names, the greatest first. A table whose
displayed path starts like that of a greater one walks into what is there, unless it
spells a part of the path with a dollar sign. Then a second object of the same name
is made beside the first. The names that the object on the way has given to its
commands are lost for tables in another way. Where neither happens, and Python takes
the definitions that are written for the tables, every table is found under its own
name.
-/
namespace Tdi.Cli.CommandTree

open Foundation NamedTree

section Names

theorem dollar_lt_of_isAlphanum {c : Char} (h : c.isAlphanum ∨ c = '_') : '$' < c := by
  rcases h with h | rfl
  · simp only [Char.isAlphanum, Char.isAlpha, Char.isUpper, Char.isLower, Char.isDigit,
      Bool.or_eq_true, Bool.and_eq_true, decide_eq_true_eq, ge_iff_le] at h
    rcases h with (⟨h, -⟩ | ⟨h, -⟩) | ⟨h, -⟩ <;> exact lt_of_lt_of_le (by decide) h
  · decide

theorem intercalate_split (s : String) :
    ['.'].intercalate ((split s).map String.toList) = s.toList := by
  simp [split, Function.comp_def, List.intercalate_splitOn]

theorem split_ne_nil (s : String) : split s ≠ [] := by
  simp [split, List.splitOn_ne_nil]

theorem toList_withoutDollars (s : String) :
    (withoutDollars s).toList = s.toList.filter (· ≠ '$') := by
  simp [withoutDollars]

theorem dollar_lt_of_canBind {s : String} (h : canBind s = true) {c : Char} (hc : c ∈ s.toList) :
    '$' < c := by
  rw [canBind, Bool.and_eq_true] at h
  have hword := isAlphanum_or_underscore h.1 hc
  exact dollar_lt_of_isAlphanum (by simpa using hword)

variable {s t : TdiTable}

theorem intercalate_displayed (t : TdiTable) :
    ['.'].intercalate (t.displayed.map String.toList) = t.name.text.toList.filter (· ≠ '$') := by
  rw [← intercalate_split t.name.text, filter_intercalate (by decide), TdiTable.displayed,
    TdiTable.prefs, List.map_map, List.map_map]
  congr 1
  apply List.map_congr_left
  intro p _
  exact toList_withoutDollars p

theorem displayed_injOn (h : s.displayed = t.displayed) :
    withoutDollars s.name.text = withoutDollars t.name.text := by
  rw [withoutDollars, withoutDollars, ← intercalate_displayed s, ← intercalate_displayed t, h]

theorem withoutDollars_of_mem_displayed {k : String} (h : k ∈ t.displayed) :
    withoutDollars k = k := by
  obtain ⟨p, -, rfl⟩ := List.mem_map.mp h
  exact withoutDollars_withoutDollars p

theorem dollar_le_of_mem_name {c : Char} (hc : c ∈ t.name.text.toList) : c = '$' ∨ '$' < c := by
  rw [← intercalate_split t.name.text] at hc
  rcases mem_intercalate hc with rfl | ⟨l, hl, hc⟩
  · exact .inr (by decide)
  · obtain ⟨p, hp, rfl⟩ := List.mem_map.mp hl
    by_cases hdollar : c = '$'
    · exact .inl hdollar
    · have hmem : c ∈ (withoutDollars p).toList := by
        rw [toList_withoutDollars]
        exact List.mem_filter.mpr ⟨hc, by simpa using hdollar⟩
      exact .inr (dollar_lt_of_canBind (List.all_eq_true.mp t.name.components p hp) hmem)

/-- A table that spells what is shown of another, and goes on, comes before it. -/
theorem name_lt_of_take (hspelled : t.prefs.take s.displayed.length = s.displayed)
    (hne : s.displayed ≠ t.displayed) : s.name.text < t.name.text := by
  have hprefs : t.prefs = s.displayed ++ t.prefs.drop s.displayed.length := by
    rw [← List.take_append_drop s.displayed.length t.prefs, hspelled]
    simp
  cases hrest : t.prefs.drop s.displayed.length with
  | nil =>
    rw [hrest, List.append_nil] at hprefs
    have hmap : t.displayed = s.displayed.map withoutDollars := congrArg _ hprefs
    have hid : s.displayed.map withoutDollars = s.displayed.map id :=
      List.map_congr_left fun k hk => withoutDollars_of_mem_displayed hk
    exact absurd (by rw [hmap, hid, List.map_id]) hne
  | cons m ms =>
    have hne : s.displayed ≠ [] := List.map_eq_nil_iff.not.mpr (split_ne_nil s.name.text)
    obtain ⟨l, ls, hs⟩ := List.exists_cons_of_ne_nil hne
    rw [String.lt_iff_toList_lt, ← intercalate_split t.name.text]
    change _ < ['.'].intercalate (t.prefs.map String.toList)
    rw [hprefs, hrest, List.map_append, hs, List.map_cons, List.map_cons, intercalate_append_cons,
      ← List.map_cons, ← hs, intercalate_displayed]
    exact lt_filter_append (by decide) fun c hc => dollar_le_of_mem_name hc

theorem displayed_inj {tables : List TdiTable}
    (hdistinct : (tables.map fun t => withoutDollars t.name.text).Nodup) (hs : s ∈ tables)
    (ht : t ∈ tables) (h : s.displayed = t.displayed) : s = t :=
  List.inj_on_of_nodup_map hdistinct hs ht (displayed_injOn h)

end Names

section Conditions

variable (tables : List TdiTable)

/-- As far as a table is shown on the way to one of a greater name, it spells the names as they
are shown. -/
def SpelledAsShown : Prop :=
  ∀ s ∈ tables, ∀ t ∈ tables, t.name.text < s.name.text →
    ∀ q, q <+: s.displayed → q <+: t.displayed → t.prefs.take q.length = q

/-- The names that the object on a path assigns to its own commands: the methods of the table
that is filed there, or else those of a node. -/
def commandsOf (q : List String) : List String :=
  match tables.find? fun s => s.displayed = q with
  | some s => s.methodNames
  | none => nodeCommands

/-- No component has the name of a command of the object it is looked up in. -/
def NoneHidden : Prop :=
  ∀ t ∈ tables, ∀ q k r, t.displayed = q ++ k :: r → k ∉ commandsOf tables q

end Conditions

/-- What holds of the tree after the tables of a list, whatever their names. -/
structure Placed (done : List TdiTable) (x : CliObject) : Prop where
  label : x.label = .node
  plain : Plain x
  under : ∀ p y, Leads x p y → p ≠ [] → ∃ s ∈ done, p <+: s.displayed
  leaf : ∀ p y s commands, Leads x p y → y.label = .leaf s commands →
    s ∈ done ∧ p = s.displayed ∧ ∀ c ∈ y.children, c.name ∉ s.methodNames

section Runs

variable {done l : List TdiTable} {t : TdiTable} {x x' : CliObject}

theorem dropLast_append_getLastD (t : TdiTable) :
    t.prefs.dropLast ++ [t.prefs.getLastD ""] = t.prefs := by
  have hne : t.prefs ≠ [] := split_ne_nil t.name.text
  rw [List.getLastD_eq_getLast?, List.getLast?_eq_some_getLast hne, Option.getD_some,
    List.dropLast_append_getLast hne]

theorem addTable_of_ready (h : t.tableReady = true) :
    addTable x t = updateNodeTree (addLeaf t (t.prefs.getLastD "")) t.prefs.dropLast x := by
  rw [addTable, if_pos h]

theorem definitionsCompile_of_addTable (hready : t.tableReady = true)
    (h : addTable x t = .ok x') : t.definitionsCompile = true := by
  rw [addTable_of_ready hready] at h
  exact definitionsCompile_of_updateNodeTree h

theorem origin_addTable (hready : t.tableReady = true) (h : addTable x t = .ok x')
    (hplain : Plain x) {p : List String} {y : CliObject} (hy : Leads x' p y) :
    Origin t t.prefs x p y := by
  rw [addTable_of_ready hready] at h
  rw [← dropLast_append_getLastD t]
  exact origin_updateNodeTree h hplain hy

theorem placed_tdiNode (k : String) : Placed [] (tdiNode k) := by
  refine ⟨rfl, plain_tdiNode k, ?_, ?_⟩
  · intro p y hy hp
    cases hy with
    | here => exact absurd rfl hp
    | down hc => cases hc
  · intro p y s commands hy hs
    cases hy with
    | here => cases hs
    | down hc => cases hc

theorem Placed.step (hx : Placed done x) (hready : t.tableReady = true)
    (h : addTable x t = .ok x') : Placed (done ++ [t]) x' := by
  have horigin := fun p y => origin_addTable (p := p) (y := y) hready h hx.plain
  rw [addTable_of_ready hready] at h
  refine ⟨(label_of_updateNodeTree h).trans hx.label, ?_, ?_, ?_⟩
  · intro p y hy
    by_cases hp : p = []
    · rw [hp, leads_nil_iff] at hy
      rw [hy, name_of_updateNodeTree h]
      exact hx.plain.name
    · cases horigin p y hy with
      | kept hy => exact hx.plain p y hy
      | changed hstart =>
        exact withoutDollars_of_mem_displayed (hstart.subset (hy.name_mem hp))
  · intro p y hy hp
    cases horigin p y hy with
    | kept hy =>
      obtain ⟨s, hs, hstart⟩ := hx.under p y hy hp
      exact ⟨s, List.mem_append_left _ hs, hstart⟩
    | changed hstart => exact ⟨t, by simp, hstart⟩
  · intro p y s commands hy hs
    cases horigin p y hy with
    | kept hy =>
      obtain ⟨hmem, hp, hchildren⟩ := hx.leaf p y s commands hy hs
      exact ⟨List.mem_append_left _ hmem, hp, hchildren⟩
    | changed _ hleaf =>
      obtain ⟨rfl, hp, hchildren⟩ := hleaf s commands hs
      exact ⟨by simp, hp, hchildren⟩

theorem Placed.run (hx : Placed done x) (hready : ∀ t ∈ l, t.tableReady = true)
    (h : l.foldlM addTable x = .ok x') : Placed (done ++ l) x' := by
  induction l generalizing done x with
  | nil =>
    cases h
    rw [List.append_nil]
    exact hx
  | cons t l ih =>
    rw [List.forall_mem_cons] at hready
    obtain ⟨y, hstep, hrest⟩ := foldlM_cons_eq_ok_iff.mp h
    have hy := ih (hx.step hready.1 hstep) hready.2 hrest
    rwa [List.append_assoc] at hy

theorem definitionsCompile_of_run (hready : ∀ t ∈ l, t.tableReady = true)
    (h : l.foldlM addTable x = .ok x') : ∀ t ∈ l, t.definitionsCompile = true := by
  induction l generalizing x with
  | nil => simp
  | cons t l ih =>
    rw [List.forall_mem_cons] at hready ⊢
    obtain ⟨y, hstep, hrest⟩ := foldlM_cons_eq_ok_iff.mp h
    exact ⟨definitionsCompile_of_addTable hready.1 hstep, ih hready.2 hrest⟩

theorem Placed.mem_of_has (hx : Placed done x) {s : TdiTable} (h : Has x s) : s ∈ done := by
  obtain ⟨p, y, hy, commands, hs⟩ := h
  exact (hx.leaf p y s commands hy hs).1

/-- Two tables that are below one object were so before other tables were filed. -/
theorem has_both_before {s t : TdiTable} (hx : Placed done x)
    (hready : ∀ u ∈ l, u.tableReady = true) (h : l.foldlM addTable x = .ok x') (hs : s ∉ l)
    (ht : t ∉ l) {q : List String} {y : CliObject} (hy : Leads x' q y) (hys : Has y s)
    (hyt : Has y t) : ∃ z, Leads x q z ∧ Has z s ∧ Has z t := by
  induction l generalizing done x with
  | nil =>
    cases h
    exact ⟨y, hy, hys, hyt⟩
  | cons u l ih =>
    rw [List.forall_mem_cons] at hready
    rw [List.mem_cons, not_or] at hs ht
    obtain ⟨x₁, hstep, hrest⟩ := foldlM_cons_eq_ok_iff.mp h
    obtain ⟨z, hz, hzs, hzt⟩ := ih (hx.step hready.1 hstep) hready.2 hrest hs.2 ht.2
    cases origin_addTable hready.1 hstep hx.plain hz with
    | kept hz => exact ⟨z, hz, hzs, hzt⟩
    | changed _ _ hbefore =>
      rcases hbefore with ⟨-, w, hw, hback⟩ | hnew
      · exact ⟨w, hw, (hback s hzs).resolve_right hs.1, (hback t hzt).resolve_right ht.1⟩
      · exact absurd (hnew s hzs) hs.1

end Runs

section Follow

variable {x y : CliObject} {k : String} {p : List String}

theorem mem_children_of_getChild {c : CliObject} (h : getChild x k = some c) :
    c ∈ x.children ∧ c.name = k := by
  unfold getChild at h
  split at h
  next =>
    split_ifs at h
    have hmem := List.mem_of_find?_eq_some h
    exact ⟨List.mem_reverse.mp hmem, by simpa using List.find?_some h⟩
  next => exact ⟨List.mem_of_find?_eq_some h, by simpa using List.find?_some h⟩

theorem not_mem_nodeCommands_of_getChild {c : CliObject} (hlabel : x.label = .node)
    (h : getChild x k = some c) : k ∉ nodeCommands := by
  intro hk
  unfold getChild at h
  rw [hlabel] at h
  simp only [if_pos hk] at h
  cases h

theorem leads_of_follow (h : follow x p = some y) : Leads x p y := by
  induction p generalizing x with
  | nil =>
    cases h
    exact .here _
  | cons k p ih =>
    obtain ⟨c, hc, hy⟩ := Option.bind_eq_some_iff.mp h
    obtain ⟨hmem, rfl⟩ := mem_children_of_getChild hc
    exact .down hmem (ih hy)

theorem follow_append (x : CliObject) (q r : List String) :
    follow x (q ++ r) = (follow x q).bind fun y => follow y r := by
  induction q generalizing x with
  | nil => rfl
  | cons k q ih =>
    rw [List.cons_append, follow, follow, Option.bind_assoc]
    congr 1
    funext c
    exact ih c

/-- Where the names of siblings differ, a path on which no command is met is followed. -/
theorem follow_of_leads (hdistinct : x.Distinct) (h : Leads x p y)
    (hnode : ∀ q k r z, p = q ++ k :: r → Leads x q z → z.label = .node → k ∉ nodeCommands) :
    follow x p = some y := by
  induction h with
  | here => rfl
  | @down x c q y hc _ ih =>
    obtain ⟨hnodup, hchildren⟩ := distinct_iff.mp hdistinct
    have hchild : getChild x c.name = some c := by
      unfold getChild
      split
      next hlabel =>
        rw [if_neg (hnode [] c.name q x rfl (.here x) hlabel)]
        exact find?_name_eq_some (by simpa using hnodup) (List.mem_reverse.mpr hc)
      next => exact find?_name_eq_some hnodup hc
    rw [follow, hchild]
    refine ih (hchildren c hc) fun q' k r z hq hz hlabel => ?_
    exact hnode (c.name :: q') k r z (by rw [hq]; rfl) (.down hc hz) hlabel

end Follow

section Claim

variable {tables : List TdiTable} {p4Name : String} {x : CliObject}

theorem sortedTables_pairwise (tables : List TdiTable) :
    (sortedTables tables).Pairwise fun s t => t.name.text ≤ s.name.text := by
  have htotal : Std.Total fun s t : TdiTable => t.name.text ≤ s.name.text :=
    ⟨fun s t => le_total t.name.text s.name.text⟩
  have htrans : IsTrans TdiTable fun s t => t.name.text ≤ s.name.text :=
    ⟨fun _ _ _ hst htu => htu.trans hst⟩
  exact List.pairwise_insertionSort _ tables

theorem mem_sortedTables {t : TdiTable} : t ∈ sortedTables tables ↔ t ∈ tables :=
  (List.perm_insertionSort _ tables).mem_iff

theorem nodup_sortedTables
    (hdistinct : (tables.map fun t => withoutDollars t.name.text).Nodup) :
    (sortedTables tables).Nodup :=
  (List.perm_insertionSort _ tables).nodup_iff.mpr hdistinct.of_map

/-- A table found below an object: at its end, or on the way. -/
theorem exists_has_of_prefix {t : TdiTable} {p q : List String} {y : CliObject}
    (hstart : q <+: p) (hy : Leads x p y) (hleaf : IsLeafOf t y) : ∃ z, Leads x q z ∧ Has z t := by
  obtain ⟨r, rfl⟩ := hstart
  obtain ⟨z, hz, hy⟩ := leads_append_iff.mp hy
  exact ⟨z, hz, r, y, hy, hleaf⟩

theorem spelledAsShown_of_found (hready : ∀ t ∈ tables, t.tableReady = true)
    (hdistinct : (tables.map fun t => withoutDollars t.name.text).Nodup)
    (h : makeDeepTree p4Name tables = .ok x) (hfound : EveryTableFound tables x) :
    SpelledAsShown tables := by
  intro s hs t ht hlt q hqs hqt
  by_contra hspelled
  obtain ⟨ys, hys, hsleaf⟩ := hfound.found s hs
  obtain ⟨yt, hyt, htleaf⟩ := hfound.found t ht
  obtain ⟨z, hz, hzs⟩ := exists_has_of_prefix hqs (leads_of_follow hys) hsleaf
  obtain ⟨z', hz', hzt⟩ := exists_has_of_prefix hqt (leads_of_follow hyt) htleaf
  obtain rfl := hfound.distinct.unique hz hz'
  -- when the table was filed, the other one was below the same object already
  obtain ⟨before, after, hsplit⟩ := List.append_of_mem (mem_sortedTables.mpr ht)
  have hnodup := nodup_sortedTables hdistinct
  have hsorted := sortedTables_pairwise tables
  have hreadySorted : ∀ u ∈ sortedTables tables, u.tableReady = true :=
    fun u hu => hready u (mem_sortedTables.mp hu)
  rw [hsplit] at hnodup hsorted hreadySorted
  rw [makeDeepTree, hsplit, List.foldlM_append] at h
  obtain ⟨x₀, hbefore, h⟩ := bind_eq_ok_iff.mp h
  obtain ⟨x₁, hstep, hafter⟩ := foldlM_cons_eq_ok_iff.mp h
  have hplaced : Placed before x₀ := (placed_tdiNode p4Name).run
    (fun u hu => hreadySorted u (List.mem_append_left _ hu)) hbefore
  have htready := hready t ht
  have hs' : s ∉ after := by
    intro hmem
    have hle := (List.pairwise_cons.mp (List.pairwise_append.mp hsorted).2.1).1 s hmem
    exact absurd hlt (not_lt.mpr hle)
  have ht' : t ∉ after ∧ t ∉ before := by
    rw [List.nodup_middle, List.nodup_cons, List.mem_append, not_or] at hnodup
    exact hnodup.1.symm
  obtain ⟨w, hw, hws, hwt⟩ := has_both_before (hplaced.step htready hstep)
    (fun u hu => hreadySorted u (by simp [hu])) hafter hs' ht'.1 hz hzs hzt
  cases origin_addTable htready hstep hplaced.plain hw with
  | kept hw => exact ht'.2 (hplaced.mem_of_has (hwt.of_leads hw))
  | changed _ _ hcases =>
    rcases hcases with ⟨htake, -⟩ | hnew
    · exact hspelled htake
    · rw [hnew s hws] at hlt
      exact lt_irrefl _ hlt

theorem noneHidden_of_found (hready : ∀ t ∈ tables, t.tableReady = true)
    (h : makeDeepTree p4Name tables = .ok x) (hfound : EveryTableFound tables x) :
    NoneHidden tables := by
  have hplaced : Placed (sortedTables tables) x :=
    (placed_tdiNode p4Name).run (fun u hu => hready u (mem_sortedTables.mp hu)) h
  intro t ht q k r hpath
  obtain ⟨z, hz, -⟩ := hfound.found t ht
  rw [hpath, follow_append] at hz
  obtain ⟨y, hy, hz⟩ := Option.bind_eq_some_iff.mp hz
  obtain ⟨c, hc, -⟩ := Option.bind_eq_some_iff.mp hz
  unfold commandsOf
  split
  next s hs =>
    obtain rfl : s.displayed = q := by simpa using List.find?_some hs
    obtain ⟨y', hy', commands, hleaf⟩ := hfound.found s (List.mem_of_find?_eq_some hs)
    obtain rfl := Option.some.inj (hy.symm.trans hy')
    obtain ⟨hmem, rfl⟩ := mem_children_of_getChild hc
    exact (hplaced.leaf _ y s commands (leads_of_follow hy) hleaf).2.2 c hmem
  next hnone =>
    cases hlabel : y.label with
    | node => exact not_mem_nodeCommands_of_getChild hlabel hc
    | leaf s commands =>
      obtain ⟨hs, rfl, -⟩ := hplaced.leaf _ y s commands (leads_of_follow hy) hlabel
      have hne := List.find?_eq_none.mp hnone s (mem_sortedTables.mp hs)
      exact (hne (decide_eq_true rfl)).elim

theorem commandsOf_displayed
    (hdistinct : (tables.map fun t => withoutDollars t.name.text).Nodup) {t : TdiTable}
    (ht : t ∈ tables) : commandsOf tables t.displayed = t.methodNames := by
  unfold commandsOf
  split
  next s hs =>
    have hname : s.displayed = t.displayed := by simpa using List.find?_some hs
    rw [displayed_inj hdistinct (List.mem_of_find?_eq_some hs) ht hname]
  next hnone => exact (List.find?_eq_none.mp hnone t ht (decide_eq_true rfl)).elim

theorem fits_of_placed (hdistinct : (tables.map fun t => withoutDollars t.name.text).Nodup)
    (hspelled : SpelledAsShown tables) (hhidden : NoneHidden tables) {done : List TdiTable}
    {t : TdiTable} (hplaced : Placed done x) (hdone : ∀ s ∈ done, s ∈ tables) (ht : t ∈ tables)
    (hlt : ∀ s ∈ done, t.name.text < s.name.text) : Fits t t.prefs x := by
  have hnotPrefix : ∀ s ∈ done, ¬s.displayed <+: t.displayed := by
    intro s hs hstart
    have htake := hspelled s (hdone s hs) t ht (hlt s hs) _ List.prefix_rfl hstart
    refine lt_asymm (hlt s hs) (name_lt_of_take htake fun hname => ?_)
    exact absurd (hlt s hs) (by simp [displayed_inj hdistinct (hdone s hs) ht hname])
  intro p y hp hy hstart
  obtain ⟨s, hs, hps⟩ := hplaced.under p y hy hp
  refine ⟨hspelled s (hdone s hs) t ht (hlt s hs) p hps hstart, ?_, ?_⟩
  · cases hlabel : y.label with
    | node => rfl
    | leaf s' commands =>
      obtain ⟨hs', rfl, -⟩ := hplaced.leaf p y s' commands hy hlabel
      exact absurd hstart (hnotPrefix s' hs')
  · intro hend c hc
    have hbelow : Leads x (p ++ [c.name]) c := leads_append_iff.mpr ⟨y, hy, .down hc (.here c)⟩
    obtain ⟨s', hs', r, hr⟩ := hplaced.under _ c hbelow (by simp)
    have hpath : s'.displayed = t.displayed ++ c.name :: r := by
      rw [← hr, hend]
      simp [TdiTable.displayed]
    have hcommand := hhidden s' (hdone s' hs') t.displayed c.name r hpath
    rwa [commandsOf_displayed hdistinct ht] at hcommand

/-- The run over the tables: every step files its table, and none is lost again. -/
theorem foldlM_addTable_found (hready : ∀ t ∈ tables, t.tableReady = true)
    (hcompile : ∀ t ∈ tables, t.definitionsCompile = true)
    (hdistinct : (tables.map fun t => withoutDollars t.name.text).Nodup)
    (hspelled : SpelledAsShown tables) (hhidden : NoneHidden tables) {done l : List TdiTable}
    (hl : ∀ t ∈ done ++ l, t ∈ tables)
    (hsorted : (done ++ l).Pairwise fun s t => t.name.text < s.name.text)
    (hplaced : Placed done x) (hx : x.Distinct)
    (hfound : ∀ s ∈ done, ∃ y, Leads x s.displayed y ∧ IsLeafOf s y) :
    ∃ x', l.foldlM addTable x = .ok x' ∧ x'.Distinct ∧
      ∀ s ∈ done ++ l, ∃ y, Leads x' s.displayed y ∧ IsLeafOf s y := by
  induction l generalizing done x with
  | nil => exact ⟨x, rfl, hx, by simpa using hfound⟩
  | cons t l ih =>
    have ht := hl t (by simp)
    have hfits := fits_of_placed hdistinct hspelled hhidden hplaced
      (fun s hs => hl s (List.mem_append_left _ hs)) ht
      (fun s hs => (List.pairwise_append.mp hsorted).2.2 s hs t (by simp))
    rw [← dropLast_append_getLastD t] at hfits
    obtain ⟨x₁, hstep, hfiled⟩ :=
      filed_updateNodeTree (hcompile t ht) hplaced.label hplaced.plain hx hfits
    rw [← addTable_of_ready (hready t ht)] at hstep
    rw [dropLast_append_getLastD] at hfiled
    have hassoc : done ++ t :: l = done ++ [t] ++ l := by simp
    rw [hassoc] at hl hsorted
    have hfound' : ∀ s ∈ done ++ [t], ∃ y, Leads x₁ s.displayed y ∧ IsLeafOf s y := by
      intro s hs
      rcases List.mem_append.mp hs with hs | hs
      · obtain ⟨y, hy, hleaf⟩ := hfound s hs
        exact hfiled.kept _ y s hy hleaf
      · rw [List.mem_singleton.mp hs]
        exact hfiled.found
    obtain ⟨x', hrun, hrest⟩ :=
      ih hl hsorted (hplaced.step (hready t ht) hstep) hfiled.distinct hfound'
    refine ⟨x', ?_, ?_⟩
    · rw [List.foldlM_cons, hstep]
      exact hrun
    · rw [hassoc]
      exact hrest

theorem found_of_conditions (hready : ∀ t ∈ tables, t.tableReady = true)
    (hdistinct : (tables.map fun t => withoutDollars t.name.text).Nodup)
    (hcompile : ∀ t ∈ tables, t.definitionsCompile = true)
    (hspelled : SpelledAsShown tables) (hhidden : NoneHidden tables) :
    ∃ x, makeDeepTree p4Name tables = .ok x ∧ EveryTableFound tables x := by
  have hsorted : ([] ++ sortedTables tables).Pairwise
      fun s t : TdiTable => t.name.text < s.name.text := by
    have hnames : ((sortedTables tables).map fun t => withoutDollars t.name.text).Nodup :=
      ((List.perm_insertionSort _ tables).map _).nodup_iff.mpr hdistinct
    refine ((sortedTables_pairwise tables).and (List.pairwise_map.mp hnames)).imp ?_
    rintro s t ⟨hle, hne⟩
    exact lt_of_le_of_ne hle fun htext => hne (by rw [htext])
  have hmem : ∀ t ∈ [] ++ sortedTables tables, t ∈ tables := fun t ht => mem_sortedTables.mp ht
  obtain ⟨x, hx, hdistinctTree, hfound⟩ :=
    foldlM_addTable_found hready hcompile hdistinct hspelled hhidden hmem hsorted
      (placed_tdiNode p4Name) (distinct_of_children_eq_nil rfl) (by simp)
  have hplaced : Placed (sortedTables tables) x :=
    (placed_tdiNode p4Name).run (fun u hu => hready u (mem_sortedTables.mp hu)) hx
  refine ⟨x, hx, hdistinctTree, fun t ht => ?_⟩
  obtain ⟨y, hy, hleaf⟩ := hfound t (mem_sortedTables.mpr ht)
  refine ⟨y, follow_of_leads hdistinctTree hy fun q k r z hpath hz hlabel => ?_, hleaf⟩
  have hcommand := hhidden t ht q k r hpath
  unfold commandsOf at hcommand
  split at hcommand
  next s hs =>
    obtain rfl : s.displayed = q := by simpa using List.find?_some hs
    obtain ⟨z', hz', hleaf'⟩ := hfound s (mem_sortedTables.mpr (List.mem_of_find?_eq_some hs))
    rw [hdistinctTree.unique hz' hz] at hleaf'
    exact (not_isLeafOf_of_node hlabel hleaf').elim
  next => exact hcommand

/-- A table that offers `get`, under a name. -/
def readTable (name : TableName) : TdiTable :=
  ⟨name, true, ["info", "entry", "string_choices", "get"], [], false, .empty, true⟩

def nestedTables : List TdiTable :=
  [readTable ⟨"pipe.ipv4", by decide⟩, readTable ⟨"pipe.ipv4.idle", by decide⟩,
    readTable ⟨"pipe.$mirror.cfg", by decide⟩]

def dollarTables : List TdiTable :=
  [readTable ⟨"a.b.c", by decide⟩, readTable ⟨"a.$b", by decide⟩]

-- a nested table that is named like a method of the table around it
example : ((makeDeepTree "switch" [readTable ⟨"acl", by decide⟩,
    readTable ⟨"acl.get", by decide⟩]).toOption.bind fun x => follow x ["acl", "get"]).isNone := by
  decide

end Claim

end Tdi.Cli.CommandTree

import Tdi.Cli.CommandPaths
import Tdi.Defs
import Tdi.Foundation.OuterLeaves
import Tdi.Foundation.Traced

/-!
# Commands of a node

`dump` and `clear` of a node go through its children: a node is asked in turn, and a
table if it supports the command. `info` collects a line for each table in the same
way, from the dictionary of the children. None of them goes below a table, so a nested
table is left out where the table around it has a leaf.

A child is an attribute of its parent. One that is named like a command takes the place
of the method, and the command of a node further up ends with the attempt to call it.
-/
namespace Tdi.Cli.CommandTree

open Foundation NamedTree

section Walks

variable {ε ω : Type*}

/-- `exec("self.{} = child")` has bound a child in the place of the method. -/
def MethodReplaced (cmd : String) (x : CliObject) : Prop := cmd ∈ x.children.map NamedTree.name

instance (cmd : String) (x : CliObject) : Decidable (MethodReplaced cmd x) :=
  inferInstanceAs (Decidable (_ ∈ _))

mutual

/-- `TDINode.dump` and `TDINode.clear`, whatever they do with a table. -/
def nodeCall (cmd : String) (typeError : ε) (leafCall : TdiTable → Traced ε ω Unit) :
    CliObject → Traced ε ω Unit
  | mk _ _ children => childCalls cmd typeError leafCall children

/-- The loop over `_children`. Another object in the place of a method takes no arguments. -/
def childCalls (cmd : String) (typeError : ε) (leafCall : TdiTable → Traced ε ω Unit) :
    List CliObject → Traced ε ω Unit
  | [] => pure ()
  | c :: l => do
    (match c.label with
      | .node =>
        if MethodReplaced cmd c then Traced.raise typeError else nodeCall cmd typeError leafCall c
      | .leaf t _ =>
        if cmd ∈ t.supportedCommands then
          if MethodReplaced cmd c then Traced.raise typeError else leafCall t
        else pure ())
    childCalls cmd typeError leafCall l

end

inductive CallError where
  | typeError

/-- The tables for which the command of a node calls the command of a table, and how that ends
if no table raises. -/
def visits (cmd : String) (x : CliObject) : Traced CallError TdiTable Unit :=
  nodeCall cmd .typeError (fun t => Traced.emit [t]) x

mutual

/-- `_get_full_leaf_info`, of which each line is about one table. -/
def fullLeafInfo : CliObject → List TdiTable
  | mk _ label children =>
    match label with
    | .leaf t _ => [t]
    | .node =>
      ((Dict.ofList (childInfos children)).entries.filter (·.1 ∉ nodeCommands)).flatMap (·.2)

/-- What the children have, under the names by which `_get_children` knows them. -/
def childInfos : List CliObject → List (String × List TdiTable)
  | [] => []
  | c :: l => (c.name, fullLeafInfo c) :: childInfos l

end

/-- The table of a leaf. -/
def tableOf : Kind → Option TdiTable
  | .node => none
  | .leaf t _ => some t

def called (cmd : String) (tables : List TdiTable) : List TdiTable :=
  tables.filter fun t => cmd ∈ t.supportedCommands

/-- A node, or a table that supports the command. -/
def Answers (cmd : String) (x : CliObject) : Prop :=
  ∀ t commands, x.label = .leaf t commands → cmd ∈ t.supportedCommands

/-- The walk asks the object on the path, unless it has ended before. -/
inductive Asks (cmd : String) : CliObject → List String → CliObject → Prop
  | here {x c} : c ∈ x.children → Answers cmd c → Asks cmd x [c.name] c
  | down {x c q z} : c ∈ x.children → c.label = .node → Asks cmd c q z →
      Asks cmd x (c.name :: q) z

/-- Some object that is asked has lost the method. -/
def Blocked (cmd : String) (x : CliObject) : Prop := ∃ q z, Asks cmd x q z ∧ MethodReplaced cmd z

variable {cmd : String} {typeError : ε} {leafCall : TdiTable → Traced ε ω Unit} {x : CliObject}

theorem called_append (l l' : List TdiTable) :
    called cmd (l ++ l') = called cmd l ++ called cmd l' :=
  List.filter_append l l'

theorem nodeCall_eq_childCalls (x : CliObject) :
    nodeCall cmd typeError leafCall x = childCalls cmd typeError leafCall x.children := by
  obtain ⟨k, label, children⟩ := x
  rw [nodeCall]
  rfl

theorem childCalls_eq_replay {l : List CliObject}
    (h : ∀ c ∈ l, nodeCall cmd typeError leafCall c =
      Traced.replay leafCall (fun _ => typeError) (visits cmd c)) :
    childCalls cmd typeError leafCall l =
      Traced.replay leafCall (fun _ => typeError)
        (childCalls cmd CallError.typeError (fun t => Traced.emit [t]) l) := by
  induction l with
  | nil => rw [childCalls, childCalls, Traced.replay_pure]
  | cons c l ih =>
    rw [List.forall_mem_cons] at h
    rw [childCalls, childCalls, Traced.replay_bind, ih h.2]
    congr 1
    cases c.label with
    | node =>
      by_cases hreplaced : MethodReplaced cmd c
      · simp only [if_pos hreplaced, Traced.replay_raise]
      · simp only [if_neg hreplaced]
        exact h.1
    | leaf t commands =>
      by_cases hcmd : cmd ∈ t.supportedCommands
      · by_cases hreplaced : MethodReplaced cmd c
        · simp only [if_pos hcmd, if_pos hreplaced, Traced.replay_raise]
        · simp only [if_pos hcmd, if_neg hreplaced, Traced.replay_emit]
      · simp only [if_neg hcmd, Traced.replay_pure]

/-- Whatever is done with a table, the walk is the same. -/
theorem nodeCall_eq_replay (x : CliObject) :
    nodeCall cmd typeError leafCall x =
      Traced.replay leafCall (fun _ => typeError) (visits cmd x) := by
  induction x using NamedTree.induction_on with
  | step x ih =>
    rw [visits, nodeCall_eq_childCalls, nodeCall_eq_childCalls]
    exact childCalls_eq_replay ih

theorem blocked_iff : Blocked cmd x ↔ ∃ c ∈ x.children,
    Answers cmd c ∧ MethodReplaced cmd c ∨ c.label = .node ∧ Blocked cmd c := by
  constructor
  · intro ⟨_, z, hz, hreplaced⟩
    cases hz with
    | here hc hanswers => exact ⟨_, hc, .inl ⟨hanswers, hreplaced⟩⟩
    | down hc hnode hz => exact ⟨_, hc, .inr ⟨hnode, _, z, hz, hreplaced⟩⟩
  · rintro ⟨c, hc, ⟨hanswers, hreplaced⟩ | ⟨hnode, q, z, hz, hreplaced⟩⟩
    · exact ⟨_, c, .here hc hanswers, hreplaced⟩
    · exact ⟨_, z, .down hc hnode hz, hreplaced⟩

theorem answers_of_node (h : x.label = .node) : Answers cmd x := by
  intro t commands hleaf
  rw [h] at hleaf
  cases hleaf

theorem answers_leaf_iff {t : TdiTable} {commands : List String} (h : x.label = .leaf t commands) :
    Answers cmd x ↔ cmd ∈ t.supportedCommands := by
  unfold Answers
  rw [h]
  exact ⟨fun hanswers => hanswers t commands rfl, fun hcmd t' _ heq => by cases heq; exact hcmd⟩

/-- A walk meets all of its tables, or a beginning of them and then an object that has lost the
method. -/
structure Walked (cmd : String) (tables : List TdiTable) (blocked : Prop)
    (v : Traced CallError TdiTable Unit) : Prop where
  result : v.result = .ok () ↔ ¬blocked
  met : v.events <+: called cmd tables
  all : v.result = .ok () → v.events = called cmd tables

theorem Walked.of_all {tables met : List TdiTable} {blocked : Prop}
    (hmet : met = called cmd tables) (h : ¬blocked) : Walked cmd tables blocked ⟨.ok (), met⟩ :=
  ⟨iff_of_true rfl h, hmet ▸ List.prefix_rfl, fun _ => hmet⟩

theorem Walked.of_raise {tables : List TdiTable} {blocked : Prop} (h : blocked) :
    Walked cmd tables blocked (Traced.raise .typeError) :=
  ⟨iff_of_false nofun (not_not.mpr h), List.nil_prefix, nofun⟩

theorem Walked.bind {tables tables' : List TdiTable} {blocked blocked' : Prop}
    {v v' : Traced CallError TdiTable Unit} (h : Walked cmd tables blocked v)
    (h' : Walked cmd tables' blocked' v') :
    Walked cmd (tables ++ tables') (blocked ∨ blocked') (v >>= fun _ => v') := by
  cases hv : v.result with
  | error e =>
    have hblocked : blocked := by
      by_contra hnot
      rw [h.result.mpr hnot] at hv
      cases hv
    rw [Traced.bind_of_error hv]
    refine ⟨iff_of_false nofun (not_not.mpr (.inl hblocked)), ?_, nofun⟩
    rw [called_append]
    exact h.met.trans (List.prefix_append _ _)
  | ok _ =>
    rw [Traced.bind_of_ok hv]
    refine ⟨?_, ?_, ?_⟩
    · rw [h'.result, not_or]
      exact (and_iff_right (h.result.mp hv)).symm
    · rw [called_append, h.all hv, List.prefix_append_right_inj]
      exact h'.met
    · intro hresult
      rw [called_append, h.all hv, h'.all hresult]

theorem walked_childCalls {l : List CliObject}
    (h : ∀ c ∈ l, c.label = .node →
      Walked cmd (outer tableOf c) (Blocked cmd c) (visits cmd c)) :
    Walked cmd (l.flatMap (outer tableOf))
      (∃ c ∈ l, Answers cmd c ∧ MethodReplaced cmd c ∨ c.label = .node ∧ Blocked cmd c)
      (childCalls cmd .typeError (fun t => Traced.emit [t]) l) := by
  induction l with
  | nil =>
    rw [childCalls]
    exact .of_all rfl (by simp)
  | cons c l ih =>
    rw [List.forall_mem_cons] at h
    rw [childCalls, List.flatMap_cons, List.exists_mem_cons_iff]
    refine Walked.bind ?_ (ih h.2)
    cases hlabel : c.label with
    | node =>
      by_cases hreplaced : MethodReplaced cmd c
      · simp only [if_pos hreplaced]
        exact .of_raise (.inl ⟨answers_of_node hlabel, hreplaced⟩)
      · simp only [hreplaced, if_false, and_false, false_or, true_and]
        exact h.1 hlabel
    | leaf t commands =>
      have hleaf : tableOf c.label = some t := by rw [hlabel]; rfl
      rw [outer_of_leaf hleaf, answers_leaf_iff hlabel]
      simp only [reduceCtorEq, false_and, or_false]
      by_cases hcmd : cmd ∈ t.supportedCommands
      · by_cases hreplaced : MethodReplaced cmd c
        · simp only [if_pos hcmd, if_pos hreplaced]
          exact .of_raise ⟨hcmd, hreplaced⟩
        · simp only [if_pos hcmd, if_neg hreplaced]
          exact .of_all (by simp [called, hcmd]) fun hboth => hreplaced hboth.2
      · simp only [if_neg hcmd]
        exact .of_all (by simp [called, hcmd]) fun hboth => hcmd hboth.1

/-- The command of a node calls the command of each table that the walk meets, in turn, until it
meets an object that has lost the method. -/
theorem walked_visits (x : CliObject) (hx : x.label = .node) :
    Walked cmd (outer tableOf x) (Blocked cmd x) (visits cmd x) := by
  induction x using NamedTree.induction_on with
  | step x ih =>
    have hnone : tableOf x.label = none := by rw [hx]; rfl
    rw [outer_of_node hnone, blocked_iff, visits, nodeCall_eq_childCalls]
    exact walked_childCalls ih

theorem childInfos_eq_map (l : List CliObject) :
    childInfos l = l.map fun c => (c.name, fullLeafInfo c) := by
  induction l with
  | nil => rfl
  | cons c l ih => rw [childInfos, List.map_cons, ih]

/-- Where the names of siblings differ and no child is hidden by a command of its parent, `info`
goes the same way. -/
theorem fullLeafInfo_eq_outer {x : CliObject} (hx : x.Distinct)
    (hhidden : ∀ q y, Leads x q y → y.label = .node → ∀ c ∈ y.children, c.name ∉ nodeCommands) :
    fullLeafInfo x = outer tableOf x := by
  induction x using NamedTree.induction_on with
  | step x ih =>
    obtain ⟨k, label, children⟩ := x
    cases label with
    | leaf t commands =>
      rw [fullLeafInfo, outer]
      rfl
    | node =>
      obtain ⟨hnodup, hchildren⟩ := distinct_iff.mp hx
      have hsame : ∀ c ∈ children, fullLeafInfo c = outer tableOf c := by
        intro c hc
        exact ih c hc (hchildren c hc) fun q y hy => hhidden _ y (.down hc hy)
      have hkeys : (childInfos children).map Prod.fst = children.map NamedTree.name := by
        rw [childInfos_eq_map, List.map_map]
        rfl
      have hentries : (Dict.ofList (childInfos children)).entries = childInfos children :=
        Dict.entries_ofList (by rwa [hkeys])
      have hshown : (childInfos children).filter (fun p => decide (p.1 ∉ nodeCommands)) =
          childInfos children := by
        rw [List.filter_eq_self, childInfos_eq_map]
        intro p hp
        obtain ⟨c, hc, rfl⟩ := List.mem_map.mp hp
        exact decide_eq_true (hhidden [] _ (.here _) rfl c hc)
      rw [fullLeafInfo, hentries, hshown, outer_of_node rfl, childInfos_eq_map, List.flatMap_map]
      exact List.flatMap_congr hsame

end Walks

section Program

variable {tables : List TdiTable} {p4Name : String} {x y : CliObject} {p : List String}

/-- No other table that is shown below the path has a leaf on the way to this one. -/
def Outermost (tables : List TdiTable) (p : List String) (t : TdiTable) : Prop :=
  ∀ s ∈ tables, p <+: s.displayed → s.displayed <+: t.displayed → s = t

/-- What holds of the tree of a program in which every table is found. -/
structure Grown (tables : List TdiTable) (x : CliObject) : Prop where
  distinct : x.Distinct
  placed : Placed (sortedTables tables) x
  found : ∀ t ∈ tables, ∃ y, Leads x t.displayed y ∧ IsLeafOf t y
  shown : ∀ q y, Leads x q y → y.label = .node → ∀ c ∈ y.children, c.name ∉ nodeCommands

theorem grown_of_found (hready : ∀ t ∈ tables, t.tableReady = true)
    (h : makeDeepTree p4Name tables = .ok x) (hfound : EveryTableFound tables x) :
    Grown tables x := by
  have hplaced : Placed (sortedTables tables) x :=
    (placed_tdiNode p4Name).run (fun u hu => hready u (mem_sortedTables.mp hu)) h
  have hleads : ∀ t ∈ tables, ∃ y, Leads x t.displayed y ∧ IsLeafOf t y := by
    intro t ht
    obtain ⟨y, hy, hleaf⟩ := hfound.found t ht
    exact ⟨y, leads_of_follow hy, hleaf⟩
  refine ⟨hfound.distinct, hplaced, hleads, ?_⟩
  intro q y hy hnode c hc
  -- some table is shown below the child, and it is found on its path
  have hchild : Leads x (q ++ [c.name]) c :=
    leads_append_iff.mpr ⟨y, hy, leads_cons_iff.mpr ⟨c, hc, rfl, .here c⟩⟩
  obtain ⟨s, hs, r, hr⟩ := hplaced.under _ c hchild (by simp)
  have hhidden := noneHidden_of_found hready h hfound s (mem_sortedTables.mp hs) q c.name r
    (by simpa using hr.symm)
  unfold commandsOf at hhidden
  split at hhidden
  next u hu =>
    obtain rfl : u.displayed = q := by simpa using List.find?_some hu
    obtain ⟨z, hz, hleaf⟩ := hleads u (List.mem_of_find?_eq_some hu)
    rw [hfound.distinct.unique hz hy] at hleaf
    exact absurd hleaf (not_isLeafOf_of_node hnode)
  next => exact hhidden

theorem tableOf_eq_some_iff {t : TdiTable} : tableOf y.label = some t ↔ IsLeafOf t y := by
  unfold tableOf IsLeafOf
  cases y.label with
  | node => simp
  | leaf s commands => simp

theorem Grown.distinct_below (hx : Grown tables x) (hy : Leads x p y) : y.Distinct :=
  fun _ z hz => hx.distinct _ z (leads_append_iff.mpr ⟨y, hy, hz⟩)

/-- The object of a table that is shown below the path. -/
theorem Grown.leaf_below (hx : Grown tables x) (hy : Leads x p y) {t : TdiTable} (ht : t ∈ tables)
    {q : List String} (hq : t.displayed = p ++ q) : ∃ z, Leads y q z ∧ IsLeafOf t z := by
  obtain ⟨z, hz, hleaf⟩ := hx.found t ht
  rw [hq, leads_append_iff] at hz
  obtain ⟨y', hy', hz⟩ := hz
  rw [hx.distinct.unique hy' hy] at hz
  exact ⟨z, hz, hleaf⟩

theorem Grown.table_of_leaf (hx : Grown tables x) (hy : Leads x p y) {q : List String}
    {z : CliObject} (hz : Leads y q z) {t : TdiTable} (hleaf : IsLeafOf t z) :
    t ∈ tables ∧ t.displayed = p ++ q := by
  obtain ⟨commands, hlabel⟩ := hleaf
  obtain ⟨ht, hpath, -⟩ := hx.placed.leaf _ z t commands (leads_append_iff.mpr ⟨y, hy, hz⟩) hlabel
  exact ⟨mem_sortedTables.mp ht, hpath.symm⟩

theorem Grown.leads_displayed (hx : Grown tables x) (hy : Leads x p y) {q : List String}
    {t : TdiTable} (h : OuterLeads tableOf y q t) : t ∈ tables ∧ t.displayed = p ++ q := by
  obtain ⟨z, hz, hleaf⟩ := h.leads
  exact hx.table_of_leaf hy hz (tableOf_eq_some_iff.mp hleaf)

/-- The walk from an object meets the outermost tables below it, and no others. -/
theorem Grown.mem_outer_iff (hx : Grown tables x)
    (hdistinct : (tables.map fun t => withoutDollars t.name.text).Nodup) (hy : Leads x p y)
    (t : TdiTable) :
    t ∈ outer tableOf y ↔ t ∈ tables ∧ p <+: t.displayed ∧ Outermost tables p t := by
  rw [NamedTree.mem_outer_iff]
  constructor
  · intro ⟨q, hq⟩
    obtain ⟨ht, hdisplayed⟩ := hx.leads_displayed hy hq
    refine ⟨ht, ⟨q, hdisplayed.symm⟩, ?_⟩
    rintro s hs ⟨r, hr⟩ ⟨r', hr'⟩
    have hsplit : q = r ++ r' := by
      rw [← hr, hdisplayed, List.append_assoc] at hr'
      exact (List.append_cancel_left hr').symm
    by_cases hnil : r' = []
    · rw [hnil, List.append_nil] at hr'
      exact displayed_inj hdistinct hs ht hr'
    -- a leaf on the way would have ended the walk
    · obtain ⟨z, hz, hleaf⟩ := hx.leaf_below hy hs hr.symm
      rw [hsplit] at hq
      have hnode := hq.above (hx.distinct_below hy) hnil hz
      rw [tableOf_eq_some_iff.mpr hleaf] at hnode
      cases hnode
  · intro ⟨ht, ⟨q, hq⟩, houtermost⟩
    obtain ⟨z, hz, hleaf⟩ := hx.leaf_below hy ht hq.symm
    refine ⟨q, outerLeads_of_leads hz (tableOf_eq_some_iff.mpr hleaf) ?_⟩
    rintro r s w rfl hs hw
    cases hlabel : tableOf w.label with
    | none => rfl
    | some u =>
      obtain ⟨hu, hpath⟩ := hx.table_of_leaf hy hw (tableOf_eq_some_iff.mp hlabel)
      have hsame := houtermost u hu ⟨r, hpath.symm⟩
        ⟨s, by rw [hpath, ← hq, List.append_assoc]⟩
      rw [hsame, ← hq, ← List.append_assoc] at hpath
      exact absurd (List.append_right_eq_self.mp hpath) hs

theorem Grown.nodup_outer (hx : Grown tables x) (hy : Leads x p y) : (outer tableOf y).Nodup :=
  NamedTree.nodup_outer (hx.distinct_below hy) TdiTable.displayed p
    fun _ _ hq => (hx.leads_displayed hy hq).2

/-- Some table is shown below a child that takes the place of the method of an object which is
asked: a node, or a table that supports the command, with no other table around it. -/
def Replaces (tables : List TdiTable) (p : List String) (cmd : String) : Prop :=
  ∃ s ∈ tables, ∃ q r, q ≠ [] ∧ s.displayed = p ++ q ++ cmd :: r ∧
    ∀ u ∈ tables, p <+: u.displayed → u.displayed <+: p ++ q →
      u.displayed = p ++ q ∧ cmd ∈ u.supportedCommands

theorem Asks.leads {cmd : String} {q : List String} {z : CliObject} (h : Asks cmd y q z) :
    q ≠ [] ∧ Leads y q z ∧ Answers cmd z := by
  induction h with
  | here hc hanswers => exact ⟨List.cons_ne_nil _ _, .down hc (.here _), hanswers⟩
  | down hc _ _ ih => exact ⟨List.cons_ne_nil _ _, .down hc ih.2.1, ih.2.2⟩

/-- On the way to an object that is asked there are only nodes. -/
theorem Asks.above {cmd : String} (hy : y.Distinct) (hnode : y.label = .node) {q r : List String}
    {z w : CliObject} (h : Asks cmd y (q ++ r) z) (hr : r ≠ []) (hw : Leads y q w) :
    w.label = .node := by
  induction hw with
  | here => exact hnode
  | @down y c q w hc hw ih =>
    obtain ⟨hnodup, hchildren⟩ := distinct_iff.mp hy
    rw [List.cons_append] at h
    generalize hk : c.name = k at h
    generalize hpath : k :: (q ++ r) = path at h
    cases h with
    | here =>
      obtain ⟨-, hnil⟩ := List.cons.inj hpath
      exact absurd (List.append_eq_nil_iff.mp hnil).2 hr
    | @down _ d _ _ hd hdnode hz =>
      obtain ⟨rfl, rfl⟩ := List.cons.inj hpath
      obtain rfl := eq_of_name_eq hnodup hc hd hk
      exact ih (hchildren c hc) hdnode hz

theorem asks_of_leads {cmd : String} {q : List String} {z : CliObject} (hq : q ≠ [])
    (hz : Leads y q z) (hanswers : Answers cmd z)
    (habove : ∀ r s w, q = r ++ s → r ≠ [] → s ≠ [] → Leads y r w → w.label = .node) :
    Asks cmd y q z := by
  induction hz with
  | here => exact absurd rfl hq
  | @down y c q z hc hz ih =>
    by_cases hnil : q = []
    · subst hnil
      rw [leads_nil_iff.mp hz] at hanswers ⊢
      exact .here hc hanswers
    · have hcnode : c.label = .node :=
        habove [c.name] q c rfl (List.cons_ne_nil _ _) hnil (.down hc (.here c))
      refine .down hc hcnode (ih hnil hanswers ?_)
      rintro r s w rfl hr hs hw
      exact habove (c.name :: r) s w rfl (List.cons_ne_nil _ _) hs (.down hc hw)

theorem Grown.blocked_iff_replaces (hx : Grown tables x) (hy : Leads x p y)
    (hnode : y.label = .node) (cmd : String) : Blocked cmd y ↔ Replaces tables p cmd := by
  constructor
  · intro ⟨q, z, hasks, hreplaced⟩
    obtain ⟨hq, hz, hanswers⟩ := hasks.leads
    obtain ⟨c, hc, rfl⟩ := List.mem_map.mp hreplaced
    have hchild : Leads x (p ++ q ++ [c.name]) c := by
      rw [List.append_assoc]
      exact leads_append_iff.mpr ⟨y, hy, leads_append_iff.mpr ⟨z, hz, .down hc (.here c)⟩⟩
    obtain ⟨s, hs, r, hr⟩ := hx.placed.under _ c hchild (by simp)
    refine ⟨s, mem_sortedTables.mp hs, q, r, hq, by rw [← hr]; simp, ?_⟩
    rintro u hu ⟨q₁, hq₁⟩ ⟨q₂, hq₂⟩
    obtain ⟨w, hw, hleaf⟩ := hx.leaf_below hy hu hq₁.symm
    have hsplit : q = q₁ ++ q₂ := by
      rw [← hq₁, List.append_assoc] at hq₂
      exact (List.append_cancel_left hq₂).symm
    by_cases hnil : q₂ = []
    · rw [hnil, List.append_nil] at hq₂ hsplit
      rw [← hsplit] at hw
      rw [(hx.distinct_below hy).unique hw hz] at hleaf
      obtain ⟨commands, hlabel⟩ := hleaf
      exact ⟨hq₂, hanswers u commands hlabel⟩
    · rw [hsplit] at hasks
      exact absurd hleaf
        (not_isLeafOf_of_node (hasks.above (hx.distinct_below hy) hnode hnil hw))
  · intro ⟨s, hs, q, r, hq, hdisplayed, hway⟩
    obtain ⟨w, hw, -⟩ := hx.leaf_below hy hs (hdisplayed.trans (List.append_assoc _ _ _))
    obtain ⟨z, hz, hw⟩ := leads_append_iff.mp hw
    obtain ⟨c, hc, hname, -⟩ := leads_cons_iff.mp hw
    refine ⟨q, z, asks_of_leads hq hz ?_ ?_, hname ▸ List.mem_map_of_mem hc⟩
    · intro t commands hlabel
      obtain ⟨ht, hpath⟩ := hx.table_of_leaf hy hz ⟨commands, hlabel⟩
      exact (hway t ht ⟨q, hpath.symm⟩ (hpath ▸ List.prefix_rfl)).2
    · rintro q₁ q₂ w rfl - hq₂ hw
      cases hlabel : w.label with
      | node => rfl
      | leaf t commands =>
        obtain ⟨ht, hpath⟩ := hx.table_of_leaf hy hw ⟨commands, hlabel⟩
        obtain ⟨hend, -⟩ := hway t ht ⟨q₁, hpath.symm⟩
          ⟨q₂, by rw [hpath, List.append_assoc]⟩
        rw [hpath, ← List.append_assoc] at hend
        exact absurd (List.append_right_eq_self.mp hend.symm) hq₂

/-- Where every table is found, the commands of a node reach only tables below it that no other
table is around, each once: those that support the command, and with `info` all of them. A
command reaches them all unless a child has taken the place of the method of an object that is
asked. -/
theorem node_reaches_outermost (hready : ∀ t ∈ tables, t.tableReady = true)
    (hdistinct : (tables.map fun t => withoutDollars t.name.text).Nodup)
    (h : makeDeepTree p4Name tables = .ok x) (hfound : EveryTableFound tables x)
    (hy : follow x p = some y) (hnode : y.label = .node) (cmd : String) :
    ((visits cmd y).result = .ok () ↔ ¬Replaces tables p cmd) ∧
    ((visits cmd y).events.Nodup ∧
      (∀ t ∈ (visits cmd y).events,
        t ∈ tables ∧ p <+: t.displayed ∧ Outermost tables p t ∧ cmd ∈ t.supportedCommands) ∧
      ((visits cmd y).result = .ok () → ∀ t ∈ tables, p <+: t.displayed → Outermost tables p t →
        cmd ∈ t.supportedCommands → t ∈ (visits cmd y).events)) ∧
    (fullLeafInfo y).Nodup ∧ ∀ t, t ∈ fullLeafInfo y ↔
      t ∈ tables ∧ p <+: t.displayed ∧ Outermost tables p t := by
  have hx := grown_of_found hready h hfound
  have hleads := leads_of_follow hy
  have hinfo : fullLeafInfo y = outer tableOf y :=
    fullLeafInfo_eq_outer (hx.distinct_below hleads)
      fun _ z hz => hx.shown _ z (leads_append_iff.mpr ⟨y, hleads, hz⟩)
  have hwalked : Walked cmd (outer tableOf y) (Blocked cmd y) (visits cmd y) :=
    walked_visits y hnode
  have hnodup := hx.nodup_outer hleads
  have hmem : ∀ t, t ∈ called cmd (outer tableOf y) ↔ t ∈ tables ∧ p <+: t.displayed ∧
      Outermost tables p t ∧ cmd ∈ t.supportedCommands := by
    intro t
    rw [called, List.mem_filter, hx.mem_outer_iff hdistinct hleads, decide_eq_true_iff]
    tauto
  rw [hwalked.result, hx.blocked_iff_replaces hleads hnode, hinfo]
  refine ⟨Iff.rfl, ⟨?_, ?_, ?_⟩, hnodup, hx.mem_outer_iff hdistinct hleads⟩
  · exact (hnodup.filter _).sublist hwalked.met.sublist
  · intro t ht
    exact (hmem t).mp (hwalked.met.subset ht)
  · intro hall t ht hbelow houtermost hcmd
    have hresult := hwalked.result.mpr ((hx.blocked_iff_replaces hleads hnode cmd).not.mpr hall)
    rw [hwalked.all hresult]
    exact (hmem t).mpr ⟨ht, hbelow, houtermost, hcmd⟩

def dumpedTable (name : TableName) : TdiTable :=
  ⟨name, true, ["info", "dump", "clear"], [], false, .empty, true⟩

def aclTable : TdiTable := dumpedTable ⟨"acl", by decide⟩

def idleTable : TdiTable := dumpedTable ⟨"acl.idle", by decide⟩

/-- A table with a table nested in it. -/
def aclTree : CliObject :=
  mk "switch" .node [leafObject "acl" aclTable [leafObject "idle" idleTable []]]

theorem distinct_mk_singleton {k : String} {label : Kind} {c : CliObject} (h : c.Distinct) :
    (mk k label [c]).Distinct :=
  distinct_iff.mpr ⟨List.nodup_singleton _, by simpa using h⟩

theorem aclTree_found : EveryTableFound [aclTable, idleTable] aclTree := by
  constructor
  · apply distinct_mk_singleton
    apply distinct_mk_singleton
    exact distinct_of_children_eq_nil rfl
  · intro t ht
    rcases List.mem_pair.mp ht with rfl | rfl
    · exact ⟨_, rfl, _, rfl⟩
    · exact ⟨_, rfl, _, rfl⟩

theorem aclTree_reaches_outermost : ¬Replaces [aclTable, idleTable] [] "dump" :=
  have hmade : makeDeepTree "switch" [aclTable, idleTable] = .ok aclTree := rfl
  (node_reaches_outermost (by decide) (by decide) hmade aclTree_found (p := []) rfl rfl
    "dump").1.mp rfl

-- the nested table is missed
example : (visits "dump" aclTree).events = [aclTable] := rfl

-- a nested table that is named like the command of the table around it
example : (makeDeepTree "switch" [aclTable, dumpedTable ⟨"acl.dump", by decide⟩]).map
    (fun x => (visits "dump" x).result) = .ok (.error .typeError) := rfl

end Program

section Clear

inductive ClearEvent where
  | beginBatch (status : TdiStatus)
  | tableClear (t : TdiTable)
  | endBatch (status : TdiStatus)

inductive ClearError where
  | beginBatch
  | endBatch
  | tableClear (t : TdiTable) (status : TdiStatus)
  | typeError

/-- What the driver answers while the table is cleared. -/
structure ClearDriver where
  beginBatch : TdiTable → TdiStatus
  tableClear : TdiTable → TdiStatus
  endBatch : TdiTable → TdiStatus

def check (status : TdiStatus) (e : ClearError) : Traced ClearError ClearEvent Unit :=
  if status ≠ .success then Traced.raise e else pure ()

variable (driver : ClearDriver) (batch : Bool)

/-- `_begin_batch`, if the table is cleared in a batch -/
def beginBatch (t : TdiTable) : Traced ClearError ClearEvent Unit :=
  if batch then do
    Traced.emit [.beginBatch (driver.beginBatch t)]
    check (driver.beginBatch t) .beginBatch
  else pure ()

/-- `_end_batch`, if the table is cleared in a batch -/
def endBatch (t : TdiTable) : Traced ClearError ClearEvent Unit :=
  if batch then do
    Traced.emit [.endBatch (driver.endBatch t)]
    check (driver.endBatch t) .endBatch
  else pure ()

/-- `TdiTable.clear`, which a leaf passes on to its table. -/
def clear (t : TdiTable) : Traced ClearError ClearEvent Unit := do
  beginBatch driver batch t
  Traced.emit [.tableClear t]
  endBatch driver batch t
  check (driver.tableClear t) (.tableClear t (driver.tableClear t))

/-- The tables that the driver was told to clear. -/
def cleared (events : List ClearEvent) : List TdiTable :=
  events.filterMap fun
    | .tableClear t => some t
    | _ => none

/-- Whether a batch is open after the events: none if one was begun in another, or if one was
ended or a table cleared outside. -/
def batchOpen : Bool → List ClearEvent → Option Bool
  | isOpen, [] => some isOpen
  | isOpen, .beginBatch status :: events =>
    if isOpen then none else batchOpen (status = .success) events
  | isOpen, .tableClear _ :: events => if isOpen then batchOpen true events else none
  | isOpen, .endBatch _ :: events => if isOpen then batchOpen false events else none

/-- The table is cleared without an exception. -/
def Clears (t : TdiTable) : Prop :=
  (batch = true → driver.beginBatch t = .success ∧ driver.endBatch t = .success) ∧
    driver.tableClear t = .success

theorem batchOpen_append (isOpen : Bool) (events events' : List ClearEvent) :
    batchOpen isOpen (events ++ events') =
      (batchOpen isOpen events).bind fun isOpen' => batchOpen isOpen' events' := by
  induction events generalizing isOpen with
  | nil => rfl
  | cons e events ih =>
    cases e <;> cases isOpen <;> simp [batchOpen, ih]

/-- What the clearing of one table does. -/
theorem clear_cases (t : TdiTable) :
    ((clear driver batch t).result = .ok () ↔ Clears driver batch t) ∧
    (Clears driver batch t → cleared (clear driver batch t).events = [t]) ∧
    (cleared (clear driver batch t).events = [t] ∨
      cleared (clear driver batch t).events = []) ∧
    (batch = true → batchOpen false (clear driver batch t).events = some false) := by
  cases batch with
  | false =>
    by_cases hclear : driver.tableClear t = .success <;>
      simp [clear, beginBatch, endBatch, check, Clears, cleared, hclear, pure, Traced.raise]
  | true =>
    by_cases hbegin : driver.beginBatch t = .success
    · by_cases hend : driver.endBatch t = .success
      · by_cases hclear : driver.tableClear t = .success <;>
          simp [clear, beginBatch, endBatch, check, Clears, cleared, batchOpen, hbegin, hend,
            hclear, pure, Traced.raise]
      · simp [clear, beginBatch, endBatch, check, Clears, cleared, batchOpen, hbegin, hend, pure,
          Traced.raise]
    · simp [clear, beginBatch, endBatch, check, Clears, cleared, batchOpen, hbegin, pure,
        Traced.raise]

theorem cleared_append (events events' : List ClearEvent) :
    cleared (events ++ events') = cleared events ++ cleared events' :=
  List.filterMap_append

theorem cleared_flatMap (l : List TdiTable)
    (h : ∀ t ∈ l, (clear driver batch t).result = .ok ()) :
    cleared (l.flatMap fun t => (clear driver batch t).events) = l := by
  induction l with
  | nil => rfl
  | cons t l ih =>
    rw [List.forall_mem_cons] at h
    obtain ⟨hclears, hcleared, -⟩ := clear_cases driver batch t
    rw [List.flatMap_cons, cleared_append, hcleared (hclears.mp h.1), ih h.2]
    rfl

theorem batchOpen_flatMap (l : List TdiTable) :
    batchOpen false (l.flatMap fun t => (clear driver true t).events) = some false := by
  induction l with
  | nil => rfl
  | cons t l ih =>
    rw [List.flatMap_cons, batchOpen_append, (clear_cases driver true t).2.2.2 rfl]
    exact ih

/-- Clearing the tables of a list clears a beginning of it, and no batch is left open. -/
theorem cleared_each (l : List TdiTable) :
    cleared (Traced.each (clear driver batch) l).events <+: l ∧
    ((Traced.each (clear driver batch) l).result = .ok () →
      cleared (Traced.each (clear driver batch) l).events = l) ∧
    (batch = true → batchOpen false (Traced.each (clear driver batch) l).events = some false) := by
  rcases Traced.each_cases (clear driver batch) l with
    ⟨hall, heq⟩ | ⟨before, t, after, e, rfl, hbefore, -, heq⟩
  · have hlist := cleared_flatMap driver batch l hall
    rw [heq, hlist]
    refine ⟨List.prefix_rfl, fun _ => rfl, ?_⟩
    rintro rfl
    exact batchOpen_flatMap driver l
  · rw [heq]
    refine ⟨?_, nofun, ?_⟩
    · rw [cleared_append, cleared_flatMap driver batch before hbefore]
      rcases (clear_cases driver batch t).2.2.1 with hone | hnone
      · rw [hone]
        exact ⟨after, by simp⟩
      · rw [hnone, List.append_nil]
        exact List.prefix_append before _
    · rintro rfl
      rw [batchOpen_append, batchOpen_flatMap]
      exact (clear_cases driver true t).2.2.2 rfl

/-- `clear` of a node clears a beginning of the outermost tables below it that support it. It does
not raise exactly if it meets no object without the method and each of these tables is cleared,
and then all of them are. Batches are never nested or left open. -/
theorem node_clear (x : CliObject) (hx : x.label = .node) :
    ((nodeCall "clear" .typeError (clear driver batch) x).result = .ok () ↔
      ¬Blocked "clear" x ∧ ∀ t ∈ called "clear" (outer tableOf x), Clears driver batch t) ∧
    cleared (nodeCall "clear" .typeError (clear driver batch) x).events <+:
      called "clear" (outer tableOf x) ∧
    ((nodeCall "clear" .typeError (clear driver batch) x).result = .ok () →
      cleared (nodeCall "clear" .typeError (clear driver batch) x).events =
        called "clear" (outer tableOf x)) ∧
    (batch = true →
      batchOpen false (nodeCall "clear" .typeError (clear driver batch) x).events =
        some false) := by
  obtain ⟨hcleared, hall, hbatch⟩ := cleared_each driver batch (visits "clear" x).events
  have hwalked : Walked "clear" (outer tableOf x) (Blocked "clear" x) (visits "clear" x) :=
    walked_visits x hx
  have hclears : ∀ t, (clear driver batch t).result = .ok () ↔ Clears driver batch t :=
    fun t => (clear_cases driver batch t).1
  rw [nodeCall_eq_replay, Traced.events_replay, Traced.result_replay_eq_ok_iff]
  refine ⟨?_, hcleared.trans hwalked.met, ?_, hbatch⟩
  · simp only [hclears, ← hwalked.result]
    exact and_congr_right fun hresult => by rw [hwalked.all hresult]
  · intro ⟨hresult, hresults⟩
    rw [hall (Traced.result_each_eq_ok_iff.mpr hresults), hwalked.all hresult]

theorem aclTree_clear :
    ¬Blocked "clear" aclTree ∧ ∀ t ∈ called "clear" (outer tableOf aclTree),
      Clears ⟨fun _ => .success, fun _ => .success, fun _ => .success⟩ true t :=
  (node_clear _ true aclTree rfl).1.mp rfl

end Clear
end Tdi.Cli.CommandTree

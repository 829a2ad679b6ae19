import Tdi.Defs
import Tdi.Foundation.GroundedOrder
import Tdi.Foundation.OuterLeaves
import Tdi.Foundation.Traced

/-!
# The dependency test

`_dep_tester` tests every table below a node by adding entries to it. The tables that a
table depends on are tested first, each table once, and at the end one table after the
other is cleaned up, the last one first. A table is open from where its test says
`Testing table` to where its cleanup is through, whatever entries it has meanwhile.
-/
namespace Tdi.Cli.DepTester

open Foundation NamedTree SpanEvent Relation

variable {ν Label Leaf E : Type} [DecidableEq Leaf]

section Model

/-- `no_usage_tables` -/
def noUsageTables : List String :=
  ["COUNTER", "METER", "REGISTER", "LPF", "WRED", "PVS", "PORT_CFG", "PORT_STAT", "PORT_HDL_INFO",
   "PORT_FRONT_PANEL_IDX_INFO", "PORT_STR_INFO", "PRE_MGID", "PRE_NODE", "PRE_ECMP", "PRE_LAG",
   "PRE_PRUNE", "PRE_PORT", "DEV_CFG", "REG_PARAM", "TM_PIPE_CFG", "TM_PIPE_SCHED_CFG",
   "TM_MIRROR_DPG", "MIRROR_CFG"]

/-- What the test reads of the leaves of a program. A run asks for the adds and the removal of a
leaf once, so they are those of the run. -/
structure Leaves (Leaf E : Type) where
  getId : Leaf → TdiId
  hasKeys : Leaf → Bool
  tableTypeStr : Leaf → String
  tblDepMap : Leaf → TdiId → Option (List TdiId)
  /-- the `frontend` of the table with this id, which may be `None` -/
  tblIdMap : Leaf → TdiId → Option (Option Leaf)
  /-- for each of `_entries`: whether there is an entry, which is then pushed -/
  adds : Leaf → List (Except E Bool)
  /-- the removal of what `get` finds in the table -/
  removal : Leaf → Except E Unit

inductive Failure (E : Type) where
  | recursionError
  | keyError
  | driver (e : E)

abbrev TestRun (Leaf E : Type) := Traced (Failure E) (SpanEvent Leaf)

/-- `_test_all_adds`, which looks at the first two entries. -/
def testAllAdds : ℕ → List (Except E Bool) → Except (Failure E) ℤ
  | _, [] => .ok 0
  | i, add :: adds =>
    if i > 1 then .ok 0
    else
      match add with
      | .error e => .error (.driver e)
      | .ok false => .ok (-1)
      | .ok true => testAllAdds (i + 1) adds

variable (t : Leaves Leaf E) (leafOf : Label → Option Leaf)

namespace Leaves

/-- The ids that a table depends on. -/
def deps (leaf : Leaf) : List TdiId := (t.tblDepMap leaf (t.getId leaf)).getD []

/-- The loop over the ids that a table depends on. -/
def testDeps (visit : List Leaf → Leaf → TestRun Leaf E (ℤ × List Leaf)) (leaf : Leaf) :
    List Leaf → List TdiId → TestRun Leaf E (ℤ × List Leaf)
  | tested, [] => return (0, tested)
  | tested, depId :: depIds =>
    match t.tblIdMap leaf depId with
    | none => Traced.raise .keyError
    | some none => return (-1, tested)
    | some (some depLeaf) => do
      let (sts, tested) ← visit tested depLeaf
      if sts ≠ 0 then return (sts, tested)
      else testDeps visit leaf tested depIds

/-- `test_table`, with the list `tested`. As many calls may be nested as the number says. -/
def testTable : ℕ → List Leaf → Leaf → TestRun Leaf E (ℤ × List Leaf)
  | 0, _, _ => Traced.raise .recursionError
  | n + 1, tested, leaf =>
    if leaf ∈ tested then return (0, tested)
    else if ¬ t.hasKeys leaf then return (0, tested)
    else if t.tableTypeStr leaf ∈ noUsageTables then return (0, tested)
    else do
      let (sts, tested) ← t.testDeps (testTable n) leaf tested (t.deps leaf)
      if sts ≠ 0 then return (sts, tested)
      else do
        Traced.emit [opened leaf]
        let sts ← Traced.ofExcept (testAllAdds 0 (t.adds leaf))
        return (sts, tested ++ [leaf])

/-- The loop of `cleanup` for a leaf. -/
def clean (leaf : Leaf) : TestRun Leaf E Unit := do
  Traced.ofExcept ((t.removal leaf).mapError .driver)
  Traced.emit [closed leaf]

def cleanup (tested : List Leaf) : TestRun Leaf E Unit := Traced.each t.clean tested.reverse

end Leaves

mutual

/-- `_dep_tester` of a node, with a `test_func`. -/
def nodeTest (visit : List Leaf → Leaf → TestRun Leaf E (ℤ × List Leaf)) (tested : List Leaf) :
    NamedTree ν Label → TestRun Leaf E (ℤ × List Leaf)
  | mk _ _ children => childTests visit 0 tested children

/-- The loop over `_children`. -/
def childTests (visit : List Leaf → Leaf → TestRun Leaf E (ℤ × List Leaf)) (sts : ℤ)
    (tested : List Leaf) : List (NamedTree ν Label) → TestRun Leaf E (ℤ × List Leaf)
  | [] => return (sts, tested)
  | c :: l => do
    let (childSts, tested) ← (match leafOf c.label with
      | none => nodeTest visit tested c
      | some leaf => visit tested leaf)
    childTests visit (sts.lor childSts) tested l

end

/-- `_dep_tester` of the node at which the test begins. -/
def depTester (n : ℕ) (x : NamedTree ν Label) : TestRun Leaf E ℤ := do
  let (sts, tested) ← nodeTest leafOf (t.testTable n) [] x
  t.cleanup tested
  return sts

end Model

namespace Leaves

variable (t : Leaves Leaf E)

section Relations

/-- The table is not left out. -/
def Testable (leaf : Leaf) : Prop :=
  t.hasKeys leaf = true ∧ t.tableTypeStr leaf ∉ noUsageTables

/-- The first table depends on the second, which is not left out. -/
def DependsOn (x y : Leaf) : Prop :=
  t.Testable y ∧ ∃ id ∈ t.deps x, t.tblIdMap x id = some (some y)

/-- Every table that this one depends on has a leaf. -/
def Linked (x : Leaf) : Prop := ∀ id ∈ t.deps x, ∃ y, t.tblIdMap x id = some (some y)

/-- The first entries, at most two, are there and can be pushed. -/
def Passes (leaf : Leaf) : Prop := ∀ add ∈ (t.adds leaf).take 2, add = .ok true

/-- The test of the first table leads to the second. -/
def Reaches (x y : Leaf) : Prop := t.Testable x ∧ ReflTransGen t.DependsOn x y

/-- The test leads to a table that depends on one without a leaf. -/
def Blocked (x : Leaf) : Prop := ∃ y, t.Reaches x y ∧ ¬ t.Linked y

end Relations

section Report

/-- What a part of the test does, after some tables: `good` tells that all went well before, `done`
what a success means, `reach` which tables may be tested, and `blocked` that a failure may be due
to a table without a leaf. -/
structure Report (good : Prop) (done : List Leaf → Prop) (reach : Leaf → Prop) (blocked : Prop)
    (tested new : List Leaf) (x : TestRun Leaf E (ℤ × List Leaf)) : Prop where
  events : x.events = new.map opened
  grounded : Grounded t.DependsOn tested new
  met : ∀ l ∈ new, t.Linked l ∧ reach l
  returned : ∀ sts tested', x.result = .ok (sts, tested') → tested' = tested ++ new
  success : ∀ tested', x.result = .ok (0, tested') → good ∧ done tested' ∧ ∀ l ∈ new, t.Passes l
  failure : ∀ sts tested', x.result = .ok (sts, tested') → sts ≠ 0 →
    ¬good ∨ (∃ l ∈ new, ¬ t.Passes l) ∨ blocked
  raised : ∀ e, x.result = .error e →
    e = .recursionError ∨ (∃ l ∈ new, ¬ t.Passes l) ∨ blocked

def Tests (good : Prop) (done : List Leaf → Prop) (reach : Leaf → Prop) (blocked : Prop)
    (tested : List Leaf) (x : TestRun Leaf E (ℤ × List Leaf)) : Prop :=
  ∃ new, t.Report good done reach blocked tested new x

variable {t} {good blocked blocked₁ : Prop} {done done₁ done₂ : List Leaf → Prop}
  {reach reach₁ : Leaf → Prop} {tested : List Leaf} {sts : ℤ}
  {x : TestRun Leaf E (ℤ × List Leaf)} {f : ℤ × List Leaf → TestRun Leaf E (ℤ × List Leaf)}

omit [DecidableEq Leaf] in
theorem Tests.raise {e : Failure E} (h : e = .recursionError ∨ blocked) :
    t.Tests good done reach blocked tested (Traced.raise e) := by
  refine ⟨[], rfl, trivial, by simp, nofun, nofun, nofun, ?_⟩
  rintro _ ⟨⟩
  exact h.imp_right .inr

omit [DecidableEq Leaf] in
theorem Tests.pure (hgood : sts = 0 → good ∧ done tested) (hbad : sts ≠ 0 → ¬good ∨ blocked) :
    t.Tests good done reach blocked tested (Pure.pure (sts, tested)) := by
  refine ⟨[], rfl, trivial, by simp, ?_, ?_, ?_, nofun⟩
  · rintro _ _ ⟨⟩
    simp
  · rintro _ ⟨⟩
    simpa using hgood rfl
  · rintro _ _ ⟨⟩ hsts
    exact (hbad hsts).imp_right .inr

omit [DecidableEq Leaf] in
theorem Tests.mono (h : t.Tests good done₁ reach₁ blocked₁ tested x) (hdone : ∀ l, done₁ l → done l)
    (hreach : ∀ l, reach₁ l → reach l) (hblocked : blocked₁ → blocked) :
    t.Tests good done reach blocked tested x := by
  obtain ⟨new, hx⟩ := h
  refine ⟨new, hx.events, hx.grounded, fun l hl => (hx.met l hl).imp_right (hreach l), hx.returned,
    fun tested' hresult => ?_, fun sts tested' hresult hsts => ?_, fun e hresult => ?_⟩
  · exact (hx.success tested' hresult).imp_right (.imp_left (hdone tested'))
  · exact (hx.failure sts tested' hresult hsts).imp_right (.imp_right hblocked)
  · exact (hx.raised e hresult).imp_right (.imp_right hblocked)

omit [DecidableEq Leaf] in
/-- A part and what follows it. -/
theorem Tests.bind (htested : Grounded t.DependsOn [] tested)
    (hx : t.Tests True done₁ reach₁ blocked tested x) (hreach : ∀ l, reach₁ l → reach l)
    (hf : ∀ sts tested', Grounded t.DependsOn [] tested' → (sts = 0 → done₁ tested') →
      (∀ l ∈ tested', l ∈ tested ∨ reach₁ l) →
      t.Tests (good ∧ sts = 0) done₂ reach blocked tested' (f (sts, tested')))
    (hdone : ∀ a b, done₁ a → done₂ (a ++ b) → done (a ++ b)) :
    t.Tests good done reach blocked tested (x >>= f) := by
  obtain ⟨new₁, hx⟩ := hx
  cases hresult : x.result with
  | error e =>
    rw [Traced.bind_of_error hresult]
    refine ⟨new₁, hx.events, hx.grounded, fun l hl => (hx.met l hl).imp_right (hreach l), nofun,
      nofun, nofun, ?_⟩
    rintro _ ⟨⟩
    exact hx.raised e hresult
  | ok r =>
    obtain ⟨sts₁, tested₁⟩ := r
    obtain rfl := hx.returned sts₁ tested₁ hresult
    have hgrounded := grounded_append_iff.mpr ⟨htested, hx.grounded⟩
    have hdone₁ : sts₁ = 0 → done₁ (tested ++ new₁) := by
      rintro rfl
      exact (hx.success _ hresult).2.1
    have hmet : ∀ l ∈ tested ++ new₁, l ∈ tested ∨ reach₁ l := fun l hl =>
      (List.mem_append.mp hl).imp_right fun hl => (hx.met l hl).2
    obtain ⟨new₂, hf⟩ := hf sts₁ _ hgrounded hdone₁ hmet
    rw [Traced.bind_of_ok hresult]
    refine ⟨new₁ ++ new₂, ?_, grounded_append_iff.mpr ⟨hx.grounded, hf.grounded⟩, ?_, ?_, ?_, ?_,
      ?_⟩
    · simp [hx.events, hf.events]
    · intro l hl
      rcases List.mem_append.mp hl with hl | hl
      · exact (hx.met l hl).imp_right (hreach l)
      · exact hf.met l hl
    · intro sts tested' hr
      rw [hf.returned sts tested' hr, List.append_assoc]
    · intro tested' hr
      obtain ⟨⟨hgood, rfl⟩, hdone₂, hpasses⟩ := hf.success tested' hr
      obtain ⟨-, -, hpasses₁⟩ := hx.success _ hresult
      rw [hf.returned 0 tested' hr] at hdone₂ ⊢
      refine ⟨hgood, hdone _ _ (hdone₁ rfl) hdone₂, fun l hl => ?_⟩
      exact (List.mem_append.mp hl).elim (hpasses₁ l) (hpasses l)
    · intro sts tested' hr hsts
      rcases hf.failure sts tested' hr hsts with hbad | ⟨l, hl, hfails⟩ | hblocked
      · by_cases hzero : sts₁ = 0
        · exact .inl fun hgood => hbad ⟨hgood, hzero⟩
        · rcases hx.failure sts₁ _ hresult hzero with hbad | ⟨l, hl, hfails⟩ | hblocked
          · exact absurd trivial hbad
          · exact .inr (.inl ⟨l, List.mem_append_left _ hl, hfails⟩)
          · exact .inr (.inr hblocked)
      · exact .inr (.inl ⟨l, List.mem_append_right _ hl, hfails⟩)
      · exact .inr (.inr hblocked)
    · intro e hr
      rcases hf.raised e hr with hrecursion | ⟨l, hl, hfails⟩ | hblocked
      · exact .inl hrecursion
      · exact .inr (.inl ⟨l, List.mem_append_right _ hl, hfails⟩)
      · exact .inr (.inr hblocked)

end Report

section Visit

/-- Of the entries of a table only the first two matter. -/
theorem testAllAdds_eq_zero_iff (adds : List (Except E Bool)) :
    testAllAdds 0 adds = .ok 0 ↔ ∀ add ∈ adds.take 2, add = .ok true := by
  match adds with
  | [] => simp [testAllAdds]
  | .error e :: _ => simp [testAllAdds]
  | .ok false :: _ => simp [testAllAdds]
  | [.ok true] => simp [testAllAdds]
  | .ok true :: .error e :: _ => simp [testAllAdds]
  | .ok true :: .ok false :: _ => simp [testAllAdds]
  | [.ok true, .ok true] => simp [testAllAdds]
  | .ok true :: .ok true :: add :: adds => simp [testAllAdds]

variable {t} {visit : List Leaf → Leaf → TestRun Leaf E (ℤ × List Leaf)} {tested : List Leaf}
  {leaf : Leaf} {ids : List TdiId}

/-- The tables that a leaf knows by these ids have leaves and are tested or left out. -/
def DepsDone (t : Leaves Leaf E) (leaf : Leaf) (ids : List TdiId) (tested : List Leaf) : Prop :=
  ∀ id ∈ ids, ∃ y, t.tblIdMap leaf id = some (some y) ∧ (t.Testable y → y ∈ tested)

/-- What the test of a table does, after any others. -/
def VisitTests (t : Leaves Leaf E)
    (visit : List Leaf → Leaf → TestRun Leaf E (ℤ × List Leaf)) : Prop :=
  ∀ tested leaf, Grounded t.DependsOn [] tested →
    t.Tests True (fun l => t.Testable leaf → leaf ∈ l) (t.Reaches leaf) (t.Blocked leaf) tested
      (visit tested leaf)

omit [DecidableEq Leaf] in
theorem tests_testDeps (hvisit : VisitTests t visit) (hleaf : t.Testable leaf)
    (hids : ∀ id ∈ ids, id ∈ t.deps leaf) (htested : Grounded t.DependsOn [] tested) :
    t.Tests True (t.DepsDone leaf ids) (TransGen t.DependsOn leaf) (t.Blocked leaf) tested
      (t.testDeps visit leaf tested ids) := by
  induction ids generalizing tested with
  | nil => exact .pure (by simp [DepsDone]) nofun
  | cons id ids ih =>
    rw [List.forall_mem_cons] at hids
    rw [testDeps]
    have hblocked : (∀ y, t.tblIdMap leaf id ≠ some (some y)) → t.Blocked leaf := by
      intro hnone
      refine ⟨leaf, ⟨hleaf, .refl⟩, fun hlinked => ?_⟩
      obtain ⟨y, hy⟩ := hlinked id hids.1
      exact hnone y hy
    cases hid : t.tblIdMap leaf id with
    | none => exact .raise (.inr (hblocked (by simp [hid])))
    | some frontend =>
      cases frontend with
      | none => exact .pure nofun fun _ => .inr (hblocked (by simp [hid]))
      | some y =>
        have hdep : t.Testable y → t.DependsOn leaf y := fun hy => ⟨hy, id, hids.1, hid⟩
        have hy : t.Tests True (fun l => t.Testable y → y ∈ l) (TransGen t.DependsOn leaf)
            (t.Blocked leaf) tested (visit tested y) := by
          refine (hvisit tested y htested).mono (fun _ hl => hl)
            (fun l hl => .head' (hdep hl.1) hl.2) ?_
          rintro ⟨z, hz, hunlinked⟩
          exact ⟨z, ⟨hleaf, .head (hdep hz.1) hz.2⟩, hunlinked⟩
        have hrest : ∀ sts tested', Grounded t.DependsOn [] tested' →
            t.Tests (True ∧ sts = 0) (t.DepsDone leaf ids) (TransGen t.DependsOn leaf)
              (t.Blocked leaf) tested'
              (if sts ≠ 0 then pure (sts, tested') else t.testDeps visit leaf tested' ids) := by
          intro sts tested' htested'
          by_cases hsts : sts = 0
          · subst hsts
            simpa using ih hids.2 htested'
          · rw [if_pos hsts]
            exact .pure (absurd · hsts) fun _ => .inl fun h => hsts h.2
        refine hy.bind htested (fun _ hl => hl) (fun sts tested' h _ _ => hrest sts tested' h)
          fun a b ha hb => ?_
        rw [DepsDone, List.forall_mem_cons]
        exact ⟨⟨y, hid, fun hy => List.mem_append_left b (ha hy)⟩, hb⟩

omit [DecidableEq Leaf] in
/-- The last step: no other way leads back to a table that depends on tested ones only. -/
theorem tests_testAllAdds (hleaf : t.Testable leaf) (hnew : leaf ∉ tested)
    (hdeps : t.DepsDone leaf (t.deps leaf) tested) :
    t.Tests True (fun l => t.Testable leaf → leaf ∈ l) (t.Reaches leaf) (t.Blocked leaf) tested
      (Traced.emit [opened leaf] >>= fun _ => Traced.ofExcept (testAllAdds 0 (t.adds leaf)) >>=
        fun sts => pure (sts, tested ++ [leaf])) := by
  have hgrounded : Grounded t.DependsOn tested [leaf] := by
    refine ⟨hnew, ?_, trivial⟩
    rintro y ⟨hy, id, hid, hfrontend⟩
    obtain ⟨z, hz, hin⟩ := hdeps id hid
    obtain rfl : z = y := by simpa using hz.symm.trans hfrontend
    exact hin hy
  have hlinked : t.Linked leaf := fun id hid => (hdeps id hid).imp fun _ hy => hy.1
  have hmet : ∀ l ∈ [leaf], t.Linked l ∧ t.Reaches leaf l := by
    simpa using ⟨hlinked, hleaf, .refl⟩
  have hpasses : t.Passes leaf ↔ testAllAdds 0 (t.adds leaf) = .ok 0 :=
    (testAllAdds_eq_zero_iff _).symm
  cases hadds : testAllAdds 0 (t.adds leaf) with
  | error e =>
    have hfails : ¬ t.Passes leaf := by simp [hpasses, hadds]
    exact ⟨[leaf], rfl, hgrounded, hmet, nofun, nofun, nofun,
      fun _ _ => .inr (.inl ⟨leaf, by simp, hfails⟩)⟩
  | ok sts =>
    refine ⟨[leaf], rfl, hgrounded, hmet, ?_, ?_, ?_, nofun⟩
    · rintro _ _ ⟨⟩
      rfl
    · rintro _ ⟨⟩
      simpa using hpasses.mpr hadds
    · rintro _ _ ⟨⟩ hsts
      have hfails : ¬ t.Passes leaf := by simp [hpasses, hadds, hsts]
      exact .inr (.inl ⟨leaf, by simp, hfails⟩)

theorem visitTests_testTable (n : ℕ) : VisitTests t (t.testTable n) := by
  induction n with
  | zero => exact fun _ _ _ => .raise (.inl rfl)
  | succ n ih =>
    intro tested leaf htested
    rw [testTable]
    by_cases hold : leaf ∈ tested
    · rw [if_pos hold]
      exact .pure (by simp [hold]) nofun
    by_cases hkeys : t.hasKeys leaf = true
    swap
    · rw [if_neg hold, if_pos hkeys]
      exact .pure (by simp [Testable, hkeys]) nofun
    by_cases htype : t.tableTypeStr leaf ∈ noUsageTables
    · rw [if_neg hold, if_neg (not_not.mpr hkeys), if_pos htype]
      exact .pure (by simp [Testable, htype]) nofun
    rw [if_neg hold, if_neg (not_not.mpr hkeys), if_neg htype]
    have hleaf : t.Testable leaf := ⟨hkeys, htype⟩
    have hrest : ∀ sts tested', Grounded t.DependsOn [] tested' →
        (sts = 0 → t.DepsDone leaf (t.deps leaf) tested') →
        (∀ l ∈ tested', l ∈ tested ∨ TransGen t.DependsOn leaf l) →
        t.Tests (True ∧ sts = 0) (fun l => t.Testable leaf → leaf ∈ l) (t.Reaches leaf)
          (t.Blocked leaf) tested' (if sts ≠ 0 then pure (sts, tested')
          else Traced.emit [opened leaf] >>= fun _ =>
            Traced.ofExcept (testAllAdds 0 (t.adds leaf)) >>= fun sts =>
            pure (sts, tested' ++ [leaf])) := by
      intro sts tested' htested' hdeps hmet
      by_cases hsts : sts = 0
      · subst hsts
        -- on a cycle the table would have been tested by the tests that lead to it
        have hnew : leaf ∉ tested' := by
          intro hin
          rcases hmet leaf hin with hin | hcycle
          · exact hold hin
          · exact htested'.acyclic ‹leaf ∈ tested'› hcycle
        simpa using tests_testAllAdds hleaf hnew (hdeps rfl)
      · rw [if_pos hsts]
        exact .pure (absurd · hsts) fun _ => .inl fun h => hsts h.2
    exact (tests_testDeps ih hleaf (fun _ hid => hid) htested).bind htested
      (fun l hl => ⟨hleaf, hl.to_reflTransGen⟩) hrest fun _ _ _ h => h

end Visit

section Tree

variable {leafOf : Label → Option Leaf} {t}
  {visit : List Leaf → Leaf → TestRun Leaf E (ℤ × List Leaf)}

theorem lor_eq_zero_iff (a b : ℤ) : a.lor b = 0 ↔ a = 0 ∧ b = 0 := by
  cases a <;> cases b <;> simp [Int.lor]

/-- The tables that the test of these leads to. -/
def ReachedFrom (t : Leaves Leaf E) (leaves : List Leaf) (y : Leaf) : Prop :=
  ∃ leaf ∈ leaves, t.Reaches leaf y

def TestsAll (t : Leaves Leaf E) (good : Prop) (leaves tested : List Leaf)
    (x : TestRun Leaf E (ℤ × List Leaf)) : Prop :=
  t.Tests good (fun l => ∀ leaf ∈ leaves, t.Testable leaf → leaf ∈ l) (t.ReachedFrom leaves)
    (∃ leaf ∈ leaves, t.Blocked leaf) tested x

omit [DecidableEq Leaf] in
theorem tests_childTests (hvisit : VisitTests t visit) {l : List (NamedTree ν Label)}
    (hnodes : ∀ c ∈ l, leafOf c.label = none → ∀ tested, Grounded t.DependsOn [] tested →
      t.TestsAll True (outer leafOf c) tested (nodeTest leafOf visit tested c))
    {tested : List Leaf} (htested : Grounded t.DependsOn [] tested) (sts : ℤ) :
    t.TestsAll (sts = 0) (l.flatMap (outer leafOf)) tested
      (childTests leafOf visit sts tested l) := by
  induction l generalizing tested sts with
  | nil => exact .pure (by simp) .inl
  | cons c l ih =>
    rw [List.forall_mem_cons] at hnodes
    rw [childTests, List.flatMap_cons]
    have hchild : t.TestsAll True (outer leafOf c) tested (match leafOf c.label with
        | none => nodeTest leafOf visit tested c
        | some leaf => visit tested leaf) := by
      cases hlabel : leafOf c.label with
      | none => exact hnodes.1 hlabel tested htested
      | some leaf =>
        rw [outer_of_leaf hlabel]
        exact (hvisit tested leaf htested).mono (by simp) (fun l hl => ⟨leaf, by simp, hl⟩)
          fun hblocked => ⟨leaf, by simp, hblocked⟩
    have hrest : ∀ childSts tested', Grounded t.DependsOn [] tested' →
        t.Tests (sts = 0 ∧ childSts = 0)
          (fun l' => ∀ leaf ∈ l.flatMap (outer leafOf), t.Testable leaf → leaf ∈ l')
          (t.ReachedFrom (outer leafOf c ++ l.flatMap (outer leafOf)))
          (∃ leaf ∈ outer leafOf c ++ l.flatMap (outer leafOf), t.Blocked leaf) tested'
          (childTests leafOf visit (sts.lor childSts) tested' l) := by
      intro childSts tested' htested'
      rw [← lor_eq_zero_iff]
      refine (ih hnodes.2 htested' (sts.lor childSts)).mono (fun _ h => h) ?_ ?_
      · rintro y ⟨leaf, hleaf, hy⟩
        exact ⟨leaf, List.mem_append_right _ hleaf, hy⟩
      · rintro ⟨leaf, hleaf, hblocked⟩
        exact ⟨leaf, List.mem_append_right _ hleaf, hblocked⟩
    have hfirst := hchild.mono (fun _ h => h) (fun _ h => h) (fun ⟨leaf, hleaf, hblocked⟩ =>
      (⟨leaf, List.mem_append_left (l.flatMap (outer leafOf)) hleaf, hblocked⟩ :
        ∃ leaf ∈ outer leafOf c ++ l.flatMap (outer leafOf), t.Blocked leaf))
    refine hfirst.bind htested ?_ (fun sts tested' h _ _ => hrest sts tested' h) fun a b ha hb => ?_
    · rintro y ⟨leaf, hleaf, hy⟩
      exact ⟨leaf, List.mem_append_left _ hleaf, hy⟩
    · intro leaf hleaf htestable
      rcases List.mem_append.mp hleaf with hleaf | hleaf
      · exact List.mem_append_left _ (ha leaf hleaf htestable)
      · exact hb leaf hleaf htestable

omit [DecidableEq Leaf] in
/-- The test of a node is about the leaves that the walk below it meets. -/
theorem tests_nodeTest (hvisit : VisitTests t visit) (x : NamedTree ν Label) {tested : List Leaf}
    (htested : Grounded t.DependsOn [] tested) :
    t.TestsAll True (x.children.flatMap (outer leafOf)) tested
      (nodeTest leafOf visit tested x) := by
  induction x using NamedTree.induction_on generalizing tested with
  | step x ih =>
    have hnodes : ∀ c ∈ x.children, leafOf c.label = none → ∀ tested,
        Grounded t.DependsOn [] tested →
        t.TestsAll True (outer leafOf c) tested (nodeTest leafOf visit tested c) := by
      intro c hc hlabel tested htested
      rw [outer_of_node hlabel]
      exact ih c hc htested
    have hchildren := tests_childTests hvisit hnodes htested 0
    obtain ⟨k, label, children⟩ := x
    rw [nodeTest]
    simpa using hchildren

end Tree

section Recursion

variable {leafOf : Label → Option Leaf} {t} {tested : List Leaf} {leaf : Leaf}
  {visit : List Leaf → Leaf → TestRun Leaf E (ℤ × List Leaf)}

omit [DecidableEq Leaf] in
theorem of_testDeps_recursionError {ids : List TdiId}
    (h : (t.testDeps visit leaf tested ids).result = .error .recursionError) :
    ∃ id ∈ ids, ∃ y tested', t.tblIdMap leaf id = some (some y) ∧
      (visit tested' y).result = .error .recursionError := by
  induction ids generalizing tested with
  | nil => cases h
  | cons id ids ih =>
    rw [testDeps] at h
    cases hid : t.tblIdMap leaf id with
    | none =>
      rw [hid] at h
      cases h
    | some frontend =>
      rw [hid] at h
      cases frontend with
      | none => cases h
      | some y =>
        rcases Traced.result_bind_eq_error_iff.mp h with hy | ⟨⟨sts, tested'⟩, -, hrest⟩
        · exact ⟨id, List.mem_cons_self, y, tested, hid, hy⟩
        · dsimp only at hrest
          by_cases hsts : sts = 0
          · rw [if_neg (not_not.mpr hsts)] at hrest
            obtain ⟨id', hid', hy⟩ := ih hrest
            exact ⟨id', List.mem_cons_of_mem _ hid', hy⟩
          · rw [if_pos hsts] at hrest
            cases hrest

theorem testAllAdds_ne_recursionError (i : ℕ) (adds : List (Except E Bool)) :
    testAllAdds i adds ≠ .error .recursionError := by
  induction adds generalizing i with
  | nil => nofun
  | cons add adds ih =>
    unfold testAllAdds
    split_ifs
    · nofun
    · rcases add with e | _ | _
      · nofun
      · nofun
      · exact ih (i + 1)

/-- The nested calls are about tables each of which depends on the next one. -/
theorem chain_of_recursionError {n : ℕ}
    (h : (t.testTable n tested leaf).result = .error .recursionError) :
    ∃ chain : List Leaf, chain.length = n ∧ chain.IsChain t.DependsOn ∧
      (∀ y ∈ chain.head?, y = leaf) ∧ ∀ y ∈ chain, t.Reaches leaf y := by
  induction n generalizing tested leaf with
  | zero => exact ⟨[], rfl, .nil, by simp, by simp⟩
  | succ n ih =>
    rw [testTable] at h
    by_cases hold : leaf ∈ tested
    · rw [if_pos hold] at h
      cases h
    by_cases hkeys : t.hasKeys leaf = true
    swap
    · rw [if_neg hold, if_pos hkeys] at h
      cases h
    by_cases htype : t.tableTypeStr leaf ∈ noUsageTables
    · rw [if_neg hold, if_neg (not_not.mpr hkeys), if_pos htype] at h
      cases h
    rw [if_neg hold, if_neg (not_not.mpr hkeys), if_neg htype] at h
    have hleaf : t.Testable leaf := ⟨hkeys, htype⟩
    rcases Traced.result_bind_eq_error_iff.mp h with hdeps | ⟨⟨sts, tested'⟩, -, hrest⟩
    · obtain ⟨id, hid, y, tested', hfrontend, hy⟩ := of_testDeps_recursionError hdeps
      obtain ⟨chain, hlength, hchain, hhead, hreach⟩ := ih hy
      have hdep : ∀ z ∈ chain, t.DependsOn leaf y := fun z hz =>
        ⟨(hreach z hz).1, id, hid, hfrontend⟩
      refine ⟨leaf :: chain, by simp [hlength], List.isChain_cons.mpr ⟨fun z hz => ?_, hchain⟩,
        by simp, List.forall_mem_cons.mpr ⟨⟨hleaf, .refl⟩, fun z hz => ?_⟩⟩
      · rw [hhead z hz]
        exact hdep z (List.mem_of_mem_head? hz)
      · exact ⟨hleaf, .head (hdep z hz) (hreach z hz).2⟩
    · dsimp only at hrest
      by_cases hsts : sts = 0
      · rw [if_neg (not_not.mpr hsts)] at hrest
        cases hadds : testAllAdds 0 (t.adds leaf) with
        | ok _ =>
          rw [hadds] at hrest
          cases hrest
        | error e =>
          rw [hadds] at hrest
          injection hrest with he
          exact absurd (he ▸ hadds) (testAllAdds_ne_recursionError 0 _)
      · rw [if_pos hsts] at hrest
        cases hrest

omit [DecidableEq Leaf] in
theorem of_childTests_recursionError {l : List (NamedTree ν Label)}
    (hnodes : ∀ c ∈ l, leafOf c.label = none → ∀ tested,
      (nodeTest leafOf visit tested c).result = .error .recursionError →
      ∃ leaf ∈ outer leafOf c, ∃ tested', (visit tested' leaf).result = .error .recursionError)
    {sts : ℤ} (h : (childTests leafOf visit sts tested l).result = .error .recursionError) :
    ∃ leaf ∈ l.flatMap (outer leafOf), ∃ tested',
      (visit tested' leaf).result = .error .recursionError := by
  induction l generalizing tested sts with
  | nil => cases h
  | cons c l ih =>
    rw [List.forall_mem_cons] at hnodes
    rw [childTests] at h
    rw [List.flatMap_cons]
    rcases Traced.result_bind_eq_error_iff.mp h with hchild | ⟨⟨childSts, tested'⟩, -, hrest⟩
    · have hfound : ∃ leaf ∈ outer leafOf c, ∃ tested',
          (visit tested' leaf).result = .error .recursionError := by
        cases hlabel : leafOf c.label with
        | none =>
          rw [hlabel] at hchild
          exact hnodes.1 hlabel tested hchild
        | some leaf =>
          rw [hlabel] at hchild
          rw [outer_of_leaf hlabel]
          exact ⟨leaf, List.mem_singleton_self leaf, tested, hchild⟩
      obtain ⟨leaf, hleaf, hvisit⟩ := hfound
      exact ⟨leaf, List.mem_append_left _ hleaf, hvisit⟩
    · obtain ⟨leaf, hleaf, hvisit⟩ := ih hnodes.2 hrest
      exact ⟨leaf, List.mem_append_right _ hleaf, hvisit⟩

omit [DecidableEq Leaf] in
theorem of_nodeTest_recursionError (x : NamedTree ν Label)
    (h : (nodeTest leafOf visit tested x).result = .error .recursionError) :
    ∃ leaf ∈ x.children.flatMap (outer leafOf), ∃ tested',
      (visit tested' leaf).result = .error .recursionError := by
  induction x using NamedTree.induction_on generalizing tested with
  | step x ih =>
    have hnodes : ∀ c ∈ x.children, leafOf c.label = none → ∀ tested,
        (nodeTest leafOf visit tested c).result = .error .recursionError →
        ∃ leaf ∈ outer leafOf c, ∃ tested',
          (visit tested' leaf).result = .error .recursionError := by
      intro c hc hlabel tested hraised
      rw [outer_of_node hlabel]
      exact ih c hc hraised
    obtain ⟨k, label, children⟩ := x
    rw [nodeTest] at h
    exact of_childTests_recursionError hnodes h

end Recursion

section Cleanup

variable {t}

omit [DecidableEq Leaf] in
theorem clean_eq (leaf : Leaf) : t.clean leaf = match t.removal leaf with
    | .ok _ => ⟨.ok (), [closed leaf]⟩
    | .error e => ⟨.error (.driver e), []⟩ := by
  unfold clean
  cases t.removal leaf <;> rfl

omit [DecidableEq Leaf] in
/-- The tables are cleaned up in reverse, as far as that does not raise. -/
theorem cleanup_cases (tested : List Leaf) :
    (t.cleanup tested = ⟨.ok (), tested.reverse.map closed⟩ ∧
      ∀ l ∈ tested, t.removal l = .ok ()) ∨
    ∃ m e, m <+: tested.reverse ∧ t.cleanup tested = ⟨.error (.driver e), m.map closed⟩ ∧
      ∃ l ∈ tested, t.removal l = .error e := by
  have hok : ∀ l, (t.clean l).result = .ok () →
      t.removal l = .ok () ∧ (t.clean l).events = [closed l] := by
    intro l hl
    rw [clean_eq] at hl ⊢
    cases hremoval : t.removal l with
    | ok _ => exact ⟨rfl, rfl⟩
    | error e =>
      rw [hremoval] at hl
      cases hl
  have hevents : ∀ m : List Leaf, (∀ l ∈ m, (t.clean l).result = .ok ()) →
      (m.flatMap fun l => (t.clean l).events) = m.map closed := by
    intro m hm
    rw [List.flatMap_congr fun l hl => (hok l (hm l hl)).2]
    exact List.map_eq_flatMap.symm
  rcases Traced.each_cases t.clean tested.reverse with
    ⟨hall, heq⟩ | ⟨m, l, after, e, hsplit, hm, hl, heq⟩
  · refine .inl ⟨?_, fun l hl => (hok l (hall l (List.mem_reverse.mpr hl))).1⟩
    rw [cleanup, heq, hevents _ hall]
  · have hin : l ∈ tested := List.mem_reverse.mp (by simp [hsplit])
    rw [clean_eq] at hl
    cases hremoval : t.removal l with
    | ok _ =>
      rw [hremoval] at hl
      cases hl
    | error e' =>
      rw [hremoval] at hl
      obtain rfl : Failure.driver e' = e := by simpa using hl
      refine .inr ⟨m, e', ⟨l :: after, hsplit.symm⟩, ?_, l, hin, hremoval⟩
      rw [cleanup, heq, hevents m hm, clean_eq, hremoval, List.append_nil]

end Cleanup

section Run

variable {leafOf : Label → Option Leaf} {t} {n : ℕ} {x : NamedTree ν Label} {sts : ℤ}

/-- The leaves below a node. -/
def leavesBelow (leafOf : Label → Option Leaf) (x : NamedTree ν Label) : List Leaf :=
  x.children.flatMap (outer leafOf)

variable (t leafOf n x)

/-- A run tests some tables, and unless that raises it cleans them up. -/
theorem depTester_cases :
    ∃ tested, t.Report True (fun l => ∀ leaf ∈ leavesBelow leafOf x, t.Testable leaf → leaf ∈ l)
      (t.ReachedFrom (leavesBelow leafOf x)) (∃ leaf ∈ leavesBelow leafOf x, t.Blocked leaf) []
      tested (nodeTest leafOf (t.testTable n) [] x) ∧
      ((∃ e, (nodeTest leafOf (t.testTable n) [] x).result = .error e ∧
        depTester t leafOf n x = ⟨.error e, tested.map opened⟩) ∨
      ∃ sts, (nodeTest leafOf (t.testTable n) [] x).result = .ok (sts, tested) ∧
        ((depTester t leafOf n x = ⟨.ok sts, tested.map opened ++ tested.reverse.map closed⟩ ∧
          ∀ l ∈ tested, t.removal l = .ok ()) ∨
        ∃ m e, m <+: tested.reverse ∧
          depTester t leafOf n x = ⟨.error (.driver e), tested.map opened ++ m.map closed⟩ ∧
          ∃ l ∈ tested, t.removal l = .error e)) := by
  have htests : t.TestsAll True (leavesBelow leafOf x) []
      (nodeTest leafOf (t.testTable n) [] x) :=
    tests_nodeTest (visitTests_testTable n) x trivial
  obtain ⟨tested, hrun⟩ := htests
  refine ⟨tested, hrun, ?_⟩
  cases hresult : (nodeTest leafOf (t.testTable n) [] x).result with
  | error e =>
    refine .inl ⟨e, rfl, ?_⟩
    rw [depTester, Traced.bind_of_error hresult, hrun.events]
  | ok r =>
    obtain ⟨sts, tested'⟩ := r
    obtain rfl : tested' = tested := by simpa using hrun.returned sts tested' hresult
    refine .inr ⟨sts, rfl, ?_⟩
    rw [depTester, Traced.bind_of_ok hresult, hrun.events]
    dsimp only
    rcases t.cleanup_cases tested' with ⟨heq, hremoved⟩ | ⟨m, e, hm, heq, hraised⟩
    · refine .inl ⟨?_, hremoved⟩
      rw [heq]
      simp [pure]
    · refine .inr ⟨m, e, hm, ?_, hraised⟩
      rw [heq]
      simp

theorem events_depTester :
    ∃ tested cleaned, (depTester t leafOf n x).events = tested.map opened ++ cleaned.map closed ∧
      Grounded t.DependsOn [] tested ∧ cleaned <+: tested.reverse ∧
      ∀ sts, (depTester t leafOf n x).result = .ok sts → cleaned = tested.reverse := by
  obtain ⟨tested, hrun, ⟨e, -, heq⟩ | ⟨sts, -, ⟨heq, -⟩ | ⟨m, e, hm, heq, -⟩⟩⟩ :=
    depTester_cases t leafOf n x
  · exact ⟨tested, [], by simp [heq], hrun.grounded, List.nil_prefix, by simp [heq]⟩
  · exact ⟨tested, tested.reverse, by rw [heq], hrun.grounded, List.prefix_rfl, fun _ _ => rfl⟩
  · exact ⟨tested, m, by rw [heq], hrun.grounded, hm, by simp [heq]⟩

/-- However a run ends, no table is tested or cleaned up twice, and at each moment every table that
a tested one depends on, as long as that is not cleaned up, is tested and not cleaned up either,
unless it is left out. A run that returns has cleaned up every table it has tested. -/
theorem dep_tester_supported :
    (depTester t leafOf n x).events.Nodup ∧
      Supported t.DependsOn (depTester t leafOf n x).events ∧
      ∀ sts, (depTester t leafOf n x).result = .ok sts →
        openAfter (depTester t leafOf n x).events = [] := by
  obtain ⟨tested, cleaned, hevents, hgrounded, hcleaned, hreturns⟩ := events_depTester t leafOf n x
  rw [hevents]
  refine ⟨?_, hgrounded.supported hcleaned, fun sts hsts => ?_⟩
  · have htested : tested.Nodup := hgrounded.nodup.1
    have hnodup : cleaned.Nodup := (List.nodup_reverse.mpr htested).sublist hcleaned.sublist
    refine List.Nodup.append (htested.map fun _ _ h => opened.inj h)
      (hnodup.map fun _ _ h => closed.inj h) ?_
    intro event hopened hclosed
    obtain ⟨l, -, rfl⟩ := List.mem_map.mp hopened
    obtain ⟨l', -, h⟩ := List.mem_map.mp hclosed
    cases h
  · apply openAfter_closed
    rw [hreturns sts hsts, List.append_nil]

variable {t leafOf n x}

omit [DecidableEq Leaf] in
/-- All that is reached from the leaves is in a list that has the leaves and what each depends
on. -/
theorem mem_of_reachedFrom {leaves tested : List Leaf} {y : Leaf}
    (hgrounded : Grounded t.DependsOn [] tested)
    (hdone : ∀ leaf ∈ leaves, t.Testable leaf → leaf ∈ tested)
    (hy : t.ReachedFrom leaves y) : y ∈ tested := by
  obtain ⟨leaf, hleaf, htestable, hreach⟩ := hy
  have hin := hdone leaf hleaf htestable
  rcases reflTransGen_iff_eq_or_transGen.mp hreach with rfl | hreach
  · exact hin
  · exact hgrounded.mem_of_transGen hin hreach

/-- The recursion is not too deep if there are fewer tables than calls that may be nested, and no
cycle. -/
theorem ne_recursionError {tables : List Leaf}
    (htables : ∀ l, t.ReachedFrom (leavesBelow leafOf x) l → l ∈ tables) (hn : tables.length < n)
    (hacyclic : ∀ l, t.ReachedFrom (leavesBelow leafOf x) l → ¬ TransGen t.DependsOn l l) :
    (nodeTest leafOf (t.testTable n) [] x).result ≠ .error .recursionError := by
  intro h
  obtain ⟨leaf, hleaf, tested, hvisit⟩ := of_nodeTest_recursionError x h
  obtain ⟨chain, hlength, hchain, -, hreach⟩ := chain_of_recursionError hvisit
  have hreached : ∀ y ∈ chain, t.ReachedFrom (leavesBelow leafOf x) y :=
    fun y hy => ⟨leaf, hleaf, hreach y hy⟩
  have hle : chain.length ≤ tables.length :=
    length_le_of_isChain (fun y hy => hacyclic y (hreached y hy)) hchain
      fun y hy => htables y (hreached y hy)
  omega

/-- Where fewer tables than calls that may be nested are reached, the test is a success exactly if
each of them depends on tables with leaves only, and not on itself, its first entries, at most two,
can be pushed, and its cleanup raises nothing. -/
theorem dep_test_success_iff {tables : List Leaf}
    (htables : ∀ l, t.ReachedFrom (leavesBelow leafOf x) l → l ∈ tables) (hn : tables.length < n) :
    (depTester t leafOf n x).result = .ok 0 ↔
      ∀ l, t.ReachedFrom (leavesBelow leafOf x) l →
        t.Linked l ∧ ¬ TransGen t.DependsOn l l ∧ t.Passes l ∧ t.removal l = .ok () := by
  obtain ⟨tested, hrun, hcases⟩ := depTester_cases t leafOf n x
  constructor
  · intro h
    rcases hcases with ⟨e, -, heq⟩ | ⟨sts, hresult, ⟨heq, hremoved⟩ | ⟨m, e, -, heq, -⟩⟩
    · simp [heq] at h
    · obtain rfl : sts = 0 := by simpa [heq] using h
      obtain ⟨-, hdone, hpasses⟩ := hrun.success tested hresult
      intro l hl
      have hin : l ∈ tested := mem_of_reachedFrom hrun.grounded hdone hl
      exact ⟨(hrun.met l hin).1, hrun.grounded.acyclic hin, hpasses l hin, hremoved l hin⟩
    · simp [heq] at h
  · intro hall
    have htested : ∀ l ∈ tested, t.Passes l ∧ t.removal l = .ok () :=
      fun l hl => (hall l (hrun.met l hl).2).2.2
    have hfine : ¬ ((∃ l ∈ tested, ¬ t.Passes l) ∨
        ∃ leaf ∈ leavesBelow leafOf x, t.Blocked leaf) := by
      rintro (⟨l, hl, hfails⟩ | ⟨leaf, hleaf, y, hy, hunlinked⟩)
      · exact hfails (htested l hl).1
      · exact hunlinked (hall y ⟨leaf, hleaf, hy⟩).1
    rcases hcases with ⟨e, hresult, -⟩ | ⟨sts, hresult, ⟨heq, -⟩ | ⟨m, e, -, -, l, hl, hraised⟩⟩
    · rcases hrun.raised e hresult with rfl | hbad
      · exact absurd hresult (ne_recursionError htables hn fun l hl => (hall l hl).2.1)
      · exact absurd hbad hfine
    · by_cases hsts : sts = 0
      · rw [heq, hsts]
      · rcases hrun.failure sts tested hresult hsts with hbad | hbad
        · exact absurd trivial hbad
        · exact absurd hbad hfine
    · rw [(htested l hl).2] at hraised
      cases hraised

end Run

end Leaves

section Switch

/-- Two tables below a node, of which the one that is met first depends on the other. -/
def switchTree : NamedTree String (Option String) :=
  mk "switch" none [mk "pipe" none [mk "nat" (some "nat") []], mk "acl" (some "acl") []]

def switchLeaves : Leaves String TdiStatus where
  getId leaf := if leaf = "acl" then 1 else 2
  hasKeys _ := true
  tableTypeStr _ := "MATCH_DIRECT"
  tblDepMap _ id := if id = 2 then some [1] else none
  tblIdMap _ id := if id = 1 then some (some "acl") else if id = 2 then some (some "nat") else none
  adds _ := [.ok true]
  removal _ := .ok ()

theorem switchLeaves_reached {l : String}
    (h : switchLeaves.ReachedFrom (Leaves.leavesBelow id switchTree) l) : l ∈ ["nat", "acl"] := by
  have hdep : ∀ x y, switchLeaves.DependsOn x y → y ∈ ["nat", "acl"] := by
    rintro x y ⟨-, id, -, hid⟩
    simp only [switchLeaves] at hid
    split_ifs at hid <;> simp_all
  obtain ⟨leaf, hleaf, -, hreach⟩ := h
  rcases ReflTransGen.cases_tail hreach with rfl | ⟨x, -, hx⟩
  · exact hleaf
  · exact hdep x l hx

theorem dep_test_success_switch :
    (depTester switchLeaves id 3 switchTree).result = .ok 0 ↔
      ∀ l, switchLeaves.ReachedFrom (Leaves.leavesBelow id switchTree) l →
        switchLeaves.Linked l ∧ ¬ TransGen switchLeaves.DependsOn l l ∧ switchLeaves.Passes l ∧
          switchLeaves.removal l = .ok () :=
  Leaves.dep_test_success_iff (fun _ => switchLeaves_reached) (by decide)

example : (depTester switchLeaves id 3 switchTree).events =
    [opened "acl", opened "nat", closed "nat", closed "acl"] := rfl

end Switch

end Tdi.Cli.DepTester

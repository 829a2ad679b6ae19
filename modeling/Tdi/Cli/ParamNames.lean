import Tdi.Cli.PythonNames
import Tdi.Foundation.Components
import Tdi.Foundation.Dict

/-!
# Names of parameters

The name of a field becomes the name of a parameter. `_make_param_names` takes only its
last component, and one more of them as long as names collide. `_build_names` is one such
try. Its result tells two kinds of collision apart, as only a name that has components
left can still be made longer.

The dictionary of the names that are taken is the caller's. Every try works on a copy of
it, so the dictionaries of the program are part of the state.
-/
namespace Tdi.Cli.ParamNames

open Foundation

section Name

/-- `name.decode('ascii')` after the calls of `replace`. A name is the text that it decodes
to. -/
def sanitised (name : List Char) : List Char :=
  (name.filter (· ≠ '$')).map fun c => if c ∈ ['-', ':', '[', ']'] then '_' else c

/-- `cidx` after the loop, with nothing for `-1`. -/
def cidx (ridx : ℕ) (name : String) : Option ℕ :=
  rfindTimes '.' (sanitised name.toList) ridx (sanitised name.toList).length

/-- `p_name` -/
def pName (ridx : ℕ) (name : String) : String :=
  String.ofList ((sliceAfter (sanitised name.toList) (cidx ridx name)).map
    fun c => if c = '.' then '_' else c)

/-- The components of a name, which are separated by dots. -/
def components (name : String) : List (List Char) := name.toList.splitOn '.'

/-- The last components of a name, with everything replaced that must not stand in a name
of a parameter. -/
def shortOf (ridx : ℕ) (name : String) : String :=
  String.ofList (['_'].intercalate ((lastComponents '.' ridx name.toList).map sanitised))

/-- The whole name, with everything replaced. -/
def fullName (name : String) : String :=
  String.ofList ((name.toList.filter (· ≠ '$')).map
    fun c => if c ∈ ['-', ':', '[', ']', '.'] then '_' else c)

/-- The components of a name are identifiers once it is sanitised. -/
def OfIdentifiers (name : String) : Prop :=
  ∀ p ∈ components name, isidentifier (String.ofList (sanitised p)) = true

instance (name : String) : Decidable (OfIdentifiers name) :=
  inferInstanceAs (Decidable (∀ p ∈ components name, _))

theorem isidentifier_shortOf {name : String} (h : OfIdentifiers name) {ridx : ℕ} (hr : 1 ≤ ridx) :
    isidentifier (shortOf ridx name) = true := by
  unfold shortOf lastComponents
  apply isidentifier_intercalate
  · have hne := List.splitOn_ne_nil '.' name.toList
    rw [Ne, List.map_eq_nil_iff, List.drop_eq_nil_iff]
    have hpos := List.length_pos_iff.mpr hne
    omega
  · intro p hp
    obtain ⟨q, hq, rfl⟩ := List.mem_map.mp hp
    exact h q (List.mem_of_mem_drop hq)

theorem sanitised_append (p q : List Char) :
    sanitised (p ++ q) = sanitised p ++ sanitised q := by
  simp [sanitised]

theorem dot_not_mem_sanitised {p : List Char} (h : '.' ∉ p) : '.' ∉ sanitised p := by
  intro hmem
  obtain ⟨c, hc, he⟩ := List.mem_map.mp hmem
  split_ifs at he with hbad
  · exact absurd he (by decide)
  · exact h (he ▸ List.mem_of_mem_filter hc)

/-- Nothing that is replaced is a dot, so the components are replaced one by one. -/
theorem splitOn_sanitised (p : List Char) :
    (sanitised p).splitOn '.' = (p.splitOn '.').map sanitised :=
  splitOn_apply sanitised_append (by decide) (fun _ => dot_not_mem_sanitised) p

theorem cidx_eq_none_iff {ridx : ℕ} {name : String} :
    cidx ridx name = none ↔ (components name).length ≤ ridx := by
  have htimes := rfindTimes_eq '.' ridx (sanitised name.toList) []
  rw [List.append_nil, splitOn_sanitised, List.length_map] at htimes
  rw [cidx, htimes, components]
  split_ifs with h <;> simp [h]

theorem pName_eq_shortOf {ridx : ℕ} (h : 1 ≤ ridx) (name : String) :
    pName ridx name = shortOf ridx name := by
  have hlast : lastComponents '.' ridx (sanitised name.toList) =
      (lastComponents '.' ridx name.toList).map sanitised := by
    rw [lastComponents, splitOn_sanitised, List.length_map, ← List.map_drop, lastComponents]
  have hdots : ∀ p ∈ (lastComponents '.' ridx name.toList).map sanitised,
      p.map (fun c => if c = '.' then '_' else c) = p := by
    intro p hp
    obtain ⟨q, hq, rfl⟩ := List.mem_map.mp hp
    have hdot := dot_not_mem_sanitised (not_mem_of_mem_splitOn (List.mem_of_mem_drop hq))
    nth_rewrite 2 [← List.map_id (sanitised q)]
    apply List.map_congr_left
    intro c hc
    refine if_neg ?_
    rintro rfl
    exact hdot hc
  rw [pName, cidx, drop_rfindTimes h, hlast, map_intercalate, if_pos rfl, List.map_congr_left hdots,
    List.map_id', shortOf]

example : pName 2 "$hdr.ipv4[0].dst-addr" = "ipv4_0__dst_addr" := by decide +kernel

/-- A name that has no more components is taken whole. -/
theorem pName_eq_fullName {ridx : ℕ} {name : String} (h : (components name).length ≤ ridx) :
    pName ridx name = fullName name := by
  rw [pName, cidx_eq_none_iff.mpr h, sliceAfter, sanitised, List.map_map, fullName]
  congr 1
  apply List.map_congr_left
  intro c _
  by_cases hdot : c = '.'
  · subst hdot
    decide
  · have hmem : c ∈ ['-', ':', '[', ']', '.'] ↔ c ∈ ['-', ':', '[', ']'] := by simp [hdot]
    simp only [Function.comp_apply, hmem]
    split_ifs <;> rfl

end Name

/-- The variables that `_build_names` works on. -/
structure Built where
  pNames : Dict String
  curCollide : Dict ℕ
  collision : ℤ

section Round

variable (ridx : ℕ)

/-- One round of the loop over the names. -/
def buildName (b : Built) (name : String) : Built where
  pNames := b.pNames.set name (pName ridx name)
  curCollide := b.curCollide.set (pName ridx name) 0
  collision :=
    if pName ridx name ∈ b.curCollide.keys then
      if cidx ridx name = none then -2
      else if b.collision = 0 then -1 else b.collision
    else b.collision

/-- `_build_names` -/
def buildNames (names : List String) (curCollide : Dict ℕ) : Built :=
  names.foldl (buildName ridx) ⟨Dict.empty, curCollide, 0⟩

variable {ridx}

theorem mem_keys_buildName {b : Built} {name s : String} :
    s ∈ (buildName ridx b name).curCollide.keys ↔
      s = pName ridx name ∨ s ∈ b.curCollide.keys :=
  Dict.mem_keys_set

theorem mem_keys_foldl {b : Built} {names : List String} {s : String} :
    s ∈ (names.foldl (buildName ridx) b).curCollide.keys ↔
      s ∈ names.map (pName ridx) ∨ s ∈ b.curCollide.keys := by
  induction names generalizing b with
  | nil => simp
  | cons name names ih =>
    rw [List.foldl_cons, ih, mem_keys_buildName, List.map_cons, List.mem_cons]
    tauto

theorem buildName_collision_eq_zero_iff {b : Built} {name : String} :
    (buildName ridx b name).collision = 0 ↔
      b.collision = 0 ∧ pName ridx name ∉ b.curCollide.keys := by
  unfold buildName
  split_ifs <;> simp_all

/-- There is no collision exactly when the names are new and differ. -/
theorem foldl_collision_eq_zero_iff {b : Built} {names : List String} :
    (names.foldl (buildName ridx) b).collision = 0 ↔
      b.collision = 0 ∧ (names.map (pName ridx)).Nodup ∧
        ∀ name ∈ names, pName ridx name ∉ b.curCollide.keys := by
  induction names generalizing b with
  | nil => simp
  | cons name names ih =>
    rw [List.foldl_cons, ih, buildName_collision_eq_zero_iff, List.map_cons, List.nodup_cons,
      List.forall_mem_cons]
    simp only [mem_keys_buildName, not_or, List.mem_map, not_exists, not_and]
    constructor
    · rintro ⟨⟨hb, hname⟩, hnodup, hrest⟩
      exact ⟨hb, ⟨fun m hm => (hrest m hm).1, hnodup⟩, hname, fun m hm => (hrest m hm).2⟩
    · rintro ⟨hb, ⟨hdiff, hnodup⟩, hname, hrest⟩
      exact ⟨⟨hb, hname⟩, hnodup, fun m hm => ⟨hdiff m hm, hrest m hm⟩⟩

variable (ridx) in
/-- The first kind of collision needs a name that has components left. -/
theorem foldl_collision_eq {b : Built} (names : List String)
    (hb : b.collision = 0 ∨ b.collision = -1 ∨ b.collision = -2) :
    (names.foldl (buildName ridx) b).collision = 0 ∨
      (names.foldl (buildName ridx) b).collision = -2 ∨
      (names.foldl (buildName ridx) b).collision = -1 ∧
        (b.collision = -1 ∨ ∃ name ∈ names, ridx < (components name).length) := by
  induction names generalizing b with
  | nil => rcases hb with hb | hb | hb <;> simp [hb]
  | cons name names ih =>
    have hname : (buildName ridx b name).collision = b.collision ∨
        (buildName ridx b name).collision = -2 ∨
        (buildName ridx b name).collision = -1 ∧ ridx < (components name).length := by
      rw [← not_le, ← cidx_eq_none_iff]
      unfold buildName
      split_ifs <;> simp_all
    have hstart : (buildName ridx b name).collision = 0 ∨
        (buildName ridx b name).collision = -1 ∨ (buildName ridx b name).collision = -2 := by
      rcases hname with h | h | ⟨h, -⟩
      · rwa [h]
      · exact Or.inr (Or.inr h)
      · exact Or.inr (Or.inl h)
    rw [List.foldl_cons]
    rcases ih hstart with h | h | ⟨h, hleft | ⟨m, hm, hlt⟩⟩
    · exact Or.inl h
    · exact Or.inr (Or.inl h)
    · refine Or.inr (Or.inr ⟨h, ?_⟩)
      rcases hname with he | he | ⟨-, hlt⟩
      · exact Or.inl (he ▸ hleft)
      · exact absurd (he.symm.trans hleft) (by decide)
      · exact Or.inr ⟨name, List.mem_cons_self, hlt⟩
    · exact Or.inr (Or.inr ⟨h, Or.inr ⟨m, List.mem_cons_of_mem _ hm, hlt⟩⟩)

theorem pNames_foldl (b : Built) (names : List String) :
    (names.foldl (buildName ridx) b).pNames =
      (names.map fun name => (name, pName ridx name)).foldl (fun d p => d.set p.1 p.2)
        b.pNames := by
  induction names generalizing b with
  | nil => rfl
  | cons name names ih => exact ih (buildName ridx b name)

theorem buildNames_collision_eq_zero_iff {names : List String} {d : Dict ℕ} :
    (buildNames ridx names d).collision = 0 ↔
      (names.map (pName ridx)).Nodup ∧ ∀ name ∈ names, pName ridx name ∉ d.keys :=
  foldl_collision_eq_zero_iff.trans (and_iff_right rfl)

variable (ridx) in
theorem buildNames_collision_cases (names : List String) (d : Dict ℕ) :
    (buildNames ridx names d).collision = 0 ∨ (buildNames ridx names d).collision = -2 ∨
      (buildNames ridx names d).collision = -1 ∧
        ∃ name ∈ names, ridx < (components name).length := by
  have hstart : (⟨Dict.empty, d, 0⟩ : Built).collision = 0 := rfl
  rcases foldl_collision_eq ridx names (Or.inl hstart) with h | h | ⟨h, hneg | hlt⟩
  · exact Or.inl h
  · exact Or.inr (Or.inl h)
  · exact absurd hneg (by simp)
  · exact Or.inr (Or.inr ⟨h, hlt⟩)

theorem mem_keys_buildNames {names : List String} {d : Dict ℕ} {s : String} :
    s ∈ (buildNames ridx names d).curCollide.keys ↔
      s ∈ names.map (pName ridx) ∨ s ∈ d.keys :=
  mem_keys_foldl

theorem entries_buildNames {names : List String} (h : names.Nodup) (d : Dict ℕ) :
    (buildNames ridx names d).pNames.entries = names.map fun name => (name, pName ridx name) := by
  rw [buildNames, pNames_foldl, Dict.entries_foldl_set]
  · rfl
  · have hfst : (names.map fun name => (name, pName ridx name)).map Prod.fst = names := by
      rw [List.map_map]
      exact List.map_id _
    rw [hfst]
    exact h

end Round

section Places

/-- The dictionaries of taken names that there are. A variable holds the place of one. -/
abbrev Dicts := List (Dict ℕ)

/-- What the callers of `_build_names` see: the dictionary at the place has changed. -/
structure BuiltAt where
  dicts : Dicts
  pNames : Dict String
  collision : ℤ

variable (ridx curCollide : ℕ)

def buildNameAt (b : BuiltAt) (name : String) : BuiltAt :=
  let b' := buildName ridx ⟨b.pNames, b.dicts.getD curCollide Dict.empty, b.collision⟩ name
  ⟨b.dicts.set curCollide b'.curCollide, b'.pNames, b'.collision⟩

/-- `_build_names` on the dictionary at a place -/
def buildNamesAt (names : List String) (dicts : Dicts) : BuiltAt :=
  names.foldl (buildNameAt ridx curCollide) ⟨dicts, Dict.empty, 0⟩

theorem foldl_buildNameAt (dicts : Dicts) (b : Built) (names : List String) :
    names.foldl (buildNameAt ridx dicts.length)
        ⟨dicts ++ [b.curCollide], b.pNames, b.collision⟩ =
      ⟨dicts ++ [(names.foldl (buildName ridx) b).curCollide],
        (names.foldl (buildName ridx) b).pNames,
        (names.foldl (buildName ridx) b).collision⟩ := by
  induction names generalizing b with
  | nil => rfl
  | cons name names ih =>
    have hstep : buildNameAt ridx dicts.length ⟨dicts ++ [b.curCollide], b.pNames, b.collision⟩
        name = ⟨dicts ++ [(buildName ridx b name).curCollide], (buildName ridx b name).pNames,
          (buildName ridx b name).collision⟩ := by
      simp [buildNameAt]
    rw [List.foldl_cons, hstep, ih, List.foldl_cons]

theorem buildNamesAt_length (names : List String) (dicts : Dicts) (d : Dict ℕ) :
    buildNamesAt ridx dicts.length names (dicts ++ [d]) =
      ⟨dicts ++ [(buildNames ridx names d).curCollide], (buildNames ridx names d).pNames,
        (buildNames ridx names d).collision⟩ :=
  foldl_buildNameAt ridx dicts ⟨Dict.empty, d, 0⟩ names

end Places

/-- `max_depth_allowed` -/
def maxDepthAllowed : ℕ := 20

/-- No try takes more components than this. -/
def depthBound (names : List String) : ℕ :=
  names.foldr (fun name n => max (components name).length n) maxDepthAllowed

/-- The loop goes on after a try. -/
def Retries (names : List String) (d : Dict ℕ) (ridx : ℕ) : Prop :=
  (buildNames ridx names d).collision < 0 ∧
    ¬(maxDepthAllowed < ridx + 1 ∧ (buildNames ridx names d).collision = -2)

section Loop

theorem length_le_depthBound {names : List String} {name : String} (h : name ∈ names) :
    (components name).length ≤ depthBound names := by
  induction names with
  | nil => cases h
  | cons m names ih =>
    rcases List.mem_cons.mp h with rfl | h
    · exact le_max_left _ _
    · exact (ih h).trans (le_max_right _ _)

theorem maxDepthAllowed_le_depthBound (names : List String) :
    maxDepthAllowed ≤ depthBound names := by
  induction names with
  | nil => exact le_rfl
  | cons name names ih => exact ih.trans (le_max_right _ _)

/-- Past the allowed depth the loop goes on only for a name that has components left. -/
theorem Retries.lt_depthBound {names : List String} {d : Dict ℕ} {ridx : ℕ}
    (h : Retries names d ridx) : ridx < depthBound names := by
  obtain ⟨hneg, hstop⟩ := h
  rcases buildNames_collision_cases ridx names d with hc | hc | ⟨-, name, hname, hlt⟩
  · omega
  · have hdepth : ¬maxDepthAllowed < ridx + 1 := fun hlt => hstop ⟨hlt, hc⟩
    have hbound := maxDepthAllowed_le_depthBound names
    omega
  · exact hlt.trans_le (length_le_depthBound hname)

end Loop

/-- What `_make_param_names` returns, and the dictionaries after it. -/
structure Shortened where
  dicts : Dicts
  pNames : Dict String
  curCollide : ℕ
  ridx : ℕ

/-- `_make_param_names`. The copy of `collide` gets a new place. -/
def makeParamNames (names : List String) (dicts : Dicts) (collide ridx : ℕ) : Shortened :=
  let curCollide := dicts.length
  let b := buildNamesAt ridx curCollide names (dicts ++ [dicts.getD collide Dict.empty])
  if hneg : b.collision < 0 then
    if hstop : maxDepthAllowed < ridx + 1 ∧ b.collision = -2 then
      ⟨b.dicts, b.pNames, curCollide, ridx + 1⟩
    else makeParamNames names b.dicts collide (ridx + 1)
  else ⟨b.dicts, b.pNames, curCollide, ridx⟩
termination_by depthBound names - ridx
decreasing_by
  have hbuilt := buildNamesAt_length ridx names dicts (dicts.getD collide Dict.empty)
  have hretries : Retries names (dicts.getD collide Dict.empty) ridx := by
    refine ⟨?_, ?_⟩
    · simpa only [b, curCollide, hbuilt] using hneg
    · simpa only [b, curCollide, hbuilt] using hstop
  have hlt := hretries.lt_depthBound
  omega

instance (names : List String) (d : Dict ℕ) (ridx : ℕ) : Decidable (Retries names d ridx) :=
  inferInstanceAs (Decidable (_ ∧ ¬_))

section Runs

variable {names : List String} {dicts : Dicts} {collide ridx : ℕ} {d : Dict ℕ}

/-- The dictionaries that were there keep their places. -/
theorem getElem?_append_copies (hd : dicts[collide]? = some d) (copies rest : Dicts) :
    (dicts ++ copies ++ rest)[collide]? = some d := by
  rw [List.append_assoc, List.getElem?_append_left (List.getElem?_eq_some_iff.mp hd).1, hd]

/-- One try, in terms of the dictionary that `collide` stands for. -/
theorem makeParamNames_eq (hd : dicts[collide]? = some d) :
    makeParamNames names dicts collide ridx =
      if Retries names d ridx then
        makeParamNames names (dicts ++ [(buildNames ridx names d).curCollide]) collide (ridx + 1)
      else
        ⟨dicts ++ [(buildNames ridx names d).curCollide], (buildNames ridx names d).pNames,
          dicts.length, if (buildNames ridx names d).collision < 0 then ridx + 1 else ridx⟩ := by
  have hget : dicts.getD collide Dict.empty = d := by
    rw [List.getD_eq_getElem?_getD, hd, Option.getD_some]
  rw [makeParamNames, hget, buildNamesAt_length]
  by_cases hretries : Retries names d ridx
  · rw [if_pos hretries, dif_pos hretries.1, dif_neg hretries.2]
  · rw [if_neg hretries]
    split_ifs with hneg hstop
    · rfl
    · exact absurd ⟨hneg, hstop⟩ hretries
    · rfl

/-- The loop ends with the first try after which it does not go on. What it leaves behind
are copies, after the dictionaries that were there. -/
theorem makeParamNames_spec (names : List String) (dicts : Dicts) (ridx : ℕ)
    (hd : dicts[collide]? = some d) :
    ∃ r, ridx ≤ r ∧ (∀ i, ridx ≤ i → i < r → Retries names d i) ∧ ¬Retries names d r ∧
      ∃ copies, makeParamNames names dicts collide ridx =
        ⟨dicts ++ copies ++ [(buildNames r names d).curCollide], (buildNames r names d).pNames,
          (dicts ++ copies).length,
          if (buildNames r names d).collision < 0 then r + 1 else r⟩ := by
  rw [makeParamNames_eq hd]
  by_cases hretries : Retries names d ridx
  · rw [if_pos hretries]
    have hbound := hretries.lt_depthBound
    have hd' : (dicts ++ [(buildNames ridx names d).curCollide])[collide]? = some d := by
      rw [List.getElem?_append_left (List.getElem?_eq_some_iff.mp hd).1, hd]
    obtain ⟨r, hle, hbefore, hstop, copies, he⟩ := makeParamNames_spec names _ (ridx + 1) hd'
    refine ⟨r, by omega, ?_, hstop, (buildNames ridx names d).curCollide :: copies, ?_⟩
    · intro i hi hlt
      rcases Nat.eq_or_lt_of_le hi with rfl | hi
      · exact hretries
      · exact hbefore i hi hlt
    · rw [he]
      simp
  · rw [if_neg hretries]
    refine ⟨ridx, le_rfl, ?_, hretries, [], ?_⟩
    · intro i hi hlt
      omega
    · rw [List.append_nil]
termination_by depthBound names - ridx

end Runs

/-- The names can be told apart when they are taken whole, and so is no name taken. -/
structure Separable (names : List String) (d : Dict ℕ) : Prop where
  nodup : (names.map fullName).Nodup
  free : ∀ name ∈ names, fullName name ∉ d.keys
  depth : ∀ name ∈ names, (components name).length ≤ maxDepthAllowed

section Separable

variable {names : List String} {dicts : Dicts} {collide ridx : ℕ} {d : Dict ℕ}

theorem map_pName_eq (hdepth : ∀ name ∈ names, (components name).length ≤ maxDepthAllowed)
    (hridx : maxDepthAllowed ≤ ridx) : names.map (pName ridx) = names.map fullName := by
  apply List.map_congr_left
  intro name hname
  exact pName_eq_fullName ((hdepth name hname).trans hridx)

/-- At the allowed depth there are no collisions left. -/
theorem Separable.collision_eq_zero (h : Separable names d) (hridx : maxDepthAllowed ≤ ridx) :
    (buildNames ridx names d).collision = 0 := by
  rw [buildNames_collision_eq_zero_iff, map_pName_eq h.depth hridx]
  refine ⟨h.nodup, ?_⟩
  intro name hname
  rw [pName_eq_fullName ((h.depth name hname).trans hridx)]
  exact h.free name hname

/-- The loop is never left for its depth, so its last try has succeeded. -/
theorem Separable.collision_of_not_retries (h : Separable names d) (hr : ¬Retries names d ridx) :
    (buildNames ridx names d).collision = 0 := by
  by_contra hne
  have hneg : (buildNames ridx names d).collision < 0 := by
    rcases buildNames_collision_cases ridx names d with hc | hc | ⟨hc, -⟩ <;> omega
  refine hr ⟨hneg, ?_⟩
  rintro ⟨hdepth, -⟩
  exact hne (h.collision_eq_zero (Nat.lt_succ_iff.mp hdepth))

end Separable

/-- Shortening leaves the caller's dictionary alone and does not go back in depth. Names that
differ when they are taken whole get short names that differ, each being the last
components of its field. -/
theorem makeParamNames_distinct (names : List String) (hnames : names.Nodup) (dicts : Dicts)
    (collide : ℕ) (d : Dict ℕ) (hd : dicts[collide]? = some d) (ridx : ℕ) (hridx : 1 ≤ ridx) :
    (makeParamNames names dicts collide ridx).dicts[collide]? = some d ∧
      ridx ≤ (makeParamNames names dicts collide ridx).ridx ∧
      ((names.map fullName).Nodup → (∀ name ∈ names, fullName name ∉ d.keys) →
        (∀ name ∈ names, (components name).length ≤ 20) →
        (makeParamNames names dicts collide ridx).pNames.entries =
            names.map (fun name =>
              (name, shortOf (makeParamNames names dicts collide ridx).ridx name)) ∧
          ((makeParamNames names dicts collide ridx).pNames.entries.map Prod.snd).Nodup ∧
          ∀ short ∈ (makeParamNames names dicts collide ridx).pNames.entries.map Prod.snd,
            short ∉ d.keys) := by
  obtain ⟨r, hle, -, hstop, copies, he⟩ := makeParamNames_spec names dicts ridx hd
  rw [he]
  refine ⟨?_, ?_, ?_⟩
  · exact getElem?_append_copies hd copies _
  · simp only
    split_ifs <;> omega
  · intro hnodup hfree hdepth
    have hzero := Separable.collision_of_not_retries ⟨hnodup, hfree, hdepth⟩ hstop
    obtain ⟨hdiff, hnew⟩ := buildNames_collision_eq_zero_iff.mp hzero
    have hshort : names.map (pName r) = names.map (shortOf r) :=
      List.map_congr_left fun name _ => pName_eq_shortOf (hridx.trans hle) name
    have hsnd : ((buildNames r names d).pNames.entries.map Prod.snd) = names.map (pName r) := by
      rw [entries_buildNames hnames, List.map_map]
      rfl
    simp only [hzero, lt_irrefl, if_false, hsnd]
    refine ⟨?_, hdiff, ?_⟩
    · rw [entries_buildNames hnames]
      apply List.map_congr_left
      intro name _
      rw [pName_eq_shortOf (hridx.trans hle)]
    · intro short hmem
      obtain ⟨name, hname, rfl⟩ := List.mem_map.mp hmem
      exact hnew name hname

theorem makeParamNames_distinct_hdr :
    ((makeParamNames ["hdr.a", "meta.a"] [Dict.empty] 0 1).pNames.entries.map Prod.snd).Nodup :=
  ((makeParamNames_distinct ["hdr.a", "meta.a"] (by simp) [Dict.empty] 0 Dict.empty rfl 1
    le_rfl).2.2 (by decide +kernel) (by simp [Dict.keys, Dict.empty]) (by decide +kernel)).2.1

end Tdi.Cli.ParamNames

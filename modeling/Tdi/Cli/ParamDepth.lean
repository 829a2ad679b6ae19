import Tdi.Cli.ParamNames

/-!
# Names of keys and data together

`_make_core_method_strs` first shortens the names of the key fields and then those of the
data fields, with the former taken. When the data needs more components than the keys, both
are shortened again from there, until both have the same depth. After fifty tries the loop
is left with names that say what they belong to.

`settledDepth` describes the depth that is reached, from the names alone. Depths only grow,
and whole names differ, so the loop ends long before its fiftieth try.
-/
namespace Tdi.Cli.ParamDepth

open Foundation ParamNames

/-- Append to each name of a dictionary. -/
def addEnding (ending : String) (d : Dict String) : Dict String where
  entries := d.entries.map fun p => (p.1, p.2 ++ ending)
  nodup := by
    rw [List.map_map]
    exact d.nodup

/-- The place of the default of `collide`, which all calls share. -/
def defaultCollide : ℕ := 0

variable (keys data : List String)

/-- The loop over the depths, with `tries` so far. -/
def balance (k d : Shortened) (tries : ℕ) : Dict String × Dict String :=
  if k.ridx = d.ridx then (k.pNames, d.pNames)
  else
    let k' := makeParamNames keys d.dicts defaultCollide d.ridx
    let d' := makeParamNames data k'.dicts k'.curCollide k'.ridx
    if 50 ≤ tries + 1 then (addEnding "_key" k'.pNames, addEnding "_data" d'.pNames)
    else balance k' d' (tries + 1)
termination_by 50 - tries

/-- `key_pnames` and `data_pnames` after the loop -/
def pNames : Dict String × Dict String :=
  let k := makeParamNames keys [Dict.empty] defaultCollide 1
  let d := makeParamNames data k.dicts k.curCollide k.ridx
  balance keys data k d 0

section Depth

/-- The first depth at which the names of the keys differ. -/
def keysDepth (start : ℕ) : ℕ :=
  ((List.range' start (maxDepthAllowed - start)).find? fun r =>
    decide (keys.map (shortOf r)).Nodup).getD (max start maxDepthAllowed)

/-- At depth `r` the names of the data differ, also from those that the keys have at the
start. -/
def Fits (start r : ℕ) : Prop :=
  (data.map (shortOf r)).Nodup ∧ ∀ name ∈ data, shortOf r name ∉ keys.map (shortOf start)

instance (start r : ℕ) : Decidable (Fits keys data start r) :=
  inferInstanceAs (Decidable (_ ∧ _))

/-- The first depth at which the data fits, or one more than allowed when there is none. -/
def dataDepth (start : ℕ) : ℕ :=
  ((List.range' start (maxDepthAllowed + 1 - start)).find? fun r =>
    decide (Fits keys data start r)).getD (max start (maxDepthAllowed + 1))

/-- Each round takes the keys to the depth of the data, and twenty rounds are enough. -/
def settledDepth : ℕ :=
  (fun r => keysDepth keys (dataDepth keys data r))^[maxDepthAllowed] (keysDepth keys 1)

end Depth

section FirstDepth

variable {keys data}

theorem find?_range'_getD_of_none {P : ℕ → Prop} [DecidablePred P] {start stop : ℕ}
    (h : ∀ i, start ≤ i → i < stop → ¬P i) :
    ((List.range' start (stop - start)).find? fun i => decide (P i)).getD (max start stop) =
      max start stop := by
  have hfind : (List.range' start (stop - start)).find? (fun i => decide (P i)) = none := by
    rw [List.find?_range'_eq_none]
    intro i hi hlt
    simpa using h i hi (by omega)
  rw [hfind, Option.getD_none]

theorem find?_range'_getD {P : ℕ → Prop} [DecidablePred P] {start r stop : ℕ} (hle : start ≤ r)
    (hr : P r) (hbefore : ∀ i, start ≤ i → i < r → ¬P i) (hstop : r ≤ max start stop) :
    ((List.range' start (stop - start)).find? fun i => decide (P i)).getD (max start stop) = r := by
  by_cases hlt : r < stop
  · have hfind : (List.range' start (stop - start)).find? (fun i => decide (P i)) = some r := by
      rw [List.find?_range'_eq_some]
      refine ⟨by simpa using hr, ?_, ?_⟩
      · rw [List.mem_range'_1]
        omega
      · intro i hi hir
        simpa using hbefore i hi hir
    rw [hfind, Option.getD_some]
  · rw [find?_range'_getD_of_none fun i hi hir => hbefore i hi (by omega)]
    omega

theorem le_find?_range'_getD (p : ℕ → Bool) (start stop : ℕ) :
    start ≤ ((List.range' start (stop - start)).find? p).getD (max start stop) := by
  cases hfind : (List.range' start (stop - start)).find? p with
  | none => exact le_max_left _ _
  | some r => exact (List.mem_range'_1.mp (List.find?_range'_eq_some.mp hfind).2.1).1

theorem le_keysDepth (keys : List String) (start : ℕ) : start ≤ keysDepth keys start :=
  le_find?_range'_getD _ _ _

theorem le_dataDepth (keys data : List String) (start : ℕ) :
    start ≤ dataDepth keys data start :=
  le_find?_range'_getD _ _ _

theorem one_le_settledDepth (keys data : List String) : 1 ≤ settledDepth keys data := by
  have hround : ∀ n r, 1 ≤ r →
      1 ≤ (fun r => keysDepth keys (dataDepth keys data r))^[n] r := by
    intro n
    induction n with
    | zero => exact fun r hr => hr
    | succ n ih =>
      intro r hr
      rw [Function.iterate_succ_apply]
      exact ih _ (hr.trans ((le_dataDepth keys data r).trans (le_keysDepth keys _)))
  exact hround _ _ (le_keysDepth keys 1)

theorem not_retries_of_depth {names : List String} {d : Dict ℕ} {r : ℕ}
    (hdepth : ∀ name ∈ names, (components name).length ≤ maxDepthAllowed)
    (hr : maxDepthAllowed ≤ r) : ¬Retries names d r := by
  intro hretries
  obtain ⟨hneg, hstop⟩ := hretries
  rcases buildNames_collision_cases r names d with hc | hc | ⟨-, name, hname, hlt⟩
  · omega
  · exact hstop ⟨Nat.lt_succ_of_le hr, hc⟩
  · have hname := hdepth name hname
    omega

/-- The loop ends with the first try that has no collision, or at the allowed depth. -/
theorem makeParamNames_first {names : List String} {dicts : Dicts} {collide : ℕ} {d : Dict ℕ}
    (hdepth : ∀ name ∈ names, (components name).length ≤ maxDepthAllowed)
    (hd : dicts[collide]? = some d) (ridx : ℕ) :
    ∃ r copies, ridx ≤ r ∧ r ≤ max ridx maxDepthAllowed ∧
      (∀ i, ridx ≤ i → i < r → (buildNames i names d).collision ≠ 0) ∧
      ((buildNames r names d).collision ≠ 0 → r = max ridx maxDepthAllowed) ∧
      makeParamNames names dicts collide ridx =
        ⟨dicts ++ copies ++ [(buildNames r names d).curCollide], (buildNames r names d).pNames,
          (dicts ++ copies).length,
          if (buildNames r names d).collision = 0 then r else r + 1⟩ := by
  obtain ⟨r, hle, hbefore, hstop, copies, he⟩ := makeParamNames_spec names dicts ridx hd
  have hmax : r ≤ max ridx maxDepthAllowed := by
    by_contra hlt
    exact not_retries_of_depth hdepth (by omega) (hbefore (r - 1) (by omega) (by omega))
  have hcases := buildNames_collision_cases r names d
  have hneg : (buildNames r names d).collision < 0 ↔ (buildNames r names d).collision ≠ 0 := by
    rcases hcases with hc | hc | ⟨hc, -⟩ <;> omega
  refine ⟨r, copies, hle, hmax, ?_, ?_, ?_⟩
  · intro i hi hlt
    exact (hbefore i hi hlt).1.ne
  · intro hne
    have hdeep : maxDepthAllowed ≤ r := by
      by_contra hlt
      exact hstop ⟨hneg.mpr hne, fun hboth => hlt (Nat.lt_succ_iff.mp hboth.1)⟩
    omega
  · rw [he]
    simp only [hneg, ite_not]

end FirstDepth

section Rounds

variable {keys data : List String}

/-- The names of the keys at a depth, and the dictionary that has them taken. -/
structure KeysAt (keys : List String) (k : Shortened) (r : ℕ) : Prop where
  ridx : k.ridx = r
  pNames : k.pNames.entries = keys.map fun name => (name, shortOf r name)
  nodup : (keys.map (shortOf r)).Nodup
  shared : k.dicts[defaultCollide]? = some Dict.empty
  taken : ∃ d, k.dicts[k.curCollide]? = some d ∧ ∀ s, s ∈ d.keys ↔ s ∈ keys.map (shortOf r)

/-- The names of the data, when it keeps the depth of the keys. -/
structure DataAt (keys data : List String) (d : Shortened) (r : ℕ) : Prop where
  ridx : d.ridx = dataDepth keys data r
  shared : d.dicts[defaultCollide]? = some Dict.empty
  pNames : d.ridx = r → d.pNames.entries = data.map fun name => (name, shortOf r name)
  nodup : d.ridx = r → ((keys ++ data).map (shortOf r)).Nodup
  deep : maxDepthAllowed ≤ r → d.ridx = r

theorem map_pName_eq_map_shortOf {r : ℕ} (hr : 1 ≤ r) (names : List String) :
    names.map (ParamNames.pName r) = names.map (shortOf r) :=
  List.map_congr_left fun name _ => pName_eq_shortOf hr name

theorem buildNames_collision_eq_zero_iff_shortOf {names : List String} {d : Dict ℕ} {r : ℕ}
    (hr : 1 ≤ r) :
    (buildNames r names d).collision = 0 ↔
      (names.map (shortOf r)).Nodup ∧ ∀ name ∈ names, shortOf r name ∉ d.keys := by
  rw [buildNames_collision_eq_zero_iff, map_pName_eq_map_shortOf hr]
  simp only [pName_eq_shortOf hr]

theorem entries_buildNames_shortOf {names : List String} (h : names.Nodup) {r : ℕ} (hr : 1 ≤ r)
    (d : Dict ℕ) :
    (buildNames r names d).pNames.entries = names.map fun name => (name, shortOf r name) := by
  rw [entries_buildNames h]
  simp only [pName_eq_shortOf hr]

theorem keysAt_makeParamNames (hkeys : Separable keys Dict.empty) {dicts : Dicts}
    (hshared : dicts[defaultCollide]? = some Dict.empty) {start : ℕ} (hstart : 1 ≤ start) :
    KeysAt keys (makeParamNames keys dicts defaultCollide start) (keysDepth keys start) := by
  obtain ⟨r, copies, hle, hmax, hbefore, hlast, he⟩ :=
    makeParamNames_first hkeys.depth hshared start
  have hzero : (buildNames r keys Dict.empty).collision = 0 := by
    by_contra hne
    have hdeep := hlast hne
    exact hne (hkeys.collision_eq_zero (by omega))
  have hiff : ∀ i, start ≤ i →
      ((buildNames i keys Dict.empty).collision = 0 ↔ (keys.map (shortOf i)).Nodup) := by
    intro i hi
    rw [buildNames_collision_eq_zero_iff_shortOf (hstart.trans hi)]
    simp [Dict.keys, Dict.empty]
  have hr : keysDepth keys start = r := by
    refine find?_range'_getD hle ((hiff r hle).mp hzero) ?_ hmax
    intro i hi hlt
    exact mt (hiff i hi).mpr (hbefore i hi hlt)
  rw [hr, he, if_pos hzero]
  refine ⟨rfl, ?_, (hiff r hle).mp hzero, ?_, (buildNames r keys Dict.empty).curCollide, ?_, ?_⟩
  · exact entries_buildNames_shortOf (List.Nodup.of_map _ hkeys.nodup) (hstart.trans hle) _
  · exact getElem?_append_copies hshared copies _
  · simp
  · intro s
    rw [mem_keys_buildNames, map_pName_eq_map_shortOf (hstart.trans hle)]
    simp [Dict.keys, Dict.empty]

theorem separable_left (h : Separable (keys ++ data) Dict.empty) : Separable keys Dict.empty where
  nodup := (List.nodup_append.mp (List.map_append ▸ h.nodup)).1
  free := fun name hname => h.free name (List.mem_append_left _ hname)
  depth := fun name hname => h.depth name (List.mem_append_left _ hname)

/-- Whole names differ, so at the allowed depth the data can keep the depth of the keys. -/
theorem fits_of_depth {r : ℕ} (h : Separable (keys ++ data) Dict.empty) (hr : 1 ≤ r)
    (hdeep : maxDepthAllowed ≤ r) : Fits keys data r r := by
  have hall := h.nodup
  rw [← map_pName_eq h.depth hdeep, map_pName_eq_map_shortOf hr, List.map_append,
    List.nodup_append] at hall
  constructor
  · exact hall.2.1
  · intro name hname hmem
    exact hall.2.2 _ hmem _ (List.mem_map_of_mem hname) rfl

theorem Fits.nodup {r : ℕ} (h : Fits keys data r r) (hkeys : (keys.map (shortOf r)).Nodup) :
    ((keys ++ data).map (shortOf r)).Nodup := by
  rw [List.map_append, List.nodup_append]
  refine ⟨hkeys, h.1, ?_⟩
  rintro s hs _ hs' rfl
  obtain ⟨name, hname, rfl⟩ := List.mem_map.mp hs'
  exact h.2 name hname hs

theorem collision_eq_zero_iff_fits {d : Dict ℕ} {start r : ℕ}
    (htaken : ∀ s, s ∈ d.keys ↔ s ∈ keys.map (shortOf start)) (hr : 1 ≤ r) :
    (buildNames r data d).collision = 0 ↔ Fits keys data start r := by
  rw [buildNames_collision_eq_zero_iff_shortOf hr]
  simp only [htaken, Fits]

/-- A run that ends at the allowed depth with a collision has passed every depth. -/
theorem dataDepth_of_not_fits {start : ℕ} (hstart : start ≤ maxDepthAllowed)
    (h : ∀ i, start ≤ i → i ≤ maxDepthAllowed → ¬Fits keys data start i) :
    dataDepth keys data start = maxDepthAllowed + 1 := by
  rw [dataDepth, find?_range'_getD_of_none fun i hi hlt => h i hi (Nat.lt_succ_iff.mp hlt)]
  omega

theorem dataAt_makeParamNames (h : Separable (keys ++ data) Dict.empty) {k : Shortened} {r : ℕ}
    (hk : KeysAt keys k r) (hr : 1 ≤ r) :
    DataAt keys data (makeParamNames data k.dicts k.curCollide k.ridx) r := by
  obtain ⟨d, hd, htaken⟩ := hk.taken
  have hdepth : ∀ name ∈ data, (components name).length ≤ maxDepthAllowed :=
    fun name hname => h.depth name (List.mem_append_right _ hname)
  have hdata : data.Nodup := (List.nodup_append.mp (List.Nodup.of_map _ h.nodup)).2.1
  have hiff : ∀ i, r ≤ i → ((buildNames i data d).collision = 0 ↔ Fits keys data r i) :=
    fun i hi => collision_eq_zero_iff_fits htaken (hr.trans hi)
  obtain ⟨r', copies, hle, hmax, hbefore, hlast, he⟩ := makeParamNames_first hdepth hd r
  have hunfit : ∀ i, r ≤ i → i < r' → ¬Fits keys data r i :=
    fun i hi hlt => mt (hiff i hi).mpr (hbefore i hi hlt)
  have hshared := getElem?_append_copies hk.shared copies
  rw [hk.ridx, he]
  by_cases hfits : Fits keys data r r'
  · have hr' : dataDepth keys data r = r' := find?_range'_getD hle hfits hunfit (by omega)
    rw [if_pos ((hiff r' hle).mpr hfits)]
    refine ⟨hr'.symm, hshared _, ?_, ?_, ?_⟩
    · rintro rfl
      exact entries_buildNames_shortOf hdata hr d
    · rintro rfl
      exact hfits.nodup hk.nodup
    · intro hdeep
      by_contra hne
      exact hunfit r le_rfl (lt_of_le_of_ne hle (Ne.symm hne)) (fits_of_depth h hr hdeep)
  · have hlate := hlast (mt (hiff r' hle).mp hfits)
    have hshallow : r < maxDepthAllowed := by
      by_contra hdeep
      have hsame : r' = r := by omega
      rw [hsame] at hfits
      exact hfits (fits_of_depth h hr (by omega))
    have hnone : dataDepth keys data r = maxDepthAllowed + 1 := by
      apply dataDepth_of_not_fits hshallow.le
      intro i hi hlt
      rcases Nat.lt_or_ge i r' with hir | hir
      · exact hunfit i hi hir
      · have hsame : i = r' := by omega
        rwa [hsame]
    have hridx : r' + 1 = maxDepthAllowed + 1 := by omega
    rw [if_neg (mt (hiff r' hle).mp hfits), hridx]
    have hne : maxDepthAllowed + 1 ≠ r := by omega
    exact ⟨hnone.symm, hshared _, fun hsame => absurd hsame hne, fun hsame => absurd hsame hne,
      fun hdeep => absurd hdeep (by omega)⟩

/-- All names at one depth, at which they differ. -/
structure NamesAt (keys data : List String) (p : Dict String × Dict String) (r : ℕ) : Prop where
  keyNames : p.1.entries = keys.map fun name => (name, shortOf r name)
  dataNames : p.2.entries = data.map fun name => (name, shortOf r name)
  nodup : ((keys ++ data).map (shortOf r)).Nodup

theorem balance_of_ridx_eq {k d : Shortened} (h : k.ridx = d.ridx) (tries : ℕ) :
    balance keys data k d tries = (k.pNames, d.pNames) := by
  rw [balance, if_pos h]

theorem balance_of_ridx_ne {k d : Shortened} (h : k.ridx ≠ d.ridx) {tries : ℕ}
    (htries : tries + 1 < 50) :
    balance keys data k d tries =
      balance keys data (makeParamNames keys d.dicts defaultCollide d.ridx)
        (makeParamNames data (makeParamNames keys d.dicts defaultCollide d.ridx).dicts
          (makeParamNames keys d.dicts defaultCollide d.ridx).curCollide
          (makeParamNames keys d.dicts defaultCollide d.ridx).ridx) (tries + 1) := by
  rw [balance, if_neg h, if_neg (by omega)]

/-- A round goes deeper, and below the allowed depth nothing has to be balanced. -/
theorem balance_settles (h : Separable (keys ++ data) Dict.empty) (n : ℕ) {k d : Shortened}
    {r tries : ℕ} (hk : KeysAt keys k r) (hd : DataAt keys data d r) (htries : tries + 1 ≤ r)
    (hn : maxDepthAllowed ≤ r + n) :
    NamesAt keys data (balance keys data k d tries)
      ((fun r => keysDepth keys (dataDepth keys data r))^[n] r) := by
  induction n generalizing k d r tries with
  | zero =>
    have hsame : d.ridx = r := hd.deep hn
    rw [balance_of_ridx_eq (hk.ridx.trans hsame.symm)]
    exact ⟨hk.pNames, hd.pNames hsame, hd.nodup hsame⟩
  | succ n ih =>
    have hdepth := hd.ridx
    by_cases hsame : d.ridx = r
    · have hfixed : keysDepth keys (dataDepth keys data r) = r := by
        rw [← hdepth, hsame]
        exact find?_range'_getD le_rfl hk.nodup (by omega) (le_max_left _ _)
      rw [balance_of_ridx_eq (hk.ridx.trans hsame.symm), Function.iterate_fixed hfixed]
      exact ⟨hk.pNames, hd.pNames hsame, hd.nodup hsame⟩
    · have hshallow : r < maxDepthAllowed := lt_of_not_ge fun hdeep => hsame (hd.deep hdeep)
      have hle := le_dataDepth keys data r
      have hle' := le_keysDepth keys (dataDepth keys data r)
      have hstart : 1 ≤ d.ridx := by omega
      have hk' := keysAt_makeParamNames (separable_left h) hd.shared hstart
      rw [hdepth] at hk'
      have hd' := dataAt_makeParamNames h hk' (by omega)
      have hlimit : tries + 1 < 50 := by
        rw [maxDepthAllowed] at hshallow
        omega
      rw [balance_of_ridx_ne (by rw [hk.ridx]; exact Ne.symm hsame) hlimit, hdepth,
        Function.iterate_succ_apply]
      exact ih hk' hd' (by omega) (by omega)

/-- The names end up at the settled depth. -/
theorem namesAt_pNames (h : Separable (keys ++ data) Dict.empty) :
    NamesAt keys data (pNames keys data) (settledDepth keys data) := by
  have hshared : ([Dict.empty] : Dicts)[defaultCollide]? = some Dict.empty := rfl
  have hk := keysAt_makeParamNames (separable_left h) hshared le_rfl
  have hle := le_keysDepth keys 1
  exact balance_settles h maxDepthAllowed hk (dataAt_makeParamNames h hk hle) hle (by omega)

end Rounds

end Tdi.Cli.ParamDepth

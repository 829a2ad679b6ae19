import Tdi.Cli.Entry

/-!
# The columns of a dump

A data field has an importance level, 1 unless an annotation gives another one, and
`dump` leaves out the fields whose level is below a threshold. They are deleted twice,
from the fields and from what was read of an entry. What was read has the active
fields only, so that a field that is not active cannot be deleted there, although
`print_table` is ready to print a column that an entry has nothing for.
-/
namespace Tdi.Cli

open Foundation

/-- What `int` raises for a text, and `del` for a key that is not there. -/
inductive PruneError where
  | valueError (text : String)
  | keyError (name : String)
  deriving DecidableEq

section Levels

/-- The inner loop of `prune_unwanted_data_fields`. -/
def impLevel : List (String × String) → Except PruneError ℤ
  | [] => .ok 1
  | item :: annotations =>
    if item.1 = "$bfrt_field_imp_level" then
      (intOfString item.2).elim (.error (.valueError item.2)) .ok
    else impLevel annotations

/-- One round of the first loop. -/
def addToPrune (thresh : ℤ) (toPrune : List String) (p : String × Field) :
    Except PruneError (List String) := do
  let level ← impLevel p.2.annotations
  .ok (if level < thresh then toPrune ++ [p.1] else toPrune)

/-- `data_fields_to_prune` -/
def dataFieldsToPrune (thresh : ℤ) (dataFields : List (String × Field)) :
    Except PruneError (List String) :=
  dataFields.foldlM (addToPrune thresh) []

/-- The level of a field, where its annotation is the text of an integer. -/
def Field.importance (f : Field) : Option ℤ :=
  match f.annotations.find? (·.1 = "$bfrt_field_imp_level") with
  | none => some 1
  | some item => intOfString item.2

/-- A field that is displayed. -/
def Field.shown (thresh : ℤ) (f : Field) : Bool := f.importance.any (thresh ≤ ·)

theorem impLevel_eq_ok_iff {f : Field} {level : ℤ} :
    impLevel f.annotations = .ok level ↔ f.importance = some level := by
  unfold Field.importance
  induction f.annotations with
  | nil => simp [impLevel]
  | cons item annotations ih =>
    by_cases hitem : item.1 = "$bfrt_field_imp_level"
    · cases hint : intOfString item.2 <;> simp [impLevel, hitem, hint]
    · simpa [impLevel, hitem] using ih

theorem shown_of_importance {f : Field} {level : ℤ} (h : f.importance = some level) (thresh : ℤ) :
    f.shown thresh = !decide (level < thresh) := by
  rw [Field.shown, h, Option.any_some, ← decide_not, decide_eq_decide, not_lt]

theorem foldlM_addToPrune_eq_ok_iff {thresh : ℤ} {dataFields : List (String × Field)}
    {acc names : List String} :
    dataFields.foldlM (addToPrune thresh) acc = .ok names ↔
      (∀ p ∈ dataFields, ∃ level, p.2.importance = some level) ∧
        names = acc ++ (dataFields.filter fun p => !p.2.shown thresh).map Prod.fst := by
  induction dataFields generalizing acc with
  | nil => simp [pure, Except.pure, eq_comm]
  | cons p dataFields ih =>
    have hround : ∀ level, p.2.importance = some level →
        (if level < thresh then acc ++ [p.1] else acc) ++
            (dataFields.filter fun p => !p.2.shown thresh).map Prod.fst =
          acc ++ ((p :: dataFields).filter fun p => !p.2.shown thresh).map Prod.fst := by
      intro level hlevel
      rw [List.filter_cons, shown_of_importance hlevel]
      by_cases hlt : level < thresh <;> simp [hlt]
    simp only [foldlM_cons_eq_ok_iff, addToPrune, bind_eq_ok_iff, impLevel_eq_ok_iff,
      List.forall_mem_cons]
    constructor
    · rintro ⟨_, ⟨level, hlevel, ⟨⟩⟩, hrest⟩
      obtain ⟨hread, hnames⟩ := ih.mp hrest
      rw [hround level hlevel] at hnames
      exact ⟨⟨⟨level, hlevel⟩, hread⟩, hnames⟩
    · rintro ⟨⟨⟨level, hlevel⟩, hread⟩, hnames⟩
      rw [← hround level hlevel] at hnames
      exact ⟨_, ⟨level, hlevel, rfl⟩, ih.mpr ⟨hread, hnames⟩⟩

theorem impLevel_error {annotations : List (String × String)} {e : PruneError}
    (h : impLevel annotations = .error e) :
    ∃ text, e = .valueError text ∧ ("$bfrt_field_imp_level", text) ∈ annotations ∧
      intOfString text = none := by
  induction annotations with
  | nil => cases h
  | cons item annotations ih =>
    obtain ⟨key, text⟩ := item
    by_cases hkey : key = "$bfrt_field_imp_level"
    · subst hkey
      rw [impLevel, if_pos rfl] at h
      cases hint : intOfString text with
      | none =>
        rw [hint] at h
        cases h
        exact ⟨text, rfl, by simp, hint⟩
      | some level =>
        rw [hint] at h
        cases h
    · rw [impLevel, if_neg hkey] at h
      obtain ⟨text', he, hmem, hint⟩ := ih h
      exact ⟨text', he, by simp [hmem], hint⟩

theorem dataFieldsToPrune_error {thresh : ℤ} {dataFields : List (String × Field)} {e : PruneError}
    (h : dataFieldsToPrune thresh dataFields = .error e) :
    ∃ p ∈ dataFields, impLevel p.2.annotations = .error e := by
  obtain ⟨p, hp, _, hround⟩ := exists_of_foldlM_eq_error h
  rcases bind_eq_error_iff.mp hround with hlevel | ⟨_, -, ⟨⟩⟩
  exact ⟨p, hp, hlevel⟩

end Levels

section Prune

variable {α : Type}

/-- One round of the second loop. -/
def deleteField (s : Dict Field × Dict α) (name : String) :
    Except PruneError (Dict Field × Dict α) := do
  let dataFields ← s.1.delete .keyError name
  let dataContent ← s.2.delete .keyError name
  .ok (dataFields, dataContent)

/-- `prune_unwanted_data_fields`, which returns what it leaves of the two dictionaries. -/
def pruneUnwantedDataFields (thresh : ℤ) (dataFields : Dict Field) (dataContent : Dict α) :
    Except PruneError (Dict Field × Dict α) := do
  let toPrune ← dataFieldsToPrune thresh dataFields.entries
  toPrune.foldlM deleteField (dataFields, dataContent)

/-- Pruning returns, with the fields that are displayed and what there was for them. -/
def Prunes (thresh : ℤ) (dataFields : Dict Field) (dataContent : Dict α) : Prop :=
  let displayed := dataFields.filter (·.2.shown thresh)
  pruneUnwantedDataFields thresh dataFields dataContent =
    .ok (displayed, dataContent.filter (·.1 ∈ displayed.keys))

/-- Each level can be read, and there is something to delete for what is below the threshold. -/
def Prunable (thresh : ℤ) (dataFields : Dict Field) (present : String → Prop) : Prop :=
  ∀ p ∈ dataFields.entries, ∃ level, p.2.importance = some level ∧ (level < thresh → present p.1)

/-- The names of the fields that are deleted. -/
def hidden (thresh : ℤ) (dataFields : Dict Field) : List String :=
  (dataFields.filter fun p => !p.2.shown thresh).keys

variable {thresh : ℤ} {dataFields : Dict Field} {dataContent : Dict α}

theorem mem_hidden_iff {name : String} :
    name ∈ hidden thresh dataFields ↔
      ∃ f, (name, f) ∈ dataFields.entries ∧ f.shown thresh = false := by
  simp [hidden, Dict.mem_keys_filter_iff]

theorem mem_keys_of_mem_hidden {name : String} (h : name ∈ hidden thresh dataFields) :
    name ∈ dataFields.keys := by
  obtain ⟨f, hf, -⟩ := mem_hidden_iff.mp h
  exact List.mem_map_of_mem hf

theorem dataFieldsToPrune_eq_ok_iff {names : List String} :
    dataFieldsToPrune thresh dataFields.entries = .ok names ↔
      (∀ p ∈ dataFields.entries, ∃ level, p.2.importance = some level) ∧
        names = hidden thresh dataFields := by
  rw [dataFieldsToPrune, foldlM_addToPrune_eq_ok_iff, List.nil_append]
  rfl

theorem prunable_iff {present : String → Prop} :
    Prunable thresh dataFields present ↔
      (∀ p ∈ dataFields.entries, ∃ level, p.2.importance = some level) ∧
        ∀ name ∈ hidden thresh dataFields, present name := by
  constructor
  · intro h
    constructor
    · intro p hp
      obtain ⟨level, hlevel, -⟩ := h p hp
      exact ⟨level, hlevel⟩
    · intro name hname
      obtain ⟨f, hf, hhidden⟩ := mem_hidden_iff.mp hname
      obtain ⟨level, hlevel, hpresent⟩ := h (name, f) hf
      apply hpresent
      simpa [shown_of_importance hlevel] using hhidden
  · rintro ⟨hread, hpresent⟩ ⟨name, f⟩ hf
    obtain ⟨level, hlevel⟩ := hread (name, f) hf
    refine ⟨level, hlevel, fun hlt => hpresent name (mem_hidden_iff.mpr ⟨f, hf, ?_⟩)⟩
    simpa [shown_of_importance hlevel] using hlt

theorem prunable_congr {present present' : String → Prop}
    (h : ∀ p ∈ dataFields.entries, (present p.1 ↔ present' p.1)) :
    Prunable thresh dataFields present ↔ Prunable thresh dataFields present' := by
  apply forall₂_congr
  intro p hp
  rw [h p hp]

theorem filter_hidden :
    dataFields.filter (·.1 ∉ hidden thresh dataFields) = dataFields.filter (·.2.shown thresh) := by
  have hfilter := dataFields.filter_not_mem_keys fun p => !p.2.shown thresh
  simp only [Bool.not_not] at hfilter
  exact hfilter

/-- A field that is in the first dictionary only stops the second loop. -/
theorem foldlM_deleteField_eq_ok_iff {s : Dict Field × Dict α} :
    (hidden thresh dataFields).foldlM deleteField (dataFields, dataContent) = .ok s ↔
      (∀ name ∈ hidden thresh dataFields, name ∈ dataContent.keys) ∧
        (dataFields.filter (·.2.shown thresh),
          dataContent.filter (·.1 ∉ hidden thresh dataFields)) = s := by
  have hnodup : (hidden thresh dataFields).Nodup := Dict.nodup _
  unfold deleteField
  rw [foldlM_prod_eq_ok_iff, Dict.foldlM_delete_eq_ok_iff hnodup,
    Dict.foldlM_delete_eq_ok_iff hnodup, filter_hidden, Prod.ext_iff]
  constructor
  · rintro ⟨⟨-, hfields⟩, hpresent, hcontent⟩
    exact ⟨hpresent, hfields, hcontent⟩
  · rintro ⟨hpresent, hfields, hcontent⟩
    exact ⟨⟨fun _ => mem_keys_of_mem_hidden, hfields⟩, hpresent, hcontent⟩

theorem pruneUnwantedDataFields_eq_ok_iff {s : Dict Field × Dict α} :
    pruneUnwantedDataFields thresh dataFields dataContent = .ok s ↔
      Prunable thresh dataFields (· ∈ dataContent.keys) ∧
        (dataFields.filter (·.2.shown thresh),
          dataContent.filter (·.1 ∉ hidden thresh dataFields)) = s := by
  rw [pruneUnwantedDataFields, bind_eq_ok_iff, prunable_iff, and_assoc,
    ← foldlM_deleteField_eq_ok_iff]
  constructor
  · rintro ⟨names, hnames, hdelete⟩
    obtain ⟨hread, rfl⟩ := dataFieldsToPrune_eq_ok_iff.mp hnames
    exact ⟨hread, hdelete⟩
  · rintro ⟨hread, hdelete⟩
    exact ⟨_, dataFieldsToPrune_eq_ok_iff.mpr ⟨hread, rfl⟩, hdelete⟩

/-- Where all that was read belongs to a field, what stays belongs to a field that stays. -/
theorem filter_content (hsub : ∀ name ∈ dataContent.keys, name ∈ dataFields.keys) :
    dataContent.filter (·.1 ∉ hidden thresh dataFields) =
      dataContent.filter (·.1 ∈ (dataFields.filter (·.2.shown thresh)).keys) := by
  apply Dict.ext
  apply List.filter_congr
  intro p hp
  obtain ⟨f, hf⟩ := Dict.mem_keys_iff.mp (hsub p.1 (List.mem_map_of_mem hp))
  rw [Dict.get?_eq_some_iff] at hf
  rw [← filter_hidden, decide_eq_decide, Dict.mem_keys_filter_iff]
  constructor
  · intro hnot
    exact ⟨f, hf, by simpa using hnot⟩
  · rintro ⟨_, -, hnot⟩
    simpa using hnot

/-- The key of an error in the second loop is missing in one of the dictionaries. -/
theorem foldlM_deleteField_error {names : List String} (hnames : names.Nodup)
    {s : Dict Field × Dict α} {e : PruneError} (h : names.foldlM deleteField s = .error e) :
    ∃ name ∈ names, e = .keyError name ∧ (name ∉ s.1.keys ∨ name ∉ s.2.keys) := by
  induction names generalizing s with
  | nil => cases h
  | cons name names ih =>
    rw [List.nodup_cons] at hnames
    rw [List.foldlM_cons] at h
    rcases bind_eq_error_iff.mp h with hround | ⟨s', hround, hrest⟩
    · rcases bind_eq_error_iff.mp hround with hfields | ⟨_, -, hround⟩
      · obtain ⟨hmissing, rfl⟩ := Dict.delete_eq_error_iff.mp hfields
        exact ⟨name, by simp, rfl, .inl hmissing⟩
      · rcases bind_eq_error_iff.mp hround with hcontent | ⟨_, -, ⟨⟩⟩
        obtain ⟨hmissing, rfl⟩ := Dict.delete_eq_error_iff.mp hcontent
        exact ⟨name, by simp, rfl, .inr hmissing⟩
    · obtain ⟨_, hfields, hround⟩ := bind_eq_ok_iff.mp hround
      obtain ⟨_, hcontent, ⟨⟩⟩ := bind_eq_ok_iff.mp hround
      obtain ⟨-, rfl⟩ := Dict.delete_eq_ok_iff.mp hfields
      obtain ⟨-, rfl⟩ := Dict.delete_eq_ok_iff.mp hcontent
      obtain ⟨name', hname', he, hmissing⟩ := ih hnames.2 hrest
      have hne : name' ≠ name := ne_of_mem_of_not_mem hname' hnames.1
      simp only [Dict.mem_keys_erase, hne, ne_eq, not_false_eq_true, and_true] at hmissing
      exact ⟨name', by simp [hname'], he, hmissing⟩

/-- An error names an annotation that is not an integer, or a field that is to be deleted
where there is nothing to delete. -/
theorem pruneUnwantedDataFields_error {e : PruneError}
    (h : pruneUnwantedDataFields thresh dataFields dataContent = .error e) :
    (∃ text, e = .valueError text ∧ intOfString text = none ∧
        ∃ p ∈ dataFields.entries, ("$bfrt_field_imp_level", text) ∈ p.2.annotations) ∨
      ∃ name ∈ hidden thresh dataFields, e = .keyError name ∧ name ∉ dataContent.keys := by
  rcases bind_eq_error_iff.mp h with hprune | ⟨names, hnames, hdelete⟩
  · left
    obtain ⟨p, hp, hlevel⟩ := dataFieldsToPrune_error hprune
    obtain ⟨text, he, hmem, hint⟩ := impLevel_error hlevel
    exact ⟨text, he, hint, p, hp, hmem⟩
  · right
    obtain ⟨-, rfl⟩ := dataFieldsToPrune_eq_ok_iff.mp hnames
    obtain ⟨name, hname, he, hmissing⟩ := foldlM_deleteField_error (Dict.nodup _) hdelete
    refine ⟨name, hname, he, hmissing.resolve_left ?_⟩
    exact not_not.mpr (mem_keys_of_mem_hidden hname)

/-- Pruning returns what is displayed exactly when each level can be read and the entry
has something for each field below the threshold. -/
theorem prunes_iff_prunable (hsub : ∀ name ∈ dataContent.keys, name ∈ dataFields.keys) :
    Prunes thresh dataFields dataContent ↔
      Prunable thresh dataFields (· ∈ dataContent.keys) := by
  rw [Prunes, pruneUnwantedDataFields_eq_ok_iff, filter_content hsub]
  exact and_iff_left rfl

/-- Two columns of `$PORT`. -/
def portColumns : Dict Field where
  entries :=
    [("$SPEED", ⟨"$SPEED", 0, false, false, .data, .notImplemented, .string,
        [("$bfrt_field_imp_level", "2")], "PORT_CFG", []⟩),
     ("$N_LANES", ⟨"$N_LANES", 32, false, false, .data, .notImplemented, .uint64, [],
        "PORT_CFG", []⟩)]
  nodup := by decide

/-- An entry in which both are active. -/
def portContent : Dict Value where
  entries := [("$SPEED", .str "BF_SPEED_25G"), ("$N_LANES", .int 1)]
  nodup := by decide

theorem prunes_portContent : Prunes 2 portColumns portContent := by
  have hsub : ∀ name ∈ portContent.keys, name ∈ portColumns.keys := by decide
  rw [prunes_iff_prunable hsub]
  have hspeed : intOfString "2" = some 2 := by decide
  simp [Prunable, portColumns, portContent, Field.importance, Dict.keys, hspeed]

/-- The number of lanes is not displayed, and cannot be deleted where it is not active. -/
theorem not_prunes_inactive_lanes :
    (∀ name ∈ (portContent.filter (·.1 = "$SPEED")).keys, name ∈ portColumns.keys) ∧
      ¬ Prunes 2 portColumns (portContent.filter (·.1 = "$SPEED")) := by
  have hsub : ∀ name ∈ (portContent.filter (·.1 = "$SPEED")).keys, name ∈ portColumns.keys := by
    decide
  have hfails : pruneUnwantedDataFields 2 portColumns (portContent.filter (·.1 = "$SPEED")) =
      .error (.keyError "$N_LANES") := by
    rfl
  refine ⟨hsub, ?_⟩
  rw [Prunes, hfails]
  rintro ⟨⟩

end Prune

section Call

variable {α ε : Type} (isActive : String → Bool) (readField : String → Field → Except ε α)

/-- One round of the loop in `_process_data_fields`, without `force`. How an active field is
read depends on its type, and each branch assigns under the field's name. -/
def processDataField (content : Dict α) (p : String × Field) : Except ε (Dict α) :=
  if isActive p.1 then (readField p.1 p.2).map (content.set p.1) else .ok content

/-- `_process_data_fields` -/
def processDataFields (dataFields : Dict Field) : Except ε (Dict α) :=
  dataFields.entries.foldlM (processDataField isActive readField) .empty

/-- `_get_data_fields`, for the fields of the table or of the action. -/
def getDataFields (action : Option String) (dataFields : Dict Field) : Except ε (Dict α) :=
  processDataFields isActive readField (if action = some "NoAction" then .empty else dataFields)

/-- The threshold with which `dump` makes its printer. -/
def fieldDisplayThreshold (tableType : String) (table : Bool) : ℤ :=
  if tableType ∈ ["PORT_CFG", "PORT_STAT"] ∧ table then 2 else 1

variable {isActive readField} {thresh : ℤ} {action : Option String} {dataFields : Dict Field}
  {content content' : Dict α} {name : String}

theorem mem_keys_processDataField {p : String × Field}
    (h : processDataField isActive readField content p = .ok content') :
    name ∈ content'.keys ↔ name ∈ content.keys ∨ name = p.1 ∧ isActive name = true := by
  unfold processDataField at h
  split_ifs at h with hactive
  · obtain ⟨value, -, rfl⟩ := map_eq_ok_iff.mp h
    rw [Dict.mem_keys_set]
    constructor
    · rintro (rfl | hname)
      · exact .inr ⟨rfl, hactive⟩
      · exact .inl hname
    · rintro (hname | ⟨hname, -⟩)
      · exact .inr hname
      · exact .inl hname
  · cases h
    constructor
    · exact .inl
    · rintro (hname | ⟨rfl, hname⟩)
      · exact hname
      · exact absurd hname hactive

theorem mem_keys_foldlM_processDataField {l : List (String × Field)}
    (h : l.foldlM (processDataField isActive readField) content = .ok content') :
    name ∈ content'.keys ↔
      name ∈ content.keys ∨ name ∈ l.map Prod.fst ∧ isActive name = true := by
  induction l generalizing content with
  | nil =>
    cases h
    simp
  | cons p l ih =>
    obtain ⟨_, hround, hrest⟩ := foldlM_cons_eq_ok_iff.mp h
    rw [ih hrest, mem_keys_processDataField hround, List.map_cons, List.mem_cons, or_assoc,
      or_and_right]

/-- What is read of an entry are its active fields, and none where its action is `NoAction`. -/
theorem mem_keys_getDataFields
    (h : getDataFields isActive readField action dataFields = .ok content) :
    name ∈ content.keys ↔
      name ∈ dataFields.keys ∧ action ≠ some "NoAction" ∧ isActive name = true := by
  rw [getDataFields, processDataFields] at h
  rw [mem_keys_foldlM_processDataField h]
  by_cases haction : action = some "NoAction"
  · simp [haction, Dict.empty, Dict.keys]
  · simp [haction, Dict.empty, Dict.keys]

/-- A round of `__call__` gets past the pruning of what it read exactly when each level can
be read and each field below the threshold is active in the entry. -/
theorem pruned_getDataFields_iff
    (h : getDataFields isActive readField action dataFields = .ok content) :
    (∃ s, pruneUnwantedDataFields thresh dataFields content = .ok s) ↔
      Prunable thresh dataFields fun name => action ≠ some "NoAction" ∧ isActive name = true := by
  have hpresent : ∀ p ∈ dataFields.entries,
      (p.1 ∈ content.keys ↔ action ≠ some "NoAction" ∧ isActive p.1 = true) := by
    intro p hp
    rw [mem_keys_getDataFields h]
    exact and_iff_right (List.mem_map_of_mem hp)
  rw [← prunable_congr hpresent]
  constructor
  · rintro ⟨s, hs⟩
    exact (pruneUnwantedDataFields_eq_ok_iff.mp hs).1
  · intro hprunable
    exact ⟨_, pruneUnwantedDataFields_eq_ok_iff.mpr ⟨hprunable, rfl⟩⟩

/-- Apart from the port tables an entry is dumped with all its fields. -/
theorem pruneUnwantedDataFields_fieldDisplayThreshold {tableType : String} {table : Bool}
    (htype : tableType ∉ ["PORT_CFG", "PORT_STAT"] ∨ table = false)
    (hlevel : ∀ p ∈ dataFields.entries, ∃ level, p.2.importance = some level ∧ 1 ≤ level) :
    pruneUnwantedDataFields (fieldDisplayThreshold tableType table) dataFields content =
      .ok (dataFields, content) := by
  have hthresh : fieldDisplayThreshold tableType table = 1 := by
    apply if_neg
    rintro ⟨hmem, htable⟩
    rcases htype with hnot | hfalse
    · exact hnot hmem
    · rw [hfalse] at htable
      cases htable
  have hshown : ∀ p ∈ dataFields.entries, p.2.shown 1 = true := by
    intro p hp
    obtain ⟨level, hread, hle⟩ := hlevel p hp
    simpa [shown_of_importance hread] using hle
  have hhidden : hidden 1 dataFields = [] := by
    rw [List.eq_nil_iff_forall_not_mem]
    intro name hname
    obtain ⟨f, hf, hnot⟩ := mem_hidden_iff.mp hname
    rw [hshown (name, f) hf] at hnot
    cases hnot
  rw [hthresh, pruneUnwantedDataFields_eq_ok_iff, prunable_iff, hhidden, Prod.mk.injEq]
  refine ⟨⟨?_, by simp⟩, ?_, ?_⟩
  · intro p hp
    obtain ⟨level, hread, -⟩ := hlevel p hp
    exact ⟨level, hread⟩
  · exact Dict.ext (List.filter_eq_self.mpr hshown)
  · exact Dict.ext (List.filter_eq_self.mpr (by simp))

end Call
end Tdi.Cli

import Tdi.Cli.Entry
import Tdi.Cli.Reread

/-!
# Adding one dumped entry again

An entry that was read back without error, its raw form after a JSON text, and the
call of `add_entry` that one round of `add_from_json` makes of it. The call has
the entry's own action, keys and writable data exactly when every value is kept
by its field and the action does not have the empty name.
-/
namespace Tdi.Cli

open Foundation

/-- The entry was read back from the driver without error and fits the table. -/
structure Entry.ReadBack (t : Table) (e : Entry) : Prop where
  keys : e.keyContent.keys = t.keyFields.keys
  keyContent : ∀ p ∈ e.keyContent.entries, IsAscii p.1 ∧
    ∃ f, t.keyFields.get? p.1 = some f ∧ KeyReadBack f p.2
  dataContent : ∃ fields, t.fieldsOf e.action = .ok fields ∧
    ∀ p ∈ e.dataContent.entries, IsAscii p.1 ∧ ∃ f, fields.get? p.1 = some f ∧ DataReadBack f p.2

/-- The entry's action has a field of this name, and it can be written. -/
def Table.Writable (t : Table) (action : Option String) (name : String) : Prop :=
  ∃ fields f, t.fieldsOf action = .ok fields ∧ fields.get? name = some f ∧ f.readOnly = false

/-- A call of `add_entry` with an entry's action, keys and writable data. -/
structure SameEntry (t : Table) (e : Entry) (call : AddCall) : Prop where
  action : call.action = e.action
  keys : List.Forall₂ (fun p q => q.1 = p.1 ∧ q.2.canon = p.2.canon)
    e.keyContent.entries call.keys
  data : List.Forall₂ (fun p q => q.1 = p.1 ∧
    (t.Writable e.action p.1 → q.2.canon = p.2.canon)) e.dataContent.entries call.data

structure Entry.Kept (t : Table) (e : Entry) : Prop where
  action : e.action ≠ some ""
  keys : ∀ p ∈ e.keyContent.entries, ∀ f, t.keyFields.get? p.1 = some f → KeyKept f p.2
  data : ∀ p ∈ e.dataContent.entries, ∀ fields f, t.fieldsOf e.action = .ok fields →
    fields.get? p.1 = some f → DataKept f p.2

/-- Entries of a dict after a JSON text. -/
def jsonEntries (l : List (String × Value)) : List (String × Value) :=
  l.map fun q => (q.1, q.2.viaJson)

@[simp] theorem keys_jsonEntries (l : List (String × Value)) :
    (jsonEntries l).map Prod.fst = l.map Prod.fst := by
  rw [jsonEntries, List.map_map]
  rfl

namespace Table

variable {x : Externs} {t : Table}

theorem bind_ok {ε α β : Type} (a : α) (next : α → Except ε β) :
    (Except.ok a >>= next) = next a := rfl

theorem mapError_ok {ε δ α : Type} (a : α) (g : ε → δ) :
    (Except.ok a : Except ε α).mapError g = .ok a := rfl

theorem field_of_get? {fields : Dict Field} {name : String} {f : Field}
    (h : fields.get? name = some f) : field fields name = .ok f := by
  simp [field, h]

theorem rawField_eq_ok_iff {fields : Dict Field} {p : String × Value} (hp : IsAscii p.1)
    {shown : Value} :
    rawField x fields p.1 p.2 = .ok shown ↔
      ∃ f, fields.get? p.1 = some f ∧ f.deparseOutput x p.2 = .ok shown := by
  unfold rawField
  cases hf : fields.get? p.1 with
  | none => simp [field, hf, bind, Except.bind]
  | some f =>
    rw [field_of_get? hf, encodeAscii_of_isAscii hp]
    cases hd : f.deparseOutput x p.2 with
    | error e => simp [hd, bind, Except.bind]
    | ok value => simp [hd, bind, Except.bind]

theorem parseField_eq_ok_iff {fields : Dict Field} {name : String} {f : Field}
    (hf : fields.get? name = some f) {input parsed : Value} :
    parseField x fields name input = .ok parsed ↔ f.parseInput x input = .ok (true, parsed) := by
  unfold parseField
  rw [field_of_get? hf]
  cases hp : f.parseInput x input with
  | error e => simp [hp, bind, Except.bind, Except.mapError]
  | ok result =>
    obtain ⟨success, value⟩ := result
    cases success <;> simp [hp, bind, Except.bind, Except.mapError]

/-- A field's dump and its parse, for every field of a content. -/
theorem parseContent_iff {fields : Dict Field} {content : Dict Value}
    {raw : List (String × Value)} (hraw : rawContent x fields content = .ok raw)
    {S : String × Value → Value → Prop} {K : String × Value → Prop}
    (hK : ∀ p ∈ content.entries, IsAscii p.1 ∧ ∃ f, fields.get? p.1 = some f ∧
      ((∃ r, f.reread x p.2 = .ok (true, r) ∧ S p r) ↔ K p)) :
    (∃ parsed, parseContent x fields (jsonEntries raw) = .ok parsed ∧
      List.Forall₂ (fun p r => r.1 = p.1 ∧ S p r.2) content.entries parsed) ↔
      ∀ p ∈ content.entries, K p := by
  have hshown : List.Forall₂ (fun p q => q.1 = p.1 ∧ ∃ shown,
      rawField x fields p.1 p.2 = .ok shown ∧ q.2 = shown.viaJson)
      content.entries (jsonEntries raw) := by
    rw [jsonEntries, List.forall₂_map_right_iff]
    exact (mapEntries_eq_ok_iff.mp hraw).imp fun p q hpq => ⟨hpq.1, q.2, hpq.2, rfl⟩
  apply exists_mapEntries_iff hshown
  rintro p hp q hq ⟨shown, hfield, hvalue⟩
  obtain ⟨hascii, f, hf, hreread⟩ := hK p hp
  obtain ⟨f', hf', hdeparse⟩ := (rawField_eq_ok_iff hascii).mp hfield
  obtain rfl : f = f' := Option.some.inj (hf.symm.trans hf')
  rw [← hreread, hq, hvalue]
  have hsame : f.reread x p.2 = f.parseInput x shown.viaJson := by
    rw [Field.reread, hdeparse]
    rfl
  simp only [parseField_eq_ok_iff hf, hsame]

theorem keyField_spec {name : String} {f : Field} (h : t.keyFields.get? name = some f) :
    f.category = .key ∧ f.readOnly = false :=
  have hf := t.keyFields_key (name, f) (Dict.get?_eq_some_iff.mp h)
  ⟨hf.1, hf.2.1⟩

theorem fieldsOf_some {action : String} {fields : Dict Field}
    (h : t.fieldsOf (some action) = .ok fields) :
    encodeAscii action = .ok action ∧ t.actions.get? action = some fields := by
  rw [fieldsOf] at h
  by_cases hascii : IsAscii action
  · have hencode := encodeAscii_of_isAscii hascii
    refine ⟨hencode, ?_⟩
    rw [hencode] at h
    cases hget : t.actions.get? action with
    | none =>
      simp only [bind, Except.bind, hget] at h
      cases h
    | some found =>
      simp only [bind, Except.bind, hget] at h
      cases h
      rfl
  · have hencode : encodeAscii action = .error .unicodeError := if_neg hascii
    rw [hencode] at h
    cases h

theorem dataField_category {action : Option String} {fields : Dict Field}
    (h : t.fieldsOf action = .ok fields) {name : String} {f : Field}
    (hf : fields.get? name = some f) : f.category = .data := by
  have hmem := Dict.get?_eq_some_iff.mp hf
  cases action with
  | none =>
    cases h
    exact t.dataFields_data _ hmem
  | some action =>
    have haction := Dict.get?_eq_some_iff.mp (fieldsOf_some h).2
    exact t.actions_data _ haction _ hmem

theorem encodeNames_of_isAscii {items : List (String × Value)} (h : ∀ p ∈ items, IsAscii p.1) :
    encodeNames items = .ok items := by
  rw [encodeNames, mapEntries_eq_ok_iff, List.forall₂_same]
  intro p hp
  constructor
  · rfl
  · rw [encodeAscii_of_isAscii (h p hp)]
    rfl

/-- Only the arrays among the dumped values are lists, and they are no registers. -/
theorem registerValue_viaJson {action : Option String} {fields : Dict Field}
    (hfields : t.fieldsOf action = .ok fields) {name : String} {f : Field}
    (hf : fields.get? name = some f) {value shown : Value} (hv : DataReadBack f value)
    (hshown : f.deparseOutput x value = .ok shown) :
    t.registerValue action name shown.viaJson = shown.viaJson := by
  have hk := dataField_category hfields hf
  have hregister : isRegisterData f = true → ∀ items, shown.viaJson ≠ .list items := by
    intro hr
    simp only [isRegisterData, decide_eq_true_eq] at hr
    cases hv <;> simp_all [Field.deparseOutput, Field.deparseInt, Value.toInt?] <;> simp [← hshown]
  cases hvalue : shown.viaJson with
  | list items =>
    have hr : isRegisterData f = false := by
      rw [Bool.eq_false_iff]
      exact fun hr => hregister hr items hvalue
    simp [registerValue, hfields, hf, hr]
  | _ => rfl

theorem rawEntry_eq_ok_iff {keyContent dataContent : Dict Value} {action : Option String}
    {raw : Value} :
    t.rawEntry x keyContent dataContent action = .ok raw ↔
      ∃ rawKey fields rawData, rawContent x t.keyFields keyContent = .ok rawKey ∧
        t.fieldsOf action = .ok fields ∧ rawContent x fields dataContent = .ok rawData ∧
        raw = t.raw action rawKey rawData := by
  unfold rawEntry
  simp only [bind_eq_ok_iff]
  constructor
  · rintro ⟨rawKey, hkey, fields, hfields, rawData, hdata, hraw⟩
    exact ⟨rawKey, fields, rawData, hkey, hfields, hdata, (Except.ok.inj hraw).symm⟩
  · rintro ⟨rawKey, fields, rawData, hkey, hfields, hdata, rfl⟩
    exact ⟨rawKey, hkey, fields, hfields, rawData, hdata, rfl⟩

theorem viaJson_raw {action : Option String} {rawKey rawData : List (String × Value)}
    (hkey : (rawKey.map Prod.fst).Nodup) (hdata : (rawData.map Prod.fst).Nodup) :
    (t.raw action rawKey rawData).viaJson =
      t.raw action (jsonEntries rawKey) (jsonEntries rawData) := by
  have hnames : ["table_name", "action", "key", "data"].Nodup := by decide
  rw [raw, Value.viaJson_dict]
  · cases action <;> simp [raw, Value.viaJson_dict hkey, Value.viaJson_dict hdata, jsonEntries]
  · exact hnames

/-- What a round of `add_from_json` does with a raw entry. -/
theorem parseEntry_raw {action : Option String} (haction : ∀ a, action = some a → IsAscii a)
    {key data : List (String × Value)} (hkey : ∀ p ∈ key, IsAscii p.1)
    (hdata : ∀ p ∈ data, IsAscii p.1) :
    t.parseEntry x (t.raw action key data) =
      (t.parseStrInput x key (data.map fun p => (p.1, t.registerValue action p.1 p.2)) action).map
        fun parsed => ⟨parsed.1, parsed.2, action⟩ := by
  have hname : (t.raw action key data).item "table_name" = .ok (.str t.name) := by
    simp [Value.item, raw]
  have hkeyItem : (t.raw action key data).item "key" = .ok (.dict key) := by
    simp [Value.item, raw, List.lookup]
  have hdataItem : (t.raw action key data).item "data" = .ok (.dict data) := by
    simp [Value.item, raw, List.lookup]
  have hactionItem : (t.raw action key data).item "action" = .ok (action.elim .none .str) := by
    simp [Value.item, raw, List.lookup]
  have hkeys := encodeNames_of_isAscii hkey
  have hdatas := encodeNames_of_isAscii hdata
  have haction' : encodeAction (action.elim .none .str) = .ok action := by
    cases action with
    | none => rfl
    | some a =>
      show (encodeAscii a).map some = _
      rw [encodeAscii_of_isAscii (haction a rfl)]
      rfl
  simp only [parseEntry, hname, hkeyItem, hdataItem, hactionItem, mapError_ok, bind_ok,
    haction', Value.items, hkeys, hdatas]
  cases t.parseStrInput x key (data.map fun p => (p.1, t.registerValue action p.1 p.2)) action <;>
    rfl

theorem parseStrInput_eq_ok_iff {key data : List (String × Value)} {action : Option String}
    {fields : Dict Field} (hfields : t.fieldsOf action = .ok fields)
    {parsed : List (String × Value) × List (String × Value)} :
    t.parseStrInput x key data action = .ok parsed ↔
      parseContent x t.keyFields key = .ok parsed.1 ∧
        parseContent x fields data = .ok parsed.2 := by
  obtain ⟨keys, values⟩ := parsed
  simp only [parseStrInput, hfields, mapError_ok]
  cases parseContent x t.keyFields key with
  | error e => simp [bind, Except.bind]
  | ok parsedKeys =>
    cases hdata : parseContent x fields data with
    | error e => simp [bind, Except.bind, hdata]
    | ok parsedData => simp [bind, Except.bind, hdata]

/-- The data of a raw entry passes `add_from_json` unchanged. -/
theorem map_registerValue {action : Option String} {fields : Dict Field}
    (hfields : t.fieldsOf action = .ok fields) {content : Dict Value}
    (hcontent : ∀ p ∈ content.entries, IsAscii p.1 ∧
      ∃ f, fields.get? p.1 = some f ∧ DataReadBack f p.2)
    {rawData : List (String × Value)} (hraw : rawContent x fields content = .ok rawData) :
    (jsonEntries rawData).map (fun p => (p.1, t.registerValue action p.1 p.2)) =
      jsonEntries rawData := by
  rw [jsonEntries, List.map_map]
  apply List.map_congr_left
  intro q hq
  obtain ⟨p, hp, hkey, hfield⟩ := exists_of_mem_right (mapEntries_eq_ok_iff.mp hraw) hq
  obtain ⟨hascii, f, hf, hv⟩ := hcontent p hp
  obtain ⟨f', hf', hshown⟩ := (rawField_eq_ok_iff hascii).mp hfield
  obtain rfl : f = f' := Option.some.inj (hf.symm.trans hf')
  rw [← hkey] at hf
  simp only [Function.comp_apply, registerValue_viaJson hfields hf hv hshown]

theorem isAscii_action {e : Entry} (hread : e.ReadBack t) :
    ∀ action, e.action = some action → IsAscii action := by
  intro action haction
  obtain ⟨fields, hfields, -⟩ := hread.dataContent
  rw [haction] at hfields
  by_contra hascii
  have hencode : encodeAscii action = .error .unicodeError := if_neg hascii
  rw [(fieldsOf_some hfields).1] at hencode
  cases hencode

theorem isAscii_keys {content : Dict Value} {raw : List (String × Value)}
    (hcontent : ∀ p ∈ content.entries, IsAscii p.1)
    (hkeys : raw.map Prod.fst = content.entries.map Prod.fst) :
    ∀ q ∈ jsonEntries raw, IsAscii q.1 := by
  intro q hq
  have hmem : q.1 ∈ content.entries.map Prod.fst := by
    rw [← hkeys, ← keys_jsonEntries]
    exact List.mem_map_of_mem hq
  obtain ⟨p, hp, hpq⟩ := List.mem_map.mp hmem
  exact hpq ▸ hcontent p hp

/-- What a round of `add_from_json` makes of the contents of an entry that was dumped. -/
theorem parseEntry_viaJson_raw {e : Entry} (hread : e.ReadBack t) {action : Option String}
    (haction : ∀ a, action = some a → IsAscii a) {fields : Dict Field}
    {rawKey rawData : List (String × Value)}
    (hrawKey : rawContent x t.keyFields e.keyContent = .ok rawKey)
    (hrawData : rawContent x fields e.dataContent = .ok rawData) :
    t.parseEntry x (t.raw action rawKey rawData).viaJson =
      (t.parseStrInput x (jsonEntries rawKey)
        ((jsonEntries rawData).map fun p => (p.1, t.registerValue action p.1 p.2)) action).map
          fun parsed => ⟨parsed.1, parsed.2, action⟩ := by
  obtain ⟨_, -, hdata⟩ := hread.dataContent
  have hkeyNames := keys_of_mapEntries hrawKey
  have hdataNames := keys_of_mapEntries hrawData
  have hkeyNodup : (rawKey.map Prod.fst).Nodup := hkeyNames ▸ e.keyContent.nodup
  have hdataNodup : (rawData.map Prod.fst).Nodup := hdataNames ▸ e.dataContent.nodup
  have hkeyAscii := isAscii_keys (fun p hp => (hread.keyContent p hp).1) hkeyNames
  have hdataAscii := isAscii_keys (fun p hp => (hdata p hp).1) hdataNames
  rw [viaJson_raw hkeyNodup hdataNodup, parseEntry_raw haction hkeyAscii hdataAscii]

theorem parseEntry_viaJson_raw_eq_ok_iff {e : Entry} (hread : e.ReadBack t) {fields : Dict Field}
    (hfields : t.fieldsOf e.action = .ok fields) {rawKey rawData : List (String × Value)}
    (hrawKey : rawContent x t.keyFields e.keyContent = .ok rawKey)
    (hrawData : rawContent x fields e.dataContent = .ok rawData) {call : AddCall} :
    t.parseEntry x (t.raw e.action rawKey rawData).viaJson = .ok call ↔
      call.action = e.action ∧
      parseContent x t.keyFields (jsonEntries rawKey) = .ok call.keys ∧
      parseContent x fields (jsonEntries rawData) = .ok call.data := by
  obtain ⟨fields', hfields', hdata⟩ := hread.dataContent
  obtain rfl : fields = fields' := Except.ok.inj (hfields.symm.trans hfields')
  rw [parseEntry_viaJson_raw hread (isAscii_action hread) hrawKey hrawData,
    map_registerValue hfields hdata hrawData]
  constructor
  · intro hcall
    obtain ⟨parsed, hparse, rfl⟩ := map_eq_ok_iff.mp hcall
    exact ⟨rfl, (parseStrInput_eq_ok_iff hfields).mp hparse⟩
  · rintro ⟨haction, hparsed⟩
    have hparse : t.parseStrInput x (jsonEntries rawKey) (jsonEntries rawData) e.action =
        .ok (call.keys, call.data) := (parseStrInput_eq_ok_iff hfields).mpr hparsed
    rw [hparse, ← haction]
    rfl

/-- The keys of an entry come back exactly when each of them is kept. -/
theorem keys_iff {e : Entry} (hread : e.ReadBack t) {rawKey : List (String × Value)}
    (hrawKey : rawContent x t.keyFields e.keyContent = .ok rawKey) :
    (∃ keys, parseContent x t.keyFields (jsonEntries rawKey) = .ok keys ∧
      List.Forall₂ (fun p q => q.1 = p.1 ∧ q.2.canon = p.2.canon) e.keyContent.entries keys) ↔
      ∀ p ∈ e.keyContent.entries, ∀ f, t.keyFields.get? p.1 = some f → KeyKept f p.2 := by
  apply parseContent_iff hrawKey (S := fun p r => r.canon = p.2.canon)
  intro p hp
  obtain ⟨hascii, f, hf, hv⟩ := hread.keyContent p hp
  obtain ⟨hcategory, hwritable⟩ := keyField_spec hf
  refine ⟨hascii, f, hf, ?_⟩
  rw [Field.reread_key_iff hcategory hwritable hv]
  simp [hf]

theorem writable_iff {action : Option String} {fields : Dict Field}
    (hfields : t.fieldsOf action = .ok fields) {name : String} {f : Field}
    (hf : fields.get? name = some f) : t.Writable action name ↔ f.readOnly = false := by
  constructor
  · rintro ⟨fields', f', hfields', hf', hwritable⟩
    obtain rfl : fields = fields' := Except.ok.inj (hfields.symm.trans hfields')
    obtain rfl : f = f' := Option.some.inj (hf.symm.trans hf')
    exact hwritable
  · exact fun hwritable => ⟨fields, f, hfields, hf, hwritable⟩

/-- The writable data of an entry comes back exactly when all of it is kept. -/
theorem data_iff {e : Entry} (hread : e.ReadBack t) {fields : Dict Field}
    (hfields : t.fieldsOf e.action = .ok fields) {rawData : List (String × Value)}
    (hrawData : rawContent x fields e.dataContent = .ok rawData) :
    (∃ data, parseContent x fields (jsonEntries rawData) = .ok data ∧
      List.Forall₂ (fun p q => q.1 = p.1 ∧
        (t.Writable e.action p.1 → q.2.canon = p.2.canon)) e.dataContent.entries data) ↔
      ∀ p ∈ e.dataContent.entries, ∀ fields f, t.fieldsOf e.action = .ok fields →
        fields.get? p.1 = some f → DataKept f p.2 := by
  obtain ⟨fields', hfields', hdata⟩ := hread.dataContent
  obtain rfl : fields = fields' := Except.ok.inj (hfields.symm.trans hfields')
  apply parseContent_iff hrawData
    (S := fun p r => t.Writable e.action p.1 → r.canon = p.2.canon)
  intro p hp
  obtain ⟨hascii, f, hf, hv⟩ := hdata p hp
  refine ⟨hascii, f, hf, ?_⟩
  rw [writable_iff hfields hf, Field.reread_data_iff (dataField_category hfields hf) hv]
  constructor
  · intro hkept fields' f' hfields' hf'
    obtain rfl : fields = fields' := Except.ok.inj (hfields.symm.trans hfields')
    obtain rfl : f = f' := Option.some.inj (hf.symm.trans hf')
    exact hkept
  · exact fun hkept => hkept fields f hfields hf

/-- One entry goes through the dump and back unchanged exactly when its values are kept. -/
theorem entry_iff {e : Entry} (hread : e.ReadBack t) (haction : e.action ≠ some "") {raw : Value}
    (hraw : t.rawEntry x e.keyContent e.dataContent e.action = .ok raw) :
    (∃ call, t.parseEntry x raw.viaJson = .ok call ∧ SameEntry t e call) ↔ e.Kept t := by
  obtain ⟨rawKey, fields, rawData, hrawKey, hfields, hrawData, rfl⟩ := rawEntry_eq_ok_iff.mp hraw
  have hparse (call : AddCall) : t.parseEntry x (t.raw e.action rawKey rawData).viaJson = .ok call ↔
      call.action = e.action ∧ parseContent x t.keyFields (jsonEntries rawKey) = .ok call.keys ∧
      parseContent x fields (jsonEntries rawData) = .ok call.data :=
    parseEntry_viaJson_raw_eq_ok_iff hread hfields hrawKey hrawData
  have hkeys := keys_iff hread hrawKey
  have hdata := data_iff hread hfields hrawData
  constructor
  · rintro ⟨call, hcall, hsame⟩
    obtain ⟨-, hcallKeys, hcallData⟩ := (hparse call).mp hcall
    exact ⟨haction, hkeys.mp ⟨_, hcallKeys, hsame.keys⟩, hdata.mp ⟨_, hcallData, hsame.data⟩⟩
  · intro hkept
    obtain ⟨keys, hcallKeys, hsameKeys⟩ := hkeys.mpr hkept.keys
    obtain ⟨data, hcallData, hsameData⟩ := hdata.mpr hkept.data
    exact ⟨⟨keys, data, e.action⟩, (hparse _).mpr ⟨rfl, hcallKeys, hcallData⟩,
      ⟨rfl, hsameKeys, hsameData⟩⟩

/-- An entry that is dumped without an action is added without one. -/
theorem action_of_parseEntry {e : Entry} (hread : e.ReadBack t) {raw : Value}
    (hraw : t.rawEntry x e.keyContent e.dataContent none = .ok raw) {call : AddCall}
    (hcall : t.parseEntry x raw.viaJson = .ok call) : call.action = none := by
  obtain ⟨rawKey, fields, rawData, hrawKey, -, hrawData, rfl⟩ := rawEntry_eq_ok_iff.mp hraw
  rw [parseEntry_viaJson_raw hread (by simp) hrawKey hrawData] at hcall
  obtain ⟨parsed, -, rfl⟩ := map_eq_ok_iff.mp hcall
  rfl

theorem exists_rawContent {fields : Dict Field} {content : Dict Value}
    (h : ∀ p ∈ content.entries, IsAscii p.1 ∧
      ∃ f, fields.get? p.1 = some f ∧ ∃ shown, f.deparseOutput x p.2 = .ok shown) :
    ∃ raw, rawContent x fields content = .ok raw := by
  unfold rawContent
  generalize content.entries = entries at h
  induction entries with
  | nil => exact ⟨[], rfl⟩
  | cons p entries ih =>
    obtain ⟨hascii, f, hf, shown, hshown⟩ := h p (by simp)
    obtain ⟨rest, hrest⟩ := ih fun q hq => h q (by simp [hq])
    have hfield := (rawField_eq_ok_iff hascii).mpr ⟨f, hf, hshown⟩
    exact ⟨(p.1, shown) :: rest,
      mapEntries_eq_ok_iff.mpr (.cons ⟨rfl, hfield⟩ (mapEntries_eq_ok_iff.mp hrest))⟩

theorem exists_rawEntry {e : Entry} (hread : e.ReadBack t) :
    ∃ raw, t.rawEntry x e.keyContent e.dataContent e.action = .ok raw := by
  obtain ⟨fields, hfields, hdata⟩ := hread.dataContent
  have hkey : ∃ rawKey, rawContent x t.keyFields e.keyContent = .ok rawKey := by
    apply exists_rawContent
    intro p hp
    obtain ⟨hascii, f, hf, hv⟩ := hread.keyContent p hp
    exact ⟨hascii, f, hf, Field.exists_deparseOutput_key (keyField_spec hf).1 hv⟩
  have hvalues : ∃ rawData, rawContent x fields e.dataContent = .ok rawData := by
    apply exists_rawContent
    intro p hp
    obtain ⟨hascii, f, hf, hv⟩ := hdata p hp
    exact ⟨hascii, f, hf, Field.exists_deparseOutput_data (dataField_category hfields hf) hv⟩
  obtain ⟨rawKey, hrawKey⟩ := hkey
  obtain ⟨rawData, hrawData⟩ := hvalues
  exact ⟨_, rawEntry_eq_ok_iff.mpr ⟨rawKey, fields, rawData, hrawKey, hfields, hrawData, rfl⟩⟩

theorem entryObj_of_readBack {e : Entry} (hread : e.ReadBack t) :
    t.entryObj (e.actStr, e) =
      .ok { e with action := if e.actStr = "" then none else some e.actStr } := by
  have hlooked : ∀ name ∈ t.keyFields.keys, (e.keyContent.get? name).isSome := by
    intro name hname
    rw [← hread.keys] at hname
    obtain ⟨p, hp, rfl⟩ := List.mem_map.mp hname
    rw [Dict.get?_of_mem hp]
    rfl
  exact if_pos hlooked

/-- An action with the empty name is dumped as no action. -/
theorem entryObj_of_ne {e : Entry} (hread : e.ReadBack t) (haction : e.action ≠ some "") :
    t.entryObj (e.actStr, e) = .ok e := by
  rw [entryObj_of_readBack hread]
  obtain ⟨keyContent, dataContent, action⟩ := e
  cases action with
  | none => rfl
  | some action =>
    have hne : action ≠ "" := fun h => haction (by rw [h])
    simp [Entry.actStr, hne]

/-- An entry in a dump is added again unchanged exactly when it is kept. -/
theorem dumped_iff {e : Entry} (hread : e.ReadBack t) :
    (∃ obj raw call, t.entryObj (e.actStr, e) = .ok obj ∧
      t.rawEntry x obj.keyContent obj.dataContent obj.action = .ok raw ∧
      t.parseEntry x raw.viaJson = .ok call ∧ SameEntry t e call) ↔ e.Kept t := by
  by_cases haction : e.action = some ""
  · constructor
    · rintro ⟨obj, raw, call, hobj, hraw, hcall, hsame⟩
      rw [entryObj_of_readBack hread] at hobj
      simp only [Entry.actStr, haction, Option.getD_some, if_true, Except.ok.injEq] at hobj
      subst hobj
      have hnone := action_of_parseEntry hread hraw hcall
      rw [hsame.action, haction] at hnone
      cases hnone
    · exact fun hkept => absurd haction hkept.action
  · obtain ⟨raw, hraw⟩ := exists_rawEntry (x := x) hread
    rw [← entry_iff hread haction hraw]
    constructor
    · rintro ⟨obj, raw', call, hobj, hraw', hcall, hsame⟩
      cases (entryObj_of_ne hread haction).symm.trans hobj
      cases hraw.symm.trans hraw'
      exact ⟨call, hcall, hsame⟩
    · rintro ⟨call, hcall, hsame⟩
      exact ⟨e, raw, call, entryObj_of_ne hread haction, hraw, hcall, hsame⟩

end Table
end Tdi.Cli

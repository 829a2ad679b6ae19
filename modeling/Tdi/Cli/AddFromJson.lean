import Tdi.Cli.JsonDump
import Tdi.Cli.Readd
import Tdi.Foundation.Submission

/-!
# Adding entries of another table

`add_from_json` compares the table name of each entry with the table's own, prints a line
when they differ, and goes on with the entry. Here the driver may answer a call by any rule
that looks at the calls before it.
-/
namespace Tdi.Cli

open Foundation

namespace Table

variable (x : Externs) (t : Table) (accepts : List AddCall → AddCall → Bool)

/-- The loop of `add_from_json` after some calls of `add_entry`. -/
def addEntriesFrom (made : List AddCall) : List Value → List AddCall
  | [] => []
  | ent :: ents =>
    match t.parseEntry x ent with
    | .ok call => call :: if accepts made call then addEntriesFrom (made ++ [call]) ents else []
    | .error _ => []

def addFromJsonWith (text : String) : Except Raised (List AddCall) := do
  let jents ← loads text
  .ok (match jents.iterate with
    | some ents => t.addEntriesFrom x accepts [] ents
    | none => [])

/-- The call that an entry stands for, if it has the members of an entry, names fields and an
action of the table, and parses. -/
def callOf (ent : Value) : Option AddCall := (t.parseEntry x ent).toOption

/-- `ent['table_name'] == self._c_tbl.name` -/
def Names (ent : Value) : Prop := ent.item "table_name" = .ok (.str t.name)

variable {x t accepts}

theorem addEntriesFrom_eq (made : List AddCall) (ents : List Value) :
    t.addEntriesFrom x accepts made ents = submitFrom (t.callOf x) accepts made ents := by
  induction ents generalizing made with
  | nil => rfl
  | cons ent ents ih =>
    cases hparse : t.parseEntry x ent with
    | error e =>
      have hcall : t.callOf x ent = none := by simp [callOf, hparse, Except.toOption]
      simp [addEntriesFrom, hparse, submitFrom_cons_of_none hcall]
    | ok call =>
      have hcall : t.callOf x ent = some call := by simp [callOf, hparse, Except.toOption]
      simp [addEntriesFrom, hparse, submitFrom_cons_of_some hcall, ih]

/-- A driver that does not look back is the one for which a dump is added again. -/
theorem addEntriesFrom_const (accepts : AddCall → Bool) (made : List AddCall)
    (ents : List Value) :
    t.addEntriesFrom x (fun _ => accepts) made ents = t.addEntries x accepts ents := by
  induction ents generalizing made with
  | nil => rfl
  | cons ent ents ih =>
    unfold addEntriesFrom addEntries
    cases t.parseEntry x ent with
    | error e => rfl
    | ok call => simp only [ih]

end Table

theorem noKeyFields : ∀ p ∈ (Dict.empty : Dict Field).entries,
    p.2.category = .key ∧ p.2.readOnly = false ∧ p.2.required = true := List.forall_mem_nil _

theorem noDataFields : ∀ p ∈ (Dict.empty : Dict Field).entries, p.2.category = .data :=
  List.forall_mem_nil _

theorem noActions : ∀ a ∈ (Dict.empty : Dict (Dict Field)).entries, ∀ p ∈ a.2.entries,
    p.2.category = .data := List.forall_mem_nil _

/-- A table without fields. -/
def fieldless (name : String) : Table where
  name := name
  keyFields := .empty
  dataFields := .empty
  actions := .empty
  keyFields_key := noKeyFields
  dataFields_data := noDataFields
  actions_data := noActions

/-- The text of a dump of one entry of such a table, and the entry. -/
def fieldlessEntry (name : String) : Value := (fieldless name).raw none [] []

theorem loads_fieldlessEntry (name : String) :
    loads (dumps (.list [fieldlessEntry name])) = .ok (.list [fieldlessEntry name]) := by
  have hentry : (fieldlessEntry name).viaJson = fieldlessEntry name :=
    Table.viaJson_raw (by simp) (by simp)
  rw [loads_dumps, Value.viaJson_list, List.map_singleton, hentry]

end Tdi.Cli

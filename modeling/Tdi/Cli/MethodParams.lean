import Tdi.Foundation.Parameters
import Tdi.Cli.ParamDepth
import Tdi.Cli.Field
import Tdi.Defs

/-!
# Parameters of the generated methods

The methods of a table are generated as text. `_make_core_method_strs` writes the parameters
for the fields and the dictionaries that take the fields' arguments from them, and a template
puts its own parameters around these. The shortened names of the fields differ. The endings
`_mask`, `_start`, `_end`, `_p_length` and `_is_valid`, and the parameters of the template, are
added without looking at them again.

Python takes a definition when no parameter comes twice and each is an identifier and no
reserved word. The short name of a field may be one although the whole name is not.
-/
namespace Tdi.Cli.MethodParams

open Foundation ParamNames ParamDepth

/-- A key field, as far as the methods depend on it. -/
structure KeyField where
  id : TdiId
  matchType : MatchType

structure DataField where
  id : TdiId

/-- `TdiTable`, as far as its methods depend on it. -/
structure Table where
  keyFields : Dict KeyField
  dataFields : Dict DataField

/-- `compress_input` -/
def Table.compressInput (t : Table) : Bool :=
  decide (t.keyFields.entries.length * 2 + t.dataFields.entries.length > 255 - 10)

/-- The parameters of a key field with the name `p_name`. -/
def KeyField.params (f : KeyField) (pName : String) : List String :=
  match f.matchType with
  | .ternary => [pName, pName ++ "_mask"]
  | .range => [pName ++ "_start", pName ++ "_end"]
  | .lpm => [pName, pName ++ "_p_length"]
  | .optional => [pName, pName ++ "_is_valid"]
  | .exact | .notImplemented => [pName]

/-- What stands for the key or the data in a method: a dictionary that is passed, or one that
has the parameters of each field. -/
inductive ParseCall where
  | dict (p : String)
  | fields (elems : List (String × List String))

def ParseCall.elems : ParseCall → List (String × List String)
  | .dict _ => []
  | .fields elems => elems

structure CoreMethodStrs where
  /-- the names in `param_str` -/
  params : List String
  parseKeyCall : ParseCall
  parseDataCall : ParseCall

/-- `sorted(fields.items(), key=lambda x: x[1].id)` -/
def sortedById {α : Type} (id : α → TdiId) (fields : Dict α) : List (String × α) :=
  fields.entries.mergeSort fun p q => decide (id p.2 ≤ id q.2)

/-- `_make_core_method_strs` -/
def makeCoreMethodStrs (compressInput : Bool) (keyFields : Dict KeyField)
    (dataFields : Dict DataField) : CoreMethodStrs :=
  let names := pNames keyFields.keys dataFields.keys
  let keyParams := (sortedById KeyField.id keyFields).map fun p =>
    (p.1, p.2.params ((names.1.get? p.1).getD ""))
  let dataParams := (sortedById DataField.id dataFields).map fun p =>
    (p.1, [(names.2.get? p.1).getD ""])
  if compressInput then ⟨["key_dict", "data_dict"], .dict "key_dict", .dict "data_dict"⟩
  else ⟨(keyParams ++ dataParams).flatMap Prod.snd, .fields keyParams, .fields dataParams⟩

/-- The templates. Those of `add`, `set_default`, `mod` and `mod_inc` are also used for the methods
with an action, and that of `add` for the methods that make entries. -/
inductive Method where
  | add
  | setDefault
  | mod
  | modInc
  | delete
  | get
  | getHandle
  deriving DecidableEq

namespace Method

/-- The parameters that a template writes after those of the fields. -/
def fixed : Method → List String
  | .add | .setDefault => []
  | .mod => ["ttl_reset"]
  | .modInc => ["mod_flag"]
  | .delete => ["handle"]
  | .get => ["regex", "return_ents", "print_ents", "table", "from_hw", "handle"]
  | .getHandle => ["regex", "return_ents", "print_ents", "table", "from_hw"]

def keyFields (m : Method) (t : Table) : Dict KeyField :=
  match m with
  | .setDefault => Dict.empty
  | .add | .mod | .modInc | .delete | .get | .getHandle => t.keyFields

/-- `data` are the data fields of the table, or those of the action. -/
def dataFields (m : Method) (data : Dict DataField) : Dict DataField :=
  match m with
  | .add | .setDefault | .mod | .modInc => data
  | .delete | .get | .getHandle => Dict.empty

def coreStrs (m : Method) (t : Table) (data : Dict DataField) : CoreMethodStrs :=
  makeCoreMethodStrs t.compressInput (m.keyFields t) (m.dataFields data)

/-- The parameters of the definition. -/
def params (m : Method) (t : Table) (data : Dict DataField) : List String :=
  ["self"] ++ (m.coreStrs t data).params ++ m.fixed

/-- What a method takes its dictionaries' values from. -/
def elems (m : Method) (t : Table) (data : Dict DataField) : List (String × List String) :=
  (m.coreStrs t data).parseKeyCall.elems ++ (m.coreStrs t data).parseDataCall.elems

end Method

/-- With `regex` or `table`, two variables are assigned before the dictionary of the keys is
written. An argument cannot stand in for the class `TableEntryDumper`. -/
def dumpPath (env : String → Binding) : Option (String → Binding) :=
  if env "TableEntryDumper" = .global then
    some (Function.update (Function.update env "etd" .computed) "sts" .computed)
  else none

/-- What the names stand for where a method writes its dictionaries, on each of its paths. -/
def Method.paths (m : Method) (env : String → Binding) : List (Option (String → Binding)) :=
  match m with
  | .get | .getHandle => [some env, dumpPath env]
  | .add | .setDefault | .mod | .modInc | .delete => [some env]

/-- `exec` takes the definition. -/
def Method.Compiles (m : Method) (t : Table) (data : Dict DataField) : Prop :=
  (m.params t data).Nodup ∧ ∀ p ∈ m.params t data, isParameter p = true

/-- The definition compiles, and on every path each field gets its own arguments. The first
argument is the object. -/
def Method.Works (m : Method) (t : Table) (data : Dict DataField) : Prop :=
  m.Compiles t data ∧
    ∀ path ∈ m.paths (bindParams (m.params t data)),
      path.map (fun env => readFields env (m.elems t data)) =
        some (argumentsFrom 1 (m.elems t data))

section Clashes

/-- What is appended to the name of a key field. -/
def endings : MatchType → List String
  | .ternary => ["", "_mask"]
  | .range => ["_start", "_end"]
  | .lpm => ["", "_p_length"]
  | .optional => ["", "_is_valid"]
  | .exact | .notImplemented => [""]

/-- The names that the body of a method uses before it writes a dictionary. -/
def Method.locals : Method → List String
  | .get | .getHandle => ["TableEntryDumper", "etd", "sts"]
  | .add | .setDefault | .mod | .modInc | .delete => []

/-- The names that a method uses besides those of the fields. -/
def Method.reserved (m : Method) : List String := ["self"] ++ m.fixed ++ m.locals

/-- The fields of a method, each with what is appended to its name. -/
def Method.fields (m : Method) (t : Table) (data : Dict DataField) :
    List (String × List String) :=
  (m.keyFields t).entries.map (fun p => (p.1, endings p.2.matchType)) ++
    (m.dataFields data).entries.map fun p => (p.1, [""])

/-- The short name of a field of the method. -/
def Method.short (m : Method) (t : Table) (data : Dict DataField) (name : String) : String :=
  shortOf (settledDepth (m.keyFields t).keys (m.dataFields data).keys) name

/-- No field but a range, which does not use its short name, has a name that the method uses,
a reserved word, or the name of a field with one of its endings. -/
def Method.NoClash (m : Method) (t : Table) (data : Dict DataField) : Prop :=
  ∀ f ∈ m.fields t data, "" ∈ f.2 → m.short t data f.1 ∉ m.reserved ++ reservedWords ∧
    ∀ g ∈ m.fields t data, ∀ ending ∈ g.2, ending ≠ "" →
      m.short t data f.1 ≠ m.short t data g.1 ++ ending

instance (m : Method) (t : Table) (data : Dict DataField) : Decidable (m.NoClash t data) :=
  inferInstanceAs (Decidable (∀ f ∈ m.fields t data, _ → _ ∧ _))

end Clashes

section Elems

theorem params_eq_map_endings (f : KeyField) (pName : String) :
    f.params pName = (endings f.matchType).map (pName ++ ·) := by
  unfold KeyField.params endings
  cases f.matchType <;> simp

theorem sortedById_perm {α : Type} (id : α → TdiId) (fields : Dict α) :
    (sortedById id fields).Perm fields.entries :=
  List.mergeSort_perm _ _

/-- The fields in the order of their ids, those of the key first. -/
def Method.sorted (m : Method) (t : Table) (data : Dict DataField) :
    List (String × List String) :=
  (sortedById KeyField.id (m.keyFields t)).map (fun p => (p.1, endings p.2.matchType)) ++
    (sortedById DataField.id (m.dataFields data)).map fun p => (p.1, [""])

theorem Method.sorted_perm (m : Method) (t : Table) (data : Dict DataField) :
    (m.sorted t data).Perm (m.fields t data) :=
  ((sortedById_perm _ _).map _).append ((sortedById_perm _ _).map _)

variable {m : Method} {t : Table} {data : Dict DataField}

/-- Every field finds its name. -/
theorem map_sortedById_eq {α : Type} (id : α → TdiId) {fields : Dict α} {names : Dict String}
    {f : String → String} (h : names.entries = fields.keys.map fun name => (name, f name))
    (params : α → String → List String) :
    (sortedById id fields).map (fun p => (p.1, params p.2 ((names.get? p.1).getD ""))) =
      (sortedById id fields).map fun p => (p.1, params p.2 (f p.1)) := by
  apply List.map_congr_left
  intro p hp
  have hname : p.1 ∈ fields.keys := List.mem_map_of_mem ((sortedById_perm id fields).subset hp)
  have hmem : (p.1, f p.1) ∈ names.entries := by
    rw [h]
    exact List.mem_map_of_mem hname
  rw [Dict.get?_of_mem hmem, Option.getD_some]

/-- A method of the table has some of its fields. -/
theorem keys_method_sublist (m : Method) :
    ((m.keyFields t).keys ++ (m.dataFields data).keys).Sublist
      (t.keyFields.keys ++ data.keys) := by
  cases m <;> simp [Method.keyFields, Method.dataFields, Dict.keys, Dict.empty]

theorem separable_method
    (h : Separable (t.keyFields.keys ++ data.keys) Dict.empty) (m : Method) :
    Separable ((m.keyFields t).keys ++ (m.dataFields data).keys) Dict.empty := by
  have hsub : ((m.keyFields t).keys ++ (m.dataFields data).keys).Sublist
      (t.keyFields.keys ++ data.keys) := keys_method_sublist m
  constructor
  · exact h.nodup.sublist (hsub.map fullName)
  · exact fun name hname => h.free name (hsub.subset hname)
  · exact fun name hname => h.depth name (hsub.subset hname)

/-- The parameters are the short names with their endings. -/
theorem elems_eq (hcompress : t.compressInput = false)
    (h : Separable ((m.keyFields t).keys ++ (m.dataFields data).keys) Dict.empty) :
    m.elems t data = (m.sorted t data).map fun f =>
      (f.1, f.2.map (m.short t data f.1 ++ ·)) := by
  have hnames := namesAt_pNames h
  have hkeys := map_sortedById_eq KeyField.id hnames.keyNames fun f name =>
    (endings f.matchType).map (name ++ ·)
  have hdata := map_sortedById_eq DataField.id hnames.dataNames fun _ name => [name]
  rw [Method.elems, Method.coreStrs, hcompress, makeCoreMethodStrs]
  simp only [Bool.false_eq_true, if_false, ParseCall.elems, params_eq_map_endings, hkeys, hdata,
    Method.sorted, Method.short, List.map_append, List.map_map, Function.comp_def,
    List.map_singleton, String.append_empty]

theorem params_eq (hcompress : t.compressInput = false) :
    m.params t data = ["self"] ++ (m.elems t data).flatMap Prod.snd ++ m.fixed := by
  simp [Method.params, Method.elems, Method.coreStrs, makeCoreMethodStrs, hcompress,
    ParseCall.elems]

end Elems

section Works

variable {m : Method} {t : Table} {data : Dict DataField}

/-- The endings that are not empty. -/
def properEndings : List String := ["_mask", "_start", "_end", "_p_length", "_is_valid"]

theorem endingFree_properEndings : EndingFree properEndings := by decide +kernel

theorem mem_properEndings {k : MatchType} {s : String} (h : s ∈ endings k) (hne : s ≠ "") :
    s ∈ properEndings := by
  cases k <;> simp [endings, properEndings] at h ⊢ <;> tauto

theorem reserved_not_ending (m : Method) :
    ∀ x ∈ m.reserved ++ reservedWords, ∀ s ∈ properEndings, ¬s.toList <:+ x.toList := by
  cases m <;> decide +kernel

/-- A data field has the endings of an exact key. -/
theorem exists_endings_of_mem_sorted {f : String × List String} (hf : f ∈ m.sorted t data) :
    ∃ k, f.2 = endings k := by
  rcases List.mem_append.mp hf with hf | hf
  · obtain ⟨p, -, rfl⟩ := List.mem_map.mp hf
    exact ⟨p.2.matchType, rfl⟩
  · obtain ⟨p, -, rfl⟩ := List.mem_map.mp hf
    exact ⟨.exact, rfl⟩

theorem mem_properEndings_of_mem_sorted :
    ∀ f ∈ m.sorted t data, ∀ s ∈ f.2, s ≠ "" → s ∈ properEndings := by
  intro f hf s hs hne
  obtain ⟨k, hk⟩ := exists_endings_of_mem_sorted hf
  rw [hk] at hs
  exact mem_properEndings hs hne

theorem nodup_of_mem_sorted : ∀ f ∈ m.sorted t data, f.2.Nodup := by
  intro f hf
  obtain ⟨k, hk⟩ := exists_endings_of_mem_sorted hf
  rw [hk]
  cases k <;> simp [endings]

theorem nodup_short_sorted
    (h : Separable ((m.keyFields t).keys ++ (m.dataFields data).keys) Dict.empty) :
    ((m.sorted t data).map fun f => m.short t data f.1).Nodup := by
  have hfields : (m.fields t data).map (fun f => m.short t data f.1) =
      ((m.keyFields t).keys ++ (m.dataFields data).keys).map (m.short t data) := by
    simp [Method.fields, Dict.keys, Function.comp_def]
  rw [((m.sorted_perm t data).map _).nodup_iff, hfields]
  exact (namesAt_pNames h).nodup

/-- The parameters of the fields differ, and none is a name that the method uses or a reserved
word, exactly when there is no clash. -/
theorem noClash_iff (hcompress : t.compressInput = false)
    (h : Separable ((m.keyFields t).keys ++ (m.dataFields data).keys) Dict.empty) :
    m.NoClash t data ↔ ((m.elems t data).flatMap Prod.snd).Nodup ∧
      ∀ x ∈ (m.elems t data).flatMap Prod.snd, x ∉ m.reserved ++ reservedWords := by
  have hflat : (m.elems t data).flatMap Prod.snd =
      (m.sorted t data).flatMap fun f => f.2.map (m.short t data f.1 ++ ·) := by
    rw [elems_eq hcompress h, List.flatMap_map]
  have hmem : ∀ f, f ∈ m.sorted t data ↔ f ∈ m.fields t data :=
    fun _ => (m.sorted_perm t data).mem_iff
  rw [hflat, nodup_flatMap_endings endingFree_properEndings (nodup_short_sorted h)
    nodup_of_mem_sorted mem_properEndings_of_mem_sorted,
    forall_not_mem_endings (reserved_not_ending m) mem_properEndings_of_mem_sorted]
  simp only [hmem]
  constructor
  · intro hclash
    exact ⟨fun f hf hown => (hclash f hf hown).2, fun f hf hown => (hclash f hf hown).1⟩
  · rintro ⟨hdiffer, hreserved⟩ f hf hown
    exact ⟨hreserved f hf hown, hdiffer f hf hown⟩

/-- Parameters of the fields between those of a template -/
theorem nodup_append_fixed (m : Method) (flat : List String) :
    (["self"] ++ flat ++ m.fixed).Nodup ↔
      flat.Nodup ∧ ∀ x ∈ flat, x ∉ ["self"] ++ m.fixed := by
  have hperm : (["self"] ++ flat ++ m.fixed).Perm (flat ++ (["self"] ++ m.fixed)) := by
    rw [← List.append_assoc]
    exact List.perm_append_comm.append_right _
  have hown : (["self"] ++ m.fixed).Nodup := by cases m <;> decide
  rw [hperm.nodup_iff, List.nodup_append]
  constructor
  · rintro ⟨hflat, -, hdiffer⟩
    exact ⟨hflat, fun x hx hmem => hdiffer x hx x hmem rfl⟩
  · rintro ⟨hflat, hnew⟩
    refine ⟨hflat, hown, ?_⟩
    rintro x hx _ hmem rfl
    exact hnew x hx hmem

/-- On the path that dumps the table the arguments arrive unless a name stands in the way. -/
theorem dumpPath_iff {env : String → Binding} {elems : List (String × List String)}
    (henv : readFields env elems = argumentsFrom 1 elems)
    (hglobal : env "TableEntryDumper" = .global ↔
      "TableEntryDumper" ∉ elems.flatMap Prod.snd) :
    (dumpPath env).map (fun env => readFields env elems) = some (argumentsFrom 1 elems) ↔
      ∀ x ∈ elems.flatMap Prod.snd, x ∉ ["TableEntryDumper", "etd", "sts"] := by
  have hargs := readFields_eq_iff.mp henv
  have harg : ∀ x ∈ elems.flatMap Prod.snd, env x ≠ .computed := by
    intro x hx he
    have hmem : env x ∈ (List.range' 1 (elems.flatMap Prod.snd).length).map Binding.argument :=
      hargs ▸ List.mem_map_of_mem hx
    obtain ⟨i, -, hi⟩ := List.mem_map.mp hmem
    rw [he] at hi
    cases hi
  unfold dumpPath
  split_ifs with hclass
  · rw [Option.map_some, Option.some_inj, readFields_eq_iff, ← hargs, List.map_inj_left]
    have hclass' := hglobal.mp hclass
    constructor
    · intro hsame x hx hmem
      have hx' := hsame x hx
      simp only [List.mem_cons, List.not_mem_nil, or_false] at hmem
      rcases hmem with rfl | rfl | rfl
      · exact hclass' hx
      · exact harg _ hx (by rw [← hx']; simp)
      · exact harg _ hx (by rw [← hx']; simp)
    · intro hnew x hx
      have hx' := hnew x hx
      simp only [List.mem_cons, List.not_mem_nil, or_false, not_or] at hx'
      rw [Function.update_of_ne hx'.2.2, Function.update_of_ne hx'.2.1]
  · have hclass' := mt hglobal.mpr hclass
    rw [not_not] at hclass'
    constructor
    · intro hnone
      cases hnone
    · intro hnew
      exact absurd (by simp) (hnew _ hclass')

theorem paths_iff (m : Method) {env : String → Binding} {elems : List (String × List String)}
    (henv : readFields env elems = argumentsFrom 1 elems)
    (hglobal : env "TableEntryDumper" = .global ↔
      "TableEntryDumper" ∉ elems.flatMap Prod.snd) :
    (∀ path ∈ m.paths env,
      path.map (fun env => readFields env elems) = some (argumentsFrom 1 elems)) ↔
        ∀ x ∈ elems.flatMap Prod.snd, x ∉ m.locals := by
  cases m with
  | get | getHandle =>
    rw [Method.paths, List.forall_mem_cons, List.forall_mem_singleton,
      dumpPath_iff henv hglobal, Method.locals, Option.map_some, henv]
    exact and_iff_right rfl
  | add | setDefault | mod | modInc | delete =>
    simp [Method.paths, Method.locals, henv]

theorem bindParams_eq_global_iff {params : List String} {x : String} :
    bindParams params x = .global ↔ x ∉ params := by
  unfold bindParams
  split_ifs with hx <;> simp [hx]

theorem isAlphanum_of_mem_properEndings {s : String} (h : s ∈ properEndings) :
    ∀ c ∈ s.toList, (c.isAlphanum || c == '_') = true := by
  simp only [properEndings, List.mem_cons, List.not_mem_nil, or_false] at h
  rcases h with rfl | rfl | rfl | rfl | rfl <;> simp

/-- Nothing that is appended to an identifier makes it another thing. -/
theorem isidentifier_of_mem_elems (hcompress : t.compressInput = false)
    (h : Separable ((m.keyFields t).keys ++ (m.dataFields data).keys) Dict.empty)
    (hident : ∀ name ∈ (m.keyFields t).keys ++ (m.dataFields data).keys, OfIdentifiers name) :
    ∀ x ∈ (m.elems t data).flatMap Prod.snd, isidentifier x = true := by
  intro x hx
  rw [elems_eq hcompress h, List.flatMap_map] at hx
  obtain ⟨f, hf, hx⟩ := List.mem_flatMap.mp hx
  obtain ⟨s, hs, rfl⟩ := List.mem_map.mp hx
  have hname : f.1 ∈ (m.keyFields t).keys ++ (m.dataFields data).keys := by
    have hfields : (m.fields t data).map Prod.fst =
        (m.keyFields t).keys ++ (m.dataFields data).keys := by
      simp [Method.fields, Dict.keys, Function.comp_def]
    rw [← hfields]
    exact List.mem_map_of_mem ((m.sorted_perm t data).subset hf)
  apply isidentifier_append (isidentifier_shortOf (hident f.1 hname) (one_le_settledDepth _ _))
  by_cases hempty : s = ""
  · simp [hempty]
  · exact isAlphanum_of_mem_properEndings (mem_properEndings_of_mem_sorted f hf s hs hempty)

/-- The parameters of a template are good ones. -/
theorem isParameter_fixed (m : Method) : ∀ x ∈ ["self"] ++ m.fixed, isParameter x = true := by
  cases m <;> decide +kernel

theorem compiles_iff (hcompress : t.compressInput = false)
    (hident : ∀ x ∈ (m.elems t data).flatMap Prod.snd, isidentifier x = true) :
    m.Compiles t data ↔ (m.params t data).Nodup ∧
      ∀ x ∈ (m.elems t data).flatMap Prod.snd, x ∉ reservedWords := by
  have hfixed := isParameter_fixed m
  rw [List.forall_mem_append] at hfixed
  rw [Method.Compiles, params_eq hcompress, List.forall_mem_append, List.forall_mem_append,
    and_iff_left hfixed.2, and_iff_right hfixed.1]
  exact and_congr_right' (forall₂_congr fun x hx => by rw [isParameter_iff,
    and_iff_right (hident x hx)])

theorem works_iff_nodup (hcompress : t.compressInput = false)
    (hident : ∀ x ∈ (m.elems t data).flatMap Prod.snd, isidentifier x = true) :
    m.Works t data ↔ ((m.elems t data).flatMap Prod.snd).Nodup ∧
      ∀ x ∈ (m.elems t data).flatMap Prod.snd, x ∉ m.reserved ++ reservedWords := by
  have hclass : "TableEntryDumper" ∉ ["self"] ++ m.fixed := by cases m <;> decide
  have hpaths : (m.params t data).Nodup ∧
      (∀ x ∈ (m.elems t data).flatMap Prod.snd, x ∉ reservedWords) →
      ((∀ path ∈ m.paths (bindParams (m.params t data)),
        path.map (fun env => readFields env (m.elems t data)) =
          some (argumentsFrom 1 (m.elems t data))) ↔
        ∀ x ∈ (m.elems t data).flatMap Prod.snd, x ∉ m.locals) := by
    intro ⟨hnodup, _⟩
    apply paths_iff
    · rw [readFields_eq_iff, params_eq hcompress]
      exact map_bindParams (params_eq hcompress ▸ hnodup)
    · rw [bindParams_eq_global_iff, params_eq hcompress, List.append_assoc, List.mem_append,
        List.mem_append, not_or, not_or]
      rw [List.mem_append, not_or] at hclass
      exact ⟨fun h => h.2.1, fun h => ⟨hclass.1, h, hclass.2⟩⟩
  have hsplit : ∀ x, x ∉ m.reserved ++ reservedWords ↔
      x ∉ ["self"] ++ m.fixed ∧ x ∉ reservedWords ∧ x ∉ m.locals := by
    intro x
    rw [List.mem_append, not_or, Method.reserved, List.mem_append, not_or]
    tauto
  rw [Method.Works, compiles_iff hcompress hident, and_congr_right_iff.mpr hpaths,
    params_eq hcompress, nodup_append_fixed]
  simp only [hsplit, forall_and, and_assoc]

end Works

/-- A method of a table whose input is not compressed, and whose fields are made of identifiers and
differ when their names are taken whole, works exactly when none of its fields clashes. -/
theorem works_iff_noClash (m : Method) (t : Table) (data : Dict DataField)
    (hcompress : t.compressInput = false)
    (hnames : ((t.keyFields.keys ++ data.keys).map fullName).Nodup)
    (hident : ∀ name ∈ t.keyFields.keys ++ data.keys, OfIdentifiers name)
    (hdepth : ∀ name ∈ t.keyFields.keys ++ data.keys, (components name).length ≤ 20) :
    m.Works t data ↔ m.NoClash t data := by
  have hsep : Separable (t.keyFields.keys ++ data.keys) Dict.empty := by
    refine ⟨hnames, ?_, hdepth⟩
    intro name _ hmem
    cases hmem
  have hident' : ∀ name ∈ (m.keyFields t).keys ++ (m.dataFields data).keys, OfIdentifiers name :=
    fun name hname => hident name ((keys_method_sublist m).subset hname)
  rw [works_iff_nodup hcompress
      (isidentifier_of_mem_elems hcompress (separable_method hsep m) hident'),
    noClash_iff hcompress (separable_method hsep m)]

/-- A ternary key that matches addresses, and the data that an address is rewritten to. -/
def addrTable : Table where
  keyFields := ⟨[("hdr.addr", ⟨1, .ternary⟩), ("meta.port", ⟨2, .range⟩)], by simp⟩
  dataFields := ⟨[("hdr.new_addr", ⟨1⟩)], by simp⟩

theorem works_iff_noClash_addrTable :
    Method.add.Works addrTable addrTable.dataFields ∧
      Method.get.Works addrTable addrTable.dataFields :=
  ⟨(works_iff_noClash .add addrTable addrTable.dataFields (by decide) (by decide +kernel)
      (by decide +kernel) (by decide +kernel)).mpr (by decide +kernel),
    (works_iff_noClash .get addrTable addrTable.dataFields (by decide) (by decide +kernel)
      (by decide +kernel) (by decide +kernel)).mpr (by decide +kernel)⟩

/-- A ternary key, and a key with the name of its mask. -/
def maskTable : Table where
  keyFields := ⟨[("hdr.addr", ⟨1, .ternary⟩), ("hdr.addr_mask", ⟨2, .exact⟩)], by simp⟩
  dataFields := Dict.empty

/-- A key whose short name is a word of the language. -/
def classTable : Table where
  keyFields := ⟨[("hdr.class", ⟨1, .exact⟩)], by simp⟩
  dataFields := Dict.empty

/-- The parameter of the second key is also that of the mask of the first one. -/
theorem not_works_maskTable :
    ¬∀ (m : Method) (t : Table) (data : Dict DataField), t.compressInput = false →
      ((t.keyFields.keys ++ data.keys).map fullName).Nodup →
      (∀ name ∈ t.keyFields.keys ++ data.keys, OfIdentifiers name) →
      (∀ name ∈ t.keyFields.keys ++ data.keys, (components name).length ≤ 20) →
      m.Works t data := by
  intro h
  have hworks := h .add maskTable maskTable.dataFields (by decide) (by decide +kernel)
    (by decide +kernel) (by decide +kernel)
  have hsep : Separable ((Method.add.keyFields maskTable).keys ++
      (Method.add.dataFields maskTable.dataFields).keys) Dict.empty :=
    ⟨by decide +kernel, by decide +kernel, by decide +kernel⟩
  have hident := isidentifier_of_mem_elems (by decide) hsep (by decide +kernel)
  have hclash := (noClash_iff (by decide) hsep).mpr
    ((works_iff_nodup (by decide) hident).mp hworks)
  exact absurd hclash (by decide +kernel)

-- a short name that Python keeps for itself
example : ¬Method.add.NoClash classTable classTable.dataFields := by decide +kernel

end Tdi.Cli.MethodParams

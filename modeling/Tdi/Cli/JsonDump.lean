import Tdi.Cli.Readd

/-!
# Adding a dump again

`dump_json` of the entries that `TableEntryDumper` was handed, as the text that
`add_from_json` is fed. Every entry is in the dump once, and both loops go through
the dump entry by entry, so a dump is added again exactly when each entry is.
-/
namespace Tdi.Cli

open Foundation

/-- The entries in the order of the dump. -/
def dumped (es : List Entry) : List Entry := (filed (dumper es)).map Prod.snd

/-- The calls that are made when the first one that is rejected is the last. -/
def untilRejected (accepts : AddCall → Bool) : List AddCall → List AddCall
  | [] => []
  | call :: calls => call :: if accepts call then untilRejected accepts calls else []

/-- The dump succeeds, and adding it calls `add_entry` for each entry of the dump. -/
def ReAdded (x : Externs) (t : Table) (es : List Entry) : Prop :=
  ∃ text calls, t.dumpJson x (dumper es) = .ok text ∧
    (∀ accepts, t.addFromJson x accepts text = .ok (untilRejected accepts calls)) ∧
    List.Forall₂ (SameEntry t) (dumped es) calls

theorem filed_foldl_perm (entries : Dict (List Entry)) (es : List Entry) :
    (filed (es.foldl (fun entries e =>
      entries.set e.actStr ((entries.get? e.actStr).getD [] ++ [e])) entries)).Perm
      (filed entries ++ es.map fun e => (e.actStr, e)) := by
  induction es generalizing entries with
  | nil => simp
  | cons e es ih =>
    have hset := Dict.flatMap_set_append_perm entries e.actStr e Prod.mk
    rw [List.foldl_cons, List.map_cons, List.append_cons (filed entries)]
    exact (ih _).trans (hset.append_right _)

/-- Every entry is filed once, under its own action. -/
theorem filed_dumper_perm (es : List Entry) :
    (filed (dumper es)).Perm (es.map fun e => (e.actStr, e)) :=
  filed_foldl_perm .empty es

theorem mem_filed_iff {es : List Entry} {p : String × Entry} :
    p ∈ filed (dumper es) ↔ p.2 ∈ es ∧ p.1 = p.2.actStr := by
  obtain ⟨text, e⟩ := p
  rw [(filed_dumper_perm es).mem_iff]
  simp only [List.mem_map, Prod.mk.injEq]
  constructor
  · rintro ⟨e', he', rfl, rfl⟩
    exact ⟨he', rfl⟩
  · rintro ⟨he, rfl⟩
    exact ⟨e, he, rfl, rfl⟩

/-- A dump has the entries that were handed to the dumper, in the order of their actions. -/
theorem dumped_perm (es : List Entry) : (dumped es).Perm es := by
  have hperm := (filed_dumper_perm es).map Prod.snd
  rwa [List.map_map, show (Prod.snd ∘ fun e : Entry => (e.actStr, e)) = id from rfl,
    List.map_id] at hperm

theorem untilRejected_all (calls : List AddCall) : untilRejected (fun _ => true) calls = calls := by
  induction calls with
  | nil => rfl
  | cons call calls ih => simp [untilRejected, ih]

namespace Table

variable {x : Externs} {t : Table}

theorem dumpJson_eq_ok_iff {entries : Dict (List Entry)} {text : String} :
    t.dumpJson x entries = .ok text ↔
      ∃ objs raws, List.Forall₂ (fun p obj => t.entryObj p = .ok obj) (filed entries) objs ∧
        List.Forall₂ (fun e raw => t.rawEntry x e.keyContent e.dataContent e.action = .ok raw)
          objs raws ∧ text = dumps (.list raws) := by
  simp only [← mapM_eq_ok_iff]
  unfold dumpJson
  simp only [bind_eq_ok_iff]
  constructor
  · rintro ⟨objs, hobjs, raws, hraws, htext⟩
    exact ⟨objs, raws, hobjs, hraws, (Except.ok.inj htext).symm⟩
  · rintro ⟨objs, raws, hobjs, hraws, rfl⟩
    exact ⟨objs, hobjs, raws, hraws, rfl⟩

theorem addFromJson_dumps (accepts : AddCall → Bool) (raws : List Value) :
    t.addFromJson x accepts (dumps (.list raws)) =
      .ok (t.addEntries x accepts (raws.map Value.viaJson)) := by
  simp [addFromJson, loads_dumps, Value.iterate, bind_ok]

theorem addEntries_of_forall₂ {ents : List Value} {calls : List AddCall}
    (h : List.Forall₂ (fun ent call => t.parseEntry x ent = .ok call) ents calls)
    (accepts : AddCall → Bool) :
    t.addEntries x accepts ents = untilRejected accepts calls := by
  induction h with
  | nil => rfl
  | cons hparse _ ih => simp only [addEntries, untilRejected, hparse, ih]

/-- As many calls as entries are made only if every entry parses. -/
theorem forall₂_of_addEntries {accepts : AddCall → Bool} {ents : List Value}
    (h : (t.addEntries x accepts ents).length = ents.length) :
    List.Forall₂ (fun ent call => t.parseEntry x ent = .ok call) ents
      (t.addEntries x accepts ents) := by
  induction ents with
  | nil => exact .nil
  | cons ent ents ih =>
    cases hparse : t.parseEntry x ent with
    | error stop => simp [addEntries, hparse] at h
    | ok call =>
      cases haccepts : accepts call with
      | false =>
        cases ents with
        | nil => simp [addEntries, hparse]
        | cons ent' ents => simp [addEntries, hparse, haccepts] at h
      | true =>
        simp only [addEntries, hparse, haccepts, if_true, List.length_cons,
          Nat.add_right_cancel_iff] at h ⊢
        exact .cons hparse (ih h)

/-- The loops of the dump and of `add_from_json`, entry by entry. -/
theorem reAdded_iff_exists {es : List Entry} :
    ReAdded x t es ↔
      ∃ objs raws calls,
        List.Forall₂ (fun p obj => t.entryObj p = .ok obj) (filed (dumper es)) objs ∧
        List.Forall₂ (fun e raw => t.rawEntry x e.keyContent e.dataContent e.action = .ok raw)
          objs raws ∧
        List.Forall₂ (fun raw call => t.parseEntry x raw.viaJson = .ok call) raws calls ∧
        List.Forall₂ (fun p call => SameEntry t p.2 call) (filed (dumper es)) calls := by
  constructor
  · rintro ⟨text, calls, htext, hadd, hsame⟩
    obtain ⟨objs, raws, hobjs, hraws, rfl⟩ := dumpJson_eq_ok_iff.mp htext
    rw [dumped, List.forall₂_map_left_iff] at hsame
    have hcalls : t.addEntries x (fun _ => true) (raws.map Value.viaJson) = calls := by
      have hall := hadd fun _ => true
      rw [addFromJson_dumps, untilRejected_all] at hall
      exact Except.ok.inj hall
    have hlength : calls.length = (raws.map Value.viaJson).length := by
      rw [List.length_map, ← hraws.length_eq, ← hobjs.length_eq, hsame.length_eq]
    have hparse := forall₂_of_addEntries (hcalls ▸ hlength)
    rw [hcalls, List.forall₂_map_left_iff] at hparse
    exact ⟨objs, raws, calls, hobjs, hraws, hparse, hsame⟩
  · rintro ⟨objs, raws, calls, hobjs, hraws, hparse, hsame⟩
    have hdump := dumpJson_eq_ok_iff.mpr ⟨objs, raws, hobjs, hraws, rfl⟩
    refine ⟨dumps (.list raws), calls, hdump, ?_, ?_⟩
    · intro accepts
      rw [addFromJson_dumps, addEntries_of_forall₂ (List.forall₂_map_left_iff.mpr hparse)]
    · rwa [dumped, List.forall₂_map_left_iff]

theorem kept_of_reAdded {es : List Entry} (h : ReAdded x t es) {e : Entry} (he : e ∈ es)
    (hread : e.ReadBack t) : e.Kept t :=
  (dumped_iff hread).mp
    (exists_forall₂_iff.mp (reAdded_iff_exists.mp h) (e.actStr, e) (mem_filed_iff.mpr ⟨he, rfl⟩))

/-- A dump is added again unchanged exactly when every entry in it is kept. -/
theorem reAdded_iff {es : List Entry} (hread : ∀ e ∈ es, e.ReadBack t) :
    ReAdded x t es ↔ ∀ e ∈ es, e.Kept t := by
  constructor
  · exact fun h e he => kept_of_reAdded h he (hread e he)
  · intro h
    rw [reAdded_iff_exists, exists_forall₂_iff]
    rintro ⟨text, e⟩ hp
    obtain ⟨he, htext⟩ := mem_filed_iff.mp hp
    obtain rfl : text = e.actStr := htext
    exact (dumped_iff (hread e he)).mpr (h e he)

end Table

section Lags

/-- Nothing here is read as an address, and no sequence is shown. -/
def noExterns : Externs := ⟨fun _ => none, fun _ => none, fun _ => ""⟩

def lagName : Field where
  name := "name"
  size := 0
  readOnly := false
  required := true
  category := .key
  matchType := .exact
  dataType := .string
  annotations := []
  tableType := "MATCH_DIRECT"
  contDataFields := []

def lagPort : Field :=
  { lagName with name := "port", size := 9, category := .data, matchType := .notImplemented,
                 dataType := .uint64 }

def lagMembers : Field :=
  { lagPort with name := "members", size := 0, dataType := .strArr }

/-- A table with a named entry for each group of ports. -/
def lagTable : Table where
  name := "lag"
  keyFields := ⟨[("name", lagName)], by simp⟩
  dataFields := ⟨[("port", lagPort), ("members", lagMembers)], by simp⟩
  actions := .empty
  keyFields_key := by simp [lagName]
  dataFields_data := by simp [lagPort, lagMembers]
  actions_data := by simp [Dict.empty]

def lag (name : String) (data : List (String × Value)) (h : (data.map Prod.fst).Nodup) : Entry :=
  ⟨⟨[("name", .str name)], by simp⟩, ⟨data, h⟩, none⟩

theorem lag_readBack {name : String} (hname : IsAscii name) {data : List (String × Value)}
    {h : (data.map Prod.fst).Nodup}
    (hdata : ∀ p ∈ data, IsAscii p.1 ∧
      ∃ f, lagTable.dataFields.get? p.1 = some f ∧ DataReadBack f p.2) :
    (lag name data h).ReadBack lagTable where
  keys := rfl
  keyContent := by
    intro p hp
    obtain rfl := List.mem_singleton.mp hp
    exact ⟨by simp [IsAscii], lagName, rfl, .exactString rfl rfl hname⟩
  dataContent := ⟨lagTable.dataFields, rfl, hdata⟩

def portLag : Entry := lag "uplink" [("port", .int 300)] (by simp)

theorem portLag_readBack : portLag.ReadBack lagTable :=
  lag_readBack (by simp [IsAscii]) (by
    intro p hp
    obtain rfl := List.mem_singleton.mp hp
    exact ⟨by simp [IsAscii], lagPort, rfl, .uint64 rfl ⟨by decide, by decide⟩⟩)

theorem portLag_kept : portLag.Kept lagTable where
  action := nofun
  keys := by
    intro p hp f hf _
    obtain rfl := List.mem_singleton.mp hp
    cases hf
    refine .inr (.inr ⟨rfl, ?_⟩)
    rintro s hs
    cases hs
    exact .inl (by decide)
  data := by
    intro p hp fields f hfields hf _ hd
    obtain rfl := List.mem_singleton.mp hp
    cases hfields
    cases hf
    cases hd

theorem reAdded_portLag : ReAdded noExterns lagTable [portLag] :=
  (Table.reAdded_iff (by simpa using portLag_readBack)).mpr (by simpa using portLag_kept)

def membersLag : Entry := lag "uplink" [("members", .list [.str "a"])] (by simp)

theorem membersLag_readBack : membersLag.ReadBack lagTable :=
  lag_readBack (by simp [IsAscii]) (by
    intro p hp
    obtain rfl := List.mem_singleton.mp hp
    have he : ∀ s ∈ ["a"], IsAscii s := by simp [IsAscii]
    exact ⟨by simp [IsAscii], lagMembers, rfl, .strArr rfl he⟩)

theorem membersLag_not_kept : ¬ membersLag.Kept lagTable := by
  intro hkept
  have hlost := hkept.data ("members", .list [.str "a"]) (by simp [membersLag, lag])
    lagTable.dataFields lagMembers rfl rfl rfl rfl
  simp [errorLetters] at hlost

def numberLag : Entry := lag "007" [] (by simp)

theorem numberLag_readBack : numberLag.ReadBack lagTable :=
  lag_readBack (by simp [IsAscii]) (by simp)

theorem numberLag_not_kept : ¬ numberLag.Kept lagTable := by
  intro hkept
  have hkey := hkept.keys ("name", .str "007") (by simp [numberLag, lag]) lagName rfl rfl
  rcases hkey with hu | hb | ⟨-, hnumber⟩
  · cases hu
  · cases hb
  · have hint : intOfString "007" = some 7 := by decide
    rcases hnumber "007" rfl with hnone | ⟨i, hi⟩
    · rw [hint] at hnone
      cases hnone
    · rw [hi, intOfString_toString] at hint
      rw [Option.some.inj hint] at hi
      exact absurd hi (by decide)

/-- An array of strings is lost, and a string key that reads as a number is rewritten. -/
theorem lags_not_reAdded :
    (membersLag.ReadBack lagTable ∧ ¬ ReAdded noExterns lagTable [membersLag]) ∧
      numberLag.ReadBack lagTable ∧ ¬ ReAdded noExterns lagTable [numberLag] := by
  refine ⟨⟨membersLag_readBack, ?_⟩, numberLag_readBack, ?_⟩
  · exact fun hadded =>
      membersLag_not_kept (Table.kept_of_reAdded hadded (by simp) membersLag_readBack)
  · exact fun hadded =>
      numberLag_not_kept (Table.kept_of_reAdded hadded (by simp) numberLag_readBack)

end Lags
end Tdi.Cli

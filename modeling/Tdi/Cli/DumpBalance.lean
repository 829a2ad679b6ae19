import Tdi.Cli.Dump

/-!
# The handles of the CLI

Whether every object that `add_entry`, `mod_entry` and `dump` obtain is freed once,
and not used afterwards, comes down to which steps fail. None of them frees an
object on the way of an exception, and no step of `dump` frees its flags.
-/
namespace Tdi.Cli

open Foundation HandleEvent

namespace TableCli

variable (c : TableCli)

theorem allocateKeydataHandles_of_success {i : ℕ} (hkey : c.driver.keyAllocate i = .success)
    (hdata : c.driver.dataAllocate none i = .success) :
    c.allocateKeydataHandles i =
      ⟨.ok (⟨.key, i⟩, ⟨.data, i⟩), [obtained ⟨.key, i⟩, obtained ⟨.data, i⟩]⟩ := by
  simp [allocateKeydataHandles, hkey, hdata, pure]

theorem eq_of_getFirst {printEnts : Bool} {first : Handle × Handle}
    (h : (c.getFirst printEnts).result = .ok (some first)) :
    first = (⟨.key, 0⟩, ⟨.data, 0⟩) := by
  obtain ⟨⟨keyHandle, dataHandle⟩, hallocated, h⟩ := Traced.of_result_bind h
  obtain ⟨-, -, h⟩ := Traced.of_result_bind h
  obtain ⟨-, -, h⟩ := Traced.of_result_bind h
  obtain ⟨-, -, h⟩ := Traced.of_result_bind h
  obtain ⟨-, -, h⟩ := Traced.of_result_bind h
  split_ifs at h <;> cases h
  unfold allocateKeydataHandles at hallocated
  split_ifs at hallocated <;> simp [Traced.raise, pure] at hallocated
  rw [← hallocated.1, ← hallocated.2]

/-- Without flags in hand, the key and the data are what is held after `get_first`. -/
theorem getFirst_cases (printEnts : Bool) :
    (c.driver.keyAllocate 0 ≠ .success ∧ ∃ e, c.getFirst printEnts = ⟨.error e, []⟩) ∨
    c.driver.keyAllocate 0 = .success ∧
      ((c.driver.dataAllocate none 0 ≠ .success ∧
          ∃ e, c.getFirst printEnts = ⟨.error e, [obtained ⟨.key, 0⟩]⟩) ∨
        c.driver.dataAllocate none 0 = .success ∧
          ((c.driver.flagsCreate 0 0 = .success ∧
              obtained ⟨.flags, 0⟩ ∈ (c.getFirst printEnts).events) ∨
            c.driver.flagsCreate 0 0 ≠ .success ∧
              Holding [⟨.key, 0⟩, ⟨.data, 0⟩] (c.getFirst printEnts).events ∧
              ((∃ first, (c.getFirst printEnts).result = .ok (some first)) ↔
                (∃ v, c.flagMap = .ok v) ∧ c.driver.entryGetFirst = .success))) := by
  by_cases hkey : c.driver.keyAllocate 0 = .success
  · refine .inr ⟨hkey, ?_⟩
    by_cases hdata : c.driver.dataAllocate none 0 = .success
    · refine .inr ⟨hdata, ?_⟩
      have hallocated := c.allocateKeydataHandles_of_success hkey hdata
      by_cases hcreate : c.driver.flagsCreate 0 0 = .success
      · exact .inl ⟨hcreate, by simp [getFirst, hallocated, hcreate]⟩
      · refine .inr ⟨hcreate, ⟨c.getFirst_no_release printEnts, ?_⟩, ?_⟩
        · intro h
          rcases hmap : c.flagMap with e | v
          · simp [getFirst, hallocated, hcreate, hmap, Traced.raise]
          · by_cases hempty : c.driver.entryGetFirst = .objectNotFound ∧ printEnts <;>
              by_cases hfirst : c.driver.entryGetFirst = .success <;>
              simp [getFirst, hallocated, hcreate, hmap, hempty, hfirst, pure, Traced.raise]
        · rcases hmap : c.flagMap with e | v
          · simp [getFirst, hallocated, hcreate, hmap, Traced.raise]
          · by_cases hfirst : c.driver.entryGetFirst = .success
            · simp [getFirst, hallocated, hcreate, hmap, hfirst, pure]
            · by_cases hempty : c.driver.entryGetFirst = .objectNotFound ∧ printEnts <;>
                simp [getFirst, hallocated, hcreate, hmap, hempty, hfirst, pure, Traced.raise]
    · refine .inl ⟨hdata, .dataAllocate (c.driver.dataAllocate none 0), ?_⟩
      simp [getFirst, allocateKeydataHandles, hkey, hdata]
      rfl
  · refine .inl ⟨hkey, .keyAllocate (c.driver.keyAllocate 0), ?_⟩
    simp [getFirst, allocateKeydataHandles, hkey]
    rfl

/-- What the handler is told of the actions of the first entry. -/
def firstActionIds : List ℤ :=
  if c.table.actions.entries.length > 0 then [c.actionFromData ⟨.data, 0⟩] else []

theorem result_actionIds : (c.actionIds [⟨.data, 0⟩]).result = .ok c.firstActionIds := by
  unfold actionIds firstActionIds
  split_ifs <;> rfl

/-- `dump` does nothing, or it gets no key object, or the table has one entry, which is read without
flags and without batches, and the handler returns. -/
def DumpCompletes (handler : EntryHandler) : Prop :=
  "get_first" ∉ c.table.supportedCommands ∨ c.driver.keyAllocate 0 ≠ .success ∨
    c.driver.dataAllocate none 0 = .success ∧ c.driver.flagsCreate 0 0 ≠ .success ∧
      (∃ v, c.flagMap = .ok v) ∧ c.driver.entryGetFirst = .success ∧
      "get_next_n" ∉ c.table.supportedCommands ∧
      handler.raises [⟨.key, 0⟩] [⟨.data, 0⟩] c.firstActionIds = none

section Balance

variable (handler : EntryHandler) {printEnts : Bool} (rounds : ℕ)

theorem events_dump_of_no_first (hsupported : "get_first" ∈ c.table.supportedCommands)
    (hfirst : ∀ first, (c.getFirst printEnts).result ≠ .ok (some first)) :
    (c.dump handler printEnts rounds).events = (c.getFirst printEnts).events := by
  rw [dump, if_neg (not_not.mpr hsupported)]
  rcases hresult : (c.getFirst printEnts).result with e | _ | first
  · rw [Traced.bind_of_error hresult]
  · rw [Traced.bind_of_ok hresult]
    simp [pure]
  · exact absurd hresult (hfirst first)

theorem dump_of_first (hsupported : "get_first" ∈ c.table.supportedCommands)
    {first : Handle × Handle} (hfirst : (c.getFirst printEnts).result = .ok (some first)) :
    c.dump handler printEnts rounds =
      ⟨(c.dumpLoop handler rounds (.start ⟨.key, 0⟩ ⟨.data, 0⟩)).result,
        (c.getFirst printEnts).events ++
          (c.dumpLoop handler rounds (.start ⟨.key, 0⟩ ⟨.data, 0⟩)).events⟩ := by
  rw [dump, if_neg (not_not.mpr hsupported), Traced.bind_of_ok hfirst, c.eq_of_getFirst hfirst]

theorem dump_keepsFlags : ∀ e ∈ (c.dump handler printEnts rounds).events, KeepsFlags e := by
  unfold dump
  split_ifs
  · refine Traced.forall_events_bind
      (fun e he => keepsFlags_of_not_isRelease (c.getFirst_no_release _ e he)) ?_
    rintro (_ | first) hfirst
    · exact nofun
    · rw [c.eq_of_getFirst hfirst]
      exact c.dumpLoop_keepsFlags handler rounds kinds_start
  · exact nofun

/-- A flags object is leaked as soon as it is there. -/
theorem not_balanced_dump_of_flags {i : ℕ}
    (h : obtained ⟨.flags, i⟩ ∈ (c.dump handler printEnts rounds).events) :
    ¬ Balanced (c.dump handler printEnts rounds).events :=
  not_balanced_of_leak h fun hreleased => c.dump_keepsFlags handler rounds _ hreleased i rfl

theorem mem_events_dumpLoop {st : DumpState} {e : HandleEvent Handle}
    (h : e ∈ (c.getNext st.prevKeyHdl (20 - st.keyHdls.length) st.allocated st.batches).events) :
    e ∈ (c.dumpLoop handler (rounds + 1) st).events :=
  Traced.mem_events_bind (Traced.mem_events_bind h _) _

theorem events_dumpLoop_of_no_batch {st : DumpState}
    (h : ∀ batch, (c.getNext st.prevKeyHdl (20 - st.keyHdls.length)
      st.allocated st.batches).result ≠ .ok (some batch)) :
    (c.dumpLoop handler (rounds + 1) st).events =
      (c.getNext st.prevKeyHdl (20 - st.keyHdls.length) st.allocated st.batches).events := by
  rw [dumpLoop, dumpRound]
  rcases hresult : (c.getNext st.prevKeyHdl (20 - st.keyHdls.length)
    st.allocated st.batches).result with e | _ | batch
  · rw [Traced.bind_of_error hresult, Traced.error_bind]
  · rw [Traced.bind_of_ok hresult]
    simp [Traced.raise, bind, Traced.andThen]
  · exact absurd hresult (h batch)

/-- A dump without batches is over after one round, in which the one entry is freed unless the
handler raises. -/
theorem dumpRound_of_unsupported (hsupported : "get_next_n" ∉ c.table.supportedCommands) :
    ∃ work, (∀ e ∈ work, ∃ h, e = passed h) ∧
      ((handler.raises [⟨.key, 0⟩] [⟨.data, 0⟩] c.firstActionIds ≠ none ∧
          ∃ e, c.dumpRound handler (.start ⟨.key, 0⟩ ⟨.data, 0⟩) = ⟨.error e, work⟩) ∨
        handler.raises [⟨.key, 0⟩] [⟨.data, 0⟩] c.firstActionIds = none ∧
          c.dumpRound handler (.start ⟨.key, 0⟩ ⟨.data, 0⟩) =
            ⟨.ok none, work ++ [⟨.data, 0⟩, ⟨.key, 0⟩].map released⟩) := by
  refine ⟨(c.actionIds [⟨.data, 0⟩]).events ++
    (handler.reads [⟨.key, 0⟩] [⟨.data, 0⟩] c.firstActionIds).map passed, ?_, ?_⟩
  · rw [List.forall_mem_append]
    constructor
    · unfold actionIds
      split_ifs <;> simp [Traced.emit, pure, bind, Traced.andThen]
    · simp
  have hround : c.dumpRound handler (.start ⟨.key, 0⟩ ⟨.data, 0⟩) =
      c.handleBatch handler (.start ⟨.key, 0⟩ ⟨.data, 0⟩) 19 [⟨.key, 0⟩] [⟨.data, 0⟩] := by
    simp [dumpRound, c.getNext_of_unsupported hsupported, DumpState.start]
  rw [hround]
  cases hraises : handler.raises [⟨.key, 0⟩] [⟨.data, 0⟩] c.firstActionIds with
  | none =>
    refine .inr ⟨rfl, ?_⟩
    simp [handleBatch, Traced.bind_of_ok c.result_actionIds, EntryHandler.handle, hraises,
      deallocateHdls, pure]
  | some e =>
    refine .inl ⟨Option.some_ne_none e, e, ?_⟩
    simp [handleBatch, Traced.bind_of_ok c.result_actionIds, EntryHandler.handle, hraises,
      Traced.raise]

/-- With batches, the flags of the first one are leaked, or the first key is. -/
theorem not_balanced_dump_of_batches (hsupported : "get_first" ∈ c.table.supportedCommands)
    (hbatches : "get_next_n" ∈ c.table.supportedCommands)
    {first : Handle × Handle} (hfirst : (c.getFirst printEnts).result = .ok (some first))
    (hheld : Holding [⟨.key, 0⟩, ⟨.data, 0⟩] (c.getFirst printEnts).events) :
    ¬ Balanced (c.dump handler printEnts (rounds + 1)).events := by
  have hdump := congrArg Traced.events
    (c.dump_of_first handler (rounds + 1) hsupported hfirst)
  by_cases hbatch : ∃ batch,
      (c.getNext ⟨.key, 0⟩ (20 - 1) 1 0).result = .ok (some batch)
  · obtain ⟨batch, hbatch⟩ := hbatch
    refine c.not_balanced_dump_of_flags handler _ (i := 0 + 1) ?_
    rw [hdump]
    apply List.mem_append_right
    exact c.mem_events_dumpLoop handler rounds (c.getNext_flags hbatches hbatch)
  · push Not at hbatch
    rw [hdump, c.events_dumpLoop_of_no_batch handler rounds hbatch]
    refine not_balanced_of_leak (h := ⟨.key, 0⟩) ?_ fun hreleased => ?_
    · exact List.mem_append_left _ ((hheld.obtained_iff _).mpr (by simp))
    · rcases List.mem_append.mp hreleased with hreleased | hreleased
      · exact hheld.no_release _ hreleased trivial
      · exact c.getNext_no_release _ _ _ _ _ hreleased trivial

/-- Without batches, the first entry is freed if the handler returns. -/
theorem balanced_dump_of_no_batches (hsupported : "get_first" ∈ c.table.supportedCommands)
    (hbatches : "get_next_n" ∉ c.table.supportedCommands)
    {first : Handle × Handle} (hfirst : (c.getFirst printEnts).result = .ok (some first))
    (hheld : Holding [⟨.key, 0⟩, ⟨.data, 0⟩] (c.getFirst printEnts).events) :
    Balanced (c.dump handler printEnts (rounds + 1)).events ↔
      handler.raises [⟨.key, 0⟩] [⟨.data, 0⟩] c.firstActionIds = none := by
  have hnodup : [(⟨.data, 0⟩ : Handle), ⟨.key, 0⟩].Nodup := by decide
  have hdump := congrArg Traced.events
    (c.dump_of_first handler (rounds + 1) hsupported hfirst)
  obtain ⟨work, hwork, ⟨hraises, e, hround⟩ | ⟨hraises, hround⟩⟩ :=
    c.dumpRound_of_unsupported handler hbatches
  · have hevents : (c.dump handler printEnts (rounds + 1)).events =
        (c.getFirst printEnts).events ++ work := by
      simp [hdump, dumpLoop, hround]
    rw [hevents, (hheld.append_passed hwork).balanced_iff]
    exact ⟨nofun, fun h => absurd h hraises⟩
  · have hevents : (c.dump handler printEnts (rounds + 1)).events =
        ((c.getFirst printEnts).events ++ work) ++ [⟨.data, 0⟩, ⟨.key, 0⟩].map released := by
      simp [hdump, dumpLoop, hround, pure]
    rw [hevents, (hheld.append_passed hwork).balanced_append_released_iff hnodup]
    exact ⟨fun _ => hraises, fun _ => by simp⟩

theorem balanced_dump_iff (hdone : (c.dump handler printEnts rounds).result ≠ .ok none) :
    Balanced (c.dump handler printEnts rounds).events ↔ c.DumpCompletes handler := by
  by_cases hsupported : "get_first" ∈ c.table.supportedCommands
  swap
  · have hevents : (c.dump handler printEnts rounds).events = [] := by
      rw [dump, if_pos hsupported]
      rfl
    rw [hevents, Holding.nil.balanced_iff]
    exact ⟨fun _ => .inl hsupported, fun _ => rfl⟩
  rcases c.getFirst_cases printEnts with
    ⟨hnokey, e, hfirst⟩ | ⟨hkey, ⟨hnodata, e, hfirst⟩ | ⟨hdata, ⟨hcreate, hflags⟩ |
      ⟨hnoflags, hheld, hreturned⟩⟩⟩
  · have hevents := c.events_dump_of_no_first handler rounds hsupported
      (by simp [hfirst] : ∀ first, (c.getFirst printEnts).result ≠ .ok (some first))
    rw [hevents, hfirst, Holding.nil.balanced_iff]
    exact ⟨fun _ => .inr (.inl hnokey), fun _ => rfl⟩
  · have hevents := c.events_dump_of_no_first handler rounds hsupported
      (by simp [hfirst] : ∀ first, (c.getFirst printEnts).result ≠ .ok (some first))
    rw [hevents, hfirst, (Holding.obtain _).balanced_iff]
    simp [DumpCompletes, hsupported, hkey, hnodata]
  · refine iff_of_false (c.not_balanced_dump_of_flags handler _ (i := 0) ?_) ?_
    · rw [dump, if_neg (not_not.mpr hsupported)]
      exact Traced.mem_events_bind hflags _
    · simp [DumpCompletes, hsupported, hkey, hcreate]
  · by_cases hfirst : ∃ first, (c.getFirst printEnts).result = .ok (some first)
    · obtain ⟨hmap, hgot⟩ := hreturned.mp hfirst
      obtain ⟨first, hfirst⟩ := hfirst
      cases rounds with
      | zero =>
        rw [c.dump_of_first handler 0 hsupported hfirst] at hdone
        exact absurd rfl hdone
      | succ rounds =>
        by_cases hbatches : "get_next_n" ∈ c.table.supportedCommands
        · have hleaked := c.not_balanced_dump_of_batches handler rounds hsupported hbatches
            hfirst hheld
          apply iff_of_false hleaked
          simp [DumpCompletes, hsupported, hkey, hbatches]
        · rw [c.balanced_dump_of_no_batches handler rounds hsupported hbatches hfirst hheld]
          simp [DumpCompletes, hsupported, hkey, hdata, hnoflags, hmap, hgot, hbatches]
    · have hnot := mt hreturned.mpr hfirst
      push Not at hfirst
      rw [c.events_dump_of_no_first handler rounds hsupported hfirst, hheld.balanced_iff]
      refine iff_of_false nofun ?_
      rintro (h | h | ⟨-, -, hmap, hgot, -⟩)
      · exact h hsupported
      · exact h hkey
      · exact hnot ⟨hmap, hgot⟩

end Balance

section Returns

variable (handler : EntryHandler)

/-- The loop goes on only after a full batch. -/
theorem of_dumpRound {st st' : DumpState}
    (h : (c.dumpRound handler st).result = .ok (some st')) :
    st'.keyHdls = [] ∧ st'.batches = st.batches + 1 ∧
      20 ≤ st.keyHdls.length + (c.driver.entryGetNextN st.batches).2 := by
  obtain ⟨_ | ⟨nextKeyHdls, nextDataHdls⟩, hnext, h⟩ := Traced.of_result_bind h
  · cases h
  have hlength : nextKeyHdls.length ≤ (c.driver.entryGetNextN st.batches).2 := by
    by_cases hsupported : "get_next_n" ∈ c.table.supportedCommands
    · rw [getNext, if_neg (not_not.mpr hsupported)] at hnext
      obtain ⟨hdls, -, hnext⟩ := Traced.of_result_bind hnext
      cases c.eq_take_of_getBatch hnext
      exact List.length_take_le _ _
    · rw [c.getNext_of_unsupported hsupported] at hnext
      cases hnext
      exact Nat.zero_le _
  simp only [handleBatch] at h
  split at h
  · cases h
  obtain ⟨_, -, h⟩ := Traced.of_result_bind h
  obtain ⟨_, -, h⟩ := Traced.of_result_bind h
  obtain ⟨_, -, h⟩ := Traced.of_result_bind h
  split at h
  · cases h
  next hfull =>
    cases h
    rw [List.length_append] at hfull
    exact ⟨rfl, rfl, by omega⟩

theorem dumpLoop_returns {last : ℕ} (hlast : (c.driver.entryGetNextN last).2 < 19) (n : ℕ)
    {st : DumpState} (hkeys : st.keyHdls.length ≤ 1) (hn : st.batches + n = last) :
    (c.dumpLoop handler (n + 1) st).result ≠ .ok none := by
  induction n generalizing st with
  | zero =>
    intro h
    obtain ⟨_ | st', hround, h⟩ := Traced.of_result_bind h
    · cases h
    · obtain ⟨-, -, hfull⟩ := c.of_dumpRound handler hround
      rw [show st.batches = last by omega] at hfull
      omega
  | succ n ih =>
    intro h
    obtain ⟨_ | st', hround, h⟩ := Traced.of_result_bind h
    · cases h
    · obtain ⟨hempty, hbatches, -⟩ := c.of_dumpRound handler hround
      exact ih (by simp [hempty]) (by omega) h

/-- A dump is over when the driver returns a batch that is not full. -/
theorem dump_returns (printEnts : Bool) {last : ℕ}
    (hlast : (c.driver.entryGetNextN last).2 < 19) :
    (c.dump handler printEnts (last + 1)).result ≠ .ok none := by
  unfold dump
  split_ifs
  · intro h
    obtain ⟨_ | first, -, h⟩ := Traced.of_result_bind h
    · cases h
    · exact c.dumpLoop_returns handler hlast last le_rfl (Nat.zero_add last) h
  · nofun

end Returns

/-- Every object is freed once, and not used afterwards: by `add_entry` and `mod_entry` exactly
when no step after the allocation of the key raises, by `dump` only when it has next to
nothing to do. -/
theorem handles_balanced_iff :
    (∀ keyContent dataContent action,
      Balanced (c.addEntry keyContent dataContent action).events ↔
        c.AddModCompletes keyContent dataContent action 0) ∧
    (∀ keyContent dataContent action ttlReset,
      Balanced (c.modEntry keyContent dataContent action ttlReset).events ↔
        c.AddModCompletes keyContent dataContent action (if ttlReset then 0 else 1 <<< 2)) ∧
    ∀ handler printEnts rounds, (c.dump handler printEnts rounds).result ≠ .ok none →
      (Balanced (c.dump handler printEnts rounds).events ↔ c.DumpCompletes handler) := by
  refine ⟨fun keyContent dataContent action => ?_, fun keyContent dataContent action ttlReset => ?_,
    fun handler printEnts rounds hdone => c.balanced_dump_iff handler rounds hdone⟩
  · rw [c.events_addEntry]
    exact c.balanced_callAddMod_iff keyContent dataContent action _ 0
  · rw [c.events_modEntry]
    exact c.balanced_callAddMod_iff keyContent dataContent action _ _

end TableCli

/-- A driver without failures, whose tables have one entry. -/
def obligingDriver : Driver where
  keyAllocate _ := .success
  dataAllocate _ _ := .success
  flagsCreate _ _ := .success
  keyFieldSet _ _ := .success
  dataFieldSet _ _ := .success
  entryAdd := .success
  entryMod := .success
  entryGetFirst := .success
  entryGetNextN _ := (.objectNotFound, 0)
  dataActionId _ := (.success, 1)

def vlanTable : TdiTable where
  keyFields := ⟨[("vlan", ⟨12, false, .exact, .uint64⟩)], by simp⟩
  dataFields := ⟨[], by simp⟩
  actions := ⟨[], by simp⟩
  supportedCommands := ["add", "get_first", "get_next_n"]
  flagsRevDict := ⟨[("from_hw", 0)], by simp⟩

def silentHandler : EntryHandler := ⟨fun _ _ _ => [], fun _ _ _ => none, by simp⟩

def vlanCli : TableCli := ⟨obligingDriver, vlanTable, fun _ => ""⟩

theorem vlanCli_dump_balanced_iff :
    Balanced (vlanCli.dump silentHandler true 1).events ↔ vlanCli.DumpCompletes silentHandler :=
  vlanCli.handles_balanced_iff.2.2 silentHandler true 1
    (vlanCli.dump_returns silentHandler true (by decide : (0, 0).2 < 19))

/-- The key is leaked by an entry whose key is not a number, and the flags by a dump without any
failure. -/
theorem vlanCli_leaks :
    ¬ Balanced (vlanCli.addEntry ⟨[("vlan", .str "ten")], by simp⟩ ⟨[], by simp⟩ none).events ∧
    ¬ Balanced (vlanCli.dump silentHandler true 1).events := by
  constructor
  · refine not_balanced_of_leak (h := ⟨.key, 0⟩) ?_ ?_ <;> decide
  · refine not_balanced_of_leak (h := ⟨.flags, 0⟩) ?_ ?_ <;> decide

end Tdi.Cli

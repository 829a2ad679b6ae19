import Tdi.Cli.Handles

/-!
# Dumping a table

`dump` reads the first entry, then batches of the following ones, each from the
key of the last entry before it, until a batch is not full. It hands the key and
data objects of a batch to a handler and frees them, but for the last key.
-/
namespace Tdi.Cli

open Foundation HandleEvent

/-- What is done with the entries of a batch: some of the objects are read, which may raise. -/
structure EntryHandler where
  reads : List Handle → List Handle → List ℤ → List Handle
  raises : List Handle → List Handle → List ℤ → Option Failure
  reads_given : ∀ keyHdls dataHdls actionIds, ∀ h ∈ reads keyHdls dataHdls actionIds,
    h ∈ keyHdls ∨ h ∈ dataHdls

def EntryHandler.handle (handler : EntryHandler) (keyHdls dataHdls : List Handle)
    (actionIds : List ℤ) : Run Unit := do
  Traced.emit ((handler.reads keyHdls dataHdls actionIds).map passed)
  match handler.raises keyHdls dataHdls actionIds with
  | none => return ()
  | some e => Traced.raise e

/-- The variables of the loop in `dump`, with the number of keys allocated so far and the
number of batches asked for. -/
structure DumpState where
  keyHdls : List Handle
  dataHdls : List Handle
  prevKeyHdl : Handle
  allocated : ℕ
  batches : ℕ

def DumpState.start (keyHdl dataHdl : Handle) : DumpState :=
  ⟨[keyHdl], [dataHdl], keyHdl, 1, 0⟩

/-- The objects that wait in the loop are keys and data. -/
structure DumpState.Kinds (st : DumpState) : Prop where
  keys : ∀ h ∈ st.keyHdls, h.kind = .key
  data : ∀ h ∈ st.dataHdls, h.kind = .data
  prev : st.prevKeyHdl.kind = .key

namespace TableCli

variable (c : TableCli)

/-- `_allocate_keydata_handles` -/
def allocateKeydataHandles (i : ℕ) : Run (Handle × Handle) :=
  if c.driver.keyAllocate i ≠ .success then Traced.raise (.keyAllocate (c.driver.keyAllocate i))
  else do
    Traced.emit [obtained ⟨.key, i⟩]
    if c.driver.dataAllocate none i ≠ .success then
      Traced.raise (.dataAllocate (c.driver.dataAllocate none i))
    else do
      Traced.emit [obtained ⟨.data, i⟩]
      return (⟨.key, i⟩, ⟨.data, i⟩)

/-- The loop that allocates for a batch of `n`. -/
def allocateBatch (first : ℕ) : ℕ → Run (List Handle × List Handle)
  | 0 => return ([], [])
  | n + 1 => do
    let (newKey, newData) ← c.allocateKeydataHandles first
    let (keyHdls, dataHdls) ← allocateBatch (first + 1) n
    return (newKey :: keyHdls, newData :: dataHdls)

/-- `flag_map(flag_enum_str="from_hw")` -/
def flagMap : Except Failure ℕ :=
  (c.table.flagsRevDict.get? "from_hw").elim (.error (.python .keyError)) .ok

/-- `get_first`: none is the pair of `-1`s. What the creation of the flags answers is not
looked at. -/
def getFirst (printEnts : Bool) : Run (Option (Handle × Handle)) := do
  let (keyHandle, dataHandle) ← c.allocateKeydataHandles 0
  let flagsHandle : Handle := ⟨.flags, 0⟩
  Traced.emit (if c.driver.flagsCreate 0 0 = .success then [obtained flagsHandle] else [])
  let _ ← Traced.ofExcept c.flagMap
  Traced.emit [passed flagsHandle]
  Traced.emit [passed keyHandle, passed dataHandle, passed flagsHandle]
  if c.driver.entryGetFirst = .objectNotFound ∧ printEnts then return none
  else if c.driver.entryGetFirst ≠ .success then
    Traced.raise (.entryGetFirst c.driver.entryGetFirst)
  else return some (keyHandle, dataHandle)

/-- The part of `get_next` after the allocations: none is `-1`. -/
def getBatch (prevKey : Handle) (n batches : ℕ) (keyHdls dataHdls : List Handle) :
    Run (Option (List Handle × List Handle)) :=
  let flagsHandle : Handle := ⟨.flags, batches + 1⟩
  if c.driver.flagsCreate 0 (batches + 1) ≠ .success then return none
  else do
    Traced.emit [obtained flagsHandle]
    let _ ← Traced.ofExcept c.flagMap
    Traced.emit [passed flagsHandle]
    Traced.emit ((prevKey :: keyHdls ++ dataHdls ++ [flagsHandle]).map passed)
    let (sts, numReturned) := c.driver.entryGetNextN batches
    if sts ≠ .success ∧ sts ≠ .objectNotFound then Traced.raise (.entryGetNext n sts)
    else if n < numReturned then Traced.raise (.python .indexError)
    else return some (keyHdls.take numReturned, dataHdls.take numReturned)

/-- `get_next` -/
def getNext (prevKey : Handle) (n allocated batches : ℕ) :
    Run (Option (List Handle × List Handle)) :=
  if "get_next_n" ∉ c.table.supportedCommands then return some ([], [])
  else do
    let (keyHdls, dataHdls) ← c.allocateBatch allocated n
    c.getBatch prevKey n batches keyHdls dataHdls

/-- `_action_from_data` -/
def actionFromData (dataHdl : Handle) : ℤ :=
  let (sts, actionId) := c.driver.dataActionId dataHdl
  if sts ≠ .success then -2 else actionId

/-- The ids of the actions of a batch, where the table has actions. -/
def actionIds (dataHdls : List Handle) : Run (List ℤ) :=
  if c.table.actions.entries.length > 0 then do
    Traced.emit (dataHdls.map passed)
    return dataHdls.map c.actionFromData
  else return []

/-- `_deallocate_hdls` -/
def deallocateHdls (keyHdls dataHdls : List Handle) : Run Unit :=
  Traced.emit (keyHdls.map released ++ dataHdls.map released)

/-- What a round does with its batch: the last key is kept if the batch is full. -/
def handleBatch (handler : EntryHandler) (st : DumpState) (n : ℕ)
    (keyHdls dataHdls : List Handle) : Run (Option DumpState) :=
  match keyHdls.getLast? with
  | none => do
    Traced.emit [released st.prevKeyHdl]
    return none
  | some lastKeyHdl => do
    let actionIds ← c.actionIds dataHdls
    handler.handle keyHdls dataHdls actionIds
    deallocateHdls keyHdls.dropLast dataHdls
    if keyHdls.length < 20 then do
      Traced.emit [released lastKeyHdl]
      return none
    else return some ⟨[], [], lastKeyHdl, st.allocated + n, st.batches + 1⟩

/-- One round of the loop in `dump`, none if it returns from `dump`. -/
def dumpRound (handler : EntryHandler) (st : DumpState) : Run (Option DumpState) := do
  let n := 20 - st.keyHdls.length
  match ← c.getNext st.prevKeyHdl n st.allocated st.batches with
  -- a `-1` cannot be unpacked
  | none => Traced.raise (.python .typeError)
  | some (nextKeyHdls, nextDataHdls) =>
    c.handleBatch handler st n (st.keyHdls ++ nextKeyHdls) (st.dataHdls ++ nextDataHdls)

/-- The loop in `dump`, up to a number of rounds: none is still running. -/
def dumpLoop (handler : EntryHandler) : ℕ → DumpState → Run (Option ℤ)
  | 0, _ => return none
  | rounds + 1, st => do
    match ← c.dumpRound handler st with
    | none => return some 0
    | some st => dumpLoop handler rounds st

def dump (handler : EntryHandler) (printEnts : Bool) (rounds : ℕ) : Run (Option ℤ) :=
  if "get_first" ∉ c.table.supportedCommands then return some 0
  else do
    match ← c.getFirst printEnts with
    | none => return some (-1)
    | some (keyHdl, dataHdl) => c.dumpLoop handler rounds (.start keyHdl dataHdl)

theorem allocateKeydataHandles_no_release (i : ℕ) :
    ∀ e ∈ (c.allocateKeydataHandles i).events, ¬ e.IsRelease := by
  unfold allocateKeydataHandles
  split_ifs <;> simp [Traced.raise, pure, IsRelease]

theorem allocateBatch_no_release (n first : ℕ) :
    ∀ e ∈ (c.allocateBatch first n).events, ¬ e.IsRelease := by
  induction n generalizing first with
  | zero => exact nofun
  | succ n ih =>
    refine Traced.forall_events_bind (c.allocateKeydataHandles_no_release first) fun _ _ => ?_
    exact Traced.forall_events_bind (ih (first + 1)) fun _ _ => nofun

theorem getFirst_no_release (printEnts : Bool) :
    ∀ e ∈ (c.getFirst printEnts).events, ¬ e.IsRelease := by
  refine Traced.forall_events_bind (c.allocateKeydataHandles_no_release 0) fun _ _ => ?_
  rcases hmap : c.flagMap with e | v
  · by_cases hcreate : c.driver.flagsCreate 0 0 = .success <;>
      simp [hcreate, Traced.raise, IsRelease]
  · by_cases hcreate : c.driver.flagsCreate 0 0 = .success <;>
      by_cases hempty : c.driver.entryGetFirst = .objectNotFound ∧ printEnts <;>
      by_cases hfirst : c.driver.entryGetFirst = .success <;>
      simp [hcreate, hempty, hfirst, pure, Traced.raise, IsRelease]

theorem getNext_of_unsupported (hsupported : "get_next_n" ∉ c.table.supportedCommands)
    (prevKey : Handle) (n allocated batches : ℕ) :
    c.getNext prevKey n allocated batches = ⟨.ok (some ([], [])), []⟩ :=
  if_pos hsupported

theorem getBatch_no_release (prevKey : Handle) (n batches : ℕ) (keyHdls dataHdls : List Handle) :
    ∀ e ∈ (c.getBatch prevKey n batches keyHdls dataHdls).events, ¬ e.IsRelease := by
  unfold getBatch
  split_ifs
  · exact nofun
  · refine Traced.forall_events_bind (by simp [Traced.emit, IsRelease]) fun _ _ => ?_
    refine Traced.forall_events_bind nofun fun _ _ => ?_
    refine Traced.forall_events_bind (by simp [Traced.emit, IsRelease]) fun _ _ => ?_
    refine Traced.forall_events_bind (no_release_map_passed _) fun _ _ => ?_
    dsimp only
    split_ifs <;> exact nofun

theorem getNext_no_release (prevKey : Handle) (n allocated batches : ℕ) :
    ∀ e ∈ (c.getNext prevKey n allocated batches).events, ¬ e.IsRelease := by
  unfold getNext
  split_ifs
  · exact Traced.forall_events_bind (c.allocateBatch_no_release n allocated) fun hdls _ =>
      c.getBatch_no_release prevKey n batches hdls.1 hdls.2
  · exact nofun

/-- A batch is returned only with flags in hand. -/
theorem getNext_flags (hsupported : "get_next_n" ∈ c.table.supportedCommands)
    {prevKey : Handle} {n allocated batches : ℕ} {batch : List Handle × List Handle}
    (hbatch : (c.getNext prevKey n allocated batches).result = .ok (some batch)) :
    obtained ⟨.flags, batches + 1⟩ ∈ (c.getNext prevKey n allocated batches).events := by
  rw [getNext, if_neg (not_not.mpr hsupported)] at hbatch ⊢
  obtain ⟨hdls, hallocated, hget⟩ := Traced.of_result_bind hbatch
  rw [Traced.bind_of_ok hallocated]
  by_cases hcreate : c.driver.flagsCreate 0 (batches + 1) = .success
  · refine List.mem_append_right _ ?_
    simp [getBatch, hcreate]
  · simp [getBatch, hcreate, pure] at hget

theorem allocateBatch_kinds (n first : ℕ) {batch : List Handle × List Handle}
    (h : (c.allocateBatch first n).result = .ok batch) :
    (∀ h ∈ batch.1, h.kind = .key) ∧ ∀ h ∈ batch.2, h.kind = .data := by
  induction n generalizing first batch with
  | zero =>
    cases h
    exact ⟨nofun, nofun⟩
  | succ n ih =>
    obtain ⟨⟨newKey, newData⟩, hnew, h⟩ := Traced.of_result_bind h
    obtain ⟨rest, hrest, h⟩ := Traced.of_result_bind h
    cases h
    have hkinds : newKey.kind = .key ∧ newData.kind = .data := by
      unfold allocateKeydataHandles at hnew
      split_ifs at hnew <;> simp [Traced.raise, pure] at hnew
      simp [← hnew]
    obtain ⟨hkeys, hdata⟩ := ih (first + 1) hrest
    exact ⟨List.forall_mem_cons.mpr ⟨hkinds.1, hkeys⟩, List.forall_mem_cons.mpr ⟨hkinds.2, hdata⟩⟩

/-- What is returned of a batch is as long as the driver says. -/
theorem eq_take_of_getBatch {prevKey : Handle} {n batches : ℕ} {keyHdls dataHdls : List Handle}
    {batch : List Handle × List Handle}
    (h : (c.getBatch prevKey n batches keyHdls dataHdls).result = .ok (some batch)) :
    batch = (keyHdls.take (c.driver.entryGetNextN batches).2,
      dataHdls.take (c.driver.entryGetNextN batches).2) := by
  simp only [getBatch] at h
  split at h
  · cases h
  obtain ⟨-, -, h⟩ := Traced.of_result_bind h
  obtain ⟨-, -, h⟩ := Traced.of_result_bind h
  obtain ⟨-, -, h⟩ := Traced.of_result_bind h
  obtain ⟨-, -, h⟩ := Traced.of_result_bind h
  split at h
  · cases h
  split at h
  · cases h
  · cases h
    rfl

theorem getNext_kinds {prevKey : Handle} {n allocated batches : ℕ}
    {batch : List Handle × List Handle}
    (h : (c.getNext prevKey n allocated batches).result = .ok (some batch)) :
    (∀ h ∈ batch.1, h.kind = .key) ∧ ∀ h ∈ batch.2, h.kind = .data := by
  by_cases hsupported : "get_next_n" ∈ c.table.supportedCommands
  · rw [getNext, if_neg (not_not.mpr hsupported)] at h
    obtain ⟨hdls, hallocated, h⟩ := Traced.of_result_bind h
    obtain ⟨hkeys, hdata⟩ := c.allocateBatch_kinds n allocated hallocated
    rw [c.eq_take_of_getBatch h]
    exact ⟨fun h hh => hkeys h (List.mem_of_mem_take hh),
      fun h hh => hdata h (List.mem_of_mem_take hh)⟩
  · rw [c.getNext_of_unsupported hsupported] at h
    cases h
    exact ⟨nofun, nofun⟩

/-- An event that is not the release of a flags object. -/
def KeepsFlags (e : HandleEvent Handle) : Prop := ∀ i, e ≠ released ⟨.flags, i⟩

theorem keepsFlags_of_not_isRelease {e : HandleEvent Handle} (h : ¬ e.IsRelease) :
    KeepsFlags e := by
  rintro i rfl
  exact h trivial

theorem actionIds_no_release (dataHdls : List Handle) :
    ∀ e ∈ (c.actionIds dataHdls).events, ¬ e.IsRelease := by
  unfold actionIds
  split_ifs
  · exact Traced.forall_events_bind (no_release_map_passed dataHdls) fun _ _ => nofun
  · exact nofun

theorem handle_no_release (handler : EntryHandler) (keyHdls dataHdls : List Handle)
    (actionIds : List ℤ) :
    ∀ e ∈ (handler.handle keyHdls dataHdls actionIds).events, ¬ e.IsRelease := by
  refine Traced.forall_events_bind (no_release_map_passed _) fun _ _ => ?_
  cases handler.raises keyHdls dataHdls actionIds <;> exact nofun

/-- What a round frees: all of its batch but a last key that is still needed. -/
def freed (prevKeyHdl : Handle) (keyHdls dataHdls : List Handle) : List Handle :=
  match keyHdls.getLast? with
  | none => [prevKeyHdl]
  | some lastKeyHdl =>
    keyHdls.dropLast ++ dataHdls ++ if keyHdls.length < 20 then [lastKeyHdl] else []

theorem mem_freed_of_released (handler : EntryHandler) {st : DumpState} {n : ℕ}
    {keyHdls dataHdls : List Handle} {h : Handle}
    (hmem : released h ∈ (c.handleBatch handler st n keyHdls dataHdls).events) :
    h ∈ freed st.prevKeyHdl keyHdls dataHdls := by
  have hall : ∀ e ∈ (c.handleBatch handler st n keyHdls dataHdls).events, e.IsRelease →
      e ∈ (freed st.prevKeyHdl keyHdls dataHdls).map released := by
    unfold handleBatch freed
    cases hlast : keyHdls.getLast? with
    | none => exact fun e he _ => he
    | some lastKeyHdl =>
      simp only [List.map_append]
      refine Traced.forall_events_bind
        (fun e he hrelease => absurd hrelease (c.actionIds_no_release _ e he)) fun _ _ => ?_
      refine Traced.forall_events_bind
        (fun e he hrelease => absurd hrelease (handle_no_release _ _ _ _ e he)) fun _ _ => ?_
      refine Traced.forall_events_bind
        (fun e he _ => List.mem_append_left _ he) fun _ _ => ?_
      split_ifs
      · exact fun e he _ => List.mem_append_right _ he
      · exact nofun
  obtain ⟨h', hh', he⟩ := List.mem_map.mp (hall _ hmem trivial)
  cases he
  exact hh'

/-- No round frees a flags object, and the objects that wait keep their kinds. -/
theorem handleBatch_keepsFlags (handler : EntryHandler) {st : DumpState} {n : ℕ}
    {keyHdls dataHdls : List Handle} (hprev : st.prevKeyHdl.kind = .key)
    (hkeys : ∀ h ∈ keyHdls, h.kind = .key) (hdata : ∀ h ∈ dataHdls, h.kind = .data) :
    (∀ e ∈ (c.handleBatch handler st n keyHdls dataHdls).events, KeepsFlags e) ∧
      ∀ st', (c.handleBatch handler st n keyHdls dataHdls).result = .ok (some st') →
        st'.Kinds := by
  have hlast : ∀ {lastKeyHdl}, keyHdls.getLast? = some lastKeyHdl → lastKeyHdl.kind = .key :=
    fun h => hkeys _ (List.mem_of_getLast? h)
  constructor
  · rintro e he i rfl
    have hfreed := c.mem_freed_of_released handler he
    unfold freed at hfreed
    split at hfreed
    · rw [← List.mem_singleton.mp hfreed] at hprev
      cases hprev
    next lastKeyHdl hget =>
      rcases List.mem_append.mp hfreed with hbatch | hrest
      · rcases List.mem_append.mp hbatch with hkey | hflags
        · cases hkeys _ (List.mem_of_mem_dropLast hkey)
        · cases hdata _ hflags
      · split at hrest
        · have hkind := hlast hget
          rw [← List.mem_singleton.mp hrest] at hkind
          cases hkind
        · cases hrest
  · intro st' h
    unfold handleBatch at h
    split at h
    · cases h
    next lastKeyHdl hget =>
      obtain ⟨_, -, h⟩ := Traced.of_result_bind h
      obtain ⟨_, -, h⟩ := Traced.of_result_bind h
      obtain ⟨_, -, h⟩ := Traced.of_result_bind h
      split_ifs at h
      · cases h
      · cases h
        exact ⟨nofun, nofun, hlast hget⟩

theorem dumpRound_keepsFlags (handler : EntryHandler) {st : DumpState} (hst : st.Kinds) :
    (∀ e ∈ (c.dumpRound handler st).events, KeepsFlags e) ∧
      ∀ st', (c.dumpRound handler st).result = .ok (some st') → st'.Kinds := by
  have hkinds : ∀ {nextKeyHdls nextDataHdls},
      (c.getNext st.prevKeyHdl (20 - st.keyHdls.length) st.allocated st.batches).result =
        .ok (some (nextKeyHdls, nextDataHdls)) →
      (∀ h ∈ st.keyHdls ++ nextKeyHdls, h.kind = .key) ∧
        ∀ h ∈ st.dataHdls ++ nextDataHdls, h.kind = .data := by
    intro nextKeyHdls nextDataHdls h
    obtain ⟨hkeys, hdata⟩ := c.getNext_kinds h
    exact ⟨List.forall_mem_append.mpr ⟨hst.keys, hkeys⟩,
      List.forall_mem_append.mpr ⟨hst.data, hdata⟩⟩
  constructor
  · refine Traced.forall_events_bind
      (fun e he => keepsFlags_of_not_isRelease (c.getNext_no_release _ _ _ _ e he)) ?_
    rintro (_ | ⟨nextKeyHdls, nextDataHdls⟩) hnext
    · exact nofun
    · obtain ⟨hkeys, hdata⟩ := hkinds hnext
      exact (c.handleBatch_keepsFlags handler hst.prev hkeys hdata).1
  · intro st' h
    obtain ⟨_ | ⟨nextKeyHdls, nextDataHdls⟩, hnext, h⟩ := Traced.of_result_bind h
    · cases h
    · obtain ⟨hkeys, hdata⟩ := hkinds hnext
      exact (c.handleBatch_keepsFlags handler hst.prev hkeys hdata).2 st' h

theorem kinds_start : (DumpState.start ⟨.key, 0⟩ ⟨.data, 0⟩).Kinds :=
  ⟨by simp [DumpState.start], by simp [DumpState.start], rfl⟩

theorem dumpLoop_keepsFlags (handler : EntryHandler) (rounds : ℕ) {st : DumpState}
    (hst : st.Kinds) : ∀ e ∈ (c.dumpLoop handler rounds st).events, KeepsFlags e := by
  induction rounds generalizing st with
  | zero => exact nofun
  | succ rounds ih =>
    obtain ⟨hround, hnext⟩ := c.dumpRound_keepsFlags handler hst
    refine Traced.forall_events_bind hround ?_
    rintro (_ | st') hresult
    · exact nofun
    · exact ih (hnext st' hresult)

end TableCli

end Tdi.Cli

import Tdi.Cli.EntryCalls

/-!
# The handles of the calls on entries

When a call on an entry leaves no object of the driver behind, and when a session of
such calls does, whatever they raise.
-/
namespace Tdi.Cli

open Foundation HandleEvent

section Lift

variable {α β : Type}

@[simp] theorem lift_error (e : Failure) (events : List (HandleEvent Handle)) :
    lift (⟨.error e, events⟩ : Run α) =
      ⟨.error (.helper e), events.map (HandleEvent.map .handle)⟩ := rfl

@[simp] theorem lift_ok (a : α) (events : List (HandleEvent Handle)) :
    lift (⟨.ok a, events⟩ : Run α) = ⟨.ok a, events.map (HandleEvent.map .handle)⟩ := rfl

theorem events_lift (x : Run α) : (lift x).events = x.events.map (HandleEvent.map .handle) := rfl

theorem lift_bind (x : Run α) (f : α → Run β) :
    lift (x >>= f) = lift x >>= fun a => lift (f a) := by
  rcases x with ⟨e | a, events⟩
  · rfl
  · rw [Traced.ok_bind, lift_ok, Traced.ok_bind]
    simp [lift]

theorem holding_lift {h : Handle} {events : List (HandleEvent Handle)}
    (hheld : Holding [h] events) :
    Holding [Obj.handle h] (events.map (HandleEvent.map .handle)) where
  no_release e he := by
    obtain ⟨e', he', rfl⟩ := List.mem_map.mp he
    have hkeeps := hheld.no_release e' he'
    cases e' <;> exact hkeeps
  obtained_iff k := by
    constructor
    · intro hk
      obtain ⟨e', he', hek⟩ := List.mem_map.mp hk
      cases e' with
      | obtained h' =>
        cases hek
        exact List.mem_map_of_mem ((hheld.obtained_iff h').mp he')
      | passed => cases hek
      | released => cases hek
    · intro hk
      rw [List.mem_singleton.mp hk]
      exact List.mem_map_of_mem ((hheld.obtained_iff h).mpr (List.mem_singleton_self h))

end Lift

namespace EntryCli

variable (c : EntryCli) {β : Type} {p q : Prop} {held : List Obj}

section Helpers

/-- After an object is made with a helper, it is in hand, also if the helper raises. -/
theorem settles_keeps_bind {h : Handle} {accepted : Prop} {x : Run (Option Handle)}
    {f : Option Handle → CallRun β} (hx : TableCli.Keeps h accepted x)
    (hf : Settles p (held ++ [.handle h]) (f (some h))) :
    Settles (accepted ∧ p) held (lift x >>= f) := by
  intro work hwork
  obtain ⟨events, hheld, ⟨hrejected, e, rfl⟩ | ⟨haccepted, rfl⟩⟩ := hx
  · rw [lift_error, Traced.error_bind, (hwork.append (holding_lift hheld)).clean_iff]
    simp [hrejected]
  · rw [lift_ok, Traced.ok_bind, ← List.append_assoc, hf _ (hwork.append (holding_lift hheld))]
    exact (and_iff_right haccepted).symm

theorem settles_raised_bind {x : Run (Option Handle)} {f : Option Handle → CallRun β} {e : Failure}
    (hx : x = ⟨.error e, []⟩) : Settles (held = []) held (lift x >>= f) := by
  rw [hx]
  exact Settles.quiet rfl

/-- Without the allocation the key raises with nothing obtained. -/
theorem settles_makeCallKeys_bind (content : Dict Content) {f : Option Handle → CallRun β}
    (hf : Settles p (held ++ [.key]) (f (some ⟨.key, 0⟩))) :
    Settles ((c.driver.keyAllocate 0 ≠ .success → held = []) ∧
      (c.driver.keyAllocate 0 = .success → c.KeysAccepted content ∧ p)) held
      (lift (c.makeCallKeys content) >>= f) := by
  rcases c.makeCallKeys_cases content with ⟨hunmade, e, hkey⟩ | ⟨hmade, hkeeps⟩
  · exact (settles_raised_bind hkey).of_iff (by simp [hunmade])
  · exact (settles_keeps_bind hkeeps hf).of_iff (by simp [hmade])

theorem settles_makeCallData_bind (content : Dict Content) (action : Option String)
    {f : Option Handle → CallRun β} (hnone : Settles p held (f none))
    (hsome : Settles q (held ++ [.data]) (f (some ⟨.data, 0⟩))) :
    Settles ((c.scopeOf action = none → held = []) ∧
      ∀ id fields, c.scopeOf action = some (id, fields) →
        (c.driver.dataAllocate id 0 ≠ .success → p) ∧
        (c.driver.dataAllocate id 0 = .success → c.DataAccepted fields content ∧ q)) held
      (lift (c.makeCallData content action) >>= f) := by
  rcases c.makeCallData_cases content action with ⟨hunknown, e, hdata⟩ | ⟨id, fields, hscope, hdata⟩
  · exact (settles_raised_bind hdata).of_iff (by simp [hunknown])
  · rcases hdata with ⟨hunmade, hdata⟩ | ⟨hmade, hkeeps⟩
    · rw [hdata]
      exact hnone.of_iff (by simp [hscope, hunmade])
    · exact (settles_keeps_bind hkeeps hsome).of_iff (by simp [hscope, hmade])

theorem settles_makeCallFlags_bind (flags : ℕ) {f : Handle → CallRun β}
    (hf : Settles p (held ++ [.flags]) (f ⟨.flags, 0⟩)) :
    Settles ((c.driver.flagsCreate flags 0 ≠ .success → held = []) ∧
      (c.driver.flagsCreate flags 0 = .success → p)) held
      (lift (c.makeCallFlags flags) >>= f) := by
  rcases c.makeCallFlags_cases flags with ⟨hunmade, e, hflags⟩ | ⟨hmade, hflags⟩
  · rw [hflags]
    exact (Settles.quiet rfl).of_iff (by simp [hunmade])
  · rw [hflags]
    exact (Settles.obtain_bind Obj.flags (g := fun _ => f ⟨.flags, 0⟩) hf).of_iff (by simp [hmade])

/-- The flag has a number. -/
def FlagKnown : Prop := ∃ i, c.flagMap = .ok i

theorem fromHwFlags_cases :
    (c.driver.flagsCreate 0 0 ≠ .success ∧ c.fromHwFlags = ⟨.ok none, []⟩) ∨
    c.driver.flagsCreate 0 0 = .success ∧
      ((¬ c.FlagKnown ∧ ∃ e, c.fromHwFlags = ⟨.error e, [obtained .flags]⟩) ∨
        c.FlagKnown ∧
          c.fromHwFlags = ⟨.ok (some .flags), [obtained .flags] ++ [passed .flags]⟩) := by
  by_cases hcreate : c.driver.flagsCreate 0 0 = .success
  · refine .inr ⟨hcreate, ?_⟩
    have hrun : c.fromHwFlags = Traced.emit [obtained .flags] >>= fun _ =>
        lift (Traced.ofExcept c.flagMap) >>= fun _ =>
        Traced.emit [passed .flags] >>= fun _ => pure (some .flags) :=
      if_neg (not_not.mpr hcreate)
    rw [hrun]
    cases hmap : c.flagMap with
    | error e => exact .inl ⟨by simp [FlagKnown, hmap], .helper e, rfl⟩
    | ok i => exact .inr ⟨⟨i, hmap⟩, rfl⟩
  · exact .inl ⟨hcreate, if_pos hcreate⟩

theorem settles_fromHwFlags_bind {f : Option Obj → CallRun β} (hnone : Settles p held (f none))
    (hsome : Settles q (held ++ [.flags]) (f (some .flags))) :
    Settles ((c.driver.flagsCreate 0 0 ≠ .success → p) ∧
      (c.driver.flagsCreate 0 0 = .success → c.FlagKnown ∧ q)) held (c.fromHwFlags >>= f) := by
  rcases c.fromHwFlags_cases with
    ⟨hunmade, hrun⟩ | ⟨hmade, ⟨hunknown, e, hrun⟩ | ⟨hknown, hrun⟩⟩
  · rw [hrun]
    exact hnone.of_iff (by simp [hunmade])
  all_goals
    intro work hwork
    have hheld := hwork.append (Holding.obtain Obj.flags)
  · rw [hrun, Traced.error_bind, hheld.clean_iff]
    simp [hmade, hunknown]
  · have hpassed : ∀ e ∈ [passed Obj.flags], ∃ h, e = passed h := by simp
    rw [hrun, Traced.ok_bind, ← List.append_assoc, ← List.append_assoc,
      hsome _ (hheld.append_passed hpassed)]
    simp [hmade, hknown]

/-- What is read is used only. -/
theorem uses_lift_ofExcept {α : Type} (x : Except Failure α) :
    Uses (lift (Traced.ofExcept x)) := by
  cases x <;> exact nofun

theorem uses_passed {ε : Type} (hs : List Obj) :
    Uses (Traced.emit (hs.map passed) : Traced ε (HandleEvent Obj) Unit) := by
  intro e he
  obtain ⟨h, -, rfl⟩ := List.mem_map.mp he
  exact ⟨h, rfl⟩

theorem uses_pure {α : Type} (a : α) : Uses (pure a : CallRun α) := nofun

theorem uses_actionName (actionId : ℤ) : Uses (c.actionName actionId) := by
  unfold actionName
  cases c.actionIdNameMap actionId <;> exact nofun

theorem uses_dataActionId : Uses c.dataActionId := by
  unfold dataActionId
  split_ifs
  · exact (uses_passed _).bind fun _ _ => uses_pure _
  · exact uses_pure _

theorem uses_printedAction (actionId : Option ℤ) : Uses (c.printedAction actionId) := by
  cases actionId with
  | none => exact uses_pure _
  | some actionId => exact (c.uses_actionName actionId).bind fun _ _ => uses_pure _

theorem uses_dataAction : Uses c.dataAction := by
  refine c.uses_dataActionId.bind fun actionId _ => ?_
  cases actionId with
  | none => exact uses_pure _
  | some actionId => exact (c.uses_actionName actionId).bind fun _ _ => uses_pure _

theorem uses_readKey (keyHandle : Obj) : Uses (c.readKey keyHandle) :=
  (uses_passed _).bind fun _ _ => uses_lift_ofExcept _

theorem uses_readData (action : Option String) : Uses (c.readData action) :=
  (uses_passed _).bind fun _ _ => uses_lift_ofExcept _

theorem uses_streamPrinter (keyHandle : Option Obj) (withData : Bool) (actionId : Option ℤ) :
    Uses (c.streamPrinter keyHandle withData actionId) := by
  refine (c.uses_printedAction actionId).bind fun action _ => ?_
  refine Uses.bind ?_ fun _ _ => Uses.bind ?_ fun _ _ => uses_lift_ofExcept _
  · cases keyHandle with
    | none => exact uses_pure _
    | some keyHandle => exact (c.uses_readKey keyHandle).bind fun _ _ => uses_pure _
  · cases withData with
    | false => exact uses_pure _
    | true => exact (c.uses_readData action).bind fun _ _ => uses_pure _

theorem uses_readDefault (print : Bool) : Uses (c.readDefault print) := by
  refine c.uses_dataAction.bind fun action _ => (c.uses_readData action).bind fun _ _ => ?_
  cases print with
  | false => exact uses_pure _
  | true =>
    exact c.uses_dataActionId.bind fun _ _ =>
      (c.uses_streamPrinter _ _ _).bind fun _ _ => uses_pure _

theorem uses_readEntry (keyHandle : Obj) (print : Bool) : Uses (c.readEntry keyHandle print) := by
  refine Uses.bind ?_ fun _ _ => c.uses_dataAction.bind fun action _ =>
    (c.uses_readKey keyHandle).bind fun _ _ => (c.uses_readData action).bind fun _ _ => uses_pure _
  cases print with
  | false => exact uses_pure _
  | true => exact c.uses_dataActionId.bind fun _ _ => c.uses_streamPrinter _ _ _

theorem uses_readKeyOnly (print : Bool) : Uses (c.readKeyOnly print) := by
  refine (c.uses_readKey _).bind fun _ _ => ?_
  cases print with
  | false => exact uses_pure _
  | true =>
    exact (uses_lift_ofExcept _).bind fun _ _ =>
      (c.uses_streamPrinter _ _ _).bind fun _ _ => uses_pure _

end Helpers

section Conditions

/-- The data object is filled without an exception, as far as it is made. -/
def SetDefaultClears (dataContent : Dict Content) (action : Option String) : Prop :=
  c.tableTypeKnown = true → ∀ id fields, c.scopeOf action = some (id, fields) →
    c.driver.dataAllocate id 0 = .success → c.DataAccepted fields dataContent

theorem settles_setDefaultEntry (dataContent : Dict Content) (action : Option String) :
    Settles (c.SetDefaultClears dataContent action) []
      (c.setDefaultEntry dataContent action) := by
  refine (Settles.ite (fun _ => Settles.quiet rfl) fun _ =>
    c.settles_makeCallData_bind dataContent action (Settles.quiet rfl)
      (Settles.pass_bind _ (Settles.release_bind _ (by decide) ?_))).of_iff ?_
  · split_ifs <;> rfl
  · simp [SetDefaultClears, Obj.data]

/-- Nothing raises once the data object is made, and the flags object is made. -/
def GetDefaultClears (print : Bool) : Prop :=
  c.tableTypeKnown = true → c.driver.dataAllocate none 0 = .success →
    c.driver.flagsCreate 0 0 = .success ∧ c.FlagKnown ∧
      (c.defaultEntryGet = .success → Returns (c.readDefault print))

theorem settles_getDefaultEntry (print : Bool) :
    Settles (c.GetDefaultClears print) [] (c.getDefaultEntry print) := by
  refine (Settles.ite (fun _ => Settles.quiet rfl) fun _ =>
    Settles.ite (fun _ => Settles.quiet rfl) fun _ => Settles.obtain_bind _ <|
    c.settles_fromHwFlags_bind (Settles.quiet rfl) <| Settles.pass_bind _ <|
    Settles.ite (fun _ => Settles.release_bind _ (by decide) rfl) fun _ =>
    Settles.uses_bind (c.uses_readDefault print) fun _ _ =>
    Settles.release_bind _ (by decide) rfl).of_iff ?_
  simp only [GetDefaultClears]
  simp
  tauto

/-- Without a handle the key is accepted, with one it is got, as far as it is made. -/
def DelClears (keyContent : Dict Content) (entryHandle : Option UInt32) : Prop :=
  (entryHandle ≠ none → "get_by_handle" ∈ c.table.supportedCommands →
    c.driver.keyAllocate 0 = .success → c.entryKeyGet = .success) ∧
  (entryHandle = none → c.driver.keyAllocate 0 = .success → c.KeysAccepted keyContent)

theorem settles_deleteKey (keyHandle : Obj) :
    Settles (∀ h, h ∈ held ↔ h ∈ [keyHandle]) held (c.deleteKey keyHandle) := by
  refine Settles.pass_bind _ (Settles.release_bind _ (List.nodup_singleton _) ?_)
  split_ifs <;> rfl

theorem settles_delEntry (keyContent : Dict Content) (entryHandle : Option UInt32) :
    Settles (c.DelClears keyContent entryHandle) [] (c.delEntry keyContent entryHandle) := by
  refine (Settles.ite (fun _ => Settles.quiet rfl) fun _ =>
    Settles.ite
      (fun _ => Settles.ite (fun _ => Settles.quiet rfl) fun _ => Settles.obtain_bind _ <|
        Settles.pass_bind _ <| Settles.ite (fun _ => Settles.quiet rfl) fun _ =>
        c.settles_deleteKey .key)
      fun _ => c.settles_makeCallKeys_bind keyContent (c.settles_deleteKey _)).of_iff ?_
  cases entryHandle <;> simp [DelClears, Obj.key]

/-- The key object is made without an exception where its content is given, which needs that it
can be lost. -/
def KeyCond (keyArg : KeyArg) (held : List Obj) (p q : Prop) : Prop :=
  match keyArg with
  | .content keyContent => (c.driver.keyAllocate 0 ≠ .success → held = []) ∧
      (c.driver.keyAllocate 0 = .success → c.KeysAccepted keyContent ∧ p)
  | _ => q

theorem settles_keyOf_bind (keyArg : KeyArg) {f : Option Obj → CallRun β}
    (hcontent : Settles p (held ++ [.key]) (f (some .key)))
    (hgiven : Settles q held (f (some .given))) :
    Settles (c.KeyCond keyArg held p q) held (c.keyOf keyArg >>= f) := by
  cases keyArg with
  | content keyContent =>
    have hkey : c.keyOf (.content keyContent) =
        lift (c.makeCallKeys keyContent) >>= fun key => pure (key.map .handle) := by
      refine congrArg (lift (c.makeCallKeys keyContent) >>= ·) (funext fun key => ?_)
      cases key <;> rfl
    rw [hkey, Traced.bind_assoc]
    exact c.settles_makeCallKeys_bind keyContent hcontent
  | handle => exact hgiven
  | both => exact hgiven

theorem settles_finishGet (hheld : held ≠ []) {keyHandle : Obj} {isKeySet : Bool}
    (hnodup : (freedByGet keyHandle isKeySet .flags).Nodup) (print : Bool) (sts : TdiStatus) :
    Settles ((∀ h, h ∈ held ↔ h ∈ freedByGet keyHandle isKeySet .flags) ∧
      (sts = .success → Returns (c.readEntry keyHandle print))) held
      (c.finishGet keyHandle isKeySet print sts .flags) := by
  refine (Settles.pass_bind _ <| Settles.ite (fun _ => Settles.release_bind _ hnodup rfl) fun _ =>
    Settles.uses_bind (c.uses_readEntry keyHandle print) fun _ _ =>
    Settles.release_bind _ hnodup rfl).of_iff ?_
  by_cases hsts : sts = .success <;> by_cases hreturns : Returns (c.readEntry keyHandle print) <;>
    simp [hsts, hreturns, hheld]

/-- The key object is made where its content is given. -/
def KeyMade (keyArg : KeyArg) : Prop :=
  ∀ keyContent, keyArg = .content keyContent →
    c.driver.keyAllocate 0 = .success ∧ c.KeysAccepted keyContent

/-- The flags object is made and nothing raises once the data object is made. A handle does not
come together with a key object of the caller. -/
def GetClears (keyArg : KeyArg) (print : Bool) (entryHandle : Option UInt32) : Prop :=
  keyArg.isBoth = false →
  (entryHandle ≠ none → "get_by_handle" ∈ c.table.supportedCommands) →
  c.driver.dataAllocate none 0 = .success →
    c.driver.flagsCreate 0 0 = .success ∧ c.FlagKnown ∧
    (entryHandle ≠ none → c.driver.keyAllocate 0 = .success ∧ keyArg.isKeySet = false ∧
      (c.entryGetByHandle = .success → Returns (c.readEntry .key print))) ∧
    (entryHandle = none → c.KeyMade keyArg ∧
      (c.entryGet = .success → Returns (c.readEntry keyArg.obj print)))

theorem settles_getEntry (keyArg : KeyArg) (print : Bool) (entryHandle : Option UInt32) :
    Settles (c.GetClears keyArg print entryHandle) [] (c.getEntry keyArg print entryHandle) := by
  have hnodup : ∀ isKeySet, (freedByGet .key isKeySet .flags).Nodup := by decide
  have hnodup' : ∀ isKeySet, (freedByGet .given isKeySet .flags).Nodup := by decide
  refine (Settles.ite (fun _ => Settles.quiet rfl) fun _ =>
    Settles.ite (fun _ => Settles.quiet rfl) fun _ =>
    Settles.ite (fun _ => Settles.quiet rfl) fun _ =>
    Settles.obtain_bind _ <| c.settles_fromHwFlags_bind (Settles.quiet rfl) <|
    Settles.ite
      (fun _ => Settles.ite (fun _ => Settles.release_bind _ (by decide) rfl) fun _ =>
        Settles.obtain_bind _ <| c.settles_finishGet (by decide) (hnodup _) print _)
      fun _ => c.settles_keyOf_bind keyArg (c.settles_finishGet (by decide) (hnodup _) print _)
        (c.settles_finishGet (by decide) (hnodup' _) print _)).of_iff ?_
  have hsame : ∀ h, (h = Obj.data ∨ h = .flags ∨ h = .key) ↔ (h = .key ∨ h = .data ∨ h = .flags) :=
    fun h => by tauto
  have hflags : Obj.flags ≠ .data := by decide
  have hkey : Obj.key ≠ .data ∧ Obj.key ≠ .flags := by decide
  cases entryHandle <;> cases keyArg <;>
    simp [GetClears, KeyCond, KeyMade, KeyArg.isBoth, KeyArg.isKeySet, KeyArg.obj, freedByGet,
      hsame, hflags, hkey.1, hkey.2]
  all_goals tauto

/-- A key object that is made is freed only if the handle is not got, and one that is passed must
not be freed. -/
def GetHandleClears : KeyArg → Prop
  | .content keyContent => c.driver.keyAllocate 0 = .success →
      c.KeysAccepted keyContent ∧ c.entryHandleGet.1 ≠ .success
  | .handle => c.entryHandleGet.1 = .success
  | .both => True

theorem settles_getEntryHandle (keyArg : KeyArg) :
    Settles (c.GetHandleClears keyArg) [] (c.getEntryHandle keyArg) := by
  refine (Settles.ite (fun _ => Settles.quiet rfl) fun _ =>
    c.settles_keyOf_bind keyArg
      (Settles.pass_bind _ <| Settles.ite (fun _ => Settles.release_bind _ (by decide) rfl)
        fun _ => Settles.quiet rfl)
      (Settles.pass_bind _ <| Settles.ite (fun _ => Settles.release_bind _ (by decide) rfl)
        fun _ => Settles.quiet rfl)).of_iff ?_
  cases keyArg <;> simp [GetHandleClears, KeyCond, KeyArg.isBoth]

/-- The target is never deleted, so that no call that makes a key object is clean. -/
theorem settles_getEntryKey (print : Bool) :
    Settles (c.driver.keyAllocate 0 ≠ .success) [] (c.getEntryKey print) := by
  have hlost : ¬ ∀ h, h ∈ [Obj.key, .target] ↔ h ∈ [Obj.key] :=
    fun h => absurd ((h .target).mp (by decide)) (by decide)
  refine (Settles.ite (fun _ => Settles.quiet rfl) fun _ =>
    Settles.obtain_bind _ <| Settles.ite (fun _ => Settles.quiet rfl) fun _ =>
    Settles.obtain_bind _ <| Settles.pass_bind _ <|
    Settles.ite (fun _ => Settles.release_bind _ (by decide) rfl) fun _ =>
    Settles.uses_bind (c.uses_readKeyOnly print) fun _ _ =>
    Settles.release_bind _ (by decide) rfl).of_iff ?_
  by_cases hmade : c.driver.keyAllocate 0 = .success
  · simp only [List.nil_append, List.cons_append]
    simp only [hmade, hlost]
    simp
  · simp [hmade]

theorem settles_resetDefaultEntry : Settles True [] c.resetDefaultEntry := by
  refine (Settles.quiet ?_).of_iff (by simp)
  unfold resetDefaultEntry
  split_ifs <;> rfl

theorem settles_callAddMod (keyContent dataContent : Dict Content) (action : Option String)
    (cFunc : TdiStatus) (flags : ℕ) :
    Settles (c.AddModCompletes keyContent dataContent action flags) []
      (lift (c.callAddMod keyContent dataContent action cFunc flags)) := by
  unfold TableCli.callAddMod
  simp only [lift_bind]
  -- what is freed at the end is all that is made, with and without a data object
  refine (c.settles_makeCallKeys_bind keyContent <|
    c.settles_makeCallData_bind dataContent action
      (c.settles_makeCallFlags_bind flags <|
        Settles.of_events [] [.key, .flags] (by decide) rfl)
      (c.settles_makeCallFlags_bind flags <|
        Settles.of_events [.key, .data] [.key, .data, .flags] (by decide) rfl)).of_iff ?_
  cases hscope : c.scopeOf action with
  | none => simp [TableCli.AddModCompletes, hscope, imp_iff_not_or]
  | some scope =>
    obtain ⟨id, fields⟩ := scope
    simp [TableCli.AddModCompletes, hscope]
    tauto

end Conditions
end EntryCli

/-- The calls on the entries of a table. -/
inductive EntryCall where
  | add (keyContent dataContent : Dict Content) (action : Option String)
  | mod (keyContent dataContent : Dict Content) (action : Option String) (ttlReset : Bool)
  | setDefault (dataContent : Dict Content) (action : Option String)
  | resetDefault
  | getDefault (print : Bool)
  | delete (keyContent : Dict Content) (entryHandle : Option UInt32)
  | get (keyArg : KeyArg) (print : Bool) (entryHandle : Option UInt32)
  | getHandle (keyArg : KeyArg)
  | getKey (print : Bool)

namespace EntryCall

/-- What happens to the objects of the driver during a call. -/
def trace (c : EntryCli) : EntryCall → List (HandleEvent Obj)
  | add key data action => (lift (c.addEntry key data action)).events
  | mod key data action ttlReset => (lift (c.modEntry key data action ttlReset)).events
  | setDefault data action => (c.setDefaultEntry data action).events
  | resetDefault => c.resetDefaultEntry.events
  | getDefault print => (c.getDefaultEntry print).events
  | delete key entryHandle => (c.delEntry key entryHandle).events
  | get keyArg print entryHandle => (c.getEntry keyArg print entryHandle).events
  | getHandle keyArg => (c.getEntryHandle keyArg).events
  | getKey print => (c.getEntryKey print).events

/-- The condition on the arguments and the driver that a call has. -/
def Clears (c : EntryCli) : EntryCall → Prop
  | add key data action => c.AddModCompletes key data action 0
  | mod key data action ttlReset =>
      c.AddModCompletes key data action (if ttlReset then 0 else 1 <<< 2)
  | setDefault data action => c.SetDefaultClears data action
  | resetDefault => True
  | getDefault print => c.GetDefaultClears print
  | delete key entryHandle => c.DelClears key entryHandle
  | get keyArg print entryHandle => c.GetClears keyArg print entryHandle
  | getHandle keyArg => c.GetHandleClears keyArg
  | getKey _ => c.driver.keyAllocate 0 ≠ .success

theorem clean_trace_iff (c : EntryCli) (call : EntryCall) :
    Clean (call.trace c) ↔ call.Clears c := by
  cases call with
  | add key data action =>
    refine ((c.settles_callAddMod key data action c.driver.entryAdd 0).congr_events ?_).clean_iff
    rw [events_lift, events_lift, c.events_addEntry]
  | mod key data action ttlReset =>
    refine ((c.settles_callAddMod key data action c.driver.entryMod _).congr_events ?_).clean_iff
    rw [events_lift, events_lift, c.events_modEntry]
  | setDefault data action => exact (c.settles_setDefaultEntry data action).clean_iff
  | resetDefault => exact c.settles_resetDefaultEntry.clean_iff
  | getDefault print => exact (c.settles_getDefaultEntry print).clean_iff
  | delete key entryHandle => exact (c.settles_delEntry key entryHandle).clean_iff
  | get keyArg print entryHandle => exact (c.settles_getEntry keyArg print entryHandle).clean_iff
  | getHandle keyArg => exact (c.settles_getEntryHandle keyArg).clean_iff
  | getKey print => exact (c.settles_getEntryKey print).clean_iff

/-- A script of calls, on tables and with answers of the driver of their own, frees every object
once, none that it has not obtained, and uses none that is freed, exactly if each of its calls
meets the condition that it has. -/
theorem script_clean_iff (script : List (EntryCli × EntryCall)) :
    Clean (numbered 0 (script.map fun p => p.2.trace p.1)) ↔ ∀ p ∈ script, p.2.Clears p.1 := by
  rw [clean_numbered_iff, List.forall_mem_map]
  exact forall₂_congr fun p _ => clean_trace_iff p.1 p.2

end EntryCall
end Tdi.Cli

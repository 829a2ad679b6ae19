import Tdi.CFrontend.Session
import Tdi.Info.Devices

/-!
# The sessions of the shell

`tdi_session_dict` gets an entry for a device before the session is created, and keeps
it with a null pointer where that fails. Only a session that is destroyed takes its
entry along. The methods of `CIntfTdi` pass the entry of their device to the C API.
-/
namespace Tdi.Cli.PythonSessions

open Std Foundation Info CFrontend

/-- `_complete_operations` and the methods after it. -/
inductive SessionMethod where
  | completeOperations
  | beginBatch
  -- there is no argument for `hw_synchronous`, so it is what happens to be there
  | endBatch (hwSynchronous : Bool)
  | flushBatch
  | beginTransaction (atomic : Bool)
  | verifyTransaction
  | commitTransaction (synchronous : Bool)
  | abortTransaction

namespace SessionMethod

def call (session : Option SessionHdl) (result : TdiStatus) : SessionMethod → Call
  | completeOperations => .completeOperations session result
  | beginBatch => .beginBatch session result
  | endBatch hwSynchronous => .endBatch session hwSynchronous result
  | flushBatch => .flushBatch session result
  | beginTransaction atomic => .beginTransaction session atomic result
  | verifyTransaction => .verifyTransaction session result
  | commitTransaction synchronous => .commitTransaction session synchronous result
  | abortTransaction => .abortTransaction session result

def name : SessionMethod → String
  | completeOperations => "complete_operations"
  | beginBatch => "begin_batch"
  | endBatch _ => "end_batch"
  | flushBatch => "flush_batch"
  | beginTransaction _ => "begin_transaction"
  | verifyTransaction => "verify_transaction"
  | commitTransaction _ => "commit_transaction"
  | abortTransaction => "abort_transaction"

end SessionMethod

/-- The dictionary, and the calls of the C API so far. -/
structure State where
  tdiSessionDict : ExtTreeMap DevId (Option SessionHdl)
  calls : List Call

def start : State := ⟨∅, []⟩

inductive Raised where
  | keyError (devId : DevId)
  | exception (text : String)

namespace State

variable (s : State)

/-- What a call would do, in the state that the calls before it have left. -/
def effect (call : Call) : Effect := perform (sessionsAfter s.calls) call

def called (call : Call) : State := { s with calls := s.calls ++ [call] }

/-- `create_tdi_python_session`. The pointer stays null where no session is written to it. -/
def createTdiPythonSession (devId : DevId) (device : Option CreateReply) : Int × State :=
  if devId ∈ s.tdiSessionDict then (0, s)
  else
    let next : State :=
      ⟨s.tdiSessionDict.insert devId (device.bind CreateReply.session), s.calls ++ [.create device]⟩
    if (s.effect (.create device)).returned ≠ .status .success then (-1, next) else (0, next)

/-- `destroy_tdi_python_session` -/
def destroyTdiPythonSession (devId : DevId) (result : TdiStatus) : Int × State :=
  match s.tdiSessionDict[devId]? with
  | none => (0, s)
  | some session =>
    let call := .destroy session result
    if (s.effect call).returned ≠ .status .success then (-1, s.called call)
    else (0, ⟨s.tdiSessionDict.erase devId, s.calls ++ [call]⟩)

/-- A method of `CIntfTdi`. -/
def invoke (devId : DevId) (method : SessionMethod) (result : TdiStatus) :
    Except Raised Unit × State :=
  match s.tdiSessionDict[devId]? with
  | none => (.error (.keyError devId), s)
  | some session =>
    let call := method.call session result
    if (s.effect call).returned ≠ .status .success then
      (.error (.exception ("Error: " ++ method.name ++ " failed")), s.called call)
    else (.ok (), s.called call)

end State

inductive Op where
  | create (devId : DevId) (device : Option CreateReply)
  | destroy (devId : DevId) (result : TdiStatus)
  | invoke (devId : DevId) (method : SessionMethod) (result : TdiStatus)

def step (s : State) : Op → State
  | .create devId device => (s.createTdiPythonSession devId device).2
  | .destroy devId result => (s.destroyTdiPythonSession devId result).2
  | .invoke devId method result => (s.invoke devId method result).2

/-- The call of the C API that an operation makes. -/
def callMade (s : State) : Op → Option Call
  | .create devId device => if devId ∈ s.tdiSessionDict then none else some (.create device)
  | .destroy devId result => s.tdiSessionDict[devId]?.map fun session => .destroy session result
  | .invoke devId method result =>
    s.tdiSessionDict[devId]?.map fun session => method.call session result

section Effects

theorem call_session (method : SessionMethod) (session : Option SessionHdl) (result : TdiStatus) :
    (method.call session result).session = session := by
  cases method <;> rfl

theorem not_creates_call (method : SessionMethod) (session : Option SessionHdl)
    (result : TdiStatus) (a : SessionHdl) :
    ¬ (method.call session result).Creates a ∧ ¬ (method.call session result).Destroys a := by
  cases method <;> simp [SessionMethod.call, Call.Creates, Call.Destroys]

theorem creates_iff (device : Option CreateReply) (a : SessionHdl) :
    Call.Creates (.create device) a ↔ device.bind CreateReply.session = some a := by
  simp [Call.Creates, Option.bind_eq_some_iff]

variable (s : State)

theorem returned_destroy_iff (session : Option SessionHdl) (result : TdiStatus) :
    (s.effect (.destroy session result)).returned = .status .success ↔
      session ≠ none ∧ result = .success := by
  cases session with
  | none => simp [State.effect, perform, tdiSessionDestroy]
  | some session =>
    by_cases hresult : result = .success <;>
      simp [State.effect, perform, tdiSessionDestroy, hresult]

/-- With a null pointer only two of the methods do not raise. -/
theorem returned_null_iff (method : SessionMethod) (result : TdiStatus) :
    (s.effect (method.call none result)).returned = .status .success ↔
      method = .completeOperations ∨ method = .abortTransaction := by
  cases method <;> simp [State.effect, perform, SessionMethod.call, passOn, statusOfBool,
    tdiSessionCompleteOperations, tdiAbortTransaction, tdiBeginBatch, tdiEndBatch, tdiFlushBatch,
    tdiBeginTransaction, tdiVerifyTransaction, tdiCommitTransaction]

theorem invoked_null (method : SessionMethod) (result : TdiStatus) :
    (s.effect (method.call none result)).invoked = none := by
  cases method <;> rfl

end Effects

section Entries

variable (d : ExtTreeMap DevId (Option SessionHdl)) (devId devId' : DevId)

theorem getElem?_insert (session : Option SessionHdl) :
    (d.insert devId session)[devId']? = if devId = devId' then some session else d[devId']? := by
  rw [ExtTreeMap.getElem?_insert]
  simp only [LawfulEqCmp.compare_eq_iff_eq]

theorem getElem?_erase :
    (d.erase devId)[devId']? = if devId = devId' then none else d[devId']? := by
  rw [ExtTreeMap.getElem?_erase]
  simp only [LawfulEqCmp.compare_eq_iff_eq]

end Entries

/-- What an operation can do. -/
inductive Stepped (s : State) : Op → State → Prop where
  /-- Nothing is called for a session that is there, or without an entry. -/
  | idle {op} (h : callMade s op = none) : Stepped s op s
  | create {devId device} (hnone : s.tdiSessionDict[devId]? = none) :
    Stepped s (.create devId device) ⟨s.tdiSessionDict.insert devId
      (device.bind CreateReply.session), s.calls ++ [.create device]⟩
  | destroy {devId a} (hsome : s.tdiSessionDict[devId]? = some (some a)) :
    Stepped s (.destroy devId .success)
      ⟨s.tdiSessionDict.erase devId, s.calls ++ [.destroy (some a) .success]⟩
  | pass {op call} (h : callMade s op = some call)
    (hkeeps : ∀ a, ¬ call.Creates a ∧ ¬ call.Destroys a) : Stepped s op (s.called call)

theorem step_cases (s : State) (op : Op) : Stepped s op (step s op) := by
  cases op with
  | create devId device =>
    by_cases hmem : devId ∈ s.tdiSessionDict
    · have hstep : step s (.create devId device) = s := by
        simp [step, State.createTdiPythonSession, hmem]
      rw [hstep]
      exact .idle (if_pos hmem)
    · have hstep : step s (.create devId device) = ⟨s.tdiSessionDict.insert devId
          (device.bind CreateReply.session), s.calls ++ [.create device]⟩ := by
        simp only [step, State.createTdiPythonSession, if_neg hmem]
        split_ifs <;> rfl
      rw [hstep]
      exact .create (ExtTreeMap.getElem?_eq_none hmem)
  | destroy devId result =>
    simp only [step, State.destroyTdiPythonSession]
    split
    next hnone => exact .idle (by simp [callMade, hnone])
    next session hsome =>
      split_ifs with hreturned
      · refine .pass (by simp [callMade, hsome]) fun a => ⟨nofun, ?_⟩
        rintro hdestroys
        cases hdestroys
        exact hreturned ((returned_destroy_iff s _ _).mpr ⟨nofun, rfl⟩)
      · rw [not_not, returned_destroy_iff] at hreturned
        obtain ⟨hne, rfl⟩ := hreturned
        obtain ⟨a, rfl⟩ := Option.ne_none_iff_exists'.mp hne
        exact .destroy hsome
  | invoke devId method result =>
    simp only [step, State.invoke]
    split
    next hnone => exact .idle (by simp [callMade, hnone])
    next session hsome =>
      have hpass : Stepped s (.invoke devId method result)
          (s.called (method.call session result)) :=
        .pass (by simp [callMade, hsome]) (not_creates_call method session result)
      split_ifs <;> exact hpass

section Live

/-- A new session is none of those that are live. -/
def Fresh (s : State) (op : Op) : Prop :=
  ∀ devId device a, op = .create devId device → device.bind CreateReply.session = some a →
    ¬ Live s.calls a

/-- The sessions of the dictionary are the live ones, and each belongs to one device. -/
structure Inv (s : State) : Prop where
  live_iff : ∀ a, Live s.calls a ↔ ∃ devId : DevId, s.tdiSessionDict[devId]? = some (some a)
  distinct : ∀ (devId devId' : DevId) (a : SessionHdl), s.tdiSessionDict[devId]? = some (some a) →
    s.tdiSessionDict[devId']? = some (some a) → devId = devId'

theorem inv_start : Inv start where
  live_iff a := by
    refine iff_of_false (not_liveAfter_nil a) ?_
    rintro ⟨devId, h⟩
    rw [start, ExtTreeMap.getElem?_empty] at h
    cases h
  distinct devId devId' a h := by
    rw [start, ExtTreeMap.getElem?_empty] at h
    cases h

variable {s : State} {op : Op}

theorem live_concat (calls : List Call) (call : Call) (a : SessionHdl) :
    Live (calls ++ [call]) a ↔ call.Creates a ∨ Live calls a ∧ ¬ call.Destroys a :=
  liveAfter_concat

theorem Inv.step (h : Inv s) (hfresh : Fresh s op) : Inv (step s op) := by
  have hcases := step_cases s op
  generalize PythonSessions.step s op = t at hcases
  cases hcases with
  | idle => exact h
  | pass hcall hkeeps =>
    refine ⟨fun a => ?_, h.distinct⟩
    rw [State.called, live_concat, h.live_iff]
    simp [hkeeps a]
  | @create devId device hnone =>
    have hnew : ∀ a (devId' : DevId), device.bind CreateReply.session = some a →
        s.tdiSessionDict[devId']? ≠ some (some a) := fun a devId' hdevice hold =>
      hfresh devId device a rfl hdevice ((h.live_iff a).mpr ⟨devId', hold⟩)
    constructor
    · intro a
      rw [live_concat, creates_iff, h.live_iff]
      constructor
      · rintro (hcreated | ⟨⟨devId', hold⟩, -⟩)
        · exact ⟨devId, by rw [getElem?_insert, if_pos rfl, hcreated]⟩
        · refine ⟨devId', ?_⟩
          rw [getElem?_insert, if_neg, hold]
          rintro rfl
          rw [hnone] at hold
          cases hold
      · rintro ⟨devId', hnow⟩
        rw [getElem?_insert] at hnow
        split_ifs at hnow
        · exact .inl (Option.some.inj hnow)
        · exact .inr ⟨⟨devId', hnow⟩, nofun⟩
    · intro devId₁ devId₂ a h₁ h₂
      rw [getElem?_insert] at h₁ h₂
      split_ifs at h₁ h₂ with he₁ he₂ he₂
      · exact he₁.symm.trans he₂
      · exact absurd h₂ (hnew a devId₂ (Option.some.inj h₁))
      · exact absurd h₁ (hnew a devId₁ (Option.some.inj h₂))
      · exact h.distinct devId₁ devId₂ a h₁ h₂
  | @destroy devId a hsome =>
    constructor
    · intro b
      have hdestroys : (Call.destroy (some a) .success).Destroys b ↔ a = b := by
        simp [Call.Destroys]
      rw [live_concat, h.live_iff, hdestroys]
      constructor
      · rintro (⟨reply, hcreate, -⟩ | ⟨⟨devId', hold⟩, hne⟩)
        · cases hcreate
        · refine ⟨devId', ?_⟩
          rw [getElem?_erase, if_neg, hold]
          rintro rfl
          rw [hsome] at hold
          exact hne (Option.some.inj (Option.some.inj hold))
      · rintro ⟨devId', hnow⟩
        rw [getElem?_erase] at hnow
        split_ifs at hnow with hne
        refine .inr ⟨⟨devId', hnow⟩, ?_⟩
        rintro rfl
        exact hne (h.distinct devId devId' a hsome hnow)
    · intro devId₁ devId₂ b h₁ h₂
      rw [getElem?_erase] at h₁ h₂
      split_ifs at h₁ h₂
      exact h.distinct devId₁ devId₂ b h₁ h₂

/-- The operation asks for a method that does not notice that its pointer is null. -/
def Unnoticed (s : State) (op : Op) : Prop :=
  ∃ (devId : DevId) (result : TdiStatus), s.tdiSessionDict[devId]? = some none ∧
    (op = .invoke devId .completeOperations result ∨ op = .invoke devId .abortTransaction result)

theorem call_eq_completeOperations_iff (method : SessionMethod) (session : Option SessionHdl)
    (result result' : TdiStatus) : method.call session result = .completeOperations none result' ↔
      session = none ∧ method = .completeOperations ∧ result = result' := by
  cases method <;> simp [SessionMethod.call]

theorem call_eq_abortTransaction_iff (method : SessionMethod) (session : Option SessionHdl)
    (result result' : TdiStatus) : method.call session result = .abortTransaction none result' ↔
      session = none ∧ method = .abortTransaction ∧ result = result' := by
  cases method <;> simp [SessionMethod.call]

theorem Inv.permitted_iff (h : Inv s) {call : Call} (hcall : callMade s op = some call) :
    Permitted (Live s.calls) call ↔ ¬ Unnoticed s op := by
  cases op with
  | create devId device =>
    obtain ⟨-, hcall⟩ := Option.ite_none_left_eq_some.mp hcall
    cases hcall
    refine iff_of_true ⟨nofun, fun _ => ⟨nofun, nofun⟩⟩ ?_
    rintro ⟨_, _, -, he | he⟩ <;> cases he
  | destroy devId result =>
    obtain ⟨session, hsession, rfl⟩ := Option.map_eq_some_iff.mp hcall
    refine iff_of_true ⟨fun a ha => ?_, fun _ => ⟨nofun, nofun⟩⟩ ?_
    · rw [show session = some a from ha] at hsession
      exact (h.live_iff a).mpr ⟨devId, hsession⟩
    · rintro ⟨_, _, -, he | he⟩ <;> cases he
  | invoke devId method result =>
    obtain ⟨session, hsession, rfl⟩ := Option.map_eq_some_iff.mp hcall
    constructor
    · rintro hpermitted ⟨_, _, hnull, he | he⟩
      all_goals
        cases he
        rw [hsession] at hnull
        cases hnull
      · exact (hpermitted.null_refused result).1 rfl
      · exact (hpermitted.null_refused result).2 rfl
    · intro hnoticed
      constructor
      · intro a ha
        rw [call_session] at ha
        rw [ha] at hsession
        exact (h.live_iff a).mpr ⟨devId, hsession⟩
      · intro result'
        rw [ne_eq, call_eq_completeOperations_iff, ne_eq, call_eq_abortTransaction_iff]
        constructor
        · rintro ⟨rfl, rfl, rfl⟩
          exact hnoticed ⟨devId, result, hsession, .inl rfl⟩
        · rintro ⟨rfl, rfl, rfl⟩
          exact hnoticed ⟨devId, result, hsession, .inr rfl⟩

/-- In every run in which new sessions are new, the sessions that are live are those of the
dictionary, each of one device, so that none is leaked and no method of a destroyed session is
called. A call pretends success only for a method that does not notice a null pointer. -/
theorem sessions_live (h : Reaches (fun s op => some (step s op)) Fresh start s) :
    (∀ a, Live s.calls a ↔ ∃ devId : DevId, s.tdiSessionDict[devId]? = some (some a)) ∧
    (∀ (devId devId' : DevId) (a : SessionHdl), s.tdiSessionDict[devId]? = some (some a) →
      s.tdiSessionDict[devId']? = some (some a) → devId = devId') ∧
    ∀ op call, callMade s op = some call →
      (Honest (Live s.calls) call (s.effect call) ↔ ¬ Unnoticed s op) := by
  have hinv : Inv s := h.invariant (fun _ _ _ hi hfresh hnext => by
    cases hnext
    exact hi.step hfresh) inv_start
  refine ⟨hinv.live_iff, hinv.distinct, fun op call hcall => ?_⟩
  rw [← hinv.permitted_iff hcall]
  exact ⟨Permitted.of_honest _, Permitted.honest _⟩

/-- A session is created for one device, and none for another. -/
def oneCreated : State := run step start [.create 0 (some ⟨.success, some 7⟩), .create 1 none]

theorem sessions_live_oneCreated :
    Live oneCreated.calls 7 ∧ ¬ Honest (Live oneCreated.calls) (.abortTransaction none .success)
      (oneCreated.effect (.abortTransaction none .success)) := by
  have hfirst : Reaches (fun s op => some (step s op)) Fresh start
      (step start (.create 0 (some ⟨.success, some 7⟩))) :=
    Reaches.refl.tail (fun _ _ a _ _ => not_liveAfter_nil a) rfl
  have hreach : Reaches (fun s op => some (step s op)) Fresh start oneCreated := by
    refine hfirst.tail (e := .create 1 none) ?_ rfl
    rintro devId device a ⟨⟩ ⟨⟩
  obtain ⟨hlive, -, hhonest⟩ := sessions_live hreach
  constructor
  · exact (hlive 7).mpr ⟨0, rfl⟩
  · have hpretends := hhonest (.invoke 1 .abortTransaction .success)
      (.abortTransaction none .success) rfl
    exact fun h => hpretends.mp h ⟨1, .success, rfl, .inr rfl⟩

end Live

section Null

variable {s : State} {devId : DevId}

/-- A null pointer stays. -/
theorem null_step (h : s.tdiSessionDict[devId]? = some none) (op : Op) :
    (step s op).tdiSessionDict[devId]? = some none := by
  have hcases := step_cases s op
  generalize step s op = t at hcases
  cases hcases with
  | idle => exact h
  | pass => exact h
  | @create devId' device hnone =>
    rw [getElem?_insert, if_neg, h]
    rintro rfl
    rw [hnone] at h
    cases h
  | @destroy devId' a hsome =>
    rw [getElem?_erase, if_neg, h]
    rintro rfl
    rw [hsome] at h
    cases h

/-- A null pointer comes from a device that has given no session. -/
theorem null_of_step {op : Op} (h : (step s op).tdiSessionDict[devId]? = some none) :
    s.tdiSessionDict[devId]? = some none ∨
      ∃ device, op = .create devId device ∧ s.tdiSessionDict[devId]? = none ∧
        device.bind CreateReply.session = none := by
  have hcases := step_cases s op
  generalize step s op = t at hcases h
  cases hcases with
  | idle => exact .inl h
  | pass => exact .inl h
  | @create devId' device hnone =>
    rw [getElem?_insert] at h
    split_ifs at h with he
    · subst he
      exact .inr ⟨device, rfl, hnone, Option.some.inj h⟩
    · exact .inl h
  | @destroy devId' a hsome =>
    rw [getElem?_erase] at h
    split_ifs at h
    exact .inl h

theorem null_create (device : Option CreateReply) (hnone : s.tdiSessionDict[devId]? = none)
    (hdevice : device.bind CreateReply.session = none) :
    (step s (.create devId device)).tdiSessionDict[devId]? = some none := by
  have hmem : devId ∉ s.tdiSessionDict := by
    rw [ExtTreeMap.mem_iff_isSome_getElem?, hnone]
    nofun
  have hdict : (step s (.create devId device)).tdiSessionDict =
      s.tdiSessionDict.insert devId (device.bind CreateReply.session) := by
    simp only [step, State.createTdiPythonSession, if_neg hmem]
    split_ifs <;> rfl
  rw [hdict, getElem?_insert, if_pos rfl, hdevice]

/-- A session is reported as created, cannot be destroyed, and only the two methods that do not
notice the null pointer succeed. No method of a session is called. -/
structure Stuck (s : State) (devId : DevId) : Prop where
  created : ∀ device, s.createTdiPythonSession devId device = (0, s)
  destroyed : ∀ result, (s.destroyTdiPythonSession devId result).1 = -1
  invoked_iff : ∀ method result, (∃ t, s.invoke devId method result = (.ok (), t)) ↔
    method = .completeOperations ∨ method = .abortTransaction
  uncalled : ∀ method result call, callMade s (.invoke devId method result) = some call →
    (s.effect call).invoked = none

theorem stuck_of_null (h : s.tdiSessionDict[devId]? = some none) : Stuck s devId where
  created device := by
    have hmem : devId ∈ s.tdiSessionDict := by
      rw [ExtTreeMap.mem_iff_isSome_getElem?, h]
      rfl
    rw [State.createTdiPythonSession, if_pos hmem]
  destroyed result := by
    have hreturned := returned_destroy_iff s none result
    simp only [State.destroyTdiPythonSession, h]
    rw [if_pos fun he => (hreturned.mp he).1 rfl]
  invoked_iff method result := by
    rw [← returned_null_iff s method result]
    simp only [State.invoke, h]
    split_ifs with hreturned
    · simp [hreturned]
    · simpa using hreturned
  uncalled method result call hcall := by
    rw [callMade, h] at hcall
    cases hcall
    exact invoked_null s method result

/-- An entry is null exactly if some call has found none and got no session, and from then on it
is so forever. -/
theorem null_session_stuck (ops : List Op) (devId : DevId) :
    ((run step start ops).tdiSessionDict[devId]? = some none ↔
      ∃ pre device post, ops = pre ++ .create devId device :: post ∧
        (run step start pre).tdiSessionDict[devId]? = none ∧
        device.bind CreateReply.session = none) ∧
    ((run step start ops).tdiSessionDict[devId]? = some none →
      ∀ more, Stuck (run step start (ops ++ more)) devId) := by
  have hstays : ∀ s : State, s.tdiSessionDict[devId]? = some none → ∀ more,
      (run step s more).tdiSessionDict[devId]? = some none := fun s hs more =>
    run_invariant (I := fun s : State => s.tdiSessionDict[devId]? = some none)
      (fun _ op h => null_step h op) hs more
  have happend : ∀ pre more, run step start (pre ++ more) = run step (run step start pre) more :=
    fun _ _ => List.foldl_append
  constructor
  · constructor
    · intro h
      induction ops using List.reverseRecOn with
      | nil =>
        rw [run_nil, start, ExtTreeMap.getElem?_empty] at h
        cases h
      | append_singleton ops op ih =>
        rw [run_concat] at h
        rcases null_of_step h with hbefore | ⟨device, rfl, hnone, hdevice⟩
        · obtain ⟨pre, device, post, rfl, hpre⟩ := ih hbefore
          exact ⟨pre, device, post ++ [op], by simp, hpre⟩
        · exact ⟨ops, device, [], rfl, hnone, hdevice⟩
    · rintro ⟨pre, device, post, rfl, hnone, hdevice⟩
      rw [happend]
      exact hstays _ (null_create device hnone hdevice) post
  · intro h more
    rw [happend]
    exact stuck_of_null (hstays _ h more)

end Null
end Tdi.Cli.PythonSessions

import Tdi.Defs
import Tdi.Foundation.Lifetimes

/-!
# The session C API

An entry point gets a raw pointer, calls a method of the session behind it and
returns what the method returns. The shared pointers of the sessions are kept in
`sessionStateMap`, which `tdi_session_create` and `tdi_session_destroy` maintain.
-/
namespace Tdi.CFrontend

open Foundation

/-- A session pointer that is not null. -/
abbrev SessionHdl := ℕ

/-- `sessionStateMap`: every pointer maps to the shared pointer of its own object. -/
abbrev SessionStateMap := Finset SessionHdl

namespace SessionStateMap

variable (sessions : SessionStateMap) (session : SessionHdl)

def insertShared : SessionStateMap :=
  if session ∈ sessions then sessions else insert session sessions

def removeShared : SessionStateMap :=
  if session ∉ sessions then sessions else sessions.erase session

theorem mem_insertShared {other : SessionHdl} :
    other ∈ insertShared sessions session ↔ session = other ∨ other ∈ sessions := by
  unfold insertShared
  split_ifs with h
  · exact ⟨.inr, fun hor => hor.elim (fun he => he ▸ h) id⟩
  · rw [Finset.mem_insert, eq_comm]

theorem mem_removeShared {other : SessionHdl} :
    other ∈ removeShared sessions session ↔ other ∈ sessions ∧ ¬ session = other := by
  unfold removeShared
  split_ifs with h
  · rw [Finset.mem_erase, and_comm, ne_comm]
  · exact ⟨fun hmem => ⟨hmem, fun he => h (he ▸ hmem)⟩, fun hand => hand.1⟩

end SessionStateMap

/-- The methods of `Session` that the entry points call. -/
inductive Method where
  | destroy
  | isValid
  | completeOperations
  | beginBatch
  | flushBatch
  | endBatch (hwSynchronous : Bool)
  | beginTransaction (isAtomic : Bool)
  | verifyTransaction
  | commitTransaction (hwSynchronous : Bool)
  | abortTransaction
  deriving DecidableEq

/-- What `Device::createSession` returns, and the session it stores, if any. -/
structure CreateReply where
  status : TdiStatus
  session : Option SessionHdl

inductive Return where
  | status (status : TdiStatus)
  | valid (valid : Bool)
  deriving DecidableEq

/-- What an entry point does: the map it leaves, the session it calls a method of with
the method, and what it returns. -/
structure Effect where
  sessions : SessionStateMap
  invoked : Option (SessionHdl × Method)
  returned : Return

/-- A `bool` that is returned as a `tdi_status_t`. -/
def statusOfBool : Bool → TdiStatus
  | false => .success
  | true => .notReady

section EntryPoints

variable (sessions : SessionStateMap)

/-- The status of `createSession` is not looked at. -/
def tdiSessionCreate (device : Option CreateReply) : Effect :=
  match device with
  | none => ⟨sessions, none, .status .unexpected⟩
  | some reply =>
    match reply.session with
    | none => ⟨sessions, none, .status .unexpected⟩
    | some sess => ⟨sessions.insertShared sess, none, .status .success⟩

variable (session : Option SessionHdl)

def tdiSessionDestroy (result : TdiStatus) : Effect :=
  match session with
  | none => ⟨sessions, none, .status .invalidArg⟩
  | some sess =>
    if result ≠ .success then ⟨sessions, some (sess, .destroy), .status result⟩
    else ⟨sessions.removeShared sess, some (sess, .destroy), .status .success⟩

def tdiSessionIsValid (result : Bool) : Effect :=
  match session with
  | none => ⟨sessions, none, .valid false⟩
  | some sess => ⟨sessions, some (sess, .isValid), .valid result⟩

/-- An entry point that passes on the status of a method, or returns `ifNull`. -/
def passOn (ifNull : TdiStatus) (method : Method) (result : TdiStatus) : Effect :=
  match session with
  | none => ⟨sessions, none, .status ifNull⟩
  | some sess => ⟨sessions, some (sess, method), .status result⟩

def tdiSessionCompleteOperations (result : TdiStatus) : Effect :=
  -- `return false`
  passOn sessions session (statusOfBool false) .completeOperations result

def tdiBeginBatch (result : TdiStatus) : Effect :=
  passOn sessions session .invalidArg .beginBatch result

def tdiFlushBatch (result : TdiStatus) : Effect :=
  passOn sessions session .invalidArg .flushBatch result

def tdiEndBatch (hwSynchronous : Bool) (result : TdiStatus) : Effect :=
  passOn sessions session .invalidArg (.endBatch hwSynchronous) result

def tdiBeginTransaction (isAtomic : Bool) (result : TdiStatus) : Effect :=
  passOn sessions session .invalidArg (.beginTransaction isAtomic) result

def tdiVerifyTransaction (result : TdiStatus) : Effect :=
  passOn sessions session .invalidArg .verifyTransaction result

def tdiCommitTransaction (hwSynchronous : Bool) (result : TdiStatus) : Effect :=
  passOn sessions session .invalidArg (.commitTransaction hwSynchronous) result

def tdiAbortTransaction (result : TdiStatus) : Effect :=
  -- `return false`
  passOn sessions session (statusOfBool false) .abortTransaction result

end EntryPoints

/-- A call with its arguments and with what the method it reaches would return. -/
inductive Call where
  | create (device : Option CreateReply)
  | destroy (session : Option SessionHdl) (result : TdiStatus)
  | isValid (session : Option SessionHdl) (result : Bool)
  | completeOperations (session : Option SessionHdl) (result : TdiStatus)
  | beginBatch (session : Option SessionHdl) (result : TdiStatus)
  | flushBatch (session : Option SessionHdl) (result : TdiStatus)
  | endBatch (session : Option SessionHdl) (hwSynchronous : Bool) (result : TdiStatus)
  | beginTransaction (session : Option SessionHdl) (isAtomic : Bool) (result : TdiStatus)
  | verifyTransaction (session : Option SessionHdl) (result : TdiStatus)
  | commitTransaction (session : Option SessionHdl) (hwSynchronous : Bool) (result : TdiStatus)
  | abortTransaction (session : Option SessionHdl) (result : TdiStatus)

namespace Call

/-- The handle that is passed to the call. -/
def session : Call → Option SessionHdl
  | create _ => none
  | destroy session _ => session
  | isValid session _ => session
  | completeOperations session _ => session
  | beginBatch session _ => session
  | flushBatch session _ => session
  | endBatch session _ _ => session
  | beginTransaction session _ _ => session
  | verifyTransaction session _ => session
  | commitTransaction session _ _ => session
  | abortTransaction session _ => session

/-- The method of the session that the call is for, and what the method returns. -/
def method : Call → Option (Method × Return)
  | create _ => none
  | destroy _ result => some (.destroy, .status result)
  | isValid _ result => some (.isValid, .valid result)
  | completeOperations _ result => some (.completeOperations, .status result)
  | beginBatch _ result => some (.beginBatch, .status result)
  | flushBatch _ result => some (.flushBatch, .status result)
  | endBatch _ hwSynchronous result => some (.endBatch hwSynchronous, .status result)
  | beginTransaction _ isAtomic result => some (.beginTransaction isAtomic, .status result)
  | verifyTransaction _ result => some (.verifyTransaction, .status result)
  | commitTransaction _ hwSynchronous result =>
    some (.commitTransaction hwSynchronous, .status result)
  | abortTransaction _ result => some (.abortTransaction, .status result)

/-- A successful create of a handle. -/
def Creates (call : Call) (a : SessionHdl) : Prop :=
  ∃ reply, call = .create (some reply) ∧ reply.session = some a

/-- A successful destroy of a handle. -/
def Destroys (call : Call) (a : SessionHdl) : Prop := call = .destroy (some a) .success

end Call

def perform (sessions : SessionStateMap) : Call → Effect
  | .create device => tdiSessionCreate sessions device
  | .destroy session result => tdiSessionDestroy sessions session result
  | .isValid session result => tdiSessionIsValid sessions session result
  | .completeOperations session result => tdiSessionCompleteOperations sessions session result
  | .beginBatch session result => tdiBeginBatch sessions session result
  | .flushBatch session result => tdiFlushBatch sessions session result
  | .endBatch session hwSynchronous result => tdiEndBatch sessions session hwSynchronous result
  | .beginTransaction session isAtomic result =>
    tdiBeginTransaction sessions session isAtomic result
  | .verifyTransaction session result => tdiVerifyTransaction sessions session result
  | .commitTransaction session hwSynchronous result =>
    tdiCommitTransaction sessions session hwSynchronous result
  | .abortTransaction session result => tdiAbortTransaction sessions session result

/-- The map after a list of calls on a new state. -/
def sessionsAfter (calls : List Call) : SessionStateMap :=
  run (fun sessions call => (perform sessions call).sessions) ∅ calls

/-- A handle is live from a successful create until it is destroyed. -/
def Live (calls : List Call) : SessionHdl → Prop := LiveAfter Call.Creates Call.Destroys calls

theorem mem_sessions_perform (sessions : SessionStateMap) (call : Call) (a : SessionHdl) :
    a ∈ (perform sessions call).sessions ↔
      call.Creates a ∨ a ∈ sessions ∧ ¬ call.Destroys a := by
  cases call with
  | create device =>
    rcases device with _ | ⟨status, _ | sess⟩ <;>
      simp [perform, tdiSessionCreate, Call.Creates, Call.Destroys,
        SessionStateMap.mem_insertShared]
  | destroy session result =>
    rcases session with _ | sess
    · simp [perform, tdiSessionDestroy, Call.Creates, Call.Destroys]
    · by_cases hresult : result = .success <;>
        simp [perform, tdiSessionDestroy, Call.Creates, Call.Destroys, hresult,
          SessionStateMap.mem_removeShared]
  | isValid session result =>
    cases session <;> simp [perform, tdiSessionIsValid, Call.Creates, Call.Destroys]
  | _ session =>
    cases session <;> simp [perform, Call.Creates, Call.Destroys, passOn,
      tdiSessionCompleteOperations, tdiBeginBatch, tdiFlushBatch, tdiEndBatch,
      tdiBeginTransaction, tdiVerifyTransaction, tdiCommitTransaction, tdiAbortTransaction]

/-- The map holds the live handles. -/
theorem mem_sessionsAfter (calls : List Call) (a : SessionHdl) :
    a ∈ sessionsAfter calls ↔ Live calls a :=
  holds_run_iff_liveAfter (fun sessions a => a ∈ sessions) mem_sessions_perform
    Finset.notMem_empty calls a

/-- What a call may do when these handles are live: it calls methods of live sessions
only, its success is the success of the method it is for, and only a live session is
reported as valid. A create is for no method of a session. -/
structure Honest (live : SessionHdl → Prop) (call : Call) (effect : Effect) : Prop where
  invoked_live : ∀ a m, effect.invoked = some (a, m) → live a
  success_earned : (∀ device, call ≠ .create device) → effect.returned = .status .success →
    ∃ a m, effect.invoked = some (a, m) ∧ live a ∧ call.method = some (m, .status .success)
  valid_live : effect.returned = .valid true → ∃ a, call.session = some a ∧ live a

/-- The handle is null or live, and null goes to no entry point that returns `false`. -/
structure Permitted (live : SessionHdl → Prop) (call : Call) : Prop where
  live_of_session : ∀ a, call.session = some a → live a
  null_refused : ∀ result, call ≠ .completeOperations none result ∧
    call ≠ .abortTransaction none result

section Steps

variable (sessions : SessionStateMap) {live : SessionHdl → Prop} {call : Call}

/-- With a pointer that is not null, the method is called and its result passed on. -/
theorem perform_of_session {a : SessionHdl} (ha : call.session = some a) :
    ∃ m result, call.method = some (m, result) ∧
      (perform sessions call).invoked = some (a, m) ∧
      (perform sessions call).returned = result := by
  cases call with
  | create device => cases ha
  | destroy session result =>
    cases ha
    refine ⟨.destroy, .status result, rfl, ?_⟩
    by_cases hresult : result = .success <;> simp [perform, tdiSessionDestroy, hresult]
  | _ =>
    cases ha
    exact ⟨_, _, rfl, rfl, rfl⟩

theorem perform_of_null (hcall : ∀ device, call ≠ .create device) (hnull : call.session = none) :
    (perform sessions call).invoked = none ∧
      (perform sessions call).returned ≠ .valid true ∧
      ((perform sessions call).returned = .status .success ↔ ∃ result,
        call = .completeOperations none result ∨ call = .abortTransaction none result) := by
  cases call with
  | create device => exact absurd rfl (hcall device)
  | completeOperations session result =>
    cases hnull
    simp [perform, tdiSessionCompleteOperations, passOn, statusOfBool]
  | abortTransaction session result =>
    cases hnull
    simp [perform, tdiAbortTransaction, passOn, statusOfBool]
  | _ =>
    cases hnull
    simp [perform, tdiSessionDestroy, tdiSessionIsValid, passOn, tdiBeginBatch, tdiFlushBatch,
      tdiEndBatch, tdiBeginTransaction, tdiVerifyTransaction, tdiCommitTransaction]

theorem perform_create (device : Option CreateReply) :
    (perform sessions (.create device)).invoked = none ∧
      (perform sessions (.create device)).returned ≠ .valid true := by
  rcases device with _ | ⟨status, _ | sess⟩ <;> simp [perform, tdiSessionCreate]

theorem Permitted.of_honest (h : Honest live call (perform sessions call)) :
    Permitted live call where
  live_of_session a ha := by
    obtain ⟨m, result, -, hinvoked, -⟩ := perform_of_session sessions ha
    exact h.invoked_live a m hinvoked
  null_refused result := by
    have hrefused : ∀ call' : Call, call'.session = none → (∀ device, call' ≠ .create device) →
        (∃ result, call' = .completeOperations none result ∨
          call' = .abortTransaction none result) → call ≠ call' := by
      rintro call' hnull hcreate hfalse rfl
      obtain ⟨hinvoked, -, hsuccess⟩ := perform_of_null sessions hcreate hnull
      obtain ⟨a, m, ha, -⟩ := h.success_earned hcreate (hsuccess.mpr hfalse)
      rw [hinvoked] at ha
      cases ha
    exact ⟨hrefused _ rfl nofun ⟨result, .inl rfl⟩, hrefused _ rfl nofun ⟨result, .inr rfl⟩⟩

theorem Permitted.honest (h : Permitted live call) :
    Honest live call (perform sessions call) := by
  cases hsession : call.session with
  | some a =>
    obtain ⟨m, result, hmethod, hinvoked, hreturned⟩ :=
      perform_of_session sessions hsession
    have hlive := h.live_of_session a hsession
    refine ⟨fun a' m' ha' => ?_, fun _ hsuccess => ?_, fun _ => ⟨a, hsession, hlive⟩⟩
    · rw [hinvoked] at ha'
      cases ha'
      exact hlive
    · rw [hreturned] at hsuccess
      exact ⟨a, m, hinvoked, hlive, hsuccess ▸ hmethod⟩
  | none =>
    by_cases hcreate : ∃ device, call = .create device
    · obtain ⟨device, rfl⟩ := hcreate
      obtain ⟨hinvoked, hvalid⟩ := perform_create sessions device
      exact ⟨by simp [hinvoked], fun hne => absurd rfl (hne device), fun hv => absurd hv hvalid⟩
    · push Not at hcreate
      obtain ⟨hinvoked, hvalid, hsuccess⟩ :=
        perform_of_null sessions hcreate hsession
      refine ⟨by simp [hinvoked], fun _ hreturned => ?_, fun hv => absurd hv hvalid⟩
      obtain ⟨result, hfalse⟩ := hsuccess.mp hreturned
      exact absurd hfalse (not_or.mpr (h.null_refused result))

end Steps

/-- Every call of a run is honest exactly when every call of the run is permitted. -/
theorem honest_run_iff (calls : List Call) :
    (∀ pre call, pre ++ [call] <+: calls →
      Honest (Live pre) call (perform (sessionsAfter pre) call)) ↔
    ∀ pre call, pre ++ [call] <+: calls → Permitted (Live pre) call :=
  ⟨fun h pre call hpre => .of_honest (sessionsAfter pre) (h pre call hpre),
    fun h pre call hpre => (h pre call hpre).honest (sessionsAfter pre)⟩

def createdAndDestroyed : List Call :=
  [.create (some ⟨.success, some 1⟩), .destroy (some 1) .success]

/-- A batch is begun on a destroyed session, and aborting a null session succeeds. -/
theorem session_calls_dishonest :
    ¬ Honest (Live createdAndDestroyed) (.beginBatch (some 1) .success)
      (perform (sessionsAfter createdAndDestroyed) (.beginBatch (some 1) .success)) ∧
    ¬ Honest (Live []) (.abortTransaction none .success)
      (perform (sessionsAfter []) (.abortTransaction none .success)) := by
  constructor
  · intro h
    have hlive := (mem_sessionsAfter createdAndDestroyed 1).mpr (h.invoked_live 1 .beginBatch rfl)
    exact absurd hlive (by decide)
  · intro h
    obtain ⟨a, m, hinvoked, -⟩ := h.success_earned nofun rfl
    cases hinvoked

end Tdi.CFrontend

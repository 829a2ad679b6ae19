import Tdi.Cli.DumpBalance

/-!
# What a dump hands over

The driver has the entries of a table in an order, answers `get_first` with the first one and
`get_next_n` with those that follow the entry of a key. The loop of `dump` then hands over
full batches, and last one that is not full, which is not handed over if it is empty.

The objects are numbered as they are allocated, and as no batch before the last one is cut
short, the key and the data of an entry have the number of its place in the table.
-/
namespace Tdi.Cli

open Foundation HandleEvent

section Handles

variable {kind : HandleKind} {first n : ℕ}

/-- Handles of a kind that are allocated one after the other. -/
def handles (kind : HandleKind) (first n : ℕ) : List Handle :=
  (List.range' first n).map (Handle.mk kind)

@[simp] theorem length_handles : (handles kind first n).length = n := by simp [handles]

@[simp] theorem handles_zero : handles kind first 0 = [] := rfl

theorem mem_handles {h : Handle} :
    h ∈ handles kind first n ↔ h.kind = kind ∧ first ≤ h.index ∧ h.index < first + n := by
  obtain ⟨k, i⟩ := h
  simp only [handles, List.mem_map, List.mem_range'_1, Handle.mk.injEq]
  constructor
  · rintro ⟨j, hj, rfl, rfl⟩
    exact ⟨rfl, hj⟩
  · rintro ⟨rfl, hi⟩
    exact ⟨i, hi, rfl, rfl⟩

theorem handles_succ :
    handles kind first (n + 1) = ⟨kind, first⟩ :: handles kind (first + 1) n := by
  simp [handles, List.range'_succ]

theorem handles_append (m : ℕ) :
    handles kind first n ++ handles kind (first + n) m = handles kind first (n + m) := by
  simp [handles, ← List.map_append, List.range'_append_1]

theorem handles_concat :
    handles kind first (n + 1) = handles kind first n ++ [⟨kind, first + n⟩] := by
  rw [← handles_append 1]
  rfl

theorem take_handles {m : ℕ} (hm : m ≤ n) :
    (handles kind first n).take m = handles kind first m := by
  rw [show n = m + (n - m) by omega, ← handles_append, List.take_left' length_handles]

/-- Objects hold the items of a list in order. -/
theorem map_handles_eq_iff {E : Type} {held : Handle → Option E} {items : List E}
    (hitems : items.length = n) :
    (handles kind first n).map held = items.map some ↔
      ∀ j < n, held ⟨kind, first + j⟩ = items[j]? := by
  subst hitems
  constructor
  · intro h j hj
    have hget := congrArg (·[j]?) h
    simpa [handles, hj] using hget
  · intro h
    apply List.ext_getElem
    · simp
    · intro j hj _
      rw [List.length_map, length_handles] at hj
      simp [handles, h j hj, hj]

end Handles

/-- What the driver says of a call of `get_next_n`, where `held` is the entry whose key or data
an object holds. Only when there are no more entries it may answer that there are none. -/
def Answers {E : Type} (entries : List E) (held : Handle → Option E) (prevKey : Handle) (n : ℕ)
    (hdls : List Handle × List Handle) (answer : TdiStatus × ℕ) : Prop :=
  ∀ before e rest, entries = before ++ e :: rest → held prevKey = some e →
    answer.2 = min n rest.length ∧
    (answer.1 = .success ∨ answer.1 = .objectNotFound ∧ rest.length ≤ n) ∧
    (hdls.1.take answer.2).map held = (rest.take n).map some ∧
    (hdls.2.take answer.2).map held = (rest.take n).map some

namespace TableCli

variable (c : TableCli)

/-- The calls that are not about the entries of the table succeed. -/
structure Obliges : Prop where
  first_supported : "get_first" ∈ c.table.supportedCommands
  next_supported : "get_next_n" ∈ c.table.supportedCommands
  key : ∀ i, c.driver.keyAllocate i = .success
  data : ∀ i, c.driver.dataAllocate none i = .success
  flags : ∀ i, c.driver.flagsCreate 0 i = .success
  flagMap : ∃ v, c.flagMap = .ok v
  action : ∀ h, (c.driver.dataActionId h).1 = .success

/-- The states in which the loop of `dump` starts a round. -/
def Reached (handler : EntryHandler) (st : DumpState) : Prop :=
  Relation.ReflTransGen (fun st st' => (c.dumpRound handler st).result = .ok (some st'))
    (.start ⟨.key, 0⟩ ⟨.data, 0⟩) st

/-- The driver serves the entries of a table in their order: it answers `get_first` with the
first one, and each call of `get_next_n` that `dump` makes with the next ones. -/
structure Serves {E : Type} (handler : EntryHandler) (entries : List E)
    (held : Handle → Option E) : Prop where
  status : c.driver.entryGetFirst = .success
  first_key : held ⟨.key, 0⟩ = entries.head?
  first_data : held ⟨.data, 0⟩ = entries.head?
  next : ∀ st, c.Reached handler st → ∀ hdls,
    (c.allocateBatch st.allocated (20 - st.keyHdls.length)).result = .ok hdls →
    Answers entries held st.prevKeyHdl (20 - st.keyHdls.length) hdls
      (c.driver.entryGetNextN st.batches)

/-- A round of the loop in `dump`, with what `get_next` returns in it. -/
structure DumpRound where
  st : DumpState
  nextKeyHdls : List Handle
  nextDataHdls : List Handle
  returned : (c.getNext st.prevKeyHdl (20 - st.keyHdls.length) st.allocated st.batches).result =
    .ok (some (nextKeyHdls, nextDataHdls))

namespace DumpRound

variable {c} (r : c.DumpRound)

def keyHdls : List Handle := r.st.keyHdls ++ r.nextKeyHdls

def dataHdls : List Handle := r.st.dataHdls ++ r.nextDataHdls

/-- What happens up to the return of `get_next`. -/
def callEvents : List (HandleEvent Handle) :=
  (c.getNext r.st.prevKeyHdl (20 - r.st.keyHdls.length) r.st.allocated r.st.batches).events

def events (handler : EntryHandler) : List (HandleEvent Handle) :=
  r.callEvents ++
    (c.handleBatch handler r.st (20 - r.st.keyHdls.length) r.keyHdls r.dataHdls).events

/-- The batches that are handed over: an empty one ends the loop before that. -/
def handed (run : List c.DumpRound) : List (List Handle × List Handle) :=
  (run.map fun r => (r.keyHdls, r.dataHdls)).filter (·.1 ≠ [])

theorem dumpRound_eq (handler : EntryHandler) :
    c.dumpRound handler r.st =
      ⟨(c.handleBatch handler r.st (20 - r.st.keyHdls.length) r.keyHdls r.dataHdls).result,
        r.events handler⟩ :=
  Traced.bind_of_ok r.returned _

end DumpRound

section Calls

variable {c} (hc : c.Obliges)

include hc

theorem Obliges.allocateBatch (n first : ℕ) :
    (c.allocateBatch first n).result = .ok (handles .key first n, handles .data first n) := by
  induction n generalizing first with
  | zero => rfl
  | succ n ih =>
    rw [TableCli.allocateBatch, c.allocateKeydataHandles_of_success (hc.key first) (hc.data first),
      Traced.ok_bind]
    dsimp only
    rw [Traced.bind_of_ok (ih (first + 1)), handles_succ, handles_succ]
    rfl

theorem Obliges.getFirst (printEnts : Bool) (hfirst : c.driver.entryGetFirst = .success) :
    (c.getFirst printEnts).result = .ok (some (⟨.key, 0⟩, ⟨.data, 0⟩)) := by
  obtain ⟨v, hmap⟩ := hc.flagMap
  simp [TableCli.getFirst, c.allocateKeydataHandles_of_success (hc.key 0) (hc.data 0), hmap, hfirst,
    pure]

/-- A call of `get_next_n` that is answered as documented returns as many of the new objects as
the driver says. -/
theorem Obliges.getNext {prevKey : Handle} {n allocated batches count : ℕ} {sts : TdiStatus}
    (hanswer : c.driver.entryGetNextN batches = (sts, count))
    (hsts : sts = .success ∨ sts = .objectNotFound) (hcount : count ≤ n) :
    (c.getNext prevKey n allocated batches).result =
      .ok (some (handles .key allocated count, handles .data allocated count)) := by
  obtain ⟨v, hmap⟩ := hc.flagMap
  have hnot : ¬ (sts ≠ .success ∧ sts ≠ .objectNotFound) := by
    rintro ⟨hsuccess, hnotFound⟩
    exact hsts.elim hsuccess hnotFound
  rw [TableCli.getNext, if_neg (not_not.mpr hc.next_supported),
    Traced.bind_of_ok (hc.allocateBatch n allocated)]
  simp [getBatch, hc.flags, hmap, hanswer, hnot, hcount.not_gt, take_handles hcount, pure]

end Calls

section Batch

variable {handler : EntryHandler} {st : DumpState} {n first size : ℕ} {dataHdls : List Handle}

theorem handleBatch_nil :
    c.handleBatch handler st n [] dataHdls = ⟨.ok none, [released st.prevKeyHdl]⟩ := rfl

theorem result_handleBatch (hquiet : ∀ keyHdls dataHdls actionIds,
      handler.raises keyHdls dataHdls actionIds = none) :
    (c.handleBatch handler st n (handles .key first (size + 1)) dataHdls).result =
      .ok (if size + 1 < 20 then none
        else some ⟨[], [], ⟨.key, first + size⟩, st.allocated + n, st.batches + 1⟩) := by
  have hids : ∃ ids, (c.actionIds dataHdls).result = .ok ids := by
    unfold actionIds
    split_ifs
    · exact ⟨_, rfl⟩
    · exact ⟨_, rfl⟩
  obtain ⟨ids, hids⟩ := hids
  have hlast : (handles .key first (size + 1)).getLast? = some ⟨.key, first + size⟩ := by
    rw [handles_concat, List.getLast?_concat]
  simp only [handleBatch, hlast, Traced.bind_of_ok hids, EntryHandler.handle, hquiet,
    deallocateHdls, Traced.emit_bind, length_handles]
  split_ifs
  · rfl
  · rfl

/-- A full batch is freed but for its last key. -/
theorem released_handleBatch {h : Handle} {keyHdls : List Handle} (hfull : 20 ≤ keyHdls.length)
    (hmem : released h ∈ (c.handleBatch handler st n keyHdls dataHdls).events) :
    h ∈ keyHdls.dropLast ∨ h ∈ dataHdls := by
  have hfreed := c.mem_freed_of_released handler hmem
  unfold freed at hfreed
  split at hfreed
  next hnone =>
    rw [List.getLast?_eq_none_iff.mp hnone] at hfull
    cases hfull
  · rw [if_neg hfull.not_gt, List.append_nil] at hfreed
    exact List.mem_append.mp hfreed

end Batch

/-- What waits in the loop before the round `b`: the first entry, or nothing. -/
def waiting (b : ℕ) : ℕ := if b = 0 then 1 else 0

/-- The state in which the round `b` starts, if it is reached. -/
def afterBatches (b : ℕ) : DumpState where
  keyHdls := handles .key (20 * b) (waiting b)
  dataHdls := handles .data (20 * b) (waiting b)
  prevKeyHdl := ⟨.key, 20 * b + waiting b - 1⟩
  allocated := 20 * b + waiting b
  batches := b

theorem waiting_le (b : ℕ) : waiting b ≤ 1 := by
  unfold waiting
  split_ifs <;> omega

theorem pos_add_waiting (b : ℕ) : 0 < 20 * b + waiting b := by
  unfold waiting
  split_ifs <;> omega

@[simp] theorem waiting_succ (b : ℕ) : waiting (b + 1) = 0 := rfl

/-- The round `b` of a table of `m` entries: its batch is full, or the rest of the table. -/
structure DumpRound.IsRound {c : TableCli} (m b : ℕ) (r : c.DumpRound) : Prop where
  st : r.st = afterBatches b
  keys : r.keyHdls = handles .key (20 * b) (min 20 (m - 20 * b))
  data : r.dataHdls = handles .data (20 * b) (min 20 (m - 20 * b))

/-- The loop goes on after a full batch only. -/
theorem DumpRound.IsRound.dumpRound {c : TableCli} {m b : ℕ} {r : c.DumpRound}
    (h : r.IsRound m b) {handler : EntryHandler} (hquiet : ∀ keyHdls dataHdls actionIds,
      handler.raises keyHdls dataHdls actionIds = none) :
    c.dumpRound handler (afterBatches b) =
      ⟨.ok (if m < 20 * (b + 1) then none else some (afterBatches (b + 1))), r.events handler⟩ := by
  rw [← h.st, r.dumpRound_eq handler]
  congr 1
  rw [h.keys]
  obtain hzero | ⟨size, hsize⟩ : min 20 (m - 20 * b) = 0 ∨ ∃ k, min 20 (m - 20 * b) = k + 1 :=
    Nat.eq_zero_or_eq_succ_pred _ |>.imp_right fun h => ⟨_, h⟩
  · rw [hzero, handles_zero, handleBatch_nil, if_pos (by omega)]
  · rw [hsize, c.result_handleBatch hquiet]
    by_cases hlast : m < 20 * (b + 1)
    · rw [if_pos hlast, if_pos (by omega)]
    · obtain rfl : size = 19 := by omega
      have hwaiting := waiting_le b
      have hprev : 20 * b + 19 = 20 * (b + 1) - 1 := by omega
      have hallocated : 20 * b + waiting b + (20 - waiting b) = 20 * (b + 1) := by omega
      rw [if_neg hlast, if_neg (by omega)]
      simp [h.st, afterBatches, hprev, hallocated]

/-- The rounds from the round `b` on: all batches but the last one are full. -/
inductive RunFrom (m : ℕ) : ℕ → List c.DumpRound → Prop where
  | last {b r} : r.IsRound m b → 20 * b ≤ m → m < 20 * (b + 1) → RunFrom m b [r]
  | next {b r run} : r.IsRound m b → 20 * (b + 1) ≤ m → RunFrom m (b + 1) run →
      RunFrom m b (r :: run)

namespace RunFrom

variable {c} {handler : EntryHandler} {m b : ℕ} {run : List c.DumpRound}

theorem dumpLoop (h : RunFrom c m b run) (hquiet : ∀ keyHdls dataHdls actionIds,
      handler.raises keyHdls dataHdls actionIds = none) {rounds : ℕ}
    (hrounds : run.length ≤ rounds) :
    c.dumpLoop handler rounds (afterBatches b) =
      ⟨.ok (some 0), run.flatMap (·.events handler)⟩ := by
  induction h generalizing rounds with
  | last hr hle hlast =>
    obtain ⟨k, rfl⟩ := Nat.exists_eq_add_of_le' hrounds
    simp [TableCli.dumpLoop, hr.dumpRound hquiet, hlast, pure]
  | next hr hfull hrun ih =>
    rw [List.length_cons] at hrounds
    obtain ⟨k, rfl⟩ := Nat.exists_eq_add_of_le' hrounds
    rw [show k + (_ + 1) = (k + _) + 1 from rfl, TableCli.dumpLoop, hr.dumpRound hquiet,
      if_neg (by omega), Traced.ok_bind]
    dsimp only
    rw [ih (Nat.le_add_left _ _), List.flatMap_cons]

section Objects

variable {kind : HandleKind} {f : c.DumpRound → List Handle}
  (hf : ∀ {b r}, r.IsRound m b → f r = handles kind (20 * b) (min 20 (m - 20 * b)))

include hf

theorem flatMap (h : RunFrom c m b run) :
    run.flatMap f = handles kind (20 * b) (m - 20 * b) := by
  induction h with
  | last hr hle hlast =>
    rw [List.flatMap_singleton, hf hr, Nat.min_eq_right (by omega)]
  | @next b r run hr hfull hrun ih =>
    rw [List.flatMap_cons, ih, hf hr, Nat.min_eq_left (by omega), Nat.mul_add_one, handles_append]
    congr 1
    omega

end Objects

/-- The rounds before a round are full. -/
theorem of_append {before after : List c.DumpRound} {r : c.DumpRound}
    (h : RunFrom c m b (before ++ r :: after)) :
    r.IsRound m (b + before.length) ∧
      before.flatMap (·.keyHdls) = handles .key (20 * b) (20 * before.length) ∧
      ∀ r' ∈ before, ∃ b' < b + before.length, r'.IsRound m b' ∧ 20 * (b' + 1) ≤ m := by
  induction before generalizing b with
  | nil =>
    refine ⟨?_, rfl, by simp⟩
    cases h with
    | last hr _ _ => exact hr
    | next hr _ _ => exact hr
  | cons r' before ih =>
    rw [List.cons_append] at h
    generalize hrest : before ++ r :: after = rest at h
    cases h with
    | last _ _ _ => simp at hrest
    | next hr' hfull hrun =>
      rw [← hrest] at hrun
      obtain ⟨hr, hkeys, hall⟩ := ih hrun
      have hlength : b + (r' :: before).length = b + 1 + before.length := by
        rw [List.length_cons]
        omega
      rw [hlength]
      refine ⟨hr, ?_, ?_⟩
      · rw [List.flatMap_cons, hkeys, hr'.keys, Nat.min_eq_left (by omega), Nat.mul_add_one,
          handles_append]
        congr 1
        rw [List.length_cons]
        omega
      · rw [List.forall_mem_cons]
        exact ⟨⟨b, by omega, hr', hfull⟩, hall⟩

end RunFrom

section Serves

variable {c} {E : Type} {handler : EntryHandler} {entries : List E} {held : Handle → Option E}

/-- The first `k` keys and data hold the first `k` entries. -/
def HeldTo (entries : List E) (held : Handle → Option E) (k : ℕ) : Prop :=
  ∀ i < k, held ⟨.key, i⟩ = entries[i]? ∧ held ⟨.data, i⟩ = entries[i]?

/-- A round that is reached hands over the next entries. -/
theorem exists_round (hc : c.Obliges) (hserves : c.Serves handler entries held) {b : ℕ}
    (hreached : c.Reached handler (afterBatches b)) (hle : 20 * b + waiting b ≤ entries.length)
    (hheld : HeldTo entries held (20 * b + waiting b)) :
    ∃ r : c.DumpRound, r.IsRound entries.length b ∧
      HeldTo entries held (min entries.length (20 * (b + 1))) := by
  have hwaiting := waiting_le b
  have hn : 20 - (afterBatches b).keyHdls.length = 20 - waiting b := by simp [afterBatches]
  obtain ⟨k, hk⟩ : ∃ k, 20 * b + waiting b = k + 1 :=
    Nat.exists_eq_add_one.mpr (pos_add_waiting b)
  rw [hk] at hle hheld
  have hsplit : entries = entries.take k ++ entries[k] :: entries.drop (k + 1) := by simp
  have hprev : held (afterBatches b).prevKeyHdl = some entries[k] := by
    have hindex : 20 * b + waiting b - 1 = k := by omega
    rw [afterBatches, hindex, (hheld k (by omega)).1, List.getElem?_eq_getElem]
  obtain ⟨hcount, hsts, hkeys, hdata⟩ :=
    hserves.next _ hreached _ (hc.allocateBatch _ _) _ _ _ hsplit hprev
  rw [hn] at hcount hsts hkeys hdata
  rw [List.length_drop] at hcount
  generalize hanswer : c.driver.entryGetNextN (afterBatches b).batches = answer at *
  obtain ⟨sts, count⟩ := answer
  dsimp only at hcount hsts hkeys hdata
  have hlength : ((entries.drop (k + 1)).take (20 - waiting b)).length = count := by
    rw [List.length_take, List.length_drop, hcount]
  rw [take_handles (by omega), map_handles_eq_iff hlength] at hkeys hdata
  have hreturned : (c.getNext (afterBatches b).prevKeyHdl
      (20 - (afterBatches b).keyHdls.length) (afterBatches b).allocated b).result = .ok (some _) :=
    hc.getNext hanswer (hsts.imp_right And.left) (by omega)
  have hsize : waiting b + count = min 20 (entries.length - 20 * b) := by omega
  refine ⟨⟨afterBatches b, _, _, hreturned⟩, ⟨rfl, ?_, ?_⟩, fun i hi => ?_⟩
  · rw [← hsize, ← handles_append]
    rfl
  · rw [← hsize, ← handles_append]
    rfl
  · obtain hi' | ⟨j, rfl⟩ : i < k + 1 ∨ ∃ j, i = k + 1 + j :=
      (Nat.lt_or_ge i (k + 1)).imp_right Nat.exists_eq_add_of_le
    · exact hheld i hi'
    · have hj : j < count := by omega
      have hget : ((entries.drop (k + 1)).take (20 - waiting b))[j]? = entries[k + 1 + j]? := by
        rw [List.getElem?_take_of_lt (by omega), List.getElem?_drop]
      rw [show (afterBatches b).allocated = k + 1 from hk] at hkeys hdata
      rw [← hget]
      exact ⟨hkeys j hj, hdata j hj⟩

/-- From a round that is reached, the loop runs to the end of the table. -/
theorem exists_run (hc : c.Obliges) (hserves : c.Serves handler entries held)
    (hquiet : ∀ keyHdls dataHdls actionIds, handler.raises keyHdls dataHdls actionIds = none)
    (left : ℕ) {b : ℕ} (hleft : entries.length / 20 = b + left)
    (hreached : c.Reached handler (afterBatches b)) (hle : 20 * b + waiting b ≤ entries.length)
    (hheld : HeldTo entries held (20 * b + waiting b)) :
    ∃ run, RunFrom c entries.length b run ∧ HeldTo entries held entries.length := by
  induction left generalizing b with
  | zero =>
    obtain ⟨r, hr, hheld⟩ := exists_round hc hserves hreached hle hheld
    rw [Nat.min_eq_left (by omega)] at hheld
    exact ⟨[r], .last hr (by omega) (by omega), hheld⟩
  | succ left ih =>
    obtain ⟨r, hr, hheld⟩ := exists_round hc hserves hreached hle hheld
    rw [Nat.min_eq_right (by omega)] at hheld
    have hnext : (c.dumpRound handler (afterBatches b)).result =
        .ok (some (afterBatches (b + 1))) := by
      rw [hr.dumpRound hquiet, if_neg (by omega)]
    obtain ⟨run, hrun, hall⟩ := ih (by omega) (hreached.tail hnext)
      (by rw [waiting_succ]; omega) (by rwa [waiting_succ])
    exact ⟨r :: run, .next hr (by omega) hrun, hall⟩

end Serves

section Handed

variable {c} {m : ℕ} {run : List c.DumpRound}

theorem DumpRound.IsRound.lengths {b : ℕ} {r : c.DumpRound} (h : r.IsRound m b) :
    r.keyHdls.length = min 20 (m - 20 * b) ∧ r.dataHdls.length = r.keyHdls.length := by
  rw [h.keys, h.data, length_handles, length_handles]
  exact ⟨rfl, rfl⟩

theorem RunFrom.exists_isRound {b : ℕ} (h : RunFrom c m b run) :
    ∀ r ∈ run, ∃ b', r.IsRound m b' := by
  induction h with
  | last hr _ _ => simpa using ⟨_, hr⟩
  | next hr _ _ ih => exact List.forall_mem_cons.mpr ⟨⟨_, hr⟩, ih⟩

/-- Nothing is lost with the empty batches that are not handed over. -/
theorem flatMap_handed {b : ℕ} (h : RunFrom c m b run) :
    (DumpRound.handed run).flatMap Prod.fst = run.flatMap (·.keyHdls) ∧
      (DumpRound.handed run).flatMap Prod.snd = run.flatMap (·.dataHdls) := by
  have hrounds := h.exists_isRound
  clear h
  induction run with
  | nil => exact ⟨rfl, rfl⟩
  | cons r run ih =>
    obtain ⟨⟨b', hr⟩, hrun⟩ := List.forall_mem_cons.mp hrounds
    obtain ⟨hkeys, hdata⟩ := ih hrun
    by_cases hempty : r.keyHdls = []
    · have hnone : r.dataHdls = [] := by
        rw [← List.length_eq_zero_iff, hr.lengths.2, hempty, List.length_nil]
      have hhanded : DumpRound.handed (r :: run) = DumpRound.handed run := by
        simp [DumpRound.handed, hempty]
      rw [hhanded, List.flatMap_cons, List.flatMap_cons, hempty, hnone]
      exact ⟨hkeys, hdata⟩
    · have hhanded : DumpRound.handed (r :: run) =
          (r.keyHdls, r.dataHdls) :: DumpRound.handed run := by
        simp [DumpRound.handed, hempty]
      rw [hhanded, List.flatMap_cons, List.flatMap_cons, List.flatMap_cons, List.flatMap_cons,
        hkeys, hdata]
      exact ⟨rfl, rfl⟩

theorem length_of_mem_handed {b : ℕ} (h : RunFrom c m b run) :
    ∀ batch ∈ DumpRound.handed run,
      (1 ≤ batch.1.length ∧ batch.1.length ≤ 20) ∧ batch.2.length = batch.1.length := by
  intro batch hbatch
  obtain ⟨hmem, hne⟩ := List.mem_filter.mp hbatch
  obtain ⟨r, hr, rfl⟩ := List.mem_map.mp hmem
  obtain ⟨b', hround⟩ := h.exists_isRound r hr
  obtain ⟨hkeys, hdata⟩ := hround.lengths
  refine ⟨⟨?_, by simp [hkeys]⟩, hdata⟩
  exact List.length_pos_iff.mpr (by simpa using hne)

end Handed

section PrevKey

variable {c} {handler : EntryHandler} {m : ℕ} {before after : List c.DumpRound} {r : c.DumpRound}

/-- The previous key of a call is the last one that was handed over, or that of `get_first`. -/
theorem prevKeyHdl_of_append (h : RunFrom c m 0 (before ++ r :: after)) :
    (⟨.key, 0⟩ :: before.flatMap (·.keyHdls)).getLast? = some r.st.prevKeyHdl := by
  obtain ⟨hr, hkeys, -⟩ := h.of_append
  rw [Nat.zero_add] at hr
  rw [hkeys, hr.st]
  cases before with
  | nil => rfl
  | cons r' before =>
    rw [show 20 * (r' :: before).length = 20 * before.length + 19 + 1 by
      rw [List.length_cons, Nat.mul_add_one], handles_concat, ← List.cons_append,
      List.getLast?_concat]
    simp [afterBatches]
    omega

/-- A full batch frees its data and the keys that are not its last one. -/
theorem DumpRound.IsRound.released_cases {b : ℕ} (hr : r.IsRound m b) (hfull : 20 * (b + 1) ≤ m)
    {h : Handle} (hmem : released h ∈ r.events handler) :
    h.kind = .data ∨ 20 * b ≤ h.index ∧ h.index < 20 * b + 19 := by
  rcases List.mem_append.mp hmem with hmem | hmem
  · exact absurd trivial (c.getNext_no_release _ _ _ _ _ hmem)
  · have hlength : r.keyHdls.length = 20 := by
      rw [hr.lengths.1]
      omega
    rcases c.released_handleBatch hlength.ge hmem with hmem | hmem
    · rw [hr.keys, Nat.min_eq_left (by omega), handles_concat, List.dropLast_concat,
        mem_handles] at hmem
      exact .inr hmem.2
    · rw [hr.data, mem_handles] at hmem
      exact .inl hmem.1

theorem prevKeyHdl_not_released (h : RunFrom c m 0 (before ++ r :: after)) :
    released r.st.prevKeyHdl ∉
      (c.getFirst true).events ++ before.flatMap (·.events handler) ++ r.callEvents := by
  obtain ⟨hr, -, hfull⟩ := h.of_append
  rw [Nat.zero_add] at hr hfull
  intro hmem
  rcases List.mem_append.mp hmem with hmem | hmem
  · rcases List.mem_append.mp hmem with hmem | hmem
    · exact c.getFirst_no_release true _ hmem trivial
    · obtain ⟨r', hr', hmem⟩ := List.mem_flatMap.mp hmem
      obtain ⟨b', hb', hround, hm⟩ := hfull r' hr'
      rw [hr.st] at hmem
      rcases hround.released_cases hm hmem with hkind | ⟨hge, hlt⟩
      · cases hkind
      · have hwaiting : waiting before.length = 0 := if_neg (by omega)
        change 20 * b' ≤ 20 * before.length + waiting before.length - 1 at hge
        change 20 * before.length + waiting before.length - 1 < 20 * b' + 19 at hlt
        omega
  · exact c.getNext_no_release _ _ _ _ _ hmem trivial

end PrevKey

/-- The rounds are those of a whole dump, which returns 0. The batches that are handed over hold the
entries of the table in their order, and each call is made with the key of the last entry before it,
which is still there: that of `get_first`, which is handed over with the first batch, and from then
on the last key that was handed over. -/
structure Visits {E : Type} (handler : EntryHandler) (entries : List E) (held : Handle → Option E)
    (run : List c.DumpRound) : Prop where
  returns : ∀ rounds, run.length ≤ rounds → c.dump handler true rounds =
    ⟨.ok (some 0), (c.getFirst true).events ++ run.flatMap (·.events handler)⟩
  sizes : ∀ batch ∈ DumpRound.handed run,
    (1 ≤ batch.1.length ∧ batch.1.length ≤ 20) ∧ batch.2.length = batch.1.length
  keys : ((DumpRound.handed run).flatMap Prod.fst).map held = entries.map some
  data : ((DumpRound.handed run).flatMap Prod.snd).map held = entries.map some
  prevKeys : ∀ before r after, run = before ++ r :: after →
    (⟨.key, 0⟩ :: before.flatMap (·.keyHdls)).getLast? = some r.st.prevKeyHdl ∧
      released r.st.prevKeyHdl ∉
        (c.getFirst true).events ++ before.flatMap (·.events handler) ++ r.callEvents

end TableCli

/-- A driver whose tables have 21 entries, of which the last one is in a batch of its own. -/
def pagingDriver : Driver where
  __ := obligingDriver
  entryGetNextN batches := if batches = 0 then (.success, 19) else (.objectNotFound, 1)

def pagingCli : TableCli := ⟨pagingDriver, vlanTable, fun _ => ""⟩

theorem pagingCli_obliges : pagingCli.Obliges where
  first_supported := by decide
  next_supported := by decide
  key _ := rfl
  data _ := rfl
  flags _ := rfl
  flagMap := ⟨0, rfl⟩
  action _ := rfl

/-- The entries by their places. -/
def placeHeld (h : Handle) : Option ℕ := some h.index

theorem pagingCli_reached {st : DumpState} (h : pagingCli.Reached silentHandler st) :
    st = TableCli.afterBatches 0 ∨ st = TableCli.afterBatches 1 := by
  have hfirst : (pagingCli.dumpRound silentHandler (TableCli.afterBatches 0)).result =
      .ok (some (TableCli.afterBatches 1)) := rfl
  have hsecond : (pagingCli.dumpRound silentHandler (TableCli.afterBatches 1)).result =
      .ok none := rfl
  induction h with
  | refl => exact .inl rfl
  | tail _ hround ih =>
    rcases ih with rfl | rfl
    · rw [hfirst] at hround
      cases hround
      exact .inr rfl
    · rw [hsecond] at hround
      cases hround

theorem rest_of_range_eq {m e : ℕ} {before rest : List ℕ}
    (h : List.range m = before ++ e :: rest) : rest = List.range' (e + 1) (m - (e + 1)) := by
  rw [List.range_eq_range', List.range'_eq_append_iff] at h
  obtain ⟨k, hk, -, h⟩ := h
  obtain ⟨rfl, hpos, rfl⟩ := List.range'_eq_cons_iff.mp h.symm
  congr 1
  omega

theorem pagingCli_serves : pagingCli.Serves silentHandler (List.range 21) placeHeld where
  status := rfl
  first_key := rfl
  first_data := rfl
  next st hst hdls hallocated before e rest hsplit hprev := by
    rw [rest_of_range_eq hsplit]
    rcases pagingCli_reached hst with rfl | rfl
    · cases hprev
      cases hallocated
      decide
    · cases hprev
      cases hallocated
      decide

end Tdi.Cli

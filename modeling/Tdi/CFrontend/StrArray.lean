import Tdi.Defs
import Tdi.Foundation.StoreLog
import Tdi.Foundation.Words

/-!
# String arrays in the C API

A data field of string-array type crosses the C API as one text: the strings joined
by spaces, with a NUL at the end. Reading advances the pointer `val` and counts
`size` down; every store and every decrement is recorded, so that a store past the
buffer or a counter below zero shows.
-/
namespace Tdi.CFrontend

open Foundation

/-- The bytes of a `std::string`. -/
abbrev Str := List UInt8

def space : UInt8 := 0x20
def nul : UInt8 := 0

/-- The string-array overloads of `setValue` and `getValue` of a data object, which a
target overrides. -/
structure StrArrayTarget (Obj : Type*) where
  setValue : Obj → TdiId → List Str → TdiStatus × Obj
  getValue : Obj → TdiId → TdiStatus × List Str

/-- `val` and `size` on their way, `val` as the offset from the pointer that was passed. -/
structure Cursor where
  val : ℕ
  size : UInt32
  stores : List (ℕ × UInt8)
  /-- `size` before each decrement, with the amount. -/
  spent : List (UInt32 × ℕ)

namespace Cursor

def start (size : UInt32) : Cursor := ⟨0, size, [], []⟩

/-- Copies the bytes to `val`, advances `val` past them and counts `size` down. -/
def put (c : Cursor) (bytes : Str) : Cursor where
  val := c.val + bytes.length
  size := c.size - UInt32.ofNat bytes.length
  stores := c.stores ++ storesAt c.val bytes
  spent := c.spent ++ [(c.size, bytes.length)]

/-- `val[0] = '\\0'` -/
def putNul (c : Cursor) : Cursor := { c with stores := c.stores ++ [(c.val, nul)] }

end Cursor

section Model

variable {Obj : Type*} (target : StrArrayTarget Obj) (obj : Obj) (fieldId : TdiId)

/-- The loop over the strings; `false` where it returns `TDI_INVALID_ARG`. -/
def putItems (firstItem : Bool) (c : Cursor) : List Str → Bool × Cursor
  | [] => (true, c)
  | item :: vec =>
    if firstItem then
      if c.size.toNat ≤ item.length then (false, c) else putItems false (c.put item) vec
    else if c.size = 0 then (false, c)
    else
      let c := c.put [space]
      if c.size.toNat ≤ item.length then (false, c) else putItems false (c.put item) vec

def tdiDataFieldGetValueStrArray (size : UInt32) : TdiStatus × Cursor :=
  let (status, vec) := target.getValue obj fieldId
  if size = 0 ∧ vec.length = 0 then (status, .start size)
  else
    match putItems true (.start size) vec with
    | (false, c) => (.invalidArg, c)
    | (true, c) => if c.size = 0 then (.invalidArg, c) else (status, c.putNul)

/-- `*array_size` is added to, not assigned. -/
def tdiDataFieldGetValueStrArraySize (arraySize : UInt32) : TdiStatus × UInt32 :=
  let (status, vec) := target.getValue obj fieldId
  (status, vec.foldl (fun size item => size + UInt32.ofNat (item.length + 1)) arraySize)

/-- The size queries of the other arrays, by what `getValue` fills in: `*array_size` is
assigned. -/
def getValueArraySize {α : Type*} (got : TdiStatus × List α) (_arraySize : UInt32) :
    TdiStatus × UInt32 :=
  let (status, vec) := got
  (status, UInt32.ofNat vec.length)

def tdiDataFieldGetValueArraySize : TdiStatus × List TdiId → UInt32 → TdiStatus × UInt32 :=
  getValueArraySize

def tdiDataFieldGetValueBoolArraySize : TdiStatus × List Bool → UInt32 → TdiStatus × UInt32 :=
  getValueArraySize

/-- `strtok` with a space: the separators before a token are skipped and the one after it
is overwritten. A token comes with the place where the next call goes on. -/
def strtok (text : Str) : Option (Str × Str) :=
  let text := text.dropWhile (· == space)
  if text = [] then none
  else some (text.takeWhile (· != space), (text.dropWhile (· != space)).tail)

/-- The copy that `strdup` makes of the text at `val`, up to its NUL. -/
def strdup (val : List UInt8) : Str := val.takeWhile (· != nul)

theorem strtok_shorter {text token rest : Str} (h : strtok text = some (token, rest)) :
    rest.length < text.length := by
  simp only [strtok] at h
  split at h
  next => cases h
  next hne =>
    injection h with h
    obtain ⟨-, rfl⟩ := Prod.mk.inj h
    obtain ⟨x, tail, hx⟩ := List.exists_cons_of_ne_nil hne
    have hword : (x != space) = true := by
      have hhead := List.head_dropWhile_not (· == space) hne
      simpa [hx] using hhead
    have hle := (List.dropWhile_sublist (l := text) (· == space)).length_le
    have htail := (List.dropWhile_sublist (l := tail) (· != space)).length_le
    rw [hx, List.length_cons] at hle
    rw [hx, List.dropWhile_cons, if_pos hword, List.length_tail]
    omega

/-- The loop over the tokens. -/
def pushTokens (vec : List Str) (text : Str) : List Str :=
  match _h : strtok text with
  | none => vec
  | some (token, rest) => pushTokens (vec ++ [token]) rest
termination_by text.length
decreasing_by exact strtok_shorter _h

def tdiDataFieldSetValueStrArray (val : List UInt8) : TdiStatus × Obj :=
  let vec := pushTokens [] (strdup val)
  target.setValue obj fieldId vec

end Model

section Reading

/-- The bytes that the strings need with a separator or the NUL after each. -/
def bytesNeeded (vec : List Str) : ℕ := (vec.map fun item => item.length + 1).sum

def joined (vec : List Str) : Str := [space].intercalate vec

theorem length_flatMap_space (vec : List Str) :
    (vec.flatMap (space :: ·)).length = bytesNeeded vec := by
  simp [bytesNeeded, List.length_flatMap]

theorem bytesNeeded_eq {vec : List Str} (h : vec ≠ []) :
    bytesNeeded vec = (joined vec).length + 1 := by
  obtain ⟨item, vec, rfl⟩ := List.exists_cons_of_ne_nil h
  rw [joined, intercalate_cons_eq, List.length_append, length_flatMap_space]
  simp only [bytesNeeded, List.map_cons, List.sum_cons]
  omega

/-- Where reading stands in a buffer of `n` bytes: the text is what has been stored, one
byte after another, and `size` is the room behind it. -/
structure Cursor.Holds (n : UInt32) (text : Str) (c : Cursor) : Prop where
  val_eq : c.val = text.length
  room : c.val + c.size.toNat = n.toNat
  stores_eq : c.stores = storesAt 0 text
  spent_le : ∀ d ∈ c.spent, d.2 ≤ d.1.toNat

namespace Cursor

variable {n : UInt32} {text bytes : Str} {c : Cursor}

theorem start_holds (n : UInt32) : (start n).Holds n [] where
  val_eq := rfl
  room := by simp [start]
  stores_eq := rfl
  spent_le := by simp [start]

theorem toNat_size_put (h : bytes.length ≤ c.size.toNat) :
    (c.put bytes).size.toNat = c.size.toNat - bytes.length := by
  have hlt : bytes.length < 2 ^ 32 := h.trans_lt c.size.toNat_lt
  have hof : (UInt32.ofNat bytes.length).toNat = bytes.length := UInt32.toNat_ofNat_of_lt' hlt
  have hle : UInt32.ofNat bytes.length ≤ c.size := by
    rw [UInt32.le_iff_toNat_le, hof]
    exact h
  change (c.size - UInt32.ofNat bytes.length).toNat = _
  rw [UInt32.toNat_sub_of_le _ _ hle, hof]

theorem Holds.put (hc : c.Holds n text) (h : bytes.length ≤ c.size.toNat) :
    (c.put bytes).Holds n (text ++ bytes) where
  val_eq := by
    rw [List.length_append, ← hc.val_eq]
    rfl
  room := by
    have hroom := hc.room
    have hval : (c.put bytes).val = c.val + bytes.length := rfl
    rw [toNat_size_put h, hval]
    omega
  stores_eq := by
    rw [storesAt_append, ← hc.stores_eq, Nat.zero_add, ← hc.val_eq]
    rfl
  spent_le := by
    intro d hd
    rcases List.mem_append.mp hd with hd | hd
    · exact hc.spent_le d hd
    · rw [List.mem_singleton.mp hd]
      exact h

theorem Holds.putNul (hc : c.Holds n text) :
    c.putNul.stores = storesAt 0 (text ++ [nul]) ∧ c.putNul.spent = c.spent := by
  refine ⟨?_, rfl⟩
  rw [storesAt_append, ← hc.stores_eq, Nat.zero_add, ← hc.val_eq]
  rfl

end Cursor

/-- How the loop ends: with the whole text behind what was stored and room for one more
byte, or early, when the text would leave no such room. -/
inductive Ends (n : UInt32) (text : Str) (fits : Prop) : Bool × Cursor → Prop
  | whole {c : Cursor} (hc : c.Holds n text) (hpos : 0 < c.size.toNat) (h : fits) :
    Ends n text fits (true, c)
  | early {c : Cursor} {written : Str} (hc : c.Holds n written) (h : ¬fits) :
    Ends n text fits (false, c)

variable {n : UInt32} {text : Str} {c : Cursor}

theorem Ends.congr {fits fits' : Prop} {text' : Str} {result : Bool × Cursor}
    (h : Ends n text fits result) (htext : text = text') (hfits : fits ↔ fits') :
    Ends n text' fits' result := by
  subst htext
  cases h with
  | whole hc hpos h => exact .whole hc hpos (hfits.mp h)
  | early hc h => exact .early hc (mt hfits.mpr h)

theorem putItems_rest (hc : c.Holds n text) (hpos : 0 < c.size.toNat) (vec : List Str) :
    Ends n (text ++ vec.flatMap (space :: ·)) (bytesNeeded vec < c.size.toNat)
      (putItems false c vec) := by
  induction vec generalizing c text with
  | nil =>
    rw [List.flatMap_nil, List.append_nil]
    exact .whole hc hpos hpos
  | cons item vec ih =>
    have hsize : c.size ≠ 0 := by
      intro he
      simp [he] at hpos
    have hone : [space].length ≤ c.size.toNat := hpos
    have hspace := hc.put hone
    have hroom := Cursor.toNat_size_put hone
    have hneed : bytesNeeded (item :: vec) = item.length + 1 + bytesNeeded vec := by
      simp [bytesNeeded]
    simp only [putItems, Bool.false_eq_true, if_false, if_neg hsize]
    rw [List.length_singleton] at hroom
    split
    next hle =>
      refine .early hspace ?_
      omega
    next hlt =>
      have hitem := Cursor.toNat_size_put (not_le.mp hlt).le
      refine (ih (hspace.put (not_le.mp hlt).le) (by omega)).congr ?_ ?_
      · simp
      · omega

theorem putItems_spec (n : UInt32) (vec : List Str) (h : n ≠ 0 ∨ vec ≠ []) :
    Ends n (joined vec) ((joined vec).length < n.toNat) (putItems true (.start n) vec) := by
  cases vec with
  | nil =>
    have hpos : 0 < n.toNat := by
      refine Nat.pos_of_ne_zero fun he => ?_
      exact h.elim (fun hn => hn (UInt32.toNat.inj he)) (fun hv => hv rfl)
    exact .whole (Cursor.start_holds n) hpos hpos
  | cons item vec =>
    have hstart : (Cursor.start n).size = n := rfl
    have hlen : (joined (item :: vec)).length = item.length + bytesNeeded vec := by
      rw [joined, intercalate_cons_eq, List.length_append, length_flatMap_space]
    simp only [putItems, if_true, hstart]
    split
    next hle =>
      refine .early (Cursor.start_holds n) ?_
      omega
    next hlt =>
      have hitem : (Cursor.put (.start n) item).size.toNat = n.toNat - item.length :=
        Cursor.toNat_size_put (not_le.mp hlt).le
      have hfirst : (Cursor.put (.start n) item).Holds n ([] ++ item) :=
        (Cursor.start_holds n).put (not_le.mp hlt).le
      refine (putItems_rest hfirst (by omega) vec).congr ?_ ?_
      · rw [joined, intercalate_cons_eq, List.nil_append]
      · omega

variable {Obj : Type*} {target : StrArrayTarget Obj} {obj : Obj} {fieldId : TdiId}
  {status : TdiStatus} {vec : List Str}

theorem getValueStrArray_of_lt (hget : target.getValue obj fieldId = (status, vec))
    (h : (joined vec).length < n.toNat) :
    ∃ c, tdiDataFieldGetValueStrArray target obj fieldId n = (status, c) ∧
      c.stores = storesAt 0 (joined vec ++ [nul]) ∧ ∀ d ∈ c.spent, d.2 ≤ d.1.toNat := by
  have hn : n ≠ 0 := by
    intro he
    simp [he] at h
  have hspec := putItems_spec n vec (.inl hn)
  have hempty : ¬(n = 0 ∧ vec.length = 0) := fun hand => hn hand.1
  simp only [tdiDataFieldGetValueStrArray, hget, if_neg hempty]
  cases hloop : putItems true (.start n) vec with
  | mk whole c =>
    rw [hloop] at hspec
    cases hspec with
    | early hc hnot => exact absurd h hnot
    | whole hc hpos hfits =>
      have hsize : c.size ≠ 0 := by
        intro he
        simp [he] at hpos
      refine ⟨c.putNul, ?_, hc.putNul.1, ?_⟩
      · simp only [if_neg hsize]
      · rw [hc.putNul.2]
        exact hc.spent_le

theorem getValueStrArray_of_le (hget : target.getValue obj fieldId = (status, vec))
    (hne : n ≠ 0 ∨ vec ≠ []) (h : n.toNat ≤ (joined vec).length) :
    ∃ c written, tdiDataFieldGetValueStrArray target obj fieldId n = (.invalidArg, c) ∧
      c.Holds n written := by
  have hspec := putItems_spec n vec hne
  have hempty : ¬(n = 0 ∧ vec.length = 0) := fun hand =>
    hne.elim (fun hn => hn hand.1) (fun hv => hv (List.length_eq_zero_iff.mp hand.2))
  simp only [tdiDataFieldGetValueStrArray, hget, if_neg hempty]
  cases hloop : putItems true (.start n) vec with
  | mk whole c =>
    rw [hloop] at hspec
    cases hspec with
    | early hc hnot => exact ⟨c, _, rfl, hc⟩
    | whole hc hpos hfits => exact absurd hfits (by omega)

theorem getValueStrArray_of_empty (hget : target.getValue obj fieldId = (status, [])) :
    tdiDataFieldGetValueStrArray target obj fieldId 0 = (status, .start 0) := by
  simp [tdiDataFieldGetValueStrArray, hget]

/-- After a successful `getValue`, reading succeeds in a buffer of the size that is needed
and in no smaller one. -/
theorem getValueStrArray_success_iff (hget : target.getValue obj fieldId = (.success, vec)) :
    (tdiDataFieldGetValueStrArray target obj fieldId n).1 = .success ↔
      bytesNeeded vec ≤ n.toNat := by
  by_cases hvec : vec = []
  · subst hvec
    refine iff_of_true ?_ (Nat.zero_le _)
    by_cases hn : n = 0
    · rw [hn, getValueStrArray_of_empty hget]
    · have hpos : (joined []).length < n.toNat :=
        Nat.pos_of_ne_zero fun he => hn (UInt32.toNat.inj he)
      obtain ⟨c, hc, -⟩ := getValueStrArray_of_lt hget hpos
      rw [hc]
  · rw [bytesNeeded_eq hvec]
    by_cases hlt : (joined vec).length < n.toNat
    · obtain ⟨c, hc, -⟩ := getValueStrArray_of_lt hget hlt
      exact iff_of_true (by rw [hc]) hlt
    · obtain ⟨c, written, hc, -⟩ := getValueStrArray_of_le hget (.inr hvec) (not_lt.mp hlt)
      refine iff_of_false ?_ hlt
      rw [hc]
      simp

/-- Every store is inside the first `n` bytes and `size` never goes below zero. -/
theorem getValueStrArray_inBounds (n : UInt32) :
    (∀ store ∈ (tdiDataFieldGetValueStrArray target obj fieldId n).2.stores,
        store.1 < n.toNat) ∧
      ∀ d ∈ (tdiDataFieldGetValueStrArray target obj fieldId n).2.spent, d.2 ≤ d.1.toNat := by
  obtain ⟨status, vec, hget⟩ : ∃ status vec, target.getValue obj fieldId = (status, vec) :=
    ⟨_, _, rfl⟩
  by_cases hlt : (joined vec).length < n.toNat
  · obtain ⟨c, hc, hstores, hspent⟩ := getValueStrArray_of_lt hget hlt
    rw [hc]
    refine ⟨?_, hspent⟩
    intro store hmem
    rw [hstores] at hmem
    have hoff := fst_lt_of_mem_storesAt hmem
    rw [List.length_append, List.length_singleton] at hoff
    omega
  · by_cases hempty : n = 0 ∧ vec = []
    · obtain ⟨rfl, rfl⟩ := hempty
      rw [getValueStrArray_of_empty hget]
      simp [Cursor.start]
    · have hne : n ≠ 0 ∨ vec ≠ [] := not_and_or.mp hempty
      obtain ⟨c, written, hc, hholds⟩ := getValueStrArray_of_le hget hne (not_lt.mp hlt)
      rw [hc]
      refine ⟨?_, hholds.spent_le⟩
      intro store hmem
      rw [hholds.stores_eq] at hmem
      have hoff := fst_lt_of_mem_storesAt hmem
      have hroom := hholds.room
      rw [hholds.val_eq] at hroom
      omega

/-- A buffer that is large enough holds the text and a NUL in front of what it held. -/
theorem commit_getValueStrArray (hget : target.getValue obj fieldId = (status, vec))
    (h : (joined vec).length < n.toNat) {buffer : List UInt8} (hbuf : n.toNat ≤ buffer.length) :
    commit buffer (tdiDataFieldGetValueStrArray target obj fieldId n).2.stores =
      joined vec ++ nul :: buffer.drop ((joined vec).length + 1) := by
  obtain ⟨c, hc, hstores, -⟩ := getValueStrArray_of_lt hget h
  have hlen : 0 + (joined vec ++ [nul]).length ≤ buffer.length := by
    rw [List.length_append, List.length_singleton]
    omega
  rw [hc, hstores, commit_storesAt hlen]
  simp

/-- Reading stays in bounds, and a buffer of exactly the bytes that are needed is filled
with the joined strings while a smaller one is refused. -/
theorem getValueStrArray_inBounds_complete (target : StrArrayTarget Obj) (obj : Obj)
    (fieldId : TdiId) (n : UInt32) :
    let vec := (target.getValue obj fieldId).2
    let out := tdiDataFieldGetValueStrArray target obj fieldId n
    (∀ store ∈ out.2.stores, store.1 < n.toNat) ∧
      (∀ d ∈ out.2.spent, d.2 ≤ d.1.toNat) ∧
      ((target.getValue obj fieldId).1 = .success → vec ≠ [] →
        (n.toNat = (vec.map fun item => item.length + 1).sum →
          out.1 = .success ∧ ∀ buffer : List UInt8, n.toNat ≤ buffer.length →
            (commit buffer out.2.stores).take n.toNat = [space].intercalate vec ++ [nul]) ∧
        (n.toNat < (vec.map fun item => item.length + 1).sum → out.1 ≠ .success)) := by
  intro vec out
  obtain ⟨hstores, hspent⟩ := getValueStrArray_inBounds n
  refine ⟨hstores, hspent, ?_⟩
  intro hstatus hne
  have hget : target.getValue obj fieldId = (.success, vec) := Prod.ext hstatus rfl
  have hiff := getValueStrArray_success_iff (n := n) hget
  refine ⟨?_, ?_⟩
  · intro hn
    refine ⟨hiff.mpr hn.ge, ?_⟩
    intro buffer hbuf
    have hneed : n.toNat = (joined vec).length + 1 := hn.trans (bytesNeeded_eq hne)
    have hlt : (joined vec).length < n.toNat := by omega
    rw [commit_getValueStrArray hget hlt hbuf, hneed, List.take_append]
    simp [joined]
  · intro hn hsuccess
    exact absurd (hiff.mp hsuccess) (not_le.mpr hn)

end Reading

/-- A data object that stores what it is given. -/
structure StrArrayTarget.Keeps {Obj : Type*} (target : StrArrayTarget Obj) : Prop where
  status_setValue : ∀ obj fieldId vec, (target.setValue obj fieldId vec).1 = .success
  getValue_setValue : ∀ obj fieldId vec,
    target.getValue (target.setValue obj fieldId vec).2 fieldId = (.success, vec)

/-- A data object that is the map of its fields. -/
def mapTarget : StrArrayTarget (TdiId → List Str) where
  setValue obj fieldId vec := (.success, Function.update obj fieldId vec)
  getValue obj fieldId := (.success, obj fieldId)

theorem mapTarget_keeps : mapTarget.Keeps where
  status_setValue _ _ _ := rfl
  getValue_setValue obj fieldId vec := by simp [mapTarget]

theorem getValueStrArray_inBounds_complete_two :
    (tdiDataFieldGetValueStrArray mapTarget (fun _ => [[0x61, 0x62], []]) 7 4).1 = .success :=
  (((getValueStrArray_inBounds_complete mapTarget (fun _ => [[0x61, 0x62], []]) 7 4).2.2 rfl
    (List.cons_ne_nil _ _)).1 rfl).1

section Size

variable {Obj : Type*} {target : StrArrayTarget Obj} {obj : Obj} {fieldId : TdiId}
  {status : TdiStatus} {vec : List Str}

theorem toNat_foldl_size (vec : List Str) (arraySize : UInt32) :
    (vec.foldl (fun size item => size + UInt32.ofNat (item.length + 1)) arraySize).toNat =
      (arraySize.toNat + bytesNeeded vec) % 2 ^ 32 := by
  induction vec generalizing arraySize with
  | nil =>
    rw [bytesNeeded, List.map_nil, List.sum_nil, Nat.add_zero]
    exact (Nat.mod_eq_of_lt arraySize.toNat_lt).symm
  | cons item vec ih =>
    have hneed : bytesNeeded (item :: vec) = item.length + 1 + bytesNeeded vec := by
      simp [bytesNeeded]
    rw [List.foldl_cons, ih, UInt32.toNat_add, UInt32.toNat_ofNat', hneed]
    omega

/-- The size query adds the bytes that are needed to what the caller's variable held. -/
theorem toNat_getValueStrArraySize (hget : target.getValue obj fieldId = (status, vec))
    (arraySize : UInt32) :
    (tdiDataFieldGetValueStrArraySize target obj fieldId arraySize).2.toNat =
      (arraySize.toNat + bytesNeeded vec) % 2 ^ 32 := by
  simp only [tdiDataFieldGetValueStrArraySize, hget, toNat_foldl_size]

theorem getValueStrArraySize_eq_iff (hget : target.getValue obj fieldId = (status, vec))
    (hsmall : bytesNeeded vec < 2 ^ 32) (arraySize : UInt32) :
    (tdiDataFieldGetValueStrArraySize target obj fieldId arraySize).2.toNat = bytesNeeded vec ↔
      arraySize = 0 := by
  have hlt := arraySize.toNat_lt
  rw [toNat_getValueStrArraySize hget, ← UInt32.toNat_inj, UInt32.toNat_zero]
  omega

/-- The size query is a pure output exactly when the caller's variable is zero before it. -/
theorem getValueStrArraySize_pure_iff (target : StrArrayTarget Obj) (obj : Obj)
    (fieldId : TdiId)
    (hsmall : ((target.getValue obj fieldId).2.map fun item => item.length + 1).sum < 2 ^ 32)
    (first second : UInt32) :
    let vec := (target.getValue obj fieldId).2
    let left := fun arraySize =>
      (tdiDataFieldGetValueStrArraySize target obj fieldId arraySize).2
    let needed := (vec.map fun item => item.length + 1).sum
    ((target.getValue obj fieldId).1 = .success → ∀ n,
        (tdiDataFieldGetValueStrArray target obj fieldId n).1 = .success ↔ needed ≤ n.toNat) ∧
      (left first = left second ∧ (left first).toNat = needed ↔ first = 0 ∧ second = 0) := by
  intro vec left needed
  refine ⟨?_, ?_⟩
  · intro hstatus n
    have hget : target.getValue obj fieldId = (.success, vec) := Prod.ext hstatus rfl
    exact getValueStrArray_success_iff hget
  · have hget : target.getValue obj fieldId = ((target.getValue obj fieldId).1, vec) := rfl
    have hfirst := getValueStrArraySize_eq_iff hget hsmall first
    have hsecond := getValueStrArraySize_eq_iff hget hsmall second
    constructor
    · intro ⟨hsame, hneed⟩
      have hneed' : (left second).toNat = needed := hsame ▸ hneed
      exact ⟨hfirst.mp hneed, hsecond.mp hneed'⟩
    · intro ⟨h1, h2⟩
      exact ⟨by rw [h1, h2], hfirst.mpr h1⟩

theorem getValueStrArraySize_pure_iff_two :
    let obj := fun _ : TdiId => [[0x61, 0x62], [0x63]]
    (tdiDataFieldGetValueStrArraySize mapTarget obj 7 0).2.toNat = 5 :=
  ((getValueStrArraySize_pure_iff mapTarget (fun _ => [[0x61, 0x62], [0x63]]) 7 (by decide) 0
    0).2.mpr ⟨rfl, rfl⟩).2

/-- Two initial contents of the caller's variable leave two sizes, and neither a right one
for the second, while the size query of an array of numbers leaves one. -/
theorem getValueStrArraySize_not_pure :
    let obj := fun _ : TdiId => [[0x61, 0x62], [0x63]]
    (tdiDataFieldGetValueStrArraySize mapTarget obj 7 0).2 ≠
        (tdiDataFieldGetValueStrArraySize mapTarget obj 7 3).2 ∧
      (tdiDataFieldGetValueStrArraySize mapTarget obj 7 3).2.toNat ≠
        (([[0x61, 0x62], [0x63]] : List Str).map fun item => item.length + 1).sum ∧
      (tdiDataFieldGetValueArraySize (.success, [1, 2]) 0).2 =
        (tdiDataFieldGetValueArraySize (.success, [1, 2]) 3).2 := by
  decide

end Size

section Codec

@[simp] theorem strtok_nil : strtok [] = none := rfl

@[simp] theorem strtok_space_cons (text : Str) : strtok (space :: text) = strtok text := by
  simp [strtok]

theorem strtok_word {word : Str} (h : IsWord space word) : strtok word = some (word, []) := by
  have hdrop := dropWhile_append_of_isWord h []
  rw [List.append_nil] at hdrop
  have hall : ∀ x ∈ word, (x != space) = true := by
    intro x hx
    exact bne_iff_ne.mpr fun he => h.2 (he ▸ hx)
  simp [strtok, hdrop, h.1, List.takeWhile_eq_self_iff.mpr hall, List.dropWhile_eq_nil_iff.mpr hall]

theorem strtok_word_space {word : Str} (h : IsWord space word) (text : Str) :
    strtok (word ++ space :: text) = some (word, text) := by
  have hall : ∀ x ∈ word, (x != space) = true := by
    intro x hx
    exact bne_iff_ne.mpr fun he => h.2 (he ▸ hx)
  simp [strtok, dropWhile_append_of_isWord h, List.takeWhile_append_of_pos hall,
    List.dropWhile_append_of_pos hall]

theorem pushTokens_of_none {vec : List Str} {text : Str} (h : strtok text = none) :
    pushTokens vec text = vec := by
  rw [pushTokens]
  split
  next => rfl
  next token rest hsome => cases h.symm.trans hsome

theorem pushTokens_of_some {vec : List Str} {text token rest : Str}
    (h : strtok text = some (token, rest)) :
    pushTokens vec text = pushTokens (vec ++ [token]) rest := by
  rw [pushTokens]
  split
  next hnone => cases hnone.symm.trans h
  next token' rest' hsome =>
    injection hsome.symm.trans h with hpair
    obtain ⟨rfl, rfl⟩ := Prod.mk.inj hpair
    rfl

theorem pushTokens_congr {vec : List Str} {text text' : Str} (h : strtok text = strtok text') :
    pushTokens vec text = pushTokens vec text' := by
  cases hnext : strtok text' with
  | none => rw [pushTokens_of_none (h.trans hnext), pushTokens_of_none hnext]
  | some next => rw [pushTokens_of_some (h.trans hnext), pushTokens_of_some hnext]

/-- The loop over the tokens collects the words of the text. -/
theorem pushTokens_eq (vec : List Str) (text : Str) :
    pushTokens vec text = vec ++ words space text := by
  induction text using word_induction space generalizing vec with
  | nil => rw [pushTokens_of_none strtok_nil, words_nil, List.append_nil]
  | skip text ih => rw [pushTokens_congr (strtok_space_cons text), ih, words_sep_cons]
  | last word hword =>
    rw [pushTokens_of_some (strtok_word hword), pushTokens_of_none strtok_nil,
      words_eq_singleton hword]
  | more word text hword ih =>
    rw [pushTokens_of_some (strtok_word_space hword text), ih, words_append_sep_cons hword,
      List.append_assoc, List.singleton_append]

theorem strdup_append_nul {text : Str} (h : nul ∉ text) (after : List UInt8) :
    strdup (text ++ nul :: after) = text := by
  have hall : ∀ x ∈ text, (x != nul) = true := by
    intro x hx
    exact bne_iff_ne.mpr fun he => h (he ▸ hx)
  simp [strdup, List.takeWhile_append_of_pos hall]

variable {Obj : Type*} {target : StrArrayTarget Obj} {obj : Obj} {fieldId : TdiId}

theorem setValueStrArray_eq {text : Str} (h : nul ∉ text) (after : List UInt8) :
    tdiDataFieldSetValueStrArray target obj fieldId (text ++ nul :: after) =
      target.setValue obj fieldId (words space text) := by
  rw [tdiDataFieldSetValueStrArray, strdup_append_nul h, pushTokens_eq, List.nil_append]

theorem nul_not_mem_joined {vec : List Str} (h : ∀ item ∈ vec, nul ∉ item) :
    nul ∉ joined vec := by
  have hspace : nul ≠ space := by decide
  cases vec with
  | nil => simp [joined]
  | cons item vec =>
    obtain ⟨hitem, hvec⟩ := List.forall_mem_cons.mp h
    rw [joined, intercalate_cons_eq, List.mem_append, List.mem_flatMap]
    intro hmem
    rcases hmem with hmem | ⟨next, hnext, hmem⟩
    · exact hitem hmem
    · rcases List.mem_cons.mp hmem with he | hmem
      · exact hspace he
      · exact hvec next hnext hmem

/-- Writing back what was read stores the strings again exactly when all of them are words,
and reading what was written gives the text tidied. -/
theorem strArray_codec (target : StrArrayTarget Obj) (hkeeps : target.Keeps) (obj : Obj)
    (fieldId : TdiId) (n : UInt32) (buffer : List UInt8) (hbuf : n.toNat ≤ buffer.length) :
    (∀ vec, target.getValue obj fieldId = (.success, vec) → (∀ item ∈ vec, nul ∉ item) →
      ([space].intercalate vec).length < n.toNat →
      let out := tdiDataFieldGetValueStrArray target obj fieldId n
      let val := commit buffer out.2.stores
      let obj' := (tdiDataFieldSetValueStrArray target obj fieldId val).2
      out.1 = .success ∧ nul ∈ val ∧
        (target.getValue obj' fieldId = (.success, vec) ↔
          ∀ item ∈ vec, item ≠ [] ∧ space ∉ item)) ∧
      ∀ text after, nul ∉ text → (tidy space text).length < n.toNat →
        let obj' := (tdiDataFieldSetValueStrArray target obj fieldId (text ++ nul :: after)).2
        let out := tdiDataFieldGetValueStrArray target obj' fieldId n
        out.1 = .success ∧
          (commit buffer out.2.stores).take ((tidy space text).length + 1) =
            tidy space text ++ [nul] := by
  constructor
  · intro vec hget hnul hlen out val obj'
    obtain ⟨c, hc, -⟩ := getValueStrArray_of_lt hget hlen
    have hval : val = joined vec ++ nul :: buffer.drop ((joined vec).length + 1) :=
      commit_getValueStrArray hget hlen hbuf
    refine ⟨by rw [show out = _ from hc], by rw [hval]; simp, ?_⟩
    have hset : target.getValue obj' fieldId = (.success, words space (joined vec)) := by
      change target.getValue (tdiDataFieldSetValueStrArray target obj fieldId val).2 fieldId = _
      rw [hval, setValueStrArray_eq (nul_not_mem_joined hnul)]
      exact hkeeps.getValue_setValue obj fieldId _
    rw [hset, Prod.mk.injEq]
    exact (and_iff_right rfl).trans words_intercalate_iff
  · intro text after hnul hlen obj' out
    have hget : target.getValue obj' fieldId = (.success, words space text) := by
      change target.getValue (tdiDataFieldSetValueStrArray target obj fieldId _).2 fieldId = _
      rw [setValueStrArray_eq hnul]
      exact hkeeps.getValue_setValue obj fieldId _
    have htidy : joined (words space text) = tidy space text := intercalate_words text
    have hlt : (joined (words space text)).length < n.toNat := by rwa [htidy]
    obtain ⟨c, hc, -⟩ := getValueStrArray_of_lt hget hlt
    refine ⟨by rw [show out = _ from hc], ?_⟩
    rw [commit_getValueStrArray hget hlt hbuf, htidy, List.take_append]
    simp

theorem strArray_codec_two :
    let obj := fun _ : TdiId => [[0x61, 0x62], [0x63]]
    let out := tdiDataFieldGetValueStrArray mapTarget obj 7 8
    mapTarget.getValue (tdiDataFieldSetValueStrArray mapTarget obj 7
      (commit (List.replicate 8 0xff) out.2.stores)).2 7 = (.success, [[0x61, 0x62], [0x63]]) :=
  (((strArray_codec mapTarget mapTarget_keeps (fun _ => [[0x61, 0x62], [0x63]]) 7 8
    (List.replicate 8 0xff) (by decide)).1 [[0x61, 0x62], [0x63]] rfl (by decide)
    (by decide)).2.2).mpr (by decide)

end Codec

end Tdi.CFrontend

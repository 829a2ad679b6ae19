import Tdi.Foundation.Tails

/-!
# Partially qualified names

`generateUniqueNames` splits a name at its dots and collects, from the last
component on, the names an object may be looked up under. These are the tails of
the name without the dots at its end, and the empty name if there were such dots.

A name is a byte string in the source. Its components are cut at dots only, so
the characters of a `String` behave as the bytes do.
-/
namespace Tdi.Info

open Std Foundation

/-- `std::string::find`: the first position from `startPos` on with the delimiter. -/
def find (s delimiter : List Char) (startPos : ℕ) : Option ℕ :=
  (List.range' startPos (s.length + 1 - startPos)).find? fun pos =>
    delimiter.isPrefixOf (s.drop pos)

/-- The loop of `splitString`. With a delimiter that is not empty every round
moves on, so a round for each position is enough. -/
def splitLoop (s delimiter : List Char) : ℕ → ℕ → List String → List String
  | 0, _, tokenList => tokenList
  | fuel + 1, startPos, tokenList =>
    match find s delimiter startPos with
    | some pos =>
      splitLoop s delimiter fuel (pos + delimiter.length)
        (tokenList ++ [String.ofList ((s.drop startPos).take (pos - startPos))])
    | none => tokenList ++ [String.ofList (s.drop startPos)]

def splitString (s delimiter : String) : List String :=
  splitLoop s.toList delimiter.toList (s.toList.length + 1) 0 []

/-- One round over the reversed tokens: the names so far and the last of them. -/
def addToken (names : ExtTreeSet String × String) (token : String) : ExtTreeSet String × String :=
  if names.2 = "" then (names.1.insert token, token)
  else (names.1.insert (token ++ "." ++ names.2), token ++ "." ++ names.2)

def generateUniqueNames (objName : String) : ExtTreeSet String :=
  ((splitString objName ".").reverse.foldl addToken (∅, "")).1

/-- `q` is `name`, or what follows one of its dots. -/
def DotSuffix (q name : String) : Prop := q = name ∨ ∃ p, name = p ++ "." ++ q

/-- A name without the dots at its end. -/
def trimDots (name : String) : String := String.ofList (trim '.' name.toList)

def EndsInDot (name : String) : Prop := name.toList.getLast? = some '.'

instance (name : String) : Decidable (EndsInDot name) :=
  inferInstanceAs (Decidable (_ = _))

theorem isPrefixOf_dot_drop {s : List Char} {pos : ℕ} :
    ['.'].isPrefixOf (s.drop pos) = true ↔ s[pos]? = some '.' := by
  rw [← List.head?_drop]
  cases s.drop pos with
  | nil => simp
  | cons c r => simpa using eq_comm

theorem find_dot_of_drop {s a b : List Char} {startPos : ℕ}
    (h : s.drop startPos = a ++ '.' :: b) (ha : '.' ∉ a) :
    find s ['.'] startPos = some (startPos + a.length) := by
  have hget : ∀ j, s[startPos + j]? = (a ++ '.' :: b)[j]? := by
    intro j
    rw [← h, List.getElem?_drop]
  have hlen : startPos + a.length < s.length := by
    have hl := congrArg List.length h
    simp only [List.length_drop, List.length_append, List.length_cons] at hl
    omega
  unfold find
  rw [List.find?_range'_eq_some]
  refine ⟨isPrefixOf_dot_drop.mpr (by simp [hget]), by simp; omega, fun j hj hlt => ?_⟩
  obtain ⟨k, rfl⟩ := Nat.exists_eq_add_of_le hj
  have hk : k < a.length := by omega
  rw [Bool.not_eq_true', Bool.eq_false_iff, ne_eq, isPrefixOf_dot_drop, hget,
    List.getElem?_append_left hk, List.getElem?_eq_getElem hk, Option.some.injEq]
  exact fun he => ha (he ▸ List.getElem_mem hk)

theorem find_dot_eq_none {s : List Char} {startPos : ℕ} (h : '.' ∉ s.drop startPos) :
    find s ['.'] startPos = none := by
  unfold find
  rw [List.find?_eq_none]
  intro pos hpos hdot
  obtain ⟨k, rfl⟩ := Nat.exists_eq_add_of_le (List.mem_range'_1.mp hpos).1
  rw [isPrefixOf_dot_drop, ← List.getElem?_drop] at hdot
  exact h (List.mem_of_getElem? hdot)

/-- From a position on, the loop appends the components of the rest. -/
theorem splitLoop_dot {s : List Char} (fuel startPos : ℕ) (tokenList : List String)
    (hfuel : s.length < fuel + startPos) (hstart : startPos ≤ s.length) :
    (splitLoop s ['.'] fuel startPos tokenList).map String.toList =
      tokenList.map String.toList ++ (s.drop startPos).splitOn '.' := by
  induction fuel generalizing startPos tokenList with
  | zero => omega
  | succ fuel ih =>
    unfold splitLoop
    by_cases hdot : '.' ∈ s.drop startPos
    · obtain ⟨a, b, hab, ha⟩ := List.eq_append_cons_of_mem hdot
      have hlen := congrArg List.length hab
      simp only [List.length_drop, List.length_append, List.length_cons] at hlen
      have hrest : s.drop (startPos + a.length + 1) = b := by
        rw [add_assoc, ← List.drop_drop, hab]
        simp
      rw [find_dot_of_drop hab ha]
      change (splitLoop s ['.'] fuel (startPos + a.length + 1) _).map String.toList = _
      rw [ih _ _ (by omega) (by omega), hrest, hab, List.splitOn_append_cons_self_of_not_mem ha]
      simp
    · rw [find_dot_eq_none hdot, List.splitOn_eq_singleton hdot]
      simp

theorem map_toList_splitString (s : String) :
    (splitString s ".").map String.toList = s.toList.splitOn '.' := by
  unfold splitString
  simpa using splitLoop_dot (s := s.toList) (s.toList.length + 1) 0 [] (by omega) (by omega)

theorem dotSuffix_iff {q name : String} : DotSuffix q name ↔ IsTail '.' q.toList name.toList := by
  unfold DotSuffix IsTail
  rw [String.toList_inj]
  refine or_congr_right ⟨?_, ?_⟩
  · rintro ⟨p, rfl⟩
    exact ⟨p.toList, by simp⟩
  · rintro ⟨p, hp⟩
    refine ⟨String.ofList p, String.toList_inj.mp ?_⟩
    simp [hp]

theorem mem_addToken {names : ExtTreeSet String × String} {token q : String} :
    q ∈ (addToken names token).1 ↔ q = (addToken names token).2 ∨ q ∈ names.1 := by
  unfold addToken
  split_ifs <;> exact ExtTreeSet.mem_insert.trans
    (or_congr_left (LawfulEqCmp.compare_eq_iff_eq.trans eq_comm))

/-- What the rounds over the components of `n` have collected. -/
structure Collected (n : List Char) (names : ExtTreeSet String × String) : Prop where
  last : names.2.toList = trim '.' n
  mem_iff : ∀ q : String, q ∈ names.1 ↔
    IsTail '.' q.toList (trim '.' n) ∨ (n.getLast? = some '.' ∧ q = "")

theorem collected_singleton {token : String} (h : '.' ∉ token.toList) :
    Collected token.toList (addToken (∅, "") token) := by
  have hlast : token.toList.getLast? ≠ some '.' := fun hl => h (List.mem_of_getLast? hl)
  have hname : (addToken (∅, "") token).2 = token := by simp [addToken]
  constructor
  · rw [hname, trim_of_not_mem h]
  · intro q
    rw [mem_addToken, hname, trim_of_not_mem h, isTail_of_not_mem h, String.toList_inj]
    simp [hlast]

theorem Collected.addToken {n : List Char} {names : ExtTreeSet String × String} {token : String}
    (hc : Collected n names) (h : '.' ∉ token.toList) :
    Collected (token.toList ++ '.' :: n) (addToken names token) := by
  by_cases hempty : names.2 = ""
  · -- only dots so far
    have hname : (Info.addToken names token).2 = token := by simp [Info.addToken, hempty]
    have htrim : trim '.' n = [] := by simpa [hempty] using hc.last.symm
    have hdots := getLast?_of_trim_eq_nil htrim
    constructor
    · rw [hname, trim_append_cons_of_eq_nil h htrim]
    · intro q
      rw [mem_addToken, hname, hc.mem_iff, trim_append_cons_of_eq_nil h htrim,
        isTail_of_not_mem h, String.toList_inj, htrim, isTail_of_not_mem (by simp),
        getLast?_append_cons_eq_some_iff]
      have hnil : q.toList = [] ↔ q = "" := by simp
      rw [hnil]
      tauto
  · have hname : (Info.addToken names token).2 = token ++ "." ++ names.2 := by
      simp [Info.addToken, hempty]
    have htrim : trim '.' n ≠ [] := by
      rw [← hc.last]
      simpa using hempty
    have hn : n ≠ [] := by
      rintro rfl
      exact htrim rfl
    have hfull : (token ++ "." ++ names.2).toList = token.toList ++ '.' :: trim '.' n := by
      simp [hc.last]
    constructor
    · rw [hname, hfull, trim_append_cons_of_ne_nil htrim]
    · intro q
      rw [mem_addToken, hname, hc.mem_iff, trim_append_cons_of_ne_nil htrim,
        isTail_append_cons h, getLast?_append_cons_eq_some_iff, ← String.toList_inj, hfull]
      simp [hn, or_assoc]

theorem collected_foldr {tokens : List String} (hne : tokens ≠ [])
    (hdots : ∀ t ∈ tokens, '.' ∉ t.toList) :
    Collected (['.'].intercalate (tokens.map String.toList))
      (tokens.foldr (fun t names => addToken names t) (∅, "")) := by
  induction tokens with
  | nil => exact absurd rfl hne
  | cons t ts ih =>
    have ht := hdots t List.mem_cons_self
    rcases ts with - | ⟨u, us⟩
    · simpa using collected_singleton ht
    · have hrest := ih (List.cons_ne_nil u us) fun v hv => hdots v (List.mem_cons_of_mem _ hv)
      simpa [List.intercalate_cons_cons] using hrest.addToken ht

/-- The names of an object are the tails of its name without the dots at its end, and
the empty name if there are such dots. -/
theorem mem_generateUniqueNames {q name : String} :
    q ∈ generateUniqueNames name ↔
      DotSuffix q (trimDots name) ∨ (EndsInDot name ∧ q = "") := by
  have hsplit := map_toList_splitString name
  have hne : splitString name "." ≠ [] := by
    intro h
    simp [h] at hsplit
  have hdots : ∀ t ∈ splitString name ".", '.' ∉ t.toList := by
    intro t ht
    exact sep_not_mem_of_mem_splitOn (hsplit ▸ List.mem_map_of_mem ht)
  have hc := collected_foldr hne hdots
  rw [hsplit, List.intercalate_splitOn] at hc
  unfold generateUniqueNames
  rw [List.foldl_reverse, hc.mem_iff, dotSuffix_iff]
  simp [trimDots, EndsInDot]

end Tdi.Info

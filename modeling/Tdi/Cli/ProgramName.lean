import Tdi.Cli.CommandTree
import Tdi.Cli.Value

/-!
# The name of a program's node

`validate_program_name` turns the name of a program into one that its node can have.
What is no identifier loses its other characters, and a name that is taken is prefixed
with `p4_`. There are three lists of names that are taken, and the prefix is used once,
so that a name is rejected which is taken with the prefix.

The global names are looked up before the names of the object tree, and not again.
-/
namespace Tdi.Cli.ProgramName

open Foundation CommandTree

/-- `\w` of ASCII text -/
def isWord (c : Char) : Bool := c.isAlphanum || c == '_'

/-- `re.sub(r"[^\w]", "_", name)` -/
def substitute (name : String) : String :=
  String.ofList (name.toList.map fun c => if isWord c then c else '_')

/-- `name[0:3].upper() == "P4_"` -/
def hasP4Prefix (name : String) : Bool :=
  (name.toList.take 3).map Char.toUpper = ['P', '4', '_']

/-- The local variables `p4_name_str_`, `p4_name_res_` and `p4_pref_`. -/
structure NameVars where
  str : String
  res : String
  pref : Bool

def NameVars.start (name : String) : NameVars := ⟨name, name, hasP4Prefix name⟩

@[simp] theorem NameVars.start_str (name : String) : (start name).str = name := rfl
@[simp] theorem NameVars.start_pref (name : String) : (start name).pref = hasP4Prefix name := rfl

/-- What is not an identifier is rewritten. -/
def makeIdentifier (v : NameVars) : NameVars :=
  if isidentifier v.str then v
  else
    let res := substitute v.str
    let res := if v.pref then res else "p4_" ++ res
    ⟨res, res, true⟩

/-- One of the three rewritings of a name that is taken. -/
def prefixTaken (taken : Bool) (v : NameVars) : NameVars :=
  if !v.pref && taken then ⟨"p4_" ++ v.str, "p4_" ++ v.str, true⟩ else v

/-- The rewritings before the test for a global name. -/
def rewriteName (globals : List String) (name : String) : NameVars :=
  let v := makeIdentifier (.start name)
  let v := prefixTaken (v.str ∈ pythonKeywords) v
  prefixTaken (v.str ∈ globals) v

/-- `name in dir(p_node) or name in fixed_nodes` -/
def reserved (dir : List String) (fixedNodes : Option (List String)) (name : String) :
    Except Raised Bool :=
  if name ∈ dir then .ok true
  else
    match fixedNodes with
    | some fixedNodes => .ok (name ∈ fixedNodes)
    | none => .error .typeError

/-- The first test of a name for the object tree, which is not made with the prefix. -/
def takenInTree (dir : List String) (fixedNodes : Option (List String)) (v : NameVars) :
    Except Raised Bool :=
  if v.pref then .ok false else reserved dir fixedNodes v.str

/-- What is done where the parent is a `TDINode`. -/
def resolveReserved (dir : List String) (fixedNodes : Option (List String)) (v : NameVars) :
    Except Raised String := do
  let taken ← takenInTree dir fixedNodes v
  let v := prefixTaken taken v
  if ← reserved dir fixedNodes v.str then .ok "" else .ok v.res

/-- The parent node, with what `dir` lists of it. -/
structure ParentNode where
  isTDINode : Bool
  dir : List String

/-- `validate_program_name`, without the warnings. -/
def validateProgramName (globals : List String) (pNode : Option ParentNode)
    (fixedNodes : Option (List String)) (p4Name : String) : Except Raised String := do
  let name ← encodeAscii p4Name
  let v := rewriteName globals name
  if v.str ∈ globals then .ok ""
  else
    match pNode with
    | some node => if node.isTDINode then resolveReserved node.dir fixedNodes v else .ok v.res
    | none => .ok v.res

section Prefix

theorem eq_of_toUpper_eq {c d : Char} (h : c.toUpper = d) (hd : d.isAlpha = false) : c = d := by
  have halpha : c.isAlpha = false := by rw [← Char.isAlpha_toUpper_eq_isAlpha, h, hd]
  rw [Char.isAlpha, Bool.or_eq_false_iff] at halpha
  rwa [Char.toUpper_eq_of_not_isLower (by simp [halpha.2])] at h

theorem hasP4Prefix_iff {name : String} :
    hasP4Prefix name = true ↔
      ∃ p rest, p.toUpper = 'P' ∧ name.toList = p :: '4' :: '_' :: rest := by
  rw [hasP4Prefix, decide_eq_true_eq]
  constructor
  · intro h
    match hname : name.toList with
    | [] | [_] | [_, _] => simp [hname] at h
    | p :: four :: underscore :: rest =>
      simp only [hname, List.take_succ_cons, List.take_zero, List.map_cons, List.map_nil,
        List.cons.injEq, and_true] at h
      obtain ⟨hp, hfour, hunderscore⟩ := h
      rw [eq_of_toUpper_eq hfour (by decide), eq_of_toUpper_eq hunderscore (by decide)]
      exact ⟨p, rest, hp, rfl⟩
  · rintro ⟨p, rest, hp, hname⟩
    rw [hname]
    simp [hp]

theorem toList_prepend (name : String) :
    ("p4_" ++ name).toList = 'p' :: '4' :: '_' :: name.toList := by
  rw [String.toList_append]
  rfl

theorem prepend_ne_empty (name : String) : "p4_" ++ name ≠ "" := by
  intro h
  have hlist := congrArg String.toList h
  rw [toList_prepend] at hlist
  cases hlist

theorem hasP4Prefix_prepend (name : String) : hasP4Prefix ("p4_" ++ name) = true :=
  hasP4Prefix_iff.mpr ⟨'p', name.toList, by decide, toList_prepend name⟩

/-- No keyword begins like that. -/
theorem not_keyword_of_hasP4Prefix {name : String} (h : hasP4Prefix name = true) :
    name ∉ pythonKeywords := by
  have hnone : ∀ word ∈ pythonKeywords, hasP4Prefix word = false := by decide +kernel
  intro hmem
  rw [hnone name hmem] at h
  cases h

theorem isAlpha_of_toUpper_eq {p : Char} (h : p.toUpper = 'P') : p.isAlpha = true := by
  rw [← Char.isAlpha_toUpper_eq_isAlpha, h]
  decide

theorem isDigit_of_isAlpha {c : Char} (h : c.isAlpha = true) : c.isDigit = false := by
  rw [Bool.eq_false_iff]
  intro hdigit
  have hle : c.toNat ≤ 57 := (isDigit_bounds hdigit).2
  simp only [Char.isAlpha, Char.isUpper, Char.isLower, Bool.or_eq_true, Bool.and_eq_true,
    decide_eq_true_eq, ge_iff_le] at h
  rcases h with h | h
  · have hge : 65 ≤ c.toNat := h.1
    omega
  · have hge : 97 ≤ c.toNat := h.1
    omega

/-- With the prefix the characters are all that counts. -/
theorem isidentifier_of_hasP4Prefix {name : String} (hp4 : hasP4Prefix name = true)
    (hword : ∀ c ∈ name.toList, isWord c = true) : isidentifier name = true := by
  obtain ⟨p, rest, hp, hname⟩ := hasP4Prefix_iff.mp hp4
  rw [hname] at hword
  rw [isidentifier, hname]
  simp only [Bool.and_eq_true, Bool.not_eq_true', List.all_eq_true]
  exact ⟨isDigit_of_isAlpha (isAlpha_of_toUpper_eq hp), hword⟩

theorem isWord_of_mem_substitute {name : String} {c : Char} (hc : c ∈ (substitute name).toList) :
    isWord c = true := by
  rw [substitute, String.toList_ofList, List.mem_map] at hc
  obtain ⟨d, -, rfl⟩ := hc
  split_ifs with hd
  · exact hd
  · decide

theorem hasP4Prefix_substitute {name : String} (h : hasP4Prefix name = true) :
    hasP4Prefix (substitute name) = true := by
  obtain ⟨p, rest, hp, hname⟩ := hasP4Prefix_iff.mp h
  have hword : isWord p = true := by
    simp [isWord, Char.isAlphanum, isAlpha_of_toUpper_eq hp]
  apply hasP4Prefix_iff.mpr
  refine ⟨p, rest.map fun c => if isWord c then c else '_', hp, ?_⟩
  rw [substitute, String.toList_ofList, hname, List.map_cons, if_pos hword]
  rfl

theorem isWord_of_mem_prepend {name : String} (h : ∀ c ∈ name.toList, isWord c = true) {c : Char}
    (hc : c ∈ ("p4_" ++ name).toList) : isWord c = true := by
  rw [toList_prepend] at hc
  simp only [List.mem_cons] at hc
  rcases hc with rfl | rfl | rfl | hc
  · decide
  · decide
  · decide
  · exact h c hc

end Prefix

section Rewriting

variable {v : NameVars} {taken : Bool} {globals : List String} {name : String}

/-- What holds of the variables between two steps. -/
structure NameVars.Valid (v : NameVars) : Prop where
  res_eq : v.res = v.str
  valid : isidentifier v.str = true
  prefixed : v.pref = true → hasP4Prefix v.str = true

theorem valid_of_hasP4Prefix (hp4 : hasP4Prefix name = true)
    (hword : ∀ c ∈ name.toList, isWord c = true) : NameVars.Valid ⟨name, name, true⟩ :=
  ⟨rfl, isidentifier_of_hasP4Prefix hp4 hword, fun _ => hp4⟩

theorem valid_prepend (hword : ∀ c ∈ name.toList, isWord c = true) :
    NameVars.Valid ⟨"p4_" ++ name, "p4_" ++ name, true⟩ :=
  valid_of_hasP4Prefix (hasP4Prefix_prepend name) fun _ => isWord_of_mem_prepend hword

theorem valid_makeIdentifier_start (name : String) : (makeIdentifier (.start name)).Valid := by
  unfold makeIdentifier
  dsimp only
  split_ifs with hid hpref
  · exact ⟨rfl, hid, id⟩
  · exact valid_of_hasP4Prefix (hasP4Prefix_substitute hpref) fun _ => isWord_of_mem_substitute
  · exact valid_prepend fun _ => isWord_of_mem_substitute

theorem valid_prefixTaken (h : v.Valid) : (prefixTaken taken v).Valid := by
  unfold prefixTaken
  split_ifs
  · exact valid_prepend fun _ => isAlphanum_or_underscore h.valid
  · exact h

/-- A name without the prefix has not been rewritten, and there was no reason to. -/
theorem prefixTaken_pref_eq_false (h : (prefixTaken taken v).pref = false) :
    v.pref = false ∧ taken = false ∧ prefixTaken taken v = v := by
  unfold prefixTaken at h ⊢
  split_ifs at h ⊢ with hc
  simpa [h] using hc

theorem prefixTaken_false (v : NameVars) : prefixTaken false v = v := by simp [prefixTaken]

theorem makeIdentifier_pref_eq_false (h : (makeIdentifier v).pref = false) :
    isidentifier v.str = true ∧ makeIdentifier v = v := by
  unfold makeIdentifier at h ⊢
  split_ifs at h ⊢ with hid
  exact ⟨hid, rfl⟩

theorem not_keyword_prefixTaken (h : v.Valid) :
    (prefixTaken (v.str ∈ pythonKeywords) v).str ∉ pythonKeywords := by
  have hvalid : (prefixTaken (v.str ∈ pythonKeywords) v).Valid := valid_prefixTaken h
  cases hpref : (prefixTaken (v.str ∈ pythonKeywords) v).pref with
  | true => exact not_keyword_of_hasP4Prefix (hvalid.prefixed hpref)
  | false =>
    obtain ⟨-, htaken, hsame⟩ := prefixTaken_pref_eq_false hpref
    rw [hsame]
    simpa using htaken

theorem not_keyword_prefixTaken_of (h : v.str ∉ pythonKeywords) :
    (prefixTaken taken v).str ∉ pythonKeywords := by
  unfold prefixTaken
  split_ifs
  · exact not_keyword_of_hasP4Prefix (hasP4Prefix_prepend _)
  · exact h

theorem valid_rewriteName (globals : List String) (name : String) :
    (rewriteName globals name).Valid :=
  valid_prefixTaken (valid_prefixTaken (valid_makeIdentifier_start name))

theorem not_keyword_rewriteName (globals : List String) (name : String) :
    (rewriteName globals name).str ∉ pythonKeywords :=
  not_keyword_prefixTaken_of (not_keyword_prefixTaken (valid_makeIdentifier_start name))

/-- A name is kept that is an identifier and not taken. -/
theorem rewriteName_eq_start (hid : isidentifier name = true) (hkeyword : name ∉ pythonKeywords)
    (hglobal : name ∉ globals) : rewriteName globals name = .start name := by
  have hmake : makeIdentifier (.start name) = .start name := if_pos hid
  have hk : decide ((NameVars.start name).str ∈ pythonKeywords) = false := decide_eq_false hkeyword
  have hg : decide ((NameVars.start name).str ∈ globals) = false := decide_eq_false hglobal
  simp only [rewriteName, hmake, hk, hg, prefixTaken_false]

/-- A name is without the prefix only if nothing was to be rewritten. -/
theorem rewriteName_pref_eq_false_iff :
    (rewriteName globals name).pref = false ↔
      isidentifier name = true ∧ hasP4Prefix name = false ∧ name ∉ pythonKeywords ∧
        name ∉ globals := by
  constructor
  · intro h
    obtain ⟨hpref, hglobal, -⟩ := prefixTaken_pref_eq_false h
    obtain ⟨hpref', hkeyword, hsame⟩ := prefixTaken_pref_eq_false hpref
    obtain ⟨hid, hmake⟩ := makeIdentifier_pref_eq_false hpref'
    rw [hsame, hmake] at hglobal
    rw [hmake] at hkeyword hpref'
    exact ⟨hid, hpref', of_decide_eq_false hkeyword, of_decide_eq_false hglobal⟩
  · rintro ⟨hid, hpref, hkeyword, hglobal⟩
    rw [rewriteName_eq_start hid hkeyword hglobal]
    exact hpref

end Rewriting

section Reserved

/-- What a node can be called: an identifier that is no keyword and not taken. -/
structure Safe (globals dir fixedNodes : List String) (name : String) : Prop where
  identifier : isidentifier name = true
  not_keyword : name ∉ pythonKeywords
  not_global : name ∉ globals
  not_dir : name ∉ dir
  not_fixed : name ∉ fixedNodes

/-- The result is empty or safe, and a safe name is kept. -/
def Sound (globals dir fixedNodes : List String) (name : String) : Prop :=
  ∃ res, validateProgramName globals (some ⟨true, dir⟩) (some fixedNodes) name = .ok res ∧
    (res = "" ∨ Safe globals dir fixedNodes res) ∧ (Safe globals dir fixedNodes name → res = name)

/-- A name that is only taken in the object tree: the last rewriting prefixes it. -/
structure OnlyReserved (globals dir fixedNodes : List String) (name : String) : Prop where
  identifier : isidentifier name = true
  not_prefixed : hasP4Prefix name = false
  not_keyword : name ∉ pythonKeywords
  not_global : name ∉ globals
  is_reserved : name ∈ dir ∨ name ∈ fixedNodes

variable {globals dir fixedNodes : List String} {name : String}

theorem reserved_some (name : String) :
    reserved dir (some fixedNodes) name = .ok (decide (name ∈ dir ∨ name ∈ fixedNodes)) := by
  unfold reserved
  split_ifs with hdir <;> simp [hdir]

/-- The variables after the last rewriting. -/
def resolved (globals dir fixedNodes : List String) (name : String) : NameVars :=
  let v := rewriteName globals name
  prefixTaken (v.str ∈ dir ∨ v.str ∈ fixedNodes) v

/-- With the prefix the first test is not made, and its result makes no difference. -/
theorem prefixTaken_of_takenInTree (dir fixedNodes : List String) (v : NameVars) :
    ∃ taken, takenInTree dir (some fixedNodes) v = .ok taken ∧
      prefixTaken taken v = prefixTaken (v.str ∈ dir ∨ v.str ∈ fixedNodes) v := by
  rw [takenInTree, reserved_some]
  split_ifs with hpref
  · exact ⟨false, rfl, by simp [prefixTaken, hpref]⟩
  · exact ⟨_, rfl, rfl⟩

theorem resolveReserved_some (v : NameVars) :
    resolveReserved dir (some fixedNodes) v =
      let w := prefixTaken (v.str ∈ dir ∨ v.str ∈ fixedNodes) v
      .ok (if w.str ∈ dir ∨ w.str ∈ fixedNodes then "" else w.res) := by
  obtain ⟨taken, htaken, hsame⟩ := prefixTaken_of_takenInTree dir fixedNodes v
  rw [resolveReserved, htaken]
  simp only [bind, Except.bind, hsame, reserved_some, apply_ite Except.ok, decide_eq_true_eq]

theorem validateProgramName_some (hascii : ∀ c ∈ name.toList, c.toNat < 128) :
    validateProgramName globals (some ⟨true, dir⟩) (some fixedNodes) name =
      let w := resolved globals dir fixedNodes name
      .ok (if (rewriteName globals name).str ∈ globals ∨ w.str ∈ dir ∨ w.str ∈ fixedNodes then ""
        else w.res) := by
  have hdecode : encodeAscii name = .ok name := if_pos hascii
  rw [validateProgramName, hdecode]
  simp only [bind, Except.bind, resolveReserved_some, if_true, resolved]
  by_cases hglobal : (rewriteName globals name).str ∈ globals
  · simp [hglobal]
  · simp [hglobal]

theorem valid_resolved : (resolved globals dir fixedNodes name).Valid :=
  valid_prefixTaken (valid_rewriteName globals name)

theorem not_keyword_resolved : (resolved globals dir fixedNodes name).str ∉ pythonKeywords :=
  not_keyword_prefixTaken_of (not_keyword_rewriteName globals name)

theorem resolved_of_onlyReserved (h : OnlyReserved globals dir fixedNodes name) :
    resolved globals dir fixedNodes name = ⟨"p4_" ++ name, "p4_" ++ name, true⟩ := by
  have hstart := rewriteName_eq_start h.identifier h.not_keyword h.not_global
  simp [resolved, hstart, prefixTaken, h.not_prefixed, h.is_reserved]

theorem resolved_of_not_onlyReserved (h : ¬ OnlyReserved globals dir fixedNodes name) :
    resolved globals dir fixedNodes name = rewriteName globals name := by
  apply if_neg
  intro hrewritten
  rw [Bool.and_eq_true, Bool.not_eq_true', decide_eq_true_eq] at hrewritten
  obtain ⟨hpref, htaken⟩ := hrewritten
  obtain ⟨hid, hp4, hkeyword, hglobal⟩ := rewriteName_pref_eq_false_iff.mp hpref
  rw [rewriteName_eq_start hid hkeyword hglobal] at htaken
  exact h ⟨hid, hp4, hkeyword, hglobal, htaken⟩

theorem resolved_of_safe (h : Safe globals dir fixedNodes name) :
    resolved globals dir fixedNodes name = .start name := by
  have hnot : ¬ OnlyReserved globals dir fixedNodes name := fun hreserved =>
    hreserved.is_reserved.elim h.not_dir h.not_fixed
  rw [resolved_of_not_onlyReserved hnot,
    rewriteName_eq_start h.identifier h.not_keyword h.not_global]

/-- A name that is returned has passed the test for a global name before the last rewriting and
the tests of the object tree after it. -/
theorem validateProgramName_cases (globals dir fixedNodes : List String)
    (hascii : ∀ c ∈ name.toList, c.toNat < 128) :
    validateProgramName globals (some ⟨true, dir⟩) (some fixedNodes) name = .ok "" ∨
      validateProgramName globals (some ⟨true, dir⟩) (some fixedNodes) name =
          .ok (resolved globals dir fixedNodes name).str ∧
        (rewriteName globals name).str ∉ globals ∧
        ¬ ((resolved globals dir fixedNodes name).str ∈ dir ∨
          (resolved globals dir fixedNodes name).str ∈ fixedNodes) := by
  rw [validateProgramName_some hascii]
  by_cases hstop : (rewriteName globals name).str ∈ globals ∨
      (resolved globals dir fixedNodes name).str ∈ dir ∨
      (resolved globals dir fixedNodes name).str ∈ fixedNodes
  · left
    simp only [if_pos hstop]
  · right
    rw [not_or] at hstop
    simp only [if_neg (not_or.mpr hstop), valid_resolved.res_eq]
    exact ⟨trivial, hstop⟩

theorem validateProgramName_of_safe (hascii : ∀ c ∈ name.toList, c.toNat < 128)
    (h : Safe globals dir fixedNodes name) :
    validateProgramName globals (some ⟨true, dir⟩) (some fixedNodes) name = .ok name := by
  have hstart := rewriteName_eq_start h.identifier h.not_keyword h.not_global
  have hgo : ¬ (name ∈ globals ∨ name ∈ dir ∨ name ∈ fixedNodes) := by
    rintro (hmem | hmem | hmem)
    · exact h.not_global hmem
    · exact h.not_dir hmem
    · exact h.not_fixed hmem
  rw [validateProgramName_some hascii, resolved_of_safe h, hstart]
  exact congrArg Except.ok (if_neg hgo)

/-- The name with the prefix is not looked up among the global names. -/
theorem validateProgramName_of_onlyReserved (hascii : ∀ c ∈ name.toList, c.toNat < 128)
    (h : OnlyReserved globals dir fixedNodes name)
    (hfree : ¬ ("p4_" ++ name ∈ dir ∨ "p4_" ++ name ∈ fixedNodes)) :
    validateProgramName globals (some ⟨true, dir⟩) (some fixedNodes) name =
      .ok ("p4_" ++ name) := by
  have hstart := rewriteName_eq_start h.identifier h.not_keyword h.not_global
  have hgo : ¬ (name ∈ globals ∨ "p4_" ++ name ∈ dir ∨ "p4_" ++ name ∈ fixedNodes) :=
    not_or.mpr ⟨h.not_global, hfree⟩
  rw [validateProgramName_some hascii, resolved_of_onlyReserved h, hstart]
  exact congrArg Except.ok (if_neg hgo)

/-- A program's name is validated soundly, unless only the object tree has it and the name
with the prefix is a global one, which is not looked up any more. -/
theorem validateProgramName_sound_iff (hascii : ∀ c ∈ name.toList, c.toNat < 128) :
    Sound globals dir fixedNodes name ↔
      ¬ (OnlyReserved globals dir fixedNodes name ∧ "p4_" ++ name ∈ globals ∧
        ¬ ("p4_" ++ name ∈ dir ∨ "p4_" ++ name ∈ fixedNodes)) := by
  have hkept : ∀ res,
      validateProgramName globals (some ⟨true, dir⟩) (some fixedNodes) name = .ok res →
        Safe globals dir fixedNodes name → res = name := by
    intro res hres hsafe
    rw [validateProgramName_of_safe hascii hsafe] at hres
    exact (Except.ok.inj hres).symm
  constructor
  · rintro ⟨res, hres, hsafe, -⟩ ⟨honly, hglobal, hfree⟩
    rw [validateProgramName_of_onlyReserved hascii honly hfree] at hres
    cases hres
    rcases hsafe with hempty | hsafe
    · exact prepend_ne_empty name hempty
    · exact hsafe.not_global hglobal
  · intro hnot
    rcases validateProgramName_cases globals dir fixedNodes hascii with
      hres | ⟨hres, hglobal, hfree⟩
    · exact ⟨_, hres, .inl rfl, hkept _ hres⟩
    · have hend : (resolved globals dir fixedNodes name).str ∉ globals := by
        by_cases honly : OnlyReserved globals dir fixedNodes name
        · rw [resolved_of_onlyReserved honly] at hfree ⊢
          exact fun hmem => hnot ⟨honly, hmem, hfree⟩
        · rwa [resolved_of_not_onlyReserved honly]
      rw [not_or] at hfree
      have hsafe : Safe globals dir fixedNodes (resolved globals dir fixedNodes name).str :=
        ⟨valid_resolved.valid, not_keyword_resolved, hend, hfree.1, hfree.2⟩
      exact ⟨_, hres, .inr hsafe, hkept _ hres⟩

/-- `dump` is a command of the node, so that the program gets the name `p4_dump`. -/
theorem sound_dump : Sound ["tdi", "os"] ["_name", "dump", "info"] [] "dump" := by
  apply (validateProgramName_sound_iff (by simp)).mpr
  rintro ⟨-, hglobal, -⟩
  exact absurd hglobal (by decide)

/-- It gets that name also where there is a global name `p4_dump`. -/
theorem not_sound_dump : ¬ Sound ["tdi", "os", "p4_dump"] ["_name", "dump", "info"] [] "dump" := by
  have hres : validateProgramName ["tdi", "os", "p4_dump"] (some ⟨true, ["_name", "dump", "info"]⟩)
      (some []) "dump" = .ok "p4_dump" := by
    rw [validateProgramName_some (by simp)]
    decide +kernel
  rintro ⟨res, hok, hsafe, -⟩
  rw [hres, Except.ok.injEq] at hok
  subst hok
  rcases hsafe with hempty | hsafe
  · exact absurd hempty (by decide)
  · exact hsafe.not_global (by decide)

end Reserved

section Programs

variable {globals dir fixedNodes names p4Names : List String} {p4Name name : String}

/-- A name that is returned is free in the object tree. -/
theorem validateProgramName_free
    (h : validateProgramName globals (some ⟨true, dir⟩) (some fixedNodes) p4Name = .ok name)
    (hne : name ≠ "") :
    isidentifier name = true ∧ name ∉ pythonKeywords ∧ name ∉ dir ∧ name ∉ fixedNodes := by
  by_cases hascii : ∀ c ∈ p4Name.toList, c.toNat < 128
  · rcases validateProgramName_cases globals dir fixedNodes hascii with hres | ⟨hres, -, hfree⟩
    · rw [hres] at h
      exact absurd (Except.ok.inj h).symm hne
    · rw [hres] at h
      cases h
      exact ⟨valid_resolved.valid, not_keyword_resolved, not_or.mp hfree⟩
  · have hdecode : encodeAscii p4Name = .error .unicodeError := if_neg hascii
    rw [validateProgramName, hdecode] at h
    cases h

/-- A node that is not a `TDINode` has no names that are looked up. -/
theorem validateProgramName_of_not_node {pNode : Option ParentNode}
    {fixedNodes : Option (List String)} (hnode : ∀ node, pNode = some node → node.isTDINode = false)
    (h : validateProgramName globals pNode fixedNodes p4Name = .ok name) (hne : name ≠ "") :
    isidentifier name = true ∧ name ∉ pythonKeywords ∧ name ∉ globals := by
  obtain ⟨p4Name, -, h⟩ := bind_eq_ok_iff.mp h
  by_cases hglobal : (rewriteName globals p4Name).str ∈ globals
  · rw [if_pos hglobal] at h
    cases h
    exact absurd rfl hne
  have hres : (rewriteName globals p4Name).res = name := by
    rw [if_neg hglobal] at h
    cases pNode with
    | none => exact Except.ok.inj h
    | some node =>
      have hnot := hnode node rfl
      simpa [hnot] using h
  have hvalid := valid_rewriteName globals p4Name
  rw [hvalid.res_eq] at hres
  subst hres
  exact ⟨hvalid.valid, not_keyword_rewriteName globals p4Name, hglobal⟩

theorem resolveReserved_none {v : NameVars} (h : resolveReserved dir none v = .ok name) :
    name = "" := by
  obtain ⟨taken, -, h⟩ := bind_eq_ok_iff.mp h
  obtain ⟨inTree, hreserved, h⟩ := bind_eq_ok_iff.mp h
  unfold reserved at hreserved
  split_ifs at hreserved
  cases hreserved
  exact (Except.ok.inj h).symm

/-- Without a list of fixed nodes, which is the default, there is no name in the tree. -/
theorem validateProgramName_no_fixedNodes
    (h : validateProgramName globals (some ⟨true, dir⟩) none p4Name = .ok name) : name = "" := by
  obtain ⟨p4Name, -, h⟩ := bind_eq_ok_iff.mp h
  by_cases hglobal : (rewriteName globals p4Name).str ∈ globals
  · rw [if_pos hglobal] at h
    exact (Except.ok.inj h).symm
  · rw [if_neg hglobal] at h
    exact resolveReserved_none h

/-- The names of the nodes that are made for the programs of a device other than `$SHARED`, if
none is rejected. A node is bound as an attribute of the parent, and then `dir` lists it. -/
def programNodes (globals fixedNodes : List String) :
    List String → List String → Except Raised (Option (List String))
  | _, [] => .ok (some [])
  | dir, p4Name :: p4Names => do
    let name ← validateProgramName globals (some ⟨true, dir⟩) (some fixedNodes) p4Name
    if name = "" then .ok none
    else
      let names ← programNodes globals fixedNodes (name :: dir) p4Names
      .ok (names.map fun names => name :: names)

/-- No program's node replaces an attribute of the parent, a fixed node or another program's. -/
theorem programNodes_nodup (h : programNodes globals fixedNodes dir p4Names = .ok (some names)) :
    names.Nodup ∧ ∀ name ∈ names, isidentifier name = true ∧ name ∉ pythonKeywords ∧
      name ∉ dir ∧ name ∉ fixedNodes := by
  induction p4Names generalizing dir names with
  | nil =>
    cases h
    simp
  | cons p4Name p4Names ih =>
    obtain ⟨name, hname, h⟩ := bind_eq_ok_iff.mp h
    by_cases hne : name = ""
    · rw [if_pos hne] at h
      cases h
    rw [if_neg hne] at h
    obtain ⟨rest, hrest, h⟩ := bind_eq_ok_iff.mp h
    cases rest with
    | none => cases h
    | some rest =>
      cases h
      obtain ⟨hnodup, hfree⟩ := ih hrest
      constructor
      · rw [List.nodup_cons]
        refine ⟨fun hmem => ?_, hnodup⟩
        exact (hfree name hmem).2.2.1 (by simp)
      · intro other hother
        rcases List.mem_cons.mp hother with rfl | hmem
        · exact validateProgramName_free hname hne
        · obtain ⟨hid, hkeyword, hdir, hfixed⟩ := hfree other hmem
          exact ⟨hid, hkeyword, fun hmem => hdir (by simp [hmem]), hfixed⟩

end Programs
end Tdi.Cli.ProgramName

import Tdi.Cli.CommandTree
import Tdi.Foundation.Layers
import Tdi.Foundation.Runs

/-!
# Switching the context of the shell

An object of the command tree is called to load its children and commands into
`__main__`. The names that the object before it has put there are deleted first. The
line `..` calls the parent, or unloads everything at the root.

An exception leaves what was done before it: a deletion that fails ends the loop over
the names of the old context, and nothing is loaded.
-/
namespace Tdi.Cli.Context

open Foundation NamedTree CommandTree

/-- An object with the objects it is below, the nearest first. -/
structure Position where
  object : CliObject
  ancestors : List CliObject
  linked : (object :: ancestors).IsChain fun c p => c ∈ p.children

namespace Position

variable (x : Position)

theorem linked_parent {p : CliObject} {up : List CliObject} (h : x.ancestors = p :: up) :
    (p :: up).IsChain fun c p => c ∈ p.children :=
  h ▸ x.linked.tail

theorem linked_child {c : CliObject} (hc : c ∈ x.object.children) :
    (c :: x.object :: x.ancestors).IsChain fun c p => c ∈ p.children :=
  List.isChain_cons_cons.mpr ⟨hc, x.linked⟩

/-- `_parent_node` -/
def parentNode : Option Position :=
  match h : x.ancestors with
  | [] => none
  | p :: up => some ⟨p, up, x.linked_parent h⟩

def child (c : CliObject) (hc : c ∈ x.object.children) : Position :=
  ⟨c, x.object :: x.ancestors, x.linked_child hc⟩

theorem linked_root (c : CliObject) : [c].IsChain fun c p => c ∈ p.children := .singleton c

/-- An object without a parent. -/
def root (c : CliObject) : Position := ⟨c, [], linked_root c⟩

/-- The names from the root down to the object. -/
def names : List String := (x.object :: x.ancestors).reverse.map NamedTree.name

def rootObject : CliObject := x.ancestors.getLastD x.object

/-- The names lead from the root to the object. -/
theorem leads_names : Leads x.rootObject x.names.tail x.object := by
  obtain ⟨object, ancestors, linked⟩ := x
  simp only [rootObject, names]
  induction ancestors generalizing object with
  | nil => exact .here object
  | cons p up ih =>
    obtain ⟨hc, hup⟩ := List.isChain_cons_cons.mp linked
    have hparent := ih p hup
    have hnames : ((object :: p :: up).reverse.map NamedTree.name).tail =
        ((p :: up).reverse.map NamedTree.name).tail ++ [object.name] := by
      rw [List.reverse_cons, List.map_append, List.tail_append_of_ne_nil (by simp)]
      rfl
    have hroot : (p :: up).getLastD object = up.getLastD p := List.getLastD_cons
    rw [hnames, hroot, leads_append_iff]
    exact ⟨p, hparent, leads_cons_iff.mpr ⟨object, hc, rfl, .here object⟩⟩

/-- The parent of the parent, and so on, as far as there is one. -/
def up : ℕ → Position → Option Position
  | 0, x => some x
  | n + 1, x => x.parentNode.bind (up n)

theorem up_succ (n : ℕ) : up (n + 1) x = (up n x).bind parentNode := by
  induction n generalizing x with
  | zero => simp [up]
  | succ n ih =>
    rw [up, up, Option.bind_assoc]
    exact Option.bind_congr fun y _ => ih y

theorem ancestors_parentNode {y : Position} (h : x.parentNode = some y) :
    x.ancestors.length = y.ancestors.length + 1 := by
  unfold parentNode at h
  split at h
  next => cases h
  next p up hup =>
    cases h
    exact congrArg List.length hup

theorem parentNode_eq_none_iff : x.parentNode = none ↔ x.ancestors.length = 0 := by
  unfold parentNode
  split
  next h => simp [h]
  next h => simp [h]

/-- The root is reached after as many steps as there are ancestors. -/
theorem up_eq_none_iff (n : ℕ) : up n x = none ↔ x.ancestors.length < n := by
  induction n generalizing x with
  | zero => simp [up]
  | succ n ih =>
    rw [up]
    cases hparent : x.parentNode with
    | none =>
      have hlength := x.parentNode_eq_none_iff.mp hparent
      simp [hlength]
    | some y =>
      rw [Option.bind_some, ih, x.ancestors_parentNode hparent]
      omega

end Position

/-- What a name of `__main__` may stand for. -/
inductive MainValue where
  | object (x : Position)
  | command (x : Position) (name : String)
  | tdiContext
  | setTdiParentContext
  | userValue (i : ℕ)

def labelCommands : Kind → List String
  | .node => nodeCommands
  | .leaf _ commands => commands

/-- `_get_children`: of two children with one name the later is kept, and a command takes the
place of a child. -/
def getChildren (x : Position) : Dict MainValue :=
  (labelCommands x.object.label).foldl (fun d k => d.set k (.command x k))
    (x.object.children.attach.foldl (fun d c => d.set c.1.name (.object (x.child c.1 c.2))) .empty)

/-- `_tdi_context` -/
structure TdiContext where
  curContext : List String
  parent : Option Position
  curNode : Option Position

def setupContext : TdiContext := ⟨[], none, none⟩

/-- The attributes of `__main__`, the context and the prompt. -/
structure Shell where
  main : Dict MainValue
  context : TdiContext
  prompt : String

inductive Raised where
  | attributeError (name : String)

/-- What is left, and what was raised, if anything was. -/
abbrev Outcome := Shell × Option Raised

namespace Shell

variable (s : Shell)

/-- The loop over `cur_context` with which each function begins. -/
def unload (andThen : Dict MainValue → Outcome) : Outcome :=
  match s.main.delAll s.context.curContext with
  | (main, none) => andThen main
  | (main, some name) => ({ s with main }, some (.attributeError name))

/-- `TDIContext.__call__` -/
def call (x : Position) : Outcome :=
  s.unload fun main =>
    ({ main := main.assignAll (getChildren x)
       context := ⟨(getChildren x).keys, x.parentNode, some x⟩
       prompt := ".".intercalate x.names }, none)

/-- `set_tdi_parent_context` -/
def setTdiParentContext : Outcome :=
  match s.context.parent with
  | none =>
    s.unload fun main =>
      ({ main, context := ⟨[], none, none⟩, prompt := "tdi_python" }, none)
  | some x => s.call x

end Shell

/-- A call of an object, or the line `..`. -/
inductive Switch where
  | call (x : Position)
  | parent

def perform (s : Shell) : Switch → Outcome
  | .call x => s.call x
  | .parent => s.setTdiParentContext

/-- The shell after a list of switches, whatever they raised. -/
def after (s : Shell) (switches : List Switch) : Shell :=
  run (fun s switch => (perform s switch).1) s switches

/-- What `setup_context` leaves, also where it is called again for a new tree. -/
def fresh (main : Dict MainValue) (prompt : String) : Shell := ⟨main, setupContext, prompt⟩

/-- The names that an object has put in `__main__`. -/
def scopeOf (s : Shell) : Dict MainValue := s.context.curNode.elim .empty getChildren

section Loaded

/-- The layers that a switch leaves. -/
def layersStep (s : Shell) (l : Layers MainValue) (switch : Switch) : Layers MainValue :=
  l.enter (scopeOf (perform s switch).1)

/-- The context belongs to the current object, and `__main__` shows its layers. -/
structure Loaded (s : Shell) (l : Layers MainValue) : Prop where
  shows : Shows s.main l
  scope : l.scope = scopeOf s
  curContext : s.context.curContext = (scopeOf s).keys
  parent : s.context.parent = s.context.curNode.bind Position.parentNode
  prompt : ∀ x, s.context.curNode = some x → s.prompt = ".".intercalate x.names

variable {s : Shell} {l : Layers MainValue}

theorem loaded_fresh (main : Dict MainValue) (prompt : String) :
    Loaded (fresh main prompt) (.ground main.get?) := by
  refine ⟨Shows.ground main, rfl, rfl, rfl, ?_⟩
  intro x hx
  cases hx

theorem Loaded.unload_eq (h : Loaded s l) (andThen : Dict MainValue → Outcome) :
    s.unload andThen = andThen (s.main.delAll l.scope.keys).1 := by
  have hkeys : s.context.curContext = l.scope.keys := by rw [h.scope, h.curContext]
  have hok := h.shows.delAll_ok
  rw [Shell.unload, hkeys]
  split
  next main hdel => rw [hdel]
  next main name hdel =>
    rw [hdel] at hok
    cases hok

theorem Loaded.call_eq (h : Loaded s l) (x : Position) :
    s.call x = ({ main := (s.main.delAll l.scope.keys).1.assignAll (getChildren x)
                  context := ⟨(getChildren x).keys, x.parentNode, some x⟩
                  prompt := ".".intercalate x.names }, none) :=
  h.unload_eq _

theorem Loaded.call (h : Loaded s l) (x : Position) :
    (s.call x).2 = none ∧ (s.call x).1.context.curNode = some x ∧
      Loaded (s.call x).1 (l.enter (getChildren x)) := by
  rw [h.call_eq]
  refine ⟨rfl, rfl, h.shows.enter (getChildren x), rfl, rfl, rfl, ?_⟩
  intro y hy
  cases hy
  rfl

/-- At the root everything is unloaded, and elsewhere the parent is called. -/
theorem Loaded.parent_cases (h : Loaded s l) :
    (s.context.curNode.bind Position.parentNode = none ∧
      s.setTdiParentContext.2 = none ∧
      s.setTdiParentContext.1.context = setupContext ∧
      s.setTdiParentContext.1.prompt = "tdi_python" ∧
      Loaded s.setTdiParentContext.1 (l.enter .empty)) ∨
    ∃ x, s.context.curNode.bind Position.parentNode = some x ∧
      s.setTdiParentContext = s.call x := by
  rw [← h.parent]
  cases hparent : s.context.parent with
  | none =>
    have heq : s.setTdiParentContext =
        ({ main := (s.main.delAll l.scope.keys).1, context := ⟨[], none, none⟩,
           prompt := "tdi_python" }, none) := by
      rw [Shell.setTdiParentContext, hparent]
      exact h.unload_eq _
    rw [heq]
    refine .inl ⟨rfl, rfl, rfl, rfl, h.shows.leave, rfl, rfl, rfl, ?_⟩
    intro x hx
    cases hx
  | some x =>
    refine .inr ⟨x, rfl, ?_⟩
    rw [Shell.setTdiParentContext, hparent]

theorem Loaded.perform (h : Loaded s l) (switch : Switch) :
    (perform s switch).2 = none ∧ Loaded (perform s switch).1 (layersStep s l switch) := by
  have hcall : ∀ x, (s.call x).2 = none ∧
      Loaded (s.call x).1 (l.enter (scopeOf (s.call x).1)) := by
    intro x
    obtain ⟨hok, hnode, hloaded⟩ := h.call x
    rw [scopeOf, hnode]
    exact ⟨hok, hloaded⟩
  cases switch with
  | call x => exact hcall x
  | parent =>
    rcases h.parent_cases with ⟨-, hok, hcontext, -, hloaded⟩ | ⟨x, -, heq⟩
    · refine ⟨hok, ?_⟩
      have hscope : scopeOf s.setTdiParentContext.1 = .empty := by
        rw [scopeOf, hcontext]
        rfl
      rw [← hscope] at hloaded
      exact hloaded
    · have hx := hcall x
      rw [← heq] at hx
      exact hx

end Loaded

section Runs

variable (s : Shell)

/-- A name that an object has put in `__main__` at some time of the run. -/
def Entered (switches : List Switch) (k : String) : Prop :=
  ∃ pre, pre <+: switches ∧ k ∈ (scopeOf (after s pre)).keys

theorem after_concat (switches : List Switch) (switch : Switch) :
    after s (switches ++ [switch]) = (perform (after s switches) switch).1 :=
  run_concat s switches switch

theorem entered_concat_iff (switches : List Switch) (switch : Switch) (k : String) :
    Entered s (switches ++ [switch]) k ↔
      Entered s switches k ∨ k ∈ (scopeOf (after s (switches ++ [switch]))).keys := by
  constructor
  · rintro ⟨pre, hpre, hk⟩
    rcases List.prefix_concat_iff.mp hpre with rfl | hpre
    · exact .inr hk
    · exact .inl ⟨pre, hpre, hk⟩
  · rintro (⟨pre, hpre, hk⟩ | hk)
    · exact ⟨pre, hpre.trans (List.prefix_append _ _), hk⟩
    · exact ⟨_, List.prefix_rfl, hk⟩

/-- What is below the context: nothing under a name that was put there, and what was there at
the start otherwise. -/
structure Uncovered (main : Dict MainValue) (entered : String → Prop) (l : Layers MainValue) :
    Prop where
  lost : ∀ k, entered k → l.below k = none
  kept : ∀ k, ¬entered k → l.below k = main.get? k

theorem Uncovered.step {main : Dict MainValue} {entered entered' : String → Prop}
    {l : Layers MainValue} (h : Uncovered main entered l) (scope : Dict MainValue)
    (hentered : ∀ k, entered' k ↔ entered k ∨ k ∈ scope.keys) :
    Uncovered main entered' (l.enter scope) := by
  constructor
  · intro k hk
    rw [Layers.below_enter]
    split_ifs with hscope
    · rfl
    · exact h.lost k (((hentered k).mp hk).resolve_right hscope)
  · intro k hk
    rw [hentered k, not_or] at hk
    rw [Layers.below_enter, if_neg hk.2]
    exact h.kept k hk.1

variable (main : Dict MainValue) (prompt : String)

/-- No switch of a run raises, and the context belongs to the current object after it. -/
theorem loaded_after (switches : List Switch) :
    (∀ pre switch, pre ++ [switch] <+: switches →
      (perform (after (fresh main prompt) pre) switch).2 = none) ∧
    ∃ l, Loaded (after (fresh main prompt) switches) l ∧
      Uncovered main (Entered (fresh main prompt) switches) l := by
  induction switches using List.reverseRecOn with
  | nil =>
    refine ⟨?_, .ground main.get?, loaded_fresh main prompt, ?_, fun _ _ => rfl⟩
    · intro pre switch h
      have hlength := h.length_le
      simp at hlength
    · rintro k ⟨pre, hpre, hk⟩
      rw [List.prefix_nil.mp hpre] at hk
      cases hk
  | append_singleton switches switch ih =>
    obtain ⟨hok, l, hloaded, huncovered⟩ := ih
    obtain ⟨hstep, hnext⟩ := hloaded.perform switch
    refine ⟨?_, _, by rwa [after_concat], huncovered.step _ fun k => ?_⟩
    · intro pre switch' h
      rcases List.prefix_concat_iff.mp h with heq | h
      · obtain ⟨rfl, hlast⟩ := List.append_inj' heq rfl
        cases hlast
        exact hstep
      · exact hok pre switch' h
    · rw [entered_concat_iff, after_concat]

theorem after_append (switches more : List Switch) :
    after s (switches ++ more) = after (after s switches) more := by
  rw [after, after, after, run, run, run, List.foldl_append]

/-- The shell shows an object and its prompt, or nothing and the prompt of the root. -/
structure At (t : Shell) (node : Option Position) : Prop where
  curNode : t.context.curNode = node
  prompt : t.prompt = node.elim "tdi_python" fun x => ".".intercalate x.names

theorem Loaded.climb {t : Shell} {l : Layers MainValue} (h : Loaded t l) {x : Position}
    (hx : t.context.curNode = some x) (n : ℕ) :
    At (after t (List.replicate n .parent)) (Position.up n x) ∧
      ∃ l', Loaded (after t (List.replicate n .parent)) l' := by
  induction n with
  | zero => exact ⟨⟨hx, h.prompt x hx⟩, l, h⟩
  | succ n ih =>
    obtain ⟨hat, l', hloaded⟩ := ih
    rw [List.replicate_succ', after_concat, Position.up_succ, ← hat.curNode]
    refine ⟨?_, _, (hloaded.perform .parent).2⟩
    rcases hloaded.parent_cases with ⟨hnone, -, hcontext, hprompt, -⟩ | ⟨y, hy, heq⟩
    · rw [hnone]
      constructor
      · exact congrArg TdiContext.curNode hcontext
      · exact hprompt
    · have hcall := hloaded.call y
      rw [← heq] at hcall
      rw [hy]
      exact ⟨hcall.2.1, hcall.2.2.prompt y hcall.2.1⟩

def pipeNode : CliObject := mk "pipe" .node []

def tdiNodes : CliObject := mk "tdi" .node [pipeNode]

theorem pipeNode_mem : pipeNode ∈ (Position.root tdiNodes).object.children :=
  List.mem_singleton_self pipeNode

/-- A node below the root. -/
def pipePosition : Position := (Position.root tdiNodes).child pipeNode pipeNode_mem

end Runs

section Sessions

/-- What `load_ipython_extension` puts in `__main__`. -/
def extensionNames : List String := ["_tdi_context", "set_tdi_parent_context", "tdi"]

def loadIpythonExtension (main : Dict MainValue) (tdi : Position) : Dict MainValue :=
  ((main.set "_tdi_context" .tdiContext).set "set_tdi_parent_context" .setTdiParentContext).set
    "tdi" (.object tdi)

/-- `tdi_exit_handler`. The context is left as it is. -/
def tdiExitHandler (s : Shell) : Outcome :=
  s.unload fun main =>
    match main.delAll extensionNames with
    | (main, none) => ({ s with main }, none)
    | (main, some name) => ({ s with main }, some (.attributeError name))

theorem get?_loadIpythonExtension (main : Dict MainValue) (tdi : Position) {k : String}
    (hk : k ∉ extensionNames) : (loadIpythonExtension main tdi).get? k = main.get? k := by
  simp only [extensionNames, List.mem_cons, List.not_mem_nil, or_false, not_or] at hk
  simp [loadIpythonExtension, Dict.get?_set, hk]

theorem mem_keys_loadIpythonExtension (main : Dict MainValue) (tdi : Position) {k : String}
    (hk : k ∈ extensionNames) : k ∈ (loadIpythonExtension main tdi).keys := by
  simp only [extensionNames, List.mem_cons, List.not_mem_nil, or_false] at hk
  simp only [loadIpythonExtension, Dict.mem_keys_set]
  tauto

variable (main : Dict MainValue) (tdi : Position) (prompt : String)

/-- The shell of a session after the line at which the user leaves it. -/
def session (switches : List Switch) : Shell :=
  after (fresh (loadIpythonExtension main tdi) prompt) switches

/-- The names that the session has put in `__main__`. -/
def EnteredIn (switches : List Switch) : String → Prop :=
  Entered (fresh (loadIpythonExtension main tdi) prompt) switches

end Sessions
section UserEdits

/-- The user also binds names of `__main__` and deletes them. -/
inductive Step where
  | switch (switch : Switch)
  | assign (name : String) (value : MainValue)
  | delete (name : String)

def take (s : Shell) : Step → Shell
  | .switch switch => (perform s switch).1
  | .assign name value => { s with main := s.main.set name value }
  | .delete name => { s with main := s.main.erase name }

def edited (s : Shell) (steps : List Step) : Shell := run take s steps

/-- All names of the context are in `__main__`. -/
def Intact (s : Shell) : Prop := ∀ k ∈ s.context.curContext, k ∈ s.main.keys

/-- A switch begins with the deletion of the names of the context. -/
theorem perform_cases (s : Shell) (switch : Switch) :
    ∃ andThen, perform s switch = s.unload andThen ∧
      ∀ d, (andThen d).2 = none ∧ (andThen d).1.context.curContext.Nodup := by
  have hcall : ∀ x, ∃ andThen, s.call x = s.unload andThen ∧
      ∀ d, (andThen d).2 = none ∧ (andThen d).1.context.curContext.Nodup :=
    fun x => ⟨_, rfl, fun _ => ⟨rfl, (getChildren x).nodup⟩⟩
  cases switch with
  | call x => exact hcall x
  | parent =>
    rw [perform, Shell.setTdiParentContext]
    split
    next => exact ⟨_, rfl, fun _ => ⟨rfl, List.nodup_nil⟩⟩
    next x _ => exact hcall x

/-- A switch that raises leaves the context and the prompt, and brings no name back. -/
theorem perform_of_missing {s : Shell} {k : String} (hk : k ∈ s.context.curContext)
    (hmissing : k ∉ s.main.keys) (hnodup : s.context.curContext.Nodup) (switch : Switch) :
    (perform s switch).2 ≠ none ∧ (perform s switch).1.context = s.context ∧
      (perform s switch).1.prompt = s.prompt ∧ k ∉ (perform s switch).1.main.keys := by
  obtain ⟨andThen, heq, -⟩ := perform_cases s switch
  have hdel : (s.main.delAll s.context.curContext).2 ≠ none := by
    rw [ne_eq, Dict.delAll_snd_eq_none_iff hnodup]
    exact fun h => hmissing (h k hk)
  have hgone := Dict.not_mem_keys_delAll s.context.curContext hmissing
  rw [heq, Shell.unload]
  split
  next d hd => exact absurd (congrArg Prod.snd hd) hdel
  next d name hd =>
    rw [hd] at hgone
    exact ⟨nofun, rfl, rfl, hgone⟩

theorem perform_ok_iff {s : Shell} (hnodup : s.context.curContext.Nodup) (switch : Switch) :
    (perform s switch).2 = none ↔ Intact s := by
  obtain ⟨andThen, heq, hthen⟩ := perform_cases s switch
  rw [heq, Intact, ← Dict.delAll_snd_eq_none_iff hnodup, Shell.unload]
  split
  next d hd =>
    rw [hd]
    exact iff_of_true (hthen d).1 rfl
  next d name hd =>
    rw [hd]
    exact iff_of_false nofun nofun

theorem nodup_take {s : Shell} (h : s.context.curContext.Nodup) (step : Step) :
    (take s step).context.curContext.Nodup := by
  cases step with
  | switch switch =>
    obtain ⟨andThen, heq, hthen⟩ := perform_cases s switch
    rw [take, heq, Shell.unload]
    split
    next d _ => exact (hthen d).2
    next => exact h
  | assign name value => exact h
  | delete name => exact h

/-- The context and the prompt are stuck: every switch raises. -/
structure Stuck (s : Shell) (steps : List Step) : Prop where
  raises : ∀ pre switch, pre ++ [.switch switch] <+: steps →
    (perform (edited s pre) switch).2 ≠ none
  context : (edited s steps).context = s.context
  prompt : (edited s steps).prompt = s.prompt

theorem stuck_of_missing {s : Shell} {k : String} (hk : k ∈ s.context.curContext)
    (hmissing : k ∉ s.main.keys) (hnodup : s.context.curContext.Nodup) (steps : List Step)
    (hsteps : ∀ value, .assign k value ∉ steps) :
    Stuck s steps ∧ k ∉ (edited s steps).main.keys := by
  induction steps using List.reverseRecOn with
  | nil =>
    refine ⟨⟨?_, rfl, rfl⟩, hmissing⟩
    intro pre switch h
    have hlength := h.length_le
    simp at hlength
  | append_singleton steps step ih =>
    obtain ⟨hstuck, hgone⟩ := ih fun value hmem => hsteps value (List.mem_append_left _ hmem)
    have hraise := perform_of_missing (s := edited s steps) (by rwa [hstuck.context]) hgone
      (by rwa [hstuck.context])
    have hconcat : edited s (steps ++ [step]) = take (edited s steps) step :=
      run_concat s steps step
    have hraises : ∀ pre switch, pre ++ [.switch switch] <+: steps ++ [step] →
        (perform (edited s pre) switch).2 ≠ none := by
      intro pre switch h
      rcases List.prefix_concat_iff.mp h with heq | h
      · obtain ⟨rfl, -⟩ := List.append_inj' heq rfl
        exact (hraise switch).1
      · exact hstuck.raises pre switch h
    cases step with
    | switch switch =>
      obtain ⟨-, hcontext, hprompt, hkeys⟩ := hraise switch
      refine ⟨⟨hraises, ?_, ?_⟩, ?_⟩
      · rw [hconcat, take, hcontext, hstuck.context]
      · rw [hconcat, take, hprompt, hstuck.prompt]
      · rwa [hconcat, take]
    | assign name value =>
      refine ⟨⟨hraises, by rw [hconcat]; exact hstuck.context,
        by rw [hconcat]; exact hstuck.prompt⟩, ?_⟩
      have hne : k ≠ name := by
        rintro rfl
        exact hsteps value (by simp)
      rw [hconcat, take, Dict.mem_keys_set, not_or]
      exact ⟨hne, hgone⟩
    | delete name =>
      refine ⟨⟨hraises, by rw [hconcat]; exact hstuck.context,
        by rw [hconcat]; exact hstuck.prompt⟩, ?_⟩
      rw [hconcat, take, Dict.mem_keys_erase, not_and_or]
      exact .inl hgone

end UserEdits
end Tdi.Cli.Context

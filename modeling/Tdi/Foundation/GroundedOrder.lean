import Mathlib

/-!
# Orders in which everything comes after what it depends on

Such an order has no cycle. When things are opened in it and closed in reverse, what an
open one depends on is open at each moment, also when both break off somewhere.
-/
namespace Tdi.Foundation

open Relation

variable {α : Type*}

section Order

/-- After those that come before, each is new and all that it depends on has come. -/
def Grounded (Dep : α → α → Prop) : List α → List α → Prop
  | _, [] => True
  | before, x :: l => x ∉ before ∧ (∀ y, Dep x y → y ∈ before) ∧ Grounded Dep (before ++ [x]) l

variable {Dep : α → α → Prop} {before l l' : List α} {x y : α}

theorem grounded_append_iff :
    Grounded Dep before (l ++ l') ↔ Grounded Dep before l ∧ Grounded Dep (before ++ l) l' := by
  induction l generalizing before with
  | nil => simp [Grounded]
  | cons x l ih => simp [Grounded, ih, and_assoc]

theorem Grounded.of_prefix (h : Grounded Dep before l) (hl : l' <+: l) :
    Grounded Dep before l' := by
  obtain ⟨r, rfl⟩ := hl
  exact (grounded_append_iff.mp h).1

theorem Grounded.nodup (h : Grounded Dep before l) : l.Nodup ∧ ∀ x ∈ l, x ∉ before := by
  induction l generalizing before with
  | nil => simp
  | cons x l ih =>
    obtain ⟨hnew, -, hrest⟩ := h
    obtain ⟨hnodup, hapart⟩ := ih hrest
    constructor
    · exact List.nodup_cons.mpr ⟨fun hx => hapart x hx (by simp), hnodup⟩
    · intro y hy hbefore
      rcases List.mem_cons.mp hy with rfl | hy
      · exact hnew hbefore
      · exact hapart y hy (List.mem_append_left _ hbefore)

/-- What one of the order depends on comes before it. -/
theorem Grounded.mem_of_dep (h : Grounded Dep [] l) (hx : x ∈ l) (hy : Dep x y) : y ∈ l := by
  obtain ⟨pre, post, rfl⟩ := List.append_of_mem hx
  obtain ⟨-, -, hdeps, -⟩ := grounded_append_iff.mp h
  exact List.mem_append_left _ (hdeps y hy)

theorem Grounded.mem_of_transGen (h : Grounded Dep [] l) (hx : x ∈ l) (hy : TransGen Dep x y) :
    y ∈ l := by
  induction hy with
  | single hdep => exact h.mem_of_dep hx hdep
  | tail _ hdep ih => exact h.mem_of_dep ih hdep

theorem Grounded.acyclic (h : Grounded Dep [] l) (hx : x ∈ l) : ¬ TransGen Dep x x := by
  intro hcycle
  obtain ⟨pre, post, rfl⟩ := List.append_of_mem hx
  obtain ⟨hpre, hnew, hdeps, -⟩ := grounded_append_iff.mp h
  -- the first step of the cycle leads into the part before, which nothing leads out of
  obtain ⟨y, hy, hback⟩ := TransGen.head'_iff.mp hcycle
  have hbefore : x ∈ pre := by
    rcases reflTransGen_iff_eq_or_transGen.mp hback with rfl | hback
    · exact hdeps x hy
    · exact hpre.mem_of_transGen (hdeps y hy) hback
  exact hnew hbefore

end Order

section Spans

inductive SpanEvent (α : Type*) where
  | opened (x : α)
  | closed (x : α)
  deriving DecidableEq

open SpanEvent

variable [DecidableEq α]

def openStep (now : List α) : SpanEvent α → List α
  | opened x => x :: now
  | closed x => now.erase x

/-- Those that are open in the end, the last one first. -/
def openAfter (events : List (SpanEvent α)) : List α := events.foldl openStep []

/-- At each moment all that an open one depends on is open. -/
def Supported (Dep : α → α → Prop) (events : List (SpanEvent α)) : Prop :=
  ∀ pre, pre <+: events → ∀ x ∈ openAfter pre, ∀ y, Dep x y → y ∈ openAfter pre

variable {Dep : α → α → Prop} {l m k : List α}

theorem openAfter_opened (l : List α) : openAfter (l.map opened) = l.reverse := by
  induction l using List.reverseRecOn with
  | nil => rfl
  | append_singleton l x ih =>
    rw [openAfter] at ih ⊢
    rw [List.map_append, List.foldl_append, ih]
    simp [openStep]

theorem foldl_closed (m k : List α) : (m.map closed).foldl openStep (m ++ k) = k := by
  induction m with
  | nil => rfl
  | cons x m ih => simpa [openStep] using ih

/-- Those that are not closed yet are the first that were opened. -/
theorem openAfter_closed (h : l.reverse = m ++ k) :
    openAfter (l.map opened ++ m.map closed) = k := by
  have hopen := openAfter_opened l
  rw [openAfter] at hopen ⊢
  rw [List.foldl_append, hopen, h, foldl_closed]

/-- What is opened in an order in which everything comes after what it depends on may be closed
in reverse. -/
theorem Grounded.supported (h : Grounded Dep [] l) (hm : m <+: l.reverse) :
    Supported Dep (l.map opened ++ m.map closed) := by
  -- at each moment those that are open are a first part of the order, in reverse
  have hpart : ∀ pre, pre <+: l.map opened ++ m.map closed →
      ∃ l', l' <+: l ∧ openAfter pre = l'.reverse := by
    rintro pre ⟨rest, hrest⟩
    rcases List.append_eq_append_iff.mp hrest with ⟨c, hc, -⟩ | ⟨c, rfl, hc⟩
    · obtain ⟨l', r, rfl, rfl, -⟩ := List.map_eq_append_iff.mp hc
      exact ⟨l', List.prefix_append l' r, openAfter_opened l'⟩
    · obtain ⟨m', r, rfl, rfl, -⟩ := List.map_eq_append_iff.mp hc
      obtain ⟨s, hs⟩ := hm
      rw [List.append_assoc] at hs
      refine ⟨(r ++ s).reverse, ⟨m'.reverse, ?_⟩, ?_⟩
      · rw [← List.reverse_append, hs, List.reverse_reverse]
      · rw [openAfter_closed hs.symm, List.reverse_reverse]
  intro pre hpre x hx y hy
  obtain ⟨l', hl', hopen⟩ := hpart pre hpre
  rw [hopen, List.mem_reverse] at hx ⊢
  exact (h.of_prefix hl').mem_of_dep hx hy

end Spans

section Chains

variable {Dep : α → α → Prop} {l : List α}

/-- Without a cycle a chain of dependencies meets nothing twice. -/
theorem nodup_of_isChain (hacyclic : ∀ x ∈ l, ¬ TransGen Dep x x) (h : l.IsChain Dep) :
    l.Nodup := by
  have hchain : l.IsChain (TransGen Dep) := h.imp fun _ _ hdep => .single hdep
  refine (List.isChain_iff_pairwise.mp hchain).imp_of_mem fun {x y} hx _ hxy => ?_
  rintro rfl
  exact hacyclic x hx hxy

theorem length_le_of_isChain (hacyclic : ∀ x ∈ l, ¬ TransGen Dep x x) (h : l.IsChain Dep)
    {all : List α} (hall : ∀ x ∈ l, x ∈ all) : l.length ≤ all.length :=
  (List.subperm_of_subset (nodup_of_isChain hacyclic h) hall).length_le

end Chains
end Tdi.Foundation

import Tdi.Foundation.HandleBalance
import Tdi.Foundation.Traced

/-!
# When a computation leaves no handle behind

A trace is clean when it is balanced and nothing is released that was not obtained. A
computation that starts with some handles in hand settles a condition if everything is
clean at its end exactly under this condition. The rules follow the computation: what is
obtained is in hand for the rest, a part that may raise loses what is in hand, and a
release has to be one of all that is in hand.

Scripts of computations, each with handles of its own, are clean exactly if each of them
is.
-/
namespace Tdi.Foundation

open HandleEvent

variable {H : Type*} [DecidableEq H]

structure Clean (trace : List (HandleEvent H)) : Prop extends Balanced trace where
  own : ∀ h, released h ∈ trace → obtained h ∈ trace

theorem Holding.clean_append_released_iff {hs rs : List H} {work : List (HandleEvent H)}
    (hwork : Holding hs work) (hnodup : rs.Nodup) :
    Clean (work ++ rs.map released) ↔ ∀ h, h ∈ hs ↔ h ∈ rs := by
  have hreleased : ∀ h, released h ∈ work ++ rs.map released ↔ h ∈ rs := fun h => by
    simp [hwork.released_not_mem h]
  have hobtained : ∀ h, obtained h ∈ work ++ rs.map released ↔ h ∈ hs := fun h => by
    simp [hwork.obtained_iff]
  constructor
  · intro hclean h
    constructor
    · exact (hwork.balanced_append_released_iff hnodup).mp hclean.toBalanced h
    · exact fun hr => (hobtained h).mp (hclean.own h ((hreleased h).mpr hr))
  · intro hsame
    refine ⟨(hwork.balanced_append_released_iff hnodup).mpr fun h => (hsame h).mp, fun h hr => ?_⟩
    rw [hreleased] at hr
    exact (hobtained h).mpr ((hsame h).mpr hr)

theorem Holding.clean_iff {hs : List H} {work : List (HandleEvent H)} (hwork : Holding hs work) :
    Clean work ↔ hs = [] := by
  have hiff : Clean (work ++ [].map released) ↔ ∀ h, h ∈ hs ↔ h ∈ [] :=
    hwork.clean_append_released_iff List.nodup_nil
  rw [List.map_nil, List.append_nil] at hiff
  rw [hiff, List.eq_nil_iff_forall_not_mem]
  simp

section Rules

variable {ε : Type*} {α β : Type} {p q : Prop} {held : List H}
  {x : Traced ε (HandleEvent H) α} {f : α → Traced ε (HandleEvent H) β}
  {g : Unit → Traced ε (HandleEvent H) β}

/-- With these handles in hand, everything is clean at the end exactly if the condition holds. -/
def Settles (p : Prop) (held : List H) (x : Traced ε (HandleEvent H) α) : Prop :=
  ∀ work, Holding held work → (Clean (work ++ x.events) ↔ p)

/-- A part that uses handles and neither obtains nor releases one. -/
def Uses (x : Traced ε (HandleEvent H) α) : Prop := ∀ e ∈ x.events, ∃ h, e = passed h

def Returns (x : Traced ε (HandleEvent H) α) : Prop := ∃ a, x.result = .ok a

namespace Settles

theorem clean_iff (h : Settles p [] x) : Clean x.events ↔ p := h [] .nil

theorem of_iff (h : Settles p held x) (hpq : p ↔ q) : Settles q held x :=
  fun work hwork => (h work hwork).trans hpq

theorem quiet (hx : x.events = []) : Settles (held = []) held x := by
  intro work hwork
  rw [hx, List.append_nil, hwork.clean_iff]

theorem ite {c : Prop} [Decidable c] {y : Traced ε (HandleEvent H) α} (hx : c → Settles p held x)
    (hy : ¬c → Settles q held y) :
    Settles ((c → p) ∧ (¬c → q)) held (if c then x else y) := by
  split_ifs with h
  · exact (hx h).of_iff (by simp [h])
  · exact (hy h).of_iff (by simp [h])

theorem obtain_bind (h : H) (hg : Settles p (held ++ [h]) (g ())) :
    Settles p held (Traced.emit [obtained h] >>= g) := by
  intro work hwork
  rw [Traced.emit_bind, ← List.append_assoc]
  exact hg _ (hwork.append (.obtain h))

/-- All that is in hand has to be released. -/
theorem release_bind (rs : List H) (hnodup : rs.Nodup) (hquiet : (g ()).events = []) :
    Settles (∀ h, h ∈ held ↔ h ∈ rs) held (Traced.emit (rs.map released) >>= g) := by
  intro work hwork
  rw [Traced.emit_bind, hquiet, List.append_nil]
  exact hwork.clean_append_released_iff hnodup

theorem uses_bind (hx : Uses x) (hf : ∀ a, x.result = .ok a → Settles p held (f a)) :
    Settles ((Returns x → p) ∧ (¬ Returns x → held = [])) held (x >>= f) := by
  intro work hwork
  have hafter := hwork.append_passed hx
  cases hresult : x.result with
  | ok a =>
    have hreturns : Returns x := ⟨a, hresult⟩
    rw [Traced.bind_of_ok hresult, ← List.append_assoc, hf a hresult _ hafter]
    simp [hreturns]
  | error e =>
    have hraises : ¬ Returns x := by
      rintro ⟨a, ha⟩
      rw [ha] at hresult
      cases hresult
    rw [Traced.bind_of_error hresult, hafter.clean_iff]
    simp [hraises]

theorem congr_events {y : Traced ε (HandleEvent H) β} (h : Settles p held x)
    (hevents : y.events = x.events) : Settles p held y := by
  intro work hwork
  rw [hevents]
  exact h work hwork

/-- A computation that uses some handles and then releases some. -/
theorem of_events (hs rs : List H) (hnodup : rs.Nodup)
    (hx : x.events = hs.map passed ++ rs.map released) :
    Settles (∀ h, h ∈ held ↔ h ∈ rs) held x := by
  intro work hwork
  have hpassed : ∀ e ∈ hs.map passed, ∃ h, e = passed h := by simp
  rw [hx, ← List.append_assoc]
  exact (hwork.append_passed hpassed).clean_append_released_iff hnodup

theorem pass_bind (hs : List H) (hg : Settles p held (g ())) :
    Settles p held (Traced.emit (hs.map passed) >>= g) := by
  have hx : Uses (Traced.emit (hs.map passed) : Traced ε (HandleEvent H) Unit) := by
    intro e he
    obtain ⟨h, -, rfl⟩ := List.mem_map.mp he
    exact ⟨h, rfl⟩
  have hreturns : Returns (Traced.emit (hs.map passed) : Traced ε (HandleEvent H) Unit) := ⟨(), rfl⟩
  refine (uses_bind hx fun _ _ => hg).of_iff ?_
  simp [hreturns]

end Settles

omit [DecidableEq H] in
theorem Uses.bind (hx : Uses x) (hf : ∀ a, x.result = .ok a → Uses (f a)) : Uses (x >>= f) :=
  Traced.forall_events_bind hx hf

end Rules

namespace HandleEvent

variable {H' : Type*}

def map (f : H → H') : HandleEvent H → HandleEvent H'
  | obtained h => obtained (f h)
  | passed h => passed (f h)
  | released h => released (f h)

def handle : HandleEvent H → H
  | obtained h => h
  | passed h => h
  | released h => h

omit [DecidableEq H] in
theorem map_injective {f : H → H'} (hf : Function.Injective f) : Function.Injective (map f) := by
  intro e e' he
  cases e <;> cases e' <;> simp only [map, reduceCtorEq] at he <;> injection he with he <;>
    rw [hf he]

end HandleEvent

section Scripts

variable {a b : List (HandleEvent H)}

/-- Traces without a common handle. -/
def Apart (a b : List (HandleEvent H)) : Prop := ∀ e ∈ a, ∀ e' ∈ b, e.handle ≠ e'.handle

omit [DecidableEq H] in
theorem Apart.symm (h : Apart a b) : Apart b a := fun e he e' he' hsame => h e' he' e he hsame.symm

omit [DecidableEq H] in
theorem Apart.not_mem (h : Apart a b) {e e' : HandleEvent H} (he : e ∈ a)
    (hsame : e.handle = e'.handle) : e' ∉ b :=
  fun he' => h e he e' he' hsame

omit [DecidableEq H] in
theorem unusedAfterRelease_append_iff (h : Apart a b) :
    UnusedAfterRelease (a ++ b) ↔ UnusedAfterRelease a ∧ UnusedAfterRelease b := by
  rw [UnusedAfterRelease, List.pairwise_append]
  refine ⟨fun hall => ⟨hall.1, hall.2.1⟩, fun hboth => ⟨hboth.1, hboth.2, ?_⟩⟩
  rintro _ he later hlater k rfl
  constructor
  · rintro rfl
    exact h _ he _ hlater rfl
  · rintro rfl
    exact h _ he _ hlater rfl

/-- A part of a clean trace is clean if the other has handles of its own. -/
theorem Clean.left (h : Apart a b) (hclean : Clean (a ++ b)) : Clean a where
  released_once k hk := by
    have hone := hclean.released_once k (List.mem_append_left b hk)
    have hother : released k ∉ b := h.not_mem hk rfl
    rwa [List.count_append, List.count_eq_zero_of_not_mem hother, add_zero] at hone
  unused_after := ((unusedAfterRelease_append_iff h).mp hclean.unused_after).1
  own k hk := (List.mem_append.mp (hclean.own k (List.mem_append_left b hk))).resolve_right
    (h.not_mem hk rfl)

theorem Clean.right (h : Apart a b) (hclean : Clean (a ++ b)) : Clean b where
  released_once k hk := by
    have hone := hclean.released_once k (List.mem_append_right a hk)
    have hother : released k ∉ a := h.symm.not_mem hk rfl
    rwa [List.count_append, List.count_eq_zero_of_not_mem hother, zero_add] at hone
  unused_after := ((unusedAfterRelease_append_iff h).mp hclean.unused_after).2
  own k hk := (List.mem_append.mp (hclean.own k (List.mem_append_right a hk))).resolve_left
    (h.symm.not_mem hk rfl)

theorem clean_append_iff (h : Apart a b) : Clean (a ++ b) ↔ Clean a ∧ Clean b := by
  constructor
  · exact fun hclean => ⟨hclean.left h, hclean.right h⟩
  · rintro ⟨ha, hb⟩
    refine ⟨⟨fun k hk => ?_, (unusedAfterRelease_append_iff h).mpr
      ⟨ha.unused_after, hb.unused_after⟩⟩, fun k hk => ?_⟩
    · rw [List.count_append]
      rcases List.mem_append.mp hk with hk | hk
      · have hother : released k ∉ b := h.not_mem hk rfl
        rw [ha.released_once k hk, List.count_eq_zero_of_not_mem hother]
      · have hother : released k ∉ a := h.symm.not_mem hk rfl
        rw [hb.released_once k hk, List.count_eq_zero_of_not_mem hother]
    · rcases List.mem_append.mp hk with hk | hk
      · exact List.mem_append_left b (ha.own k hk)
      · exact List.mem_append_right a (hb.own k hk)

/-- Other names for the handles change nothing. -/
theorem clean_map_iff {H' : Type*} [DecidableEq H'] {f : H → H'} (hf : Function.Injective f)
    (trace : List (HandleEvent H)) : Clean (trace.map (HandleEvent.map f)) ↔ Clean trace := by
  have hinj := map_injective hf
  have hmem : ∀ e, e.map f ∈ trace.map (HandleEvent.map f) ↔ e ∈ trace :=
    fun e => List.mem_map_of_injective hinj
  have hcount : ∀ e, (trace.map (HandleEvent.map f)).count (e.map f) = trace.count e :=
    fun e => List.count_map_of_injective _ _ hinj e
  have hunused : UnusedAfterRelease (trace.map (HandleEvent.map f)) ↔ UnusedAfterRelease trace := by
    rw [UnusedAfterRelease, List.pairwise_map, UnusedAfterRelease]
    refine ⟨fun hall => hall.imp fun {e later} hpair h he => ?_,
      fun hall => hall.imp fun {e later} hpair k he => ?_⟩
    · have hlater := hpair (f h) (congrArg (HandleEvent.map f) he)
      exact ⟨fun hp => hlater.1 (congrArg (HandleEvent.map f) hp),
        fun hr => hlater.2 (congrArg (HandleEvent.map f) hr)⟩
    · cases e with
      | released h =>
        cases he
        have hlater := hpair h rfl
        constructor
        · intro hp
          have hsame : later = passed h := hinj hp
          exact hlater.1 hsame
        · intro hr
          have hsame : later = released h := hinj hr
          exact hlater.2 hsame
      | obtained => cases he
      | passed => cases he
  constructor
  · intro hclean
    refine ⟨⟨fun h hh => ?_, hunused.mp hclean.unused_after⟩, fun h hh => ?_⟩
    · rw [← hcount]
      exact hclean.released_once (f h) ((hmem (obtained h)).mpr hh)
    · exact (hmem (obtained h)).mp (hclean.own (f h) ((hmem (released h)).mpr hh))
  · intro hclean
    refine ⟨⟨fun k hk => ?_, hunused.mpr hclean.unused_after⟩, fun k hk => ?_⟩
    · obtain ⟨e, he, hek⟩ := List.mem_map.mp hk
      cases e with
      | obtained h =>
        cases hek
        rw [← hclean.released_once h he]
        exact hcount (released h)
      | passed => cases hek
      | released => cases hek
    · obtain ⟨e, he, hek⟩ := List.mem_map.mp hk
      cases e with
      | released h =>
        cases hek
        exact (hmem (obtained h)).mpr (hclean.own h he)
      | obtained => cases hek
      | passed => cases hek

/-- The traces of a script one after the other, each with handles of its own. -/
def numbered : ℕ → List (List (HandleEvent H)) → List (HandleEvent (ℕ × H))
  | _, [] => []
  | i, trace :: traces => trace.map (HandleEvent.map (i, ·)) ++ numbered (i + 1) traces

omit [DecidableEq H] in
theorem le_of_mem_numbered {i : ℕ} {traces : List (List (HandleEvent H))}
    {e : HandleEvent (ℕ × H)} (he : e ∈ numbered i traces) : i ≤ e.handle.1 := by
  induction traces generalizing i with
  | nil => cases he
  | cons trace traces ih =>
    rcases List.mem_append.mp he with he | he
    · obtain ⟨e', -, rfl⟩ := List.mem_map.mp he
      cases e' <;> exact le_rfl
    · exact (Nat.le_succ i).trans (ih he)

theorem clean_numbered_iff (i : ℕ) (traces : List (List (HandleEvent H))) :
    Clean (numbered i traces) ↔ ∀ trace ∈ traces, Clean trace := by
  induction traces generalizing i with
  | nil => simpa [numbered] using Holding.nil.clean_iff
  | cons trace traces ih =>
    have hapart : Apart (trace.map (HandleEvent.map (i, ·))) (numbered (i + 1) traces) := by
      intro e he e' he' hsame
      obtain ⟨e'', -, rfl⟩ := List.mem_map.mp he
      have hi : (e''.map fun h => (i, h)).handle.1 = i := by cases e'' <;> rfl
      have hle := le_of_mem_numbered he'
      rw [← hsame, hi] at hle
      exact Nat.not_succ_le_self i hle
    rw [numbered, clean_append_iff hapart, clean_map_iff (Prod.mk_right_injective i), ih,
      List.forall_mem_cons]

end Scripts
end Tdi.Foundation

import Mathlib

/-!
# Computations that leave a trace

A computation returns or raises, and either way leaves the events that happened
before.
-/
namespace Tdi.Foundation

structure Traced (ε ω : Type*) (α : Type) where
  result : Except ε α
  events : List ω

namespace Traced

variable {ε ω : Type*} {α β : Type}

def raise (e : ε) : Traced ε ω α := ⟨.error e, []⟩

def emit (events : List ω) : Traced ε ω Unit := ⟨.ok (), events⟩

def ofExcept (x : Except ε α) : Traced ε ω α := ⟨x, []⟩

/-- The computation goes on only if the first part returns. -/
def andThen (x : Traced ε ω α) (f : α → Traced ε ω β) : Traced ε ω β :=
  match x.result with
  | .ok a => ⟨(f a).result, x.events ++ (f a).events⟩
  | .error e => ⟨.error e, x.events⟩

instance : Monad (Traced ε ω) where
  pure a := ⟨.ok a, []⟩
  bind := andThen

theorem bind_of_ok {x : Traced ε ω α} {a : α} (h : x.result = .ok a) (f : α → Traced ε ω β) :
    x >>= f = ⟨(f a).result, x.events ++ (f a).events⟩ := by
  change andThen x f = _
  rw [andThen, h]

theorem bind_of_error {x : Traced ε ω α} {e : ε} (h : x.result = .error e)
    (f : α → Traced ε ω β) : x >>= f = ⟨.error e, x.events⟩ := by
  change andThen x f = _
  rw [andThen, h]

@[simp] theorem ok_bind (a : α) (events : List ω) (f : α → Traced ε ω β) :
    (⟨.ok a, events⟩ : Traced ε ω α) >>= f = ⟨(f a).result, events ++ (f a).events⟩ := rfl

@[simp] theorem error_bind (e : ε) (events : List ω) (f : α → Traced ε ω β) :
    (⟨.error e, events⟩ : Traced ε ω α) >>= f = ⟨.error e, events⟩ := rfl

@[simp] theorem pure_bind (a : α) (f : α → Traced ε ω β) : pure a >>= f = f a := rfl

@[simp] theorem ofExcept_ok_bind (a : α) (f : α → Traced ε ω β) :
    ofExcept (.ok a) >>= f = f a := rfl

@[simp] theorem ofExcept_error_bind (e : ε) (f : α → Traced ε ω β) :
    ofExcept (.error e) >>= f = raise e := rfl

@[simp] theorem raise_bind (e : ε) (f : α → Traced ε ω β) : raise e >>= f = raise e := rfl

@[simp] theorem emit_bind (events : List ω) (f : Unit → Traced ε ω β) :
    emit events >>= f = ⟨(f ()).result, events ++ (f ()).events⟩ := rfl

theorem bind_assoc {γ : Type} (x : Traced ε ω α) (f : α → Traced ε ω β) (g : β → Traced ε ω γ) :
    x >>= f >>= g = x >>= fun a => f a >>= g := by
  cases hx : x.result with
  | error e => rw [bind_of_error hx, bind_of_error hx, error_bind]
  | ok a =>
    rw [bind_of_ok hx, bind_of_ok hx]
    cases hf : (f a).result with
    | error e => rw [bind_of_error hf, error_bind]
    | ok b => rw [bind_of_ok hf, ok_bind, List.append_assoc]

/-- What holds of the events of both parts holds of the events of the whole. -/
theorem forall_events_bind {p : ω → Prop} {x : Traced ε ω α} {f : α → Traced ε ω β}
    (hx : ∀ e ∈ x.events, p e) (hf : ∀ a, x.result = .ok a → ∀ e ∈ (f a).events, p e) :
    ∀ e ∈ (x >>= f).events, p e := by
  cases hresult : x.result with
  | ok a =>
    rw [bind_of_ok hresult]
    intro e he
    rcases List.mem_append.mp he with he | he
    · exact hx e he
    · exact hf a hresult e he
  | error _ =>
    rw [bind_of_error hresult]
    exact hx

theorem mem_events_bind {e : ω} {x : Traced ε ω α} (h : e ∈ x.events)
    (f : α → Traced ε ω β) : e ∈ (x >>= f).events := by
  cases hresult : x.result with
  | ok a =>
    rw [bind_of_ok hresult]
    exact List.mem_append_left _ h
  | error _ => rwa [bind_of_error hresult]

/-- A second part without events adds none. -/
theorem events_bind_of_quiet {x : Traced ε ω α} {f : α → Traced ε ω β}
    (h : ∀ a, (f a).events = []) : (x >>= f).events = x.events := by
  cases hresult : x.result with
  | ok a => rw [bind_of_ok hresult, h, List.append_nil]
  | error e => rw [bind_of_error hresult]

/-- A whole that returns has a first part that returned. -/
theorem of_result_bind {x : Traced ε ω α} {f : α → Traced ε ω β} {b : β}
    (h : (x >>= f).result = .ok b) : ∃ a, x.result = .ok a ∧ (f a).result = .ok b := by
  cases hresult : x.result with
  | ok a =>
    rw [bind_of_ok hresult] at h
    exact ⟨a, rfl, h⟩
  | error e =>
    rw [bind_of_error hresult] at h
    cases h

theorem result_bind_eq_ok_iff {x : Traced ε ω α} {f : α → Traced ε ω β} {b : β} :
    (x >>= f).result = .ok b ↔ ∃ a, x.result = .ok a ∧ (f a).result = .ok b := by
  constructor
  · exact of_result_bind
  · intro ⟨a, ha, hb⟩
    rw [bind_of_ok ha, hb]

theorem result_bind_eq_error_iff {x : Traced ε ω α} {f : α → Traced ε ω β} {e : ε} :
    (x >>= f).result = .error e ↔
      x.result = .error e ∨ ∃ a, x.result = .ok a ∧ (f a).result = .error e := by
  cases hresult : x.result with
  | ok a => simp [bind_of_ok hresult]
  | error e' => simp [bind_of_error hresult]

theorem bind_pure (x : Traced ε ω Unit) : (x >>= fun _ => pure ()) = x := by
  cases hx : x.result with
  | error e => rw [bind_of_error hx, ← hx]
  | ok _ =>
    rw [bind_of_ok hx]
    simp [pure, ← hx]

section Each

variable {α : Type*} {f : α → Traced ε ω Unit}

/-- A loop that ends at the first round that raises. -/
def each (f : α → Traced ε ω Unit) : List α → Traced ε ω Unit
  | [] => pure ()
  | a :: l => do
    f a
    each f l

theorem each_singleton (a : α) : each f [a] = f a := bind_pure (f a)

theorem each_append (l l' : List α) :
    each f (l ++ l') = (each f l >>= fun _ => each f l') := by
  induction l with
  | nil => rfl
  | cons a l ih =>
    rw [List.cons_append, each, each, ih]
    cases hf : (f a).result with
    | error e => rw [bind_of_error hf, bind_of_error hf, error_bind]
    | ok _ =>
      rw [bind_of_ok hf, bind_of_ok hf]
      cases hl : (each f l).result with
      | error e => rw [bind_of_error hl, error_bind]
      | ok _ => rw [bind_of_ok hl, ok_bind, List.append_assoc]

/-- Either all rounds return, or one raises and ends the loop. -/
theorem each_cases (f : α → Traced ε ω Unit) (l : List α) :
    ((∀ a ∈ l, (f a).result = .ok ()) ∧ each f l = ⟨.ok (), l.flatMap fun a => (f a).events⟩) ∨
    ∃ before a after e, l = before ++ a :: after ∧ (∀ b ∈ before, (f b).result = .ok ()) ∧
      (f a).result = .error e ∧
      each f l = ⟨.error e, (before.flatMap fun b => (f b).events) ++ (f a).events⟩ := by
  induction l with
  | nil => exact .inl ⟨by simp, rfl⟩
  | cons a l ih =>
    rw [each]
    cases hf : (f a).result with
    | error e => exact .inr ⟨[], a, l, e, rfl, by simp, hf, by rw [bind_of_error hf]; rfl⟩
    | ok _ =>
      rw [bind_of_ok hf]
      rcases ih with ⟨hall, heq⟩ | ⟨before, b, after, e, rfl, hbefore, hb, heq⟩
      · exact .inl ⟨List.forall_mem_cons.mpr ⟨hf, hall⟩, by rw [heq]; rfl⟩
      · refine .inr ⟨a :: before, b, after, e, rfl, List.forall_mem_cons.mpr ⟨hf, hbefore⟩, hb, ?_⟩
        rw [heq, List.flatMap_cons, List.append_assoc]

end Each

section Replay

variable {δ υ : Type*} {f : υ → Traced ε ω Unit} {r : δ → ε}

/-- What another computation leaves is acted upon event by event, and what it raised is raised
at the end. -/
def replay (f : υ → Traced ε ω Unit) (r : δ → ε) (v : Traced δ υ Unit) : Traced ε ω Unit := do
  each f v.events
  match v.result with
  | .ok _ => pure ()
  | .error d => raise (r d)

@[simp] theorem replay_pure : replay f r (pure ()) = pure () := rfl

@[simp] theorem replay_raise (d : δ) : replay f r (raise d) = raise (r d) := rfl

@[simp] theorem replay_emit (a : υ) : replay f r (emit [a]) = f a := by
  change (each f [a] >>= fun _ => pure ()) = f a
  rw [each_singleton, bind_pure]

theorem replay_bind (v : Traced δ υ Unit) (w : Unit → Traced δ υ Unit) :
    replay f r (v >>= w) = (replay f r v >>= fun _ => replay f r (w ())) := by
  cases hv : v.result with
  | error d =>
    rw [bind_of_error hv]
    simp only [replay, hv, bind_assoc, raise_bind]
  | ok _ =>
    rw [bind_of_ok hv]
    simp only [replay, hv, bind_assoc, pure_bind, each_append]

theorem result_each_eq_ok_iff {l : List υ} :
    (each f l).result = .ok () ↔ ∀ a ∈ l, (f a).result = .ok () := by
  rcases each_cases f l with ⟨hall, heq⟩ | ⟨before, a, after, e, rfl, -, ha, heq⟩
  · rw [heq]
    exact iff_of_true rfl hall
  · rw [heq]
    refine iff_of_false nofun fun hall => ?_
    rw [hall a (by simp)] at ha
    cases ha

theorem result_replay_eq_ok_iff {v : Traced δ υ Unit} :
    (replay f r v).result = .ok () ↔ v.result = .ok () ∧ ∀ a ∈ v.events, (f a).result = .ok () := by
  rw [replay, result_bind_eq_ok_iff]
  cases v.result with
  | ok _ =>
    rw [← result_each_eq_ok_iff]
    exact ⟨fun ⟨(), h, _⟩ => ⟨rfl, h⟩, fun ⟨_, h⟩ => ⟨(), h, rfl⟩⟩
  | error d => simp [raise]

theorem events_replay (v : Traced δ υ Unit) :
    (replay f r v).events = (each f v.events).events := by
  refine events_bind_of_quiet fun _ => ?_
  cases v.result <;> rfl

end Replay

end Traced

end Tdi.Foundation

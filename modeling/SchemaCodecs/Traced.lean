/-
# Computations with a trace

A computation that notes events as it goes and ends in a result or a fault.  The events noted before
a fault are kept.
-/
import SchemaCodecs.Fault

namespace SchemaCodecs

/-- The events noted by a computation, and its outcome. -/
structure Traced (ε α : Type) where
  /-- The events in order. -/
  trace : List ε
  /-- The result, or the fault that ended the computation. -/
  outcome : Except Fault α

namespace Traced

variable {ε δ α β : Type}

/-- Two computations one after the other; after a fault the second one does not take place. -/
def bind (x : Traced ε α) (f : α → Traced ε β) : Traced ε β :=
  match x.outcome with
  | .error fault => { trace := x.trace, outcome := .error fault }
  | .ok a => { trace := x.trace ++ (f a).trace, outcome := (f a).outcome }

instance : Monad (Traced ε) where
  pure a := { trace := [], outcome := .ok a }
  bind := bind

/-- A computation that notes nothing. -/
def ofExcept (outcome : Except Fault α) : Traced ε α :=
  { trace := [], outcome }

instance : MonadLift (Except Fault) (Traced ε) where
  monadLift := ofExcept

/-- The computation that ends in the given fault. -/
def fail (fault : Fault) : Traced ε α :=
  { trace := [], outcome := .error fault }

/-- The computation that only notes some events. -/
def note (events : List ε) : Traced ε Unit :=
  { trace := events, outcome := .ok () }

/-- The same computation with its events read in another way. -/
def mapTrace (f : ε → δ) (x : Traced ε α) : Traced δ α :=
  { trace := x.trace.map f, outcome := x.outcome }

/-- Two computations succeed one after the other when both do. -/
theorem outcome_bind_eq_ok_iff (x : Traced ε α) (f : α → Traced ε β) (b : β) :
    (x >>= f).outcome = .ok b ↔ ∃ a, x.outcome = .ok a ∧ (f a).outcome = .ok b := by
  show (bind x f).outcome = .ok b ↔ _
  unfold bind
  cases x.outcome <;> simp

/-- What two computations note is noted by one of them. -/
theorem mem_trace_bind {x : Traced ε α} {f : α → Traced ε β} {event : ε}
    (h : event ∈ (x >>= f).trace) :
    event ∈ x.trace ∨ ∃ a, x.outcome = .ok a ∧ event ∈ (f a).trace := by
  change event ∈ (bind x f).trace at h
  unfold bind at h
  split at h
  · exact Or.inl h
  · next a ha => exact (List.mem_append.1 h).imp_right fun hrest => ⟨a, ha, hrest⟩

@[simp] theorem outcome_lift (x : Except Fault α) : (liftM x : Traced ε α).outcome = x := (rfl)

@[simp] theorem outcome_pure (a : α) : (pure a : Traced ε α).outcome = .ok a := (rfl)

@[simp] theorem outcome_bind (x : Traced ε α) (f : α → Traced ε β) :
    (x >>= f).outcome = x.outcome.bind fun a => (f a).outcome := by
  show (bind x f).outcome = _
  unfold bind
  cases x.outcome <;> rfl

theorem outcome_bind_of_ok {x : Traced ε α} {a : α} (h : x.outcome = .ok a) (f : α → Traced ε β) :
    (x >>= f).outcome = (f a).outcome := by
  show (bind x f).outcome = _
  rw [bind, h]

/-- A computation after one that has succeeded. -/
theorem bind_of_ok {x : Traced ε α} {trace : List ε} {a : α}
    (h : x = ⟨trace, .ok a⟩) (f : α → Traced ε β) :
    x >>= f = ⟨trace ++ (f a).trace, (f a).outcome⟩ := by
  rw [h]
  rfl

/-- A computation of which only the result is changed. -/
theorem bind_pure_eq (x : Traced ε α) (f : α → β) :
    (x >>= fun a => pure (f a)) = ⟨x.trace, x.outcome.map f⟩ := by
  obtain ⟨trace, outcome⟩ := x
  cases outcome with
  | error fault => rfl
  | ok a =>
    rw [bind_of_ok rfl]
    simp only [pure, List.append_nil, Except.map]

end Traced

theorem bind_eq_ok_iff {ε α β : Type} (x : Except ε α) (f : α → Except ε β) (b : β) :
    (x >>= f) = .ok b ↔ ∃ a, x = .ok a ∧ f a = .ok b := by
  cases x <;> simp [bind, Except.bind]

theorem bind_eq_error_iff {ε α β : Type} (x : Except ε α) (f : α → Except ε β) (e : ε) :
    (x >>= f) = .error e ↔ x = .error e ∨ ∃ a, x = .ok a ∧ f a = .error e := by
  cases x <;> simp [bind, Except.bind]

/-- A computation of which only the result is changed has the same faults. -/
theorem bind_pure_eq_error_iff {ε α β : Type} (x : Except ε α) (f : α → β) (e : ε) :
    (x >>= fun a => pure (f a)) = .error e ↔ x = .error e := by
  cases x <;> simp [bind, Except.bind, pure, Except.pure]

/-- A computation of which the result is known has succeeded. -/
theorem eq_ok_of_toOption {ε α : Type} {x : Except ε α} {a : α} (h : x.toOption = some a) :
    x = .ok a := by
  cases x with
  | error _ => cases h
  | ok b =>
    cases h
    rfl

theorem exists_of_map_eq_ok {ε α β : Type} {x : Except ε α} {f : α → β} {b : β}
    (h : x.map f = .ok b) : ∃ a, x = .ok a ∧ f a = b := by
  cases x with
  | error _ => cases h
  | ok a => exact ⟨a, rfl, Except.ok.inj h⟩

end SchemaCodecs

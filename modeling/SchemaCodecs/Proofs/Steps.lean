/-
# Steps that maintain an invariant

Steps of a computation with a state that may fail: they maintain an invariant of the state, their
results have a property, and their faults have one.
-/
import Mathlib.Data.List.Basic

namespace SchemaCodecs

variable {σ ε α β : Type} {I : σ → Prop} {F : ε → Prop} {P : α → Prop} {Q : β → Prop}

/-- A step from a state with the invariant `I` comes to a result with the property `P` and a state with
the invariant, or to a fault with the property `F`. -/
def Maintains (I : σ → Prop) (F : ε → Prop) (step : StateT σ (Except ε) α) (P : α → Prop) : Prop :=
  ∀ state, I state →
    match step.run state with
    | .ok (a, next) => P a ∧ I next
    | .error fault => F fault

namespace Maintains

theorem pure {a : α} (h : P a) : Maintains I F (pure a) P :=
  fun _ hstate => ⟨h, hstate⟩

theorem throw {fault : ε} (h : F fault) : Maintains I F (throw fault : StateT σ (Except ε) α) P :=
  fun _ _ => h

/-- Two steps maintain an invariant if both do. -/
theorem bind {step : StateT σ (Except ε) α} {next : α → StateT σ (Except ε) β}
    (hstep : Maintains I F step P) (hnext : ∀ a, P a → Maintains I F (next a) Q) :
    Maintains I F (step >>= next) Q := by
  intro state hstate
  have hfirst := hstep state hstate
  rw [StateT.run_bind]
  cases hrun : step.run state with
  | error fault =>
    rw [hrun] at hfirst
    exact hfirst
  | ok first =>
    rw [hrun] at hfirst
    exact hnext first.1 hfirst.1 first.2 hfirst.2

/-- What is not needed about a result can be left out. -/
theorem weaken {P' : α → Prop} {step : StateT σ (Except ε) α} (h : Maintains I F step P)
    (hP : ∀ a, P a → P' a) : Maintains I F step P' := by
  intro state hstate
  have hstep := h state hstate
  cases hrun : step.run state with
  | error fault =>
    rw [hrun] at hstep
    exact hstep
  | ok last =>
    rw [hrun] at hstep
    exact ⟨hP last.1 hstep.1, hstep.2⟩

theorem discard {step : StateT σ (Except ε) α} (h : Maintains I F step P) :
    Maintains I F (discard step) fun _ => True := by
  show Maintains I F (step >>= fun _ => Pure.pure PUnit.unit) _
  exact h.bind fun _ _ => .pure trivial

theorem ite {c : Prop} [Decidable c] {first second : StateT σ (Except ε) α}
    (hfirst : Maintains I F first P) (hsecond : Maintains I F second P) :
    Maintains I F (if c then first else second) P := by
  split
  · exact hfirst
  · exact hsecond

/-! ## Steps over lists -/

theorem mapM {items : List α} {step : α → StateT σ (Except ε) β}
    (h : ∀ a ∈ items, Maintains I F (step a) Q) :
    Maintains I F (items.mapM step) fun results => ∀ b ∈ results, Q b := by
  induction items with
  | nil => exact .pure (by simp)
  | cons item rest ih =>
    rw [List.mapM_cons]
    refine bind (h item List.mem_cons_self) fun b hb => ?_
    refine bind (ih fun a ha => h a (List.mem_cons_of_mem _ ha)) fun bs hbs => ?_
    exact .pure (List.forall_mem_cons.2 ⟨hb, hbs⟩)

theorem forM {items : List α} {step : α → StateT σ (Except ε) PUnit}
    (h : ∀ a ∈ items, Maintains I F (step a) fun _ => True) :
    Maintains I F (items.forM step) fun _ => True := by
  induction items with
  | nil => exact .pure trivial
  | cons item rest ih =>
    show Maintains I F (step item >>= fun _ => rest.forM step) _
    refine bind (h item List.mem_cons_self) fun _ _ => ?_
    exact ih fun a ha => h a (List.mem_cons_of_mem _ ha)

/-! ## The state -/

theorem get : Maintains I F get I :=
  fun _ hstate => ⟨hstate, hstate⟩

theorem set {next : σ} (h : I next) : Maintains I F (set next) fun _ => True :=
  fun _ _ => ⟨trivial, h⟩

theorem modify {change : σ → σ} (h : ∀ state, I state → I (change state)) :
    Maintains I F (modify change) fun _ => True :=
  fun state hstate => ⟨trivial, h state hstate⟩

/-- A computation without a state leaves the state as it is. -/
theorem lift {x : Except ε α} (hP : ∀ a, x = .ok a → P a) (hF : ∀ fault, x = .error fault → F fault) :
    Maintains I F (liftM x : StateT σ (Except ε) α) P := by
  intro state hstate
  cases x with
  | error fault => exact hF fault rfl
  | ok a => exact ⟨hP a rfl, hstate⟩

end Maintains

end SchemaCodecs

/-
Hoare triples for programs that keep their state when they throw, so that a
postcondition can speak about the state an exception leaves behind.
-/
import Mathlib.Init

universe u

namespace Hoare

variable {ε σ τ α β : Type u}

/-- From every state in `pre` the program ends in `post`, or throws and ends
in `fail`. -/
def Triple (pre : σ → Prop) (program : EStateM ε σ α)
    (post : α → σ → Prop) (fail : ε → σ → Prop) : Prop :=
  ∀ state, pre state →
    match program state with
    | .ok value next => post value next
    | .error error next => fail error next

/-- The state a run leaves, whichever way it ends. -/
def finalState : EStateM.Result ε σ α → σ
  | .ok _ state => state
  | .error _ state => state

/-- Embed a computation that does not touch the state. -/
def fromExcept (result : Except ε α) : EStateM ε σ α := fun state =>
  match result with
  | .ok value => .ok value state
  | .error error => .error error state

/-- Run a program on one component of the state. -/
def zoom (view : τ → σ) (update : σ → τ → τ) (program : EStateM ε σ α) :
    EStateM ε τ α := fun state =>
  match program (view state) with
  | .ok value next => .ok value (update next state)
  | .error error next => .error error (update next state)

@[simp] theorem bind_apply (program : EStateM ε σ α) (next : α → EStateM ε σ β)
    (state : σ) : (program >>= next) state =
      match program state with
      | .ok value state' => next value state'
      | .error error state' => .error error state' := rfl

@[simp] theorem pure_apply (value : α) (state : σ) :
    (pure value : EStateM ε σ α) state = .ok value state := rfl

@[simp] theorem get_apply (state : σ) :
    (get : EStateM ε σ σ) state = .ok state state := rfl

@[simp] theorem set_apply (next state : σ) :
    (set next : EStateM ε σ PUnit) state = .ok ⟨⟩ next := rfl

@[simp] theorem modify_apply (f : σ → σ) (state : σ) :
    (modify f : EStateM ε σ PUnit) state = .ok ⟨⟩ (f state) := rfl

@[simp] theorem throw_apply (error : ε) (state : σ) :
    (throw error : EStateM ε σ α) state = .error error state := rfl

@[simp] theorem fromExcept_ok_apply (value : α) (state : σ) :
    (fromExcept (.ok value) : EStateM ε σ α) state = .ok value state := rfl

@[simp] theorem fromExcept_error_apply (error : ε) (state : σ) :
    (fromExcept (.error error) : EStateM ε σ α) state = .error error state := rfl

namespace Triple

variable {pre : σ → Prop} {post : α → σ → Prop} {fail : ε → σ → Prop}

theorem pure {value : α} (h : ∀ state, pre state → post value state) :
    Triple pre (Pure.pure value : EStateM ε σ α) post fail :=
  fun state hstate => h state hstate

theorem throw {error : ε} (h : ∀ state, pre state → fail error state) :
    Triple pre (MonadExcept.throw error : EStateM ε σ α) post fail :=
  fun state hstate => h state hstate

/-- Sequencing: the first program's exceptions end the whole. -/
theorem bind {mid : α → σ → Prop} {post : β → σ → Prop} {program : EStateM ε σ α}
    {next : α → EStateM ε σ β} (hfirst : Triple pre program mid fail)
    (hnext : ∀ value, Triple (mid value) (next value) post fail) :
    Triple pre (program >>= next) post fail := by
  intro state hstate
  have hrun := hfirst state hstate
  rw [bind_apply]
  cases hprogram : program state with
  | ok value state' => exact hnext value state' (by simpa [hprogram] using hrun)
  | error error state' => simpa [hprogram] using hrun

/-- A weaker postcondition. -/
theorem weaken {weak : α → σ → Prop} {program : EStateM ε σ α}
    (h : Triple pre program post fail)
    (hweak : ∀ value state, post value state → weak value state) :
    Triple pre program weak fail := by
  intro state hstate
  have hrun := h state hstate
  cases hprogram : program state with
  | ok value next => exact hweak value next (by simpa [hprogram] using hrun)
  | error error next => simpa [hprogram] using hrun

/-- A fact that is not about the state outlives every run. -/
theorem keep {fact : Prop} {program : EStateM ε σ α} :
    Triple (fun _ => fact) program (fun _ _ => fact) (fun _ _ => True) := by
  intro state hfact
  cases program state with
  | ok value next => exact hfact
  | error error next => exact True.intro

/-- Continuations that agree wherever the first program can end give the same
run. -/
theorem bind_congr {mid : α → σ → Prop} {program : EStateM ε σ α}
    {next other : α → EStateM ε σ β} (hfirst : Triple pre program mid fail)
    (hnext : ∀ value state, mid value state → next value state = other value state)
    {state : σ} (hstate : pre state) : (program >>= next) state = (program >>= other) state := by
  have hrun := hfirst state hstate
  rw [bind_apply, bind_apply]
  cases hprogram : program state with
  | ok value state' => exact hnext value state' (by simpa [hprogram] using hrun)
  | error error state' => rfl

theorem modifyState {f : σ → σ} {post : PUnit → σ → Prop}
    (h : ∀ state, pre state → post ⟨⟩ (f state)) :
    Triple pre (modify f : EStateM ε σ PUnit) post fail :=
  fun state hstate => h state hstate

theorem zoom {view : τ → σ} {update : σ → τ → τ} {program : EStateM ε σ α}
    {preτ : τ → Prop} {postτ : α → τ → Prop} {failτ : ε → τ → Prop}
    (h : ∀ start, preτ start → Triple (fun state => state = view start) program
      (fun value state => postτ value (update state start))
      (fun error state => failτ error (update state start))) :
    Triple preτ (Hoare.zoom view update program) postτ failτ := by
  intro state hstate
  have hrun := h state hstate (view state) rfl
  unfold Hoare.zoom
  cases hprogram : program (view state) with
  | ok value next => simpa [hprogram] using hrun
  | error error next => simpa [hprogram] using hrun

end Triple

/-- The program keeps the invariant, whichever way it ends. -/
def Keeps (inv : σ → Prop) (program : EStateM ε σ α) : Prop :=
  Triple inv program (fun _ => inv) (fun _ => inv)

namespace Keeps

variable {inv : σ → Prop}

theorem pure (value : α) : Keeps inv (Pure.pure value : EStateM ε σ α) :=
  Triple.pure fun _ h => h

theorem bind {program : EStateM ε σ α} {next : α → EStateM ε σ β} (hfirst : Keeps inv program)
    (hnext : ∀ value, Keeps inv (next value)) : Keeps inv (program >>= next) :=
  Triple.bind hfirst hnext

theorem modifyState {f : σ → σ} (h : ∀ state, inv state → inv (f state)) :
    Keeps inv (modify f : EStateM ε σ PUnit) :=
  Triple.modifyState h

theorem finalState {program : EStateM ε σ α} (h : Keeps inv program) {state : σ}
    (hstate : inv state) : inv (Hoare.finalState (program state)) := by
  have hrun := h state hstate
  cases hprogram : program state with
  | ok value next => simpa [hprogram, Hoare.finalState] using hrun
  | error error next => simpa [hprogram, Hoare.finalState] using hrun

end Keeps

end Hoare

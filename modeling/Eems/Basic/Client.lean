/-
Programs that call a service, run by an implementation of the service and
allowed by a specification of it.
-/
import Mathlib.Init

universe u v w x y

/-- A program that calls a service, each call chosen by the answers to those
before. -/
inductive Client (C : Type u) (A : C → Type v) (B : Type w) where
  | done (result : B)
  | call (request : C) (next : A request → Client C A B)

namespace Client

variable {C : Type u} {A : C → Type v} {B : Type w} {S : Type x} {T : Type y}

/-- Run by an implementation, which computes the answer and its next state. -/
def run (step : (request : C) → S → A request × S) : Client C A B → S → B × S
  | .done result, state => (result, state)
  | .call request next, state =>
      (next (step request state).1).run step (step request state).2

/-- The runs that a specification allows, which relates the states before and
after a call to the answer. -/
inductive Runs (spec : (request : C) → T → A request → T → Prop) :
    Client C A B → T → B → T → Prop
  | done {result : B} {state : T} : Runs spec (.done result) state result state
  | call {request : C} {next : A request → Client C A B} {state mid final : T}
      {answer : A request} {result : B} (answered : spec request state answer mid)
      (later : Runs spec (next answer) mid result final) :
      Runs spec (.call request next) state result final

variable {step : (request : C) → S → A request × S}
  {spec : (request : C) → T → A request → T → Prop}

/-- If every call of the implementation is one of the specification's, in
related states, then so is every run of every client. -/
theorem exists_runs {R : S → T → Prop}
    (hstep : ∀ request state before, R state before →
      ∃ after, spec request before (step request state).1 after ∧ R (step request state).2 after)
    (client : Client C A B) {state : S} {before : T} (h : R state before) :
    ∃ after, client.Runs spec before (client.run step state).1 after ∧
      R (client.run step state).2 after := by
  induction client generalizing state before with
  | done result => exact ⟨before, .done, h⟩
  | call request next ih =>
      obtain ⟨mid, hanswer, hmid⟩ := hstep request state before h
      obtain ⟨after, hruns, hafter⟩ := ih (step request state).1 hmid
      exact ⟨after, .call hanswer hruns, hafter⟩

/-- What every call keeps, every run keeps. -/
theorem Runs.keeps {inv : T → Prop}
    (hspec : ∀ request before answer after, spec request before answer after → inv before →
      inv after)
    {client : Client C A B} {before after : T} {result : B}
    (h : client.Runs spec before result after) (hinv : inv before) : inv after := by
  induction h with
  | done => exact hinv
  | call answered later ih => exact ih (hspec _ _ _ _ answered hinv)

end Client

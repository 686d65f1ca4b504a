/-
Runs of a system of independent parts, in any order of their steps: what a
schedule does to one part is what the part's own events do to it alone.
-/
import Mathlib.Tactic

universe u v w z

namespace Schedule

variable {S : Type u} {E : Type v} {C : Type w} {A : Type z}

/-- The events in their order; `none` where one of them cannot happen. -/
def run (step : S → E → Option S) (state : S) (events : List E) : Option S :=
  events.foldlM step state

@[simp] theorem run_nil (step : S → E → Option S) (state : S) :
    run step state [] = some state := rfl

@[simp] theorem run_cons (step : S → E → Option S) (state : S) (event : E)
    (events : List E) :
    run step state (event :: events) =
      (step state event).bind fun next => run step next events := rfl

/-- In the states of `inv` every event is a step of the part that `view` shows,
or leaves it alone. -/
structure Projects (step : S → E → Option S) (inv : S → Prop) (view : S → C)
    (own : E → Option A) (part : C → A → Option C) : Prop where
  kept : ∀ state event next, inv state → step state event = some next → inv next
  other : ∀ state event next, inv state → step state event = some next → own event = none →
    view next = view state
  own : ∀ state event next action, inv state → step state event = some next →
    own event = some action → part (view state) action = some (view next)

/-- Whatever else happens, the part runs through its own events. -/
theorem Projects.run {step : S → E → Option S} {inv : S → Prop} {view : S → C}
    {own : E → Option A} {part : C → A → Option C} (h : Projects step inv view own part)
    {state final : S} (hstate : inv state) {events : List E}
    (hrun : run step state events = some final) :
    inv final ∧
      Schedule.run part (view state) (events.filterMap own) = some (view final) := by
  induction events generalizing state with
  | nil =>
      obtain rfl := Option.some.inj hrun
      exact ⟨hstate, rfl⟩
  | cons event events ih =>
      obtain ⟨next, hstep, hrest⟩ := Option.bind_eq_some_iff.mp hrun
      have hnext := ih (h.kept state event next hstate hstep) hrest
      cases haction : own event with
      | none =>
          rw [List.filterMap_cons_none haction,
            ← h.other state event next hstate hstep haction]
          exact hnext
      | some action =>
          rw [List.filterMap_cons_some haction, run_cons,
            h.own state event next action hstate hstep haction, Option.bind_some]
          exact hnext

end Schedule

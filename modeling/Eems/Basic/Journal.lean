/-
Journals: the entries applied to a state one after another, and what each of
them found when it was applied.
-/
import Mathlib.Tactic

universe u v

namespace Journal

variable {S : Type u} {E : Type v} (apply : S → E → S)

def replay (base : S) (journal : List E) : S := journal.foldl apply base

@[simp] theorem replay_nil (base : S) : replay apply base [] = base := rfl

theorem replay_append (base : S) (first second : List E) :
    replay apply base (first ++ second) = replay apply (replay apply base first) second := by
  simp [replay]

/-- Every entry fits the state it is applied to. -/
def Fitting (fits : S → E → Prop) (base : S) (journal : List E) : Prop :=
  ∀ before entry after, journal = before ++ entry :: after →
    fits (replay apply base before) entry

variable {apply} {fits : S → E → Prop} {base : S} {journal : List E}

theorem Fitting.nil : Fitting apply fits base [] := by
  intro before entry after hsplit
  simp at hsplit

theorem Fitting.snoc (h : Fitting apply fits base journal) {entry : E}
    (hentry : fits (replay apply base journal) entry) :
    Fitting apply fits base (journal ++ [entry]) := by
  intro before found after hsplit
  rcases List.append_eq_append_iff.mp hsplit with ⟨middle, rfl, hmiddle⟩ | ⟨middle, rfl, hmiddle⟩
  · cases middle with
    | nil =>
        obtain ⟨rfl, -⟩ := List.cons.inj (hmiddle : [entry] = found :: after)
        simpa using hentry
    | cons first rest => simp at hmiddle
  · cases middle with
    | nil =>
        obtain ⟨rfl, -⟩ := List.cons.inj (hmiddle : found :: after = [entry])
        simpa using hentry
    | cons first rest =>
        obtain ⟨rfl, rfl⟩ := List.cons.inj (hmiddle : found :: after = first :: (rest ++ [entry]))
        exact h before found rest rfl

/-- What no entry undoes where it fits stays true to the end of the journal. -/
theorem Fitting.preserved {P : S → Prop} {rest : List E}
    (h : Fitting apply fits base (journal ++ rest))
    (hstep : ∀ state entry, fits state entry → P state → P (apply state entry))
    (hstart : P (replay apply base journal)) : P (replay apply base (journal ++ rest)) := by
  induction rest generalizing journal with
  | nil => simpa using hstart
  | cons entry rest ih =>
      have hsplit : journal ++ entry :: rest = (journal ++ [entry]) ++ rest := by simp
      rw [hsplit] at h ⊢
      apply ih h
      rw [replay_append]
      exact hstep _ _ (h journal entry rest hsplit.symm) hstart

end Journal

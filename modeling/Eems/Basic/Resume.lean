/-
Getting a list in several attempts, each going on from where the one before it
broke off.
-/
import Mathlib.Tactic

universe u v

namespace Resume

variable {A : Type u} {W : Type v}

/-- Add what each attempt gets to what is there, until one of them says that it
got everything.  `fetch` is told how much is there already. -/
def assemble (fetch : Nat → W → List A × Bool) : List W → List A → List A × Bool
  | [], got => (got, false)
  | attempt :: rest, got =>
      let result := fetch got.length attempt
      if result.2 then (got ++ result.1, true) else assemble fetch rest (got ++ result.1)

/-- From anywhere in the list an attempt gets what comes next, all of it if it
says so. -/
structure Serves (fetch : Nat → W → List A × Bool) (content : List A) : Prop where
  part : ∀ n attempt, n ≤ content.length → (fetch n attempt).1 <+: content.drop n
  whole : ∀ n attempt, n ≤ content.length → (fetch n attempt).2 = true →
    (fetch n attempt).1 = content.drop n

namespace Serves

variable {fetch : Nat → W → List A × Bool} {content got : List A}

theorem append_prefix (h : Serves fetch content) (hgot : got <+: content) (attempt : W) :
    got ++ (fetch got.length attempt).1 <+: content := by
  obtain ⟨rest, rfl⟩ := hgot
  have hpart := h.part got.length attempt (by simp)
  rw [List.drop_left] at hpart
  rwa [List.prefix_append_right_inj]

/-- Nothing is lost, nothing is got twice, and what is complete is the list. -/
theorem assemble (h : Serves fetch content) (attempts : List W) (hgot : got <+: content) :
    got <+: (Resume.assemble fetch attempts got).1 ∧
      (Resume.assemble fetch attempts got).1 <+: content ∧
      ((Resume.assemble fetch attempts got).2 = true →
        (Resume.assemble fetch attempts got).1 = content) := by
  induction attempts generalizing got with
  | nil => exact ⟨List.prefix_refl got, hgot, by simp [Resume.assemble]⟩
  | cons attempt rest ih =>
      have hnext := h.append_prefix hgot attempt
      simp only [Resume.assemble]
      split
      · rename_i hdone
        refine ⟨List.prefix_append _ _, hnext, fun _ => ?_⟩
        obtain ⟨tail, rfl⟩ := hgot
        rw [h.whole got.length attempt (by simp) hdone, List.drop_left]
      · obtain ⟨hkept, hrest⟩ := ih hnext
        exact ⟨(List.prefix_append _ _).trans hkept, hrest⟩

/-- One attempt that always gets everything is enough. -/
theorem assemble_done (h : Serves fetch content) {attempts : List W} (hgot : got <+: content)
    (hgood : ∃ attempt ∈ attempts, ∀ n, n ≤ content.length → (fetch n attempt).2 = true) :
    (Resume.assemble fetch attempts got).2 = true := by
  induction attempts generalizing got with
  | nil => simp at hgood
  | cons attempt rest ih =>
      simp only [Resume.assemble]
      split
      · rfl
      · rename_i hbroken
        obtain ⟨good, hmem, hall⟩ := hgood
        rcases List.mem_cons.mp hmem with rfl | hmem
        · exact absurd (hall got.length hgot.length_le) hbroken
        · exact ih (h.append_prefix hgot attempt) ⟨good, hmem, hall⟩

end Serves

end Resume

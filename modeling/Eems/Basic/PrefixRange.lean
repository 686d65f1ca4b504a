/-
The entries of an ordered map whose keys begin with a prefix: in lexicographic
order they stand together, from the lower bound of the prefix on.
-/
import Eems.Basic.OrderedMap
import Mathlib.Data.List.Lex

universe u v

namespace PrefixRange

variable {A : Type u} {V : Type v} [LinearOrder A]

theorem cons_le_cons_iff {a b : A} {left right : List A} :
    a :: left ≤ b :: right ↔ a < b ∨ a = b ∧ left ≤ right := by
  have hlt : b :: right < a :: left ↔ b < a ∨ b = a ∧ right < left := List.cons_lt_cons_iff
  rw [← not_lt, hlt]
  rcases lt_trichotomy a b with hless | rfl | hmore
  · simp [hless, hless.ne', lt_asymm hless]
  · simp
  · simp [hmore, hmore.ne', lt_asymm hmore]

theorem le_of_isPrefix {front text : List A} (h : front <+: text) : front ≤ text := by
  obtain ⟨rest, rfl⟩ := h
  induction front with
  | nil =>
      cases rest with
      | nil => exact le_rfl
      | cons a rest => exact le_of_lt (List.nil_lt_cons a rest)
  | cons a front ih => exact cons_le_cons_iff.mpr (Or.inr ⟨rfl, ih⟩)

/-- Only a list with the prefix lies between the prefix and a list with it. -/
theorem isPrefix_of_between {front text upper : List A} (hlow : front ≤ text)
    (hhigh : text ≤ upper) (h : front <+: upper) : front <+: text := by
  induction front generalizing text upper with
  | nil => exact List.nil_prefix
  | cons a front ih =>
      cases text with
      | nil => exact absurd hlow (not_le.mpr (List.nil_lt_cons a front))
      | cons b text =>
          obtain ⟨rest, rfl⟩ := h
          rw [List.cons_append] at hhigh
          obtain rfl : a = b := by
            rcases cons_le_cons_iff.mp hlow with hless | ⟨heq, -⟩
            · rcases cons_le_cons_iff.mp hhigh with hmore | ⟨heq, -⟩
              · exact absurd hless (lt_asymm hmore)
              · exact heq.symm
            · exact heq
          have hlow : front ≤ text := by simpa [cons_le_cons_iff] using hlow
          have hhigh : text ≤ front ++ rest := by simpa [cons_le_cons_iff] using hhigh
          exact List.cons_prefix_cons.mpr ⟨rfl, ih hlow hhigh (List.prefix_append _ _)⟩

/-- Scanning from the lower bound up to the first key without the prefix finds
exactly the keys with it. -/
theorem takeWhile_lowerBound [BEq A] [LawfulBEq A] (m : OrderedMap (List A) V) (front : List A) :
    ((m.lowerBound front).takeWhile fun entry => front.isPrefixOf entry.1) =
      m.entries.filter fun entry => front.isPrefixOf entry.1 := by
  obtain ⟨entries, hsorted⟩ := m
  simp only [OrderedMap.lowerBound]
  induction entries with
  | nil => rfl
  | cons entry rest ih =>
      obtain ⟨hbefore, hrest⟩ := List.pairwise_cons.mp hsorted
      by_cases hless : entry.1 < front
      · have hnot : ¬ front.isPrefixOf entry.1 = true := fun h =>
          absurd hless (not_lt.mpr (le_of_isPrefix (List.isPrefixOf_iff_prefix.mp h)))
        simp only [List.dropWhile_cons, hless, decide_true, ↓reduceIte, List.filter_cons, hnot]
        exact ih hrest
      · have hpast : ∀ other ∈ rest, ¬ other.1 < front := fun other hother =>
          not_lt.mpr ((not_lt.mp hless).trans (le_of_lt (hbefore other hother)))
        simp only [List.dropWhile_cons, hless, decide_false, Bool.false_eq_true, ↓reduceIte]
        by_cases hfront : front.isPrefixOf entry.1 = true
        · have hdrop : (rest.takeWhile fun entry => front.isPrefixOf entry.1) =
              rest.filter fun entry => front.isPrefixOf entry.1 := by
            cases rest with
            | nil => rfl
            | cons other rest =>
                have hother := hpast other List.mem_cons_self
                simpa only [List.dropWhile_cons, hother, decide_false, Bool.false_eq_true,
                  ↓reduceIte] using ih hrest
          simp only [List.takeWhile_cons, List.filter_cons, hfront, ↓reduceIte, hdrop]
        · -- a later key with the prefix would put this one between
          have hnone : ∀ other ∈ rest, ¬ front.isPrefixOf other.1 = true := by
            intro other hother hlater
            exact hfront (List.isPrefixOf_iff_prefix.mpr (isPrefix_of_between (not_lt.mp hless)
              (le_of_lt (hbefore other hother)) (List.isPrefixOf_iff_prefix.mp hlater)))
          simp only [List.takeWhile_cons, List.filter_cons, hfront, Bool.false_eq_true, ↓reduceIte,
            List.filter_eq_nil_iff.mpr hnone]

end PrefixRange

/-
Resources each of which is referred to from exactly one place of one owner.
-/
import Mathlib.Data.List.Nodup
import Mathlib.Tactic

universe u v

namespace Ownership

variable {I : Type u} {R : Type v}

/-- `refs i` are the references that the owner `i` holds. -/
structure Owned (refs : I → List R) (stored : R → Prop) : Prop where
  stored_of_mem : ∀ i r, r ∈ refs i → stored r
  nodup : ∀ i, (refs i).Nodup
  owner_unique : ∀ i j r, r ∈ refs i → r ∈ refs j → i = j
  owned : ∀ r, stored r → ∃ i, r ∈ refs i

/-- Exactly one position of exactly one owner refers to a stored resource. -/
theorem Owned.existsUnique {refs : I → List R} {stored : R → Prop} (h : Owned refs stored)
    {r : R} (hr : stored r) : ∃! place : I × Nat, (refs place.1)[place.2]? = some r := by
  obtain ⟨i, hi⟩ := h.owned r hr
  obtain ⟨n, hn⟩ := List.getElem?_of_mem hi
  refine ⟨(i, n), hn, ?_⟩
  rintro ⟨j, m⟩ hm
  have hj : r ∈ refs j := List.mem_of_getElem? hm
  obtain rfl := h.owner_unique i j r hi hj
  have hlt : m < (refs i).length := (List.getElem?_eq_some_iff.mp hm).1
  have heq : m = n := (List.getElem?_inj hlt (h.nodup i)).mp (hm.trans hn.symm)
  rw [heq]

/-- Fresh owners bring their own fresh resources; the others keep what they
refer to. -/
theorem Owned.extend {refs refs' : I → List R} {stored stored' : R → Prop}
    (h : Owned refs stored) (fresh : List I) (resources : List R)
    (hempty : ∀ i ∈ fresh, refs i = [])
    (hkeep : ∀ i, i ∉ fresh → refs' i = refs i)
    (hbring : (fresh.flatMap refs').Perm resources) (hnodup : resources.Nodup)
    (hnew : ∀ r ∈ resources, ¬ stored r)
    (hstored : ∀ r, stored' r ↔ stored r ∨ r ∈ resources) : Owned refs' stored' := by
  have hflat : (fresh.flatMap refs').Nodup := hbring.nodup_iff.mpr hnodup
  have hmem : ∀ i ∈ fresh, ∀ r ∈ refs' i, r ∈ resources := fun i hi r hr =>
    hbring.subset (List.mem_flatMap.mpr ⟨i, hi, hr⟩)
  have hold : ∀ i, i ∉ fresh → ∀ r ∈ refs' i, r ∈ refs i ∧ r ∉ resources := by
    intro i hi r hr
    rw [hkeep i hi] at hr
    exact ⟨hr, fun hres => hnew r hres (h.stored_of_mem i r hr)⟩
  rw [List.nodup_flatMap] at hflat
  have : Std.Symm (Function.onFun List.Disjoint refs') := ⟨fun _ _ hd => hd.symm⟩
  refine ⟨?_, ?_, ?_, ?_⟩
  · intro i r hr
    by_cases hi : i ∈ fresh
    · exact (hstored r).mpr (Or.inr (hmem i hi r hr))
    · exact (hstored r).mpr (Or.inl (h.stored_of_mem i r (hold i hi r hr).1))
  · intro i
    by_cases hi : i ∈ fresh
    · exact hflat.1 i hi
    · rw [hkeep i hi]
      exact h.nodup i
  · intro i j r hi hj
    by_cases hif : i ∈ fresh <;> by_cases hjf : j ∈ fresh
    · by_contra hne
      exact hflat.2.forall hif hjf hne hi hj
    · exact absurd (hmem i hif r hi) (hold j hjf r hj).2
    · exact absurd (hmem j hjf r hj) (hold i hif r hi).2
    · exact h.owner_unique i j r (hold i hif r hi).1 (hold j hjf r hj).1
  · intro r hr
    rcases (hstored r).mp hr with hr | hr
    · obtain ⟨i, hi⟩ := h.owned r hr
      have hif : i ∉ fresh := fun hif => by simp [hempty i hif] at hi
      exact ⟨i, by rwa [hkeep i hif]⟩
    · obtain ⟨i, -, hi⟩ := List.mem_flatMap.mp (hbring.symm.subset hr)
      exact ⟨i, hi⟩

end Ownership

/-
Reading a list page by page: a client that always asks from where its last page
ended collects the whole list.
-/
import Mathlib.Tactic

universe u

namespace Paging

variable {A : Type u}

/-- A page: its entries, how many the server says they are, and how many there
are in all. -/
structure Page (A : Type u) where
  items : List A
  returned : Nat
  total : Nat

/-- Ask for one page after another, of the sizes in `counts`, until the total
is reached.  The first argument bounds the number of requests. -/
def collect (fetch : Nat → Nat → Option (Page A)) (counts : Nat → Nat) :
    Nat → Nat → Nat → Option (List A)
  | 0, _, _ => none
  | fuel + 1, request, start =>
      (fetch start (counts request)).bind fun page =>
        let next := start + page.returned
        if page.total ≤ next then some page.items
        else (collect fetch counts fuel (request + 1) next).map (page.items ++ ·)

/-- Every page from inside the list is a stretch of it, empty only at its
end. -/
def Serves (fetch : Nat → Nat → Option (Page A)) (valid : Nat → Prop) (list : List A) : Prop :=
  ∀ start count, start ≤ list.length → valid count → ∃ page, fetch start count = some page ∧
    page.items <+: list.drop start ∧ (start < list.length → page.items ≠ []) ∧
    page.returned = page.items.length ∧ page.total = list.length

/-- Every entry is collected once and in order, in at most one request more
than there are entries. -/
theorem Serves.collect {fetch : Nat → Nat → Option (Page A)} {valid : Nat → Prop}
    {list : List A} (h : Serves fetch valid list) {counts : Nat → Nat}
    (hcounts : ∀ request, valid (counts request)) {fuel : Nat} :
    ∀ {request start : Nat}, start ≤ list.length → list.length < start + fuel →
      Paging.collect fetch counts fuel request start = some (list.drop start) := by
  induction fuel with
  | zero =>
      intro request start hstart hfuel
      omega
  | succ fuel ih =>
      intro request start hstart hfuel
      obtain ⟨page, hfetch, ⟨rest, hrest⟩, hnonempty, hreturned, htotal⟩ :=
        h start (counts request) hstart (hcounts request)
      have hlength := congrArg List.length hrest
      rw [List.length_append, List.length_drop] at hlength
      simp only [Paging.collect, hfetch, Option.bind_some, hreturned, htotal]
      split
      · have hempty : rest = [] := List.length_eq_zero_iff.mp (by omega)
        rw [← hrest, hempty, List.append_nil]
      · rename_i hmore
        have hpos : 0 < page.items.length :=
          List.length_pos_iff.mpr (hnonempty (by omega))
        rw [ih (by omega) (by omega), Option.map_some, ← List.drop_drop, ← hrest,
          List.drop_left]

end Paging

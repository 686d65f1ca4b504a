/-
Trees in which the parent relation is kept twice: every node names its parent,
and every inner node lists its children.  The only operation is to add fresh
leaves below an inner node, and it keeps both sides in step.
-/
import Mathlib.Data.List.Nodup
import Mathlib.Tactic

universe u v

namespace ListedTree

variable {I : Type u}

/-- `children` is `none` for a node that cannot have any. -/
structure Node (I : Type u) where
  parent : I
  children : Option (List I)

def Node.childList (node : Node I) : List I := node.children.getD []

/-- The nodes stored under each index. -/
abbrev Listing (I : Type u) := I → Option (Node I)

/-- Following `parent` from the index reaches `root` after finitely many
steps. -/
inductive Reaches (nodes : Listing I) (root : I) : I → Prop
  | root : Reaches nodes root root
  | step {i : I} {node : Node I} (stored : nodes i = some node)
      (up : Reaches nodes root node.parent) : Reaches nodes root i

/-- The index reached by following `parent` a number of times. -/
def climb (nodes : Listing I) : Nat → I → Option I
  | 0, i => some i
  | steps + 1, i => (nodes i).bind fun node => climb nodes steps node.parent

theorem climb_add (nodes : Listing I) (first second : Nat) (i : I) :
    climb nodes (first + second) i = (climb nodes first i).bind (climb nodes second) := by
  induction first generalizing i with
  | zero => simp [climb]
  | succ first ih =>
      rw [Nat.succ_add]
      cases hi : nodes i with
      | none => simp [climb, hi]
      | some node => simp [climb, hi, ih]

theorem Reaches.climb {nodes : Listing I} {root i : I} (h : Reaches nodes root i) :
    ∃ steps, ListedTree.climb nodes steps i = some root := by
  induction h with
  | root => exact ⟨0, rfl⟩
  | step stored _ ih =>
      obtain ⟨steps, hsteps⟩ := ih
      exact ⟨steps + 1, by simp [ListedTree.climb, stored, hsteps]⟩

/-- Both sides of the parent relation agree and lead to `root`. -/
structure WellFormed (root : I) (nodes : Listing I) : Prop where
  root_stored : ∃ node, nodes root = some node ∧ node.children.isSome
  root_parent : ∀ node, nodes root = some node → nodes node.parent = none
  child_stored : ∀ p node, nodes p = some node → ∀ c ∈ node.childList,
    ∃ child, nodes c = some child ∧ child.parent = p
  children_nodup : ∀ p node, nodes p = some node → node.childList.Nodup
  listed : ∀ c child, nodes c = some child → c ≠ root →
    ∃ node, nodes child.parent = some node ∧ c ∈ node.childList
  reaches : ∀ i node, nodes i = some node → Reaches nodes root i

namespace WellFormed

variable {root : I} {nodes : Listing I}

/-- A key is listed by one node only. -/
theorem lister_unique (h : WellFormed root nodes) {p q c : I} {left right : Node I}
    (hp : nodes p = some left) (hq : nodes q = some right) (hc : c ∈ left.childList)
    (hc' : c ∈ right.childList) : p = q := by
  obtain ⟨child, hchild, rfl⟩ := h.child_stored p left hp c hc
  obtain ⟨child', hchild', rfl⟩ := h.child_stored q right hq c hc'
  rw [hchild] at hchild'
  rw [Option.some.inj hchild']

theorem root_unlisted (h : WellFormed root nodes) {p : I} {node : Node I}
    (hp : nodes p = some node) : root ∉ node.childList := by
  intro hmem
  obtain ⟨child, hchild, rfl⟩ := h.child_stored p node hp root hmem
  rw [h.root_parent child hchild] at hp
  exact Option.some_ne_none node hp.symm

/-- From the root one step up leads out of the tree. -/
theorem climb_root (h : WellFormed root nodes) (steps : Nat) :
    climb nodes (steps + 2) root = none := by
  obtain ⟨node, hnode, -⟩ := h.root_stored
  simp [climb, hnode, h.root_parent node hnode]

/-- No stored node is its own ancestor. -/
theorem climb_ne_self (h : WellFormed root nodes) {i : I} {node : Node I}
    (hi : nodes i = some node) {steps : Nat} (hsteps : 0 < steps) :
    climb nodes steps i ≠ some i := by
  intro hcycle
  have hround : ∀ rounds, climb nodes (rounds * steps) i = some i := by
    intro rounds
    induction rounds with
    | zero => simp [climb]
    | succ rounds ih => rw [Nat.succ_mul, climb_add, ih, Option.bind_some, hcycle]
  obtain ⟨height, hheight⟩ := (h.reaches i node hi).climb
  have hlong : (height + 2) * steps = height + ((height + 2) * steps - height - 2 + 2) := by
    have := Nat.le_mul_of_pos_right (height + 2) hsteps
    omega
  have hend := hround (height + 2)
  rw [hlong, climb_add, hheight, Option.bind_some, h.climb_root] at hend
  exact Option.some_ne_none i hend.symm

end WellFormed

/-- What lies below an index, each node before its own children, as far down as
`depth` levels. -/
def preorder (nodes : Listing I) : Nat → I → List I
  | 0, _ => []
  | depth + 1, p =>
      (((nodes p).map Node.childList).getD []).flatMap fun c => c :: preorder nodes depth c

theorem sublist_flatMap_cons {A : Type u} (rest : A → List A) (list : List A) :
    list.Sublist (list.flatMap fun a => a :: rest a) := by
  induction list with
  | nil => exact List.nil_sublist _
  | cons head tail ih =>
      rw [List.flatMap_cons, List.cons_append]
      exact (ih.trans (List.sublist_append_right _ _)).cons_cons head

theorem sublist_flatMap_of_mem {A B : Type u} (f : A → List B) {list : List A} {a : A}
    (h : a ∈ list) : (f a).Sublist (list.flatMap f) := by
  obtain ⟨before, after, rfl⟩ := List.append_of_mem h
  rw [List.flatMap_append, List.flatMap_cons]
  exact (List.sublist_append_left _ _).trans (List.sublist_append_right _ _)

theorem preorder_of_leaf {nodes : Listing I} {p : I} {node : Node I} (hp : nodes p = some node)
    (hleaf : node.childList = []) (depth : Nat) : preorder nodes depth p = [] := by
  cases depth with
  | zero => rfl
  | succ depth => simp [preorder, hp, hleaf]

namespace WellFormed

variable {root : I} {nodes : Listing I}

/-- The children of a stored node are the nodes that name it as their parent. -/
theorem mem_childList_iff (h : WellFormed root nodes) {p c : I} {node : Node I}
    (hp : nodes p = some node) :
    c ∈ node.childList ↔ ∃ child, nodes c = some child ∧ child.parent = p := by
  constructor
  · exact h.child_stored p node hp c
  · rintro ⟨child, hchild, rfl⟩
    have hne : c ≠ root := by
      rintro rfl
      rw [h.root_parent child hchild] at hp
      exact Option.some_ne_none node hp.symm
    obtain ⟨lister, hlister, hlisted⟩ := h.listed c child hchild hne
    obtain rfl := Option.some.inj (hp.symm.trans hlister)
    exact hlisted

theorem climb_one {i p : I} (h : climb nodes 1 i = some p) :
    ∃ node, nodes i = some node ∧ node.parent = p := by
  obtain ⟨node, hnode, hparent⟩ := Option.bind_eq_some_iff.mp h
  exact ⟨node, hnode, Option.some.inj hparent⟩

/-- A level further down is a step further up. -/
theorem mem_preorder_iff (h : WellFormed root nodes) {depth : Nat} {p i : I} {node : Node I}
    (hp : nodes p = some node) :
    i ∈ preorder nodes depth p ↔
      ∃ steps, 0 < steps ∧ steps ≤ depth ∧ climb nodes steps i = some p := by
  induction depth generalizing p node with
  | zero =>
      simp only [preorder, List.not_mem_nil, false_iff, not_exists]
      intro steps
      omega
  | succ depth ih =>
      simp only [preorder, hp, Option.map_some, Option.getD_some, List.mem_flatMap, List.mem_cons]
      constructor
      · rintro ⟨c, hc, hi⟩
        obtain ⟨child, hchild, hparent⟩ := h.child_stored p node hp c hc
        have hlast : climb nodes 1 c = some p := by simp [climb, hchild, hparent]
        rcases hi with rfl | hi
        · exact ⟨1, Nat.one_pos, by omega, hlast⟩
        · obtain ⟨steps, -, hsteps, hclimb⟩ := (ih hchild).mp hi
          refine ⟨steps + 1, Nat.succ_pos steps, by omega, ?_⟩
          rw [climb_add, hclimb, Option.bind_some, hlast]
      · rintro ⟨steps, hpos, hsteps, hclimb⟩
        obtain ⟨front, rfl⟩ : ∃ front, steps = front + 1 := ⟨steps - 1, by omega⟩
        rw [climb_add] at hclimb
        obtain ⟨c, hfront, hlast⟩ := Option.bind_eq_some_iff.mp hclimb
        obtain ⟨child, hchild, hparent⟩ := climb_one hlast
        refine ⟨c, (h.mem_childList_iff hp).mpr ⟨child, hchild, hparent⟩, ?_⟩
        cases front with
        | zero => exact Or.inl (Option.some.inj hfront)
        | succ front =>
            exact Or.inr ((ih hchild).mpr ⟨front + 1, Nat.succ_pos front, by omega, hfront⟩)

/-- Two ways up from an index to siblings are the same. -/
theorem sibling_unique (h : WellFormed root nodes) {p i left right : I} {node : Node I}
    (hp : nodes p = some node) (hleft : left ∈ node.childList) (hright : right ∈ node.childList)
    {first second : Nat} (hfirst : climb nodes first i = some left)
    (hsecond : climb nodes second i = some right) : left = right := by
  wlog hle : first ≤ second with hother
  · exact (hother h hp hright hleft hsecond hfirst (by omega)).symm
  obtain ⟨between, rfl⟩ := Nat.exists_eq_add_of_le hle
  rw [climb_add, hfirst, Option.bind_some] at hsecond
  cases between with
  | zero => exact Option.some.inj hsecond
  | succ between =>
      -- the right sibling would stand between the left one and their parent
      obtain ⟨leftNode, hleftNode, hleftParent⟩ := h.child_stored p node hp left hleft
      obtain ⟨rightNode, hrightNode, hrightParent⟩ := h.child_stored p node hp right hright
      have habove : climb nodes between p = some right := by
        simpa [climb, hleftNode, hleftParent] using hsecond
      have hcycle : climb nodes (between + 1) p = some p := by
        rw [climb_add, habove, Option.bind_some]
        simp [climb, hrightNode, hrightParent]
      exact absurd hcycle (h.climb_ne_self hp (Nat.succ_pos between))

theorem preorder_nodup (h : WellFormed root nodes) (depth : Nat) {p : I} {node : Node I}
    (hp : nodes p = some node) : (preorder nodes depth p).Nodup := by
  induction depth generalizing p node with
  | zero => exact List.nodup_nil
  | succ depth ih =>
      simp only [preorder, hp, Option.map_some, Option.getD_some]
      have hclimb : ∀ c ∈ node.childList, ∀ i ∈ c :: preorder nodes depth c,
          ∃ steps, climb nodes steps i = some c := by
        intro c hc i hi
        obtain ⟨child, hchild, -⟩ := h.child_stored p node hp c hc
        rcases List.mem_cons.mp hi with rfl | hi
        · exact ⟨0, rfl⟩
        · obtain ⟨steps, -, -, hsteps⟩ := (h.mem_preorder_iff hchild).mp hi
          exact ⟨steps, hsteps⟩
      rw [List.nodup_flatMap]
      constructor
      · intro c hc
        obtain ⟨child, hchild, -⟩ := h.child_stored p node hp c hc
        rw [List.nodup_cons]
        refine ⟨?_, ih hchild⟩
        intro hmem
        obtain ⟨steps, hpos, -, hcycle⟩ := (h.mem_preorder_iff hchild).mp hmem
        exact h.climb_ne_self hchild hpos hcycle
      · apply (h.children_nodup p node hp).imp_of_mem
        intro left right hleft hright hne i hi hi'
        obtain ⟨first, hfirst⟩ := hclimb left hleft i hi
        obtain ⟨second, hsecond⟩ := hclimb right hright i hi'
        exact hne (h.sibling_unique hp hleft hright hfirst hsecond)

/-- One height is enough for finitely many nodes. -/
theorem exists_climb_bound (h : WellFormed root nodes) (list : List I) :
    ∃ bound, ∀ i ∈ list, ∀ node, nodes i = some node →
      ∃ steps, steps ≤ bound ∧ climb nodes steps i = some root := by
  induction list with
  | nil => exact ⟨0, fun i hi => absurd hi List.not_mem_nil⟩
  | cons head tail ih =>
      obtain ⟨bound, hbound⟩ := ih
      cases hhead : nodes head with
      | none =>
          refine ⟨bound, fun i hi node hnode => ?_⟩
          rcases List.mem_cons.mp hi with rfl | hi
          · simp [hhead] at hnode
          · exact hbound i hi node hnode
      | some node =>
          obtain ⟨height, hheight⟩ := (h.reaches head node hhead).climb
          refine ⟨max bound height, fun i hi node hnode => ?_⟩
          rcases List.mem_cons.mp hi with rfl | hi
          · exact ⟨height, Nat.le_max_right bound height, hheight⟩
          · obtain ⟨steps, hle, hclimb⟩ := hbound i hi node hnode
            exact ⟨steps, hle.trans (Nat.le_max_left bound height), hclimb⟩

/-- In a finite tree everything but the root is found below the root, from some
depth on. -/
theorem exists_mem_preorder_root_iff (h : WellFormed root nodes) {stored : List I}
    (hstored : ∀ i node, nodes i = some node → i ∈ stored) :
    ∃ bound, ∀ depth, bound ≤ depth → ∀ i,
      i ∈ preorder nodes depth root ↔ i ≠ root ∧ (nodes i).isSome := by
  obtain ⟨bound, hbound⟩ := h.exists_climb_bound stored
  obtain ⟨rootNode, hroot, -⟩ := h.root_stored
  refine ⟨bound, ?_⟩
  intro depth hdepth i
  rw [h.mem_preorder_iff hroot]
  constructor
  · rintro ⟨steps, hpos, -, hclimb⟩
    obtain ⟨front, rfl⟩ : ∃ front, steps = front + 1 := ⟨steps - 1, by omega⟩
    obtain ⟨node, hnode, -⟩ := Option.bind_eq_some_iff.mp hclimb
    refine ⟨?_, by simp [hnode]⟩
    rintro rfl
    exact h.climb_ne_self hnode hpos hclimb
  · rintro ⟨hne, hsome⟩
    obtain ⟨node, hnode⟩ := Option.isSome_iff_exists.mp hsome
    obtain ⟨steps, hle, hclimb⟩ := hbound i (hstored i node hnode) node hnode
    refine ⟨steps, ?_, hle.trans hdepth, hclimb⟩
    cases steps with
    | zero => exact absurd (Option.some.inj hclimb) hne
    | succ steps => exact Nat.succ_pos steps

/-- The children of a node stand in its tree in their order, as far down as they
are. -/
theorem childList_sublist_preorder (h : WellFormed root nodes) {p r : I} {node top : Node I}
    (hp : nodes p = some node) (hr : nodes r = some top) {steps depth : Nat}
    (hclimb : climb nodes steps p = some r) (hdepth : steps < depth) :
    node.childList.Sublist (preorder nodes depth r) := by
  obtain ⟨below, rfl⟩ : ∃ below, depth = below + 1 := ⟨depth - 1, by omega⟩
  induction steps generalizing r top below with
  | zero =>
      obtain rfl := Option.some.inj hclimb
      simp only [preorder, hp, Option.map_some, Option.getD_some]
      exact sublist_flatMap_cons _ node.childList
  | succ steps ih =>
      rw [climb_add] at hclimb
      obtain ⟨c, hfront, hlast⟩ := Option.bind_eq_some_iff.mp hclimb
      obtain ⟨child, hchild, hparent⟩ := climb_one hlast
      have hc := (h.mem_childList_iff hr).mpr ⟨child, hchild, hparent⟩
      obtain ⟨further, rfl⟩ : ∃ further, below = further + 1 := ⟨below - 1, by omega⟩
      have hbelow := ih hchild hfront further (by omega)
      rw [preorder, hr, Option.map_some, Option.getD_some]
      exact (hbelow.cons c).trans
        (sublist_flatMap_of_mem (fun c => c :: preorder nodes (further + 1) c) hc)

/-- Where all nodes are found below the root, those that name a node as their
parent are its children, in order. -/
theorem filter_preorder [DecidableEq I] (h : WellFormed root nodes) {depth : Nat}
    (hmem : ∀ i, i ∈ preorder nodes depth root ↔ i ≠ root ∧ (nodes i).isSome) {p : I}
    {node : Node I} (hp : nodes p = some node) :
    (preorder nodes depth root).filter (fun i => (nodes i).map Node.parent = some p) =
      node.childList := by
  obtain ⟨top, hroot, -⟩ := h.root_stored
  have hsublist : node.childList.Sublist (preorder nodes depth root) := by
    cases hchildren : node.childList with
    | nil => exact List.nil_sublist _
    | cons c rest =>
        obtain ⟨child, hchild, rfl⟩ := h.child_stored p node hp c (by simp [hchildren])
        have hne : c ≠ root := by
          rintro rfl
          exact h.root_unlisted hp (by simp [hchildren])
        obtain ⟨steps, hpos, hsteps, hclimb⟩ :=
          (h.mem_preorder_iff hroot).mp ((hmem c).mpr ⟨hne, by simp [hchild]⟩)
        obtain ⟨up, rfl⟩ : ∃ up, steps = up + 1 := ⟨steps - 1, by omega⟩
        rw [climb, hchild, Option.bind_some] at hclimb
        rw [← hchildren]
        exact h.childList_sublist_preorder hp hroot hclimb (by omega)
  have hall : node.childList.filter (fun i => (nodes i).map Node.parent = some p) =
      node.childList := by
    rw [List.filter_eq_self]
    intro c hc
    obtain ⟨child, hchild, rfl⟩ := h.child_stored p node hp c hc
    simp [hchild]
  have hkept := hsublist.filter fun i => (nodes i).map Node.parent = some p
  rw [hall] at hkept
  refine (hkept.eq_of_length_le ?_).symm
  refine (List.subperm_of_subset ((h.preorder_nodup depth hroot).filter _) ?_).length_le
  intro c hc
  obtain ⟨-, hparent⟩ := List.mem_filter.mp hc
  obtain ⟨child, hchild, hparent⟩ := Option.map_eq_some_iff.mp (of_decide_eq_true hparent)
  exact (h.mem_childList_iff hp).mpr ⟨child, hchild, hparent⟩

end WellFormed

/-- `after` is `nodes` with the leaves `fresh` added below the inner node `p`. -/
structure Extends (nodes : Listing I) (p : I) (fresh : List I) (after : Listing I) : Prop where
  inner : ∃ node old, nodes p = some node ∧ node.children = some old ∧
    after p = some ⟨node.parent, some (old ++ fresh)⟩
  fresh_nodup : fresh.Nodup
  fresh_absent : ∀ i ∈ fresh, nodes i = none
  fresh_stored : ∀ i ∈ fresh, ∃ node, after i = some node ∧ node.parent = p ∧
    node.childList = []
  frame : ∀ i, i ≠ p → i ∉ fresh → after i = nodes i

namespace Extends

variable [DecidableEq I] {root p : I} {nodes after : Listing I} {fresh : List I}

/-- What was stored stays stored, with the same parent and at least the same
children. -/
theorem stored_mono (h : Extends nodes p fresh after) {i : I} {node : Node I}
    (hnode : nodes i = some node) :
    ∃ node', after i = some node' ∧ node'.parent = node.parent ∧
      (node'.children.isSome ↔ node.children.isSome) ∧
      node'.childList = node.childList ++ (if i = p then fresh else []) := by
  by_cases hp : i = p
  · subst hp
    obtain ⟨inner, old, hinner, hold, hafter⟩ := h.inner
    rw [hnode] at hinner
    obtain rfl := Option.some.inj hinner
    exact ⟨_, hafter, rfl, by simp [hold], by simp [Node.childList, hold]⟩
  · have hfresh : i ∉ fresh := fun hmem =>
      Option.some_ne_none node (hnode.symm.trans (h.fresh_absent i hmem))
    exact ⟨node, (h.frame i hp hfresh).trans hnode, rfl, Iff.rfl, by simp [hp]⟩

theorem reaches_mono (h : Extends nodes p fresh after) {i : I}
    (hreach : Reaches nodes root i) : Reaches after root i := by
  induction hreach with
  | root => exact .root
  | step stored _ ih =>
      obtain ⟨node', hafter, hparent, -⟩ := h.stored_mono stored
      exact .step hafter (hparent ▸ ih)

/-- A node of the extended tree is an old one or a fresh leaf. -/
theorem stored_cases (h : Extends nodes p fresh after) {i : I} {node : Node I}
    (hnode : after i = some node) :
    (i ∈ fresh ∧ node.parent = p ∧ node.childList = []) ∨
      (i ∉ fresh ∧ ∃ old, nodes i = some old ∧ node.parent = old.parent ∧
        node.childList = old.childList ++ (if i = p then fresh else [])) := by
  by_cases hfresh : i ∈ fresh
  · obtain ⟨node', hafter, hparent, hchildren⟩ := h.fresh_stored i hfresh
    rw [hnode] at hafter
    obtain rfl := Option.some.inj hafter
    exact Or.inl ⟨hfresh, hparent, hchildren⟩
  · refine Or.inr ⟨hfresh, ?_⟩
    by_cases hp : i = p
    · subst hp
      obtain ⟨inner, old, hinner, hold, hafter⟩ := h.inner
      rw [hnode] at hafter
      obtain rfl := Option.some.inj hafter
      exact ⟨inner, hinner, rfl, by simp [Node.childList, hold]⟩
    · exact ⟨node, (h.frame i hp hfresh).symm.trans hnode, rfl, by simp [hp]⟩

/-- Adding fresh leaves keeps the tree well formed, provided the root's own
parent index stays unused. -/
theorem wellFormed (h : Extends nodes p fresh after) (hwf : WellFormed root nodes)
    (hroot : ∀ node, nodes root = some node → node.parent ∉ fresh) :
    WellFormed root after := by
  obtain ⟨inner, old, hinner, hold, hafterp⟩ := h.inner
  have hrootFresh : root ∉ fresh := by
    intro hmem
    obtain ⟨node, hnode, -⟩ := hwf.root_stored
    exact Option.some_ne_none node (hnode.symm.trans (h.fresh_absent root hmem))
  refine ⟨?_, ?_, ?_, ?_, ?_, ?_⟩
  · obtain ⟨node, hnode, hchildren⟩ := hwf.root_stored
    obtain ⟨node', hafter, -, hsome, -⟩ := h.stored_mono hnode
    exact ⟨node', hafter, hsome.mpr hchildren⟩
  · intro node hnode
    rcases h.stored_cases hnode with ⟨hfresh, -⟩ | ⟨-, oldRoot, holdRoot, hparent, -⟩
    · exact absurd hfresh hrootFresh
    · rw [hparent]
      have habsent := hwf.root_parent oldRoot holdRoot
      have hne : oldRoot.parent ≠ p := by
        intro heq
        rw [heq, hinner] at habsent
        exact Option.some_ne_none inner habsent
      rw [h.frame _ hne (hroot oldRoot holdRoot), habsent]
  · intro q node hq c hc
    rcases h.stored_cases hq with ⟨-, -, hnone⟩ | ⟨-, oldNode, holdNode, -, hchildren⟩
    · simp [hnone] at hc
    · rw [hchildren] at hc
      rcases List.mem_append.mp hc with hc | hc
      · obtain ⟨child, hchild, hparent⟩ := hwf.child_stored q oldNode holdNode c hc
        obtain ⟨child', hafter, hparent', -⟩ := h.stored_mono hchild
        exact ⟨child', hafter, hparent'.trans hparent⟩
      · split at hc
        · rename_i heq
          obtain ⟨child, hafter, hparent, -⟩ := h.fresh_stored c hc
          exact ⟨child, hafter, hparent.trans heq.symm⟩
        · simp at hc
  · intro q node hq
    rcases h.stored_cases hq with ⟨-, -, hnone⟩ | ⟨-, oldNode, holdNode, -, hchildren⟩
    · simp [hnone]
    · rw [hchildren]
      have hnodup := hwf.children_nodup q oldNode holdNode
      split
      · refine List.nodup_append.mpr ⟨hnodup, h.fresh_nodup, ?_⟩
        rintro c hc d hd rfl
        obtain ⟨child, hchild, -⟩ := hwf.child_stored q oldNode holdNode c hc
        exact Option.some_ne_none child (hchild.symm.trans (h.fresh_absent c hd))
      · simpa using hnodup
  · intro c child hc hne
    rcases h.stored_cases hc with ⟨hfresh, hparent, -⟩ | ⟨-, oldChild, holdChild, hparent, -⟩
    · rw [hparent]
      exact ⟨_, hafterp, by simp [Node.childList, hfresh]⟩
    · rw [hparent]
      obtain ⟨lister, hlister, hlisted⟩ := hwf.listed c oldChild holdChild hne
      obtain ⟨lister', hafter, -, -, hchildren⟩ := h.stored_mono hlister
      exact ⟨lister', hafter, hchildren ▸ List.mem_append_left _ hlisted⟩
  · intro i node hi
    rcases h.stored_cases hi with ⟨-, hparent, -⟩ | ⟨-, oldNode, holdNode, -, -⟩
    · exact .step hi (hparent ▸ h.reaches_mono (hwf.reaches p inner hinner))
    · exact h.reaches_mono (hwf.reaches i oldNode holdNode)

end Extends

end ListedTree

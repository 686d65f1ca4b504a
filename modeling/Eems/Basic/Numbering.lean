/-
Consecutive numbers handed out to the members of a list, and the renumbering
that relates two orders in which the same members were numbered.
-/
import Mathlib.Data.List.Perm.Basic
import Mathlib.Data.List.Nodup
import Mathlib.Logic.Equiv.Defs
import Mathlib.Tactic

universe u v

namespace Numbering

variable {A : Type u} {B : Type v}

/-- Pair the members of a list with consecutive numbers from `start` on. -/
def numberFrom (start : Int) : List A → List (Int × A)
  | [] => []
  | a :: rest => (start, a) :: numberFrom (start + 1) rest

@[simp] theorem numberFrom_nil (start : Int) : numberFrom start ([] : List A) = [] := rfl

@[simp] theorem length_numberFrom (start : Int) (list : List A) :
    (numberFrom start list).length = list.length := by
  induction list generalizing start with
  | nil => rfl
  | cons a rest ih => simp [numberFrom, ih]

@[simp] theorem map_snd_numberFrom (start : Int) (list : List A) :
    (numberFrom start list).map Prod.snd = list := by
  induction list generalizing start with
  | nil => rfl
  | cons a rest ih => simp [numberFrom, ih]

theorem numberFrom_append (start : Int) (first second : List A) :
    numberFrom start (first ++ second) =
      numberFrom start first ++ numberFrom (start + first.length) second := by
  induction first generalizing start with
  | nil => simp
  | cons a rest ih =>
      simp only [numberFrom, List.cons_append, ih, List.length_cons, Nat.cast_add, Nat.cast_one]
      rw [add_assoc start 1, add_comm (1 : Int)]

theorem numberFrom_map (start : Int) (f : A → B) (list : List A) :
    numberFrom start (list.map f) = (numberFrom start list).map fun p => (p.1, f p.2) := by
  induction list generalizing start with
  | nil => rfl
  | cons a rest ih => simp [numberFrom, ih]

theorem fst_mem_numberFrom {start : Int} {list : List A} {p : Int × A}
    (h : p ∈ numberFrom start list) : start ≤ p.1 ∧ p.1 < start + list.length := by
  induction list generalizing start with
  | nil => simp at h
  | cons a rest ih =>
      rw [List.length_cons, Nat.cast_add, Nat.cast_one]
      rcases List.mem_cons.mp h with rfl | h
      · simp only
        omega
      · have := ih h
        omega

theorem snd_mem_of_mem_numberFrom {start : Int} {list : List A} {p : Int × A}
    (h : p ∈ numberFrom start list) : p.2 ∈ list := by
  have hmem := List.mem_map_of_mem (f := Prod.snd) h
  rwa [map_snd_numberFrom] at hmem

theorem map_fst_numberFrom_nodup (start : Int) (list : List A) :
    ((numberFrom start list).map Prod.fst).Nodup := by
  induction list generalizing start with
  | nil => simp
  | cons a rest ih =>
      refine List.nodup_cons.mpr ⟨?_, ih (start + 1)⟩
      intro hmem
      obtain ⟨p, hp, heq⟩ := List.mem_map.mp hmem
      have := (fst_mem_numberFrom hp).1
      omega

theorem forall₂_numberFrom {start : Int} {list : List A} {r : Int × A → A → Prop}
    (h : ∀ p ∈ numberFrom start list, r p p.2) : List.Forall₂ r (numberFrom start list) list := by
  have hpairs : List.Forall₂ r (numberFrom start list) ((numberFrom start list).map Prod.snd) :=
    List.forall₂_map_right_iff.mpr (List.forall₂_same.mpr h)
  rwa [map_snd_numberFrom] at hpairs

theorem getElem?_numberFrom (start : Int) (list : List A) (i : Nat) :
    (numberFrom start list)[i]? = list[i]?.map fun a => (start + i, a) := by
  induction list generalizing start i with
  | nil => simp
  | cons a rest ih =>
      cases i with
      | zero => simp [numberFrom]
      | succ i =>
          simp only [numberFrom, List.getElem?_cons_succ, ih, Nat.cast_add, Nat.cast_one]
          rw [add_assoc start 1, add_comm (1 : Int)]

theorem map_numberFrom {start start' : Int} {list : List A} {f : Int → Int}
    (hf : ∀ i : Nat, i < list.length → f (start + i) = start' + i) :
    (numberFrom start list).map (fun p => (f p.1, p.2)) = numberFrom start' list := by
  induction list generalizing start start' with
  | nil => rfl
  | cons a rest ih =>
      have hhead := hf 0 (by simp)
      simp only [Nat.cast_zero, add_zero] at hhead
      rw [numberFrom, numberFrom, List.map_cons, hhead, ih]
      intro i hi
      have hnext := hf (i + 1) (by simpa using hi)
      push_cast at hnext
      rwa [add_comm (i : Int) 1, ← add_assoc, ← add_assoc] at hnext

section Places

variable {width : A → Nat}

/-- The single places of the blocks. -/
def places (width : A → Nat) (list : List A) : List (A × Nat) :=
  list.flatMap fun a => (List.range (width a)).map fun i => (a, i)

theorem mem_places {list : List A} {a : A} {i : Nat} :
    (a, i) ∈ places width list ↔ a ∈ list ∧ i < width a := by
  simp [places]

theorem places_nodup {list : List A} (hnodup : list.Nodup) : (places width list).Nodup := by
  refine List.nodup_flatMap.mpr ⟨?_, ?_⟩
  · intro a _
    exact List.nodup_range.map fun i j h => (Prod.mk.inj h).2
  · refine hnodup.imp fun {a b} hne => ?_
    intro p hleft hright
    obtain ⟨i, -, rfl⟩ := List.mem_map.mp hleft
    obtain ⟨j, -, heq⟩ := List.mem_map.mp hright
    exact hne (Prod.mk.inj heq).1.symm

theorem places_perm {left right : List A} (h : left.Perm right) :
    (places width left).Perm (places width right) := h.flatMap_right _

@[simp] theorem length_places (list : List A) :
    (places width list).length = (list.map width).sum := by
  simp [places, List.length_flatMap]

end Places

variable [DecidableEq A]

/-- The number of `a` when `list` is numbered from `start`. -/
def number (start : Int) (list : List A) (a : A) : Int := start + list.idxOf a

@[simp] theorem number_cons_self (start : Int) (a : A) (rest : List A) :
    number start (a :: rest) a = start := by
  simp [number]

theorem number_cons_of_ne {start : Int} {a b : A} {rest : List A} (h : b ≠ a) :
    number start (b :: rest) a = number (start + 1) rest a := by
  rw [number, number, List.idxOf_cons_ne _ h]
  omega

theorem number_append_left {start : Int} {first second : List A} {a : A}
    (ha : a ∈ first) : number start (first ++ second) a = number start first a := by
  simp [number, List.idxOf_append_of_mem ha]

theorem number_lt {start : Int} {list : List A} {a : A} (ha : a ∈ list) :
    start ≤ number start list a ∧ number start list a < start + list.length := by
  have := List.idxOf_lt_length_iff.mpr ha
  unfold number
  omega

theorem number_inj {start : Int} {list : List A} {a b : A} (ha : a ∈ list)
    (h : number start list a = number start list b) : a = b := by
  have hidx : list.idxOf a = list.idxOf b := by
    unfold number at h
    omega
  exact (List.idxOf_inj ha).mp hidx

/-- The member a number belongs to. -/
theorem exists_of_number_range {start n : Int} {list : List A} (hnodup : list.Nodup)
    (hlow : start ≤ n) (hhigh : n < start + list.length) :
    ∃ a ∈ list, number start list a = n := by
  have hlt : (n - start).toNat < list.length := by omega
  refine ⟨list[(n - start).toNat], List.getElem_mem hlt, ?_⟩
  rw [number, hnodup.idxOf_getElem _ hlt]
  omega

theorem number_append_right {start : Int} {first second : List A} {a : A} (ha : a ∉ first) :
    number start (first ++ second) a = number (start + first.length) second a := by
  simp [number, List.idxOf_append_of_notMem ha, add_assoc]

theorem number_map [DecidableEq B] {f : A → B} (hf : Function.Injective f) (start : Int)
    (list : List A) (a : A) : number start (list.map f) (f a) = number start list a := by
  unfold number
  congr 2
  induction list with
  | nil => rfl
  | cons b rest ih => simp [List.idxOf_cons, ih, hf.eq_iff, beq_iff_eq, Bool.cond_eq_ite]

/-- Where the block of `a` starts when the members of `list` take one block
after another, each of its own width, from `start` on. -/
def blockStart (width : A → Nat) (start : Int) (list : List A) (a : A) : Int :=
  start + ((list.takeWhile fun b => b ≠ a).map width).sum

section Blocks

variable {width : A → Nat}

@[simp] theorem blockStart_cons_self (start : Int) (a : A) (rest : List A) :
    blockStart width start (a :: rest) a = start := by
  simp [blockStart]

theorem blockStart_cons_of_ne {start : Int} {a b : A} {rest : List A} (h : b ≠ a) :
    blockStart width start (b :: rest) a = blockStart width (start + width b) rest a := by
  simp [blockStart, h, add_assoc]

theorem blockStart_append_left {start : Int} {first second : List A} {a : A} (ha : a ∈ first) :
    blockStart width start (first ++ second) a = blockStart width start first a := by
  induction first generalizing start with
  | nil => simp at ha
  | cons b rest ih =>
      by_cases h : b = a
      · simp [h]
      · have hrest : a ∈ rest := (List.mem_cons.mp ha).resolve_left (Ne.symm h)
        rw [List.cons_append, blockStart_cons_of_ne h, blockStart_cons_of_ne h, ih hrest]

theorem blockStart_append_right {start : Int} {first second : List A} {a : A}
    (ha : a ∉ first) : blockStart width start (first ++ second) a =
      blockStart width (start + (first.map width).sum) second a := by
  induction first generalizing start with
  | nil => simp
  | cons b rest ih =>
      obtain ⟨hne, hrest⟩ := not_or.mp (List.mem_cons.not.mp ha)
      rw [List.cons_append, blockStart_cons_of_ne (Ne.symm hne), ih hrest]
      simp [add_assoc]

theorem blockStart_map [DecidableEq B] {f : B → A} (hf : Function.Injective f) (start : Int)
    (list : List B) (b : B) : blockStart width start (list.map f) (f b) =
      blockStart (fun b => width (f b)) start list b := by
  simp [blockStart, List.takeWhile_map, Function.comp_def, hf.eq_iff]

/-- Numbering the blocks one after another is numbering their concatenation. -/
theorem numberFrom_flatMap {start : Int} {list : List A} (hnodup : list.Nodup)
    (block : A → List B) :
    numberFrom start (list.flatMap block) =
      list.flatMap fun a => numberFrom (blockStart (fun b => (block b).length) start list a)
        (block a) := by
  induction list generalizing start with
  | nil => rfl
  | cons a rest ih =>
      obtain ⟨hnotMem, hrest⟩ := List.nodup_cons.mp hnodup
      rw [List.flatMap_cons, numberFrom_append, ih hrest, List.flatMap_cons,
        blockStart_cons_self]
      congr 1
      apply List.flatMap_congr
      intro b hb
      rw [blockStart_cons_of_ne]
      rintro rfl
      exact hnotMem hb

/-- The number of a place is its block's start and its offset. -/
theorem number_places {start : Int} {list : List A} {a : A} {i : Nat} (ha : a ∈ list)
    (hi : i < width a) :
    number start (places width list) (a, i) = blockStart width start list a + i := by
  induction list generalizing start with
  | nil => simp at ha
  | cons b rest ih =>
      have hsplit : places width (b :: rest) =
          (List.range (width b)).map (fun i => (b, i)) ++ places width rest := rfl
      rw [hsplit]
      by_cases h : b = a
      · subst h
        have hmem : (b, i) ∈ (List.range (width b)).map fun i => (b, i) := by simpa using hi
        have hinj : Function.Injective fun i : Nat => (b, i) := fun i j hij => (Prod.mk.inj hij).2
        rw [number_append_left hmem, blockStart_cons_self]
        rw [number_map hinj]
        have hidx : (List.range (width b)).idxOf i = i := by
          have hget := (List.nodup_range (n := width b)).idxOf_getElem i (by simpa using hi)
          rwa [List.getElem_range] at hget
        rw [number, hidx]
      · have hrest : a ∈ rest := (List.mem_cons.mp ha).resolve_left (Ne.symm h)
        have hnot : (a, i) ∉ (List.range (width b)).map fun i => (b, i) := by
          simp [h]
        rw [number_append_right hnot, blockStart_cons_of_ne h]
        simpa using ih hrest

end Blocks

/-- Carry each number given in the order `source` to the number the same member
has in the order `target`; other numbers stay. -/
def renumberFun (start : Int) (source target : List A) (n : Int) : Int :=
  if n < start then n
  else match source[(n - start).toNat]? with
    | some a => number start target a
    | none => n

theorem renumberFun_number {start : Int} {source target : List A} {a : A} (ha : a ∈ source) :
    renumberFun start source target (number start source a) = number start target a := by
  have hlt := List.idxOf_lt_length_iff.mpr ha
  have hidx : ((start + (source.idxOf a : Int)) - start).toNat = source.idxOf a := by omega
  have hnot : ¬ (start + (source.idxOf a : Int) < start) := by omega
  unfold renumberFun
  rw [number, if_neg hnot, hidx, List.getElem?_eq_getElem hlt, List.getElem_idxOf hlt]

theorem renumberFun_of_notMem {start n : Int} {source target : List A}
    (h : n < start ∨ start + source.length ≤ n) : renumberFun start source target n = n := by
  unfold renumberFun
  split
  · rfl
  · have hlen : source.length ≤ (n - start).toNat := by omega
    rw [List.getElem?_eq_none hlen]

theorem renumberFun_leftInverse {start : Int} {source target : List A} (hsource : source.Nodup)
    (hperm : source.Perm target) :
    Function.LeftInverse (renumberFun start target source) (renumberFun start source target) := by
  intro n
  by_cases hrange : start ≤ n ∧ n < start + source.length
  · obtain ⟨a, ha, rfl⟩ := exists_of_number_range hsource hrange.1 hrange.2
    rw [renumberFun_number ha, renumberFun_number (hperm.subset ha)]
  · have hlen := hperm.length_eq
    have hstay : renumberFun start source target n = n :=
      renumberFun_of_notMem (by omega)
    rw [hstay, renumberFun_of_notMem (by omega)]

/-- The renumbering between two orders of the same members. -/
def renumber (start : Int) (source target : List A) (hsource : source.Nodup)
    (hperm : source.Perm target) : Equiv.Perm Int where
  toFun := renumberFun start source target
  invFun := renumberFun start target source
  left_inv := renumberFun_leftInverse hsource hperm
  right_inv := renumberFun_leftInverse (hperm.nodup_iff.mp hsource) hperm.symm

end Numbering

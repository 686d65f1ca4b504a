/-
A finite map kept as a strictly increasing list of entries.  It serves a
key-value store with cursors (seek, step back, jump to the last entry) and the
ordered associative container of a standard library alike.
-/
import Mathlib.Data.List.Sort
import Mathlib.Data.List.Lex
import Mathlib.Order.Basic

universe u v

/-- Entries in strictly increasing key order; the order is part of the value,
so no map with a repeated key can be built. -/
structure OrderedMap (K : Type u) (V : Type v) [LinearOrder K] where
  entries : List (K × V)
  sorted : entries.Pairwise fun left right => left.1 < right.1

namespace OrderedMap

variable {K : Type u} {V : Type v} [LinearOrder K]

/-- The first entry a list holds for `key`. -/
def lookupEntries (key : K) : List (K × V) → Option V
  | [] => none
  | (other, value) :: rest =>
      if other = key then some value else lookupEntries key rest

def insertEntries (key : K) (value : V) : List (K × V) → List (K × V)
  | [] => [(key, value)]
  | (other, old) :: rest =>
      if key < other then (key, value) :: (other, old) :: rest
      else if key = other then (key, value) :: rest
      else (other, old) :: insertEntries key value rest

theorem mem_insertEntries {key : K} {value : V} {list : List (K × V)}
    {entry : K × V} (hentry : entry ∈ insertEntries key value list) :
    entry = (key, value) ∨ entry ∈ list := by
  induction list with
  | nil => simpa [insertEntries] using hentry
  | cons head tail ih =>
      simp only [insertEntries] at hentry
      split at hentry
      · simpa using hentry
      · split at hentry
        · rcases List.mem_cons.mp hentry with rfl | htail
          · exact Or.inl rfl
          · exact Or.inr (List.mem_cons_of_mem head htail)
        · rcases List.mem_cons.mp hentry with rfl | htail
          · exact Or.inr List.mem_cons_self
          · exact (ih htail).imp id (List.mem_cons_of_mem head)

theorem insertEntries_sorted (key : K) (value : V) {list : List (K × V)}
    (hsorted : list.Pairwise fun left right => left.1 < right.1) :
    (insertEntries key value list).Pairwise fun left right => left.1 < right.1 := by
  induction list with
  | nil => simp [insertEntries]
  | cons head tail ih =>
      rw [List.pairwise_cons] at hsorted
      obtain ⟨hhead, htail⟩ := hsorted
      simp only [insertEntries]
      split
      · rename_i hlt
        refine List.pairwise_cons.mpr ⟨?_, List.pairwise_cons.mpr ⟨hhead, htail⟩⟩
        intro entry hentry
        rcases List.mem_cons.mp hentry with rfl | hentry
        · exact hlt
        · exact lt_trans hlt (hhead entry hentry)
      · rename_i hnot
        split
        · rename_i heq
          exact List.pairwise_cons.mpr ⟨fun entry hentry => heq ▸ hhead entry hentry, htail⟩
        · rename_i hne
          refine List.pairwise_cons.mpr ⟨?_, ih htail⟩
          intro entry hentry
          rcases mem_insertEntries hentry with rfl | hentry
          · exact lt_of_le_of_ne (not_lt.mp hnot) (Ne.symm hne)
          · exact hhead entry hentry

theorem lookupEntries_insertEntries (key other : K) (value : V)
    (list : List (K × V)) :
    lookupEntries other (insertEntries key value list) =
      if other = key then some value else lookupEntries other list := by
  induction list with
  | nil => simp [insertEntries, lookupEntries, eq_comm]
  | cons head tail ih =>
      simp only [insertEntries]
      split
      · simp [lookupEntries, eq_comm]
      · split
        · rename_i heq
          by_cases hother : other = key
          · simp [lookupEntries, hother]
          · simp [lookupEntries, hother, Ne.symm hother, ← heq]
        · rename_i hne
          simp only [lookupEntries, ih]
          by_cases hother : other = key
          · simp [hother, Ne.symm hne]
          · simp [hother]

theorem lookupEntries_eq_none_iff {key : K} {list : List (K × V)} :
    lookupEntries key list = none ↔ ∀ entry ∈ list, entry.1 ≠ key := by
  induction list with
  | nil => simp [lookupEntries]
  | cons head tail ih =>
      by_cases hhead : head.1 = key <;> simp [lookupEntries, hhead, ih]

theorem mem_of_lookupEntries {key : K} {value : V} {list : List (K × V)}
    (h : lookupEntries key list = some value) : (key, value) ∈ list := by
  induction list with
  | nil => simp [lookupEntries] at h
  | cons head tail ih =>
      by_cases hhead : head.1 = key
      · simp only [lookupEntries, hhead, ↓reduceIte, Option.some.injEq] at h
        rw [← hhead, ← h]
        exact List.mem_cons_self
      · simp only [lookupEntries, hhead, ↓reduceIte] at h
        exact List.mem_cons_of_mem head (ih h)

theorem lookupEntries_of_mem_nodup {key : K} {value : V} {list : List (K × V)}
    (hnodup : (list.map Prod.fst).Nodup) (hmem : (key, value) ∈ list) :
    lookupEntries key list = some value := by
  induction list with
  | nil => simp at hmem
  | cons head tail ih =>
      simp only [List.map_cons, List.nodup_cons] at hnodup
      rcases List.mem_cons.mp hmem with rfl | hmem
      · simp [lookupEntries]
      · have hne : head.1 ≠ key := fun h => hnodup.1 (h ▸ List.mem_map_of_mem hmem)
        simp [lookupEntries, hne, ih hnodup.2 hmem]

theorem lookupEntries_of_mem {key : K} {value : V} {list : List (K × V)}
    (hsorted : list.Pairwise fun left right => left.1 < right.1)
    (hmem : (key, value) ∈ list) : lookupEntries key list = some value :=
  lookupEntries_of_mem_nodup (List.pairwise_map.mpr (hsorted.imp ne_of_lt)) hmem

def empty : OrderedMap K V := ⟨[], List.Pairwise.nil⟩

def lookup (m : OrderedMap K V) (key : K) : Option V :=
  lookupEntries key m.entries

/-- Store `value` under `key`, replacing what was there. -/
def insert (m : OrderedMap K V) (key : K) (value : V) : OrderedMap K V :=
  ⟨insertEntries key value m.entries, insertEntries_sorted key value m.sorted⟩

/-- Store `value` under `key` unless the key is taken already. -/
def emplace (m : OrderedMap K V) (key : K) (value : V) : OrderedMap K V :=
  if (m.lookup key).isSome then m else m.insert key value

/-- Apply a batch of puts in order. -/
def write (m : OrderedMap K V) (batch : List (K × V)) : OrderedMap K V :=
  batch.foldl (fun acc put => acc.insert put.1 put.2) m

def keys (m : OrderedMap K V) : List K := m.entries.map Prod.fst

@[simp] theorem lookup_empty (key : K) :
    (empty : OrderedMap K V).lookup key = none := rfl

theorem lookup_insert (m : OrderedMap K V) (key other : K) (value : V) :
    (m.insert key value).lookup other =
      if other = key then some value else m.lookup other :=
  lookupEntries_insertEntries key other value m.entries

@[simp] theorem lookup_insert_self (m : OrderedMap K V) (key : K) (value : V) :
    (m.insert key value).lookup key = some value := by
  simp [lookup_insert]

theorem lookup_insert_of_ne (m : OrderedMap K V) {key other : K} (value : V)
    (hne : other ≠ key) : (m.insert key value).lookup other = m.lookup other := by
  simp [lookup_insert, hne]

theorem mem_entries_iff (m : OrderedMap K V) {key : K} {value : V} :
    (key, value) ∈ m.entries ↔ m.lookup key = some value :=
  ⟨lookupEntries_of_mem m.sorted, mem_of_lookupEntries⟩

theorem mem_keys_iff (m : OrderedMap K V) {key : K} :
    key ∈ m.keys ↔ (m.lookup key).isSome := by
  simp only [keys, List.mem_map, Option.isSome_iff_exists]
  constructor
  · rintro ⟨⟨found, value⟩, hentry, rfl⟩
    exact ⟨value, m.mem_entries_iff.mp hentry⟩
  · rintro ⟨value, hvalue⟩
    exact ⟨(key, value), m.mem_entries_iff.mpr hvalue, rfl⟩

theorem entries_nodup (m : OrderedMap K V) : m.entries.Nodup :=
  m.sorted.imp fun {left right} hlt (heq : left = right) => by simp [heq] at hlt

theorem keys_nodup (m : OrderedMap K V) : m.keys.Nodup := by
  rw [keys, List.Nodup, List.pairwise_map]
  exact m.sorted.imp fun hlt => ne_of_lt hlt

/-- Maps that answer every lookup alike are equal. -/
@[ext] theorem ext {left right : OrderedMap K V}
    (h : ∀ key, left.lookup key = right.lookup key) : left = right := by
  have hperm : left.entries.Perm right.entries := by
    rw [List.perm_ext_iff_of_nodup left.entries_nodup right.entries_nodup]
    rintro ⟨key, value⟩
    rw [mem_entries_iff, mem_entries_iff, h key]
  have heq : left.entries = right.entries :=
    hperm.eq_of_pairwise
      (fun a b _ _ hab hba => absurd (lt_trans hab hba) (lt_irrefl _))
      left.sorted right.sorted
  cases left
  cases right
  simpa using heq

@[simp] theorem write_nil (m : OrderedMap K V) : m.write [] = m := rfl

@[simp] theorem write_cons (m : OrderedMap K V) (put : K × V) (batch : List (K × V)) :
    m.write (put :: batch) = (m.insert put.1 put.2).write batch := rfl

theorem write_append (m : OrderedMap K V) (first second : List (K × V)) :
    m.write (first ++ second) = (m.write first).write second := by
  simp [write, List.foldl_append]

theorem lookup_write_of_notMem (m : OrderedMap K V) {batch : List (K × V)} {key : K}
    (hkey : key ∉ batch.map Prod.fst) : (m.write batch).lookup key = m.lookup key := by
  induction batch generalizing m with
  | nil => rfl
  | cons put rest ih =>
      simp only [List.map_cons, List.mem_cons, not_or] at hkey
      rw [write_cons, ih _ hkey.2, lookup_insert_of_ne _ _ hkey.1]

/-- Of several puts under one key the last one counts, unless all are alike. -/
theorem lookup_write_of_alike (m : OrderedMap K V) {batch : List (K × V)} {key : K} {value : V}
    (hput : (key, value) ∈ batch) (halike : ∀ other, (key, other) ∈ batch → other = value) :
    (m.write batch).lookup key = some value := by
  induction batch generalizing m with
  | nil => simp at hput
  | cons put rest ih =>
      have hrest : ∀ other, (key, other) ∈ rest → other = value := fun other hother =>
        halike other (List.mem_cons_of_mem put hother)
      by_cases hlater : key ∈ rest.map Prod.fst
      · obtain ⟨⟨_, other⟩, hother, rfl⟩ := List.mem_map.mp hlater
        exact ih _ (hrest other hother ▸ hother) hrest
      · rcases List.mem_cons.mp hput with rfl | hput
        · rw [write_cons, lookup_write_of_notMem _ hlater, lookup_insert_self]
        · exact absurd (List.mem_map_of_mem (f := Prod.fst) hput) hlater

theorem lookup_write_of_mem (m : OrderedMap K V) {batch : List (K × V)} {key : K}
    {value : V} (hnodup : (batch.map Prod.fst).Nodup) (hput : (key, value) ∈ batch) :
    (m.write batch).lookup key = some value :=
  m.lookup_write_of_alike hput fun _ hother =>
    (Prod.ext_iff.mp (List.inj_on_of_nodup_map hnodup hother hput rfl)).2

/-- A map is written by its own entries. -/
theorem write_entries (m : OrderedMap K V) : empty.write m.entries = m := by
  ext key
  cases hkey : m.lookup key with
  | none =>
      rw [lookup_write_of_notMem, lookup_empty]
      intro hmem
      simpa [hkey] using m.mem_keys_iff.mp hmem
  | some value =>
      rw [lookup_write_of_mem empty m.keys_nodup (m.mem_entries_iff.mpr hkey)]

/-- What is read after a batch was put by it or was there before. -/
theorem mem_or_lookup_of_write (m : OrderedMap K V) {batch : List (K × V)} {key : K}
    {value : V} (h : (m.write batch).lookup key = some value) :
    (key, value) ∈ batch ∨ m.lookup key = some value := by
  induction batch generalizing m with
  | nil => exact Or.inr h
  | cons put rest ih =>
      rcases ih (m.insert put.1 put.2) h with hmem | hlookup
      · exact Or.inl (List.mem_cons_of_mem put hmem)
      · rw [lookup_insert] at hlookup
        split at hlookup
        · rename_i heq
          obtain rfl := Option.some.inj hlookup
          exact Or.inl (heq ▸ List.mem_cons_self)
        · exact Or.inr hlookup

theorem lookup_emplace_of_none (m : OrderedMap K V) {key : K} (value : V)
    (hnone : m.lookup key = none) (other : K) :
    (m.emplace key value).lookup other =
      if other = key then some value else m.lookup other := by
  simp [emplace, hnone, lookup_insert]

/-- Emplacing a list whose keys are distinct and new. -/
theorem lookup_foldl_emplace (list : List (K × V)) (m : OrderedMap K V)
    (hnodup : (list.map Prod.fst).Nodup)
    (hnew : ∀ entry ∈ list, m.lookup entry.1 = none) (key : K) :
    (list.foldl (fun acc entry => acc.emplace entry.1 entry.2) m).lookup key =
      (lookupEntries key list).or (m.lookup key) := by
  induction list generalizing m with
  | nil => simp [lookupEntries]
  | cons head tail ih =>
      simp only [List.map_cons, List.nodup_cons, List.mem_map, not_exists, not_and] at hnodup
      have hhead := hnew head List.mem_cons_self
      rw [List.foldl_cons, ih _ hnodup.2]
      · rw [lookup_emplace_of_none _ _ hhead]
        by_cases hkey : key = head.1
        · subst hkey
          have htail : lookupEntries head.1 tail = none :=
            lookupEntries_eq_none_iff.mpr fun entry hentry => hnodup.1 entry hentry
          simp [lookupEntries, htail]
        · simp [lookupEntries, hkey, Ne.symm hkey]
      · intro entry hentry
        rw [lookup_emplace_of_none _ _ hhead, if_neg (hnodup.1 entry hentry)]
        exact hnew entry (List.mem_cons_of_mem head hentry)

/-- The entries from the first key not less than `key` on. -/
def lowerBound (m : OrderedMap K V) (key : K) : List (K × V) :=
  m.entries.dropWhile fun entry => entry.1 < key

/-- A position between entries: those passed, nearest first, and those from
the current one on. -/
structure Cursor (K : Type u) (V : Type v) where
  passed : List (K × V)
  ahead : List (K × V)

def Cursor.current? (cursor : Cursor K V) : Option (K × V) := cursor.ahead.head?

def Cursor.valid (cursor : Cursor K V) : Bool := cursor.current?.isSome

def Cursor.prev (cursor : Cursor K V) : Cursor K V :=
  match cursor.passed with
  | [] => ⟨[], []⟩
  | entry :: before => ⟨before, entry :: cursor.ahead⟩

/-- Position at the first entry whose key is not less than `key`. -/
def seek (m : OrderedMap K V) (key : K) : Cursor K V :=
  ⟨(m.entries.takeWhile fun entry => entry.1 < key).reverse, m.lowerBound key⟩

def seekToLast (m : OrderedMap K V) : Cursor K V :=
  match m.entries.reverse with
  | [] => ⟨[], []⟩
  | entry :: before => ⟨before, [entry]⟩

theorem head?_dropWhile_lt (list : List (K × V)) (key : K)
    (hsorted : list.Pairwise fun left right => left.1 < right.1) :
    ((list.dropWhile fun entry => entry.1 < key).head?.bind fun entry =>
      if entry.1 = key then some entry.2 else none) = lookupEntries key list := by
  induction list with
  | nil => rfl
  | cons head tail ih =>
      obtain ⟨hhead, htail⟩ := List.pairwise_cons.mp hsorted
      by_cases hlt : head.1 < key
      · simp only [List.dropWhile_cons, hlt, decide_true, ↓reduceIte, lookupEntries,
          ne_of_lt hlt]
        exact ih htail
      · by_cases heq : head.1 = key
        · simp [lookupEntries, heq]
        · have hgt : key < head.1 := lt_of_le_of_ne (not_lt.mp hlt) (Ne.symm heq)
          have hnone : lookupEntries key tail = none :=
            lookupEntries_eq_none_iff.mpr fun entry hentry =>
              (ne_of_lt (lt_trans hgt (hhead entry hentry))).symm
          simp [hlt, lookupEntries, heq, hnone]

/-- Seek `key` and accept only the very key sought. -/
def seekExact (m : OrderedMap K V) (key : K) : Option V :=
  (m.seek key).current?.bind fun entry => if entry.1 = key then some entry.2 else none

/-- Seeking a key and comparing the key found is a lookup. -/
theorem seekExact_eq_lookup (m : OrderedMap K V) (key : K) :
    m.seekExact key = m.lookup key :=
  head?_dropWhile_lt m.entries key m.sorted

/-- Seek `key`, then step to the entry before it: the previous one from a
valid position, the last one from past the end. -/
def seekBefore (m : OrderedMap K V) (key : K) : Cursor K V :=
  let cursor := m.seek key
  if cursor.valid then cursor.prev else m.seekToLast

theorem seekBefore_current? (m : OrderedMap K V) (key : K) :
    (m.seekBefore key).current? =
      (m.entries.takeWhile fun entry => entry.1 < key).getLast? := by
  by_cases hvalid : (m.seek key).valid = true
  · have hprev : m.seekBefore key = (m.seek key).prev := by simp [seekBefore, hvalid]
    rw [hprev, ← List.head?_reverse]
    simp only [Cursor.prev, seek, Cursor.current?]
    cases (m.entries.takeWhile fun entry => entry.1 < key).reverse <;> rfl
  · have hend : m.lowerBound key = [] := by
      simpa [Cursor.valid, Cursor.current?, seek] using hvalid
    have hall : (m.entries.takeWhile fun entry => entry.1 < key) = m.entries := by
      have hsplit := List.takeWhile_append_dropWhile
        (p := fun entry : K × V => decide (entry.1 < key)) (l := m.entries)
      rw [show m.entries.dropWhile _ = [] from hend, List.append_nil] at hsplit
      exact hsplit
    have hlast : m.seekBefore key = m.seekToLast := by simp [seekBefore, hvalid]
    rw [hlast, hall, ← List.head?_reverse]
    simp only [seekToLast, Cursor.current?]
    cases m.entries.reverse <;> rfl

theorem takeWhile_lt_eq_filter (list : List (K × V)) (key : K)
    (hsorted : list.Pairwise fun left right => left.1 < right.1) :
    (list.takeWhile fun entry => entry.1 < key) = list.filter fun entry => entry.1 < key := by
  induction list with
  | nil => rfl
  | cons head tail ih =>
      obtain ⟨hhead, htail⟩ := List.pairwise_cons.mp hsorted
      by_cases hlt : head.1 < key
      · simp [hlt, ih htail]
      · have hnone : tail.filter (fun entry => entry.1 < key) = [] := by
          rw [List.filter_eq_nil_iff]
          intro entry hentry
          simpa using le_of_lt (lt_of_le_of_lt (not_lt.mp hlt) (hhead entry hentry))
        simp [hlt, hnone]

/-- What lies before `key` is its greatest predecessor among the stored keys. -/
theorem seekBefore_current?_eq_some {m : OrderedMap K V} {key : K} {entry : K × V}
    (h : (m.seekBefore key).current? = some entry) :
    entry ∈ m.entries ∧ entry.1 < key ∧
      ∀ other ∈ m.entries, other.1 < key → other.1 ≤ entry.1 := by
  rw [seekBefore_current?, takeWhile_lt_eq_filter _ _ m.sorted] at h
  have hmem := List.mem_of_getLast? h
  simp only [List.mem_filter, decide_eq_true_eq] at hmem
  refine ⟨hmem.1, hmem.2, ?_⟩
  intro other hother hlt
  obtain ⟨before, hsplit⟩ := List.getLast?_eq_some_iff.mp h
  have hin : other ∈ m.entries.filter fun entry => entry.1 < key := by
    simp [hother, hlt]
  have hsorted := m.sorted.filter fun entry => decide (entry.1 < key)
  rw [hsplit] at hin hsorted
  rcases List.mem_append.mp hin with hbefore | hlast
  · exact le_of_lt ((List.pairwise_append.mp hsorted).2.2 other hbefore entry (by simp))
  · exact le_of_eq (by simp_all)

theorem seekBefore_current?_eq_none {m : OrderedMap K V} {key : K}
    (h : (m.seekBefore key).current? = none) : ∀ other ∈ m.entries, key ≤ other.1 := by
  rw [seekBefore_current?, takeWhile_lt_eq_filter _ _ m.sorted] at h
  intro other hother
  have hnil := List.getLast?_eq_none_iff.mp h
  simpa using List.filter_eq_nil_iff.mp hnil other hother

end OrderedMap

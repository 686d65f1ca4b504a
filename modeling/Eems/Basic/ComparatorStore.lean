/-
A store that is sorted by a comparator of raw keys, and the ordered map of the
values which those raw keys encode.
-/
import Eems.Basic.OrderedMap
import Mathlib.Tactic

universe u v w

/-- The laws of a comparator on a set of raw keys. -/
structure IsComparatorOn {R : Type w} (compare : R → R → Int) (keys : Set R) : Prop where
  refl : ∀ a ∈ keys, compare a a = 0
  swap : ∀ a ∈ keys, ∀ b ∈ keys, (compare b a).sign = -(compare a b).sign
  total : ∀ a ∈ keys, ∀ b ∈ keys, compare a b ≤ 0 ∨ compare b a ≤ 0
  antisymm : ∀ a ∈ keys, ∀ b ∈ keys, compare a b ≤ 0 → compare b a ≤ 0 → a = b
  trans : ∀ a ∈ keys, ∀ b ∈ keys, ∀ c ∈ keys,
    compare a b ≤ 0 → compare b c ≤ 0 → compare a c ≤ 0
  eq_zero_iff : ∀ a ∈ keys, ∀ b ∈ keys, compare a b = 0 ↔ a = b

/-- Raw keys for the valid values of an ordered type, and a comparator that
follows the order. -/
structure KeyEncoding (K : Type u) (R : Type w) [LinearOrder K] where
  encode : K → R
  compare : R → R → Int
  Valid : K → Prop
  compare_neg_iff : ∀ {left right}, Valid left → Valid right →
    (compare (encode left) (encode right) < 0 ↔ left < right)
  compare_eq_zero_iff : ∀ {left right}, Valid left → Valid right →
    (compare (encode left) (encode right) = 0 ↔ left = right)

namespace KeyEncoding

variable {K : Type u} {R : Type w} [LinearOrder K] (encoding : KeyEncoding K R)

/-- The raw keys in use. -/
def rawKeys : Set R := {raw | ∃ key, encoding.Valid key ∧ encoding.encode key = raw}

variable {encoding} {left right : K} (hleft : encoding.Valid left) (hright : encoding.Valid right)

include hleft hright

theorem compare_nonpos_iff :
    encoding.compare (encoding.encode left) (encoding.encode right) ≤ 0 ↔ left ≤ right := by
  rw [le_iff_lt_or_eq, le_iff_lt_or_eq, encoding.compare_neg_iff hleft hright,
    encoding.compare_eq_zero_iff hleft hright]

/-- Equal raw keys compare as equal, so the encoding loses nothing. -/
theorem encode_eq_iff : encoding.encode left = encoding.encode right ↔ left = right := by
  constructor
  · intro heq
    apply (encoding.compare_eq_zero_iff hleft hright).mp
    rw [← heq]
    exact (encoding.compare_eq_zero_iff hleft hleft).mpr rfl
  · intro heq
    rw [heq]

theorem sign_compare_swap :
    (encoding.compare (encoding.encode right) (encoding.encode left)).sign =
      -(encoding.compare (encoding.encode left) (encoding.encode right)).sign := by
  have hneg := encoding.compare_neg_iff hleft hright
  have hzero := encoding.compare_eq_zero_iff hleft hright
  have hneg' := encoding.compare_neg_iff hright hleft
  have hzero' := encoding.compare_eq_zero_iff hright hleft
  rcases lt_trichotomy left right with hlt | heq | hgt
  · have hback : 0 < encoding.compare (encoding.encode right) (encoding.encode left) := by
      apply lt_of_le_of_ne (not_lt.mp fun h => absurd (hneg'.mp h) (not_lt.mpr hlt.le))
      exact fun h => absurd (hzero'.mp h.symm) (ne_of_gt hlt)
    rw [Int.sign_eq_one_of_pos hback, Int.sign_eq_neg_one_of_neg (hneg.mpr hlt), neg_neg]
  · rw [hzero.mpr heq, hzero'.mpr heq.symm, Int.sign_zero, neg_zero]
  · have hback : 0 < encoding.compare (encoding.encode left) (encoding.encode right) := by
      apply lt_of_le_of_ne (not_lt.mp fun h => absurd (hneg.mp h) (not_lt.mpr hgt.le))
      exact fun h => absurd (hzero.mp h.symm) (ne_of_gt hgt)
    rw [Int.sign_eq_one_of_pos hback, Int.sign_eq_neg_one_of_neg (hneg'.mpr hgt)]

omit hleft hright

/-- A comparator that follows an order is one. -/
theorem isComparatorOn (encoding : KeyEncoding K R) :
    IsComparatorOn encoding.compare encoding.rawKeys where
  refl := by
    rintro _ ⟨key, hkey, rfl⟩
    exact (encoding.compare_eq_zero_iff hkey hkey).mpr rfl
  swap := by
    rintro _ ⟨left, hleft, rfl⟩ _ ⟨right, hright, rfl⟩
    exact sign_compare_swap hleft hright
  total := by
    rintro _ ⟨left, hleft, rfl⟩ _ ⟨right, hright, rfl⟩
    rw [compare_nonpos_iff hleft hright, compare_nonpos_iff hright hleft]
    exact le_total left right
  antisymm := by
    rintro _ ⟨left, hleft, rfl⟩ _ ⟨right, hright, rfl⟩ hle hge
    have hle := (compare_nonpos_iff hleft hright).mp hle
    have hge := (compare_nonpos_iff hright hleft).mp hge
    rw [le_antisymm hle hge]
  trans := by
    rintro _ ⟨first, hfirst, rfl⟩ _ ⟨second, hsecond, rfl⟩ _ ⟨third, hthird, rfl⟩ hle hle'
    have hle := (compare_nonpos_iff hfirst hsecond).mp hle
    have hle' := (compare_nonpos_iff hsecond hthird).mp hle'
    exact (compare_nonpos_iff hfirst hthird).mpr (hle.trans hle')
  eq_zero_iff := by
    rintro _ ⟨left, hleft, rfl⟩ _ ⟨right, hright, rfl⟩
    rw [encoding.compare_eq_zero_iff hleft hright, encode_eq_iff hleft hright]

end KeyEncoding

/-- A store as the comparator keeps it, under raw keys in use. -/
structure ComparatorStore {K : Type u} {R : Type w} [LinearOrder K] (encoding : KeyEncoding K R)
    (V : Type v) where
  entries : List (R × V)
  sorted : entries.Pairwise fun left right => encoding.compare left.1 right.1 < 0
  encoded : ∀ entry ∈ entries, entry.1 ∈ encoding.rawKeys

namespace ComparatorStore

variable {K : Type u} {R : Type w} {V : Type v} [LinearOrder K] {encoding : KeyEncoding K R}

def empty : ComparatorStore encoding V := ⟨[], List.Pairwise.nil, by simp⟩

section Operations

variable (store : ComparatorStore encoding V)

/-- Position at the first entry whose key is not less than `raw` under the
comparator. -/
def seek (raw : R) : OrderedMap.Cursor R V :=
  ⟨(store.entries.takeWhile fun entry => encoding.compare entry.1 raw < 0).reverse,
    store.entries.dropWhile fun entry => encoding.compare entry.1 raw < 0⟩

def seekToLast : OrderedMap.Cursor R V :=
  match store.entries.reverse with
  | [] => ⟨[], []⟩
  | entry :: before => ⟨before, [entry]⟩

/-- Seek `raw`, and accept the entry found if its raw key is the same. -/
def seekEqual [DecidableEq R] (raw : R) : Option V :=
  (store.seek raw).current?.bind fun entry => if entry.1 = raw then some entry.2 else none

end Operations

variable {store : ComparatorStore encoding V} {m : OrderedMap K V}

/-- An entry under its raw key. -/
def encodeEntry (encoding : KeyEncoding K R) (entry : K × V) : R × V :=
  (encoding.encode entry.1, entry.2)

/-- The store holds the entries of the map, under their raw keys. -/
structure Holds (store : ComparatorStore encoding V) (m : OrderedMap K V) : Prop where
  entries : store.entries = m.entries.map (encodeEntry encoding)
  valid : ∀ entry ∈ m.entries, encoding.Valid entry.1

theorem holds_empty : (empty : ComparatorStore encoding V).Holds OrderedMap.empty :=
  ⟨rfl, by simp [OrderedMap.empty]⟩

theorem exists_holds (store : ComparatorStore encoding V) : ∃ m, store.Holds m := by
  obtain ⟨entries, sorted, encoded⟩ := store
  induction entries with
  | nil => exact ⟨OrderedMap.empty, holds_empty⟩
  | cons head tail ih =>
      obtain ⟨hhead, htail⟩ := List.pairwise_cons.mp sorted
      obtain ⟨m, hentries, hvalid⟩ := ih htail fun entry hentry =>
        encoded entry (List.mem_cons_of_mem head hentry)
      obtain ⟨key, hkey, hraw⟩ := encoded head List.mem_cons_self
      have hless : ∀ entry ∈ m.entries, key < entry.1 := by
        intro entry hentry
        apply (encoding.compare_neg_iff hkey (hvalid entry hentry)).mp
        rw [hraw]
        have hmem : encodeEntry encoding entry ∈ tail := by
          rw [show tail = _ from hentries]
          exact List.mem_map_of_mem hentry
        exact hhead _ hmem
      refine ⟨⟨(key, head.2) :: m.entries, List.pairwise_cons.mpr ⟨hless, m.sorted⟩⟩, ?_, ?_⟩
      · rw [List.map_cons, ← hentries, encodeEntry, hraw]
      · intro entry hentry
        rcases List.mem_cons.mp hentry with rfl | hentry
        · exact hkey
        · exact hvalid entry hentry

theorem takeWhile_dropWhile_congr {A : Type u} {p q : A → Bool} {list : List A}
    (h : ∀ a ∈ list, p a = q a) :
    list.takeWhile p = list.takeWhile q ∧ list.dropWhile p = list.dropWhile q := by
  induction list with
  | nil => exact ⟨rfl, rfl⟩
  | cons head tail ih =>
      obtain ⟨hhead, htail⟩ := List.forall_mem_cons.mp h
      obtain ⟨htake, hdrop⟩ := ih htail
      rw [List.takeWhile_cons, List.takeWhile_cons, List.dropWhile_cons, List.dropWhile_cons,
        hhead, htake, hdrop]
      exact ⟨rfl, rfl⟩

namespace Holds

/-- A cursor over the map, seen in the store. -/
def encodeCursor (encoding : KeyEncoding K R) (cursor : OrderedMap.Cursor K V) :
    OrderedMap.Cursor R V :=
  ⟨cursor.passed.map (encodeEntry encoding), cursor.ahead.map (encodeEntry encoding)⟩

@[simp] theorem current?_encodeCursor (cursor : OrderedMap.Cursor K V) :
    (encodeCursor encoding cursor).current? = cursor.current?.map (encodeEntry encoding) := by
  simp [OrderedMap.Cursor.current?, encodeCursor]

@[simp] theorem valid_encodeCursor (cursor : OrderedMap.Cursor K V) :
    (encodeCursor encoding cursor).valid = cursor.valid := by
  simp [OrderedMap.Cursor.valid]

@[simp] theorem prev_encodeCursor (cursor : OrderedMap.Cursor K V) :
    (encodeCursor encoding cursor).prev = encodeCursor encoding cursor.prev := by
  obtain ⟨passed, ahead⟩ := cursor
  cases passed <;> rfl

variable (h : store.Holds m)

include h

/-- Seeking an encoded key goes where the map's seek goes. -/
theorem seek_encode {key : K} (hkey : encoding.Valid key) :
    store.seek (encoding.encode key) = encodeCursor encoding (m.seek key) := by
  have hless : ∀ entry ∈ m.entries,
      decide (encoding.compare (encodeEntry encoding entry).1 (encoding.encode key) < 0) =
        decide (entry.1 < key) := by
    intro entry hentry
    apply decide_eq_decide.mpr
    exact encoding.compare_neg_iff (h.valid entry hentry) hkey
  obtain ⟨htake, hdrop⟩ := takeWhile_dropWhile_congr hless
  simp only [seek, h.entries, List.takeWhile_map, List.dropWhile_map, Function.comp_def, htake,
    hdrop, OrderedMap.seek, OrderedMap.lowerBound, encodeCursor, List.map_reverse]

theorem seekToLast_encode : store.seekToLast = encodeCursor encoding m.seekToLast := by
  simp only [seekToLast, OrderedMap.seekToLast, h.entries, ← List.map_reverse]
  cases m.entries.reverse <;> rfl

/-- Comparing raw keys after a seek accepts what comparing keys accepts. -/
theorem seekEqual_encode [DecidableEq R] {key : K} (hkey : encoding.Valid key) :
    store.seekEqual (encoding.encode key) = m.seekExact key := by
  rw [seekEqual, h.seek_encode hkey, current?_encodeCursor, OrderedMap.seekExact]
  cases hfound : (m.seek key).current? with
  | none => rfl
  | some entry =>
      have hmem : entry ∈ m.entries :=
        (List.dropWhile_sublist _).subset (List.mem_of_mem_head? hfound)
      simp only [Option.map_some, Option.bind_some, encodeEntry,
        KeyEncoding.encode_eq_iff (h.valid entry hmem) hkey]

/-- What is stored under a raw key is what the map has under the key. -/
theorem mem_entries_iff {key : K} (hkey : encoding.Valid key) {value : V} :
    (encoding.encode key, value) ∈ store.entries ↔ m.lookup key = some value := by
  rw [h.entries, List.mem_map, ← m.mem_entries_iff]
  constructor
  · rintro ⟨⟨other, found⟩, hmem, heq⟩
    obtain ⟨hraw, rfl⟩ := Prod.mk.inj heq
    rwa [← (KeyEncoding.encode_eq_iff (h.valid _ hmem) hkey).mp hraw]
  · intro hmem
    exact ⟨(key, value), hmem, rfl⟩

end Holds

/-- Seeking a key and comparing raw keys finds what is stored under the key. -/
theorem seekEqual_eq_some_iff [DecidableEq R] (store : ComparatorStore encoding V) {key : K}
    (hkey : encoding.Valid key) {value : V} :
    store.seekEqual (encoding.encode key) = some value ↔
      (encoding.encode key, value) ∈ store.entries := by
  obtain ⟨m, h⟩ := store.exists_holds
  rw [h.seekEqual_encode hkey, OrderedMap.seekExact_eq_lookup, h.mem_entries_iff hkey]

section Writes

/-- Put an entry where the comparator wants it, in place of one that compares
as equal. -/
def putEntries (encoding : KeyEncoding K R) (raw : R) (value : V) : List (R × V) → List (R × V)
  | [] => [(raw, value)]
  | (other, old) :: rest =>
      if encoding.compare raw other < 0 then (raw, value) :: (other, old) :: rest
      else if encoding.compare raw other = 0 then (raw, value) :: rest
      else (other, old) :: putEntries encoding raw value rest

theorem putEntries_encode {key : K} (hkey : encoding.Valid key) (value : V)
    {list : List (K × V)} (hlist : ∀ entry ∈ list, encoding.Valid entry.1) :
    putEntries encoding (encoding.encode key) value (list.map (encodeEntry encoding)) =
      (OrderedMap.insertEntries key value list).map (encodeEntry encoding) := by
  induction list with
  | nil => rfl
  | cons head tail ih =>
      obtain ⟨hhead, htail⟩ := List.forall_mem_cons.mp hlist
      simp only [List.map_cons, encodeEntry, putEntries, OrderedMap.insertEntries,
        encoding.compare_neg_iff hkey hhead, encoding.compare_eq_zero_iff hkey hhead]
      split
      · rfl
      · split
        · rfl
        · rw [List.map_cons, ← ih htail]
          rfl

theorem Holds.putEntries {key : K} (h : store.Holds m) (hkey : encoding.Valid key) (value : V) :
    putEntries encoding (encoding.encode key) value store.entries =
      (m.insert key value).entries.map (encodeEntry encoding) := by
  rw [h.entries]
  exact putEntries_encode hkey value h.valid

theorem Holds.valid_insert {key : K} (h : store.Holds m) (hkey : encoding.Valid key) (value : V) :
    ∀ entry ∈ (m.insert key value).entries, encoding.Valid entry.1 := by
  intro entry hentry
  rcases OrderedMap.mem_insertEntries hentry with rfl | hentry
  · exact hkey
  · exact h.valid entry hentry

def put (store : ComparatorStore encoding V) {key : K} (hkey : encoding.Valid key) (value : V) :
    ComparatorStore encoding V where
  entries := putEntries encoding (encoding.encode key) value store.entries
  sorted := by
    obtain ⟨m, h⟩ := store.exists_holds
    rw [h.putEntries hkey, List.pairwise_map]
    refine (m.insert key value).sorted.imp_of_mem fun {left right} hleft hright hlt => ?_
    exact (encoding.compare_neg_iff (h.valid_insert hkey value _ hleft)
      (h.valid_insert hkey value _ hright)).mpr hlt
  encoded := by
    obtain ⟨m, h⟩ := store.exists_holds
    intro entry hentry
    rw [h.putEntries hkey] at hentry
    obtain ⟨found, hfound, rfl⟩ := List.mem_map.mp hentry
    exact ⟨found.1, h.valid_insert hkey value found hfound, rfl⟩

/-- Apply a batch of puts in order. -/
def write (store : ComparatorStore encoding V) :
    (batch : List (K × V)) → (∀ entry ∈ batch, encoding.Valid entry.1) →
      ComparatorStore encoding V
  | [], _ => store
  | (_, value) :: rest, hbatch =>
      (store.put (List.forall_mem_cons.mp hbatch).1 value).write rest
        (List.forall_mem_cons.mp hbatch).2

theorem Holds.put {key : K} (h : store.Holds m) (hkey : encoding.Valid key) (value : V) :
    (store.put hkey value).Holds (m.insert key value) :=
  ⟨h.putEntries hkey value, h.valid_insert hkey value⟩

/-- Writes go through to the map. -/
theorem Holds.write {batch : List (K × V)} (h : store.Holds m)
    (hbatch : ∀ entry ∈ batch, encoding.Valid entry.1) :
    (store.write batch hbatch).Holds (m.write batch) := by
  induction batch generalizing store m with
  | nil => exact h
  | cons entry rest ih =>
      obtain ⟨hhead, hrest⟩ := List.forall_mem_cons.mp hbatch
      exact ih (h.put hhead entry.2) hrest

end Writes

end ComparatorStore

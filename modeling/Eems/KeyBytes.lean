/-
Library keys as FlatBuffers bytes, and the database comparator on them.
-/
import Eems.Basic.ComparatorStore
import Eems.Basic.Numeral
import Eems.Schema

namespace Eems

/-- The FlatBuffers code behind a `LibraryKey` buffer: the builder, and the
accessors, which read back what was built. -/
class KeyFormat where
  createLibraryKey : KeyUnion → Int64 → Bytes
  keyType : Bytes → Nat
  keyAs : KeyUnion → Bytes → Int64
  keyType_create : ∀ type id, keyType (createLibraryKey type id) = type.underlying
  keyAs_create : ∀ type id, keyAs type (createLibraryKey type id) = id

section Layout

open Numeral

/-- The scalar of some width at a position of a buffer. -/
def scalarAt (width position : Nat) (raw : Bytes) : Nat :=
  readLittleEndian ((raw.drop position).take width)

theorem scalarAt_append_left {width position : Nat} {front : Bytes} (rest : Bytes)
    (h : position + width ≤ front.length) :
    scalarAt width position (front ++ rest) = scalarAt width position front := by
  rw [scalarAt, scalarAt, List.drop_append_of_le_length (by omega), List.take_append_of_le_length]
  rw [List.length_drop]
  omega

theorem scalarAt_append_right (width : Nat) (front rest : Bytes) :
    scalarAt width front.length (front ++ rest) = readLittleEndian (rest.take width) := by
  rw [scalarAt, List.drop_left]

/-- The position of a table's field, 0 if the table leaves it out: the vtable
lies before the table and has the offsets of the fields within the table. -/
def fieldPosition (slot : Nat) (raw : Bytes) : Nat :=
  let table := scalarAt 4 0 raw
  let vtable := table - scalarAt 4 table raw
  if scalarAt 2 vtable raw ≤ slot ∨ scalarAt 2 (vtable + slot) raw = 0 then 0
  else table + scalarAt 2 (vtable + slot) raw

/-- The buffer of a `LibraryKey` up to the key itself: the offset of the table,
the vtable, and the table with the key's type and offset. -/
def libraryKeyTable (type : KeyUnion) : Bytes :=
  [12, 0, 0, 0, 8, 0, 12, 0, 7, 0, 8, 0, 8, 0, 0, 0, 0, 0, 0, type.underlying.toUInt8, 4, 0, 0, 0]

def libraryKeyBuffer (type : KeyUnion) (id : Int64) : Bytes :=
  libraryKeyTable type ++ littleEndian 8 id.toUInt64.toNat

/-- `key_type`, which is `NONE` by default. -/
def keyTypeOf (raw : Bytes) : Nat :=
  if fieldPosition 4 raw = 0 then 0 else scalarAt 1 (fieldPosition 4 raw) raw

/-- The id of the struct which `key` refers to. -/
def keyIdOf (raw : Bytes) : Int64 :=
  let reference := fieldPosition 6 raw
  (UInt64.ofNat (scalarAt 8 (reference + scalarAt 4 reference raw) raw)).toInt64

theorem length_libraryKeyTable (type : KeyUnion) : (libraryKeyTable type).length = 24 := rfl

theorem scalarAt_libraryKeyBuffer {width position : Nat} (type : KeyUnion) (id : Int64)
    (h : position + width ≤ 24) :
    scalarAt width position (libraryKeyBuffer type id) =
      scalarAt width position (libraryKeyTable type) :=
  scalarAt_append_left _ h

theorem fieldPosition_libraryKeyBuffer (type : KeyUnion) (id : Int64) :
    fieldPosition 4 (libraryKeyBuffer type id) = 19 ∧
      fieldPosition 6 (libraryKeyBuffer type id) = 20 := by
  have htable : scalarAt 4 0 (libraryKeyBuffer type id) = 12 :=
    scalarAt_libraryKeyBuffer type id (by decide)
  have hback : scalarAt 4 12 (libraryKeyBuffer type id) = 8 :=
    scalarAt_libraryKeyBuffer type id (by decide)
  have hsize : scalarAt 2 4 (libraryKeyBuffer type id) = 8 :=
    scalarAt_libraryKeyBuffer type id (by decide)
  have htype : scalarAt 2 8 (libraryKeyBuffer type id) = 7 :=
    scalarAt_libraryKeyBuffer type id (by decide)
  have hkey : scalarAt 2 10 (libraryKeyBuffer type id) = 8 :=
    scalarAt_libraryKeyBuffer type id (by decide)
  simp [fieldPosition, htable, hback, hsize, htype, hkey]

theorem keyTypeOf_libraryKeyBuffer (type : KeyUnion) (id : Int64) :
    keyTypeOf (libraryKeyBuffer type id) = type.underlying := by
  have hvalue := @scalarAt_libraryKeyBuffer 1 19 type id (by decide)
  rw [keyTypeOf, (fieldPosition_libraryKeyBuffer type id).1, if_neg (by decide), hvalue]
  cases type <;> decide

theorem keyIdOf_libraryKeyBuffer (type : KeyUnion) (id : Int64) :
    keyIdOf (libraryKeyBuffer type id) = id := by
  have hoffset : scalarAt 4 20 (libraryKeyBuffer type id) = 4 :=
    scalarAt_libraryKeyBuffer type id (by decide)
  have hid : scalarAt 8 24 (libraryKeyBuffer type id) = id.toUInt64.toNat := by
    rw [← length_libraryKeyTable type, libraryKeyBuffer, scalarAt_append_right]
    have hwhole : (littleEndian 8 id.toUInt64.toNat).take 8 =
        littleEndian 8 id.toUInt64.toNat := rfl
    rw [hwhole, readLittleEndian_littleEndian]
    exact Nat.mod_eq_of_lt id.toUInt64.toNat_lt
  rw [keyIdOf, (fieldPosition_libraryKeyBuffer type id).2, hoffset, hid]
  simp

/-- The format FlatBuffers has. -/
@[reducible] def flatKeys : KeyFormat where
  createLibraryKey := libraryKeyBuffer
  keyType := keyTypeOf
  keyAs _ := keyIdOf
  keyType_create := keyTypeOf_libraryKeyBuffer
  keyAs_create := keyIdOf_libraryKeyBuffer

end Layout

open KeyFormat

/-- The ids a key can have. -/
def FitsInt64 (key : LibraryKey) : Prop := -2 ^ 63 ≤ key.id ∧ key.id < 2 ^ 63

instance (key : LibraryKey) : Decidable (FitsInt64 key) := inferInstanceAs (Decidable (_ ∧ _))

def orderingToInt : Ordering → Int
  | .lt => -1
  | .gt => 1
  | .eq => 0

@[simp] theorem orderingToInt_neg_iff {order : Ordering} :
    orderingToInt order < 0 ↔ order = .lt := by
  cases order <;> decide

@[simp] theorem orderingToInt_eq_zero_iff {order : Ordering} :
    orderingToInt order = 0 ↔ order = .eq := by
  cases order <;> decide

theorem compareKeys_eq_eq_iff {left right : LibraryKey} :
    compareKeys left right = .eq ↔ left = right := by
  cases left <;> cases right <;>
    simp [compareKeys, LibraryKey.keyType, KeyUnion.underlying, ObjectKey.ext_iff,
      ResourceKey.ext_iff]

theorem KeyUnion.underlying_inj {left right : KeyUnion} :
    left.underlying = right.underlying ↔ left = right := by
  cases left <;> cases right <;> decide

section Comparator

variable [KeyFormat]

def serializeKey (key : LibraryKey) : Bytes :=
  createLibraryKey key.keyType (Int64.ofInt key.id)

/-- `fb_comparator::Compare`: the ids are read only of keys of one type, and
any type but the two of the union compares as equal. -/
def fbCompare (lhs rhs : Bytes) : Int :=
  match compare (keyType lhs) (keyType rhs) with
  | .eq =>
      if keyType lhs = KeyUnion.objectKey.underlying then
        orderingToInt (compare (keyAs .objectKey lhs).toInt (keyAs .objectKey rhs).toInt)
      else if keyType lhs = KeyUnion.resourceKey.underlying then
        orderingToInt (compare (keyAs .resourceKey lhs).toInt (keyAs .resourceKey rhs).toInt)
      else orderingToInt .eq
  | order => orderingToInt order

@[simp] theorem keyType_serializeKey (key : LibraryKey) :
    keyType (serializeKey key) = key.keyType.underlying :=
  keyType_create key.keyType (Int64.ofInt key.id)

theorem keyAs_serializeKey {key : LibraryKey} (hkey : FitsInt64 key) :
    (keyAs key.keyType (serializeKey key)).toInt = key.id := by
  rw [serializeKey, keyAs_create, Int64.toInt_ofInt_of_le hkey.1 hkey.2]

/-- On serialized keys the comparator compares the keys. -/
theorem fbCompare_serializeKey {left right : LibraryKey} (hleft : FitsInt64 left)
    (hright : FitsInt64 right) :
    fbCompare (serializeKey left) (serializeKey right) =
      orderingToInt (compareKeys left right) := by
  have hleftId := keyAs_serializeKey hleft
  have hrightId := keyAs_serializeKey hright
  cases left <;> cases right
  all_goals
    simp only [LibraryKey.keyType, LibraryKey.id] at hleftId hrightId
    simp [fbCompare, compareKeys, LibraryKey.keyType, KeyUnion.underlying, hleftId, hrightId]

/-- Serialized keys, in the comparator's order. -/
def byteKeys : KeyEncoding LibraryKey Bytes where
  encode := serializeKey
  compare := fbCompare
  Valid := FitsInt64
  compare_neg_iff hleft hright := by
    rw [fbCompare_serializeKey hleft hright, orderingToInt_neg_iff, compareKeys_eq_lt_iff]
  compare_eq_zero_iff hleft hright := by
    rw [fbCompare_serializeKey hleft hright, orderingToInt_eq_zero_iff, compareKeys_eq_eq_iff]

end Comparator

end Eems

/-
The tables of the library database: keys, resources and media objects as the
FlatBuffers schema declares them, read back as they were written.
-/
import Eems.Bytes
import Mathlib.Data.Prod.Lex
import Mathlib.Data.Int.Order.Basic

namespace Eems

@[ext]
structure ObjectKey where
  id : Int
deriving DecidableEq, Repr

@[ext]
structure ResourceKey where
  id : Int
deriving DecidableEq, Repr

/-- The union member a `LibraryKey` holds. -/
inductive KeyUnion where
  | objectKey
  | resourceKey
deriving DecidableEq, Repr

/-- The enum value flatc assigns; `NONE` is 0. -/
def KeyUnion.underlying : KeyUnion → Nat
  | .objectKey => 1
  | .resourceKey => 2

inductive LibraryKey where
  | objectKey (key : ObjectKey)
  | resourceKey (key : ResourceKey)
deriving DecidableEq, Repr

def LibraryKey.keyType : LibraryKey → KeyUnion
  | .objectKey _ => .objectKey
  | .resourceKey _ => .resourceKey

def LibraryKey.id : LibraryKey → Int
  | .objectKey key => key.id
  | .resourceKey key => key.id

/-- `LibraryKey` of the type that `TKey` names. -/
def KeyUnion.key : KeyUnion → Int → LibraryKey
  | .objectKey, id => .objectKey ⟨id⟩
  | .resourceKey, id => .resourceKey ⟨id⟩

@[simp] theorem KeyUnion.keyType_key (type : KeyUnion) (id : Int) :
    (type.key id).keyType = type := by cases type <;> rfl

@[simp] theorem KeyUnion.id_key (type : KeyUnion) (id : Int) :
    (type.key id).id = id := by cases type <;> rfl

theorem LibraryKey.key_eq (key : LibraryKey) : key.keyType.key key.id = key := by
  cases key <;> rfl

/-- `fb_comparator::Compare` on decoded keys: the type decides first, ids of
one type are compared as integers. -/
def compareKeys (lhs rhs : LibraryKey) : Ordering :=
  match compare lhs.keyType.underlying rhs.keyType.underlying with
  | .eq =>
      match lhs, rhs with
      | .objectKey left, .objectKey right => compare left.id right.id
      | .resourceKey left, .resourceKey right => compare left.id right.id
      | _, _ => .eq
  | order => order

/-- The rank of a key in the comparator's order. -/
def LibraryKey.rank (key : LibraryKey) : ℕ ×ₗ ℤ :=
  toLex (key.keyType.underlying, key.id)

theorem LibraryKey.rank_injective : Function.Injective LibraryKey.rank := by
  intro left right h
  have hpair := Prod.ext_iff.mp (toLex.injective h)
  cases left <;> cases right <;>
    simp_all [LibraryKey.keyType, LibraryKey.id, KeyUnion.underlying, ObjectKey.ext_iff,
      ResourceKey.ext_iff]

instance : LinearOrder LibraryKey :=
  LinearOrder.lift' LibraryKey.rank LibraryKey.rank_injective

theorem LibraryKey.lt_iff {left right : LibraryKey} :
    left < right ↔ left.keyType.underlying < right.keyType.underlying ∨
      left.keyType = right.keyType ∧ left.id < right.id := by
  have hrank : left < right ↔ left.rank < right.rank := Iff.rfl
  rw [hrank, LibraryKey.rank, LibraryKey.rank, Prod.Lex.toLex_lt_toLex]
  cases left <;> cases right <;> simp [LibraryKey.keyType, KeyUnion.underlying]

/-- The database order is the comparator's. -/
theorem compareKeys_eq_lt_iff {left right : LibraryKey} :
    compareKeys left right = .lt ↔ left < right := by
  rw [LibraryKey.lt_iff]
  cases left <;> cases right <;>
    simp [compareKeys, LibraryKey.keyType, LibraryKey.id, KeyUnion.underlying, compare_lt_iff_lt]

/-- A stored file: where it is and what it is, both as byte vectors with a
terminating NUL. -/
structure Resource where
  location : Option Bytes
  mimeType : Option Bytes
deriving DecidableEq, Repr

structure ResourceRef where
  ref : LibraryKey
  protocolInfo : Bytes
deriving DecidableEq, Repr

structure MediaObjectRef where
  ref : LibraryKey
deriving DecidableEq, Repr

structure MediaContainer where
  objects : Option (List MediaObjectRef)
deriving DecidableEq, Repr

structure MediaItem where
  resources : Option (List ResourceRef)
deriving DecidableEq, Repr

inductive ObjectUnion where
  | none
  | mediaContainer (container : MediaContainer)
  | mediaItem (item : MediaItem)
deriving DecidableEq, Repr

/-- The enum value of `data_type`. -/
def ObjectUnion.underlying : ObjectUnion → Nat
  | .none => 0
  | .mediaContainer _ => 1
  | .mediaItem _ => 2

inductive ArtworkType where
  | poster
  | thumbnail
deriving DecidableEq, Repr

def ArtworkType.underlying : ArtworkType → Nat
  | .poster => 0
  | .thumbnail => 1

structure Artwork where
  ref : LibraryKey
  type : ArtworkType
deriving DecidableEq, Repr

/-- `dcTitle` and `upnpClass` are byte vectors with a terminating NUL; an
absent vector is `none` and an absent date reads as 0. -/
structure MediaObject where
  id : ObjectKey
  parentId : ObjectKey
  dcTitle : Bytes
  upnpClass : Bytes
  artwork : Option (List Artwork)
  dcDate : Int
  data : ObjectUnion
deriving DecidableEq, Repr

/-- A database value, by the root table its buffer was finished with. -/
inductive Record where
  | mediaObject (object : MediaObject)
  | resource (resource : Resource)
deriving DecidableEq, Repr

/-- `put_string` and `put_string_view` append the terminator. -/
def putString (text : Bytes) : Bytes := text ++ [0]

/-- `as_string_view`: all but the last byte. -/
def asStringView (vector : Bytes) : Bytes := vector.take (vector.length - 1)

/-- `as_cstring`, read by a C string function. -/
def asCString (vector : Bytes) : Bytes := cString vector

@[simp] theorem asStringView_putString (text : Bytes) :
    asStringView (putString text) = text := by
  simp [asStringView, putString]

theorem putString_injective : Function.Injective putString :=
  fun _ _ h => List.append_cancel_right h

theorem asCString_putString {text : Bytes} (h : (0 : UInt8) ∉ text) :
    asCString (putString text) = text :=
  cString_append_zero h []

namespace MediaObject

/-- The references of a container's listing, empty when the vector is absent. -/
def children (object : MediaObject) : List LibraryKey :=
  match object.data with
  | .mediaContainer ⟨some refs⟩ => refs.map MediaObjectRef.ref
  | _ => []

/-- The resource references of an item, empty when the vector is absent. -/
def resources (object : MediaObject) : List ResourceRef :=
  match object.data with
  | .mediaItem ⟨some refs⟩ => refs
  | _ => []

def artworks (object : MediaObject) : List Artwork := object.artwork.getD []

def IsContainer (object : MediaObject) : Prop :=
  ∃ container, object.data = .mediaContainer container

def IsItem (object : MediaObject) : Prop := ∃ item, object.data = .mediaItem item

/-- Every key an object refers to by artwork or resource, in order. -/
def resourceRefs (object : MediaObject) : List LibraryKey :=
  object.artworks.map Artwork.ref ++ object.resources.map ResourceRef.ref

end MediaObject

end Eems

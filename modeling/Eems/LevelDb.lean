/-
The database as LevelDB keeps it, under serialized keys: what the routines of
the store find there is what they find under the keys themselves.
-/
import Eems.KeyBytes
import Eems.ReachableLibrary

namespace Eems

open KeyFormat

section Bytes

variable [KeyFormat]

/-- The database as LevelDB has it. -/
abbrev LevelDb := ComparatorStore byteKeys Record

namespace LevelDb

/-- `deserialize_container` of a serialized key. -/
def deserializeContainer (db : LevelDb) (key : LibraryKey) :
    Except Failure (List LibraryKey × ContainerMeta) :=
  match db.seekEqual (serializeKey key) with
  | none => .error .containerNotFound
  | some record => do
      let object ← asMediaObject key record
      match object.data with
      | .mediaContainer _ => .ok (object.children, containerMetaOf object)
      | data => .error (.notAContainer data.underlying)

/-- `cursor::read` at a serialized key. -/
def read (db : LevelDb) (key : LibraryKey) : Except Failure MediaObject :=
  match db.seekEqual (serializeKey key) with
  | none => .error (.nonExistingElement key)
  | some record => asMediaObject key record

def getResource (db : LevelDb) (id : ResourceKey) : Except Failure (Option Resource) :=
  match db.seekEqual (serializeKey (.resourceKey id)) with
  | none => .ok none
  | some (.resource resource) => .ok (some resource)
  | some (.mediaObject _) => .error (.misreadRecord (.resourceKey id))

def getNextId (type : KeyUnion) (db : LevelDb) : Int :=
  let sought := db.seek (serializeKey (type.key int64Max))
  let it := if !sought.valid then db.seekToLast else sought.prev
  match it.current? with
  | none => 0
  | some entry =>
      if keyType entry.1 ≠ type.underlying then 0 else (keyAs type entry.1).toInt + 1

end LevelDb

section Holds

variable {store : LevelDb} {db : Db} (h : store.Holds db)

include h

theorem deserializeContainer_of_holds {key : LibraryKey} (hkey : FitsInt64 key) :
    LevelDb.deserializeContainer store key = deserializeContainer db key := by
  rw [LevelDb.deserializeContainer, deserializeContainer, ← h.seekEqual_encode hkey]
  rfl

theorem read_of_holds {key : LibraryKey} (hkey : FitsInt64 key) (objects : List LibraryKey) :
    LevelDb.read store key = ListResultView.read ⟨db, objects⟩ key := by
  rw [LevelDb.read, ListResultView.read, ← h.seekEqual_encode hkey]
  rfl

theorem getResource_of_holds {id : ResourceKey} (hid : FitsInt64 (.resourceKey id)) :
    LevelDb.getResource store id = StoreService.getResource db id := by
  rw [LevelDb.getResource, StoreService.getResource, ← h.seekEqual_encode hid]
  rfl

/-- The next id is found on the bytes as it is on the keys. -/
theorem getNextId_of_holds (type : KeyUnion) :
    LevelDb.getNextId type store = getNextId type db := by
  have hmax : FitsInt64 (type.key int64Max) := by
    cases type <;> decide
  have hsought : store.seek (serializeKey (type.key int64Max)) =
      ComparatorStore.Holds.encodeCursor byteKeys (db.seek (type.key int64Max)) :=
    h.seek_encode hmax
  have hbefore :
      (if !(store.seek (serializeKey (type.key int64Max))).valid then store.seekToLast
        else (store.seek (serializeKey (type.key int64Max))).prev) =
      ComparatorStore.Holds.encodeCursor byteKeys (db.seekBefore (type.key int64Max)) := by
    rw [hsought, h.seekToLast_encode, OrderedMap.seekBefore]
    cases hvalid : (db.seek (type.key int64Max)).valid <;> simp [hvalid]
  rw [getNextId_eq, LevelDb.getNextId]
  simp only [hbefore, ComparatorStore.Holds.current?_encodeCursor]
  cases hfound : (db.seekBefore (type.key int64Max)).current? with
  | none => rfl
  | some entry =>
      obtain ⟨hentry, -, -⟩ := OrderedMap.seekBefore_current?_eq_some hfound
      have hfits : FitsInt64 entry.1 := h.valid entry hentry
      by_cases htype : entry.1.keyType = type
      · subst htype
        simp [ComparatorStore.encodeEntry, byteKeys, keyAs_serializeKey hfits]
      · simp [ComparatorStore.encodeEntry, byteKeys, KeyUnion.underlying_inj, htype]

end Holds

/-- Every database whose ids fit is what LevelDB holds after some writes. -/
theorem exists_holds_of_fits {db : Db} (hfits : ∀ entry ∈ db.entries, FitsInt64 entry.1) :
    ∃ store : LevelDb, store.Holds db := by
  have hempty : (ComparatorStore.empty : LevelDb).Holds OrderedMap.empty :=
    ComparatorStore.holds_empty
  have hwrite := hempty.write hfits
  rw [db.write_entries] at hwrite
  exact ⟨_, hwrite⟩

/-- LevelDB can hold the library of every run. -/
theorem Reachable.exists_levelDb [ArtworkSorter] {calls : List ScanCall} {system : System}
    (h : Reachable calls system) : ∃ store : LevelDb, store.Holds system.db := by
  have hrange := (h.recorded []).2
  apply exists_holds_of_fits
  rintro ⟨key, record⟩ hentry
  have hlookup := system.db.mem_entries_iff.mp hentry
  have hnonneg := h.library.id_nonneg key record hlookup
  have hless := hrange key record hlookup
  constructor
  · exact le_trans (by decide) hnonneg
  · exact lt_trans hless (by decide)

/-- A key is stored, and with which record. -/
def LevelDb.Stored (store : LevelDb) (key : LibraryKey) (record : Record) : Prop :=
  (serializeKey key, record) ∈ store.entries

theorem stored_iff_lookup {store : LevelDb} {db : Db} (h : store.Holds db) {key : LibraryKey}
    (hkey : FitsInt64 key) {record : Record} :
    store.Stored key record ↔ db.lookup key = some record :=
  h.mem_entries_iff hkey

/-- What seeking a key and comparing the bytes found with it comes to, in the
routines which do so. -/
structure FindsStored (store : LevelDb) (key : LibraryKey) : Prop where
  found : ∀ record, store.seekEqual (serializeKey key) = some record ↔
    LevelDb.Stored store key record
  own_key : ∀ entry, (store.seek (serializeKey key)).current? = some entry →
    entry.1 = serializeKey key → keyType entry.1 = key.keyType.underlying ∧
      (keyAs key.keyType entry.1).toInt = key.id
  container : ∀ children containerMeta,
    LevelDb.deserializeContainer store key = .ok (children, containerMeta) ↔
      ∃ object, LevelDb.Stored store key (.mediaObject object) ∧ object.IsContainer ∧
        object.children = children ∧ containerMetaOf object = containerMeta
  no_container : LevelDb.deserializeContainer store key = .error .containerNotFound ↔
    ∀ record, ¬LevelDb.Stored store key record
  read : ∀ object, LevelDb.read store key = .ok object ↔
    LevelDb.Stored store key (.mediaObject object)
  no_read : LevelDb.read store key = .error (.nonExistingElement key) ↔
    ∀ record, ¬LevelDb.Stored store key record
  resource : ∀ id, key = .resourceKey id → ∀ resource,
    LevelDb.getResource store id = .ok (some resource) ↔
      LevelDb.Stored store key (.resource resource)
  no_resource : ∀ id, key = .resourceKey id →
    (LevelDb.getResource store id = .ok none ↔ ∀ record, ¬LevelDb.Stored store key record)

theorem not_stored_iff_lookup {store : LevelDb} {db : Db} (h : store.Holds db) {key : LibraryKey}
    (hkey : FitsInt64 key) :
    (∀ record, ¬LevelDb.Stored store key record) ↔ db.lookup key = none := by
  simp only [stored_iff_lookup h hkey, Option.eq_none_iff_forall_ne_some, ne_eq]

/-- A seek which compares the bytes found is a lookup, in every store. -/
theorem findsStored (store : LevelDb) {key : LibraryKey} (hkey : FitsInt64 key) :
    FindsStored store key := by
  obtain ⟨db, h⟩ := store.exists_holds
  have hstored : ∀ record, LevelDb.Stored store key record ↔ db.lookup key = some record :=
    fun record => stored_iff_lookup h hkey
  have hnone := not_stored_iff_lookup h hkey
  constructor
  · intro record
    exact store.seekEqual_eq_some_iff hkey
  · intro entry _ hraw
    rw [hraw]
    exact ⟨keyType_serializeKey key, keyAs_serializeKey hkey⟩
  · intro children containerMeta
    simp only [hstored]
    rw [deserializeContainer_of_holds h hkey]
    exact deserializeContainer_eq_ok_iff
  · rw [deserializeContainer_of_holds h hkey, hnone]
    exact deserializeContainer_eq_notFound_iff
  · intro object
    rw [hstored, read_of_holds h hkey [], read_eq_ok_iff]
    exact objectAt_eq_some_iff
  · rw [hnone, read_of_holds h hkey []]
    exact read_eq_nonExisting_iff
  · rintro id rfl resource
    rw [hstored, getResource_of_holds h hkey]
    exact getResource_eq_some_iff
  · rintro id rfl
    rw [hnone, getResource_of_holds h hkey]
    exact getResource_eq_none_iff

/-- The byte strings which `serialize_key` produces. -/
def serializedKeys : Set Bytes := {raw | ∃ key, FitsInt64 key ∧ serializeKey key = raw}

/-- The comparator orders serialized keys, equal ones being the same bytes and
the same key, and every seek finds what is stored. -/
theorem serializedKeys_agree :
    IsComparatorOn fbCompare serializedKeys ∧
    (∀ left right, FitsInt64 left → FitsInt64 right →
      (fbCompare (serializeKey left) (serializeKey right) = 0 ↔ left = right) ∧
      (serializeKey left = serializeKey right ↔ left = right)) ∧
    ∀ (store : LevelDb) (key : LibraryKey), FitsInt64 key → FindsStored store key := by
  refine ⟨byteKeys.isComparatorOn, ?_, fun store key hkey => findsStored store hkey⟩
  intro left right hleft hright
  exact ⟨byteKeys.compare_eq_zero_iff hleft hright,
    @KeyEncoding.encode_eq_iff _ _ _ byteKeys left right hleft hright⟩

end Bytes

theorem serializedKeys_agree_films :
    @fbCompare flatKeys (@serializeKey flatKeys (.resourceKey ⟨0⟩))
      (@serializeKey flatKeys (.resourceKey ⟨-1⟩)) = 1 ∧
    IsComparatorOn (@fbCompare flatKeys) (@serializedKeys flatKeys) ∧
    ∃ store : @LevelDb flatKeys, store.Holds filmSystem.db ∧
      @FindsStored flatKeys store (.resourceKey ⟨0⟩) := by
  obtain ⟨store, h⟩ := @Reachable.exists_levelDb flatKeys insertionSorter _ _ reachable_films
  have hagree := @serializedKeys_agree flatKeys
  exact ⟨by decide +kernel, hagree.1, store, h, hagree.2.2 store (.resourceKey ⟨0⟩) (by decide)⟩

end Eems

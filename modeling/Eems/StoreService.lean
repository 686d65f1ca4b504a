/-
The store service: a LevelDB database of library records, opened or created at
start, read through seeks and extended one batch at a time.
-/
import Eems.Schema
import Eems.Basic.OrderedMap
import Eems.Basic.Hoare

namespace Eems

open Hoare

abbrev Db := OrderedMap LibraryKey Record

/-- A `leveldb::WriteBatch`: its puts in order. -/
abbrev Batch := List (LibraryKey × Record)

/-- The exceptions of the store and of what reads and fills it.  `misreadRecord`
stands for reading a buffer as a table it is not and `nullResourceKey` for
following the pointer of a key of the other type, which the source leaves
undefined; `interrupted` for whatever else cuts a run short. -/
inductive Failure where
  | containerNotFound
  | notAContainer (type : Nat)
  | parentMismatch
  | nonExistingElement (key : LibraryKey)
  | misreadRecord (key : LibraryKey)
  | nullResourceKey (key : LibraryKey)
  | invalidResourceRef
  | openFailed
  | rootContainerFailed
  | filesystemError (path : Path)
  | interrupted
deriving DecidableEq, Repr

/-- What becomes of one database operation: it takes effect, it reports an
error status and has no effect, or the run is cut short before it. -/
inductive Outcome where
  | applied
  | failed
  | interrupted
deriving DecidableEq, Repr

/-- The open database, the batches applied to it so far, and what becomes of
the next operations; once the list is used up all of them succeed. -/
structure StoreService where
  db : Db
  journal : List Batch
  outcomes : List Outcome

abbrev StoreM := EStateM Failure StoreService

def int64Max : Int := 2 ^ 63 - 1

def upnpContainerClass : Bytes := ascii "object.container"

structure ContainerMeta where
  id : ObjectKey
  parentId : ObjectKey
  dcTitle : Bytes
  upnpClass : Bytes
  artwork : List (LibraryKey × ArtworkType)
deriving DecidableEq, Repr

def serializeContainer (contents : List LibraryKey) (containerMeta : ContainerMeta) :
    MediaObject where
  id := containerMeta.id
  parentId := containerMeta.parentId
  dcTitle := putString containerMeta.dcTitle
  upnpClass := putString containerMeta.upnpClass
  artwork :=
    if containerMeta.artwork.isEmpty then none
    else some (containerMeta.artwork.map fun pair => ⟨pair.1, pair.2⟩)
  dcDate := 0
  data := .mediaContainer ⟨some (contents.map MediaObjectRef.mk)⟩

/-- The `include_meta` part of `deserialize_container`. -/
def containerMetaOf (object : MediaObject) : ContainerMeta where
  id := object.id
  parentId := object.parentId
  dcTitle := asStringView object.dcTitle
  upnpClass := asStringView object.upnpClass
  artwork := object.artworks.map fun item => (item.ref, item.type)

/-- `GetRoot<MediaObject>` on a value. -/
def asMediaObject (key : LibraryKey) : Record → Except Failure MediaObject
  | .mediaObject object => .ok object
  | .resource _ => .error (.misreadRecord key)

/-- `deserialize_container` with its meta part; `list` drops that part. -/
def deserializeContainer (db : Db) (key : LibraryKey) :
    Except Failure (List LibraryKey × ContainerMeta) :=
  match db.seekExact key with
  | none => .error .containerNotFound
  | some record => do
      let object ← asMediaObject key record
      match object.data with
      | .mediaContainer _ => .ok (object.children, containerMetaOf object)
      | data => .error (.notAContainer data.underlying)

/-- One past the greatest stored id of a key type, or 0. -/
def getNextId (type : KeyUnion) (db : Db) : Int :=
  let sought := db.seek (type.key int64Max)
  let it := if !sought.valid then db.seekToLast else sought.prev
  match it.current? with
  | none => 0
  | some entry => if entry.1.keyType ≠ type then 0 else entry.1.id + 1

/-- `db_->Write`: whether the status is ok. -/
def write (batch : Batch) : StoreM Bool := fun store =>
  match store.outcomes with
  | [] => .ok true { store with db := store.db.write batch, journal := store.journal ++ [batch] }
  | .applied :: rest =>
      .ok true ⟨store.db.write batch, store.journal ++ [batch], rest⟩
  | .failed :: rest => .ok false { store with outcomes := rest }
  | .interrupted :: rest => .error .interrupted { store with outcomes := rest }

/-- The item loop of `put_items`: fill the batch and the parent's listing. -/
def addItems (parent : ObjectKey) :
    List MediaObject → Batch → List LibraryKey → Except Failure (Batch × List LibraryKey)
  | [], batch, containerData => .ok (batch, containerData)
  | item :: rest, batch, containerData =>
      if item.parentId.id ≠ parent.id then .error .parentMismatch
      else
        let key := LibraryKey.objectKey item.id
        addItems parent rest (batch ++ [(key, .mediaObject item)]) (containerData ++ [key])

/-- A write that fails is logged and nothing else. -/
def putItems (parent : ObjectKey) (items : List MediaObject)
    (resources : List (ResourceKey × Resource)) : StoreM PUnit := do
  let parentKey := LibraryKey.objectKey parent
  let store ← get
  let (containerData, containerMeta) ← fromExcept (deserializeContainer store.db parentKey)
  let batch := resources.map fun pair => (LibraryKey.resourceKey pair.1, Record.resource pair.2)
  let (batch, containerData) ← fromExcept (addItems parent items batch containerData)
  let container := serializeContainer containerData containerMeta
  let _ ← write (batch ++ [(parentKey, Record.mediaObject container)])
  pure ⟨⟩

/-- `list_result_view`: the keys to read and the iterator's snapshot. -/
structure ListResultView where
  db : Db
  objects : List LibraryKey

/-- `cursor::read` at one key of the view. -/
def ListResultView.read (view : ListResultView) (key : LibraryKey) :
    Except Failure MediaObject :=
  match view.db.seekExact key with
  | none => .error (.nonExistingElement key)
  | some record => asMediaObject key record

def StoreService.list (db : Db) (id : ObjectKey) : Except Failure ListResultView := do
  let (objects, _) ← deserializeContainer db (.objectKey id)
  .ok ⟨db, objects⟩

def StoreService.get (db : Db) (id : ObjectKey) : ListResultView := ⟨db, [.objectKey id]⟩

/-- `get_resource`: a null resource when the key is not stored. -/
def StoreService.getResource (db : Db) (id : ResourceKey) : Except Failure (Option Resource) :=
  match db.seekExact (.resourceKey id) with
  | none => .ok none
  | some (.resource resource) => .ok (some resource)
  | some (.mediaObject _) => .error (.misreadRecord (.resourceKey id))

def rootContainerMeta : ContainerMeta where
  id := ⟨0⟩
  parentId := ⟨-1⟩
  dcTitle := []
  upnpClass := upnpContainerClass
  artwork := []

/-- The database directory, `none` until one is created, and what becomes of
the operations to come. -/
structure Disk where
  db : Option Db
  outcomes : List Outcome

/-- What becomes of the next operation on the database. -/
def Disk.next (disk : Disk) : Outcome × Disk :=
  match disk.outcomes with
  | [] => (.applied, disk)
  | outcome :: rest => (outcome, { disk with outcomes := rest })

/-- `DB::Open` of an existing database: ok, `InvalidArgument` when there is
none, or some other error status. -/
def openExisting : EStateM Failure Disk (Option Db) := fun disk =>
  match disk.next with
  | (.applied, disk) => .ok disk.db disk
  | (.failed, disk) => .error .openFailed disk
  | (.interrupted, disk) => .error .interrupted disk

/-- `DB::Open` with `create_if_missing` and `error_if_exists`. -/
def createDb : EStateM Failure Disk PUnit := fun disk =>
  match disk.next with
  | (.applied, disk) => .ok ⟨⟩ { disk with db := some OrderedMap.empty }
  | (.failed, disk) => .error .openFailed disk
  | (.interrupted, disk) => .error .interrupted disk

/-- The `Put` of the root container into the new database. -/
def putRootContainer : EStateM Failure Disk PUnit := fun disk =>
  let root := Record.mediaObject (serializeContainer [] rootContainerMeta)
  match disk.next with
  | (.applied, disk) =>
      .ok ⟨⟩ { disk with db := disk.db.map fun db => db.insert (.objectKey ⟨0⟩) root }
  | (.failed, disk) => .error .rootContainerFailed disk
  | (.interrupted, disk) => .error .interrupted disk

/-- Whether the database existed. -/
def openDb : EStateM Failure Disk Bool := do
  match ← openExisting with
  | some _ => pure true
  | none =>
      createDb
      putRootContainer
      pure false

theorem deserializeContainer_eq_ok_iff {db : Db} {key : LibraryKey}
    {data : List LibraryKey} {containerMeta : ContainerMeta} :
    deserializeContainer db key = .ok (data, containerMeta) ↔
      ∃ object, db.lookup key = some (.mediaObject object) ∧ object.IsContainer ∧
        object.children = data ∧ containerMetaOf object = containerMeta := by
  unfold deserializeContainer
  rw [OrderedMap.seekExact_eq_lookup]
  cases db.lookup key with
  | none => simp
  | some record =>
      cases record with
      | resource resource => simp [asMediaObject, bind, Except.bind]
      | mediaObject object =>
          cases hdata : object.data <;>
            simp [asMediaObject, bind, Except.bind, MediaObject.IsContainer, hdata]

theorem deserializeContainer_eq_notFound_iff {db : Db} {key : LibraryKey} :
    deserializeContainer db key = .error .containerNotFound ↔ db.lookup key = none := by
  unfold deserializeContainer
  rw [OrderedMap.seekExact_eq_lookup]
  cases db.lookup key with
  | none => simp
  | some record =>
      cases record with
      | resource resource => simp [asMediaObject, bind, Except.bind]
      | mediaObject object =>
          cases hdata : object.data <;> simp [asMediaObject, bind, Except.bind, hdata]

theorem read_eq_nonExisting_iff {view : ListResultView} {key : LibraryKey} :
    view.read key = .error (.nonExistingElement key) ↔ view.db.lookup key = none := by
  rw [ListResultView.read, OrderedMap.seekExact_eq_lookup]
  cases view.db.lookup key with
  | none => simp
  | some record => cases record <;> simp [asMediaObject]

theorem getResource_eq_some_iff {db : Db} {id : ResourceKey} {resource : Resource} :
    StoreService.getResource db id = .ok (some resource) ↔
      db.lookup (.resourceKey id) = some (.resource resource) := by
  rw [StoreService.getResource, OrderedMap.seekExact_eq_lookup]
  cases db.lookup (.resourceKey id) with
  | none => simp
  | some record => cases record <;> simp

theorem getResource_eq_none_iff {db : Db} {id : ResourceKey} :
    StoreService.getResource db id = .ok none ↔ db.lookup (.resourceKey id) = none := by
  rw [StoreService.getResource, OrderedMap.seekExact_eq_lookup]
  cases db.lookup (.resourceKey id) with
  | none => simp
  | some record => cases record <;> simp

@[simp] theorem children_serializeContainer (contents : List LibraryKey)
    (containerMeta : ContainerMeta) :
    (serializeContainer contents containerMeta).children = contents := by
  simp [serializeContainer, MediaObject.children, Function.comp_def]

@[simp] theorem artworks_serializeContainer (contents : List LibraryKey)
    (containerMeta : ContainerMeta) :
    (serializeContainer contents containerMeta).artworks =
      containerMeta.artwork.map fun pair => ⟨pair.1, pair.2⟩ := by
  cases hartwork : containerMeta.artwork <;>
    simp [serializeContainer, MediaObject.artworks, hartwork]

@[simp] theorem resources_serializeContainer (contents : List LibraryKey)
    (containerMeta : ContainerMeta) :
    (serializeContainer contents containerMeta).resources = [] := rfl

theorem isContainer_serializeContainer (contents : List LibraryKey)
    (containerMeta : ContainerMeta) :
    (serializeContainer contents containerMeta).IsContainer := ⟨_, rfl⟩

/-- Decoding what was encoded gives back the meta data. -/
@[simp] theorem containerMetaOf_serializeContainer (contents : List LibraryKey)
    (containerMeta : ContainerMeta) :
    containerMetaOf (serializeContainer contents containerMeta) = containerMeta := by
  cases containerMeta
  simp only [containerMetaOf, artworks_serializeContainer]
  simp [serializeContainer, Function.comp_def]

/-- The puts of one `put_items` call, the extended parent last. -/
def putBatch (parent : ObjectKey) (items : List MediaObject)
    (resources : List (ResourceKey × Resource)) (containerData : List LibraryKey)
    (containerMeta : ContainerMeta) : Batch :=
  (resources.map fun pair => (LibraryKey.resourceKey pair.1, Record.resource pair.2)) ++
    (items.map fun item => (LibraryKey.objectKey item.id, Record.mediaObject item)) ++
    [(.objectKey parent, .mediaObject (serializeContainer
      (containerData ++ items.map fun item => .objectKey item.id) containerMeta))]

theorem addItems_eq (parent : ObjectKey) (items : List MediaObject) (batch : Batch)
    (containerData : List LibraryKey) :
    addItems parent items batch containerData =
      if ∀ item ∈ items, item.parentId = parent then
        .ok (batch ++ items.map fun item => (.objectKey item.id, .mediaObject item),
          containerData ++ items.map fun item => .objectKey item.id)
      else .error .parentMismatch := by
  induction items generalizing batch containerData with
  | nil => simp [addItems]
  | cons item rest ih =>
      by_cases hparent : item.parentId = parent
      · simp [addItems, hparent, ih]
      · have hid : item.parentId.id ≠ parent.id := fun h => hparent (ObjectKey.ext h)
        simp [addItems, hparent, hid]

/-- Everything one `put_items` call can do: throw and leave the database as it
was, return although the write failed, or extend the parent by the items. -/
theorem putItems_cases (parent : ObjectKey) (items : List MediaObject)
    (resources : List (ResourceKey × Resource)) (store : StoreService) :
    (∃ error next, putItems parent items resources store = .error error next ∧
      next.db = store.db ∧ next.journal = store.journal) ∨
    (∃ next, putItems parent items resources store = .ok ⟨⟩ next ∧
      next.db = store.db ∧ next.journal = store.journal) ∨
    (∃ containerData containerMeta next,
      deserializeContainer store.db (.objectKey parent) = .ok (containerData, containerMeta) ∧
      (∀ item ∈ items, item.parentId = parent) ∧
      putItems parent items resources store = .ok ⟨⟩ next ∧
      next.db = store.db.write (putBatch parent items resources containerData containerMeta) ∧
      next.journal = store.journal ++
        [putBatch parent items resources containerData containerMeta]) := by
  cases hdecode : deserializeContainer store.db (.objectKey parent) with
  | error error =>
      exact Or.inl ⟨error, store, by simp [putItems, hdecode], rfl, rfl⟩
  | ok decoded =>
      obtain ⟨containerData, containerMeta⟩ := decoded
      by_cases hparents : ∀ item ∈ items, item.parentId = parent
      · simp only [putItems, bind_apply, get_apply, hdecode, fromExcept_ok_apply, addItems_eq,
          if_pos hparents, write, pure_apply]
        cases houtcomes : store.outcomes with
        | nil => exact Or.inr (Or.inr ⟨_, _, _, rfl, hparents, rfl, rfl, rfl⟩)
        | cons outcome rest =>
            cases outcome with
            | applied => exact Or.inr (Or.inr ⟨_, _, _, rfl, hparents, rfl, rfl, rfl⟩)
            | failed => exact Or.inr (Or.inl ⟨_, rfl, rfl, rfl⟩)
            | interrupted => exact Or.inl ⟨_, _, rfl, rfl, rfl⟩
      · exact Or.inl ⟨.parentMismatch, store,
          by simp [putItems, hdecode, addItems_eq, if_neg hparents], rfl, rfl⟩

/-- Every operation to come succeeds. -/
def AllApplied (outcomes : List Outcome) : Prop := ∀ outcome ∈ outcomes, outcome = .applied

theorem AllApplied.tail {outcomes : List Outcome} (h : AllApplied outcomes) :
    AllApplied outcomes.tail :=
  fun outcome hmem => h outcome (List.mem_of_mem_tail hmem)

theorem write_of_allApplied {batch : Batch} {store : StoreService}
    (h : AllApplied store.outcomes) :
    write batch store = .ok true
      ⟨store.db.write batch, store.journal ++ [batch], store.outcomes.tail⟩ := by
  unfold write
  cases houtcomes : store.outcomes with
  | nil => rfl
  | cons outcome rest =>
      obtain rfl := h outcome (houtcomes ▸ List.mem_cons_self)
      rfl

/-- With every write succeeding, an existing parent container is extended. -/
theorem putItems_of_allApplied (items : List MediaObject)
    (resources : List (ResourceKey × Resource)) {parent : ObjectKey} {store : StoreService}
    {containerData : List LibraryKey} {containerMeta : ContainerMeta}
    (hdecode : deserializeContainer store.db (.objectKey parent) =
      .ok (containerData, containerMeta))
    (hparents : ∀ item ∈ items, item.parentId = parent) (houtcomes : AllApplied store.outcomes) :
    putItems parent items resources store =
      .ok ⟨⟩ ⟨store.db.write (putBatch parent items resources containerData containerMeta),
        store.journal ++ [putBatch parent items resources containerData containerMeta],
        store.outcomes.tail⟩ := by
  simp only [putItems, bind_apply, get_apply, hdecode, fromExcept_ok_apply, addItems_eq,
    if_pos hparents, pure_apply, write_of_allApplied houtcomes]
  rfl

/-- The source's seek-and-step-back finds the predecessor of the greatest key
a type can have. -/
theorem getNextId_eq (type : KeyUnion) (db : Db) :
    getNextId type db =
      match (db.seekBefore (type.key int64Max)).current? with
      | none => 0
      | some entry => if entry.1.keyType ≠ type then 0 else entry.1.id + 1 := by
  cases hvalid : (db.seek (type.key int64Max)).valid <;>
    simp [getNextId, OrderedMap.seekBefore, hvalid]

theorem KeyUnion.key_lt_key_iff {type : KeyUnion} {left right : Int} :
    type.key left < type.key right ↔ left < right := by
  cases type <;> simp [LibraryKey.lt_iff, KeyUnion.key, LibraryKey.keyType, LibraryKey.id]

theorem KeyUnion.key_le_key_iff {type : KeyUnion} {left right : Int} :
    type.key left ≤ type.key right ↔ left ≤ right := by
  rw [← not_lt, KeyUnion.key_lt_key_iff, not_lt]

/-- Between two keys of one type there are only keys of that type. -/
theorem LibraryKey.keyType_of_between {type : KeyUnion} {low high : Int}
    {key : LibraryKey} (hlow : type.key low ≤ key) (hhigh : key < type.key high) :
    key.keyType = type := by
  rw [← not_lt, LibraryKey.lt_iff, KeyUnion.keyType_key, not_or] at hlow
  rw [LibraryKey.lt_iff, KeyUnion.keyType_key] at hhigh
  rcases hhigh with hless | ⟨htype, -⟩
  · exact absurd hless hlow.1
  · exact htype

/-- The next id follows the greatest stored id below the end of the range; the
keys of the other type do not show. -/
theorem getNextId_spec (type : KeyUnion) (db : Db) :
    (getNextId type db = 0 ∧
      ∀ id record, db.lookup (type.key id) = some record → int64Max ≤ id) ∨
    ∃ id record, db.lookup (type.key id) = some record ∧ getNextId type db = id + 1 ∧
      ∀ other record, db.lookup (type.key other) = some record → other < int64Max →
        other ≤ id := by
  have hbelow : ∀ {id record}, db.lookup (type.key id) = some record → id < int64Max →
      (type.key id, record) ∈ db.entries ∧ type.key id < type.key int64Max := fun h hid =>
    ⟨db.mem_entries_iff.mpr h, KeyUnion.key_lt_key_iff.mpr hid⟩
  rw [getNextId_eq]
  cases hfound : (db.seekBefore (type.key int64Max)).current? with
  | none =>
      refine Or.inl ⟨rfl, fun id record hstored => ?_⟩
      by_contra hid
      obtain ⟨hmem, hlt⟩ := hbelow hstored (not_le.mp hid)
      exact absurd (OrderedMap.seekBefore_current?_eq_none hfound _ hmem) (not_le.mpr hlt)
  | some entry =>
      obtain ⟨hentry, hless, hgreatest⟩ := OrderedMap.seekBefore_current?_eq_some hfound
      by_cases htype : entry.1.keyType = type
      · have hkey : type.key entry.1.id = entry.1 := by rw [← htype, LibraryKey.key_eq]
        refine Or.inr ⟨entry.1.id, entry.2, ?_, by simp [htype], fun other record hother hid => ?_⟩
        · rw [hkey]
          exact db.mem_entries_iff.mp hentry
        · obtain ⟨hmem, hlt⟩ := hbelow hother hid
          rw [← @KeyUnion.key_le_key_iff type, hkey]
          exact hgreatest _ hmem hlt
      · refine Or.inl ⟨by simp [htype], fun id record hstored => ?_⟩
        by_contra hid
        obtain ⟨hmem, hlt⟩ := hbelow hstored (not_le.mp hid)
        exact htype (LibraryKey.keyType_of_between (hgreatest _ hmem hlt) hless)

/-- Every stored id of a type lies below the type's next id, provided none has
reached the end of the range. -/
theorem id_lt_getNextId (type : KeyUnion) {db : Db} {id : Int} {record : Record}
    (hid : id < int64Max) (hstored : db.lookup (type.key id) = some record) :
    id < getNextId type db := by
  rcases getNextId_spec type db with ⟨-, hnone⟩ | ⟨last, _, -, hnext, hgreatest⟩
  · exact absurd hid (not_lt.mpr (hnone id record hstored))
  · have hle := hgreatest id record hstored hid
    omega

/-- Nothing but a stored id determines the next id. -/
theorem getNextId_nonneg {type : KeyUnion} {db : Db}
    (hnonneg : ∀ key record, db.lookup key = some record → 0 ≤ key.id) :
    0 ≤ getNextId type db := by
  rcases getNextId_spec type db with ⟨hzero, -⟩ | ⟨last, record, hlast, hnext, -⟩
  · exact hzero.ge
  · have hid := hnonneg _ record hlast
    rw [KeyUnion.id_key] at hid
    omega

end Eems

/-
The store service on LevelDB's serialized keys, and what it is for: a finite map
from keys to records, which a client reads and extends one container at a time.
-/
import Eems.LevelDb
import Eems.Basic.Client

namespace Eems

open Hoare KeyFormat

/-- The ids of an object that is stored: its own and those it lists. -/
def MediaObject.IdsFit (object : MediaObject) : Prop :=
  FitsInt64 (.objectKey object.id) ∧ ∀ child ∈ object.children, FitsInt64 child

/-- The arguments of `put_items`, whose ids are `int64_t`. -/
structure PutFits (parent : ObjectKey) (items : List MediaObject)
    (resources : List (ResourceKey × Resource)) : Prop where
  parent : FitsInt64 (.objectKey parent)
  items : ∀ item ∈ items, item.IdsFit
  resources : ∀ pair ∈ resources, FitsInt64 (.resourceKey pair.1)

/-- The calls of the store service. -/
inductive StoreCall where
  | putItems (parent : ObjectKey) (items : List MediaObject)
      (resources : List (ResourceKey × Resource)) (fits : PutFits parent items resources)
  | list (id : ObjectKey) (fits : FitsInt64 (.objectKey id))
  | get (id : ObjectKey) (fits : FitsInt64 (.objectKey id))
  | getResource (id : ResourceKey) (fits : FitsInt64 (.resourceKey id))
  | getNextId (type : KeyUnion)

/-- The keys of a `list_result_view`, each with what its cursor reads. -/
abbrev Contents := List (LibraryKey × Except Failure MediaObject)

def StoreCall.Answer : StoreCall → Type
  | .putItems .. => Except Failure PUnit
  | .list .. => Except Failure Contents
  | .get .. => Contents
  | .getResource .. => Except Failure (Option Resource)
  | .getNextId _ => Int

/-- The key whose id is the `int64_t` that is serialized. -/
def wrapKey (key : LibraryKey) : LibraryKey := key.keyType.key (Int64.ofInt key.id).toInt

theorem fitsInt64_wrapKey (key : LibraryKey) : FitsInt64 (wrapKey key) := by
  rw [FitsInt64, wrapKey, KeyUnion.id_key]
  exact ⟨Int64.le_toInt _, Int64.toInt_lt _⟩

theorem wrapKey_of_fits {key : LibraryKey} (h : FitsInt64 key) : wrapKey key = key := by
  rw [wrapKey, Int64.toInt_ofInt_of_le h.1 h.2, LibraryKey.key_eq]

section Calls

variable [KeyFormat]

/-- `batch.Put` of every record under its serialized key, and `db_->Write`. -/
def LevelDb.writeBatch (db : LevelDb) (batch : Batch) : LevelDb :=
  ComparatorStore.write db (batch.map fun put => (wrapKey put.1, put.2)) fun put hput => by
    obtain ⟨other, -, rfl⟩ := List.mem_map.mp hput
    exact fitsInt64_wrapKey other.1

/-- The open database, and what becomes of the writes to come. -/
structure LevelService where
  db : LevelDb
  outcomes : List Outcome

namespace LevelService

/-- `db_->Write`: whether the status is ok. -/
def write (batch : Batch) : EStateM Failure LevelService Bool := fun service =>
  match service.outcomes with
  | [] => .ok true { service with db := service.db.writeBatch batch }
  | .applied :: rest => .ok true ⟨service.db.writeBatch batch, rest⟩
  | .failed :: rest => .ok false { service with outcomes := rest }
  | .interrupted :: rest => .error .interrupted { service with outcomes := rest }

def putItems (parent : ObjectKey) (items : List MediaObject)
    (resources : List (ResourceKey × Resource)) : EStateM Failure LevelService PUnit := do
  let parentKey := LibraryKey.objectKey parent
  let service ← get
  let (containerData, containerMeta) ←
    fromExcept (LevelDb.deserializeContainer service.db parentKey)
  let batch := resources.map fun pair => (LibraryKey.resourceKey pair.1, Record.resource pair.2)
  let (batch, containerData) ← fromExcept (addItems parent items batch containerData)
  let container := serializeContainer containerData containerMeta
  let _ ← write (batch ++ [(parentKey, Record.mediaObject container)])
  pure ⟨⟩

/-- What the cursors of a view read. -/
def contents (service : LevelService) (objects : List LibraryKey) : Contents :=
  objects.map fun key => (key, LevelDb.read service.db key)

/-- A call on the serialized keys. -/
def step : (call : StoreCall) → LevelService → call.Answer × LevelService
  | .putItems parent items resources _, service =>
      match putItems parent items resources service with
      | .ok value next => (.ok value, next)
      | .error error next => (.error error, next)
  | .list id _, service =>
      ((LevelDb.deserializeContainer service.db (.objectKey id)).map fun found =>
        service.contents found.1, service)
  | .get id _, service => (service.contents [.objectKey id], service)
  | .getResource id _, service => (LevelDb.getResource service.db id, service)
  | .getNextId type, service => (LevelDb.getNextId type service.db, service)

end LevelService

end Calls

/-- What the store service is for: records under keys, and what becomes of the
writes to come. -/
structure StoreMap where
  record : LibraryKey → Option Record
  outcomes : List Outcome

namespace StoreMap

variable (map : StoreMap)

def read (key : LibraryKey) : Except Failure MediaObject :=
  match map.record key with
  | none => .error (.nonExistingElement key)
  | some (.mediaObject object) => .ok object
  | some (.resource _) => .error (.misreadRecord key)

def container (id : ObjectKey) : Except Failure MediaObject :=
  match map.record (.objectKey id) with
  | none => .error .containerNotFound
  | some (.resource _) => .error (.misreadRecord (.objectKey id))
  | some (.mediaObject object) =>
      match object.data with
      | .mediaContainer _ => .ok object
      | data => .error (.notAContainer data.underlying)

def contents (objects : List LibraryKey) : Contents := objects.map fun key => (key, map.read key)

def resource (id : ResourceKey) : Except Failure (Option Resource) :=
  match map.record (.resourceKey id) with
  | none => .ok none
  | some (.resource resource) => .ok (some resource)
  | some (.mediaObject _) => .error (.misreadRecord (.resourceKey id))

/-- One past the greatest id of a type that has a successor, or 0. -/
def IsNextId (type : KeyUnion) (next : Int) : Prop :=
  let ids := {id | (map.record (type.key id)).isSome ∧ id < int64Max}
  (ids = ∅ ∧ next = 0) ∨ IsGreatest ids (next - 1)

/-- All of a batch at once, later puts over earlier ones. -/
def write (batch : Batch) : LibraryKey → Option Record :=
  batch.foldl (fun record put => Function.update record put.1 (some put.2)) map.record

/-- Items and resources, filed below a container that lists the items last. -/
def filed (parent : ObjectKey) (container : MediaObject) (items : List MediaObject)
    (resources : List (ResourceKey × Resource)) : LibraryKey → Option Record :=
  map.write (putBatch parent items resources container.children (containerMetaOf container))

/-- `put_items` files all or nothing.  A write that fails is not reported. -/
def putItems (parent : ObjectKey) (items : List MediaObject)
    (resources : List (ResourceKey × Resource)) : Except Failure PUnit × StoreMap :=
  match map.container parent with
  | .error error => (.error error, map)
  | .ok container =>
      if ∀ item ∈ items, item.parentId = parent then
        match map.outcomes.headD .applied with
        | .applied => (.ok ⟨⟩, ⟨map.filed parent container items resources, map.outcomes.tail⟩)
        | .failed => (.ok ⟨⟩, { map with outcomes := map.outcomes.tail })
        | .interrupted => (.error .interrupted, { map with outcomes := map.outcomes.tail })
      else (.error .parentMismatch, map)

/-- The calls that the map allows. -/
def Allows : (call : StoreCall) → StoreMap → call.Answer → StoreMap → Prop
  | .putItems parent items resources _, map, answer, after =>
      (answer, after) = map.putItems parent items resources
  | .list id _, map, answer, after =>
      answer = (map.container id).map (fun object => map.contents object.children) ∧ after = map
  | .get id _, map, answer, after => answer = map.contents [.objectKey id] ∧ after = map
  | .getResource id _, map, answer, after => answer = map.resource id ∧ after = map
  | .getNextId type, map, answer, after => map.IsNextId type answer ∧ after = map

theorem write_eq_lookup {db : Db} (h : map.record = db.lookup) (batch : Batch) :
    map.write batch = (db.write batch).lookup := by
  induction batch generalizing map db with
  | nil => exact h
  | cons put rest ih =>
      apply ih ⟨Function.update map.record put.1 (some put.2), map.outcomes⟩
      funext key
      rw [OrderedMap.lookup_insert]
      by_cases hkey : key = put.1 <;> simp [hkey, h]

theorem container_eq_lookup {db : Db} (h : map.record = db.lookup) (id : ObjectKey) :
    deserializeContainer db (.objectKey id) =
      (map.container id).map fun object => (object.children, containerMetaOf object) := by
  rw [deserializeContainer, container, OrderedMap.seekExact_eq_lookup, h]
  cases db.lookup (.objectKey id) with
  | none => rfl
  | some record =>
      cases record with
      | resource resource => rfl
      | mediaObject object =>
          simp only [asMediaObject, bind, Except.bind]
          cases object.data <;> rfl

theorem record_of_container {id : ObjectKey} {object : MediaObject}
    (h : map.container id = .ok object) :
    map.record (.objectKey id) = some (.mediaObject object) := by
  unfold container at h
  split at h
  · simp at h
  · simp at h
  · rename_i found hfound
    split at h
    · rw [hfound, Except.ok.inj h]
    · simp at h

theorem read_eq_lookup {db : Db} (h : map.record = db.lookup) (objects : List LibraryKey)
    (key : LibraryKey) : ListResultView.read ⟨db, objects⟩ key = map.read key := by
  rw [ListResultView.read, read, OrderedMap.seekExact_eq_lookup, h]
  cases db.lookup key with
  | none => rfl
  | some record => cases record <;> rfl

theorem resource_eq_lookup {db : Db} (h : map.record = db.lookup) (id : ResourceKey) :
    StoreService.getResource db id = map.resource id := by
  cases hstored : db.lookup (.resourceKey id) with
  | none =>
      simp only [StoreService.getResource, resource, OrderedMap.seekExact_eq_lookup, h, hstored]
  | some record =>
      cases record <;>
        simp only [StoreService.getResource, resource, OrderedMap.seekExact_eq_lookup, h, hstored]

/-- The id that is next has one before it. -/
theorem getNextId_le (type : KeyUnion) (db : Db) : Eems.getNextId type db ≤ int64Max := by
  rw [getNextId_eq]
  cases hfound : (db.seekBefore (type.key int64Max)).current? with
  | none => simp [int64Max]
  | some entry =>
      obtain ⟨-, hless, -⟩ := OrderedMap.seekBefore_current?_eq_some hfound
      by_cases htype : entry.1.keyType = type
      · rw [← LibraryKey.key_eq entry.1, htype, KeyUnion.key_lt_key_iff] at hless
        simpa [htype] using hless
      · simp [htype, int64Max]

theorem isNextId_lookup {db : Db} (h : map.record = db.lookup) (type : KeyUnion) :
    map.IsNextId type (Eems.getNextId type db) := by
  have hstored : ∀ {id : Int}, (map.record (type.key id)).isSome ↔
      ∃ record, db.lookup (type.key id) = some record := by
    intro id
    rw [h, Option.isSome_iff_exists]
  rcases getNextId_spec type db with ⟨hzero, hnone⟩ | ⟨last, record, hlast, hnext, hgreatest⟩
  · refine Or.inl ⟨Set.eq_empty_iff_forall_notMem.mpr ?_, hzero⟩
    rintro id ⟨hid, hless⟩
    obtain ⟨record, hrecord⟩ := hstored.mp hid
    exact absurd hless (not_lt.mpr (hnone id record hrecord))
  · have hle := getNextId_le type db
    rw [hnext] at hle
    rw [hnext, StoreMap.IsNextId, add_sub_cancel_right]
    refine Or.inr ⟨⟨hstored.mpr ⟨record, hlast⟩, by omega⟩, ?_⟩
    rintro id ⟨hid, hless⟩
    obtain ⟨other, hother⟩ := hstored.mp hid
    exact hgreatest id other hother hless

/-- No call takes a key away. -/
theorem isSome_write {key : LibraryKey} (h : (map.record key).isSome) (batch : Batch) :
    (map.write batch key).isSome := by
  induction batch generalizing map with
  | nil => exact h
  | cons put rest ih =>
      apply ih ⟨Function.update map.record put.1 (some put.2), map.outcomes⟩
      by_cases hkey : key = put.1
      · simp [hkey]
      · simpa [hkey] using h

end StoreMap

/-- The ids of a batch that `put_items` writes. -/
theorem fits_putBatch {parent : ObjectKey} {items : List MediaObject}
    {resources : List (ResourceKey × Resource)} (h : PutFits parent items resources)
    (containerData : List LibraryKey) (containerMeta : ContainerMeta) :
    ∀ put ∈ putBatch parent items resources containerData containerMeta, FitsInt64 put.1 := by
  intro put hput
  simp only [putBatch, List.mem_append, List.mem_map, List.mem_singleton] at hput
  rcases hput with (⟨pair, hpair, rfl⟩ | ⟨item, hitem, rfl⟩) | rfl
  · exact h.resources pair hpair
  · exact (h.items item hitem).1
  · exact h.parent

/-- Filing keeps the ids of listings in range. -/
theorem StoreMap.children_fit_filed {map : StoreMap} {db : Db}
    (hrecord : map.record = db.lookup) {parent : ObjectKey}
    {items : List MediaObject} {resources : List (ResourceKey × Resource)}
    (hfits : PutFits parent items resources)
    (hmap : ∀ key object, map.record key = some (.mediaObject object) →
      ∀ child ∈ object.children, FitsInt64 child) {container : MediaObject}
    (hcontainer : map.container parent = .ok container) :
    ∀ key object, map.filed parent container items resources key = some (.mediaObject object) →
      ∀ child ∈ object.children, FitsInt64 child := by
  intro key object hstored child hchild
  rw [StoreMap.filed, map.write_eq_lookup hrecord] at hstored
  rcases OrderedMap.mem_or_lookup_of_write db hstored with hput | hold
  · simp only [putBatch, List.mem_append, List.mem_map, List.mem_singleton, Prod.mk.injEq] at hput
    rcases hput with (⟨pair, -, -, hresource⟩ | ⟨item, hitem, -, hobject⟩) | ⟨-, hobject⟩
    · cases hresource
    · obtain rfl := Record.mediaObject.inj hobject
      exact (hfits.items item hitem).2 child hchild
    · obtain rfl := Record.mediaObject.inj hobject
      rw [children_serializeContainer, List.mem_append] at hchild
      rcases hchild with hlisted | hnew
      · exact hmap _ container (map.record_of_container hcontainer) child hlisted
      · obtain ⟨item, hitem, rfl⟩ := List.mem_map.mp hnew
        exact (hfits.items item hitem).1
  · exact hmap key object (hrecord ▸ hold) child hchild

/-- No call takes a record away. -/
theorem StoreMap.Allows.isSome {call : StoreCall} {map after : StoreMap} {answer : call.Answer}
    (h : StoreMap.Allows call map answer after) {key : LibraryKey}
    (hkey : (map.record key).isSome) : (after.record key).isSome := by
  cases call with
  | putItems parent items resources fits =>
      obtain rfl : after = (map.putItems parent items resources).2 := congrArg Prod.snd h
      unfold putItems
      split
      · exact hkey
      · split
        · split
          · exact map.isSome_write hkey _
          · exact hkey
          · exact hkey
        · exact hkey
  | list id fits => exact h.2 ▸ hkey
  | get id fits => exact h.2 ▸ hkey
  | getResource id fits => exact h.2 ▸ hkey
  | getNextId type => exact h.2 ▸ hkey

section Refinement

variable [KeyFormat]

/-- The records of the map are stored under their serialized keys; its keys and
listings have `int64_t` ids. -/
structure LevelService.Keeps (service : LevelService) (map : StoreMap) : Prop where
  stored : ∀ key, FitsInt64 key → ∀ record,
    service.db.Stored key record ↔ map.record key = some record
  fits : ∀ key record, map.record key = some record → FitsInt64 key
  children_fit : ∀ key object, map.record key = some (.mediaObject object) →
    ∀ child ∈ object.children, FitsInt64 child
  outcomes : service.outcomes = map.outcomes

theorem LevelDb.holds_writeBatch {store : LevelDb} {db : Db} (h : store.Holds db) {batch : Batch}
    (hbatch : ∀ put ∈ batch, FitsInt64 put.1) :
    (store.writeBatch batch).Holds (db.write batch) := by
  have hsame : batch.map (fun put => (wrapKey put.1, put.2)) = batch := by
    conv_rhs => rw [← List.map_id batch]
    exact List.map_congr_left fun put hput => by rw [wrapKey_of_fits (hbatch put hput)]; rfl
  have hwrite : ∀ puts (hputs : ∀ put ∈ puts, FitsInt64 put.1), puts = batch →
      (ComparatorStore.write store puts hputs).Holds (db.write batch) := by
    rintro _ hputs rfl
    exact h.write hputs
  exact hwrite _ _ hsame

namespace LevelService

variable {service : LevelService} {map : StoreMap}

theorem keeps_of_holds {store : LevelDb} {db : Db} (h : store.Holds db)
    {record : LibraryKey → Option Record} (hrecord : record = db.lookup)
    (hchildren : ∀ key object, record key = some (.mediaObject object) →
      ∀ child ∈ object.children, FitsInt64 child) (outcomes : List Outcome) :
    Keeps ⟨store, outcomes⟩ ⟨record, outcomes⟩ where
  stored key hkey found := by
    rw [hrecord]
    exact stored_iff_lookup h hkey
  fits key found hstored := by
    rw [hrecord] at hstored
    exact h.valid _ (db.mem_entries_iff.mpr hstored)
  children_fit := hchildren
  outcomes := rfl

theorem Keeps.exists_holds (h : service.Keeps map) :
    ∃ db, service.db.Holds db ∧ map.record = db.lookup := by
  obtain ⟨db, hholds⟩ := service.db.exists_holds
  refine ⟨db, hholds, ?_⟩
  funext key
  apply Option.ext
  intro record
  constructor
  · intro hmap
    have hkey := h.fits key record hmap
    exact (stored_iff_lookup hholds hkey).mp ((h.stored key hkey record).mpr hmap)
  · intro hlookup
    have hkey := hholds.valid _ (db.mem_entries_iff.mpr hlookup)
    exact (h.stored key hkey record).mp ((stored_iff_lookup hholds hkey).mpr hlookup)

theorem contents_eq {db : Db} (h : service.db.Holds db) (hrecord : map.record = db.lookup)
    {objects : List LibraryKey} (hobjects : ∀ key ∈ objects, FitsInt64 key) :
    service.contents objects = map.contents objects := by
  apply List.map_congr_left
  intro key hkey
  rw [read_of_holds h (hobjects key hkey) [], map.read_eq_lookup hrecord]

theorem keeps_filed {store : LevelDb} {db : Db} (hholds : store.Holds db)
    (hrecord : map.record = db.lookup) {parent : ObjectKey}
    {items : List MediaObject} {resources : List (ResourceKey × Resource)}
    (hfits : PutFits parent items resources)
    (hmap : ∀ key object, map.record key = some (.mediaObject object) →
      ∀ child ∈ object.children, FitsInt64 child) {container : MediaObject}
    (hcontainer : map.container parent = .ok container) (outcomes : List Outcome) :
    Keeps ⟨store.writeBatch (putBatch parent items resources container.children
        (containerMetaOf container)), outcomes⟩
      ⟨map.filed parent container items resources, outcomes⟩ := by
  have hwritten := LevelDb.holds_writeBatch hholds
    (fits_putBatch hfits container.children (containerMetaOf container))
  exact keeps_of_holds hwritten (map.write_eq_lookup hrecord _)
    (StoreMap.children_fit_filed hrecord hfits hmap hcontainer) outcomes

theorem putItems_allowed (h : service.Keeps map) {parent : ObjectKey} {items : List MediaObject}
    {resources : List (ResourceKey × Resource)} (hfits : PutFits parent items resources) :
    (step (.putItems parent items resources hfits) service).1 =
        (map.putItems parent items resources).1 ∧
      (step (.putItems parent items resources hfits) service).2.Keeps
        (map.putItems parent items resources).2 := by
  obtain ⟨db, hholds, hrecord⟩ := h.exists_holds
  obtain ⟨store, outcomes⟩ := service
  obtain rfl : outcomes = map.outcomes := h.outcomes
  have hdecode : LevelDb.deserializeContainer store (.objectKey parent) =
      (map.container parent).map fun object => (object.children, containerMetaOf object) := by
    rw [deserializeContainer_of_holds hholds hfits.parent, map.container_eq_lookup hrecord]
  simp only [step, putItems, bind_apply, get_apply, hdecode, StoreMap.putItems]
  cases hcontainer : map.container parent with
  | error error => exact ⟨rfl, h⟩
  | ok container =>
      simp only [Except.map, fromExcept_ok_apply, addItems_eq]
      by_cases hparents : ∀ item ∈ items, item.parentId = parent
      · simp only [if_pos hparents, fromExcept_ok_apply, write, pure_apply]
        have hkept := keeps_filed hholds hrecord hfits h.children_fit hcontainer
        cases houtcomes : map.outcomes with
        | nil => exact ⟨rfl, hkept []⟩
        | cons outcome rest =>
            cases outcome with
            | applied => exact ⟨rfl, hkept rest⟩
            | failed => exact ⟨rfl, keeps_of_holds hholds hrecord h.children_fit rest⟩
            | interrupted => exact ⟨rfl, keeps_of_holds hholds hrecord h.children_fit rest⟩
      · simp only [if_neg hparents, fromExcept_error_apply]
        exact ⟨rfl, h⟩

/-- A call on the serialized keys is a call on the map. -/
theorem Keeps.step_allowed (h : service.Keeps map) (call : StoreCall) :
    ∃ after, StoreMap.Allows call map (step call service).1 after ∧
      (step call service).2.Keeps after := by
  obtain ⟨db, hholds, hrecord⟩ := h.exists_holds
  cases call with
  | putItems parent items resources fits =>
      obtain ⟨hanswer, hafter⟩ := putItems_allowed h fits
      exact ⟨_, Prod.ext hanswer rfl, hafter⟩
  | list id fits =>
      refine ⟨map, ⟨?_, rfl⟩, h⟩
      simp only [step, deserializeContainer_of_holds hholds fits, map.container_eq_lookup hrecord]
      cases hcontainer : map.container id with
      | error error => rfl
      | ok container =>
          have hlisted := h.children_fit _ _ (map.record_of_container hcontainer)
          exact congrArg Except.ok (contents_eq hholds hrecord hlisted)
  | get id fits => exact ⟨map, ⟨contents_eq hholds hrecord (by simpa using fits), rfl⟩, h⟩
  | getResource id fits =>
      refine ⟨map, ⟨?_, rfl⟩, h⟩
      rw [step, getResource_of_holds hholds fits, map.resource_eq_lookup hrecord]
  | getNextId type =>
      refine ⟨map, ⟨?_, rfl⟩, h⟩
      rw [step, getNextId_of_holds hholds]
      exact map.isNextId_lookup hrecord type

end LevelService

/-- A store with a reachable library under its keys keeps it. -/
theorem Reachable.keeps [ArtworkSorter] {calls : List ScanCall} {system : System}
    (h : Reachable calls system) {store : LevelDb} (hholds : store.Holds system.db)
    (outcomes : List Outcome) :
    LevelService.Keeps ⟨store, outcomes⟩ ⟨system.db.lookup, outcomes⟩ := by
  refine LevelService.keeps_of_holds hholds rfl ?_ outcomes
  intro key object hstored child hchild
  have htree := h.library.libraryTree
  obtain ⟨id, rfl⟩ : ∃ id, key = .objectKey id :=
    ⟨_, h.library.object_key key object hstored⟩
  obtain ⟨other, -, hother, -⟩ :=
    htree.child_stored id object (objectAt_eq_some_iff.mpr hstored) child hchild
  exact hholds.valid _ (system.db.mem_entries_iff.mpr (objectAt_eq_some_iff.mp hother))

/-- Every client of the store finds under the serialized keys what the map allows,
and nothing is ever lost. -/
theorem client_runs_on_map {B : Type} (client : Client StoreCall StoreCall.Answer B)
    {service : LevelService} {map : StoreMap} (h : service.Keeps map) :
    ∃ after, client.Runs StoreMap.Allows map (client.run LevelService.step service).1 after ∧
      (client.run LevelService.step service).2.Keeps after ∧
      ∀ key, (map.record key).isSome → (after.record key).isSome := by
  obtain ⟨after, hruns, hafter⟩ :=
    client.exists_runs (R := LevelService.Keeps) (fun call _ _ h => h.step_allowed call) h
  refine ⟨after, hruns, hafter, fun key hkey => ?_⟩
  exact @Client.Runs.keeps _ _ _ _ _ (fun map => (map.record key).isSome)
    (fun call before answer after hallowed => hallowed.isSome) _ _ _ _ hruns hkey

end Refinement

/-- An empty container below the root. -/
def shelf : MediaObject := moviesFolderObject ⟨1000⟩ ⟨0⟩

theorem putFits_shelf : PutFits ⟨0⟩ [shelf] [] where
  parent := by decide
  items item hitem := by
    obtain rfl := List.mem_singleton.mp hitem
    exact ⟨by decide, fun child hchild => absurd hchild List.not_mem_nil⟩
  resources pair hpair := absurd hpair List.not_mem_nil

/-- File it, and list the root. -/
def shelfClient : Client StoreCall StoreCall.Answer (Except Failure Contents) :=
  .call (.putItems ⟨0⟩ [shelf] [] putFits_shelf) fun _ => .call (.list ⟨0⟩ (by decide)) .done

/-- The library of the films, as a map. -/
def filmMap : StoreMap := ⟨filmSystem.db.lookup, []⟩

theorem client_runs_on_map_films :
    ∃ service : @LevelService flatKeys, ∃ after,
      shelfClient.Runs StoreMap.Allows filmMap
        (shelfClient.run (@LevelService.step flatKeys) service).1 after ∧
      @LevelService.Keeps flatKeys (shelfClient.run (@LevelService.step flatKeys) service).2 after ∧
      ∀ key, (filmMap.record key).isSome → (after.record key).isSome := by
  obtain ⟨store, hholds⟩ := @Reachable.exists_levelDb flatKeys insertionSorter _ _ reachable_films
  have hkeeps : @LevelService.Keeps flatKeys (@LevelService.mk flatKeys store []) filmMap :=
    @Reachable.keeps flatKeys insertionSorter _ _ reachable_films store hholds []
  exact ⟨@LevelService.mk flatKeys store [], @client_runs_on_map flatKeys _ shelfClient _ _ hkeeps⟩

end Eems

/-
Opening the database: an existing one is taken as it is, a missing one is
created and given the root container in a second step.
-/
import Eems.Library

namespace Eems

open Hoare ListedTree

/-- The database that a completed creation leaves. -/
def newDb : Db :=
  OrderedMap.empty.insert rootKey (.mediaObject (serializeContainer [] rootContainerMeta))

@[simp] theorem Disk.next_db (disk : Disk) : disk.next.2.db = disk.db := by
  unfold Disk.next
  split <;> rfl

theorem openExisting_eq_ok {disk next : Disk} {found : Option Db}
    (h : openExisting disk = .ok found next) : found = disk.db ∧ next.db = disk.db := by
  have hdb := disk.next_db
  unfold openExisting at h
  split at h
  · rename_i hnext
    obtain ⟨rfl, rfl⟩ := EStateM.Result.ok.inj h
    rw [hnext] at hdb
    exact ⟨hdb, hdb⟩
  · simp at h
  · simp at h

theorem createDb_eq_ok {disk next : Disk} {value : PUnit}
    (h : createDb disk = .ok value next) : next.db = some OrderedMap.empty := by
  unfold createDb at h
  split at h
  · rw [← (EStateM.Result.ok.inj h).2]
  · simp at h
  · simp at h

theorem putRootContainer_eq_ok {disk next : Disk} {value : PUnit}
    (h : putRootContainer disk = .ok value next) :
    next.db = disk.db.map fun db =>
      db.insert rootKey (.mediaObject (serializeContainer [] rootContainerMeta)) := by
  have hdb := disk.next_db
  unfold putRootContainer at h
  split at h
  · rename_i hnext
    rw [← (EStateM.Result.ok.inj h).2, ← hdb, hnext]
    rfl
  · simp at h
  · simp at h

/-- Opening either finds a database, which it leaves as it is, or completes a
new one. -/
theorem openDb_eq_ok {disk next : Disk} {existed : Bool} (h : openDb disk = .ok existed next) :
    (existed = true ∧ disk.db.isSome ∧ next.db = disk.db) ∨
      (existed = false ∧ disk.db = none ∧ next.db = some newDb) := by
  unfold openDb at h
  rw [bind_apply] at h
  cases hopen : openExisting disk with
  | error error state => simp [hopen] at h
  | ok found opened =>
      obtain ⟨rfl, hopened⟩ := openExisting_eq_ok hopen
      simp only [hopen] at h
      cases hdb : disk.db with
      | some db =>
          simp only [hdb, pure_apply, EStateM.Result.ok.injEq] at h
          obtain ⟨rfl, rfl⟩ := h
          exact Or.inl ⟨rfl, rfl, hopened.trans hdb⟩
      | none =>
          simp only [hdb, bind_apply] at h
          cases hcreate : createDb opened with
          | error error state => simp [hcreate] at h
          | ok value created =>
              simp only [hcreate] at h
              cases hput : putRootContainer created with
              | error error state => simp [hput] at h
              | ok value put =>
                  simp only [hput, pure_apply, EStateM.Result.ok.injEq] at h
                  obtain ⟨rfl, rfl⟩ := h
                  refine Or.inr ⟨rfl, rfl, ?_⟩
                  rw [putRootContainer_eq_ok hput, createDb_eq_ok hcreate]
                  rfl

@[simp] theorem lookup_newDb (key : LibraryKey) :
    newDb.lookup key =
      if key = rootKey then some (.mediaObject (serializeContainer [] rootContainerMeta))
      else none := by
  simp [newDb, OrderedMap.lookup_insert]

theorem objectAt_newDb {key : LibraryKey} {object : MediaObject} :
    objectAt newDb key = some object ↔
      key = rootKey ∧ object = serializeContainer [] rootContainerMeta := by
  rw [objectAt_eq_some_iff, lookup_newDb]
  split <;> simp [*, eq_comm]

theorem library_newDb (files : FileInfo → Prop) : Library files newDb := by
  have hroot := isContainer_serializeContainer [] rootContainerMeta
  have hnode : ∀ key node, listing newDb key = some node →
      key = rootKey ∧ node = nodeOf (serializeContainer [] rootContainerMeta) := by
    intro key node hkey
    obtain ⟨object, hobject, rfl⟩ := Option.map_eq_some_iff.mp hkey
    obtain ⟨rfl, rfl⟩ := objectAt_newDb.mp hobject
    exact ⟨rfl, rfl⟩
  have hnoResource : ∀ key, ¬ IsStoredResource newDb key := by
    rintro key ⟨resource, hresource⟩
    rw [lookup_newDb] at hresource
    split at hresource <;> simp at hresource
  have hnoRefs : ∀ key, refsAt newDb key = [] := by
    intro key
    unfold refsAt
    cases hobject : objectAt newDb key with
    | none => rfl
    | some object =>
        obtain ⟨-, rfl⟩ := objectAt_newDb.mp hobject
        simp [MediaObject.resourceRefs, MediaObject.resources, serializeContainer,
          rootContainerMeta, MediaObject.artworks]
  refine ⟨?_, ?_, ?_, ?_, ?_, ?_, ?_, ?_, ?_, ?_⟩
  · intro key object hkey
    obtain ⟨rfl, rfl⟩ := objectAt_newDb.mp (objectAt_eq_some_iff.mpr hkey)
    rfl
  · exact fun key resource hkey => absurd ⟨resource, hkey⟩ (hnoResource key)
  · intro key record hkey
    rw [lookup_newDb] at hkey
    split at hkey
    · rename_i heq
      rw [heq]
      exact le_refl 0
    · simp at hkey
  · rintro key object hkey
    obtain ⟨-, rfl⟩ := objectAt_newDb.mp hkey
    exact Or.inl hroot
  · refine ⟨?_, ?_, ?_, ?_, ?_, ?_⟩
    · refine ⟨nodeOf (serializeContainer [] rootContainerMeta), ?_, ?_⟩
      · simp [listing, objectAt_newDb.mpr ⟨rfl, rfl⟩]
      · simp [nodeOf_children_of_isContainer hroot]
    · intro node hkey
      obtain ⟨-, rfl⟩ := hnode _ _ hkey
      simp [listing, objectAt, nodeOf, serializeContainer, rootContainerMeta, rootKey]
    · intro key node hkey c hc
      obtain ⟨-, rfl⟩ := hnode _ _ hkey
      simp at hc
    · intro key node hkey
      obtain ⟨-, rfl⟩ := hnode _ _ hkey
      simp
    · exact fun key node hkey hne => absurd (hnode _ _ hkey).1 hne
    · intro key node hkey
      rw [(hnode _ _ hkey).1]
      exact .root
  · intro root hkey
    obtain ⟨-, rfl⟩ := objectAt_newDb.mp hkey
    rfl
  · intro root hkey
    obtain ⟨-, rfl⟩ := objectAt_newDb.mp hkey
    exact Or.inl (children_serializeContainer _ _)
  · refine ⟨?_, ?_, ?_, ?_⟩
    · exact fun key r hr => by simp [hnoRefs] at hr
    · exact fun key => by simp [hnoRefs]
    · exact fun key other r hr => by simp [hnoRefs] at hr
    · exact fun r hr => absurd hr (hnoResource r)
  · exact fun key resource hkey => absurd ⟨resource, hkey⟩ (hnoResource key)
  · intro key object hkey hitem
    obtain ⟨-, rfl⟩ := objectAt_newDb.mp hkey
    obtain ⟨item, hdata⟩ := hitem
    simp [serializeContainer] at hdata

end Eems

/-
The media library as a whole: a tree of containers and items below the root
container, and the resources its objects refer to.  Its only operation files a
batch of fresh leaves, with their resources, below a stored container.
-/
import Eems.Composer
import Eems.Basic.ListedTree
import Eems.Basic.Ownership

namespace Eems

open ListedTree Ownership

def rootKey : LibraryKey := .objectKey ⟨0⟩

def objectAt (db : Db) (key : LibraryKey) : Option MediaObject :=
  match db.lookup key with
  | some (.mediaObject object) => some object
  | _ => none

theorem objectAt_eq_some_iff {db : Db} {key : LibraryKey} {object : MediaObject} :
    objectAt db key = some object ↔ db.lookup key = some (.mediaObject object) := by
  unfold objectAt
  cases db.lookup key with
  | none => simp
  | some record => cases record <;> simp

theorem read_eq_ok_iff {view : ListResultView} {key : LibraryKey} {object : MediaObject} :
    view.read key = .ok object ↔ objectAt view.db key = some object := by
  rw [ListResultView.read, OrderedMap.seekExact_eq_lookup, objectAt]
  cases view.db.lookup key with
  | none => simp
  | some record => cases record <;> simp [asMediaObject]

theorem list_eq_ok_iff {db : Db} {id : ObjectKey} {view : ListResultView} :
    StoreService.list db id = .ok view ↔
      ∃ object, objectAt db (.objectKey id) = some object ∧ object.IsContainer ∧
        view = ⟨db, object.children⟩ := by
  unfold StoreService.list
  cases hdecode : deserializeContainer db (.objectKey id) with
  | error error =>
      simp only [bind, Except.bind, reduceCtorEq, false_iff, not_exists, not_and]
      intro object hobject hcontainer
      have hok := deserializeContainer_eq_ok_iff.mpr
        ⟨object, objectAt_eq_some_iff.mp hobject, hcontainer, rfl, rfl⟩
      simp [hdecode] at hok
  | ok decoded =>
      obtain ⟨data, containerMeta⟩ := decoded
      obtain ⟨object, hobject, hcontainer, rfl, -⟩ := deserializeContainer_eq_ok_iff.mp hdecode
      have hat := objectAt_eq_some_iff.mpr hobject
      simp only [bind, Except.bind, Except.ok.injEq, hat, Option.some.injEq]
      constructor
      · rintro rfl
        exact ⟨object, rfl, hcontainer, rfl⟩
      · rintro ⟨_, rfl, -, rfl⟩
        rfl

/-- An object as a node of the tree: only containers can have children. -/
def nodeOf (object : MediaObject) : Node LibraryKey where
  parent := .objectKey object.parentId
  children := match object.data with
    | .mediaContainer _ => some object.children
    | _ => none

@[simp] theorem childList_nodeOf (object : MediaObject) :
    (nodeOf object).childList = object.children := by
  cases hdata : object.data <;> simp [Node.childList, nodeOf, hdata, MediaObject.children]

theorem nodeOf_children_of_isContainer {object : MediaObject} (h : object.IsContainer) :
    (nodeOf object).children = some object.children := by
  obtain ⟨container, hdata⟩ := h
  simp [nodeOf, hdata]

theorem isContainer_of_nodeOf {object : MediaObject} (h : (nodeOf object).children.isSome) :
    object.IsContainer := by
  cases hdata : object.data with
  | none => simp [nodeOf, hdata] at h
  | mediaItem item => simp [nodeOf, hdata] at h
  | mediaContainer container => exact ⟨container, hdata⟩

theorem isContainer_of_mem_children {object : MediaObject} {key : LibraryKey}
    (h : key ∈ object.children) : object.IsContainer := by
  cases hdata : object.data with
  | none => simp [MediaObject.children, hdata] at h
  | mediaItem item => simp [MediaObject.children, hdata] at h
  | mediaContainer container => exact ⟨container, hdata⟩

/-- The tree of the stored objects. -/
def listing (db : Db) : Listing LibraryKey := fun key => (objectAt db key).map nodeOf

theorem listing_eq_some {db : Db} {key : LibraryKey} {object : MediaObject}
    (h : objectAt db key = some object) : listing db key = some (nodeOf object) := by
  simp [listing, h]

/-- The references held by the object under a key. -/
def refsAt (db : Db) (key : LibraryKey) : List LibraryKey :=
  ((objectAt db key).map MediaObject.resourceRefs).getD []

def IsStoredResource (db : Db) (key : LibraryKey) : Prop :=
  ∃ resource, db.lookup key = some (.resource resource)

/-- The resources of an item: its video first, then subtitles, each reference
naming the record of a file and carrying the file's MIME type. -/
def RefersTo (holds : LibraryKey → FileInfo → Prop) (object : MediaObject) : Prop :=
  ∃ (video : LibraryKey × FileInfo) (subtitles : List (LibraryKey × FileInfo)),
    object.resources = (video :: subtitles).map (fun p => createResourceRef p.1 p.2) ∧
    isVideoType video.2.mimeType ∧ (∀ p ∈ subtitles, isTextType p.2.mimeType) ∧
    ∀ p ∈ video :: subtitles, holds p.1 p.2

theorem RefersTo.mono {holds holds' : LibraryKey → FileInfo → Prop} {object : MediaObject}
    (h : RefersTo holds object) (hmono : ∀ key info, holds key info → holds' key info) :
    RefersTo holds' object := by
  obtain ⟨video, subtitles, hrefs, hvideo, hsubtitles, hholds⟩ := h
  exact ⟨video, subtitles, hrefs, hvideo, hsubtitles, fun p hp => hmono _ _ (hholds p hp)⟩

/-- The invariant of every database state: `files` are the files that scans
have read so far. -/
structure Library (files : FileInfo → Prop) (db : Db) : Prop where
  object_key : ∀ key object, db.lookup key = some (.mediaObject object) →
    key = .objectKey object.id
  resource_key : ∀ key resource, db.lookup key = some (.resource resource) →
    ∃ id, key = .resourceKey id
  id_nonneg : ∀ key record, db.lookup key = some record → 0 ≤ key.id
  object_type : ∀ key object, objectAt db key = some object →
    object.IsContainer ∨ object.IsItem
  tree : WellFormed rootKey (listing db)
  root_parent : ∀ root, objectAt db rootKey = some root → root.parentId = ⟨-1⟩
  root_children : ∀ root, objectAt db rootKey = some root → root.children = [] ∨
    ∃ key movies, root.children = [key] ∧ objectAt db key = some movies ∧
      movies.IsContainer ∧ asStringView movies.dcTitle = moviesFolderName
  owned : Owned (refsAt db) (IsStoredResource db)
  resource_file : ∀ key resource, db.lookup key = some (.resource resource) →
    ∃ info, files info ∧ resource = resourceOf info
  item_refs : ∀ key object, objectAt db key = some object → object.IsItem →
    RefersTo (fun ref info => files info ∧ db.lookup ref = some (.resource (resourceOf info)))
      object

/-- Items and resources that a single `put_items` call may file: all of them
new, the items without children, the resources referred to once each. -/
structure FreshBatch (files : FileInfo → Prop) (db : Db) (items : List MediaObject)
    (resources : List (ResourceKey × Resource)) : Prop where
  ids_nodup : (items.map MediaObject.id).Nodup
  ids_nonneg : ∀ item ∈ items, 0 ≤ item.id.id
  ids_absent : ∀ item ∈ items, db.lookup (.objectKey item.id) = none
  keys_nodup : (resources.map Prod.fst).Nodup
  keys_nonneg : ∀ p ∈ resources, 0 ≤ p.1.id
  keys_absent : ∀ p ∈ resources, db.lookup (.resourceKey p.1) = none
  leaves : ∀ item ∈ items, item.children = []
  typed : ∀ item ∈ items, item.IsContainer ∨ item.IsItem
  refs : (items.flatMap MediaObject.resourceRefs).Perm
    (resources.map fun p => .resourceKey p.1)
  resource_file : ∀ p ∈ resources, ∃ info, files info ∧ p.2 = resourceOf info
  item_refs : ∀ item ∈ items, item.IsItem → RefersTo (fun ref info => files info ∧
    ∃ id, ref = .resourceKey id ∧ (id, resourceOf info) ∈ resources) item

/-- The keys that a batch puts, its parent's excepted. -/
def newKeys (items : List MediaObject) (resources : List (ResourceKey × Resource)) :
    List LibraryKey :=
  resources.map (fun p => .resourceKey p.1) ++ items.map fun item => .objectKey item.id

theorem newKeys_absent {db : Db} {items : List MediaObject}
    {resources : List (ResourceKey × Resource)}
    (hitems : ∀ item ∈ items, db.lookup (.objectKey item.id) = none)
    (hresources : ∀ p ∈ resources, db.lookup (.resourceKey p.1) = none) {key : LibraryKey}
    (hkey : key ∈ newKeys items resources) : db.lookup key = none := by
  rcases List.mem_append.mp hkey with hmem | hmem
  · obtain ⟨p, hp, rfl⟩ := List.mem_map.mp hmem
    exact hresources p hp
  · obtain ⟨item, hitem, rfl⟩ := List.mem_map.mp hmem
    exact hitems item hitem

theorem newKeys_nodup {items : List MediaObject} {resources : List (ResourceKey × Resource)}
    (hitems : (items.map MediaObject.id).Nodup) (hresources : (resources.map Prod.fst).Nodup) :
    (newKeys items resources).Nodup := by
  refine List.nodup_append.mpr ⟨?_, ?_, ?_⟩
  · have hinj : Function.Injective LibraryKey.resourceKey := fun _ _ heq => by simpa using heq
    simpa [Function.comp_def] using hresources.map hinj
  · have hinj : Function.Injective LibraryKey.objectKey := fun _ _ heq => by simpa using heq
    simpa [Function.comp_def] using hitems.map hinj
  · rintro _ hleft _ hright rfl
    obtain ⟨p, -, rfl⟩ := List.mem_map.mp hleft
    obtain ⟨item, -, heq⟩ := List.mem_map.mp hright
    simp at heq

theorem map_fst_putBatch (parent : ObjectKey) (items : List MediaObject)
    (resources : List (ResourceKey × Resource)) (containerData : List LibraryKey)
    (containerMeta : ContainerMeta) :
    (putBatch parent items resources containerData containerMeta).map Prod.fst =
      newKeys items resources ++ [.objectKey parent] := by
  simp [putBatch, newKeys, Function.comp_def]

namespace FreshBatch

variable {files : FileInfo → Prop} {db : Db} {items : List MediaObject}
  {resources : List (ResourceKey × Resource)}

theorem mem_newKeys_absent (h : FreshBatch files db items resources) {key : LibraryKey}
    (hkey : key ∈ newKeys items resources) : db.lookup key = none :=
  newKeys_absent h.ids_absent h.keys_absent hkey

theorem newKeys_nodup (h : FreshBatch files db items resources) :
    (newKeys items resources).Nodup :=
  Eems.newKeys_nodup h.ids_nodup h.keys_nodup

/-- The database after the batch is written. -/
structure Filed (db : Db) (parent : ObjectKey) (items : List MediaObject)
    (resources : List (ResourceKey × Resource)) (container : MediaObject) (after : Db) :
    Prop where
  container : after.lookup (.objectKey parent) = some (.mediaObject container)
  item : ∀ item ∈ items, after.lookup (.objectKey item.id) = some (.mediaObject item)
  resource : ∀ p ∈ resources, after.lookup (.resourceKey p.1) = some (.resource p.2)
  frame : ∀ key, key ≠ .objectKey parent → key ∉ newKeys items resources →
    after.lookup key = db.lookup key

/-- Writing a batch under keys not yet stored. -/
theorem filed_of_absent (hnodup : (newKeys items resources).Nodup)
    (habsent : ∀ key ∈ newKeys items resources, db.lookup key = none) {parent : ObjectKey}
    {record : Record} (hparent : db.lookup (.objectKey parent) = some record)
    (containerData : List LibraryKey) (containerMeta : ContainerMeta) :
    Filed db parent items resources
      (serializeContainer (containerData ++ items.map fun item => .objectKey item.id)
        containerMeta)
      (db.write (putBatch parent items resources containerData containerMeta)) := by
  have hnotNew : LibraryKey.objectKey parent ∉ newKeys items resources := fun hmem =>
    Option.some_ne_none record (hparent.symm.trans (habsent _ hmem))
  have hkeys : ((putBatch parent items resources containerData containerMeta).map
      Prod.fst).Nodup := by
    rw [map_fst_putBatch, List.nodup_append]
    refine ⟨hnodup, by simp, ?_⟩
    rintro key hkey _ hlast rfl
    exact hnotNew (by simpa using List.mem_singleton.mp hlast ▸ hkey)
  refine ⟨?_, ?_, ?_, ?_⟩
  · exact OrderedMap.lookup_write_of_mem db hkeys (by simp [putBatch])
  · intro item hitem
    apply OrderedMap.lookup_write_of_mem db hkeys
    simp only [putBatch, List.append_assoc, List.mem_append, List.mem_map]
    exact Or.inr (Or.inl ⟨item, hitem, rfl⟩)
  · intro p hp
    apply OrderedMap.lookup_write_of_mem db hkeys
    simp only [putBatch, List.append_assoc, List.mem_append, List.mem_map]
    exact Or.inl ⟨p, hp, rfl⟩
  · intro key hkey hnew
    apply OrderedMap.lookup_write_of_notMem db
    rw [map_fst_putBatch]
    simp [hnew, hkey]

theorem filed (h : FreshBatch files db items resources) {parent : ObjectKey}
    {record : Record} (hparent : db.lookup (.objectKey parent) = some record)
    (containerData : List LibraryKey) (containerMeta : ContainerMeta) :
    Filed db parent items resources
      (serializeContainer (containerData ++ items.map fun item => .objectKey item.id)
        containerMeta)
      (db.write (putBatch parent items resources containerData containerMeta)) :=
  filed_of_absent h.newKeys_nodup (fun _ => h.mem_newKeys_absent) hparent containerData
    containerMeta

end FreshBatch

namespace FreshBatch.Filed

variable {db after : Db} {parent : ObjectKey} {items : List MediaObject}
  {resources : List (ResourceKey × Resource)} {container : MediaObject}

/-- Where a record of the extended database comes from. -/
theorem lookup_cases (h : Filed db parent items resources container after)
    {key : LibraryKey} {record : Record} (hkey : after.lookup key = some record) :
    (key = .objectKey parent ∧ record = .mediaObject container) ∨
    (∃ item ∈ items, key = .objectKey item.id ∧ record = .mediaObject item) ∨
    (∃ p ∈ resources, key = .resourceKey p.1 ∧ record = .resource p.2) ∨
    (key ≠ .objectKey parent ∧ key ∉ newKeys items resources ∧
      db.lookup key = some record) := by
  by_cases hparent : key = .objectKey parent
  · refine Or.inl ⟨hparent, ?_⟩
    rw [hparent, h.container] at hkey
    exact (Option.some.inj hkey).symm
  · by_cases hnew : key ∈ newKeys items resources
    · rcases List.mem_append.mp hnew with hmem | hmem
      · obtain ⟨p, hp, rfl⟩ := List.mem_map.mp hmem
        rw [h.resource p hp] at hkey
        exact Or.inr (Or.inr (Or.inl ⟨p, hp, rfl, (Option.some.inj hkey).symm⟩))
      · obtain ⟨item, hitem, rfl⟩ := List.mem_map.mp hmem
        rw [h.item item hitem] at hkey
        exact Or.inr (Or.inl ⟨item, hitem, rfl, (Option.some.inj hkey).symm⟩)
    · exact Or.inr (Or.inr (Or.inr ⟨hparent, hnew, (h.frame key hparent hnew).symm.trans hkey⟩))

theorem objectAt_cases (h : Filed db parent items resources container after)
    {key : LibraryKey} {object : MediaObject} (hkey : objectAt after key = some object) :
    (key = .objectKey parent ∧ object = container) ∨
    (object ∈ items ∧ key = .objectKey object.id) ∨
    (key ≠ .objectKey parent ∧ key ∉ newKeys items resources ∧
      objectAt db key = some object) := by
  rcases h.lookup_cases (objectAt_eq_some_iff.mp hkey) with
    ⟨hparent, hrecord⟩ | ⟨item, hitem, hitemKey, hrecord⟩ | ⟨p, -, -, hrecord⟩ |
      ⟨hparent, hnew, hrecord⟩
  · exact Or.inl ⟨hparent, by simpa using hrecord⟩
  · obtain rfl : object = item := by simpa using hrecord
    exact Or.inr (Or.inl ⟨hitem, hitemKey⟩)
  · simp at hrecord
  · exact Or.inr (Or.inr ⟨hparent, hnew, objectAt_eq_some_iff.mpr hrecord⟩)

end FreshBatch.Filed

namespace Library

variable {files : FileInfo → Prop} {db : Db}

theorem mono {files' : FileInfo → Prop} (h : Library files db)
    (hmono : ∀ info, files info → files' info) : Library files' db where
  object_key := h.object_key
  resource_key := h.resource_key
  id_nonneg := h.id_nonneg
  object_type := h.object_type
  tree := h.tree
  root_parent := h.root_parent
  root_children := h.root_children
  owned := h.owned
  resource_file key resource hkey := by
    obtain ⟨info, hinfo, heq⟩ := h.resource_file key resource hkey
    exact ⟨info, hmono info hinfo, heq⟩
  item_refs key object hkey hitem :=
    (h.item_refs key object hkey hitem).mono fun _ info hheld => ⟨hmono info hheld.1, hheld.2⟩

section Put

variable {parent : ObjectKey} {items : List MediaObject}
  {resources : List (ResourceKey × Resource)} {containerMeta : ContainerMeta}
  {old : MediaObject} {after : Db}

/-- The parent as `put_items` writes it back. -/
def extendedParent (old : MediaObject) (items : List MediaObject) : MediaObject :=
  serializeContainer (old.children ++ items.map fun item => .objectKey item.id)
    (containerMetaOf old)

theorem resourceRefs_extendedParent (hcontainer : old.IsContainer) :
    (extendedParent old items).resourceRefs = old.resourceRefs := by
  obtain ⟨container, hdata⟩ := hcontainer
  have hnone : old.resources = [] := by simp [MediaObject.resources, hdata]
  simp [extendedParent, MediaObject.resourceRefs, containerMetaOf, Function.comp_def, hnone]

theorem nodeOf_extendedParent : nodeOf (extendedParent old items) =
    ⟨.objectKey old.parentId,
      some (old.children ++ items.map fun item => .objectKey item.id)⟩ := by
  have hchildren := nodeOf_children_of_isContainer (isContainer_serializeContainer
    (old.children ++ items.map fun item => .objectKey item.id) (containerMetaOf old))
  rw [children_serializeContainer] at hchildren
  rw [extendedParent, ← hchildren]
  rfl

variable (hlib : Library files db) (hfresh : FreshBatch files db items resources)
  (hold : objectAt db (.objectKey parent) = some old) (hcontainer : old.IsContainer)
  (hparents : ∀ item ∈ items, item.parentId = parent)
  (hfiled : FreshBatch.Filed db parent items resources (extendedParent old items) after)

include hfresh hold hcontainer hparents hfiled in
/-- Filing a batch extends the tree by leaves below its parent. -/
theorem listing_extends : Extends (listing db) (.objectKey parent)
    (items.map fun item => .objectKey item.id) (listing after) := by
  refine ⟨?_, ?_, ?_, ?_, ?_⟩
  · refine ⟨nodeOf old, old.children, by simp [listing, hold],
      nodeOf_children_of_isContainer hcontainer, ?_⟩
    have hafter := objectAt_eq_some_iff.mpr hfiled.container
    simp only [listing, hafter, Option.map_some, nodeOf_extendedParent]
    rfl
  · exact (List.nodup_append.mp hfresh.newKeys_nodup).2.1
  · intro key hkey
    obtain ⟨item, hitem, rfl⟩ := List.mem_map.mp hkey
    simp [listing, objectAt, hfresh.ids_absent item hitem]
  · intro key hkey
    obtain ⟨item, hitem, rfl⟩ := List.mem_map.mp hkey
    have hafter := objectAt_eq_some_iff.mpr (hfiled.item item hitem)
    refine ⟨nodeOf item, by simp [listing, hafter], ?_, ?_⟩
    · simp [nodeOf, hparents item hitem]
    · simpa using hfresh.leaves item hitem
  · intro key hkey hnew
    by_cases hres : key ∈ resources.map fun p => LibraryKey.resourceKey p.1
    · obtain ⟨p, hp, rfl⟩ := List.mem_map.mp hres
      simp [listing, objectAt, hfiled.resource p hp, hfresh.keys_absent p hp]
    · have hframe := hfiled.frame key hkey (by simp [newKeys, hres, hnew])
      simp [listing, objectAt, hframe]

include hlib hfresh hold hcontainer hfiled in
/-- The new objects bring the new resources, each referred to once. -/
theorem owned_extend : Owned (refsAt after) (IsStoredResource after) := by
  have hafterParent := objectAt_eq_some_iff.mpr hfiled.container
  refine hlib.owned.extend (items.map fun item => .objectKey item.id)
    (resources.map fun p => .resourceKey p.1) ?_ ?_ ?_ ?_ ?_ ?_
  · intro key hkey
    obtain ⟨item, hitem, rfl⟩ := List.mem_map.mp hkey
    simp [refsAt, objectAt, hfresh.ids_absent item hitem]
  · intro key hkey
    by_cases hparent : key = .objectKey parent
    · subst hparent
      simp [refsAt, hafterParent, hold, resourceRefs_extendedParent hcontainer]
    · by_cases hres : key ∈ resources.map fun p => LibraryKey.resourceKey p.1
      · obtain ⟨p, hp, rfl⟩ := List.mem_map.mp hres
        simp [refsAt, objectAt, hfiled.resource p hp, hfresh.keys_absent p hp]
      · have hframe := hfiled.frame key hparent (by simp [newKeys, hres, hkey])
        simp [refsAt, objectAt, hframe]
  · have hflat : ((items.map fun item => LibraryKey.objectKey item.id).flatMap
        (refsAt after)) = items.flatMap MediaObject.resourceRefs := by
      rw [List.flatMap_map]
      apply List.flatMap_congr
      intro item hitem
      simp [refsAt, objectAt_eq_some_iff.mpr (hfiled.item item hitem)]
    rw [hflat]
    exact hfresh.refs
  · exact (List.nodup_append.mp hfresh.newKeys_nodup).1
  · rintro key hkey ⟨resource, hstored⟩
    obtain ⟨p, hp, rfl⟩ := List.mem_map.mp hkey
    rw [hfresh.keys_absent p hp] at hstored
    simp at hstored
  · intro key
    constructor
    · rintro ⟨resource, hstored⟩
      rcases hfiled.lookup_cases hstored with
        ⟨-, hrecord⟩ | ⟨item, -, -, hrecord⟩ | ⟨p, hp, hkey, -⟩ | ⟨-, -, hdb⟩
      · simp at hrecord
      · simp at hrecord
      · exact Or.inr (List.mem_map.mpr ⟨p, hp, hkey.symm⟩)
      · exact Or.inl ⟨resource, hdb⟩
    · rintro (⟨resource, hstored⟩ | hmem)
      · refine ⟨resource, (hfiled.frame key ?_ ?_).trans hstored⟩
        · rintro rfl
          rw [objectAt_eq_some_iff.mp hold] at hstored
          simp at hstored
        · intro hnew
          rw [hfresh.mem_newKeys_absent hnew] at hstored
          simp at hstored
      · obtain ⟨p, hp, rfl⟩ := List.mem_map.mp hmem
        exact ⟨p.2, hfiled.resource p hp⟩

include hlib hfresh hold hcontainer hparents hfiled in
/-- Filing a fresh batch keeps the library whole.  Below the root nothing but
the first `Movies` container may be filed. -/
theorem filed (hroot : parent = ⟨0⟩ → old.children = [] ∧
      ∃ item, items = [item] ∧ item.IsContainer ∧
        asStringView item.dcTitle = moviesFolderName) : Library files after := by
  have hextends := listing_extends hfresh hold hcontainer hparents hfiled
  have hafterParent := objectAt_eq_some_iff.mpr hfiled.container
  have holdLookup := objectAt_eq_some_iff.mp hold
  have hmono : ∀ key record, db.lookup key = some record → key ≠ .objectKey parent →
      after.lookup key = some record := by
    intro key record hstored hne
    refine (hfiled.frame key hne fun hnew => ?_).trans hstored
    exact Option.some_ne_none record (hstored.symm.trans (hfresh.mem_newKeys_absent hnew))
  have hmonoResource : ∀ key resource, db.lookup key = some (.resource resource) →
      after.lookup key = some (.resource resource) := by
    intro key resource hstored
    apply hmono key _ hstored
    rintro rfl
    rw [holdLookup] at hstored
    simp at hstored
  refine ⟨?_, ?_, ?_, ?_, ?_, ?_, ?_, ?_, ?_, ?_⟩
  · intro key object hstored
    rcases hfiled.objectAt_cases (objectAt_eq_some_iff.mpr hstored) with
      ⟨rfl, rfl⟩ | ⟨-, hkey⟩ | ⟨-, -, hdb⟩
    · simpa [extendedParent, serializeContainer, containerMetaOf] using
        hlib.object_key _ old holdLookup
    · exact hkey
    · exact hlib.object_key key object (objectAt_eq_some_iff.mp hdb)
  · intro key resource hstored
    rcases hfiled.lookup_cases hstored with
      ⟨-, hrecord⟩ | ⟨item, -, -, hrecord⟩ | ⟨p, -, hkey, -⟩ | ⟨-, -, hdb⟩
    · simp at hrecord
    · simp at hrecord
    · exact ⟨p.1, hkey⟩
    · exact hlib.resource_key key resource hdb
  · intro key record hstored
    rcases hfiled.lookup_cases hstored with
      ⟨rfl, -⟩ | ⟨item, hitem, rfl, -⟩ | ⟨p, hp, rfl, -⟩ | ⟨-, -, hdb⟩
    · exact hlib.id_nonneg _ _ holdLookup
    · exact hfresh.ids_nonneg item hitem
    · exact hfresh.keys_nonneg p hp
    · exact hlib.id_nonneg key record hdb
  · intro key object hstored
    rcases hfiled.objectAt_cases hstored with ⟨-, rfl⟩ | ⟨hitem, -⟩ | ⟨-, -, hdb⟩
    · exact Or.inl (isContainer_serializeContainer _ _)
    · exact hfresh.typed object hitem
    · exact hlib.object_type key object hdb
  · apply hextends.wellFormed hlib.tree
    intro node hnode hmem
    obtain ⟨root, hrootAt, rfl⟩ := Option.map_eq_some_iff.mp hnode
    obtain ⟨item, hitem, hkey⟩ := List.mem_map.mp hmem
    have hnonneg := hfresh.ids_nonneg item hitem
    simp only [nodeOf, hlib.root_parent root hrootAt, LibraryKey.objectKey.injEq] at hkey
    rw [hkey] at hnonneg
    simp at hnonneg
  · intro root hrootAt
    rcases hfiled.objectAt_cases hrootAt with ⟨hkey, rfl⟩ | ⟨hitem, hkey⟩ | ⟨-, -, hdb⟩
    · have hrootOld : objectAt db rootKey = some old := hkey ▸ hold
      simpa [extendedParent, serializeContainer, containerMetaOf] using
        hlib.root_parent old hrootOld
    · obtain ⟨node, hnode, -⟩ := hlib.tree.root_stored
      rw [listing, hkey] at hnode
      simp [objectAt, hfresh.ids_absent root hitem] at hnode
    · exact hlib.root_parent root hdb
  · intro root hrootAt
    rcases hfiled.objectAt_cases hrootAt with ⟨hkey, rfl⟩ | ⟨hitem, hkey⟩ | ⟨hne, -, hdb⟩
    · obtain ⟨hnone, item, hitems, hitemContainer, htitle⟩ :=
        hroot (by simpa [rootKey] using hkey.symm)
      have hitemAt := objectAt_eq_some_iff.mpr (hfiled.item item (by simp [hitems]))
      exact Or.inr ⟨.objectKey item.id, item, by simp [extendedParent, hnone, hitems], hitemAt,
        hitemContainer, htitle⟩
    · obtain ⟨node, hnode, -⟩ := hlib.tree.root_stored
      rw [listing, hkey] at hnode
      simp [objectAt, hfresh.ids_absent root hitem] at hnode
    · rcases hlib.root_children root hdb with hnil | ⟨key, movies, hchildren, hmovies, hc, htitle⟩
      · exact Or.inl hnil
      · by_cases hkeyParent : key = .objectKey parent
        · subst hkeyParent
          rw [hold] at hmovies
          obtain rfl := Option.some.inj hmovies
          refine Or.inr ⟨_, _, hchildren, hafterParent, isContainer_serializeContainer _ _, ?_⟩
          simpa [extendedParent, serializeContainer, containerMetaOf] using htitle
        · exact Or.inr ⟨key, movies, hchildren, objectAt_eq_some_iff.mpr
            (hmono key _ (objectAt_eq_some_iff.mp hmovies) hkeyParent), hc, htitle⟩
  · exact owned_extend hlib hfresh hold hcontainer hfiled
  · intro key resource hstored
    rcases hfiled.lookup_cases hstored with
      ⟨-, hrecord⟩ | ⟨item, -, -, hrecord⟩ | ⟨p, hp, -, hrecord⟩ | ⟨-, -, hdb⟩
    · simp at hrecord
    · simp at hrecord
    · obtain ⟨info, hinfo, heq⟩ := hfresh.resource_file p hp
      exact ⟨info, hinfo, by simpa [heq] using hrecord⟩
    · exact hlib.resource_file key resource hdb
  · intro key object hstored hisItem
    rcases hfiled.objectAt_cases hstored with ⟨-, rfl⟩ | ⟨hitem, -⟩ | ⟨-, -, hdb⟩
    · obtain ⟨item, hdata⟩ := hisItem
      simp [extendedParent, serializeContainer] at hdata
    · apply (hfresh.item_refs object hitem hisItem).mono
      rintro ref info ⟨hinfo, id, rfl, hmem⟩
      exact ⟨hinfo, hfiled.resource _ hmem⟩
    · apply (hlib.item_refs key object hdb hisItem).mono
      rintro ref info ⟨hinfo, hheld⟩
      exact ⟨hinfo, hmonoResource ref _ hheld⟩

end Put

end Library

end Eems

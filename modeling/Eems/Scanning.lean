/-
What a scan keeps at every step, however it ends: the library stays whole, the
ids drawn stay ahead of the stored ones, and every batch in the journal was
fresh when it was written.
-/
import Eems.FreshBatches
import Eems.Basic.Journal

namespace Eems

open Hoare Journal

/-- The scanner after drawing ids for `objects` objects and `resources`
resources. -/
def World.draw (world : World) (objects resources : Nat) : World :=
  { world with scanner := { world.scanner with
    nextObjectId := world.scanner.nextObjectId + objects
    nextResourceId := world.scanner.nextResourceId + resources } }

theorem createMoviesFolder_apply (world : World) :
    createMoviesFolder world =
      (do
        inStore (putItems ⟨0⟩ [moviesFolderObject ⟨world.scanner.nextObjectId⟩ ⟨0⟩] [])
        cacheMoviesFolder ⟨world.scanner.nextObjectId⟩) (world.draw 1 0) := by
  simp [createMoviesFolder, inScanner, MovieScanner.nextObjectKey, World.draw]

theorem createContainer_apply (name : Bytes) (artwork : Option FileInfo × ArtworkType)
    (parent : ObjectKey) (world : World) :
    createContainer name artwork parent world =
      (do
        inStore (putItems parent
          [collectionObject name artwork world.scanner.nextObjectId
            world.scanner.nextResourceId parent]
          (collectionResources artwork.1 world.scanner.nextResourceId))
        pure (ObjectKey.mk world.scanner.nextObjectId)) (world.draw 1 artwork.1.toList.length) := by
  obtain ⟨found, artType⟩ := artwork
  cases found <;>
    simp [-bind_pure_comp, createContainer, inScanner, MovieScanner.nextObjectKey,
      MovieScanner.serializeResource, MovieScanner.nextResourceKey, World.draw,
      collectionObject, collectionResources, ObjectComposer.numberedResources,
      Numbering.numberFrom]

theorem inStore_eq_ok_iff {A : Type} {program : StoreM A} {value : A} {world after : World} :
    inStore program world = .ok value after ↔
      ∃ next, program world.store = .ok value next ∧ after = { world with store := next } := by
  unfold inStore zoom
  cases program world.store <;> simp [eq_comm]

theorem storeVideos_apply [ArtworkSorter] (composer : ObjectComposer)
    (videos : List (Bytes × FileInfo)) (world : World) :
    storeVideos composer videos world =
      if videos = [] then .ok ⟨⟩ world
      else inStore (putItems composer.parentId
        (composer.itemRecords videos world.scanner.nextObjectId world.scanner.nextResourceId)
        (ObjectComposer.numberedResources world.scanner.nextResourceId
          (videos.flatMap composer.itemFiles)))
        (world.draw videos.length (videos.flatMap composer.itemFiles).length) := by
  cases videos with
  | nil => rfl
  | cons video rest =>
      simp only [storeVideos, List.length_cons, Nat.zero_lt_succ, ↓reduceIte, bind_apply,
        composeVideos, inScanner, ObjectComposer.composeAll_eq, Composition.advance,
        List.nil_append, reduceCtorEq]
      rfl

section Rules

variable {inv : World → Prop}
  (hdraw : ∀ world objects resources, inv world → inv (world.draw objects resources))

include hdraw in
/-- A container is created by one call, for ids that are drawn before it. -/
theorem keeps_createContainer {name : Bytes} {artwork : Option FileInfo × ArtworkType}
    {parent : ObjectKey}
    (hput : ∀ id start, Keeps inv (inStore (putItems parent
      [collectionObject name artwork id start parent] (collectionResources artwork.1 start)))) :
    Keeps inv (createContainer name artwork parent) := by
  intro world h
  rw [createContainer_apply]
  exact Keeps.bind (hput _ _) (fun _ => Keeps.pure _) _ (hdraw world 1 _ h)

include hdraw in
theorem keeps_storeVideos [ArtworkSorter] {composer : ObjectComposer}
    {videos : List (Bytes × FileInfo)}
    (hput : ∀ id start, Keeps inv (inStore (putItems composer.parentId
      (composer.itemRecords videos id start)
      (ObjectComposer.numberedResources start (videos.flatMap composer.itemFiles))))) :
    Keeps inv (storeVideos composer videos) := by
  intro world h
  rw [storeVideos_apply]
  by_cases hempty : videos = []
  · rw [if_pos hempty]
    exact h
  · rw [if_neg hempty]
    exact hput _ _ _ (hdraw world videos.length _ h)

include hdraw in
/-- The `Movies` container is cached, found and cached, or created and cached. -/
theorem keeps_getMoviesFolderId
    (hput : ∀ id, Keeps inv (inStore (putItems ⟨0⟩ [moviesFolderObject id ⟨0⟩] [])))
    (hcache : ∀ key, Keeps inv (cacheMoviesFolder key)) : Keeps inv getMoviesFolderId := by
  have hcreate : Keeps inv createMoviesFolder := by
    intro world h
    rw [createMoviesFolder_apply]
    exact Keeps.bind (hput _) (fun _ => hcache _) _ (hdraw world 1 0 h)
  intro world h
  simp only [getMoviesFolderId, bind_apply, get_apply]
  by_cases hcached : world.scanner.moviesFolder.id > 0
  · rw [if_pos hcached]
    exact h
  · rw [if_neg hcached]
    cases StoreService.list world.store.db ⟨0⟩ with
    | error error => exact h
    | ok view =>
        simp only [bind_apply, fromExcept_ok_apply]
        cases findTitled view moviesFolderName view.objects with
        | error error => exact h
        | ok found =>
            cases found with
            | some item => exact hcache item.id world h
            | none => exact hcreate world h

/-- Scanning a directory is logging it, and where it can be read, at most one
collection and the videos. -/
theorem keeps_scanDirectory [ArtworkSorter] {fs : FileSystem} {path : Path}
    {config : MoviesLibraryConfig} {parent : ObjectKey}
    (hlog : ∀ world, inv world → inv { world with scanned := world.scanned ++ [path] })
    (hcollection : ∀ entries, fs.entries path = some entries →
      (config.useCollections && addCollection (readContent path entries)) = true →
        Keeps inv (createContainer (Path.stem path)
          (getFolderArtwork (readContent path entries).artwork) parent))
    (hvideos : ∀ entries composerParent, fs.entries path = some entries →
      Keeps inv (storeVideos (composerOf path config (readContent path entries) composerParent)
        (readContent path entries).videos.entries)) :
    Keeps inv (scanDirectory fs path config parent) := by
  unfold scanDirectory
  refine Keeps.bind (Keeps.modifyState hlog) fun _ => ?_
  intro world h
  cases hentries : fs.entries path with
  | none =>
      simp only [readDirectory, hentries]
      exact h
  | some entries =>
      simp only [readDirectory, hentries]
      rw [bind_apply, fromExcept_ok_apply]
      have hassign : Keeps inv
          (assignParents path config (readContent path entries) parent) := by
        unfold assignParents
        split
        · rename_i hwanted
          exact Keeps.bind (hcollection entries hentries hwanted) fun _ => Keeps.pure _
        · exact Keeps.pure _
      exact Keeps.bind hassign
        (fun assigned => Keeps.bind (hvideos entries assigned.1 hentries) fun _ => Keeps.pure _)
        world h

theorem keeps_scanLoop [ArtworkSorter] {fs : FileSystem}
    (hdirectory : ∀ path config parent, Keeps inv (scanDirectory fs path config parent))
    (originalConfig : MoviesLibraryConfig) (turns : Nat) (config : MoviesLibraryConfig)
    (directories : List (Path × ObjectKey)) :
    Keeps inv (scanLoop fs originalConfig turns config directories) := by
  induction turns generalizing config directories with
  | zero =>
      cases directories with
      | nil => exact Keeps.pure _
      | cons head rest => exact Triple.throw fun _ h => h
  | succ turns ih =>
      cases directories with
      | nil => exact Keeps.pure _
      | cons head rest =>
          exact Keeps.bind (hdirectory _ _ _) fun new => ih _ (new.reverse ++ rest)

end Rules

/-- A batch of new records and of one stored container, which lists more than
it did; nothing else that is stored is overwritten. -/
structure FreshPut (parent : ObjectKey) (db : Db) (batch : Batch) : Prop where
  keys_nodup : (batch.map Prod.fst).Nodup
  parent_extended : ∃ old container,
    db.lookup (.objectKey parent) = some (.mediaObject old) ∧
    (.objectKey parent, .mediaObject container) ∈ batch ∧
    old.children <+: container.children
  others_absent : ∀ put ∈ batch, put.1 ≠ .objectKey parent → db.lookup put.1 = none
  others_kept : ∀ key record, key ≠ .objectKey parent → db.lookup key = some record →
    (db.write batch).lookup key = some record

/-- Some stored container is extended by new records. -/
def FreshWrite (db : Db) (batch : Batch) : Prop := ∃ parent, FreshPut parent db batch

/-- What holds of the store between scans. -/
structure Recorded (files : FileInfo → Prop) (base : Db) (store : StoreService) : Prop where
  library : Library files store.db
  replayed : store.db = replay OrderedMap.write base store.journal
  fitting : Fitting OrderedMap.write FreshWrite base store.journal

/-- What every step of a scan keeps. -/
structure Scanning (files : FileInfo → Prop) (base : Db) (world : World) : Prop
    extends Recorded files base world.store where
  below : IdsBelow world.store.db world.scanner.nextObjectId world.scanner.nextResourceId
  objectId_nonneg : 0 ≤ world.scanner.nextObjectId
  resourceId_nonneg : 0 ≤ world.scanner.nextResourceId

theorem FreshBatch.freshPut {files : FileInfo → Prop} {db : Db} {items : List MediaObject}
    {resources : List (ResourceKey × Resource)} (h : FreshBatch files db items resources)
    {parent : ObjectKey} {old : MediaObject}
    (hold : db.lookup (.objectKey parent) = some (.mediaObject old))
    (containerMeta : ContainerMeta) :
    FreshPut parent db (putBatch parent items resources old.children containerMeta) := by
  have hnotNew : LibraryKey.objectKey parent ∉ newKeys items resources := fun hmem =>
    Option.some_ne_none _ (hold.symm.trans (h.mem_newKeys_absent hmem))
  have hfiled := h.filed hold old.children containerMeta
  refine ⟨?_, ⟨old, _, hold, List.mem_append_right _ List.mem_cons_self, ?_⟩, ?_, ?_⟩
  · rw [map_fst_putBatch, List.nodup_append]
    refine ⟨h.newKeys_nodup, by simp, ?_⟩
    rintro key hkey _ hlast rfl
    exact hnotNew (List.mem_singleton.mp hlast ▸ hkey)
  · simp
  · intro put hput hne
    have hkey := List.mem_map_of_mem (f := Prod.fst) hput
    rw [map_fst_putBatch] at hkey
    rcases List.mem_append.mp hkey with hnew | hlast
    · exact h.mem_newKeys_absent hnew
    · exact absurd (List.mem_singleton.mp hlast) hne
  · intro key record hne hstored
    refine (hfiled.frame key hne fun hnew => ?_).trans hstored
    exact Option.some_ne_none record (hstored.symm.trans (h.mem_newKeys_absent hnew))

namespace Scanning

variable {files : FileInfo → Prop} {base : Db} {world : World}

/-- Only the store and the ids matter. -/
theorem congr (h : Scanning files base world) {other : World}
    (hdb : other.store.db = world.store.db) (hjournal : other.store.journal = world.store.journal)
    (hobject : world.scanner.nextObjectId ≤ other.scanner.nextObjectId)
    (hresource : world.scanner.nextResourceId ≤ other.scanner.nextResourceId) :
    Scanning files base other where
  library := hdb ▸ h.library
  replayed := by rw [hdb, hjournal]; exact h.replayed
  fitting := hjournal ▸ h.fitting
  below := hdb ▸ h.below.mono hobject hresource
  objectId_nonneg := le_trans h.objectId_nonneg hobject
  resourceId_nonneg := le_trans h.resourceId_nonneg hresource

theorem draw (h : Scanning files base world) (objects resources : Nat) :
    Scanning files base (world.draw objects resources) :=
  h.congr rfl rfl (by simp [World.draw]) (by simp [World.draw])

/-- The root is stored, so ids drawn are positive. -/
theorem nextObjectId_pos (h : Scanning files base world) :
    0 < world.scanner.nextObjectId := by
  obtain ⟨node, hnode, -⟩ := h.library.tree.root_stored
  obtain ⟨root, hroot, -⟩ := Option.map_eq_some_iff.mp hnode
  exact h.below.1 ⟨0⟩ _ (objectAt_eq_some_iff.mp hroot)

end Scanning

section Put

variable {files : FileInfo → Prop} {base : Db} {items : List MediaObject}
  {resources : List (ResourceKey × Resource)} {parent : ObjectKey}

/-- A scan about to file a fresh batch whose ids it has drawn. -/
structure Filing (files : FileInfo → Prop) (base : Db) (parent : ObjectKey)
    (items : List MediaObject) (resources : List (ResourceKey × Resource))
    (world : World) : Prop where
  scanning : Scanning files base world
  fresh : FreshBatch files world.store.db items resources
  ids_drawn : ∀ item ∈ items, item.id.id < world.scanner.nextObjectId
  keys_drawn : ∀ p ∈ resources, p.1.id < world.scanner.nextResourceId
  below_root : ∀ root, parent = ⟨0⟩ → objectAt world.store.db rootKey = some root →
    root.children = [] ∧ ∃ item, items = [item] ∧ item.IsContainer ∧
      asStringView item.dcTitle = moviesFolderName

/-- Filing keeps the invariant whether the write succeeds, fails or throws. -/
theorem inStore_putItems_scanning :
    Triple (Filing files base parent items resources)
      (inStore (putItems parent items resources))
      (fun _ => Scanning files base) (fun _ => Scanning files base) := by
  apply Triple.zoom
  rintro world h _ rfl
  rcases putItems_cases parent items resources world.store with
    ⟨error, next, hput, hdb, hjournal⟩ | ⟨next, hput, hdb, hjournal⟩ |
      ⟨containerData, containerMeta, next, hdecode, hparents, hput, hdb, hjournal⟩
  · rw [hput]
    exact h.scanning.congr hdb hjournal le_rfl le_rfl
  · rw [hput]
    exact h.scanning.congr hdb hjournal le_rfl le_rfl
  · rw [hput]
    obtain ⟨old, hold, hcontainer, rfl, rfl⟩ := deserializeContainer_eq_ok_iff.mp hdecode
    have hfiled := h.fresh.filed hold old.children (containerMetaOf old)
    rw [← hdb] at hfiled
    refine ⟨⟨?_, ?_, ?_⟩, ?_, h.scanning.objectId_nonneg, h.scanning.resourceId_nonneg⟩
    · refine h.scanning.library.filed h.fresh (objectAt_eq_some_iff.mpr hold) hcontainer
        hparents hfiled ?_
      rintro rfl
      exact h.below_root old rfl (objectAt_eq_some_iff.mpr hold)
    · rw [hdb, hjournal, replay_append, ← h.scanning.replayed]
      rfl
    · rw [hjournal]
      apply h.scanning.fitting.snoc
      rw [← h.scanning.replayed]
      exact ⟨parent, h.fresh.freshPut hold (containerMetaOf old)⟩
    · constructor
      · intro key record hstored
        rcases hfiled.lookup_cases hstored with
          ⟨hkey, -⟩ | ⟨item, hitem, hkey, -⟩ | ⟨p, -, hkey, -⟩ | ⟨-, -, hsame⟩
        · obtain rfl : key = parent := by simpa using hkey
          exact h.scanning.below.1 key _ hold
        · obtain rfl : key = item.id := by simpa using hkey
          exact h.ids_drawn item hitem
        · simp at hkey
        · exact h.scanning.below.1 key record hsame
      · intro key record hstored
        rcases hfiled.lookup_cases hstored with
          ⟨hkey, -⟩ | ⟨item, -, hkey, -⟩ | ⟨p, hp, hkey, -⟩ | ⟨-, -, hsame⟩
        · simp at hkey
        · simp at hkey
        · obtain rfl : key = p.1 := by simpa using hkey
          exact h.keys_drawn p hp
        · exact h.scanning.below.2 key record hsame

end Put

/-- No stored id has reached the end of the range. -/
def InRange (db : Db) : Prop := ∀ key record, db.lookup key = some record → key.id < int64Max

section Steps

variable {files : FileInfo → Prop} {base : Db}

theorem seedIds_scanning (fail : Failure → World → Prop) :
    Triple (fun world => Recorded files base world.store ∧ InRange world.store.db) seedIds
      (fun _ => Scanning files base) fail := by
  refine Triple.modifyState fun world h => ?_
  obtain ⟨hrecorded, hrange⟩ := h
  refine ⟨hrecorded, ⟨?_, ?_⟩, ?_, ?_⟩
  · exact fun key record hkey =>
      id_lt_getNextId .objectKey (hrange _ _ hkey) hkey
  · exact fun key record hkey =>
      id_lt_getNextId .resourceKey (hrange _ _ hkey) hkey
  · exact getNextId_nonneg hrecorded.library.id_nonneg
  · exact getNextId_nonneg hrecorded.library.id_nonneg

/-- A found entry is one of the entries read, and has the title. -/
theorem findTitled_eq_some {view : ListResultView} {title : Bytes} {keys : List LibraryKey}
    {found : MediaObject} (h : findTitled view title keys = .ok (some found)) :
    ∃ key ∈ keys, view.read key = .ok found ∧ asStringView found.dcTitle = title := by
  induction keys with
  | nil => simp [findTitled] at h
  | cons key rest ih =>
      simp only [findTitled, bind, Except.bind] at h
      cases hread : view.read key with
      | error error => simp [hread] at h
      | ok item =>
          simp only [hread] at h
          split at h
          · rename_i htitle
            obtain rfl : item = found := by simpa using h
            exact ⟨key, List.mem_cons_self, hread, htitle⟩
          · obtain ⟨other, hother, hfound⟩ := ih h
            exact ⟨other, List.mem_cons_of_mem key hother, hfound⟩

theorem findTitled_eq_none {view : ListResultView} {title : Bytes} {keys : List LibraryKey}
    (h : findTitled view title keys = .ok none) :
    ∀ key ∈ keys, ∃ item, view.read key = .ok item ∧ asStringView item.dcTitle ≠ title := by
  induction keys with
  | nil => simp
  | cons key rest ih =>
      simp only [findTitled, bind, Except.bind] at h
      cases hread : view.read key with
      | error error => simp [hread] at h
      | ok item =>
          simp only [hread] at h
          split at h
          · simp at h
          · rename_i htitle
            intro other hother
            rcases List.mem_cons.mp hother with rfl | hother
            · exact ⟨item, hread, htitle⟩
            · exact ih h other hother

theorem cacheMoviesFolder_scanning {key : ObjectKey} (hkey : key ≠ ⟨0⟩)
    {fail : Failure → World → Prop} :
    Triple (Scanning files base) (cacheMoviesFolder key)
      (fun folder world => Scanning files base world ∧ folder ≠ ⟨0⟩) fail :=
  fun _ h => ⟨h.congr rfl rfl le_rfl le_rfl, hkey⟩

/-- Creating the `Movies` container below a root without children. -/
theorem createMoviesFolder_scanning :
    Triple (fun world => Scanning files base world ∧
        ∀ root, objectAt world.store.db rootKey = some root → root.children = [])
      createMoviesFolder
      (fun folder world => Scanning files base world ∧ folder ≠ ⟨0⟩)
      (fun _ => Scanning files base) := by
  rintro world ⟨h, hroot⟩
  have hpos := h.nextObjectId_pos
  have hfiling : Filing files base ⟨0⟩
      [moviesFolderObject ⟨world.scanner.nextObjectId⟩ ⟨0⟩] [] (world.draw 1 0) := by
    refine ⟨h.draw 1 0, moviesFolder_freshBatch _ h.below h.objectId_nonneg, ?_, by simp, ?_⟩
    · simp [moviesFolderObject, World.draw]
    · exact fun root _ hstored => ⟨hroot root hstored, _, rfl, ⟨_, rfl⟩,
        asStringView_putString moviesFolderName⟩
  rw [createMoviesFolder_apply]
  have hkey : ObjectKey.mk world.scanner.nextObjectId ≠ ⟨0⟩ := by
    simpa using hpos.ne'
  exact Triple.bind inStore_putItems_scanning
    (fun _ => cacheMoviesFolder_scanning hkey) _ hfiling

theorem getMoviesFolderId_scanning :
    Triple (Scanning files base) getMoviesFolderId
      (fun folder world => Scanning files base world ∧ folder ≠ ⟨0⟩)
      (fun _ => Scanning files base) := by
  intro world h
  simp only [getMoviesFolderId, bind_apply, get_apply]
  by_cases hcached : world.scanner.moviesFolder.id > 0
  · rw [if_pos hcached]
    refine ⟨h, fun hzero => ?_⟩
    rw [hzero] at hcached
    simp at hcached
  · rw [if_neg hcached]
    cases hlist : StoreService.list world.store.db ⟨0⟩ with
    | error error => exact h
    | ok view =>
        obtain ⟨root, hroot, -, rfl⟩ := list_eq_ok_iff.mp hlist
        simp only [bind_apply, fromExcept_ok_apply]
        cases hfind : findTitled ⟨world.store.db, root.children⟩ moviesFolderName
            root.children with
        | error error => exact h
        | ok found =>
            cases found with
            | some item =>
                obtain ⟨key, hkey, hread, -⟩ := findTitled_eq_some hfind
                have hstored := objectAt_eq_some_iff.mp (read_eq_ok_iff.mp hread)
                have hid := h.library.object_key key item hstored
                have hrootNode : listing world.store.db rootKey = some (nodeOf root) := by
                  simp only [listing, rootKey, hroot, Option.map_some]
                -- the root is not among its own children
                have hunlisted := h.library.tree.root_unlisted hrootNode
                rw [childList_nodeOf] at hunlisted
                have hitem : item.id ≠ ⟨0⟩ := by
                  intro hzero
                  rw [hid, hzero] at hkey
                  exact hunlisted hkey
                exact ⟨h.congr rfl rfl le_rfl le_rfl, hitem⟩
            | none =>
                refine createMoviesFolder_scanning world ⟨h, fun other hother => ?_⟩
                obtain rfl := Option.some.inj (hroot.symm.trans hother)
                rcases h.library.root_children root hroot with
                  hnil | ⟨key, movies, hchildren, hmovies, -, htitle⟩
                · exact hnil
                · obtain ⟨item, hread, hother⟩ := findTitled_eq_none hfind key (by simp [hchildren])
                  obtain rfl := Option.some.inj (hmovies.symm.trans (read_eq_ok_iff.mp hread))
                  exact absurd htitle hother

end Steps

end Eems

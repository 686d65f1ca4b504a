/-
Scans some of whose writes fail: a scan that returns has lost whole directories
of videos at most, one for each failed write, and has filed all others.
-/
import Eems.ScanCoverage

namespace Eems

open Hoare Numbering Library

/-- The object is an item whose first resource is the file. -/
def HoldsVideo (db : Db) (key : ObjectKey) (info : FileInfo) : Prop :=
  ∃ object, objectAt db (.objectKey key) = some object ∧ object.IsItem ∧
    ∃ id rest, object.resources = createResourceRef (.resourceKey id) info :: rest ∧
      db.lookup (.resourceKey id) = some (.resource (resourceOf info))

/-- The failures that the writes to come will meet. -/
def failures (outcomes : List Outcome) : Nat := outcomes.count .failed

theorem not_isContainer_of_isItem {object : MediaObject} (h : object.IsItem) :
    ¬ object.IsContainer := by
  rintro ⟨container, hcontainer⟩
  obtain ⟨item, hitem⟩ := h
  rw [hitem] at hcontainer
  simp at hcontainer

section Put

variable {parent : ObjectKey} {items : List MediaObject}
  {resources : List (ResourceKey × Resource)}

/-- When `put_items` returns, its write was applied, or failed and used up a
failure. -/
theorem putItems_eq_ok {store next : StoreService} {value : PUnit}
    (h : putItems parent items resources store = .ok value next) :
    (next.db = store.db ∧ failures next.outcomes + 1 = failures store.outcomes) ∨
      ∃ containerData containerMeta,
        deserializeContainer store.db (.objectKey parent) = .ok (containerData, containerMeta) ∧
        next.db = store.db.write (putBatch parent items resources containerData containerMeta) ∧
        failures next.outcomes = failures store.outcomes := by
  cases hdecode : deserializeContainer store.db (.objectKey parent) with
  | error error => simp [putItems, hdecode] at h
  | ok decoded =>
      obtain ⟨containerData, containerMeta⟩ := decoded
      by_cases hparents : ∀ item ∈ items, item.parentId = parent
      · simp only [putItems, bind_apply, get_apply, hdecode, fromExcept_ok_apply, addItems_eq,
          if_pos hparents, write, pure_apply] at h
        cases houtcomes : store.outcomes with
        | nil =>
            simp only [houtcomes] at h
            obtain ⟨-, rfl⟩ := EStateM.Result.ok.inj h
            exact Or.inr ⟨_, _, rfl, rfl, by simp⟩
        | cons outcome rest =>
            cases outcome with
            | applied =>
                simp only [houtcomes] at h
                obtain ⟨-, rfl⟩ := EStateM.Result.ok.inj h
                exact Or.inr ⟨_, _, rfl, rfl, by simp [failures]⟩
            | failed =>
                simp only [houtcomes] at h
                obtain ⟨-, rfl⟩ := EStateM.Result.ok.inj h
                exact Or.inl ⟨rfl, by simp [failures]⟩
            | interrupted =>
                simp only [houtcomes] at h
                simp at h
      · simp [putItems, hdecode, addItems_eq, if_neg hparents] at h

end Put

/-- The videos among the records of a batch, each under the key of its item. -/
structure Entries (items : List MediaObject) (resources : List (ResourceKey × Resource))
    (entries : List (ObjectKey × (Bytes × FileInfo))) : Prop where
  keys : (entries.map Prod.fst).Sublist (items.map MediaObject.id)
  complete : ∀ item ∈ items, item.IsItem → ∃ entry ∈ entries, entry.1 = item.id
  item : ∀ entry ∈ entries, ∃ item ∈ items, item.id = entry.1 ∧ item.IsItem ∧
    ∃ id rest, item.resources = createResourceRef (.resourceKey id) entry.2.2 :: rest ∧
      (id, resourceOf entry.2.2) ∈ resources

/-- What a scan has filed since the database was `before`, having lost the
writes of `losses` directories. -/
structure PartialScan (files : FileInfo → Prop) (base before : Db) (budget losses : Nat)
    (filed : List (ObjectKey × (Bytes × FileInfo))) (scanned : List Path) (world : World) :
    Prop where
  scanning : Scanning files base world
  scanned : world.scanned = scanned
  budget : losses + failures world.store.outcomes ≤ budget
  kept : ∀ key, world.store.db.lookup key = none → before.lookup key = none
  keys_nodup : (filed.map Prod.fst).Nodup
  fresh : ∀ entry ∈ filed, before.lookup (.objectKey entry.1) = none
  stored : ∀ entry ∈ filed, HoldsVideo world.store.db entry.1 entry.2.2
  complete : ∀ key object, objectAt world.store.db key = some object → object.IsItem →
    before.lookup key = none → ∃ entry ∈ filed, key = .objectKey entry.1

namespace PartialScan

variable {files : FileInfo → Prop} {base before : Db} {budget losses : Nat}
  {filed entries : List (ObjectKey × (Bytes × FileInfo))} {scanned : List Path}
  {world next : World}
  (h : PartialScan files base before budget losses filed scanned world)

include h

/-- Only the store matters. -/
theorem congr (hscanning : Scanning files base next) (hstore : next.store = world.store)
    (hscanned : next.scanned = world.scanned) :
    PartialScan files base before budget losses filed scanned next := by
  refine ⟨hscanning, hscanned.trans h.scanned, ?_, ?_, h.keys_nodup, h.fresh, ?_, ?_⟩
  · rw [hstore]
    exact h.budget
  · rw [hstore]
    exact h.kept
  · rw [hstore]
    exact h.stored
  · rw [hstore]
    exact h.complete

theorem draw (objects resources : Nat) :
    PartialScan files base before budget losses filed scanned (world.draw objects resources) :=
  h.congr (h.scanning.draw _ _) rfl rfl

theorem fewer {less : Nat} (hless : less ≤ losses) :
    PartialScan files base before budget less filed scanned world :=
  ⟨h.scanning, h.scanned, by have := h.budget; omega, h.kept, h.keys_nodup, h.fresh, h.stored,
    h.complete⟩

/-- A lost write leaves everything as it was. -/
theorem lost (hscanning : Scanning files base next) (hscanned : next.scanned = world.scanned)
    (hdb : next.store.db = world.store.db)
    (hfailures : failures next.store.outcomes + 1 = failures world.store.outcomes) :
    PartialScan files base before budget (losses + 1) filed scanned next := by
  have hbudget := h.budget
  refine ⟨hscanning, hscanned.trans h.scanned, by omega, ?_, h.keys_nodup, h.fresh, ?_, ?_⟩
  · rw [hdb]
    exact h.kept
  · rw [hdb]
    exact h.stored
  · rw [hdb]
    exact h.complete

section Written

variable {parent : ObjectKey} {items : List MediaObject}
  {resources : List (ResourceKey × Resource)} {container : MediaObject}
  (hcontainer : container.IsContainer) (hfresh : FreshBatch files world.store.db items resources)
  (hfiled : FreshBatch.Filed world.store.db parent items resources container next.store.db)

omit h in
include hfresh hfiled in
/-- Items stay as they are. -/
theorem holdsVideo_of_filed {old : MediaObject}
    (hold : objectAt world.store.db (.objectKey parent) = some old)
    (holdContainer : old.IsContainer) {key : ObjectKey} {info : FileInfo}
    (hholds : HoldsVideo world.store.db key info) :
    HoldsVideo next.store.db key info := by
  obtain ⟨object, hobject, hitem, id, rest, hresources, hresource⟩ := hholds
  have hstored := objectAt_eq_some_iff.mp hobject
  have hframe := hfiled.frame (.objectKey key)
    (by
      intro hkey
      rw [hkey, hold] at hobject
      exact not_isContainer_of_isItem hitem (Option.some.inj hobject ▸ holdContainer))
    fun hnew => Option.some_ne_none _ (hstored.symm.trans (hfresh.mem_newKeys_absent hnew))
  have hframeResource := hfiled.frame (.resourceKey id) (by simp)
    fun hnew => Option.some_ne_none _ (hresource.symm.trans (hfresh.mem_newKeys_absent hnew))
  exact ⟨object, objectAt_eq_some_iff.mpr (hframe.trans hstored), hitem, id, rest, hresources,
    hframeResource.trans hresource⟩

omit h in
include hfiled in
theorem holdsVideo_of_entries (hentries : Entries items resources entries)
    {entry : ObjectKey × (Bytes × FileInfo)} (hentry : entry ∈ entries) :
    HoldsVideo next.store.db entry.1 entry.2.2 := by
  obtain ⟨item, hitem, hid, hisItem, id, rest, hresources, hresource⟩ := hentries.item entry hentry
  rw [← hid]
  exact ⟨item, objectAt_eq_some_iff.mpr (hfiled.item item hitem), hisItem, id, rest, hresources,
    hfiled.resource _ hresource⟩

include hcontainer hfresh hfiled in
/-- A write that is applied files its videos. -/
theorem written (hscanning : Scanning files base next) (hscanned : next.scanned = world.scanned)
    (hfailures : failures next.store.outcomes = failures world.store.outcomes)
    (hentries : Entries items resources entries) {old : MediaObject}
    (hold : objectAt world.store.db (.objectKey parent) = some old)
    (holdContainer : old.IsContainer) :
    PartialScan files base before budget losses (filed ++ entries) scanned next := by
  have hnew : ∀ entry ∈ entries, world.store.db.lookup (.objectKey entry.1) = none := by
    intro entry hentry
    obtain ⟨item, hitem, hid, -⟩ := hentries.item entry hentry
    rw [← hid]
    exact hfresh.ids_absent item hitem
  refine ⟨hscanning, hscanned.trans h.scanned, hfailures ▸ h.budget, ?_, ?_, ?_, ?_, ?_⟩
  · intro key hnone
    apply h.kept
    by_contra hsome
    obtain ⟨record, hrecord⟩ := Option.ne_none_iff_exists'.mp hsome
    have hparent : key ≠ .objectKey parent := by
      rintro rfl
      rw [hfiled.container] at hnone
      simp at hnone
    rw [hfiled.frame key hparent fun hmem =>
      Option.some_ne_none _ (hrecord.symm.trans (hfresh.mem_newKeys_absent hmem))] at hnone
    exact hsome hnone
  · rw [List.map_append]
    refine List.nodup_append.mpr ⟨h.keys_nodup, hfresh.ids_nodup.sublist hentries.keys, ?_⟩
    rintro _ hleft _ hright rfl
    obtain ⟨entry, hentry, hkey⟩ := List.mem_map.mp hleft
    obtain ⟨other, hother, hkey'⟩ := List.mem_map.mp hright
    obtain ⟨object, hobject, -⟩ := h.stored entry hentry
    have habsent := hnew other hother
    rw [hkey', ← hkey, objectAt_eq_some_iff.mp hobject] at habsent
    simp at habsent
  · intro entry hentry
    rcases List.mem_append.mp hentry with hmem | hmem
    · exact h.fresh entry hmem
    · exact h.kept _ (hnew entry hmem)
  · intro entry hentry
    rcases List.mem_append.mp hentry with hmem | hmem
    · exact holdsVideo_of_filed hfresh hfiled hold holdContainer (h.stored entry hmem)
    · exact holdsVideo_of_entries hfiled hentries hmem
  · intro key object hobject hitem hbefore
    rcases hfiled.objectAt_cases hobject with ⟨-, rfl⟩ | ⟨hmem, rfl⟩ | ⟨-, -, hsame⟩
    · exact absurd hcontainer (not_isContainer_of_isItem hitem)
    · obtain ⟨entry, hentry, hid⟩ := hentries.complete object hmem hitem
      exact ⟨entry, List.mem_append_right _ hentry, by rw [hid]⟩
    · obtain ⟨entry, hentry, hkey⟩ := h.complete key object hsame hitem hbefore
      exact ⟨entry, List.mem_append_left _ hentry, hkey⟩

end Written

/-- Filing a batch loses it whole or files it whole. -/
theorem put {parent : ObjectKey} {items : List MediaObject}
    {resources : List (ResourceKey × Resource)}
    (hfresh : FreshBatch files world.store.db items resources)
    (hentries : Entries items resources entries)
    (hrun : inStore (putItems parent items resources) world = .ok ⟨⟩ next)
    (hscanning : Scanning files base next) :
    PartialScan files base before budget (losses + 1) filed scanned next ∨
      PartialScan files base before budget losses (filed ++ entries) scanned next := by
  obtain ⟨store, hput, rfl⟩ := inStore_eq_ok_iff.mp hrun
  rcases putItems_eq_ok hput with
    ⟨hdb, hfailures⟩ | ⟨containerData, containerMeta, hdecode, hdb, hfailures⟩
  · exact Or.inl (h.lost hscanning rfl hdb hfailures)
  · obtain ⟨old, hold, hcontainer, rfl, rfl⟩ := deserializeContainer_eq_ok_iff.mp hdecode
    have hfiled := hfresh.filed hold old.children (containerMetaOf old)
    rw [← hdb] at hfiled
    exact Or.inr (h.written (isContainer_serializeContainer _ _) hfresh hfiled hscanning
      rfl hfailures hentries (objectAt_eq_some_iff.mpr hold) hcontainer)

/-- Nothing is filed with a container but the container. -/
theorem putContainer {parent : ObjectKey} {item : MediaObject}
    {resources : List (ResourceKey × Resource)} (hitem : item.IsContainer)
    (hfresh : FreshBatch files world.store.db [item] resources)
    (hrun : inStore (putItems parent [item] resources) world = .ok ⟨⟩ next)
    (hscanning : Scanning files base next) :
    PartialScan files base before budget losses filed scanned next := by
  have hentries : Entries [item] resources [] := by
    refine ⟨List.nil_sublist _, ?_, by simp⟩
    intro other hother hisItem
    obtain rfl := List.mem_singleton.mp hother
    exact absurd hitem (not_isContainer_of_isItem hisItem)
  rcases h.put hfresh hentries hrun hscanning with hlost | hwritten
  · exact hlost.fewer (Nat.le_succ losses)
  · simpa using hwritten

end PartialScan

section Steps

variable {files : FileInfo → Prop} {base before : Db} {budget losses : Nat}
  {filed : List (ObjectKey × (Bytes × FileInfo))} {scanned : List Path}

theorem createContainer_lossy {name : Bytes} {artwork : Option FileInfo × ArtworkType}
    {parent : ObjectKey} (hartwork : ∀ info, artwork.1 = some info → files info)
    (hparent : parent ≠ ⟨0⟩) :
    Triple (PartialScan files base before budget losses filed scanned)
      (createContainer name artwork parent)
      (fun key world => PartialScan files base before budget losses filed scanned world ∧ key ≠ ⟨0⟩)
      (fun _ _ => True) := by
  intro world h
  have hscanning := @createContainer_scanning files base name artwork parent hartwork hparent
    world h.scanning
  cases hrun : createContainer name artwork parent world with
  | error error next => exact True.intro
  | ok key next =>
      simp only [hrun] at hscanning
      refine ⟨?_, hscanning.2⟩
      rw [createContainer_apply, bind_apply] at hrun
      cases hput : inStore (putItems parent
          [collectionObject name artwork world.scanner.nextObjectId world.scanner.nextResourceId
            parent]
          (collectionResources artwork.1 world.scanner.nextResourceId))
          (world.draw 1 artwork.1.toList.length) with
      | error error mid => simp [hput] at hrun
      | ok value mid =>
          simp only [hput, pure_apply] at hrun
          obtain ⟨-, rfl⟩ := EStateM.Result.ok.inj hrun
          exact (h.draw _ _).putContainer (isContainer_serializeContainer _ _)
            (collection_freshBatch h.scanning.below h.scanning.objectId_nonneg
              h.scanning.resourceId_nonneg name _ hartwork parent) hput hscanning.1

variable {fs : FileSystem} (hfiles : ∀ info, fs.HasFile info → files info) {path : Path}
  {list : List DirEntry} (hlist : fs.entries path = some list)

include hfiles hlist in
theorem assignParents_lossy {config : MoviesLibraryConfig} {parent : ObjectKey}
    (hparent : parent ≠ ⟨0⟩) :
    Triple (PartialScan files base before budget losses filed scanned)
      (assignParents path config (readContent path list) parent)
      (fun assigned world => PartialScan files base before budget losses filed scanned world ∧
        assigned.1 ≠ ⟨0⟩ ∧ assigned.2.map Prod.fst = (readContent path list).directories ∧
        ∀ directory ∈ assigned.2, directory.2 ≠ ⟨0⟩)
      (fun _ _ => True) := by
  have hpaths : ∀ key : ObjectKey, key ≠ ⟨0⟩ →
      ((readContent path list).directories.map fun directory => (directory, key)).map Prod.fst =
          (readContent path list).directories ∧
        ∀ directory ∈ (readContent path list).directories.map fun directory => (directory, key),
          directory.2 ≠ ⟨0⟩ := by
    intro key hkey
    refine ⟨by simp [Function.comp_def], ?_⟩
    intro directory hdirectory
    obtain ⟨path, -, rfl⟩ := List.mem_map.mp hdirectory
    exact hkey
  unfold assignParents
  split
  · apply Triple.bind (createContainer_lossy ?_ hparent)
    · intro key
      apply Triple.pure
      rintro world ⟨h, hkey⟩
      refine ⟨h, hkey, hpaths _ ?_⟩
      split
      · exact hkey
      · exact hparent
    · intro info hinfo
      obtain ⟨entry, hentry, rfl⟩ := ObjectComposer.mem_getFolderArtwork hinfo
      rw [readContent_eq] at hentry
      exact hfiles _ (FileSystem.hasFile_of_mem_fileMap hlist hentry).1
  · exact Triple.pure fun world h => ⟨h, hparent, hpaths parent hparent⟩

/-- The videos of a batch, each under the number its place gives it. -/
theorem entries_itemRecords [ArtworkSorter] (composer : ObjectComposer)
    {videos : List (Bytes × FileInfo)} (hnodup : videos.Nodup) (id start : Int) :
    Entries (composer.itemRecords videos id start)
      (ObjectComposer.numberedResources start (videos.flatMap composer.itemFiles))
      (videos.map fun video => (⟨number id videos video⟩, video)) := by
  rw [ObjectComposer.itemRecords_eq_map hnodup]
  refine ⟨?_, ?_, ?_⟩
  · simp [Function.comp_def, ObjectComposer.itemRecord]
  · intro item hitem _
    obtain ⟨video, hvideo, rfl⟩ := List.mem_map.mp hitem
    exact ⟨_, List.mem_map_of_mem hvideo, rfl⟩
  · intro entry hentry
    obtain ⟨video, hvideo, rfl⟩ := List.mem_map.mp hentry
    refine ⟨_, List.mem_map_of_mem hvideo, rfl, ⟨_, rfl⟩, _, _,
      ObjectComposer.resources_itemRecord _ _ _, ?_⟩
    refine List.mem_map.mpr ⟨(_, video.2), ?_, rfl⟩
    rw [numberFrom_flatMap hnodup]
    refine List.mem_flatMap.mpr ⟨video, hvideo, List.mem_of_getElem? (i := 0) ?_⟩
    have hfirst : (composer.itemFiles video)[0]? = some video.2 := rfl
    rw [getElem?_numberFrom, hfirst]
    simp only [Option.map_some, Nat.cast_zero, add_zero]
    rfl

include hfiles hlist in
/-- The videos of a directory are all filed, or all lost to a failed write. -/
theorem storeVideos_lossy [ArtworkSorter] {config : MoviesLibraryConfig} {parent : ObjectKey}
    (hparent : parent ≠ ⟨0⟩) :
    Triple (PartialScan files base before budget losses filed scanned)
      (storeVideos (composerOf path config (readContent path list) parent)
        (readContent path list).videos.entries)
      (fun _ world => ∃ kept more, more.map Prod.snd =
          (if kept = true then (readContent path list).videos.entries else []) ∧
        PartialScan files base before budget (losses + if kept = true then 0 else 1)
          (filed ++ more) scanned world)
      (fun _ _ => True) := by
  intro world h
  have hdraws := draws_composerOf hfiles hlist config parent
  have hvideos : ∀ video ∈ (readContent path list).videos.entries,
      files video.2 ∧ isVideoType video.2.mimeType := by
    intro video hvideo
    rw [readContent_eq] at hvideo
    obtain ⟨hfile, haccept⟩ := FileSystem.hasFile_of_mem_fileMap hlist hvideo
    exact ⟨hfiles _ hfile, haccept⟩
  have hscanning := @storeVideos_scanning files base _ _ _ hdraws hvideos hparent world h.scanning
  have hnodup : (readContent path list).videos.entries.Nodup := OrderedMap.entries_nodup _
  cases hrun : storeVideos (composerOf path config (readContent path list) parent)
      (readContent path list).videos.entries world with
  | error error next => exact True.intro
  | ok value next =>
      simp only [hrun] at hscanning
      rw [storeVideos_apply] at hrun
      by_cases hempty : (readContent path list).videos.entries = []
      · rw [if_pos hempty] at hrun
        obtain ⟨-, rfl⟩ := EStateM.Result.ok.inj hrun
        exact ⟨true, [], by simp [hempty], by simpa using h⟩
      · rw [if_neg hempty] at hrun
        rcases (h.draw _ _).put (ObjectComposer.freshBatch h.scanning.below
            h.scanning.objectId_nonneg h.scanning.resourceId_nonneg hdraws _ hvideos)
            (entries_itemRecords _ hnodup _ _) hrun hscanning with hlost | hwritten
        · exact ⟨false, [], rfl, by simpa using hlost⟩
        · exact ⟨true, _, by simp [Function.comp_def], hwritten⟩

theorem createMoviesFolder_lossy {world next : World} {folder : ObjectKey}
    (h : PartialScan files base before budget losses filed scanned world)
    (hrun : createMoviesFolder world = .ok folder next) (hscanning : Scanning files base next) :
    PartialScan files base before budget losses filed scanned next := by
  rw [createMoviesFolder_apply, bind_apply] at hrun
  cases hput : inStore (putItems ⟨0⟩ [moviesFolderObject ⟨world.scanner.nextObjectId⟩ ⟨0⟩] [])
      (world.draw 1 0) with
  | error error mid => simp [hput] at hrun
  | ok value mid =>
      simp only [hput, cacheMoviesFolder, inScanner] at hrun
      obtain ⟨-, rfl⟩ := EStateM.Result.ok.inj hrun
      have hmid : Scanning files base mid := hscanning.congr rfl rfl le_rfl le_rfl
      exact ((h.draw 1 0).putContainer ⟨_, rfl⟩ (moviesFolder_freshBatch files h.scanning.below
        h.scanning.objectId_nonneg) hput hmid).congr hscanning rfl rfl

/-- Finding or filing the `Movies` container files no video. -/
theorem getMoviesFolderId_lossy :
    Triple (PartialScan files base before budget losses filed scanned) getMoviesFolderId
      (fun folder world => PartialScan files base before budget losses filed scanned world ∧
        folder ≠ ⟨0⟩)
      (fun _ _ => True) := by
  intro world h
  have hscanning := getMoviesFolderId_scanning world h.scanning
  cases hrun : getMoviesFolderId world with
  | error error next => exact True.intro
  | ok folder next =>
      simp only [hrun] at hscanning
      refine ⟨?_, hscanning.2⟩
      simp only [getMoviesFolderId, bind_apply, get_apply] at hrun
      by_cases hcached : world.scanner.moviesFolder.id > 0
      · rw [if_pos hcached] at hrun
        obtain ⟨-, rfl⟩ := EStateM.Result.ok.inj hrun
        exact h
      · rw [if_neg hcached] at hrun
        cases hlist : StoreService.list world.store.db ⟨0⟩ with
        | error error => simp [hlist] at hrun
        | ok view =>
            simp only [hlist, fromExcept_ok_apply, bind_apply] at hrun
            cases hfind : findTitled view moviesFolderName view.objects with
            | error error => simp [hfind] at hrun
            | ok found =>
                simp only [hfind, fromExcept_ok_apply] at hrun
                cases found with
                | some item =>
                    obtain ⟨-, rfl⟩ := EStateM.Result.ok.inj hrun
                    exact h.congr hscanning.1 rfl rfl
                | none => exact createMoviesFolder_lossy h hrun hscanning.1

end Steps

section Loop

variable [ArtworkSorter] {site : Site} {files : FileInfo → Prop} {base before : Db}
  {budget : Nat} (hfiles : ∀ info, site.fs.HasFile info → files info)

/-- The directories whose videos were lost. -/
def lostReads (reads : List (Addr × Bool)) : Nat := (reads.filter fun read => !read.2).length

/-- The videos of the directories that lost none. -/
def Site.keptVideos (site : Site) (reads : List (Addr × Bool)) : List (Bytes × FileInfo) :=
  (reads.filter Prod.snd).flatMap fun read => site.videos read.1

omit [ArtworkSorter] in
theorem Site.keptVideos_append (first second : List (Addr × Bool)) :
    site.keptVideos (first ++ second) = site.keptVideos first ++ site.keptVideos second := by
  simp [keptVideos]

omit [ArtworkSorter] in
theorem lostReads_cons (read : Addr × Bool) (reads : List (Addr × Bool)) :
    lostReads (read :: reads) = lostReads [read] + lostReads reads := by
  cases hread : read.2 <;> simp [lostReads, hread, Nat.add_comm]

include hfiles in
/-- One turn reads a directory, and files its videos or loses them. -/
theorem scanDirectory_lossy {dir : Addr} {config : MoviesLibraryConfig} {parent : ObjectKey}
    (hparent : parent ≠ ⟨0⟩) {losses : Nat} {filed : List (ObjectKey × (Bytes × FileInfo))}
    {scanned : List Path} :
    Triple (PartialScan files base before budget losses filed scanned)
      (scanDirectory site.fs (site.path dir) config parent)
      (fun directories world => ∃ list kept more,
        site.fs.entries (site.path dir) = some list ∧
        directories.map Prod.fst = (site.subdirs dir).map site.path ∧
        (∀ directory ∈ directories, directory.2 ≠ ⟨0⟩) ∧
        more.map Prod.snd = site.keptVideos [(dir, kept)] ∧
        PartialScan files base before budget (losses + lostReads [(dir, kept)])
          (filed ++ more) (scanned ++ [site.path dir]) world)
      (fun _ _ => True) := by
  unfold scanDirectory
  have hlog : Triple (PartialScan files base before budget losses filed scanned)
      (modify fun world => { world with scanned := world.scanned ++ [site.path dir] } :
        ScanM PUnit)
      (fun _ => PartialScan files base before budget losses filed (scanned ++ [site.path dir]))
      (fun _ _ => True) := by
    apply Triple.modifyState
    intro world h
    refine ⟨h.scanning.congr rfl rfl le_rfl le_rfl, ?_, h.budget, h.kept, h.keys_nodup, h.fresh,
      h.stored, h.complete⟩
    simp [h.scanned]
  apply Triple.bind hlog
  intro _ world h
  cases hlist : site.fs.entries (site.path dir) with
  | none =>
      simp only [readDirectory, hlist, bind_apply, fromExcept_error_apply]
  | some list =>
      simp only [readDirectory, hlist]
      rw [bind_apply, fromExcept_ok_apply]
      have hcontent := Site.content_eq hlist
      apply Triple.bind (assignParents_lossy hfiles hlist hparent) ?_ world h
      intro assigned mid hmid
      obtain ⟨hmid, hcomposer, hpaths, hdirectories⟩ := hmid
      apply Triple.bind (storeVideos_lossy hfiles hlist hcomposer) ?_ mid hmid
      intro _
      apply Triple.pure
      rintro next ⟨kept, more, hmore, hnext⟩
      refine ⟨list, kept, more, rfl, ?_, hdirectories, ?_, ?_⟩
      · rw [hpaths, ← hcontent, Site.directories_content]
      · rw [hmore, ← hcontent]
        cases kept <;> simp [Site.keptVideos, Site.videos]
      · cases kept <;> exact hnext

include hfiles in
/-- The turns read the pending directories and those below them. -/
theorem scanLoop_lossy (originalConfig : MoviesLibraryConfig) (turns : Nat)
    (config : MoviesLibraryConfig) {pending : List Addr} {directories : List (Path × ObjectKey)}
    (hpaths : directories.map Prod.fst = pending.map site.path)
    (hparents : ∀ directory ∈ directories, directory.2 ≠ ⟨0⟩) {losses : Nat}
    {filed : List (ObjectKey × (Bytes × FileInfo))} {scanned : List Path} :
    Triple (PartialScan files base before budget losses filed scanned)
      (scanLoop site.fs originalConfig turns config directories)
      (fun _ world => ∃ reads more, site.Visits pending (reads.map Prod.fst) ∧
        more.map Prod.snd = site.keptVideos reads ∧
        PartialScan files base before budget (losses + lostReads reads) (filed ++ more)
          (scanned ++ reads.map fun read => site.path read.1) world)
      (fun _ _ => True) := by
  induction turns generalizing config pending directories losses filed scanned with
  | zero =>
      cases directories with
      | nil =>
          obtain rfl : pending = [] := by simpa using hpaths.symm
          exact Triple.pure fun world h => ⟨[], [], .done, rfl, by simpa [lostReads] using h⟩
      | cons head rest => exact Triple.throw fun _ _ => True.intro
  | succ turns ih =>
      cases directories with
      | nil =>
          obtain rfl : pending = [] := by simpa using hpaths.symm
          exact Triple.pure fun world h => ⟨[], [], .done, rfl, by simpa [lostReads] using h⟩
      | cons head rest =>
          cases pending with
          | nil => simp at hpaths
          | cons dir pending =>
              obtain ⟨path, parent⟩ := head
              simp only [List.map_cons, List.cons.injEq] at hpaths
              obtain ⟨rfl, hrest⟩ := hpaths
              apply Triple.bind
                (scanDirectory_lossy hfiles (hparents (site.path dir, parent) List.mem_cons_self))
              intro new
              rintro world ⟨list, kept, more, hlist, hnew, hnewParents, hmore, h⟩
              have hturns := @ih { config with useCollections := originalConfig.useCollections }
                ((site.subdirs dir).reverse ++ pending) (new.reverse ++ rest)
                (by simp [hnew, hrest])
                (by
                  intro directory hdirectory
                  rcases List.mem_append.mp hdirectory with hmem | hmem
                  · exact hnewParents directory (List.mem_reverse.mp hmem)
                  · exact hparents directory (List.mem_cons_of_mem _ hmem))
                (losses + lostReads [(dir, kept)]) (filed ++ more) (scanned ++ [site.path dir])
              apply hturns.weaken ?_ world h
              rintro _ next ⟨reads, others, hvisits, hothers, hfinal⟩
              refine ⟨(dir, kept) :: reads, more ++ others, .turn hlist hvisits, ?_, ?_⟩
              · rw [List.map_append, hmore, hothers, ← Site.keptVideos_append]
                rfl
              · rw [← List.append_assoc, lostReads_cons, ← Nat.add_assoc, List.map_cons,
                  List.append_cons]
                exact hfinal

include hfiles in
/-- A whole call that returns. -/
theorem scanAll_lossy {turns : Nat} {world next : World}
    (hrecorded : Recorded files base world.store) (hrange : InRange world.store.db)
    (hrun : scanAll site.fs turns site.root site.config world = .ok ⟨⟩ next) :
    ∃ reads filed, site.Visits [[]] (reads.map Prod.fst) ∧
      filed.map Prod.snd = site.keptVideos reads ∧
      PartialScan files base world.store.db (failures world.store.outcomes) (lostReads reads) filed
        (world.scanned ++ reads.map fun read => site.path read.1) next := by
  have hseed : Triple (fun start => start = world) seedIds
      (fun _ => PartialScan files base world.store.db (failures world.store.outcomes) 0 []
        world.scanned) (fun _ _ => True) := by
    intro start hstart
    subst start
    have hscanning := seedIds_scanning (fun _ _ => True) world ⟨hrecorded, hrange⟩
    exact ⟨hscanning, rfl, (Nat.zero_add _).le, fun _ => id, List.nodup_nil, by simp, by simp,
      fun key object hobject _ hnone => absurd (objectAt_eq_some_iff.mp hobject) (by simp [hnone])⟩
  have hcall := hseed.bind fun _ => Triple.bind getMoviesFolderId_lossy fun folder => by
    rintro mid ⟨hmid, hfolder⟩
    exact @scanLoop_lossy _ site files base world.store.db _ hfiles site.config turns
      { site.config with useCollections := false } [[]] [(site.root, folder)] rfl
      (by simpa using hfolder) 0 [] world.scanned mid hmid
  have hnext := hcall world rfl
  simp only [scanAll] at hrun
  rw [hrun] at hnext
  simpa using hnext

end Loop

namespace Site

/-- What has been visited to the end is finite. -/
theorem Visits.finiteTree {site : Site} {pending order : List Addr}
    (h : site.Visits pending order) : ∀ dir ∈ pending, site.fs.FiniteTree (site.path dir) := by
  induction h with
  | done => simp
  | @turn dir list pending order readable rest ih =>
      have hentries : site.entries dir = list := by simp [entries, readable]
      intro other hother
      rcases List.mem_cons.mp hother with rfl | hmem
      · apply FileSystem.FiniteTree.intro readable
        intro entry hentry htype
        have hsub : entry.name :: other ∈ site.subdirs other :=
          List.mem_map_of_mem (f := fun entry : DirEntry => entry.name :: other)
            (List.mem_filter.mpr ⟨hentries ▸ hentry, by simpa using htype⟩)
        exact ih _ (List.mem_append_left _ (List.mem_reverse.mpr hsub))
      · exact ih other (List.mem_append_right _ hmem)

end Site

/-- What a scan that may have lost writes did: `reads` are the directories it
read and whether their videos were kept, `filed` the items it filed. -/
structure LossyScan (site : Site) (before : Db) (budget : Nat) (reads : List (Addr × Bool))
    (filed : List (ObjectKey × (Bytes × FileInfo))) (after : World) : Prop where
  reads_nodup : (reads.map Prod.fst).Nodup
  mem_reads : ∀ dir, dir ∈ reads.map Prod.fst ↔ site.InTree dir
  scanned : after.scanned = reads.map fun read => site.path read.1
  losses : lostReads reads ≤ budget
  videos : filed.map Prod.snd = site.keptVideos reads
  keys_nodup : (filed.map Prod.fst).Nodup
  fresh : ∀ entry ∈ filed, before.lookup (.objectKey entry.1) = none
  stored : ∀ entry ∈ filed, HoldsVideo after.store.db entry.1 entry.2.2
  complete : ∀ key object, objectAt after.store.db key = some object → object.IsItem →
    before.lookup key = none → ∃ entry ∈ filed, key = .objectKey entry.1

/-- Whatever becomes of its writes, a scan that returns has read a finite tree,
each directory once, and filed one item for each of its videos, but for the
directories, at most one for each failed write, of which it has filed none. -/
theorem reachable_scan_lossy [ArtworkSorter] {calls : List ScanCall} {system : System}
    (h : Reachable calls system) (call : ScanCall) {after : World}
    (hrun : scanAll call.fs call.turns call.root call.config (system.world call) =
      .ok ⟨⟩ after) :
    call.fs.FiniteTree call.root ∧ ∃ reads filed,
      LossyScan ⟨call.fs, call.root, call.config⟩ system.db (failures call.outcomes) reads filed
        after := by
  obtain ⟨hstart, hrange⟩ := h.recorded call.outcomes
  have hrecorded : Recorded (HeldByCalls (calls ++ [call])) newDb (system.world call).store := by
    refine ⟨hstart.library.mono ?_, hstart.replayed, hstart.fitting⟩
    rintro info ⟨other, hother, hfile⟩
    exact ⟨other, List.mem_append_left _ hother, hfile⟩
  obtain ⟨reads, filed, hvisits, hvideos, hafter⟩ :=
    @scanAll_lossy _ ⟨call.fs, call.root, call.config⟩ _ newDb
      (fun info hfile => ⟨call, by simp, hfile⟩) _ _ _ hrecorded hrange hrun
  have htree : call.fs.FiniteTree call.root := hvisits.finiteTree [] (by simp)
  obtain ⟨order, hothers, hnodup, hmem⟩ :=
    @Site.exists_visits ⟨call.fs, call.root, call.config⟩ htree
  obtain rfl := hothers.unique hvisits
  have hbudget := hafter.budget
  exact ⟨htree, reads, filed, hnodup, hmem, hafter.scanned, le_trans (Nat.le_add_right _ _) hbudget,
    hvideos, hafter.keys_nodup, hafter.fresh, hafter.stored, hafter.complete⟩

/-- The second write of the scan fails, which loses the two films at the root. -/
def lossyCall : ScanCall := { filmCall with outcomes := [.applied, .failed] }

theorem reachable_scan_lossy_films :
    ∃ after, @scanAll insertionSorter filmFiles 2 (ascii "films") {}
        ((System.opened newDb).world lossyCall) = .ok ⟨⟩ after ∧
      ∃ reads filed, LossyScan ⟨filmFiles, ascii "films", {}⟩ newDb 1 reads filed after := by
  have hreturns : (EStateM.run' (@scanAll insertionSorter filmFiles 2 (ascii "films") {})
      ((System.opened newDb).world lossyCall)).isSome = true := by decide +kernel
  cases hrun : @scanAll insertionSorter filmFiles 2 (ascii "films") {}
      ((System.opened newDb).world lossyCall) with
  | error error after =>
      delta EStateM.run' EStateM.run at hreturns
      rw [hrun] at hreturns
      exact absurd hreturns Bool.false_ne_true
  | ok value after =>
      obtain ⟨-, hscan⟩ := @reachable_scan_lossy insertionSorter [] (System.opened newDb)
        (@Reachable.opened insertionSorter [] [] false newDb rfl) lossyCall after hrun
      exact ⟨after, rfl, hscan⟩

end Eems

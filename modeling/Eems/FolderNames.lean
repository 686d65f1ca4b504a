/-
Directory names as titles: of the only video of a directory and of the
collection made for it.
-/
import Eems.ReleaseDates
import Eems.ScanRuns

namespace Eems

open Hoare

/-- The last component of a path, separators behind it left aside. -/
def Path.lastComponent (path : Path) : Bytes := filename (path.rdropWhile (· = slash))

/-- The containers put since `before` under keys it does not hold carry the
title. -/
def NewContainersTitled (title : Bytes) (before after : World) : Prop :=
  ∃ batches, after.store.journal = before.store.journal ++ batches ∧
    ∀ batch ∈ batches, ∀ key object, (key, .mediaObject object) ∈ batch → object.IsContainer →
      before.store.db.lookup key = none → object.dcTitle = putString title

/-- The name of the directory is used whole, for its only video and for its
collection, in every run of the scan and whichever way it ends. -/
structure UsedWhole [ArtworkSorter] (fs : FileSystem) (path : Path) (config : MoviesLibraryConfig)
    (content : DirectoryContent) (parent : ObjectKey) (name : Bytes) : Prop where
  items : config.useFolderNames = true → content.videos.entries.length = 1 → ∀ composerParent,
    (composerOf path config content composerParent).folderName = name ∧
    ∀ video composition,
      ((composerOf path config content composerParent).compose video composition).1.dcTitle =
          putString (normalizeTitle name).1 ∧
        ((composerOf path config content composerParent).compose video composition).1.dcDate =
          if (normalizeTitle name).2 ≠ 0 then Calendar.daysFromCivil (normalizeTitle name).2 1 1
          else 0
  collections : ∀ world, NewContainersTitled name world
    (finalState (scanDirectory fs path config parent world))

/-- The directory's name becomes a title. -/
def UsesName (config : MoviesLibraryConfig) (content : DirectoryContent) : Prop :=
  config.useFolderNames = true ∧ content.videos.entries.length = 1 ∨
    (config.useCollections && addCollection content) = true

namespace Path

theorem stem_eq_filename_iff (path : Path) : stem path = filename path ↔ extension path = [] := by
  have hlength : extension path = [] ∨
      0 < (extension path).length ∧ 0 < (filename path).length := by
    unfold extension
    dsimp only
    split
    · exact Or.inl rfl
    · rename_i h
      simp only [not_or, not_le] at h
      exact Or.inr ⟨by simp, by omega⟩
  constructor
  · intro h
    rcases hlength with hnone | ⟨hextension, hname⟩
    · exact hnone
    · have heq := congrArg List.length h
      rw [stem, List.length_take] at heq
      omega
  · intro h
    rw [stem, h, List.length_nil, Nat.sub_zero, List.take_length]

/-- The stem is the last component unless something is dropped from it. -/
theorem stem_eq_lastComponent_iff {path : Path} (hname : lastComponent path ≠ []) :
    stem path = lastComponent path ↔ path.getLast? ≠ some slash ∧ extension path = [] := by
  by_cases hslash : path.getLast? = some slash
  · have hfilename : filename path = [] := by
      obtain ⟨front, rfl⟩ := List.getLast?_eq_some_iff.mp hslash
      simp [filename]
    have hstem : stem path = [] := by rw [stem, hfilename, List.take_nil]
    simp [hslash, hstem, hname.symm]
  · have hdrop : path.rdropWhile (· = slash) = path := by
      rw [List.rdropWhile_eq_self_iff]
      intro hne
      rw [List.getLast?_eq_getLast_of_ne_nil hne, Option.some.injEq] at hslash
      simpa using hslash
    rw [lastComponent, hdrop, stem_eq_filename_iff]
    simp [hslash]

end Path

/-- What of the store a scan of a directory with the collection title `title`
keeps, from the state `before` on. -/
structure Titling (title : Bytes) (before world : World) : Prop where
  put : NewContainersTitled title before world
  stored : ∀ key object, objectAt world.store.db key = some object → object.IsContainer →
    before.store.db.lookup key = none → object.dcTitle = putString title

namespace Titling

variable {title : Bytes} {before : World}

theorem refl (title : Bytes) (world : World) : Titling title world world := by
  refine ⟨⟨[], by simp, by simp⟩, ?_⟩
  intro key object hobject _ hnone
  rw [objectAt_eq_some_iff.mp hobject] at hnone
  simp at hnone

theorem congr {world other : World} (h : Titling title before world)
    (hdb : other.store.db = world.store.db) (hjournal : other.store.journal = world.store.journal) :
    Titling title before other := by
  obtain ⟨⟨batches, hbatches, hput⟩, hstored⟩ := h
  exact ⟨⟨batches, hjournal.trans hbatches, hput⟩, hdb ▸ hstored⟩

end Titling

section Steps

variable {title : Bytes} {before : World}

/-- A call whose own containers carry the title keeps it so: the parent's is
written back with the title it has. -/
theorem inStore_putItems_titling {parent : ObjectKey} {items : List MediaObject}
    {resources : List (ResourceKey × Resource)}
    (hitems : ∀ item ∈ items, item.IsContainer → item.dcTitle = putString title) :
    Keeps (Titling title before) (inStore (putItems parent items resources)) := by
  intro world h
  rcases putItems_cases parent items resources world.store with
    ⟨error, next, hput, hdb, hjournal⟩ | ⟨next, hput, hdb, hjournal⟩ |
      ⟨containerData, containerMeta, next, hdecode, -, hput, hdb, hjournal⟩
  · simp only [inStore, zoom, hput]
    exact h.congr hdb hjournal
  · simp only [inStore, zoom, hput]
    exact h.congr hdb hjournal
  · simp only [inStore, zoom, hput]
    obtain ⟨old, hold, hcontainer, rfl, rfl⟩ := deserializeContainer_eq_ok_iff.mp hdecode
    have hbatch : ∀ key object, (key, .mediaObject object) ∈
        putBatch parent items resources old.children (containerMetaOf old) →
        object.IsContainer → before.store.db.lookup key = none →
        object.dcTitle = putString title := by
      intro key object hmem hobject hnone
      simp only [putBatch, List.mem_append, List.mem_map, List.mem_singleton, Prod.mk.injEq,
        Record.mediaObject.injEq] at hmem
      rcases hmem with (⟨p, -, -, hrecord⟩ | ⟨item, hitem, -, rfl⟩) | ⟨rfl, rfl⟩
      · simp at hrecord
      · exact hitems item hitem hobject
      · have htitle := h.stored _ old (objectAt_eq_some_iff.mpr hold) hcontainer hnone
        simp [serializeContainer, containerMetaOf, htitle]
    obtain ⟨⟨batches, hbatches, hold⟩, hstored⟩ := h
    refine ⟨⟨batches ++ [putBatch parent items resources old.children (containerMetaOf old)],
      by simp [hjournal, hbatches], ?_⟩, ?_⟩
    · intro batch hmem
      rcases List.mem_append.mp hmem with hearlier | hlast
      · exact hold batch hearlier
      · rw [List.mem_singleton.mp hlast]
        exact hbatch
    · intro key object hobject hcontainer' hnone
      rw [objectAt_eq_some_iff, hdb] at hobject
      rcases OrderedMap.mem_or_lookup_of_write _ hobject with hmem | hkept
      · exact hbatch key object hmem hcontainer' hnone
      · exact hstored key object (objectAt_eq_some_iff.mpr hkept) hcontainer' hnone

theorem createContainer_titling {artwork : Option FileInfo × ArtworkType} {parent : ObjectKey} :
    Keeps (Titling title before) (createContainer title artwork parent) := by
  refine keeps_createContainer (fun _ _ _ h => h.congr rfl rfl) fun id start => ?_
  apply inStore_putItems_titling
  intro item hitem _
  rw [List.mem_singleton.mp hitem]
  rfl

variable [ArtworkSorter]

theorem storeVideos_titling {composer : ObjectComposer} {videos : List (Bytes × FileInfo)} :
    Keeps (Titling title before) (storeVideos composer videos) := by
  refine keeps_storeVideos (fun _ _ _ h => h.congr rfl rfl) fun id start => ?_
  apply inStore_putItems_titling
  rintro item hitem ⟨container, hdata⟩
  obtain ⟨video, -, id, start, rfl, -⟩ := ObjectComposer.mem_itemRecords hitem
  simp [ObjectComposer.itemRecord] at hdata

/-- The only containers that scanning a directory creates are its collection's. -/
theorem scanDirectory_titling {fs : FileSystem} {path : Path} {entries : List DirEntry}
    (hentries : fs.entries path = some entries) {config : MoviesLibraryConfig}
    {parent : ObjectKey} (htitle :
      (config.useCollections && addCollection (readContent path entries)) = true →
        Path.stem path = title) :
    Keeps (Titling title before) (scanDirectory fs path config parent) := by
  apply keeps_scanDirectory (fun _ h => h.congr rfl rfl)
  · intro other hother hcollection
    obtain rfl := Option.some.inj (hentries.symm.trans hother)
    rw [htitle hcollection]
    exact createContainer_titling
  · exact fun other composerParent _ => storeVideos_titling

end Steps

/-- A scanner about to file below the container `parent`, the only record of
the store. -/
def parentWorld (parent : ObjectKey) : World where
  store := ⟨OrderedMap.empty.insert (.objectKey parent)
    (.mediaObject (serializeContainer [] ⟨parent, ⟨-1⟩, [], upnpContainerClass, []⟩)), [], []⟩
  scanner := ⟨⟨-1⟩, 0, parent.id + 1⟩
  scanned := []

section Collection

variable [ArtworkSorter] {fs : FileSystem} {path : Path} {entries : List DirEntry}

omit [ArtworkSorter] in
/-- Below a stored container a collection is put in a batch of its own. -/
theorem createContainer_of_allApplied {world : World} {parent : ObjectKey} {old : MediaObject}
    (hstored : objectAt world.store.db (.objectKey parent) = some old)
    (hcontainer : old.IsContainer) (houtcomes : AllApplied world.store.outcomes) (name : Bytes)
    (artwork : Option FileInfo × ArtworkType) :
    ∃ batch next, createContainer name artwork parent world =
        .ok ⟨world.scanner.nextObjectId⟩ next ∧
      next.store.journal = world.store.journal ++ [batch] ∧
      (.objectKey ⟨world.scanner.nextObjectId⟩, .mediaObject (collectionObject name artwork
        world.scanner.nextObjectId world.scanner.nextResourceId parent)) ∈ batch := by
  have hput := putItems_of_allApplied
    [collectionObject name artwork world.scanner.nextObjectId world.scanner.nextResourceId parent]
    (collectionResources artwork.1 world.scanner.nextResourceId)
    (deserializeContainer_of_objectAt hstored hcontainer)
    (fun item hitem => by rw [List.mem_singleton.mp hitem]; rfl) houtcomes
  have hstore : inStore (putItems parent _ _) (world.draw 1 artwork.1.toList.length) = _ :=
    inStore_eq_ok_iff.mpr ⟨_, hput, rfl⟩
  have hcreate := createContainer_apply name artwork parent world
  rw [bind_apply, hstore] at hcreate
  refine ⟨_, _, hcreate, rfl, ?_⟩
  simp [putBatch, collectionObject, serializeContainer, collectionMeta]

/-- A scan that makes a collection puts its container under the stem. -/
theorem collection_put (hentries : fs.entries path = some entries) {config : MoviesLibraryConfig}
    (hcollection : (config.useCollections && addCollection (readContent path entries)) = true)
    (parent : ObjectKey) :
    ∃ batch ∈ (finalState (scanDirectory fs path config parent (parentWorld parent))).store.journal,
      ∃ artwork, (.objectKey ⟨parent.id + 1⟩, .mediaObject
        (collectionObject (Path.stem path) artwork (parent.id + 1) 0 parent)) ∈ batch := by
  have hparent : objectAt (parentWorld parent).store.db (.objectKey parent) =
      some (serializeContainer [] ⟨parent, ⟨-1⟩, [], upnpContainerClass, []⟩) :=
    objectAt_eq_some_iff.mpr (OrderedMap.lookup_insert_self _ _ _)
  obtain ⟨batch, next, hcreate, hjournal, hbatch⟩ := @createContainer_of_allApplied
    ⟨(parentWorld parent).store, (parentWorld parent).scanner, [path]⟩ parent _ hparent
    (isContainer_serializeContainer _ _) (by simp [AllApplied, parentWorld]) (Path.stem path)
    (getFolderArtwork (readContent path entries).artwork)
  obtain ⟨directories, hassign⟩ : ∃ directories, assignParents path config
      (readContent path entries) parent
        ⟨(parentWorld parent).store, (parentWorld parent).scanner, [path]⟩ =
      .ok (⟨parent.id + 1⟩, directories) next := by
    rw [assignParents, if_pos hcollection, bind_apply, hcreate]
    exact ⟨_, rfl⟩
  have hscan : scanDirectory fs path config parent (parentWorld parent) =
      (storeVideos (composerOf path config (readContent path entries) ⟨parent.id + 1⟩)
        (readContent path entries).videos.entries >>= fun _ => pure directories) next := by
    rw [scanDirectory, bind_apply, modify_apply]
    simp only [readDirectory, hentries]
    rw [bind_apply, fromExcept_ok_apply]
    simp only [bind_apply, parentWorld, List.nil_append] at hassign ⊢
    rw [hassign]
  refine ⟨batch, ?_, _, hbatch⟩
  have hgrows : ∀ later batch (_ : ObjectKey), next.store.journal <+: later →
      next.store.journal <+: later ++ [batch] :=
    fun later batch _ h => h.trans (List.prefix_append _ _)
  have hkeeps : Keeps (Recalled fun later _ => next.store.journal <+: later)
      (storeVideos (composerOf path config (readContent path entries) ⟨parent.id + 1⟩)
        (readContent path entries).videos.entries >>= fun _ => pure directories) :=
    Keeps.bind (storeVideos_recalled hgrows) fun _ => Keeps.pure _
  rw [hscan]
  have hstart : Recalled (fun later _ => next.store.journal <+: later) next := List.prefix_rfl
  apply List.IsPrefix.subset (hkeeps.finalState hstart)
  rw [hjournal]
  exact List.mem_append_right _ List.mem_cons_self

end Collection

/-- The directory's name is used whole exactly where it has no extension and
its path does not end in a separator. -/
theorem usedWhole_iff [ArtworkSorter] {fs : FileSystem} {path : Path} {entries : List DirEntry}
    (hentries : fs.entries path = some entries) (hname : Path.lastComponent path ≠ [])
    (config : MoviesLibraryConfig) (parent : ObjectKey) :
    UsedWhole fs path config (readContent path entries) parent (Path.lastComponent path) ↔
      (UsesName config (readContent path entries) →
        path.getLast? ≠ some slash ∧ Path.extension path = []) := by
  rw [← Path.stem_eq_lastComponent_iff hname]
  constructor
  · intro h huses
    rcases huses with ⟨hfolder, hone⟩ | hcollection
    · have hwhole := (h.items hfolder hone parent).1
      simpa [composerOf, hfolder, hone] using hwhole
    · obtain ⟨batch, hmem, artwork, hput⟩ := collection_put hentries hcollection parent
      obtain ⟨batches, hjournal, htitled⟩ := h.collections (parentWorld parent)
      have hbatch : batch ∈ batches := by
        rw [hjournal] at hmem
        simpa [parentWorld] using hmem
      have hnew : (parentWorld parent).store.db.lookup (.objectKey ⟨parent.id + 1⟩) = none := by
        have hne : (⟨parent.id + 1⟩ : ObjectKey) ≠ parent := fun heq => by
          have := congrArg ObjectKey.id heq
          simp at this
        simp [parentWorld, OrderedMap.lookup_insert, hne]
      exact putString_injective
        (htitled batch hbatch _ _ hput (isContainer_serializeContainer _ _) hnew)
  · intro h
    constructor
    · intro hfolder hone composerParent
      have hstem := h (Or.inl ⟨hfolder, hone⟩)
      have hfolderName : (composerOf path config (readContent path entries)
          composerParent).folderName = Path.lastComponent path := by
        simp [composerOf, hfolder, hone, hstem]
      refine ⟨hfolderName, fun video composition => ?_⟩
      rw [ObjectComposer.compose_eq]
      simp [ObjectComposer.itemRecord, hfolderName, hname]
    · intro world
      have hkeeps : Keeps (Titling _ world) (scanDirectory fs path config parent) :=
        scanDirectory_titling hentries fun hcollection => h (Or.inr hcollection)
      exact (hkeeps.finalState (Titling.refl _ world)).put

/-- A directory that holds one film, under the film's name. -/
def filmFolder (name : Bytes) (hname : 0 ∉ name) : FileSystem :=
  .ofTable [(name, [⟨ascii "film.mkv", .regular⟩])] (by simpa using hname) (by simp)
    fun row hrow entry hentry => by
      obtain rfl := List.mem_singleton.mp hrow
      obtain rfl := List.mem_singleton.mp hentry
      decide

theorem usedWhole_iff_alien :
    @UsedWhole insertionSorter (filmFolder (ascii "Alien (1979)") (by decide))
      (ascii "Alien (1979)") {} (readContent (ascii "Alien (1979)") [⟨ascii "film.mkv", .regular⟩])
      ⟨1⟩ (Path.lastComponent (ascii "Alien (1979)")) :=
  (@usedWhole_iff insertionSorter (filmFolder (ascii "Alien (1979)") (by decide))
    (ascii "Alien (1979)") _ (by decide) (by decide) {} ⟨1⟩).mpr fun _ => by decide

/-- A title with a dot loses what comes after it, the year included. -/
theorem not_usedWhole_strangelove :
    ¬ @UsedWhole insertionSorter (filmFolder (ascii "Dr. Strangelove (1964)") (by decide))
      (ascii "Dr. Strangelove (1964)") {}
      (readContent (ascii "Dr. Strangelove (1964)") [⟨ascii "film.mkv", .regular⟩]) ⟨1⟩
      (ascii "Dr. Strangelove (1964)") := by
  intro h
  obtain ⟨hname, -⟩ := @UsedWhole.items insertionSorter _ _ _ _ _ _ h rfl (by decide) ⟨1⟩
  exact absurd hname (by decide)

end Eems

/-
The batches the scanner files: the `Movies` container, a collection, and the
composed videos of a directory.  Each is fresh when its ids lie past the
store's.
-/
import Eems.Library
import Eems.MovieScanner

namespace Eems

open Numbering

/-- Every stored id of either type lies below the next one. -/
def IdsBelow (db : Db) (nextObjectId nextResourceId : Int) : Prop :=
  (∀ key record, db.lookup (.objectKey key) = some record → key.id < nextObjectId) ∧
    ∀ key record, db.lookup (.resourceKey key) = some record → key.id < nextResourceId

theorem IdsBelow.objectKey_absent {db : Db} {n r : Int} (h : IdsBelow db n r)
    {key : ObjectKey} (hkey : n ≤ key.id) : db.lookup (.objectKey key) = none := by
  cases hstored : db.lookup (.objectKey key) with
  | none => rfl
  | some record =>
      have := h.1 key record hstored
      omega

theorem IdsBelow.resourceKey_absent {db : Db} {n r : Int} (h : IdsBelow db n r)
    {key : ResourceKey} (hkey : r ≤ key.id) : db.lookup (.resourceKey key) = none := by
  cases hstored : db.lookup (.resourceKey key) with
  | none => rfl
  | some record =>
      have := h.2 key record hstored
      omega

theorem IdsBelow.mono {db : Db} {n r n' r' : Int} (h : IdsBelow db n r) (hn : n ≤ n')
    (hr : r ≤ r') : IdsBelow db n' r' :=
  ⟨fun key record hkey => lt_of_lt_of_le (h.1 key record hkey) hn,
    fun key record hkey => lt_of_lt_of_le (h.2 key record hkey) hr⟩

/-- The file is a regular file of a known type that some directory holds. -/
def FileSystem.HasFile (fs : FileSystem) (info : FileInfo) : Prop :=
  ∃ path entries entry name, fs.entries path = some entries ∧ entry ∈ entries ∧
    fileEntry path (fun _ => true) entry = some (name, info)

theorem fileEntry_weaken {path : Path} {accept : Bytes → Bool} {entry : DirEntry}
    {file : Bytes × FileInfo} (h : fileEntry path accept entry = some file) :
    fileEntry path (fun _ => true) entry = some file := by
  unfold fileEntry at h ⊢
  split at h
  · rename_i htype
    obtain ⟨mimeType, hmime, hfile⟩ := Option.bind_eq_some_iff.mp h
    split at hfile
    · simp [htype, hmime, Option.some.inj hfile]
    · simp at hfile
  · simp at h

/-- What a directory's maps hold are files of the file system. -/
theorem FileSystem.hasFile_of_mem_fileMap {fs : FileSystem} {path : Path}
    {entries : List DirEntry} (hentries : fs.entries path = some entries)
    {accept : Bytes → Bool} {file : Bytes × FileInfo}
    (hfile : file ∈ (fileMap path accept entries).entries) :
    fs.HasFile file.2 ∧ accept file.2.mimeType = true := by
  obtain ⟨entry, hentry, hsome⟩ := (mem_fileMap_entries (fs.names_nodup path entries hentries)
    (fs.names_valid path entries hentries)).mp hfile
  exact ⟨⟨path, entries, entry, file.1, hentries, hentry, fileEntry_weaken hsome⟩,
    (fileEntry_eq_some hsome).2.2.2.2⟩

namespace ObjectComposer

variable {composer : ObjectComposer}

theorem mem_ownArtwork {name : Bytes} {file : FileInfo × ArtworkType}
    (h : file ∈ composer.ownArtwork name) :
    ∃ entry ∈ composer.artwork.entries, entry.2 = file.1 := by
  obtain ⟨entry, hentry, hsome⟩ := List.mem_filterMap.mp h
  obtain ⟨artType, -, rfl⟩ := Option.map_eq_some_iff.mp hsome
  have hlower := (List.takeWhile_sublist _).subset hentry
  exact ⟨entry, (List.dropWhile_sublist _).subset hlower, rfl⟩

theorem mem_getFolderArtwork {artwork : OrderedMap Bytes FileInfo} {info : FileInfo}
    (h : (getFolderArtwork artwork).1 = some info) :
    ∃ entry ∈ artwork.entries, entry.2 = info := by
  unfold getFolderArtwork at h
  split at h
  · rename_i found hposter
    obtain rfl := Option.some.inj h
    exact ⟨_, artwork.mem_entries_iff.mpr hposter, rfl⟩
  · split at h
    · rename_i found hfolder
      obtain rfl := Option.some.inj h
      exact ⟨_, artwork.mem_entries_iff.mpr hfolder, rfl⟩
    · simp at h

theorem mem_itemArtwork {name : Bytes} {file : FileInfo × ArtworkType}
    (h : file ∈ composer.itemArtwork name) :
    ∃ entry ∈ composer.artwork.entries, entry.2 = file.1 := by
  unfold itemArtwork at h
  split at h
  · split at h
    · rename_i info artType hfolder
      obtain rfl := List.mem_singleton.mp h
      exact mem_getFolderArtwork (by rw [hfolder])
    · simp at h
  · exact mem_ownArtwork h

theorem mem_itemSubtitles {name : Bytes} {info : FileInfo}
    (h : info ∈ composer.itemSubtitles name) :
    ∃ entry ∈ composer.subtitles.entries, entry.2 = info := by
  obtain ⟨entry, hentry, rfl⟩ := List.mem_map.mp h
  have hlower := (List.takeWhile_sublist _).subset hentry
  exact ⟨entry, (List.dropWhile_sublist _).subset hlower, rfl⟩

/-- The composer works on files that satisfy `files`, of the kinds its maps are
made for. -/
structure Draws (composer : ObjectComposer) (files : FileInfo → Prop) : Prop where
  artwork : ∀ entry ∈ composer.artwork.entries, files entry.2
  subtitles : ∀ entry ∈ composer.subtitles.entries,
    files entry.2 ∧ isTextType entry.2.mimeType

theorem Draws.itemFiles {files : FileInfo → Prop} (h : composer.Draws files)
    {video : Bytes × FileInfo} (hvideo : files video.2) {info : FileInfo}
    (hinfo : info ∈ composer.itemFiles video) : files info := by
  simp only [ObjectComposer.itemFiles, List.mem_cons, List.mem_append, List.mem_map] at hinfo
  rcases hinfo with rfl | ⟨file, hfile, rfl⟩ | hsubtitle
  · exact hvideo
  · obtain ⟨entry, hentry, heq⟩ := mem_itemArtwork hfile
    exact heq ▸ h.artwork entry hentry
  · obtain ⟨entry, hentry, rfl⟩ := mem_itemSubtitles hsubtitle
    exact (h.subtitles entry hentry).1

theorem artworks_itemRecord_perm [ArtworkSorter] (video : Bytes × FileInfo) (id start : Int) :
    (composer.itemRecord video id start).artworks.Perm
      (numberedArtwork (start + 1) (composer.itemArtwork video.1)) := by
  simp only [MediaObject.artworks, itemRecord, putSortedVector]
  split
  · rename_i hempty
    rw [List.isEmpty_iff.mp hempty]
    exact List.Perm.nil
  · exact ArtworkSorter.perm _

theorem artworks_itemRecord_sorted [ArtworkSorter] (video : Bytes × FileInfo) (id start : Int) :
    (composer.itemRecord video id start).artworks.Pairwise fun left right =>
      left.type.underlying ≤ right.type.underlying := by
  simp only [MediaObject.artworks, itemRecord, putSortedVector]
  split
  · exact List.Pairwise.nil
  · exact ArtworkSorter.sorted _

@[simp] theorem resources_itemRecord [ArtworkSorter] (video : Bytes × FileInfo)
    (id start : Int) : (composer.itemRecord video id start).resources =
      createResourceRef (.resourceKey ⟨start⟩) video.2 ::
        numberedRefs (start + 1 + (composer.itemArtwork video.1).length)
          (composer.itemSubtitles video.1) := rfl

/-- An item refers to exactly the resource ids taken for its files. -/
theorem resourceRefs_itemRecord_perm [ArtworkSorter] (video : Bytes × FileInfo)
    (id start : Int) :
    (composer.itemRecord video id start).resourceRefs.Perm
      ((numberedResources start (composer.itemFiles video)).map fun p => .resourceKey p.1) := by
  have hfiles : ((numberedResources start (composer.itemFiles video)).map fun p =>
      LibraryKey.resourceKey p.1) = .resourceKey ⟨start⟩ ::
      ((numberedArtwork (start + 1) (composer.itemArtwork video.1)).map Artwork.ref ++
        (numberedRefs (start + 1 + (composer.itemArtwork video.1).length)
          (composer.itemSubtitles video.1)).map ResourceRef.ref) := by
    simp [numberedResources, itemFiles, numberFrom, numberFrom_append, numberFrom_map,
      numberedArtwork, numberedRefs, createResourceRef, Function.comp_def]
  rw [hfiles, MediaObject.resourceRefs, resources_itemRecord, List.map_cons]
  refine List.perm_middle.trans (List.Perm.cons _ (List.Perm.append_right _ ?_))
  exact (artworks_itemRecord_perm video id start).map Artwork.ref

theorem map_id_itemRecords [ArtworkSorter] (videos : List (Bytes × FileInfo))
    (id start : Int) : (composer.itemRecords videos id start).map MediaObject.id =
      (numberFrom id videos).map fun p => ⟨p.1⟩ := by
  induction videos generalizing id start with
  | nil => rfl
  | cons video rest ih =>
      simp only [itemRecords, List.map_cons, ih, numberFrom]
      rfl

theorem mem_itemRecords [ArtworkSorter] {videos : List (Bytes × FileInfo)} {id start : Int}
    {item : MediaObject} (h : item ∈ composer.itemRecords videos id start) :
    ∃ video ∈ videos, ∃ itemId itemStart, item = composer.itemRecord video itemId itemStart ∧
      numberFrom itemStart (composer.itemFiles video) ⊆
        numberFrom start (videos.flatMap composer.itemFiles) := by
  induction videos generalizing id start with
  | nil => simp [itemRecords] at h
  | cons video rest ih =>
      rcases List.mem_cons.mp h with rfl | h
      · refine ⟨video, List.mem_cons_self, id, start, rfl, ?_⟩
        rw [List.flatMap_cons, numberFrom_append]
        exact List.subset_append_left _ _
      · obtain ⟨found, hfound, itemId, itemStart, hitem, hsub⟩ := ih h
        refine ⟨found, List.mem_cons_of_mem video hfound, itemId, itemStart, hitem, ?_⟩
        rw [List.flatMap_cons, numberFrom_append]
        exact List.Subset.trans hsub (List.subset_append_right _ _)

theorem resourceRefs_itemRecords_perm [ArtworkSorter] (videos : List (Bytes × FileInfo))
    (id start : Int) :
    ((composer.itemRecords videos id start).flatMap MediaObject.resourceRefs).Perm
      ((numberedResources start (videos.flatMap composer.itemFiles)).map fun p =>
        .resourceKey p.1) := by
  induction videos generalizing id start with
  | nil => simp [itemRecords, numberedResources]
  | cons video rest ih =>
      have hsplit : numberedResources start ((video :: rest).flatMap composer.itemFiles) =
          numberedResources start (composer.itemFiles video) ++
            numberedResources (start + (composer.itemFiles video).length)
              (rest.flatMap composer.itemFiles) := by
        simp [numberedResources, numberFrom_append]
      rw [hsplit, List.map_append, itemRecords, List.flatMap_cons]
      exact (resourceRefs_itemRecord_perm video id start).append (ih _ _)

/-- An item's own references name the resources its files were given. -/
theorem refersTo_itemRecord [ArtworkSorter] {files : FileInfo → Prop}
    (hdraws : composer.Draws files) {video : Bytes × FileInfo} (hvideo : files video.2)
    (htype : isVideoType video.2.mimeType) (id start : Int) :
    RefersTo (fun ref info => files info ∧ ∃ key, ref = .resourceKey key ∧
      (key.id, info) ∈ numberFrom start (composer.itemFiles video))
      (composer.itemRecord video id start) := by
  refine ⟨(.resourceKey ⟨start⟩, video.2),
    (numberFrom (start + 1 + (composer.itemArtwork video.1).length)
      (composer.itemSubtitles video.1)).map fun p => (.resourceKey ⟨p.1⟩, p.2),
    ?_, htype, ?_, ?_⟩
  · simp [numberedRefs, Function.comp_def]
  · intro p hp
    obtain ⟨q, hq, rfl⟩ := List.mem_map.mp hp
    obtain ⟨entry, hentry, heq⟩ := mem_itemSubtitles (snd_mem_of_mem_numberFrom hq)
    exact heq ▸ (hdraws.subtitles entry hentry).2
  · intro p hp
    rcases List.mem_cons.mp hp with rfl | hp
    · exact ⟨hvideo, ⟨start⟩, rfl, by simp [itemFiles, numberFrom]⟩
    · obtain ⟨q, hq, rfl⟩ := List.mem_map.mp hp
      have hmem : q ∈ numberFrom start (composer.itemFiles video) := by
        simp only [itemFiles, numberFrom, numberFrom_append, List.length_map, List.mem_cons,
          List.mem_append]
        exact Or.inr (Or.inr hq)
      exact ⟨hdraws.itemFiles hvideo (snd_mem_of_mem_numberFrom hmem), ⟨q.1⟩, rfl, hmem⟩

theorem map_id_itemRecords_nodup [ArtworkSorter] (videos : List (Bytes × FileInfo))
    (id start : Int) : ((composer.itemRecords videos id start).map MediaObject.id).Nodup := by
  rw [map_id_itemRecords, ← Function.comp_def ObjectKey.mk, ← List.map_map]
  exact (map_fst_numberFrom_nodup id videos).map fun _ _ heq => by simpa using heq

theorem le_id_of_mem_itemRecords [ArtworkSorter] {videos : List (Bytes × FileInfo)}
    {id start : Int} {item : MediaObject} (h : item ∈ composer.itemRecords videos id start) :
    id ≤ item.id.id := by
  have hmem := List.mem_map_of_mem (f := MediaObject.id) h
  rw [map_id_itemRecords] at hmem
  obtain ⟨p, hp, heq⟩ := List.mem_map.mp hmem
  rw [← heq]
  exact (fst_mem_numberFrom hp).1

theorem nodup_numberedResources (start : Int) (files : List FileInfo) :
    ((numberedResources start files).map Prod.fst).Nodup := by
  rw [numberedResources, List.map_map, Function.comp_def, ← Function.comp_def ResourceKey.mk,
    ← List.map_map]
  exact (map_fst_numberFrom_nodup start files).map fun _ _ heq => by simpa using heq

theorem le_id_of_mem_numberedResources {start : Int} {files : List FileInfo}
    {p : ResourceKey × Resource} (h : p ∈ numberedResources start files) : start ≤ p.1.id := by
  obtain ⟨q, hq, rfl⟩ := List.mem_map.mp h
  exact (fst_mem_numberFrom hq).1

theorem newKeys_itemRecords_nodup [ArtworkSorter] (videos : List (Bytes × FileInfo))
    (files : List FileInfo) (id start : Int) :
    (newKeys (composer.itemRecords videos id start) (numberedResources start files)).Nodup :=
  newKeys_nodup (map_id_itemRecords_nodup videos id start) (nodup_numberedResources start files)

theorem newKeys_itemRecords_absent [ArtworkSorter] {db : Db} {n r : Int}
    (hbelow : IdsBelow db n r) (videos : List (Bytes × FileInfo)) (files : List FileInfo) :
    ∀ key ∈ newKeys (composer.itemRecords videos n r) (numberedResources r files),
      db.lookup key = none := by
  intro key hkey
  refine newKeys_absent (fun item hitem => ?_) (fun p hp => ?_) hkey
  · exact hbelow.objectKey_absent (le_id_of_mem_itemRecords hitem)
  · exact hbelow.resourceKey_absent (le_id_of_mem_numberedResources hp)

/-- The composed videos of a directory make a fresh batch. -/
theorem freshBatch [ArtworkSorter] {files : FileInfo → Prop} {db : Db} {n r : Int}
    (hbelow : IdsBelow db n r) (hn : 0 ≤ n) (hr : 0 ≤ r) (hdraws : composer.Draws files)
    (videos : List (Bytes × FileInfo))
    (hvideos : ∀ video ∈ videos, files video.2 ∧ isVideoType video.2.mimeType) :
    FreshBatch files db (composer.itemRecords videos n r)
      (numberedResources r (videos.flatMap composer.itemFiles)) := by
  have hids : ∀ item ∈ composer.itemRecords videos n r, n ≤ item.id.id :=
    fun _ => le_id_of_mem_itemRecords
  have hkeys : ∀ p ∈ numberedResources r (videos.flatMap composer.itemFiles), r ≤ p.1.id :=
    fun _ => le_id_of_mem_numberedResources
  refine ⟨map_id_itemRecords_nodup videos n r, ?_, ?_, nodup_numberedResources r _, ?_, ?_, ?_, ?_,
    ?_, ?_, ?_⟩
  · exact fun item hitem => le_trans hn (hids item hitem)
  · exact fun item hitem => hbelow.objectKey_absent (hids item hitem)
  · exact fun p hp => le_trans hr (hkeys p hp)
  · exact fun p hp => hbelow.resourceKey_absent (hkeys p hp)
  · intro item hitem
    obtain ⟨video, -, itemId, itemStart, rfl, -⟩ := mem_itemRecords hitem
    rfl
  · intro item hitem
    obtain ⟨video, -, itemId, itemStart, rfl, -⟩ := mem_itemRecords hitem
    exact Or.inr ⟨_, rfl⟩
  · exact resourceRefs_itemRecords_perm videos n r
  · intro p hp
    obtain ⟨q, hq, rfl⟩ := List.mem_map.mp hp
    obtain ⟨video, hvideo, hfile⟩ :=
      List.mem_flatMap.mp (snd_mem_of_mem_numberFrom hq)
    exact ⟨q.2, hdraws.itemFiles (hvideos video hvideo).1 hfile, rfl⟩
  · intro item hitem _
    obtain ⟨video, hvideo, itemId, itemStart, rfl, hsub⟩ := mem_itemRecords hitem
    refine (refersTo_itemRecord hdraws (hvideos video hvideo).1 (hvideos video hvideo).2
      itemId itemStart).mono ?_
    rintro ref info ⟨hinfo, key, rfl, hmem⟩
    exact ⟨hinfo, key, rfl, List.mem_map.mpr ⟨(key.id, info), hsub hmem, rfl⟩⟩

end ObjectComposer

theorem moviesFolder_freshBatch (files : FileInfo → Prop) {db : Db} {n r : Int}
    (hbelow : IdsBelow db n r) (hn : 0 ≤ n) :
    FreshBatch files db [moviesFolderObject ⟨n⟩ ⟨0⟩] [] := by
  refine ⟨by simp, ?_, ?_, by simp, by simp, by simp, ?_, ?_, ?_, by simp, ?_⟩
  · simpa [moviesFolderObject] using hn
  · simpa [moviesFolderObject] using @IdsBelow.objectKey_absent _ _ _ hbelow ⟨n⟩ le_rfl
  · simp [moviesFolderObject, MediaObject.children]
  · exact fun item hitem => Or.inl ⟨⟨none⟩, by rw [List.mem_singleton.mp hitem]; rfl⟩
  · simp [moviesFolderObject, MediaObject.resourceRefs, MediaObject.artworks,
      MediaObject.resources]
  · intro item hitem hisItem
    obtain ⟨data, hdata⟩ := hisItem
    rw [List.mem_singleton.mp hitem] at hdata
    simp [moviesFolderObject] at hdata

/-- The records of a collection: its container and, where there is folder
artwork, one resource. -/
def collectionResources (artwork : Option FileInfo) (r : Int) :
    List (ResourceKey × Resource) :=
  ObjectComposer.numberedResources r artwork.toList

def collectionObject (name : Bytes) (artwork : Option FileInfo × ArtworkType)
    (id r : Int) (parent : ObjectKey) : MediaObject :=
  serializeContainer [] (collectionMeta name (artwork.1.map fun _ => ⟨r⟩, artwork.2) ⟨id⟩ parent)

theorem collection_freshBatch {files : FileInfo → Prop} {db : Db} {n r : Int}
    (hbelow : IdsBelow db n r) (hn : 0 ≤ n) (hr : 0 ≤ r) (name : Bytes)
    (artwork : Option FileInfo × ArtworkType) (hfile : ∀ info, artwork.1 = some info → files info)
    (parent : ObjectKey) :
    FreshBatch files db [collectionObject name artwork n r parent]
      (collectionResources artwork.1 r) := by
  obtain ⟨found, artType⟩ := artwork
  have hkeys : ∀ p ∈ collectionResources found r, r ≤ p.1.id :=
    fun _ => ObjectComposer.le_id_of_mem_numberedResources
  refine ⟨by simp, ?_, ?_, ?_, ?_, ?_, ?_, ?_, ?_, ?_, ?_⟩
  · simpa [collectionObject, serializeContainer, collectionMeta] using hn
  · simpa [collectionObject, serializeContainer, collectionMeta] using
      @IdsBelow.objectKey_absent _ _ _ hbelow ⟨n⟩ le_rfl
  · exact ObjectComposer.nodup_numberedResources r _
  · exact fun p hp => le_trans hr (hkeys p hp)
  · exact fun p hp => hbelow.resourceKey_absent (hkeys p hp)
  · simp [collectionObject]
  · intro item hitem
    rw [List.mem_singleton.mp hitem]
    exact Or.inl (isContainer_serializeContainer _ _)
  · cases found <;>
      simp [collectionObject, collectionResources, ObjectComposer.numberedResources, numberFrom,
        MediaObject.resourceRefs, collectionMeta]
  · intro p hp
    obtain ⟨q, hq, rfl⟩ := List.mem_map.mp hp
    exact ⟨q.2, hfile q.2 (by simpa using snd_mem_of_mem_numberFrom hq), rfl⟩
  · intro item hitem hisItem
    obtain ⟨data, hdata⟩ := hisItem
    rw [List.mem_singleton.mp hitem] at hdata
    simp [collectionObject, serializeContainer] at hdata

end Eems

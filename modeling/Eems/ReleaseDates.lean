/-
The year read from a name, as the `dc:date` of the item that is stored for it.
-/
import Eems.DidlElements
import Eems.PutItems
import Eems.Scanning
import Eems.TitleForm

namespace Eems

open Hoare Numbering Numeral

/-- The name that the title of a video's item is read from. -/
def ObjectComposer.titleName (composer : ObjectComposer) (video : Bytes × FileInfo) : Bytes :=
  if composer.folderName.isEmpty then composer.resourcePrefix video.1 else composer.folderName

/-- The object is stored and shown with New Year's Day of the year, and without
a date for the year 0. -/
def ShowsYear (db : Db) (key : ObjectKey) (year : Int) : Prop :=
  ∃ object, (StoreService.get db key).read (.objectKey key) = .ok object ∧
    ∀ contentBase didlRoot, ∃ element,
      serializeMediaObject didlRoot contentBase object = .ok (true, didlRoot ++ [element]) ∧
        (element.childrenNamed "dc:date").map Xml.text =
          if year = 0 then [] else [formatInt year ++ ascii "-01-01"]

theorem normalizeTitle_year (name : Bytes) :
    (normalizeTitle name).2 = 0 ∨ 1000 ≤ (normalizeTitle name).2 := by
  unfold normalizeTitle
  dsimp only
  split
  · rename_i hsearch
    obtain ⟨head, rest, hfirst, -⟩ := searchYear_eq_some hsearch
    exact Or.inr (le_yearDigits hfirst.digits)
  · exact Or.inl rfl

/-- The day count of a year shows as that year, but for the one that starts at
the epoch. -/
theorem dateElement_newYear {year : Int} (hyear : year = 0 ∨ 1000 ≤ year) :
    ((dateElement (if year ≠ 0 then Calendar.daysFromCivil year 1 1 else 0)).map Xml.text =
      if year = 0 then [] else [formatInt year ++ ascii "-01-01"]) ↔ year ≠ 1970 := by
  rcases hyear with rfl | hyear
  · simp [dateElement]
  · have hzero : year ≠ 0 := by omega
    rw [if_pos hzero, if_neg hzero]
    by_cases hepoch : year = 1970
    · rw [(Calendar.daysFromCivil_newYear_eq_zero_iff year).mpr hepoch]
      simp [dateElement, hepoch]
    · have hdays : Calendar.daysFromCivil year 1 1 ≠ 0 :=
        (Calendar.daysFromCivil_newYear_eq_zero_iff year).not.mpr hepoch
      have hformat : formatPadded 4 year = formatInt year :=
        formatPadded_eq_formatInt (by decide) (by simpa using hyear)
      have hday : formatPadded 2 1 = ascii "01" := by decide
      have hdate : (dateElement (Calendar.daysFromCivil year 1 1)).map Xml.text =
          [formatInt year ++ ascii "-" ++ ascii "01" ++ ascii "-" ++ ascii "01"] := by
        rw [dateElement, if_pos hdays, Calendar.civilFromDays_newYear]
        simp only [hformat, hday]
        rfl
      have hdash : ascii "-" ++ (ascii "01" ++ (ascii "-" ++ ascii "01")) = ascii "-01-01" := by
        decide
      simp [hdate, hdash, hepoch]

theorem showsYear_iff {db : Db} {key : ObjectKey} {item : MediaObject} {year : Int}
    (hstored : objectAt db (.objectKey key) = some item) (hitem : item.IsItem)
    (hrefs : ∀ ref ∈ item.resourceRefs, ∃ id, ref = .resourceKey id) :
    ShowsYear db key year ↔ (dateElement item.dcDate).map Xml.text =
      if year = 0 then [] else [formatInt year ++ ascii "-01-01"] := by
  have hread : (StoreService.get db key).read (.objectKey key) = .ok item :=
    read_eq_ok_iff.mpr hstored
  have hserialize := fun contentBase didlRoot =>
    serializeMediaObject_eq didlRoot contentBase (Or.inl hitem) hrefs
  constructor
  · rintro ⟨object, hobject, hshown⟩
    obtain rfl := Except.ok.inj (hread.symm.trans hobject)
    obtain ⟨element, helement, hdate⟩ := hshown [] []
    rw [hserialize] at helement
    obtain rfl : objectElement [] item = element := by simpa using helement
    rwa [childrenNamed_dcDate] at hdate
  · intro hdate
    refine ⟨item, hread, fun contentBase didlRoot => ⟨_, hserialize contentBase didlRoot, ?_⟩⟩
    rwa [childrenNamed_dcDate]

section Stored

variable [ArtworkSorter] {composer : ObjectComposer} {videos : List (Bytes × FileInfo)}

theorem getElem?_itemRecords {id start : Int} {i : Nat} {video : Bytes × FileInfo}
    {item : MediaObject} (hvideo : videos[i]? = some video)
    (hitem : (composer.itemRecords videos id start)[i]? = some item) :
    ∃ itemId itemStart, item = composer.itemRecord video itemId itemStart := by
  induction videos generalizing i id start with
  | nil => simp at hvideo
  | cons first rest ih =>
      cases i with
      | zero =>
          obtain rfl : first = video := by simpa using hvideo
          exact ⟨id, start, by simpa [ObjectComposer.itemRecords] using hitem.symm⟩
      | succ i =>
          apply ih (by simpa using hvideo)
          simpa [ObjectComposer.itemRecords] using hitem

/-- What is composed for a directory can be read back once it is stored. -/
theorem objectAt_storeVideos {world after : World}
    (hbelow : IdsBelow world.store.db world.scanner.nextObjectId world.scanner.nextResourceId)
    (hreturns : storeVideos composer videos world = .ok ⟨⟩ after)
    (happlied : after.store.journal ≠ world.store.journal) {item : MediaObject}
    (hitem : item ∈ composer.itemRecords videos world.scanner.nextObjectId
      world.scanner.nextResourceId) :
    objectAt after.store.db (.objectKey item.id) = some item := by
  have hvideos : videos ≠ [] := by
    rintro rfl
    simp [ObjectComposer.itemRecords] at hitem
  rw [storeVideos_apply, if_neg hvideos] at hreturns
  obtain ⟨next, hput, rfl⟩ := inStore_eq_ok_iff.mp hreturns
  obtain ⟨_, -, hfiled⟩ := @putItems_filed _ ⟨_, _⟩ world.store next hput happlied
    (ObjectComposer.newKeys_itemRecords_nodup videos _ _ _)
    (ObjectComposer.newKeys_itemRecords_absent hbelow videos _)
  exact objectAt_eq_some_iff.mpr (hfiled.item item hitem)

theorem showsYear_itemRecord {world after : World}
    (hbelow : IdsBelow world.store.db world.scanner.nextObjectId world.scanner.nextResourceId)
    (hreturns : storeVideos composer videos world = .ok ⟨⟩ after)
    (happlied : after.store.journal ≠ world.store.journal) {video : Bytes × FileInfo}
    {id start : Int} (hitem : composer.itemRecord video id start ∈
      composer.itemRecords videos world.scanner.nextObjectId world.scanner.nextResourceId) :
    ShowsYear after.store.db ⟨id⟩ (normalizeTitle (composer.titleName video)).2 ↔
      (normalizeTitle (composer.titleName video)).2 ≠ 1970 := by
  have hstored : objectAt after.store.db (.objectKey ⟨id⟩) =
      some (composer.itemRecord video id start) :=
    objectAt_storeVideos hbelow hreturns happlied hitem
  have hrefs : ∀ ref ∈ (composer.itemRecord video id start).resourceRefs,
      ∃ key, ref = .resourceKey key := by
    intro ref href
    obtain ⟨p, -, rfl⟩ :=
      List.mem_map.mp ((composer.resourceRefs_itemRecord_perm video id start).subset href)
    exact ⟨_, rfl⟩
  rw [showsYear_iff hstored ⟨_, rfl⟩ hrefs]
  exact dateElement_newYear (normalizeTitle_year _)

/-- A stored item shows the year of its name, exactly if that is not 1970. -/
theorem storedYear_iff {world after : World}
    (hbelow : IdsBelow world.store.db world.scanner.nextObjectId world.scanner.nextResourceId)
    (hreturns : storeVideos composer videos world = .ok ⟨⟩ after)
    (happlied : after.store.journal ≠ world.store.journal) {i : Nat} {video : Bytes × FileInfo}
    {item : MediaObject} (hvideo : videos[i]? = some video)
    (hitem : (composer.composeAll videos ⟨world.scanner, []⟩).1[i]? = some item) :
    ShowsYear after.store.db item.id (normalizeTitle (composer.titleName video)).2 ↔
      (normalizeTitle (composer.titleName video)).2 ≠ 1970 := by
  rw [ObjectComposer.composeAll_eq] at hitem
  obtain ⟨id, start, rfl⟩ := getElem?_itemRecords hvideo hitem
  exact showsYear_itemRecord hbelow hreturns happlied (List.mem_of_getElem? hitem)

/-- Videos can be stored below any container while the writes succeed. -/
theorem exists_storeVideos {world : World} (houtcomes : AllApplied world.store.outcomes)
    {old : MediaObject}
    (hstored : objectAt world.store.db (.objectKey composer.parentId) = some old)
    (hcontainer : old.IsContainer) (hvideos : videos ≠ []) :
    ∃ after, storeVideos composer videos world = .ok ⟨⟩ after ∧
      after.store.journal ≠ world.store.journal := by
  have hparents : ∀ item ∈ composer.itemRecords videos world.scanner.nextObjectId
      world.scanner.nextResourceId, item.parentId = composer.parentId := by
    intro item hitem
    obtain ⟨video, -, id, start, rfl, -⟩ := ObjectComposer.mem_itemRecords hitem
    rfl
  have hput := putItems_of_allApplied _
    (ObjectComposer.numberedResources world.scanner.nextResourceId
      (videos.flatMap composer.itemFiles))
    (deserializeContainer_of_objectAt hstored hcontainer) hparents houtcomes
  rw [storeVideos_apply, if_neg hvideos]
  exact ⟨_, inStore_eq_ok_iff.mpr ⟨_, hput, rfl⟩, by simp⟩

end Stored

/-- A scanner about to file below the root of a new store. -/
def newWorld : World := ⟨⟨newDb, [], []⟩, ⟨⟨-1⟩, 0, 1⟩, []⟩

def rootComposer : ObjectComposer := ⟨[], OrderedMap.empty, OrderedMap.empty, ⟨0⟩⟩

def filmVideo (name : Bytes) : Bytes × FileInfo := (name, ⟨ascii "video/x-matroska", name⟩)

theorem idsBelow_newWorld :
    IdsBelow newWorld.store.db newWorld.scanner.nextObjectId newWorld.scanner.nextResourceId := by
  constructor
  · intro key record hkey
    rw [newWorld, lookup_newDb] at hkey
    split at hkey
    · rename_i hroot
      obtain rfl : key = ⟨0⟩ := by simpa [rootKey] using hroot
      decide
    · simp at hkey
  · intro key record hkey
    rw [newWorld, lookup_newDb, if_neg (by simp [rootKey])] at hkey
    simp at hkey

theorem storeVideos_newWorld (name : Bytes) : ∃ after,
    @storeVideos insertionSorter rootComposer [filmVideo name] newWorld = .ok ⟨⟩ after ∧
      after.store.journal ≠ newWorld.store.journal := by
  refine @exists_storeVideos insertionSorter rootComposer [filmVideo name] newWorld
    (by simp [AllApplied, newWorld]) _ (objectAt_newDb.mpr ⟨rfl, rfl⟩)
    (isContainer_serializeContainer _ _) (by simp)

theorem composeAll_newWorld (name : Bytes) :
    (@ObjectComposer.composeAll rootComposer insertionSorter [filmVideo name]
      ⟨newWorld.scanner, []⟩).1 =
        [@ObjectComposer.itemRecord rootComposer insertionSorter (filmVideo name) 1 0] := by
  rw [ObjectComposer.composeAll_eq]
  rfl

theorem storedYear_alien : ∃ after,
    @storeVideos insertionSorter rootComposer [filmVideo (ascii "Alien.1979.mkv")] newWorld =
        .ok ⟨⟩ after ∧
      ShowsYear after.store.db ⟨1⟩ 1979 := by
  obtain ⟨after, hreturns, happlied⟩ := storeVideos_newWorld (ascii "Alien.1979.mkv")
  have hyear : (normalizeTitle
      (rootComposer.titleName (filmVideo (ascii "Alien.1979.mkv")))).2 = 1979 := by decide
  have hitem := congrArg (fun items => items[0]?) (composeAll_newWorld (ascii "Alien.1979.mkv"))
  have hshows := @storedYear_iff insertionSorter rootComposer _ newWorld after idsBelow_newWorld
    hreturns happlied 0 _ _ List.getElem?_cons_zero hitem
  rw [hyear] at hshows
  exact ⟨after, hreturns, hshows.mpr (by decide)⟩

/-- The film of the year in which the day count starts is shown without a date. -/
theorem not_storedYear_patton : ∃ after,
    @storeVideos insertionSorter rootComposer [filmVideo (ascii "Patton.1970.mkv")] newWorld =
        .ok ⟨⟩ after ∧
      (normalizeTitle (rootComposer.titleName (filmVideo (ascii "Patton.1970.mkv")))).2 = 1970 ∧
      ¬ ShowsYear after.store.db ⟨1⟩ 1970 := by
  obtain ⟨after, hreturns, happlied⟩ := storeVideos_newWorld (ascii "Patton.1970.mkv")
  have hyear : (normalizeTitle
      (rootComposer.titleName (filmVideo (ascii "Patton.1970.mkv")))).2 = 1970 := by decide
  have hshows := @showsYear_itemRecord insertionSorter rootComposer _ newWorld after
    idsBelow_newWorld hreturns happlied _ 1 0 List.mem_cons_self
  rw [hyear] at hshows
  exact ⟨after, hreturns, hyear, fun h => hshows.mp h rfl⟩

end Eems

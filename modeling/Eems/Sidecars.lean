/-
Which subtitles and which artwork an item is given, in the terms of the
directory it comes from.
-/
import Eems.Basic.PrefixRange
import Eems.DidlElements
import Eems.FreshBatches
import Eems.LibraryRenaming

namespace Eems

open Numbering

/-- A regular file of an accepted type, filed under its name. -/
def HoldsFile (path : Path) (entries : List DirEntry) (accept : Bytes → Bool)
    (file : Bytes × FileInfo) : Prop :=
  ⟨file.1, .regular⟩ ∈ entries ∧ file.2.path = Path.append path file.1 ∧
    getMimeType file.2.path = some file.2.mimeType ∧ accept file.2.mimeType = true

/-- The artwork type that the rest of a picture's name stands for. -/
def NamesArtwork (rest : Bytes) : ArtworkType → Prop
  | .poster => ascii "poster" <:+: rest
  | .thumbnail => ¬ ascii "poster" <:+: rest ∧ ascii "thumb" <:+: rest

/-- A picture whose name starts with `front` and goes on to say what it is. -/
def IsOwnArtwork (path : Path) (entries : List DirEntry) (front : Bytes)
    (picture : FileInfo × ArtworkType) : Prop :=
  ∃ rest, HoldsFile path entries isImageType (front ++ rest, picture.1) ∧
    NamesArtwork rest picture.2

/-- `poster.jpg`, or `folder.jpg` in a directory without it. -/
def IsFolderArtwork (path : Path) (entries : List DirEntry) : FileInfo × ArtworkType → Prop
  | (info, .poster) => HoldsFile path entries isImageType (ascii "poster.jpg", info)
  | (info, .thumbnail) => HoldsFile path entries isImageType (ascii "folder.jpg", info) ∧
      ∀ poster, ¬ HoldsFile path entries isImageType (ascii "poster.jpg", poster)

/-- The artwork of an item: its own, or that of the folder where it has none. -/
def IsItemArtwork (path : Path) (entries : List DirEntry) (front : Bytes)
    (picture : FileInfo × ArtworkType) : Prop :=
  IsOwnArtwork path entries front picture ∨
    (∀ own, ¬ IsOwnArtwork path entries front own) ∧ IsFolderArtwork path entries picture

/-- The key refers to the file's record among the resources added. -/
def Names (added : List (ResourceKey × Resource)) (key : LibraryKey) (info : FileInfo) : Prop :=
  ∃ id, key = .resourceKey id ∧ (id, resourceOf info) ∈ added

/-- An item with the resources and the artwork that the prefix `front` selects
for its video. -/
structure HasSidecars (path : Path) (entries : List DirEntry) (front : Bytes)
    (video : Bytes × FileInfo) (added : List (ResourceKey × Resource))
    (item : MediaObject) : Prop where
  resources : ∃ subtitles : List (Bytes × FileInfo),
    (subtitles.map Prod.fst).Pairwise (· < ·) ∧
      (∀ file, file ∈ subtitles ↔ HoldsFile path entries isTextType file ∧ front <+: file.1) ∧
      List.Forall₂ (fun ref info => Names added ref.ref info) item.resources
        (video.2 :: subtitles.map Prod.snd)
  artwork : ∃ pictures : List (FileInfo × ArtworkType),
    (pictures.map Prod.fst).Nodup ∧
      (∀ picture, picture ∈ pictures ↔ IsItemArtwork path entries front picture) ∧
      List.Forall₂ (fun art picture => Names added art.ref picture.1 ∧ art.type = picture.2)
        item.artworks pictures

/-- The element shows the artwork of the item, the posters first. -/
structure ShowsArtwork (contentBase : Bytes) (item : MediaObject) (element : Xml) : Prop where
  uris : (element.childrenNamed "upnp:albumArtURI").map Xml.text =
    item.artworks.map fun art => resourceUrl contentBase art.ref.id
  types : (element.childrenNamed "xbmc:artwork").map (fun child =>
      child.attributes.lookup (ascii "type")) =
    item.artworks.map fun art => some (artworkTypeName art.type)
  posters_first : item.artworks.Pairwise fun left right =>
    right.type = .poster → left.type = .poster
  first_poster : ∀ art ∈ item.artworks, art.type = .poster →
    ∃ poster ∈ item.artworks, poster.type = .poster ∧
      ((element.childrenNamed "upnp:albumArtURI").map Xml.text).head? =
        some (resourceUrl contentBase poster.ref.id)

/-- A composer over the files of a directory. -/
def DirectoryContent.composer (content : DirectoryContent) (folderName : Bytes)
    (parentId : ObjectKey) : ObjectComposer :=
  ⟨folderName, content.subtitles, content.artwork, parentId⟩

theorem contains_iff {text pattern : Bytes} : contains text pattern = true ↔ pattern <:+: text := by
  rw [contains, List.any_eq_true]
  constructor
  · rintro ⟨tail, htail, hpattern⟩
    exact (List.isPrefixOf_iff_prefix.mp hpattern).isInfix.trans
      ((List.mem_tails _ _).mp htail).isInfix
  · rintro ⟨before, after, rfl⟩
    refine ⟨pattern ++ after, (List.mem_tails _ _).mpr ⟨before, by simp⟩, ?_⟩
    exact List.isPrefixOf_iff_prefix.mpr (List.prefix_append pattern after)

theorem classifyArtwork_eq_some {rest : Bytes} {artType : ArtworkType} :
    classifyArtwork rest = some artType ↔ NamesArtwork rest artType := by
  unfold classifyArtwork
  by_cases hposter : ascii "poster" <:+: rest <;> by_cases hthumb : ascii "thumb" <:+: rest <;>
    cases artType <;> simp [contains_iff, NamesArtwork, hposter, hthumb]

/-- The MIME types told apart by their prefixes exclude each other. -/
theorem isArtworkFile_eq : isArtworkFile = isImageType := by
  funext mimeType
  cases mimeType with
  | nil => rfl
  | cons c rest =>
      have hvideo : ascii "video/" = 118 :: ascii "ideo/" := rfl
      have himage : ascii "image/" = 105 :: ascii "mage/" := rfl
      by_cases hc : c = 105
      · simp [isArtworkFile, isVideoType, isImageType, hvideo, himage, List.isPrefixOf, hc]
      · simp [isArtworkFile, isVideoType, isImageType, hvideo, himage, List.isPrefixOf,
          Ne.symm hc]

theorem isSubtitleFile_eq : isSubtitleFile = isTextType := by
  funext mimeType
  cases mimeType with
  | nil => rfl
  | cons c rest =>
      have hvideo : ascii "video/" = 118 :: ascii "ideo/" := rfl
      have himage : ascii "image/" = 105 :: ascii "mage/" := rfl
      have htext : ascii "text/" = 116 :: ascii "ext/" := rfl
      by_cases hc : c = 116
      · simp [isSubtitleFile, isVideoType, isImageType, isTextType, hvideo, himage, htext,
          List.isPrefixOf, hc]
      · simp [isSubtitleFile, isVideoType, isImageType, isTextType, hvideo, himage, htext,
          List.isPrefixOf, Ne.symm hc]

theorem artwork_readContent (path : Path) (entries : List DirEntry) :
    (readContent path entries).artwork = fileMap path isImageType entries := by
  rw [readContent_eq, isArtworkFile_eq]

theorem subtitles_readContent (path : Path) (entries : List DirEntry) :
    (readContent path entries).subtitles = fileMap path isTextType entries := by
  rw [readContent_eq, isSubtitleFile_eq]

section Directory

variable {fs : FileSystem} {path : Path} {entries : List DirEntry}

theorem mem_fileMap_iff_holdsFile (hentries : fs.entries path = some entries)
    {accept : Bytes → Bool} {file : Bytes × FileInfo} :
    file ∈ (fileMap path accept entries).entries ↔ HoldsFile path entries accept file := by
  rw [mem_fileMap_entries (fs.names_nodup path entries hentries)
    (fs.names_valid path entries hentries)]
  constructor
  · rintro ⟨⟨name, type⟩, hentry, hsome⟩
    obtain ⟨htype, hname, hpath, hmime, haccept⟩ := fileEntry_eq_some hsome
    rw [Path.filename_append _ (fs.names_valid path entries hentries _ hentry).2.1] at hname
    obtain rfl : type = .regular := htype
    exact ⟨hname ▸ hentry, hname ▸ hpath, hmime, haccept⟩
  · rintro ⟨hentry, hpath, hmime, haccept⟩
    have hslash := (fs.names_valid path entries hentries _ hentry).2.1
    rw [hpath] at hmime
    refine ⟨_, hentry, ?_⟩
    simp only [fileEntry, ↓reduceIte, hmime, Option.bind_some, haccept,
      Path.filename_append path hslash]
    rw [← hpath]

/-- Different files of a directory have different paths. -/
theorem infos_nodup (hentries : fs.entries path = some entries) (accept : Bytes → Bool) :
    ((fileMap path accept entries).entries.map Prod.snd).Nodup := by
  apply (fileMap path accept entries).entries_nodup.map_on
  intro left hleft right hright heq
  obtain ⟨-, hleftPath, -⟩ := (mem_fileMap_iff_holdsFile hentries).mp hleft
  obtain ⟨-, hrightPath, -⟩ := (mem_fileMap_iff_holdsFile hentries).mp hright
  have hname := Path.append_injective path (hleftPath.symm.trans (heq ▸ hrightPath))
  exact Prod.ext hname heq

end Directory

namespace ObjectComposer

variable {composer : ObjectComposer} {name : Bytes}

/-- The loop over the artwork map finds every picture with the prefix. -/
theorem mem_ownArtwork_iff {picture : FileInfo × ArtworkType} :
    picture ∈ composer.ownArtwork name ↔
      ∃ rest, (composer.resourcePrefix name ++ rest, picture.1) ∈ composer.artwork.entries ∧
        NamesArtwork rest picture.2 := by
  rw [ownArtwork, PrefixRange.takeWhile_lowerBound, List.mem_filterMap]
  constructor
  · rintro ⟨⟨key, info⟩, hentry, hsome⟩
    obtain ⟨artType, hclass, rfl⟩ := Option.map_eq_some_iff.mp hsome
    obtain ⟨hmem, hfront⟩ := List.mem_filter.mp hentry
    obtain ⟨rest, rfl⟩ := List.isPrefixOf_iff_prefix.mp hfront
    rw [List.drop_left] at hclass
    exact ⟨rest, hmem, classifyArtwork_eq_some.mp hclass⟩
  · rintro ⟨rest, hmem, hnames⟩
    refine ⟨_, List.mem_filter.mpr ⟨hmem, ?_⟩, ?_⟩
    · exact List.isPrefixOf_iff_prefix.mpr (List.prefix_append _ rest)
    · simp [classifyArtwork_eq_some.mpr hnames]

theorem ownArtwork_sublist :
    ((composer.ownArtwork name).map Prod.fst).Sublist (composer.artwork.entries.map Prod.snd) := by
  rw [ownArtwork, PrefixRange.takeWhile_lowerBound, List.map_filterMap]
  have hfront := (List.filter_sublist (l := composer.artwork.entries)
    (p := fun entry => (composer.resourcePrefix name).isPrefixOf entry.1)).map Prod.snd
  refine List.Sublist.trans ?_ hfront
  generalize composer.artwork.entries.filter _ = list
  induction list with
  | nil => exact List.Sublist.slnil
  | cons entry rest ih =>
      cases hclass : classifyArtwork (entry.1.drop (composer.resourcePrefix name).length) with
      | none => simpa [hclass] using ih.cons entry.2
      | some artType => simpa [hclass] using ih

/-- The loop over the subtitles as a filter. -/
theorem itemSubtitles_eq : composer.itemSubtitles name =
    (composer.subtitles.entries.filter fun entry =>
      (composer.resourcePrefix name).isPrefixOf entry.1).map Prod.snd := by
  rw [itemSubtitles, PrefixRange.takeWhile_lowerBound]

end ObjectComposer

section Selection

variable {fs : FileSystem} {path : Path} {entries : List DirEntry} {composer : ObjectComposer}
  (hentries : fs.entries path = some entries)
  (hartwork : composer.artwork = fileMap path isImageType entries)

include hentries hartwork

theorem mem_ownArtwork_iff_isOwnArtwork {name : Bytes} {picture : FileInfo × ArtworkType} :
    picture ∈ composer.ownArtwork name ↔
      IsOwnArtwork path entries (composer.resourcePrefix name) picture := by
  simp only [ObjectComposer.mem_ownArtwork_iff, hartwork, mem_fileMap_iff_holdsFile hentries]
  rfl

theorem getFolderArtwork_eq_iff {info : FileInfo} {artType : ArtworkType} :
    getFolderArtwork composer.artwork = (some info, artType) ↔
      IsFolderArtwork path entries (info, artType) := by
  have hlookup : ∀ name found, composer.artwork.lookup name = some found ↔
      HoldsFile path entries isImageType (name, found) := by
    intro name found
    rw [← OrderedMap.mem_entries_iff, hartwork, mem_fileMap_iff_holdsFile hentries]
  have hposter := hlookup (ascii "poster.jpg")
  have hfolder := hlookup (ascii "folder.jpg")
  unfold getFolderArtwork
  cases hfound : composer.artwork.lookup (ascii "poster.jpg") with
  | some poster =>
      have hunique : ∀ found, HoldsFile path entries isImageType (ascii "poster.jpg", found) ↔
          found = poster := by
        intro found
        rw [← hposter, hfound, Option.some.injEq, eq_comm]
      cases artType <;> simp [IsFolderArtwork, hunique, eq_comm]
  | none =>
      have hnone : ∀ found, ¬ HoldsFile path entries isImageType (ascii "poster.jpg", found) := by
        intro found hfile
        have := (hposter found).mpr hfile
        simp [hfound] at this
      cases hother : composer.artwork.lookup (ascii "folder.jpg") with
      | some folder =>
          have hunique : ∀ found, HoldsFile path entries isImageType (ascii "folder.jpg", found) ↔
              found = folder := by
            intro found
            rw [← hfolder, hother, Option.some.injEq, eq_comm]
          cases artType <;> simp [IsFolderArtwork, hunique, hnone, eq_comm]
      | none =>
          have hno : ∀ found, ¬ HoldsFile path entries isImageType (ascii "folder.jpg", found) := by
            intro found hfile
            have := (hfolder found).mpr hfile
            simp [hother] at this
          cases artType <;> simp [IsFolderArtwork, hno, hnone]

theorem mem_itemArtwork_iff {name : Bytes} {picture : FileInfo × ArtworkType} :
    picture ∈ composer.itemArtwork name ↔
      IsItemArtwork path entries (composer.resourcePrefix name) picture := by
  have hown : ∀ own, own ∈ composer.ownArtwork name ↔
      IsOwnArtwork path entries (composer.resourcePrefix name) own :=
    fun own => mem_ownArtwork_iff_isOwnArtwork hentries hartwork
  cases hlist : composer.ownArtwork name with
  | cons first rest =>
      have hsome := (hown first).mp (by simp [hlist])
      have hnot : ¬ ∀ own, ¬ IsOwnArtwork path entries (composer.resourcePrefix name) own :=
        fun h => h first hsome
      rw [IsItemArtwork, ← hown, ObjectComposer.itemArtwork, hlist]
      simp only [hnot, List.isEmpty_cons, Bool.false_eq_true, ↓reduceIte, false_and, or_false]
  | nil =>
      have hnone : ∀ own, ¬ IsOwnArtwork path entries (composer.resourcePrefix name) own := by
        intro own h
        have := (hown own).mpr h
        simp [hlist] at this
      obtain ⟨info, artType⟩ := picture
      rw [IsItemArtwork, ← getFolderArtwork_eq_iff hentries hartwork, ObjectComposer.itemArtwork,
        hlist]
      rcases hfolder : getFolderArtwork composer.artwork with ⟨_ | found, foundType⟩
      · simp [hnone]
      · simp [hnone, eq_comm]

theorem itemArtwork_nodup (name : Bytes) : ((composer.itemArtwork name).map Prod.fst).Nodup := by
  unfold ObjectComposer.itemArtwork
  split
  · split <;> simp
  · exact ObjectComposer.ownArtwork_sublist.nodup (hartwork ▸ infos_nodup hentries isImageType)

theorem hasSidecars_itemRecord [ArtworkSorter]
    (hsubtitles : composer.subtitles = fileMap path isTextType entries)
    (video : Bytes × FileInfo) (id start : Int) :
    HasSidecars path entries (composer.resourcePrefix video.1) video
      (ObjectComposer.numberedResources start (composer.itemFiles video))
      (composer.itemRecord video id start) := by
  have hnames : ∀ p ∈ numberFrom start (composer.itemFiles video),
      Names (ObjectComposer.numberedResources start (composer.itemFiles video))
        (.resourceKey ⟨p.1⟩) p.2 := fun p hp => ⟨⟨p.1⟩, rfl, List.mem_map_of_mem hp⟩
  have hfiles : numberFrom start (composer.itemFiles video) = (start, video.2) ::
      (numberFrom (start + 1) ((composer.itemArtwork video.1).map Prod.fst) ++
        numberFrom (start + 1 + (composer.itemArtwork video.1).length)
          (composer.itemSubtitles video.1)) := by
    simp [ObjectComposer.itemFiles, numberFrom, numberFrom_append]
  rw [hfiles] at hnames
  constructor
  · refine ⟨composer.subtitles.entries.filter fun entry =>
      (composer.resourcePrefix video.1).isPrefixOf entry.1, ?_, ?_, ?_⟩
    · exact List.pairwise_map.mpr (composer.subtitles.sorted.sublist List.filter_sublist)
    · intro file
      rw [List.mem_filter, hsubtitles, mem_fileMap_iff_holdsFile hentries,
        List.isPrefixOf_iff_prefix]
    · rw [ObjectComposer.resources_itemRecord, ← ObjectComposer.itemSubtitles_eq]
      refine List.Forall₂.cons (hnames _ List.mem_cons_self) ?_
      refine List.forall₂_map_left_iff.mpr (forall₂_numberFrom fun p hp => ?_)
      exact hnames p (List.mem_cons_of_mem _ (List.mem_append_right _ hp))
  · have hnumbered : List.Forall₂ (fun art picture =>
        Names (ObjectComposer.numberedResources start (composer.itemFiles video)) art.ref
          picture.1 ∧ art.type = picture.2)
        (ObjectComposer.numberedArtwork (start + 1) (composer.itemArtwork video.1))
        (composer.itemArtwork video.1) := by
      refine List.forall₂_map_left_iff.mpr (forall₂_numberFrom fun p hp => ⟨?_, rfl⟩)
      refine hnames (p.1, p.2.1) (List.mem_cons_of_mem _ (List.mem_append_left _ ?_))
      rw [numberFrom_map]
      exact List.mem_map_of_mem hp
    obtain ⟨pictures, hpictures, hperm⟩ :=
      List.perm_comp_forall₂ (composer.artworks_itemRecord_perm video id start) hnumbered
    refine ⟨pictures, ?_, ?_, hpictures⟩
    · exact ((hperm.map Prod.fst).nodup_iff).mpr (itemArtwork_nodup hentries hartwork video.1)
    · intro picture
      rw [hperm.mem_iff, mem_itemArtwork_iff hentries hartwork]

end Selection

section Shown

variable (contentBase : Bytes)

theorem filter_shownArtwork (artworks : List Artwork) (name : String) (wanted : Artwork → Xml)
    (hwanted : ∀ art, (shownArtwork contentBase art).filter (fun child => child.name = ascii name) =
      [wanted art]) :
    (artworks.flatMap (shownArtwork contentBase)).filter (fun child => child.name = ascii name) =
      artworks.map wanted := by
  rw [List.filter_flatMap, List.flatMap_congr fun art _ => hwanted art, List.map_eq_flatMap]

theorem showsArtwork_objectElement {item : MediaObject} (hitem : item.IsItem)
    (hposters : item.PostersFirst) :
    ShowsArtwork contentBase item (objectElement contentBase item) := by
  have hfirst : item.artworks.Pairwise fun left right =>
      right.type = .poster → left.type = .poster := by
    refine hposters.imp fun {left right} hle hright => ?_
    cases hleft : left.type with
    | poster => rfl
    | thumbnail => simp [hleft, hright, ArtworkType.underlying] at hle
  have huris : ((objectElement contentBase item).childrenNamed "upnp:albumArtURI").map Xml.text =
      item.artworks.map fun art => resourceUrl contentBase art.ref.id := by
    rw [childrenNamed_objectElement contentBase hitem _ (by decide),
      filter_shownArtwork contentBase item.artworks _ _ fun _ => rfl, List.map_map]
    rfl
  refine ⟨huris, ?_, hfirst, ?_⟩
  · rw [childrenNamed_objectElement contentBase hitem _ (by decide),
      filter_shownArtwork contentBase item.artworks _ _ fun _ => rfl, List.map_map]
    rfl
  · intro art hmem hposter
    rw [huris]
    cases hlist : item.artworks with
    | nil => simp [hlist] at hmem
    | cons first rest =>
        rw [hlist] at hmem hfirst
        refine ⟨first, List.mem_cons_self, ?_, rfl⟩
        rcases List.mem_cons.mp hmem with rfl | hrest
        · exact hposter
        · exact (List.pairwise_cons.mp hfirst).1 art hrest hposter

end Shown

/-- The item composed for a video has exactly the sidecars that the plain
specification names, and shows its posters first. -/
theorem compose_sidecars [ArtworkSorter] {fs : FileSystem} {path : Path}
    {entries : List DirEntry} (hentries : fs.entries path = some entries) (folderName : Bytes)
    (parentId : ObjectKey) (video : Bytes × FileInfo) (composition : Composition) :
    ∃ item next added,
      ((readContent path entries).composer folderName parentId).compose video composition =
          (item, next) ∧
        next.resources = composition.resources ++ added ∧ (added.map Prod.fst).Nodup ∧
        HasSidecars path entries (if folderName = [] then Path.stem video.1 else []) video added
          item ∧
        ∀ contentBase, ∃ element, ShowsArtwork contentBase item element ∧
          ∀ didlRoot, serializeMediaObject didlRoot contentBase item =
            .ok (true, didlRoot ++ [element]) := by
  let composer := (readContent path entries).composer folderName parentId
  have hfront : composer.resourcePrefix video.1 =
      if folderName = [] then Path.stem video.1 else [] := by
    simp [composer, ObjectComposer.resourcePrefix, DirectoryContent.composer]
  refine ⟨_, _, _, composer.compose_eq video composition, rfl,
    ObjectComposer.nodup_numberedResources _ _, ?_, ?_⟩
  · rw [← hfront]
    exact hasSidecars_itemRecord hentries (artwork_readContent path entries)
      (subtitles_readContent path entries) video _ _
  · intro contentBase
    have hitem : (composer.itemRecord video composition.context.nextObjectId
        composition.context.nextResourceId).IsItem := ⟨_, rfl⟩
    refine ⟨_, showsArtwork_objectElement contentBase hitem
      (composer.artworks_itemRecord_sorted video _ _), fun didlRoot => ?_⟩
    apply serializeMediaObject_eq didlRoot contentBase (Or.inl hitem)
    intro ref href
    have hmem := (composer.resourceRefs_itemRecord_perm video _ _).subset href
    obtain ⟨p, -, rfl⟩ := List.mem_map.mp hmem
    exact ⟨_, rfl⟩

def fileNamed (path : Path) (name mimeType : Bytes) : Bytes × FileInfo :=
  (name, ⟨mimeType, Path.append path name⟩)

def filmEntries : List DirEntry :=
  [⟨ascii "Alien.1979.mkv", .regular⟩, ⟨ascii "Brazil.avi", .regular⟩,
    ⟨ascii "poster.jpg", .regular⟩, ⟨ascii "more", .directory⟩]

theorem compose_sidecars_cube :
    ∃ item added, HasSidecars (ascii "films/more")
      [⟨ascii "Cube.mp4", .regular⟩, ⟨ascii "Cube.srt", .regular⟩] (ascii "Cube")
      (fileNamed (ascii "films/more") (ascii "Cube.mp4") (ascii "video/mp4")) added item := by
  obtain ⟨item, -, added, -, -, -, hsidecars, -⟩ :=
    @compose_sidecars insertionSorter filmFiles (ascii "films/more")
      [⟨ascii "Cube.mp4", .regular⟩, ⟨ascii "Cube.srt", .regular⟩] (by decide) [] ⟨1⟩
      (fileNamed (ascii "films/more") (ascii "Cube.mp4") (ascii "video/mp4")) ⟨{}, []⟩
  exact ⟨item, added, hsidecars⟩

/-- The files of a directory that can go with a video. -/
def IsSidecar (path : Path) (entries : List DirEntry) (file : Bytes × FileInfo) : Prop :=
  HoldsFile path entries isTextType file ∨ HoldsFile path entries isImageType file

/-- Whatever was composed before it, the item of the video refers to the
file. -/
def Refers [ArtworkSorter] (composer : ObjectComposer) (video : Bytes × FileInfo)
    (info : FileInfo) : Prop :=
  ∀ composition, ∃ item next added, composer.compose video composition = (item, next) ∧
    next.resources = composition.resources ++ added ∧
    ∃ key ∈ item.resourceRefs, Names added key info

/-- The name of the sidecar starts with the stem and, a picture's, goes on to
say what it is. -/
def TakenByName (stem : Bytes) (file : Bytes × FileInfo) : Prop :=
  ∃ rest, file.1 = stem ++ rest ∧
    (isTextType file.2.mimeType = true ∨ ∃ artType, NamesArtwork rest artType)

/-- The item of the video refers to the file by the name-prefix rule. -/
def Attached [ArtworkSorter] (composer : ObjectComposer) (video file : Bytes × FileInfo) : Prop :=
  Refers composer video file.2 ∧ TakenByName (Path.stem video.1) file

/-- Every sidecar goes with the longest stem that its name starts with, and
with that one only. -/
def OneTitle [ArtworkSorter] (path : Path) (entries : List DirEntry) (composer : ObjectComposer)
    (videos : List (Bytes × FileInfo)) : Prop :=
  ∀ file, IsSidecar path entries file → ∀ video ∈ videos, Attached composer video file →
    (∀ other ∈ videos, Attached composer other file →
      Path.stem other.1 = Path.stem video.1) ∧
    Path.stem video.1 <+: file.1 ∧
    ∀ other ∈ videos, Path.stem other.1 <+: file.1 →
      (Path.stem other.1).length ≤ (Path.stem video.1).length

/-- No sidecar that a stem takes by name starts with a stem extending it. -/
def StemsApart (path : Path) (entries : List DirEntry) (videos : List (Bytes × FileInfo)) : Prop :=
  ∀ file, IsSidecar path entries file → ∀ video ∈ videos, ∀ other ∈ videos,
    Path.stem video.1 <+: Path.stem other.1 → Path.stem other.1 <+: file.1 →
      TakenByName (Path.stem video.1) file → Path.stem other.1 = Path.stem video.1

section Attachment

variable [ArtworkSorter] {fs : FileSystem} {path : Path} {entries : List DirEntry}
  {composer : ObjectComposer} (hentries : fs.entries path = some entries)
  (hartwork : composer.artwork = fileMap path isImageType entries)
  (hsubtitles : composer.subtitles = fileMap path isTextType entries)

theorem refers_of_mem_itemFiles {video : Bytes × FileInfo} {info : FileInfo}
    (hinfo : info ∈ composer.itemFiles video) : Refers composer video info := by
  intro composition
  refine ⟨_, _, _, composer.compose_eq video composition, rfl, ?_⟩
  rw [← map_snd_numberFrom composition.context.nextResourceId (composer.itemFiles video)] at hinfo
  obtain ⟨p, hp, rfl⟩ := List.mem_map.mp hinfo
  have hresource := List.mem_map_of_mem (f := fun q : Int × FileInfo =>
    ((⟨q.1⟩, resourceOf q.2) : ResourceKey × Resource)) hp
  refine ⟨.resourceKey ⟨p.1⟩, ?_, ⟨p.1⟩, rfl, hresource⟩
  exact (composer.resourceRefs_itemRecord_perm video _ _).symm.subset
    (List.mem_map_of_mem (f := fun q : ResourceKey × Resource => LibraryKey.resourceKey q.1)
      hresource)

include hentries hartwork hsubtitles

/-- The item of a video refers to every sidecar that its stem takes by name. -/
theorem attached_of_takenByName {video file : Bytes × FileInfo}
    (hfile : IsSidecar path entries file)
    (hfront : composer.resourcePrefix video.1 = Path.stem video.1)
    (htaken : TakenByName (Path.stem video.1) file) : Attached composer video file := by
  refine ⟨refers_of_mem_itemFiles ?_, htaken⟩
  obtain ⟨rest, hname, hrule⟩ := htaken
  refine List.mem_cons_of_mem _ (List.mem_append.mpr ?_)
  rcases hfile with hholds | hholds
  · right
    rw [ObjectComposer.itemSubtitles_eq, hsubtitles, hfront]
    refine List.mem_map_of_mem (List.mem_filter.mpr
      ⟨(mem_fileMap_iff_holdsFile hentries).mpr hholds, ?_⟩)
    exact List.isPrefixOf_iff_prefix.mpr ⟨rest, hname.symm⟩
  · left
    rcases hrule with htext | ⟨artType, hnames⟩
    · have himage := hholds.2.2.2
      rw [← isSubtitleFile_eq] at htext
      simp [isSubtitleFile, himage] at htext
    · refine List.mem_map.mpr ⟨(file.2, artType), ?_, rfl⟩
      rw [mem_itemArtwork_iff hentries hartwork, hfront]
      exact Or.inl ⟨rest, hname ▸ hholds, hnames⟩

variable {videos : List (Bytes × FileInfo)}
  (hfront : ∀ video, composer.resourcePrefix video = Path.stem video)

include hfront

theorem stemsApart_of_oneTitle (h : OneTitle path entries composer videos) :
    StemsApart path entries videos := by
  intro file hfile video hvideo other hother hextends hother' htaken
  have hattached := attached_of_takenByName hentries hartwork hsubtitles hfile
    (hfront video.1) htaken
  obtain ⟨-, -, hlongest⟩ := h file hfile video hvideo hattached
  exact (hextends.eq_of_length_le (hlongest other hother hother')).symm

omit hentries hartwork hsubtitles hfront in
theorem oneTitle_of_stemsApart (h : StemsApart path entries videos) :
    OneTitle path entries composer videos := by
  rintro file hfile video hvideo ⟨-, htaken⟩
  have hstem : Path.stem video.1 <+: file.1 := ⟨htaken.choose, htaken.choose_spec.1.symm⟩
  have hlongest : ∀ other ∈ videos, Path.stem other.1 <+: file.1 →
      Path.stem video.1 <+: Path.stem other.1 → Path.stem other.1 = Path.stem video.1 :=
    fun other hother hother' hextends =>
      h file hfile video hvideo other hother hextends hother' htaken
  refine ⟨?_, hstem, ?_⟩
  · rintro other hother ⟨-, htaken'⟩
    have hother' : Path.stem other.1 <+: file.1 := ⟨htaken'.choose, htaken'.choose_spec.1.symm⟩
    rcases List.prefix_or_prefix_of_prefix hstem hother' with hextends | hextends
    · exact hlongest other hother hother' hextends
    · exact (h file hfile other hother video hvideo hextends hstem htaken').symm
  · intro other hother hother'
    rcases List.prefix_or_prefix_of_prefix hstem hother' with hextends | hextends
    · exact (congrArg List.length (hlongest other hother hother' hextends)).le
    · exact hextends.length_le

end Attachment

/-- With several videos a sidecar goes with one title exactly where no stem
extends another up to a sidecar that both take. -/
theorem oneTitle_iff [ArtworkSorter] {fs : FileSystem} {path : Path} {entries : List DirEntry}
    (hentries : fs.entries path = some entries) (config : MoviesLibraryConfig)
    (parent : ObjectKey) (hvideos : 2 ≤ (readContent path entries).videos.entries.length) :
    OneTitle path entries (composerOf path config (readContent path entries) parent)
        (readContent path entries).videos.entries ↔
      StemsApart path entries (readContent path entries).videos.entries := by
  have hone : (readContent path entries).videos.entries.length ≠ 1 := by omega
  refine ⟨stemsApart_of_oneTitle hentries (artwork_readContent path entries)
    (subtitles_readContent path entries) fun video => ?_, oneTitle_of_stemsApart⟩
  simp [ObjectComposer.resourcePrefix, composerOf, hone]

theorem oneTitle_iff_films :
    @OneTitle insertionSorter (ascii "films") filmEntries
      (composerOf (ascii "films") {} (readContent (ascii "films") filmEntries) ⟨1⟩)
      (readContent (ascii "films") filmEntries).videos.entries := by
  refine (@oneTitle_iff insertionSorter filmFiles (ascii "films") filmEntries (by decide) {} ⟨1⟩
    (by decide)).mpr ?_
  have hapart : ∀ video ∈ (readContent (ascii "films") filmEntries).videos.entries,
      ∀ other ∈ (readContent (ascii "films") filmEntries).videos.entries,
        (Path.stem video.1).isPrefixOf (Path.stem other.1) = true →
          Path.stem other.1 = Path.stem video.1 := by
    decide
  exact fun file _ video hvideo other hother hextends _ _ =>
    hapart video hvideo other hother (List.isPrefixOf_iff_prefix.mpr hextends)

/-- A film, its sequel, and the subtitles of the sequel. -/
def sequelEntries : List DirEntry :=
  [⟨ascii "Alien.mkv", .regular⟩, ⟨ascii "Aliens.mkv", .regular⟩, ⟨ascii "Aliens.srt", .regular⟩]

def sequelFiles : FileSystem :=
  .ofTable [(ascii "sequels", sequelEntries)] (by decide) (by decide) (by decide)

/-- The subtitles of the sequel go with the first film as well. -/
theorem sequels_not_oneTitle :
    ¬ @OneTitle insertionSorter (ascii "sequels") sequelEntries
      (composerOf (ascii "sequels") {} (readContent (ascii "sequels") sequelEntries) ⟨1⟩)
      (readContent (ascii "sequels") sequelEntries).videos.entries := by
  intro h
  have hentries : sequelFiles.entries (ascii "sequels") = some sequelEntries := by decide
  have hfront : ∀ video, (composerOf (ascii "sequels") {}
      (readContent (ascii "sequels") sequelEntries) ⟨1⟩).resourcePrefix video =
        Path.stem video := fun _ => rfl
  have hapart := @stemsApart_of_oneTitle insertionSorter _ _ _ _ hentries
    (artwork_readContent _ _) (subtitles_readContent _ _) _ hfront h
    (fileNamed (ascii "sequels") (ascii "Aliens.srt") (ascii "text/srt"))
    (Or.inl ⟨by decide, rfl, by decide, by decide⟩)
    (fileNamed (ascii "sequels") (ascii "Alien.mkv") (ascii "video/x-matroska")) (by decide)
    (fileNamed (ascii "sequels") (ascii "Aliens.mkv") (ascii "video/x-matroska")) (by decide)
    ⟨ascii "s", by decide⟩ ⟨ascii ".srt", by decide⟩ ⟨ascii "s.srt", by decide, Or.inl (by decide)⟩
  exact absurd hapart (by decide)

end Eems

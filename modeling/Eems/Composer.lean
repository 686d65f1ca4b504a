/-
The object composer: one media item for each video of a directory, with the
subtitles and the artwork that belong to it.
-/
import Eems.StoreService
import Eems.Title
import Eems.Basic.Calendar
import Eems.Basic.Numbering

namespace Eems

open Numbering

def moviesFolderName : Bytes := ascii "Movies"
def upnpMovieClass : Bytes := ascii "object.item.videoItem.movie"

structure FileInfo where
  mimeType : Bytes
  path : Path
deriving DecidableEq, Repr

/-- `EXTENSIONS` -/
def extensions : List (Bytes × Bytes) :=
  [(ascii ".mkv", ascii "video/x-matroska"),
   (ascii ".mp4", ascii "video/mp4"),
   (ascii ".avi", ascii "video/x-msvideo"),
   (ascii ".mpg", ascii "video/mpeg"),
   (ascii ".jpg", ascii "image/jpeg"),
   (ascii ".srt", ascii "text/srt")]

def getMimeType (path : Path) : Option Bytes :=
  (extensions.find? fun entry => entry.1 = Path.extension path).map Prod.snd

def isVideoType (mimeType : Bytes) : Bool := (ascii "video/").isPrefixOf mimeType
def isImageType (mimeType : Bytes) : Bool := (ascii "image/").isPrefixOf mimeType
def isTextType (mimeType : Bytes) : Bool := (ascii "text/").isPrefixOf mimeType

/-- Whether `pattern` occurs in `text`. -/
def contains (text pattern : Bytes) : Bool := text.tails.any pattern.isPrefixOf

def classifyArtwork (name : Bytes) : Option ArtworkType :=
  if contains name (ascii "poster") then some .poster
  else if contains name (ascii "thumb") then some .thumbnail
  else none

/-- The sorter behind FlatBuffers' vectors of sorted tables: some sort by the
key field, stable or not. -/
class ArtworkSorter where
  sort : List Artwork → List Artwork
  perm : ∀ list, (sort list).Perm list
  sorted : ∀ list, (sort list).Pairwise fun left right =>
    left.type.underlying ≤ right.type.underlying

/-- A stable sorter. -/
@[reducible] def insertionSorter : ArtworkSorter where
  sort := List.insertionSort fun left right => left.type.underlying ≤ right.type.underlying
  perm := List.perm_insertionSort _
  sorted := List.pairwise_insertionSort fun left right : Artwork =>
    left.type.underlying ≤ right.type.underlying

/-- `put_sorted_vector`: no vector for an empty list. -/
def putSortedVector [ArtworkSorter] (source : List Artwork) : Option (List Artwork) :=
  if source.isEmpty then none else some (ArtworkSorter.sort source)

/-- The members of `movie_scanner`; `store_` is kept apart. -/
structure MovieScanner where
  moviesFolder : ObjectKey := ⟨-1⟩
  nextResourceId : Int := -1
  nextObjectId : Int := -1
deriving DecidableEq, Repr

namespace MovieScanner

def nextResourceKey (scanner : MovieScanner) : ResourceKey × MovieScanner :=
  (⟨scanner.nextResourceId⟩, { scanner with nextResourceId := scanner.nextResourceId + 1 })

def nextObjectKey (scanner : MovieScanner) : ObjectKey × MovieScanner :=
  (⟨scanner.nextObjectId⟩, { scanner with nextObjectId := scanner.nextObjectId + 1 })

end MovieScanner

/-- The `Resource` table of a file. -/
def resourceOf (info : FileInfo) : Resource :=
  ⟨some (putString info.path), some (putString info.mimeType)⟩

def MovieScanner.serializeResource (scanner : MovieScanner) (info : FileInfo) :
    (ResourceKey × Resource) × MovieScanner :=
  let (key, scanner) := scanner.nextResourceKey
  ((key, resourceOf info), scanner)

/-- `object_composer` but for the resources it collects. -/
structure ObjectComposer where
  folderName : Bytes
  subtitles : OrderedMap Bytes FileInfo
  artwork : OrderedMap Bytes FileInfo
  parentId : ObjectKey

/-- What composing changes: the scanner it takes ids from and the resources
collected so far. -/
structure Composition where
  context : MovieScanner
  resources : List (ResourceKey × Resource)
deriving DecidableEq, Repr

abbrev ComposeM := StateM Composition

namespace ComposeM

variable {A B : Type}

@[simp] theorem pure_apply (a : A) (composition : Composition) :
    (pure a : ComposeM A) composition = (a, composition) := rfl

@[simp] theorem bind_apply (program : ComposeM A) (rest : A → ComposeM B)
    (composition : Composition) :
    (program >>= rest) composition = rest (program composition).1 (program composition).2 := rfl

@[simp] theorem get_apply (composition : Composition) :
    (get : ComposeM Composition) composition = (composition, composition) := rfl

@[simp] theorem set_apply (next composition : Composition) :
    (set next : ComposeM PUnit) composition = (⟨⟩, next) := rfl

end ComposeM

def storeResource (info : FileInfo) : ComposeM LibraryKey := fun composition =>
  let (resource, context) := composition.context.serializeResource info
  (.resourceKey resource.1, ⟨context, composition.resources ++ [resource]⟩)

def createResourceRef (key : LibraryKey) (info : FileInfo) : ResourceRef :=
  ⟨key, putString (ascii "http-get:*:" ++ info.mimeType ++ ascii ":*")⟩

/-- `get_folder_artwork`: `poster.jpg`, else `folder.jpg`. -/
def getFolderArtwork (artwork : OrderedMap Bytes FileInfo) : Option FileInfo × ArtworkType :=
  match artwork.lookup (ascii "poster.jpg") with
  | some info => (some info, .poster)
  | none =>
      match artwork.lookup (ascii "folder.jpg") with
      | some info => (some info, .thumbnail)
      | none => (none, .thumbnail)

/-- The artwork loop from `lower_bound` on; the first name without the prefix
ends it. -/
def composeArtwork (resourcePrefix : Bytes) : List (Bytes × FileInfo) → ComposeM (List Artwork)
  | [] => pure []
  | (name, info) :: rest =>
      if !resourcePrefix.isPrefixOf name then pure []
      else match classifyArtwork (name.drop resourcePrefix.length) with
        | none => composeArtwork resourcePrefix rest
        | some artType => do
            let key ← storeResource info
            let more ← composeArtwork resourcePrefix rest
            pure (⟨key, artType⟩ :: more)

/-- The subtitle loop, left at the first name without the prefix as well. -/
def composeSubtitles (resourcePrefix : Bytes) :
    List (Bytes × FileInfo) → ComposeM (List ResourceRef)
  | [] => pure []
  | (name, info) :: rest =>
      if !resourcePrefix.isPrefixOf name then pure []
      else do
        let key ← storeResource info
        let more ← composeSubtitles resourcePrefix rest
        pure (createResourceRef key info :: more)

namespace ObjectComposer

variable (composer : ObjectComposer)

def resourcePrefix (name : Bytes) : Bytes :=
  if composer.folderName.isEmpty then Path.stem name else []

/-- The fallback to folder artwork when the item has none of its own. -/
def composeFolderArtwork (itemArtwork : List Artwork) : ComposeM (List Artwork) :=
  if itemArtwork.isEmpty then
    match getFolderArtwork composer.artwork with
    | (some info, artType) => do
        let key ← storeResource info
        pure [⟨key, artType⟩]
    | (none, _) => pure itemArtwork
  else pure itemArtwork

/-- `object_composer::operator()` -/
def compose [ArtworkSorter] (video : Bytes × FileInfo) : ComposeM MediaObject := do
  let (name, info) := video
  let mainKey ← storeResource info
  let resourcePrefix := composer.resourcePrefix name
  let ownArtwork ← composeArtwork resourcePrefix (composer.artwork.lowerBound resourcePrefix)
  let itemArtwork ← composer.composeFolderArtwork ownArtwork
  let subtitleRefs ←
    composeSubtitles resourcePrefix (composer.subtitles.lowerBound resourcePrefix)
  let (title, year) := normalizeTitle
    (if composer.folderName.isEmpty then resourcePrefix else composer.folderName)
  let composition ← get
  let (itemId, context) := composition.context.nextObjectKey
  set { composition with context }
  pure
    { id := itemId
      parentId := composer.parentId
      dcTitle := putString title
      upnpClass := putString upnpMovieClass
      artwork := putSortedVector itemArtwork
      dcDate := if year ≠ 0 then Calendar.daysFromCivil year 1 1 else 0
      data := .mediaItem ⟨some (createResourceRef mainKey info :: subtitleRefs)⟩ }

/-- Compose every video in the order of the map. -/
def composeAll [ArtworkSorter] : List (Bytes × FileInfo) → ComposeM (List MediaObject)
  | [] => pure []
  | video :: rest => do
      let item ← composer.compose video
      let items ← composeAll rest
      pure (item :: items)

/-- The artwork files the name prefix selects for a video, with their types. -/
def ownArtwork (name : Bytes) : List (FileInfo × ArtworkType) :=
  ((composer.artwork.lowerBound (composer.resourcePrefix name)).takeWhile fun entry =>
      (composer.resourcePrefix name).isPrefixOf entry.1).filterMap fun entry =>
    (classifyArtwork (entry.1.drop (composer.resourcePrefix name).length)).map fun artType =>
      (entry.2, artType)

/-- The artwork of a video: its own, else that of the folder. -/
def itemArtwork (name : Bytes) : List (FileInfo × ArtworkType) :=
  if (composer.ownArtwork name).isEmpty then
    match getFolderArtwork composer.artwork with
    | (some info, artType) => [(info, artType)]
    | (none, _) => []
  else composer.ownArtwork name

def itemSubtitles (name : Bytes) : List FileInfo :=
  ((composer.subtitles.lowerBound (composer.resourcePrefix name)).takeWhile fun entry =>
    (composer.resourcePrefix name).isPrefixOf entry.1).map Prod.snd

/-- The files stored for a video, in the order their ids are taken. -/
def itemFiles (video : Bytes × FileInfo) : List FileInfo :=
  video.2 :: ((composer.itemArtwork video.1).map Prod.fst ++ composer.itemSubtitles video.1)

def numberedArtwork (start : Int) (files : List (FileInfo × ArtworkType)) : List Artwork :=
  (numberFrom start files).map fun p => ⟨.resourceKey ⟨p.1⟩, p.2.2⟩

def numberedRefs (start : Int) (files : List FileInfo) : List ResourceRef :=
  (numberFrom start files).map fun p => createResourceRef (.resourceKey ⟨p.1⟩) p.2

/-- The resource records of files numbered from `start` on. -/
def numberedResources (start : Int) (files : List FileInfo) : List (ResourceKey × Resource) :=
  (numberFrom start files).map fun p => (⟨p.1⟩, resourceOf p.2)

/-- The item of a video that is given the object id `id` and whose files are
given the resource ids from `start` on. -/
def itemRecord [ArtworkSorter] (video : Bytes × FileInfo) (id start : Int) : MediaObject :=
  let titleAndYear := normalizeTitle
    (if composer.folderName.isEmpty then composer.resourcePrefix video.1
      else composer.folderName)
  let artworkFiles := composer.itemArtwork video.1
  { id := ⟨id⟩
    parentId := composer.parentId
    dcTitle := putString titleAndYear.1
    upnpClass := putString upnpMovieClass
    artwork := putSortedVector (numberedArtwork (start + 1) artworkFiles)
    dcDate :=
      if titleAndYear.2 ≠ 0 then Calendar.daysFromCivil titleAndYear.2 1 1 else 0
    data := .mediaItem ⟨some (createResourceRef (.resourceKey ⟨start⟩) video.2 ::
      numberedRefs (start + 1 + artworkFiles.length) (composer.itemSubtitles video.1))⟩ }

end ObjectComposer

/-- The composition after `files` more have been given resource ids. -/
def Composition.advance (composition : Composition) (files : List FileInfo) : Composition :=
  ⟨{ composition.context with
      nextResourceId := composition.context.nextResourceId + files.length },
    composition.resources ++
      ObjectComposer.numberedResources composition.context.nextResourceId files⟩

@[simp] theorem Composition.advance_nil (composition : Composition) :
    composition.advance [] = composition := by
  simp [Composition.advance, ObjectComposer.numberedResources]

theorem Composition.advance_append (composition : Composition) (first second : List FileInfo) :
    composition.advance (first ++ second) = (composition.advance first).advance second := by
  simp [Composition.advance, ObjectComposer.numberedResources, numberFrom_append, add_assoc]

@[simp] theorem Composition.nextResourceId_advance (composition : Composition)
    (files : List FileInfo) : (composition.advance files).context.nextResourceId =
      composition.context.nextResourceId + files.length := rfl

@[simp] theorem Composition.nextObjectId_advance (composition : Composition)
    (files : List FileInfo) : (composition.advance files).context.nextObjectId =
      composition.context.nextObjectId := rfl

theorem storeResource_eq (info : FileInfo) (composition : Composition) :
    storeResource info composition =
      (.resourceKey ⟨composition.context.nextResourceId⟩, composition.advance [info]) := rfl

theorem composeArtwork_eq (resourcePrefix : Bytes) (list : List (Bytes × FileInfo))
    (composition : Composition) :
    composeArtwork resourcePrefix list composition =
      let files := (list.takeWhile fun entry => resourcePrefix.isPrefixOf entry.1).filterMap
        fun entry => (classifyArtwork (entry.1.drop resourcePrefix.length)).map fun artType =>
          (entry.2, artType)
      (ObjectComposer.numberedArtwork composition.context.nextResourceId files,
        composition.advance (files.map Prod.fst)) := by
  induction list generalizing composition with
  | nil => simp [composeArtwork, ObjectComposer.numberedArtwork]
  | cons head rest ih =>
      obtain ⟨name, info⟩ := head
      by_cases hprefix : resourcePrefix.isPrefixOf name
      · cases hclass : classifyArtwork (name.drop resourcePrefix.length) with
        | none => simp [composeArtwork, hprefix, hclass, ih]
        | some artType =>
            simp only [composeArtwork, hprefix, hclass, Bool.not_true, Bool.false_eq_true,
              ↓reduceIte, ComposeM.bind_apply, ComposeM.pure_apply, storeResource_eq, ih,
              List.takeWhile_cons, List.filterMap_cons, Option.map_some, List.map_cons]
            refine Prod.ext rfl ?_
            rw [← Composition.advance_append]
            rfl
      · simp [composeArtwork, hprefix, ObjectComposer.numberedArtwork]

theorem composeSubtitles_eq (resourcePrefix : Bytes) (list : List (Bytes × FileInfo))
    (composition : Composition) :
    composeSubtitles resourcePrefix list composition =
      let files := (list.takeWhile fun entry => resourcePrefix.isPrefixOf entry.1).map Prod.snd
      (ObjectComposer.numberedRefs composition.context.nextResourceId files,
        composition.advance files) := by
  induction list generalizing composition with
  | nil => simp [composeSubtitles, ObjectComposer.numberedRefs]
  | cons head rest ih =>
      obtain ⟨name, info⟩ := head
      by_cases hprefix : resourcePrefix.isPrefixOf name
      · simp only [composeSubtitles, hprefix, Bool.not_true, Bool.false_eq_true, ↓reduceIte,
          ComposeM.bind_apply, ComposeM.pure_apply, storeResource_eq, ih, List.takeWhile_cons,
          List.map_cons]
        refine Prod.ext rfl ?_
        rw [← Composition.advance_append]
        rfl
      · simp [composeSubtitles, hprefix, ObjectComposer.numberedRefs]

namespace ObjectComposer

variable (composer : ObjectComposer)

theorem composeFolderArtwork_eq (name : Bytes) (start : Int) (composition : Composition)
    (hstart : (composer.ownArtwork name).isEmpty →
      composition.context.nextResourceId = start) :
    composer.composeFolderArtwork (numberedArtwork start (composer.ownArtwork name))
        composition =
      (numberedArtwork start (composer.itemArtwork name),
        composition.advance (if (composer.ownArtwork name).isEmpty then
          (composer.itemArtwork name).map Prod.fst else [])) := by
  cases hown : composer.ownArtwork name with
  | nil =>
      have hid := hstart (by simp [hown])
      rcases hfolder : getFolderArtwork composer.artwork with ⟨found, artType⟩
      cases found <;>
        simp [composeFolderArtwork, itemArtwork, hown, hfolder, numberedArtwork, numberFrom,
          storeResource_eq, hid]
  | cons first rest =>
      simp [composeFolderArtwork, itemArtwork, hown, numberedArtwork, numberFrom]

/-- Composing an item takes one object id and one resource id for each of its
files, and collects the records of the files. -/
theorem compose_eq [ArtworkSorter] (video : Bytes × FileInfo) (composition : Composition) :
    composer.compose video composition =
      let next := composition.advance (composer.itemFiles video)
      (composer.itemRecord video composition.context.nextObjectId
          composition.context.nextResourceId,
        { next with context := { next.context with
          nextObjectId := composition.context.nextObjectId + 1 } }) := by
  obtain ⟨name, info⟩ := video
  have hown : composeArtwork (composer.resourcePrefix name)
      (composer.artwork.lowerBound (composer.resourcePrefix name))
      (composition.advance [info]) =
      (numberedArtwork (composition.context.nextResourceId + 1) (composer.ownArtwork name),
        (composition.advance [info]).advance ((composer.ownArtwork name).map Prod.fst)) :=
    composeArtwork_eq _ _ _
  have hfiles : composer.itemFiles (name, info) = [info] ++
      (composer.ownArtwork name).map Prod.fst ++
      (if (composer.ownArtwork name).isEmpty then (composer.itemArtwork name).map Prod.fst
        else []) ++ composer.itemSubtitles name := by
    cases h : composer.ownArtwork name <;> simp [itemFiles, itemArtwork, h]
  have hlength : (composer.itemArtwork name).length =
      (composer.ownArtwork name).length +
        (if (composer.ownArtwork name).isEmpty then (composer.itemArtwork name).map Prod.fst
          else []).length := by
    cases h : composer.ownArtwork name <;> simp [itemArtwork, h]
  simp only [compose, ComposeM.bind_apply, storeResource_eq, hown]
  rw [composeFolderArtwork_eq composer name _ _ (by simp +contextual)]
  simp only [composeSubtitles_eq, ← Composition.advance_append]
  apply Prod.ext
  · simp only [itemRecord, ComposeM.pure_apply, ComposeM.get_apply, ComposeM.set_apply,
      MovieScanner.nextObjectKey, Composition.nextResourceId_advance,
      Composition.nextObjectId_advance, List.length_append, List.length_singleton, hlength,
      List.length_map, itemSubtitles]
    push_cast
    ring_nf
  · simp only [ComposeM.pure_apply, ComposeM.get_apply, ComposeM.set_apply,
      MovieScanner.nextObjectKey, hfiles, itemSubtitles]
    rfl

/-- The items of videos composed one after another: each takes the next object
id, and its resource ids follow those of the videos before it. -/
def itemRecords [ArtworkSorter] : List (Bytes × FileInfo) → Int → Int → List MediaObject
  | [], _, _ => []
  | video :: rest, id, start =>
      composer.itemRecord video id start ::
        itemRecords rest (id + 1) (start + (composer.itemFiles video).length)

theorem composeAll_eq [ArtworkSorter] (videos : List (Bytes × FileInfo))
    (composition : Composition) :
    composer.composeAll videos composition =
      let next := composition.advance (videos.flatMap composer.itemFiles)
      (composer.itemRecords videos composition.context.nextObjectId
          composition.context.nextResourceId,
        { next with context := { next.context with
          nextObjectId := composition.context.nextObjectId + videos.length } }) := by
  induction videos generalizing composition with
  | nil => simp [composeAll, itemRecords]
  | cons video rest ih =>
      simp only [composeAll, ComposeM.bind_apply, ComposeM.pure_apply, compose_eq, ih, itemRecords,
        List.flatMap_cons, Composition.advance_append]
      refine Prod.ext rfl ?_
      simp [Composition.advance, add_assoc, add_comm (1 : Int)]

end ObjectComposer

end Eems

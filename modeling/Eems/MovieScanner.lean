/-
The movie scanner: a walk over a directory tree that files every video under
the `Movies` container or under a collection made for its directory.
-/
import Eems.Directory

namespace Eems

open Hoare

/-- The store, one scanner instance, and the directories whose scan has been
logged. -/
structure World where
  store : StoreService
  scanner : MovieScanner
  scanned : List Path

abbrev ScanM := EStateM Failure World

def inStore {A : Type} (program : StoreM A) : ScanM A :=
  zoom World.store (fun store world => { world with store }) program

/-- A step of the scanner's own members. -/
def inScanner {A : Type} (step : MovieScanner → A × MovieScanner) : ScanM A := fun world =>
  .ok (step world.scanner).1 { world with scanner := (step world.scanner).2 }

structure MoviesLibraryConfig where
  useFolderNames : Bool := true
  useCollections : Bool := true
deriving DecidableEq, Repr

/-- `ranges::find_if` over a view, by title; reading an entry may throw. -/
def findTitled (view : ListResultView) (title : Bytes) :
    List LibraryKey → Except Failure (Option MediaObject)
  | [] => .ok none
  | key :: rest => do
      let item ← view.read key
      if asStringView item.dcTitle = title then .ok (some item)
      else findTitled view title rest

def moviesFolderObject (newKey rootKey : ObjectKey) : MediaObject where
  id := newKey
  parentId := rootKey
  dcTitle := putString moviesFolderName
  upnpClass := putString upnpContainerClass
  artwork := none
  dcDate := 0
  data := .mediaContainer ⟨none⟩

/-- `return movies_folder_ = key` -/
def cacheMoviesFolder (key : ObjectKey) : ScanM ObjectKey :=
  inScanner fun scanner => (key, { scanner with moviesFolder := key })

/-- Store the `Movies` container under the root. -/
def createMoviesFolder : ScanM ObjectKey := do
  let newKey ← inScanner MovieScanner.nextObjectKey
  inStore (putItems ⟨0⟩ [moviesFolderObject newKey ⟨0⟩] [])
  cacheMoviesFolder newKey

def getMoviesFolderId : ScanM ObjectKey := do
  let world ← get
  if world.scanner.moviesFolder.id > 0 then pure world.scanner.moviesFolder
  else
    let view ← fromExcept (StoreService.list world.store.db ⟨0⟩)
    match ← fromExcept (findTitled view moviesFolderName view.objects) with
    | some item => cacheMoviesFolder item.id
    | none => createMoviesFolder

/-- The container of a collection and the resource of its artwork. -/
def collectionMeta (name : Bytes) (artwork : Option ResourceKey × ArtworkType)
    (id parent : ObjectKey) : ContainerMeta where
  id := id
  parentId := parent
  dcTitle := name
  upnpClass := upnpContainerClass
  artwork :=
    match artwork.1 with
    | some key => [(.resourceKey key, artwork.2)]
    | none => []

def createContainer (name : Bytes) (artwork : Option FileInfo × ArtworkType)
    (parent : ObjectKey) : ScanM ObjectKey := do
  let id ← inScanner MovieScanner.nextObjectKey
  match artwork with
  | (some info, artType) =>
      let resource ← inScanner fun scanner => scanner.serializeResource info
      let containerMeta := collectionMeta name (some resource.1, artType) id parent
      inStore (putItems parent [serializeContainer [] containerMeta] [resource])
  | (none, artType) =>
      let containerMeta := collectionMeta name (none, artType) id parent
      inStore (putItems parent [serializeContainer [] containerMeta] [])
  pure id

/-- `add_collection` -/
def addCollection (content : DirectoryContent) : Bool :=
  let moviesCount := content.videos.entries.length
  if moviesCount = 1 then false
  else if moviesCount > 1 then true
  else (getFolderArtwork content.artwork).1.isSome && !content.directories.isEmpty

/-- The collection part of `scan_directory`: the composer's parent and the
subdirectories with theirs. -/
def assignParents (path : Path) (config : MoviesLibraryConfig) (content : DirectoryContent)
    (parent : ObjectKey) : ScanM (ObjectKey × List (Path × ObjectKey)) := do
  let artwork := getFolderArtwork content.artwork
  if config.useCollections && addCollection content then
    let collectionKey ← createContainer (Path.stem path) artwork parent
    let incoming := if artwork.1.isSome then collectionKey else parent
    pure (collectionKey, content.directories.map fun directory => (directory, incoming))
  else pure (parent, content.directories.map fun directory => (directory, parent))

/-- Compose the videos; ids are taken from the scanner. -/
def composeVideos [ArtworkSorter] (composer : ObjectComposer)
    (videos : List (Bytes × FileInfo)) :
    ScanM (List MediaObject × List (ResourceKey × Resource)) :=
  inScanner fun scanner =>
    let (items, composition) := composer.composeAll videos ⟨scanner, []⟩
    ((items, composition.resources), composition.context)

def composerOf (path : Path) (config : MoviesLibraryConfig) (content : DirectoryContent)
    (parent : ObjectKey) : ObjectComposer where
  folderName :=
    if config.useFolderNames && content.videos.entries.length = 1 then Path.stem path else []
  subtitles := content.subtitles
  artwork := content.artwork
  parentId := parent

/-- `directory_iterator` throws where the directory cannot be read. -/
def readDirectory (fs : FileSystem) (path : Path) : Except Failure DirectoryContent :=
  match fs.entries path with
  | none => .error (.filesystemError path)
  | some entries => .ok (readContent path entries)

/-- The videos of a directory, stored under the composer's parent. -/
def storeVideos [ArtworkSorter] (composer : ObjectComposer)
    (videos : List (Bytes × FileInfo)) : ScanM PUnit :=
  if videos.length > 0 then do
    let (items, resources) ← composeVideos composer videos
    inStore (putItems composer.parentId items resources)
  else pure ⟨⟩

def scanDirectory [ArtworkSorter] (fs : FileSystem) (path : Path)
    (config : MoviesLibraryConfig) (parent : ObjectKey) :
    ScanM (List (Path × ObjectKey)) := do
  modify fun world => { world with scanned := world.scanned ++ [path] }
  let content ← fromExcept (readDirectory fs path)
  let (composerParent, directories) ← assignParents path config content parent
  storeVideos (composerOf path config content composerParent) content.videos.entries
  pure directories

/-- The loop of `scan_all`.  The head of the list is the back of the vector;
the first argument bounds the turns. -/
def scanLoop [ArtworkSorter] (fs : FileSystem) (originalConfig : MoviesLibraryConfig) :
    Nat → MoviesLibraryConfig → List (Path × ObjectKey) → ScanM PUnit
  | _, _, [] => pure ⟨⟩
  | 0, _, _ :: _ => throw .interrupted
  | turns + 1, config, (path, parent) :: directories => do
      let newDirectories ← scanDirectory fs path config parent
      scanLoop fs originalConfig turns
        { config with useCollections := originalConfig.useCollections }
        (newDirectories.reverse ++ directories)

/-- Take the ids up where the store's records end. -/
def seedIds : ScanM PUnit :=
  modify fun world => { world with scanner := { world.scanner with
    nextResourceId := getNextId .resourceKey world.store.db
    nextObjectId := getNextId .objectKey world.store.db } }

def scanAll [ArtworkSorter] (fs : FileSystem) (turns : Nat) (root : Path)
    (originalConfig : MoviesLibraryConfig) : ScanM PUnit := do
  seedIds
  let moviesFolder ← getMoviesFolderId
  scanLoop fs originalConfig turns { originalConfig with useCollections := false }
    [(root, moviesFolder)]

/-- Two films and a poster, and a folder with a third film and its subtitles. -/
def filmFiles : FileSystem :=
  .ofTable
    [(ascii "films",
        [⟨ascii "Alien.1979.mkv", .regular⟩, ⟨ascii "Brazil.avi", .regular⟩,
          ⟨ascii "poster.jpg", .regular⟩, ⟨ascii "more", .directory⟩]),
      (ascii "films/more",
        [⟨ascii "Cube.mp4", .regular⟩, ⟨ascii "Cube.srt", .regular⟩])]
    (by decide) (by decide) (by decide)

end Eems

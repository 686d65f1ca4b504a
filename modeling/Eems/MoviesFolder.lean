/-
Where a scan starts: the `Movies` container, which the scanner remembers, finds
below the root, or files there.  What a scanner remembers is listed while its
own writes succeed.
-/
import Eems.ScanPlacement

namespace Eems

open Hoare Journal

/-- Where a scan into `db` starts from: the `Movies` container is found below
the root, or filed there first. -/
inductive OriginOf (db : Db) : Origin → Prop
  | found {root : MediaObject} {key : ObjectKey} (stored : objectAt db rootKey = some root)
      (listed : root.children = [.objectKey key]) :
      OriginOf db ⟨db, getNextId .objectKey db, getNextId .resourceKey db, key⟩
  | created {root : MediaObject} (stored : objectAt db rootKey = some root)
      (empty : root.children = []) :
      OriginOf db ⟨db.write (putBatch ⟨0⟩ [moviesFolderObject ⟨getNextId .objectKey db⟩ ⟨0⟩] []
          [] (containerMetaOf root)),
        getNextId .objectKey db + 1, getNextId .resourceKey db, ⟨getNextId .objectKey db⟩⟩

theorem OriginOf.unique {db : Db} {left right : Origin} (hleft : OriginOf db left)
    (hright : OriginOf db right) : left = right := by
  cases hleft with
  | found stored listed =>
      cases hright with
      | found stored' listed' =>
          obtain rfl := Option.some.inj (stored.symm.trans stored')
          rw [listed] at listed'
          simpa using listed'
      | created stored' empty =>
          obtain rfl := Option.some.inj (stored.symm.trans stored')
          simp [listed] at empty
  | created stored empty =>
      cases hright with
      | found stored' listed =>
          obtain rfl := Option.some.inj (stored.symm.trans stored')
          simp [listed] at empty
      | created stored' empty' =>
          obtain rfl := Option.some.inj (stored.symm.trans stored')
          rfl

/-- The cached key of the `Movies` container, once set, is listed below the root. -/
def MoviesKnown (db : Db) (scanner : MovieScanner) : Prop :=
  scanner.moviesFolder.id ≤ 0 ∨ ∃ root, objectAt db rootKey = some root ∧
    .objectKey scanner.moviesFolder ∈ root.children

section Start

variable [ArtworkSorter] {site : Site} {files : FileInfo → Prop} {base : Db} {world : World}

variable (site) in
/-- A found or filed `Movies` container makes the origin of the scan. -/
theorem Scanning.origin (origin : Origin) {next : World}
    (hnext : Scanning files base next) (houtcomes : AllApplied next.store.outcomes)
    (hdb : next.store.db = origin.db)
    (hobject : next.scanner.nextObjectId = origin.objectId)
    (hresource : next.scanner.nextResourceId = origin.resourceId)
    (hcached : next.scanner.moviesFolder = origin.moviesFolder)
    (hlisted : ∃ root, objectAt origin.db rootKey = some root ∧
      root.children = [.objectKey origin.moviesFolder]) :
    origin.Valid files ∧ Progress site origin files base [] next := by
  have hvalid : origin.Valid files := by
    refine ⟨hdb ▸ hnext.library, ?_, hlisted⟩
    rw [← hdb, ← hobject, ← hresource]
    exact hnext.below
  obtain ⟨movies, hmovies, hcontainer, -⟩ := hvalid.movies
  refine ⟨hvalid, hnext, houtcomes, by simpa using hobject, by simpa using hresource, hcached,
    .nil, ?_⟩
  rw [hdb]
  exact .nil hvalid.movies_below hmovies hcontainer

variable (site) in
theorem createMoviesFolder_origin (h : Scanning files base world)
    (houtcomes : AllApplied world.store.outcomes)
    (hobject : world.scanner.nextObjectId = getNextId .objectKey world.store.db)
    (hresource : world.scanner.nextResourceId = getNextId .resourceKey world.store.db)
    {root : MediaObject} (hroot : objectAt world.store.db rootKey = some root)
    (hcontainer : root.IsContainer) (hempty : root.children = []) :
    ∃ origin next, OriginOf world.store.db origin ∧
      createMoviesFolder world = .ok origin.moviesFolder next ∧
      origin.Valid files ∧ Progress site origin files base [] next ∧
      next.scanned = world.scanned := by
  have hdecode : deserializeContainer world.store.db (.objectKey ⟨0⟩) =
      .ok ([], containerMetaOf root) := deserializeContainer_eq_ok_iff.mpr
    ⟨root, objectAt_eq_some_iff.mp hroot, hcontainer, hempty, rfl⟩
  have hput := putItems_of_allApplied [moviesFolderObject ⟨world.scanner.nextObjectId⟩ ⟨0⟩] []
    hdecode (by simp [moviesFolderObject]) houtcomes
  have hscanning := createMoviesFolder_scanning world ⟨h, fun other hother => by
    obtain rfl := Option.some.inj (hroot.symm.trans hother)
    exact hempty⟩
  have hfiled := (moviesFolder_freshBatch files h.below h.objectId_nonneg).filed
    (objectAt_eq_some_iff.mp hroot) [] (containerMetaOf root)
  rw [createMoviesFolder_apply, hobject] at hscanning
  rw [createMoviesFolder_apply, hobject]
  rw [hobject] at hput hfiled
  simp only [inStore, zoom, bind_apply, World.draw, hput, cacheMoviesFolder, inScanner,
    hobject] at hscanning ⊢
  refine ⟨_, _, .created hroot hempty, rfl, ?_⟩
  have hstart := Scanning.origin site ⟨_, _, _, _⟩ hscanning.1 houtcomes.tail rfl
    rfl (by simpa using hresource) rfl
    ⟨_, objectAt_eq_some_iff.mpr hfiled.container, by simp [moviesFolderObject]⟩
  exact ⟨hstart.1, hstart.2, rfl⟩

variable (site) in
/-- Whether it is cached, found or filed, `Movies` is the container the origin
names. -/
theorem getMoviesFolderId_origin (h : Scanning files base world)
    (houtcomes : AllApplied world.store.outcomes)
    (hobject : world.scanner.nextObjectId = getNextId .objectKey world.store.db)
    (hresource : world.scanner.nextResourceId = getNextId .resourceKey world.store.db)
    (hknown : MoviesKnown world.store.db world.scanner) :
    ∃ origin next, OriginOf world.store.db origin ∧
      getMoviesFolderId world = .ok origin.moviesFolder next ∧
      origin.Valid files ∧ Progress site origin files base [] next ∧
      next.scanned = world.scanned := by
  obtain ⟨node, hnode, hchildren⟩ := h.library.tree.root_stored
  obtain ⟨root, hroot, rfl⟩ := Option.map_eq_some_iff.mp hnode
  have hcontainer := isContainer_of_nodeOf hchildren
  simp only [getMoviesFolderId, bind_apply, get_apply]
  by_cases hcached : world.scanner.moviesFolder.id > 0
  · obtain ⟨other, hother, hmem⟩ := hknown.resolve_left (by omega)
    obtain rfl := Option.some.inj (hroot.symm.trans hother)
    have hlisted : root.children = [.objectKey world.scanner.moviesFolder] := by
      rcases h.library.root_children root hroot with hnil | ⟨key, movies, hkey, -⟩
      · simp [hnil] at hmem
      · rw [hkey] at hmem ⊢
        rw [List.mem_singleton.mp hmem]
    have hstart := Scanning.origin site ⟨_, _, _, _⟩ h houtcomes rfl hobject
      hresource rfl ⟨root, hroot, hlisted⟩
    rw [if_pos hcached]
    exact ⟨_, world, .found hroot hlisted, rfl, hstart.1, hstart.2, rfl⟩
  · rw [if_neg hcached, list_eq_ok_iff.mpr ⟨root, hroot, hcontainer, rfl⟩]
    simp only [bind_apply, fromExcept_ok_apply]
    rcases h.library.root_children root hroot with
      hnil | ⟨key, movies, hkey, hmovies, -, htitle⟩
    · rw [hnil]
      exact createMoviesFolder_origin site h houtcomes hobject hresource hroot hcontainer hnil
    · have hid := h.library.object_key key movies (objectAt_eq_some_iff.mp hmovies)
      have hfind : findTitled ⟨world.store.db, root.children⟩ moviesFolderName root.children =
          .ok (some movies) := by
        have hread : ListResultView.read ⟨world.store.db, root.children⟩ key =
            .ok movies := read_eq_ok_iff.mpr hmovies
        rw [hkey] at hread ⊢
        simp [findTitled, bind, Except.bind, hread, htitle]
      rw [hfind]
      have hlisted : root.children = [.objectKey movies.id] := by rw [hkey, hid]
      have hcongr : Scanning files base
          { world with scanner := { world.scanner with moviesFolder := movies.id } } :=
        h.congr rfl rfl le_rfl le_rfl
      have hstart := Scanning.origin site ⟨_, _, _, _⟩ hcongr houtcomes rfl
        hobject hresource rfl ⟨root, hroot, hlisted⟩
      exact ⟨_, _, .found hroot hlisted, rfl, hstart.1, hstart.2, rfl⟩

end Start

section Remembered

/-- A container that is stored lists the key. -/
def Lists (db : Db) (container child : LibraryKey) : Prop :=
  ∃ object, objectAt db container = some object ∧ child ∈ object.children

/-- Nothing that is listed is taken out of the listing again. -/
theorem FreshWrite.lists {db : Db} {batch : Batch} (h : FreshWrite db batch)
    {container child : LibraryKey} (hlists : Lists db container child) :
    Lists (db.write batch) container child := by
  obtain ⟨parent, hput⟩ := h
  obtain ⟨object, hobject, hmem⟩ := hlists
  rw [objectAt_eq_some_iff] at hobject
  by_cases hparent : container = .objectKey parent
  · subst hparent
    obtain ⟨old, extended, hold, hextended, hbegun⟩ := hput.parent_extended
    obtain rfl : object = old := by simpa using hobject.symm.trans hold
    exact ⟨extended,
      objectAt_eq_some_iff.mpr (OrderedMap.lookup_write_of_mem db hput.keys_nodup hextended),
      hbegun.subset hmem⟩
  · exact ⟨object, objectAt_eq_some_iff.mpr (hput.others_kept container _ hparent hobject), hmem⟩

variable {files : FileInfo → Prop} {base : Db}

/-- What was listed when the journal was shorter is listed now. -/
theorem Recorded.lists {store : StoreService} (h : Recorded files base store)
    {journal : List Batch} (hbegun : journal <+: store.journal) {container child : LibraryKey}
    (hlists : Lists (replay OrderedMap.write base journal) container child) :
    Lists store.db container child := by
  obtain ⟨rest, hrest⟩ := hbegun
  have hfitting := h.fitting
  rw [h.replayed]
  rw [← hrest] at hfitting ⊢
  exact hfitting.preserved (fun _ _ hfresh => hfresh.lists) hlists

variable [ArtworkSorter] {fs : FileSystem} (hfiles : ∀ info, fs.HasFile info → files info)

include hfiles in
/-- The loop files below other containers, and leaves the key as it is. -/
theorem scanLoop_moviesKnown {mid next : World} (hmid : Scanning files base mid)
    (hlists : Lists mid.store.db rootKey (.objectKey mid.scanner.moviesFolder))
    (originalConfig : MoviesLibraryConfig) (turns : Nat) (config : MoviesLibraryConfig)
    {directories : List (Path × ObjectKey)}
    (hdirectories : ∀ directory ∈ directories, directory.2 ≠ ⟨0⟩)
    (hnext : finalState (scanLoop fs originalConfig turns config directories mid) = next) :
    MoviesKnown next.store.db next.scanner := by
  have hscanning : Scanning files base next := by
    rw [← hnext]
    exact Keeps.finalState (scanLoop_scanning hfiles originalConfig turns config hdirectories)
      hmid
  have hrecalled : Recalled (fun journal key => mid.store.journal <+: journal ∧
      key = mid.scanner.moviesFolder) next := by
    rw [← hnext]
    apply Keeps.finalState (scanLoop_recalled ?_ originalConfig turns config directories)
    · exact ⟨List.prefix_rfl, rfl⟩
    · exact fun journal batch key h => ⟨h.1.trans (List.prefix_append _ _), h.2⟩
  obtain ⟨hbegun, hkey⟩ := hrecalled
  rw [hmid.replayed] at hlists
  rw [MoviesKnown, hkey]
  exact Or.inr (hscanning.lists hbegun hlists)

include hfiles in
/-- A call whose writes succeed leaves a key that is listed, whether it had one
to begin with or not. -/
theorem scanAll_moviesKnown {world after : World} (hrecorded : Recorded files base world.store)
    (hrange : InRange world.store.db) (houtcomes : AllApplied world.store.outcomes)
    (hknown : MoviesKnown world.store.db world.scanner) (turns : Nat) (root : Path)
    (config : MoviesLibraryConfig)
    (hafter : finalState (scanAll fs turns root config world) = after) :
    MoviesKnown after.store.db after.scanner := by
  have hseeded := seedIds_scanning (fun _ _ => True) world ⟨hrecorded, hrange⟩
  obtain ⟨origin, mid, -, hfolder, hvalid, hmid, -⟩ :=
    getMoviesFolderId_origin ⟨fs, root, config⟩ hseeded houtcomes rfl rfl hknown
  have hnotRoot := getMoviesFolderId_scanning _ hseeded
  rw [hfolder] at hnotRoot
  obtain ⟨object, hobject, hchildren⟩ := hvalid.listed
  have hroot : mid.store.db.lookup rootKey = origin.db.lookup rootKey := by
    apply hmid.represents.frame
    · simpa [rootKey] using hnotRoot.2.symm
    · exact List.not_mem_nil
  have hlists : Lists mid.store.db rootKey (.objectKey mid.scanner.moviesFolder) := by
    rw [hmid.cached]
    exact ⟨object, by rw [objectAt, hroot]; exact hobject, by simp [hchildren]⟩
  have hloop : scanAll fs turns root config world = scanLoop fs config turns
      { config with useCollections := false } [(root, origin.moviesFolder)] mid := by
    rw [scanAll, bind_apply]
    simp only [seedIds, modify_apply, bind_apply, hfolder]
  rw [hloop] at hafter
  exact scanLoop_moviesKnown hfiles hmid.scanning hlists config turns _
    (by simpa using hnotRoot.2) hafter

end Remembered

/-- What a scanner remembers is listed below the root in every reachable state,
if the writes of its own calls succeed; those of other scanners may not. -/
theorem Reachable.moviesKnown [ArtworkSorter] {calls : List ScanCall} {system : System}
    (h : Reachable calls system) {scanner : Nat}
    (happlied : ∀ call ∈ calls, call.scanner = scanner → AllApplied call.outcomes) :
    MoviesKnown system.db (system.scanners scanner) := by
  induction h with
  | opened completed =>
      have hnew : ({} : MovieScanner).moviesFolder.id ≤ 0 := by decide
      exact Or.inl hnew
  | @scan calls system before call fits ih =>
      have hknown := ih fun other hother => happlied other (List.mem_append_left _ hother)
      by_cases hscanner : call.scanner = scanner
      · subst hscanner
        obtain ⟨hrecorded, hrange⟩ := before.recorded call.outcomes
        have hcall : Recorded (fun info => HeldByCalls calls info ∨ call.fs.HasFile info) newDb
            (system.world call).store :=
          ⟨hrecorded.library.mono fun _ => Or.inl, hrecorded.replayed, hrecorded.fitting⟩
        simp only [System.scan, Function.update_self]
        exact scanAll_moviesKnown (fun _ => Or.inr) hcall hrange (happlied call (by simp) rfl)
          hknown call.turns call.root call.config rfl
      · simp only [System.scan, Function.update_of_ne (Ne.symm hscanner)]
        refine hknown.imp id fun hlists => ?_
        obtain ⟨hafter, -⟩ := (before.scan call fits).recorded []
        have hbegun : system.journal <+: (system.after call).store.journal :=
          Keeps.finalState scanAll_recalled (List.prefix_rfl : system.journal <+: system.journal)
        apply hafter.lists hbegun
        rw [← (before.recorded []).1.replayed]
        exact hlists

end Eems

/-
A scan whose writes all succeed files exactly what the recursion over the tree
says, one directory at a time.
-/
import Eems.Placement
import Eems.LibraryLog
import Eems.ScanRuns

namespace Eems

open Hoare Numbering Library

namespace ObjectComposer

variable {composer : ObjectComposer}

/-- The items of a directory, each with the numbers its place gives it. -/
theorem itemRecords_eq_map [ArtworkSorter] {videos : List (Bytes × FileInfo)}
    (hnodup : videos.Nodup) (id start : Int) :
    composer.itemRecords videos id start = videos.map fun video =>
      composer.itemRecord video (number id videos video)
        (blockStart (fun video => (composer.itemFiles video).length) start videos video) := by
  induction videos generalizing id start with
  | nil => rfl
  | cons video rest ih =>
      obtain ⟨hnotMem, hrest⟩ := List.nodup_cons.mp hnodup
      rw [itemRecords, ih hrest, List.map_cons, blockStart_cons_self]
      rw [number_cons_self]
      congr 1
      apply List.map_congr_left
      intro other hother
      have hne : video ≠ other := fun h => hnotMem (h ▸ hother)
      rw [blockStart_cons_of_ne hne, number_cons_of_ne hne]

end ObjectComposer

namespace Site

variable (site : Site)

/-- What a scan of the site files. -/
def plan [ArtworkSorter] : Plan Placed where
  parent
    | .collection dir => site.incoming dir
    | .video dir _ => site.own dir
  files
    | .collection dir => (site.folderArtwork dir).1.toList
    | .video dir file => (site.composer dir ⟨0⟩).itemFiles file
  record
    | .collection dir, id, start, parentId =>
        collectionObject (Path.stem (site.path dir)) (site.folderArtwork dir) id start parentId
    | .video dir file, id, start, parentId =>
        (site.composer dir parentId).itemRecord file id start
  record_id a id start parentId := by cases a <;> rfl
  record_parentId a id start parentId := by cases a <;> rfl
  record_children a id start parentId := by cases a <;> rfl

end Site

/-- A new library whose only container below the root is `Movies`. -/
structure Origin.Valid (files : FileInfo → Prop) (origin : Origin) : Prop where
  library : Library files origin.db
  below : IdsBelow origin.db origin.objectId origin.resourceId
  listed : ∃ root, objectAt origin.db rootKey = some root ∧
    root.children = [.objectKey origin.moviesFolder]

namespace Origin.Valid

variable {files : FileInfo → Prop} {origin : Origin}

theorem movies (h : origin.Valid files) :
    ∃ movies, objectAt origin.db (.objectKey origin.moviesFolder) = some movies ∧
      movies.IsContainer ∧ asStringView movies.dcTitle = moviesFolderName := by
  obtain ⟨root, hroot, hchildren⟩ := h.listed
  rcases h.library.root_children root hroot with
    hnil | ⟨key, movies, hkey, hmovies, hcontainer, htitle⟩
  · simp [hchildren] at hnil
  · obtain rfl : LibraryKey.objectKey origin.moviesFolder = key := by
      simpa [hchildren] using hkey
    exact ⟨movies, hmovies, hcontainer, htitle⟩

theorem movies_below (h : origin.Valid files) : origin.moviesFolder.id < origin.objectId := by
  obtain ⟨movies, hmovies, -⟩ := h.movies
  exact h.below.1 _ _ (objectAt_eq_some_iff.mp hmovies)

theorem objectId_pos (h : origin.Valid files) : 0 < origin.objectId := by
  obtain ⟨root, hroot, -⟩ := h.listed
  exact h.below.1 ⟨0⟩ _ (objectAt_eq_some_iff.mp hroot)

theorem movies_ne_root (h : origin.Valid files) : origin.moviesFolder ≠ ⟨0⟩ := by
  intro hzero
  obtain ⟨root, hroot, hchildren⟩ := h.listed
  have hunlisted := h.library.tree.root_unlisted (listing_eq_some hroot)
  rw [childList_nodeOf, hchildren, hzero] at hunlisted
  exact hunlisted (List.mem_singleton_self _)

end Origin.Valid

section Progress

variable [ArtworkSorter] {site : Site} {origin : Origin} {files : FileInfo → Prop} {base : Db}
  {log : List Placed} {world : World}

/-- The state of a scan that has filed `log` so far. -/
structure Progress (site : Site) (origin : Origin) (files : FileInfo → Prop) (base : Db)
    (log : List Placed) (world : World) : Prop where
  scanning : Scanning files base world
  outcomes : AllApplied world.store.outcomes
  objectId : world.scanner.nextObjectId = origin.objectId + log.length
  resourceId : world.scanner.nextResourceId =
    origin.resourceId + (log.flatMap site.plan.files).length
  cached : world.scanner.moviesFolder = origin.moviesFolder
  wellOrdered : site.plan.WellOrdered log
  represents : site.plan.Represents origin log world.store.db

/-- The stack of the loop: each pending directory with the key of the container
that waits for it. -/
def waiting (site : Site) (origin : Origin) (log : List Placed) (pending : List Addr) :
    List (Path × ObjectKey) :=
  pending.map fun dir => (site.path dir, Plan.parentKey origin log (site.incoming dir))

/-- A batch that the log says comes next. -/
structure Batched (site : Site) (log news : List Placed) (container : Option Placed) :
    Prop where
  nonempty : news ≠ []
  nodup : (log ++ news).Nodup
  filed : ∀ a ∈ news, site.plan.parent a = container
  known : ∀ a, container = some a → a ∈ log ∧ ∃ dir, a = .collection dir

theorem Progress.container (h : Progress site origin files base log world)
    {news : List Placed} {container : Option Placed} (hbatched : Batched site log news container) :
    ∃ old, objectAt world.store.db (.objectKey (Plan.parentKey origin log container)) = some old ∧
      old.IsContainer := by
  cases container with
  | none =>
      obtain ⟨movies, -, hmovies, hstored⟩ := h.represents.movies
      exact ⟨_, hstored, MediaObject.isContainer_withChildren (Or.inl hmovies)⟩
  | some a =>
      obtain ⟨hmem, dir, rfl⟩ := hbatched.known _ rfl
      exact ⟨_, h.represents.object _ hmem,
        MediaObject.isContainer_withChildren (Or.inl ⟨_, rfl⟩)⟩

/-- Filing the next batch of the log. -/
theorem Progress.file (horigin : origin.Valid files)
    (h : Progress site origin files base log world) {news : List Placed}
    {container : Option Placed} (hbatched : Batched site log news container)
    (hfresh : FreshBatch files world.store.db
      (news.map (site.plan.fresh origin (log ++ news))) (site.plan.newResources origin log news)) :
    ∃ next, inStore (putItems (Plan.parentKey origin log container)
        (news.map (site.plan.fresh origin (log ++ news)))
        (site.plan.newResources origin log news))
        (world.draw news.length (news.flatMap site.plan.files).length) = .ok ⟨⟩ next ∧
      Progress site origin files base (log ++ news) next ∧ next.scanned = world.scanned := by
  obtain ⟨old, hold, hcontainer⟩ := h.container hbatched
  have hknown : ∀ a, container = some a → a ∈ log := fun a ha => (hbatched.known a ha).1
  have hdecode := deserializeContainer_eq_ok_iff.mpr
    ⟨old, objectAt_eq_some_iff.mp hold, hcontainer, rfl, rfl⟩
  have hparents : ∀ item ∈ news.map (site.plan.fresh origin (log ++ news)),
      item.parentId = Plan.parentKey origin log container := by
    intro item hitem
    obtain ⟨a, ha, rfl⟩ := List.mem_map.mp hitem
    rw [Plan.fresh_parentId, hbatched.filed a ha, Plan.parentKey_append_left hknown]
  have hput := putItems_of_allApplied _ (site.plan.newResources origin log news) hdecode hparents
    h.outcomes
  have hafter := hfresh.filed (objectAt_eq_some_iff.mp hold) old.children (containerMetaOf old)
  have hfiling : Filing files base (Plan.parentKey origin log container)
      (news.map (site.plan.fresh origin (log ++ news))) (site.plan.newResources origin log news)
      (world.draw news.length (news.flatMap site.plan.files).length) := by
    refine ⟨h.scanning.draw _ _, hfresh, ?_, ?_, fun root hzero => ?_⟩
    · intro item hitem
      obtain ⟨a, ha, rfl⟩ := List.mem_map.mp hitem
      have hrange := (Plan.key_range origin (List.mem_append_right log ha)).2
      simp only [Plan.fresh_id, World.draw, h.objectId]
      rw [List.length_append, Nat.cast_add] at hrange
      omega
    · intro p hp
      obtain ⟨q, hq, rfl⟩ := List.mem_map.mp hp
      have hrange := (fst_mem_numberFrom hq).2
      simp only [World.draw, h.resourceId]
      exact hrange
    · have hpos := horigin.objectId_pos
      cases container with
      | none => exact absurd hzero horigin.movies_ne_root
      | some a =>
          have hrange := (Plan.key_range origin (hknown a rfl)).1
          rw [Plan.parentKey] at hzero
          rw [hzero] at hrange
          simp only at hrange
          omega
  have hscanning := inStore_putItems_scanning _ hfiling
  simp only [inStore, zoom, World.draw, hput] at hscanning ⊢
  refine ⟨_, rfl, ⟨hscanning, h.outcomes.tail, ?_, ?_, h.cached, ?_, ?_⟩, rfl⟩
  · simp only [h.objectId, List.length_append, Nat.cast_add]
    omega
  · simp only [h.resourceId, List.flatMap_append, List.length_append, Nat.cast_add]
    omega
  · exact .snoc h.wellOrdered hbatched.nodup hbatched.filed hknown
  · exact h.represents.append hbatched.filed h.wellOrdered hbatched.nonempty hbatched.nodup
      hknown hold hafter

section Directory

variable (horigin : origin.Valid files) (hfiles : ∀ info, site.fs.HasFile info → files info)
  {dir : Addr} {list : List DirEntry} (hlist : site.fs.entries (site.path dir) = some list)

include horigin hfiles hlist in
/-- The collection of a directory is filed in the container that waits for the
directory. -/
theorem Progress.fileCollection (h : Progress site origin files base log world)
    (hnew : .collection dir ∉ log)
    (hknown : ∀ a, site.incoming dir = some a → a ∈ log) :
    ∃ next, createContainer (Path.stem (site.path dir)) (site.folderArtwork dir)
        (Plan.parentKey origin log (site.incoming dir)) world =
          .ok (Plan.key origin (log ++ [.collection dir]) (.collection dir)) next ∧
      Progress site origin files base (log ++ [.collection dir]) next ∧
      next.scanned = world.scanned := by
  have hbatched : Batched site log [.collection dir] (site.incoming dir) := by
    refine ⟨by simp, ?_, by simp [Site.plan], fun a ha =>
      ⟨hknown a ha, Site.exists_collection_of_incoming ha⟩⟩
    exact List.nodup_append.mpr ⟨h.wellOrdered.nodup, by simp, by
      rintro a ha _ hmem rfl
      exact hnew (List.mem_singleton.mp hmem ▸ ha)⟩
  have hkey : Plan.key origin (log ++ [.collection dir]) (.collection dir) =
      ⟨world.scanner.nextObjectId⟩ := by
    rw [Plan.key_append_right hnew, number_cons_self, h.objectId]
  have hitem : site.plan.fresh origin (log ++ [.collection dir]) (.collection dir) =
      collectionObject (Path.stem (site.path dir)) (site.folderArtwork dir)
        world.scanner.nextObjectId world.scanner.nextResourceId
        (Plan.parentKey origin log (site.incoming dir)) := by
    rw [Plan.fresh, hkey, Plan.start_append_right hnew, blockStart_cons_self, ← h.resourceId]
    simp only [Site.plan]
    rw [Plan.parentKey_append_left hknown]
  have hresources : site.plan.newResources origin log [.collection dir] =
      collectionResources (site.folderArtwork dir).1 world.scanner.nextResourceId := by
    rw [Plan.newResources, ← h.resourceId]
    simp [collectionResources, Site.plan]
  have hfresh := collection_freshBatch h.scanning.below h.scanning.objectId_nonneg
    h.scanning.resourceId_nonneg (Path.stem (site.path dir)) (site.folderArtwork dir)
    (by
      intro info hinfo
      obtain ⟨entry, hentry, rfl⟩ := ObjectComposer.mem_getFolderArtwork hinfo
      rw [Site.content_eq hlist, readContent_eq] at hentry
      exact hfiles _ (FileSystem.hasFile_of_mem_fileMap hlist hentry).1)
    (Plan.parentKey origin log (site.incoming dir))
  rw [← hitem, ← hresources] at hfresh
  obtain ⟨next, hput, hprogress, hscanned⟩ := h.file horigin hbatched hfresh
  refine ⟨next, ?_, hprogress, hscanned⟩
  have hdraw : ([Placed.collection dir].flatMap site.plan.files).length =
      (site.folderArtwork dir).1.toList.length := by simp [Site.plan]
  rw [List.map_singleton, hitem, hresources, hdraw] at hput
  rw [createContainer_apply, bind_apply]
  simp only [List.length_singleton] at hput
  rw [hput, hkey]
  rfl

include horigin hfiles hlist in
/-- The videos of a directory are filed in its own container. -/
theorem Progress.fileVideos (h : Progress site origin files base log world)
    (hnew : ∀ file, .video dir file ∉ log) (hknown : ∀ a, site.own dir = some a → a ∈ log) :
    ∃ next, storeVideos (site.composer dir (Plan.parentKey origin log (site.own dir)))
        (site.videos dir) world = .ok ⟨⟩ next ∧
      Progress site origin files base (log ++ (site.videos dir).map (.video dir)) next ∧
      next.scanned = world.scanned := by
  rw [storeVideos_apply]
  by_cases hempty : site.videos dir = []
  · exact ⟨world, by rw [if_pos hempty], by simpa [hempty] using h, rfl⟩
  rw [if_neg hempty]
  have hinj : Function.Injective (Placed.video dir) := fun _ _ heq => (Placed.video.inj heq).2
  have hvideos : (site.videos dir).Nodup := OrderedMap.entries_nodup _
  have hbatched : Batched site log ((site.videos dir).map (.video dir)) (site.own dir) := by
    refine ⟨by simpa using hempty, ?_, ?_, fun a ha =>
      ⟨hknown a ha, Site.exists_collection_of_own ha⟩⟩
    · refine List.nodup_append.mpr ⟨h.wellOrdered.nodup, hvideos.map hinj, ?_⟩
      rintro a ha _ hmem rfl
      obtain ⟨file, -, rfl⟩ := List.mem_map.mp hmem
      exact hnew file ha
    · intro a ha
      obtain ⟨file, -, rfl⟩ := List.mem_map.mp ha
      rfl
  have hitems : ((site.videos dir).map (.video dir)).map
      (site.plan.fresh origin (log ++ (site.videos dir).map (.video dir))) =
      (site.composer dir (Plan.parentKey origin log (site.own dir))).itemRecords
        (site.videos dir) world.scanner.nextObjectId world.scanner.nextResourceId := by
    rw [ObjectComposer.itemRecords_eq_map hvideos, List.map_map]
    apply List.map_congr_left
    intro file _
    rw [Function.comp_apply, Plan.fresh, Plan.key_append_right (hnew file),
      Plan.start_append_right (hnew file), number_map hinj, blockStart_map hinj,
      ← h.objectId, ← h.resourceId]
    simp only [Site.plan]
    rw [Plan.parentKey_append_left hknown]
    rfl
  have hresources : site.plan.newResources origin log ((site.videos dir).map (.video dir)) =
      ObjectComposer.numberedResources world.scanner.nextResourceId ((site.videos dir).flatMap
        (site.composer dir (Plan.parentKey origin log (site.own dir))).itemFiles) := by
    rw [Plan.newResources, ← h.resourceId, List.flatMap_map]
    rfl
  have hdraws := draws_composerOf hfiles hlist site.config
    (Plan.parentKey origin log (site.own dir))
  rw [← Site.content_eq hlist] at hdraws
  have hfresh := ObjectComposer.freshBatch h.scanning.below h.scanning.objectId_nonneg
    h.scanning.resourceId_nonneg hdraws (site.videos dir) (by
      intro file hfile
      rw [Site.videos, Site.content_eq hlist, readContent_eq] at hfile
      obtain ⟨hhas, haccept⟩ := FileSystem.hasFile_of_mem_fileMap hlist hfile
      exact ⟨hfiles _ hhas, haccept⟩)
  change FreshBatch files _ (ObjectComposer.itemRecords (site.composer dir _) _ _ _) _ at hfresh
  rw [← hitems] at hfresh
  change FreshBatch files _ _ (ObjectComposer.numberedResources _
    ((site.videos dir).flatMap (site.composer dir _).itemFiles)) at hfresh
  rw [← hresources] at hfresh
  obtain ⟨next, hput, hprogress, hscanned⟩ := h.file horigin hbatched hfresh
  refine ⟨next, ?_, hprogress, hscanned⟩
  rw [hitems, hresources, List.length_map, List.flatMap_map] at hput
  exact hput

include horigin hfiles hlist in
/-- The collection part of a directory's scan: its own container and the
containers that wait for its subdirectories. -/
theorem Progress.assign (h : Progress site origin files base log world)
    (hnew : .collection dir ∉ log) (hknown : ∀ a, site.incoming dir = some a → a ∈ log) :
    ∃ next log', log' = log ++ (if site.MakesCollection dir then [.collection dir] else []) ∧
      assignParents (site.path dir) (site.configAt dir) (site.content dir)
        (Plan.parentKey origin log (site.incoming dir)) world =
          .ok (Plan.parentKey origin log' (site.own dir),
            waiting site origin log' (site.subdirs dir)) next ∧
      Progress site origin files base log' next ∧ next.scanned = world.scanned ∧
      (∀ a, site.own dir = some a → a ∈ log') ∧
      ∀ child ∈ site.subdirs dir, ∀ a, site.incoming child = some a → a ∈ log' := by
  have hsub : ∀ child ∈ site.subdirs dir, ∃ name, child = name :: dir := fun child hchild =>
    (Site.exists_of_subdir hchild).imp fun _ => And.left
  unfold assignParents
  rw [Site.useCollections_configAt, Site.directories_content]
  simp only [List.map_map]
  by_cases hmakes : site.MakesCollection dir
  · obtain ⟨next, hcreate, hprogress, hscanned⟩ :=
      h.fileCollection horigin hfiles hlist hnew hknown
    refine ⟨next, log ++ [.collection dir], by simp [hmakes], ?_, hprogress, hscanned, ?_, ?_⟩
    · simp only [hmakes, decide_true, ↓reduceIte, bind_apply, pure_apply]
      have hcreate' := hcreate
      rw [Site.folderArtwork] at hcreate'
      rw [hcreate']
      simp only [EStateM.Result.ok.injEq, Prod.mk.injEq, and_true]
      refine ⟨by simp [Site.own, hmakes, Plan.parentKey], List.map_congr_left ?_⟩
      intro child hchild
      obtain ⟨name, rfl⟩ := hsub child hchild
      simp only [Function.comp_apply, Site.incoming, hmakes, true_and, Site.folderArtwork]
      split
      · rfl
      · rw [Plan.parentKey_append_left hknown]
    · intro a ha
      simp only [Site.own, hmakes, ↓reduceIte, Option.some.injEq] at ha
      simp [← ha]
    · intro child hchild a ha
      obtain ⟨name, rfl⟩ := hsub child hchild
      rw [Site.incoming] at ha
      split at ha
      · simp [← Option.some.inj ha]
      · exact List.mem_append_left _ (hknown a ha)
  · refine ⟨world, log, by simp [hmakes], ?_, h, rfl, ?_, ?_⟩
    · simp only [hmakes, decide_false, Bool.false_eq_true, ↓reduceIte, pure_apply, Site.own,
        EStateM.Result.ok.injEq, Prod.mk.injEq, true_and, and_true]
      apply List.map_congr_left
      intro child hchild
      obtain ⟨name, rfl⟩ := hsub child hchild
      simp [Site.incoming, hmakes]
    · intro a ha
      simp only [Site.own, hmakes, ↓reduceIte] at ha
      exact hknown a ha
    · intro child hchild a ha
      obtain ⟨name, rfl⟩ := hsub child hchild
      simp only [Site.incoming, hmakes, false_and, ↓reduceIte] at ha
      exact hknown a ha

include horigin hfiles hlist in
/-- One turn of the loop: the directory's additions are filed, and its
subdirectories are left with the containers that wait for them. -/
theorem Progress.turn (h : Progress site origin files base log world)
    (hnew : ∀ a ∈ log, a.dir ≠ dir) (hknown : ∀ a, site.incoming dir = some a → a ∈ log) :
    ∃ next, scanDirectory site.fs (site.path dir) (site.configAt dir)
        (Plan.parentKey origin log (site.incoming dir)) world =
          .ok (waiting site origin (log ++ site.additions dir) (site.subdirs dir)) next ∧
      Progress site origin files base (log ++ site.additions dir) next ∧
      next.scanned = world.scanned ++ [site.path dir] ∧
      ∀ child ∈ site.subdirs dir, ∀ a, site.incoming child = some a →
        a ∈ log ++ site.additions dir := by
  have hlogged : Progress site origin files base log
      { world with scanned := world.scanned ++ [site.path dir] } :=
    ⟨h.scanning.congr rfl rfl le_rfl le_rfl, h.outcomes, h.objectId, h.resourceId, h.cached,
      h.wellOrdered, h.represents⟩
  obtain ⟨mid, log', hlog', hassign, hmid, hmidScanned, hown, hsub⟩ :=
    hlogged.assign horigin hfiles hlist (fun hmem => hnew _ hmem rfl) hknown
  have hvideosNew : ∀ file, Placed.video dir file ∉ log' := by
    intro file hmem
    rw [hlog'] at hmem
    rcases List.mem_append.mp hmem with hmem | hmem
    · exact hnew _ hmem rfl
    · split at hmem <;> simp at hmem
  obtain ⟨next, hstore, hnext, hnextScanned⟩ :=
    hmid.fileVideos horigin hfiles hlist hvideosNew hown
  have hall : log' ++ (site.videos dir).map (.video dir) = log ++ site.additions dir := by
    rw [hlog', List.append_assoc]
    rfl
  rw [hall] at hnext
  refine ⟨next, ?_, hnext, by rw [hnextScanned, hmidScanned], fun child hchild a ha => ?_⟩
  · unfold scanDirectory
    rw [bind_apply, modify_apply]
    simp only [readDirectory, hlist]
    rw [bind_apply, fromExcept_ok_apply, ← Site.content_eq hlist]
    simp only [bind_apply, hassign, Site.composerOf_configAt]
    have hstore' := hstore
    rw [Site.videos] at hstore'
    simp only [hstore', pure_apply, EStateM.Result.ok.injEq, and_true]
    apply List.map_congr_left
    intro child hchild
    rw [← hall, Plan.parentKey_append_left (hsub child hchild)]
  · rw [← hall]
    exact List.mem_append_left _ (hsub child hchild a ha)

end Directory

section Loop

variable (horigin : origin.Valid files) (hfiles : ∀ info, site.fs.HasFile info → files info)

include horigin hfiles in
/-- The loop files the additions of every directory it visits.  Pending
directories wait with the key of the container the tree gives them. -/
theorem Progress.loop {pending order : List Addr} (hvisits : site.Visits pending order)
    (h : Progress site origin files base log world) (hbelow : [] ∉ pending)
    (hnodup : order.Nodup) (hapart : ∀ a ∈ log, a.dir ∉ order)
    (hknown : ∀ dir ∈ pending, ∀ a, site.incoming dir = some a → a ∈ log) :
    ∃ next, (∀ turns, order.length ≤ turns → scanLoop site.fs site.config turns site.config
        (waiting site origin log pending) world = .ok ⟨⟩ next) ∧
      Progress site origin files base (log ++ order.flatMap site.additions) next ∧
      next.scanned = world.scanned ++ order.map site.path := by
  induction hvisits generalizing log world with
  | done =>
      refine ⟨world, fun turns _ => ?_, by simpa using h, by simp⟩
      cases turns <;> rfl
  | @turn dir list pending order readable rest ih =>
      obtain ⟨hnotMem, hnodupRest⟩ := List.nodup_cons.mp hnodup
      obtain ⟨mid, hscan, hmid, hmidScanned, hsub⟩ := h.turn horigin hfiles readable
        (fun a ha heq => hapart a ha (heq ▸ List.mem_cons_self))
        (hknown dir List.mem_cons_self)
      have hknownRest : ∀ other ∈ pending, ∀ a, site.incoming other = some a → a ∈ log :=
        fun other hother => hknown other (List.mem_cons_of_mem _ hother)
      obtain ⟨next, hloop, hnext, hscanned⟩ := ih hmid
        (by
          simp only [List.mem_append, List.mem_reverse, not_or]
          refine ⟨fun hmem => ?_, fun hmem => hbelow (List.mem_cons_of_mem _ hmem)⟩
          obtain ⟨name, hname, -⟩ := Site.exists_of_subdir hmem
          simp at hname)
        hnodupRest
        (by
          intro a ha hmem
          rcases List.mem_append.mp ha with ha | ha
          · exact hapart a ha (List.mem_cons_of_mem _ hmem)
          · exact hnotMem (Site.dir_of_mem_additions ha ▸ hmem))
        (by
          intro other hother a ha
          rcases List.mem_append.mp hother with hmem | hmem
          · exact hsub other (List.mem_reverse.mp hmem) a ha
          · exact List.mem_append_left _ (hknownRest other hmem a ha))
      refine ⟨next, fun turns hturns => ?_, ?_, ?_⟩
      · obtain ⟨turns, rfl⟩ := Nat.exists_eq_add_of_le' (n := turns) (m := 1)
          (le_trans (by simp) hturns)
        have hconfig : site.configAt dir = site.config := by
          cases dir with
          | nil => exact absurd List.mem_cons_self hbelow
          | cons name dir => rfl
        have hrest : waiting site origin log pending =
            waiting site origin (log ++ site.additions dir) pending :=
          List.map_congr_left fun other hother => by
            rw [Plan.parentKey_append_left (hknownRest other hother)]
        have hnew : (waiting site origin (log ++ site.additions dir) (site.subdirs dir)).reverse ++
            waiting site origin (log ++ site.additions dir) pending =
            waiting site origin (log ++ site.additions dir)
              ((site.subdirs dir).reverse ++ pending) := by
          simp [waiting]
        rw [hconfig] at hscan
        rw [waiting, List.map_cons]
        simp only [scanLoop, bind_apply, hscan]
        change scanLoop _ _ _ _ ((waiting _ _ _ _).reverse ++ waiting _ _ _ _) _ = _
        rw [hrest, hnew]
        exact hloop turns (by simpa using hturns)
      · rw [List.flatMap_cons, ← List.append_assoc]
        exact hnext
      · simp [hscanned, hmidScanned]

include horigin hfiles in
/-- The root is scanned without a collection of its own, then the loop goes on. -/
theorem Progress.tree {order : List Addr} (hvisits : site.Visits [[]] order)
    (hnodup : order.Nodup) (h : Progress site origin files base [] world) :
    ∃ next, (∀ turns, order.length ≤ turns → scanLoop site.fs site.config turns
        { site.config with useCollections := false } [(site.root, origin.moviesFolder)] world =
          .ok ⟨⟩ next) ∧
      Progress site origin files base (order.flatMap site.additions) next ∧
      next.scanned = world.scanned ++ order.map site.path := by
  cases hvisits with
  | @turn _ list _ order readable rest =>
      obtain ⟨hnotMem, hnodupRest⟩ := List.nodup_cons.mp hnodup
      rw [List.append_nil] at rest
      obtain ⟨mid, hscan, hmid, hmidScanned, hsub⟩ := h.turn horigin hfiles readable
        (by simp) (by simp [Site.incoming])
      obtain ⟨next, hloop, hnext, hscanned⟩ := hmid.loop horigin hfiles rest
        (fun hmem => by
          obtain ⟨name, hname, -⟩ := Site.exists_of_subdir (List.mem_reverse.mp hmem)
          simp at hname)
        hnodupRest
        (fun a ha hmem => hnotMem (Site.dir_of_mem_additions ha ▸ hmem))
        (fun other hother => hsub other (List.mem_reverse.mp hother))
      refine ⟨next, fun turns hturns => ?_, by simpa using hnext,
        by simp [hscanned, hmidScanned]⟩
      obtain ⟨turns, rfl⟩ := Nat.exists_eq_add_of_le' (n := turns) (m := 1)
        (le_trans (by simp) hturns)
      have hscan' : scanDirectory site.fs site.root
          { site.config with useCollections := false } origin.moviesFolder world = _ := hscan
      have hloop' := hloop turns (by simpa using hturns)
      simp only [scanLoop, bind_apply, hscan', List.append_nil]
      rw [waiting, ← List.map_reverse]
      exact hloop'

end Loop

end Progress

end Eems

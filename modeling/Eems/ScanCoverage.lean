/-
A whole scan of a finite tree, from any database that runs lead to: it ends,
visits each directory once, and files what the tree says and nothing else.
-/
import Eems.MoviesFolder

namespace Eems

open Hoare Library

section Start

variable [ArtworkSorter] {site : Site} {files : FileInfo → Prop} {base : Db} {world : World}

/-- A scan that ends in `next` after visiting the tree in the order `order`. -/
structure WholeScan (site : Site) (files : FileInfo → Prop) (base : Db) (world : World)
    (origin : Origin) (order : List Addr) (next : World) : Prop where
  origin_of : OriginOf world.store.db origin
  valid : origin.Valid files
  visits : site.Visits [[]] order
  nodup : order.Nodup
  mem_order : ∀ dir, dir ∈ order ↔ site.InTree dir
  returns : ∀ turns, order.length ≤ turns →
    scanAll site.fs turns site.root site.config world = .ok ⟨⟩ next
  progress : Progress site origin files base (order.flatMap site.additions) next
  scanned : next.scanned = world.scanned ++ order.map site.path

/-- A scan of a finite tree with all writes succeeding, from the call on. -/
theorem exists_wholeScan (hrecorded : Recorded files base world.store)
    (hrange : InRange world.store.db) (houtcomes : AllApplied world.store.outcomes)
    (hknown : MoviesKnown world.store.db world.scanner)
    (hfiles : ∀ info, site.fs.HasFile info → files info)
    (htree : site.fs.FiniteTree site.root) :
    ∃ origin order next, WholeScan site files base world origin order next := by
  have hseed := seedIds_scanning (fun _ _ => True) world ⟨hrecorded, hrange⟩
  obtain ⟨origin, mid, horigin, hfolder, hvalid, hmid, hmidScanned⟩ :=
    getMoviesFolderId_origin site hseed houtcomes rfl rfl hknown
  obtain ⟨order, hvisits, hnodup, hmem⟩ := Site.exists_visits htree
  obtain ⟨next, hloop, hnext, hscanned⟩ := hmid.tree hvalid hfiles hvisits hnodup
  refine ⟨origin, order, next, horigin, hvalid, hvisits, hnodup, hmem, fun turns hturns => ?_,
    hnext, by rw [hscanned, hmidScanned]⟩
  have hseedOk : seedIds world = .ok ⟨⟩ { world with scanner := { world.scanner with
      nextResourceId := getNextId .resourceKey world.store.db
      nextObjectId := getNextId .objectKey world.store.db } } := rfl
  rw [scanAll, bind_apply, hseedOk]
  simp only [bind_apply, hfolder]
  exact hloop turns hturns

end Start

namespace Site

variable (site : Site)

/-- A regular file of the directory whose extension maps to a video type. -/
def IsVideo (dir : Addr) (file : Bytes × FileInfo) : Prop :=
  ∃ entry ∈ site.entries dir, entry.type = .regular ∧ file.1 = entry.name ∧
    file.2.path = Path.append (site.path dir) entry.name ∧
    getMimeType file.2.path = some file.2.mimeType ∧ isVideoType file.2.mimeType

/-- What is to be filed for the tree. -/
def Places : Placed → Prop
  | .collection dir => site.InTree dir ∧ site.MakesCollection dir
  | .video dir file => site.InTree dir ∧ site.IsVideo dir file

/-- The container in which something is to be filed. -/
def container : Placed → Option Placed
  | .collection dir => site.incoming dir
  | .video dir _ => site.own dir

variable {site}

theorem mem_videos_iff {dir : Addr} {file : Bytes × FileInfo} :
    file ∈ site.videos dir ↔ site.IsVideo dir file := by
  rw [videos, content, readContent_eq]
  simp only [mem_fileMap_entries (names_nodup dir) (names_valid dir)]
  constructor
  · rintro ⟨entry, hentry, hfile⟩
    obtain ⟨htype, hname, hpath, hmime, hvideo⟩ := fileEntry_eq_some hfile
    rw [Path.filename_append _ (names_valid dir entry hentry).2.1] at hname
    exact ⟨entry, hentry, htype, hname, hpath, hmime, hvideo⟩
  · obtain ⟨name, mimeType, path⟩ := file
    rintro ⟨entry, hentry, htype, rfl, rfl, hmime, hvideo⟩
    refine ⟨entry, hentry, ?_⟩
    rw [fileEntry, if_pos htype, Path.filename_append _ (names_valid dir entry hentry).2.1]
    simp only at hmime hvideo
    simp [hmime, isVideoFile, hvideo]

/-- The log of a scan is what the tree says. -/
theorem mem_flatMap_additions {order : List Addr} (hmem : ∀ dir, dir ∈ order ↔ site.InTree dir)
    {a : Placed} : a ∈ order.flatMap site.additions ↔ site.Places a := by
  rw [List.mem_flatMap]
  cases a with
  | collection dir => simp [Places, hmem]
  | video dir file => simp [Places, hmem, mem_videos_iff]

end Site

/-- What a scan of a site adds to the database of its origin: the things the
tree says, under new keys and in the containers the tree says, and no other
object. -/
structure ScanPlaced (site : Site) (origin : Origin) (key : Placed → ObjectKey) (after : Db) :
    Prop where
  key_inj : ∀ a b, site.Places a → site.Places b → key a = key b → a = b
  key_new : ∀ a, site.Places a → origin.db.lookup (.objectKey (key a)) = none
  collection : ∀ dir, site.Places (.collection dir) → ∃ object,
    objectAt after (.objectKey (key (.collection dir))) = some object ∧ object.IsContainer
  video : ∀ dir file, site.Places (.video dir file) → ∃ object,
    objectAt after (.objectKey (key (.video dir file))) = some object ∧ object.IsItem ∧
    ∃ ref rest, object.resources = ref :: rest ∧
      after.lookup ref.ref = some (.resource (resourceOf file.2))
  placed : ∀ a object, site.Places a → objectAt after (.objectKey (key a)) = some object →
    object.parentId = ((site.container a).map key).getD origin.moviesFolder ∧
    ∃ container, objectAt after (.objectKey object.parentId) = some container ∧
      .objectKey (key a) ∈ container.children
  complete : ∀ k object, objectAt after k = some object → objectAt origin.db k = none →
    ∃ a, site.Places a ∧ k = .objectKey (key a)
  kept : ∀ k, (objectAt origin.db k).isSome → k ≠ .objectKey origin.moviesFolder →
    objectAt after k = objectAt origin.db k
  movies : ∃ movies keys, objectAt origin.db (.objectKey origin.moviesFolder) = some movies ∧
    movies.IsContainer ∧ objectAt after (.objectKey origin.moviesFolder) =
      some (movies.withChildren keys)

section Represented

variable [ArtworkSorter] {site : Site} {origin : Origin} {files : FileInfo → Prop} {base : Db}
  {log : List Placed} {world : World}

theorem childKeys_video (dir : Addr) (file : Bytes × FileInfo) :
    site.plan.childKeys origin log (some (.video dir file)) = [] := by
  rw [Plan.childKeys, List.map_eq_nil_iff, List.filter_eq_nil_iff]
  intro a _ hparent
  have hsome : site.plan.parent a = some (.video dir file) := by simpa using hparent
  cases a with
  | collection other =>
      obtain ⟨_, h⟩ := Site.exists_collection_of_incoming hsome
      simp at h
  | video other _ =>
      obtain ⟨_, h⟩ := Site.exists_collection_of_own hsome
      simp at h

theorem object_video (dir : Addr) (file : Bytes × FileInfo) :
    site.plan.object origin log (.video dir file) =
      site.plan.fresh origin log (.video dir file) := by
  rw [Plan.object, childKeys_video, MediaObject.withChildren_nil]

theorem parentKey_container (a : Placed) :
    Plan.parentKey origin log (site.plan.parent a) =
      ((site.container a).map (Plan.key origin log)).getD origin.moviesFolder := by
  have hparent : site.plan.parent a = site.container a := by cases a <;> rfl
  rw [hparent]
  cases site.container a <;> rfl

variable (horigin : origin.Valid files) (h : Progress site origin files base log world)

include h in
theorem Progress.container_lists {a : Placed} (hmem : a ∈ log) :
    ∃ container, objectAt world.store.db
        (.objectKey (Plan.parentKey origin log (site.plan.parent a))) = some container ∧
      .objectKey (Plan.key origin log a) ∈ container.children := by
  have hlisted : LibraryKey.objectKey (Plan.key origin log a) ∈
      site.plan.childKeys origin log (site.plan.parent a) :=
    List.mem_map.mpr ⟨a, List.mem_filter.mpr ⟨hmem, by simp⟩, rfl⟩
  cases hparent : site.plan.parent a with
  | none =>
      obtain ⟨movies, -, -, hstored⟩ := h.represents.movies
      rw [hparent] at hlisted
      exact ⟨_, hstored, by simp [hlisted]⟩
  | some b =>
      rw [hparent] at hlisted
      exact ⟨_, h.represents.object b (h.wellOrdered.parent_mem hmem hparent),
        by simp [hlisted]⟩

include horigin h in
/-- The log as it stands in the database. -/
theorem Progress.scanPlaced (hlog : ∀ a, a ∈ log ↔ site.Places a) :
    ScanPlaced site origin (Plan.key origin log) world.store.db where
  key_inj a b ha _ heq := Plan.key_inj ((hlog a).mpr ha) heq
  key_new a ha := horigin.below.objectKey_absent (Plan.key_range _ ((hlog a).mpr ha)).1
  collection dir ha := ⟨_, h.represents.object _ ((hlog _).mpr ha),
    MediaObject.isContainer_withChildren (Or.inl ⟨_, rfl⟩)⟩
  video dir file ha := by
    have hmem := (hlog _).mpr ha
    refine ⟨_, h.represents.object _ hmem, ?_, ?_⟩
    · rw [object_video]
      exact ⟨_, rfl⟩
    · rw [object_video]
      have hfirst : (site.plan.files (.video dir file))[0]? = some file.2 := rfl
      have hmain := h.represents.resource_at h.wellOrdered.nodup hmem hfirst
      rw [Nat.cast_zero, add_zero] at hmain
      exact ⟨_, _, ObjectComposer.resources_itemRecord _ _ _, hmain⟩
  placed a object ha hobject := by
    have hmem := (hlog a).mpr ha
    obtain rfl := Option.some.inj ((h.represents.object a hmem).symm.trans hobject)
    rw [Plan.object_parentId]
    exact ⟨parentKey_container a, h.container_lists hmem⟩
  complete k object hobject hnew := by
    by_contra hnone
    have hmovies : k ≠ .objectKey origin.moviesFolder := by
      rintro rfl
      obtain ⟨movies, hmovies, -⟩ := horigin.movies
      simp [hmovies] at hnew
    have hframe := h.represents.frame k hmovies (by
      rw [Plan.mem_newKeys, not_or]
      constructor
      · rintro ⟨a, ha, rfl⟩
        exact hnone ⟨a, (hlog a).mp ha, rfl⟩
      · rintro ⟨p, hp, rfl⟩
        rw [objectAt, h.represents.resource p hp] at hobject
        simp at hobject)
    rw [objectAt, ← hframe] at hnew
    rw [objectAt] at hobject
    simp [hobject] at hnew
  kept k hstored hmovies := by
    obtain ⟨object, hobject⟩ := Option.isSome_iff_exists.mp hstored
    have hlookup := objectAt_eq_some_iff.mp hobject
    have hframe := h.represents.frame k hmovies (by
      rw [Plan.mem_newKeys, not_or]
      constructor
      · rintro ⟨a, ha, rfl⟩
        rw [horigin.below.objectKey_absent (Plan.key_range _ ha).1] at hlookup
        simp at hlookup
      · rintro ⟨p, hp, rfl⟩
        have hkey := horigin.library.object_key _ object hlookup
        simp at hkey)
    rw [objectAt, objectAt, hframe]
  movies := by
    obtain ⟨movies, hbase, hcontainer, hstored⟩ := h.represents.movies
    exact ⟨movies, _, hbase, hcontainer, hstored⟩

end Represented

/-- Any database that runs of scans lead to can be scanned into, whatever tree
is found. -/
theorem Reachable.exists_wholeScan [ArtworkSorter] {calls : List ScanCall} {system : System}
    (h : Reachable calls system) {scanner : Nat}
    (hknown : MoviesKnown system.db (system.scanners scanner)) (site : Site)
    (htree : site.fs.FiniteTree site.root) :
    ∃ origin order next, WholeScan site
      (fun info => HeldByCalls calls info ∨ site.fs.HasFile info) newDb
      ⟨⟨system.db, system.journal, []⟩, system.scanners scanner, []⟩ origin order next := by
  obtain ⟨hrecorded, hrange⟩ := h.recorded []
  exact @Eems.exists_wholeScan _ site _ newDb ⟨⟨system.db, system.journal, []⟩, _, []⟩
    ⟨hrecorded.library.mono fun _ => Or.inl, hrecorded.replayed, hrecorded.fitting⟩ hrange
    (fun _ hmem => absurd hmem List.not_mem_nil) hknown (fun _ => Or.inr) htree

/-- What a scan of any finite tree does to any database that runs of scans lead
to, if all of its own writes succeed. -/
theorem reachable_scan_placed [ArtworkSorter] {calls : List ScanCall} {system : System}
    (h : Reachable calls system) {scanner : Nat}
    (hknown : MoviesKnown system.db (system.scanners scanner)) {site : Site}
    (htree : site.fs.FiniteTree site.root) :
    ∃ origin turns after key, OriginOf system.db origin ∧
      (∀ turns' : Nat, turns ≤ turns' → scanAll site.fs turns' site.root site.config
        ⟨⟨system.db, system.journal, []⟩, system.scanners scanner, []⟩ = .ok ⟨⟩ after) ∧
      after.scanned.Nodup ∧
      (∀ path, path ∈ after.scanned ↔ ∃ dir, site.InTree dir ∧ site.path dir = path) ∧
      ScanPlaced site origin key after.store.db := by
  obtain ⟨origin, order, next, hscan⟩ := h.exists_wholeScan hknown site htree
  have hlog := fun a => Site.mem_flatMap_additions (a := a) hscan.mem_order
  refine ⟨origin, order.length, next, _, hscan.origin_of, hscan.returns, ?_, ?_,
    hscan.progress.scanPlaced hscan.valid hlog⟩
  · rw [hscan.scanned, List.nil_append]
    exact Site.map_path_nodup hscan.nodup fun dir hdir => (hscan.mem_order dir).mp hdir
  · intro path
    simp [hscan.scanned, hscan.mem_order]

theorem finiteTree_films : filmFiles.FiniteTree (ascii "films") := by
  refine @FileSystem.FiniteTree.intro _ _ [⟨ascii "Alien.1979.mkv", .regular⟩,
    ⟨ascii "Brazil.avi", .regular⟩, ⟨ascii "poster.jpg", .regular⟩, ⟨ascii "more", .directory⟩]
    (by decide) ?_
  intro entry hentry htype
  have hmore : entry = ⟨ascii "more", .directory⟩ := by
    simp only [List.mem_cons, List.not_mem_nil, or_false] at hentry
    rcases hentry with rfl | rfl | rfl | rfl <;> simp_all
  subst hmore
  refine @FileSystem.FiniteTree.intro _ _ [⟨ascii "Cube.mp4", .regular⟩,
    ⟨ascii "Cube.srt", .regular⟩] (by decide) ?_
  intro entry hentry htype
  simp only [List.mem_cons, List.not_mem_nil, or_false] at hentry
  rcases hentry with rfl | rfl <;> simp at htype

/-- A film and a folder that makes a collection. -/
def boxFiles : FileSystem :=
  .ofTable
    [(ascii "films", [⟨ascii "Brazil.avi", .regular⟩, ⟨ascii "box", .directory⟩]),
      (ascii "films/box",
        [⟨ascii "Cube.mp4", .regular⟩, ⟨ascii "Cube.srt", .regular⟩,
          ⟨ascii "Hypercube.mp4", .regular⟩, ⟨ascii "folder.jpg", .regular⟩])]
    (by decide) (by decide) (by decide)

theorem finiteTree_box : boxFiles.FiniteTree (ascii "films") := by
  refine @FileSystem.FiniteTree.intro _ _ [⟨ascii "Brazil.avi", .regular⟩,
    ⟨ascii "box", .directory⟩] (by decide) ?_
  intro entry hentry htype
  have hbox : entry = ⟨ascii "box", .directory⟩ := by
    simp only [List.mem_cons, List.not_mem_nil, or_false] at hentry
    rcases hentry with rfl | rfl <;> simp_all
  subst hbox
  refine @FileSystem.FiniteTree.intro _ _ [⟨ascii "Cube.mp4", .regular⟩,
    ⟨ascii "Cube.srt", .regular⟩, ⟨ascii "Hypercube.mp4", .regular⟩,
    ⟨ascii "folder.jpg", .regular⟩] (by decide) ?_
  intro entry hentry htype
  simp only [List.mem_cons, List.not_mem_nil, or_false] at hentry
  rcases hentry with rfl | rfl | rfl | rfl <;> simp at htype

theorem places_box :
    Site.Places ⟨boxFiles, ascii "films", {}⟩ (.collection [ascii "box"]) := by
  have hbox : Site.Subdir ⟨boxFiles, ascii "films", {}⟩ [] [ascii "box"] :=
    show [ascii "box"] ∈ Site.subdirs ⟨boxFiles, ascii "films", {}⟩ [] by decide
  exact ⟨.single hbox, by decide⟩

/-- The scanner of the films, which remembers its `Movies` container, scans
another tree into the same library. -/
theorem reachable_scan_placed_films :
    ∃ origin turns after key, OriginOf filmSystem.db origin ∧
      (∀ turns' : Nat, turns ≤ turns' →
        @scanAll insertionSorter boxFiles turns' (ascii "films") {}
          ⟨⟨filmSystem.db, filmSystem.journal, []⟩, filmSystem.scanners 0, []⟩ = .ok ⟨⟩ after) ∧
      after.scanned.Nodup ∧
      (∀ path, path ∈ after.scanned ↔
        ∃ dir, Site.InTree ⟨boxFiles, ascii "films", {}⟩ dir ∧
          Site.path ⟨boxFiles, ascii "films", {}⟩ dir = path) ∧
      ScanPlaced ⟨boxFiles, ascii "films", {}⟩ origin key after.store.db ∧
      Site.Places ⟨boxFiles, ascii "films", {}⟩ (.collection [ascii "box"]) := by
  have happlied : ∀ call ∈ [filmCall], call.scanner = 0 → AllApplied call.outcomes := by
    simp [filmCall, AllApplied]
  have hknown := @Reachable.moviesKnown insertionSorter _ _ reachable_films 0 happlied
  obtain ⟨origin, turns, after, key, horigin, hreturns, hnodup, hscanned, hplaced⟩ :=
    @reachable_scan_placed insertionSorter _ _ reachable_films 0 hknown
      ⟨boxFiles, ascii "films", {}⟩ finiteTree_box
  exact ⟨origin, turns, after, key, horigin, hreturns, hnodup, hscanned, hplaced, places_box⟩

end Eems

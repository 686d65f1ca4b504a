/-
From the disk to the client: what a crawl of a newly filled library shows, and
what its downloads bring, are the videos of the content directories.
-/
import Eems.Crawl
import Eems.Downloads
import Eems.PartialScans
import Eems.Startup

namespace Eems

open Library

/-- A video of a content directory, which its number names, with the video's own
directory in that tree. -/
structure Film where
  source : Nat
  dir : Addr
  file : Bytes × FileInfo

def Film.placed (film : Film) : Nat × Placed := (film.source, .video film.dir film.file)

/-- The video is there.  One file is a film of every content directory that has
it in its tree. -/
def Film.Held (fs : FileSystem) (directories : List DirectoryConfig) (film : Film) : Prop :=
  film.source < directories.length ∧
    (siteAt fs directories film.source).Places (.video film.dir film.file)

theorem Film.placed_injective : Function.Injective Film.placed := by
  intro left right h
  cases left
  cases right
  simp_all [Film.placed]

/-- Paths that can be read are C strings. -/
theorem Film.Held.zero_notMem {fs : FileSystem} {directories : List DirectoryConfig} {film : Film}
    (h : film.Held fs directories) : (0 : UInt8) ∉ film.file.2.path := by
  obtain ⟨-, -, entry, hentry, -, -, hpath, -⟩ := h
  have hname := Site.names_valid _ entry hentry
  cases hlist : (siteAt fs directories film.source).fs.entries
      ((siteAt fs directories film.source).path film.dir) with
  | none => simp [Site.entries, hlist] at hentry
  | some list =>
      rw [hpath]
      exact Path.zero_notMem_append (FileSystem.paths_valid _ _ list hlist) hname.2.2

section Log

variable {fs : FileSystem} {directories : List DirectoryConfig} {orders : Nat → List Addr}

theorem mem_logOf_iff {count : Nat} {a : Nat × Placed} :
    a ∈ logOf fs directories orders count ↔
      a.1 < count ∧ a.2 ∈ (orders a.1).flatMap (siteAt fs directories a.1).additions := by
  induction count with
  | zero => simp [logOf]
  | succ count ih =>
      have hmark : a ∈ Plan.mark count
          ((orders count).flatMap (siteAt fs directories count).additions) ↔
          a.1 = count ∧ a.2 ∈ (orders a.1).flatMap (siteAt fs directories a.1).additions := by
        obtain ⟨i, placed⟩ := a
        simp only [Plan.mark, List.mem_map, Prod.mk.injEq]
        constructor
        · rintro ⟨other, hother, rfl, rfl⟩
          exact ⟨rfl, hother⟩
        · rintro ⟨rfl, hplaced⟩
          exact ⟨placed, hplaced, rfl, rfl⟩
      rw [logOf, List.mem_append, ih, hmark, Nat.lt_succ_iff_lt_or_eq, or_and_right]

/-- The films in the log are those there are. -/
theorem Walks.film_mem_iff [ArtworkSorter] {turns : Nat}
    (hwalks : Walks fs directories turns orders)
    (htrees : ∀ dir ∈ directories, fs.FiniteTree dir.path) {film : Film} :
    film.placed ∈ logOf fs directories orders directories.length ↔ film.Held fs directories := by
  rw [mem_logOf_iff]
  apply and_congr_right
  intro hsource
  obtain ⟨order, hvisits, -, hmem⟩ := Site.exists_visits (finiteTree_siteAt htrees hsource)
  obtain rfl := hvisits.unique (hwalks.visits _ hsource)
  exact Site.mem_flatMap_additions hmem

end Log

/-- All there is before the first film are the root and `Movies`. -/
theorem OriginOf.isContainer {origin : Origin} (h : OriginOf newDb origin)
    {files : FileInfo → Prop} (hvalid : origin.Valid files) {key : LibraryKey}
    {object : MediaObject} (hobject : objectAt origin.db key = some object) :
    object.IsContainer := by
  obtain ⟨hnext, -⟩ := originOf_newDb h
  obtain ⟨movies, hmovies, hcontainer, -⟩ := hvalid.movies
  obtain ⟨root, hroot, hrootContainer⟩ := hvalid.library.exists_root
  have hstored := objectAt_eq_some_iff.mp hobject
  obtain rfl : key = .objectKey object.id := hvalid.library.object_key key object hstored
  have hlow := hvalid.below.1 _ _ hstored
  have hpos := hvalid.library.id_nonneg _ _ hstored
  have hmoviesLow := hvalid.movies_below
  have hmoviesPos := hvalid.library.id_nonneg _ _ (objectAt_eq_some_iff.mp hmovies)
  have hmoviesRoot : origin.moviesFolder.id ≠ 0 := fun hzero =>
    hvalid.movies_ne_root (ObjectKey.ext hzero)
  simp only [LibraryKey.id] at hpos hmoviesPos
  rcases eq_or_ne object.id.id 0 with hzero | hone
  · have hkey : object.id = ⟨0⟩ := ObjectKey.ext hzero
    rw [hkey] at hobject
    exact Option.some.inj (hroot.symm.trans hobject) ▸ hrootContainer
  · have hkey : object.id = origin.moviesFolder := ObjectKey.ext (by omega)
    rw [hkey] at hobject
    exact Option.some.inj (hmovies.symm.trans hobject) ▸ hcontainer

section Films

variable [ArtworkSorter] {fs : FileSystem} {directories : List DirectoryConfig}
  {orders : Nat → List Addr} {files : FileInfo → Prop} {origin : Origin} {count : Nat}
  {world : World} (h : Successive fs directories orders files origin count world)

omit h in
/-- Nothing is filed below a video. -/
theorem Film.childKeys_placed (film : Film) (log : List (Nat × Placed)) :
    (planOf fs directories).childKeys origin log (some film.placed) = [] := by
  rw [Plan.childKeys, List.map_eq_nil_iff, List.filter_eq_nil_iff]
  intro a _ hparent
  obtain ⟨i, a⟩ := a
  have hsome : ((siteAt fs directories i).plan.parent a).map (fun b => (i, b)) =
      some film.placed := by simpa [planOf, Plan.family] using hparent
  obtain ⟨container, hcontainer, heq⟩ := Option.map_eq_some_iff.mp hsome
  have hvideo : container = .video film.dir film.file := (Prod.mk.inj heq).2
  cases a with
  | collection other =>
      obtain ⟨_, rfl⟩ := Site.exists_collection_of_incoming hcontainer
      simp at hvideo
  | video other _ =>
      obtain ⟨_, rfl⟩ := Site.exists_collection_of_own hcontainer
      simp at hvideo

include h in
/-- A film is an item whose first resource is the video itself. -/
theorem Successive.film_stored {film : Film}
    (hmem : film.placed ∈ logOf fs directories orders count) :
    HoldsVideo world.store.db
      (Plan.key origin (logOf fs directories orders count) film.placed) film.file.2 := by
  have hstored := h.represents.object _ hmem
  rw [Plan.object, film.childKeys_placed, MediaObject.withChildren_nil] at hstored
  have hfirst : ((planOf fs directories).files film.placed)[0]? = some film.file.2 := rfl
  have hmain := h.represents.resource_at h.wellOrdered.nodup hmem hfirst
  rw [Nat.cast_zero, add_zero] at hmain
  exact ⟨_, hstored, ⟨_, rfl⟩, _, _, ObjectComposer.resources_itemRecord _ _ _, hmain⟩

include h in
/-- The items are the films. -/
theorem Successive.exists_film (horigin : OriginOf newDb origin) (hvalid : origin.Valid files)
    {key : LibraryKey} {object : MediaObject} (hobject : objectAt world.store.db key = some object)
    (hitem : object.IsItem) :
    ∃ film : Film, film.placed ∈ logOf fs directories orders count ∧
      key = .objectKey (Plan.key origin (logOf fs directories orders count) film.placed) := by
  have hnot := not_isContainer_of_isItem hitem
  have hmovies : key ≠ .objectKey origin.moviesFolder := by
    rintro rfl
    obtain ⟨movies, -, hcontainer, hstored⟩ := h.represents.movies
    obtain rfl := Option.some.inj (hstored.symm.trans hobject)
    exact hnot (MediaObject.isContainer_withChildren (Or.inl hcontainer))
  have hfiled : key ∈ newKeys ((logOf fs directories orders count).map
      ((planOf fs directories).fresh origin (logOf fs directories orders count)))
        ((planOf fs directories).resources origin (logOf fs directories orders count)) := by
    by_contra hframe
    have hbefore : objectAt origin.db key = some object := by
      rw [objectAt_eq_some_iff, ← h.represents.frame key hmovies hframe]
      exact objectAt_eq_some_iff.mp hobject
    exact hnot (horigin.isContainer hvalid hbefore)
  rcases Plan.mem_newKeys.mp hfiled with ⟨⟨i, a⟩, ha, rfl⟩ | ⟨p, -, rfl⟩
  · cases a with
    | collection dir =>
        have hstored := h.represents.object _ ha
        obtain rfl := Option.some.inj (hstored.symm.trans hobject)
        exact absurd (MediaObject.isContainer_withChildren (Or.inl ⟨_, rfl⟩)) hnot
    | video dir file => exact ⟨⟨i, dir, file⟩, ha, rfl⟩
  · obtain ⟨id, hid⟩ : ∃ id, LibraryKey.resourceKey p.1 = .objectKey id :=
      ⟨_, h.scanning.library.object_key _ _ (objectAt_eq_some_iff.mp hobject)⟩
    simp at hid

/-- The library of a complete first scan: its items are the films, and the first
resource of each is the video. -/
structure FilmLibrary (fs : FileSystem) (directories : List DirectoryConfig)
    (key : Film → ObjectKey) (db : Db) : Prop where
  library : Library fs.HasFile db
  inRange : InRange db
  key_inj : ∀ left right : Film, left.Held fs directories → right.Held fs directories →
    key left = key right → left = right
  stored : ∀ film : Film, film.Held fs directories → HoldsVideo db (key film) film.file.2
  complete : ∀ k object, objectAt db k = some object → object.IsItem →
    ∃ film : Film, film.Held fs directories ∧ k = .objectKey (key film)

omit [ArtworkSorter] in
theorem filmLibrary_newDb (key : Film → ObjectKey) : FilmLibrary fs [] key newDb := by
  refine ⟨library_newDb _, inRange_newDb, ?_, ?_, ?_⟩
  · exact fun left _ hleft => absurd hleft.1 (Nat.not_lt_zero _)
  · exact fun film hfilm => absurd hfilm.1 (Nat.not_lt_zero _)
  · rintro k object hobject ⟨item, hdata⟩
    obtain ⟨-, rfl⟩ := objectAt_newDb.mp hobject
    simp [serializeContainer] at hdata

theorem Successive.filmLibrary {turns : Nat}
    (h : Successive fs directories orders fs.HasFile origin directories.length world)
    (hwalks : Walks fs directories turns orders)
    (htrees : ∀ dir ∈ directories, fs.FiniteTree dir.path) (horigin : OriginOf newDb origin)
    (hvalid : origin.Valid fs.HasFile) :
    FilmLibrary fs directories (fun film =>
      Plan.key origin (logOf fs directories orders directories.length) film.placed)
      world.store.db := by
  have hheld : ∀ film : Film, film.placed ∈ logOf fs directories orders directories.length ↔
      film.Held fs directories := fun film => hwalks.film_mem_iff htrees
  refine ⟨h.scanning.library, h.inRange_db (hwalks.inRange horigin le_rfl h), ?_, ?_, ?_⟩
  · intro left right hleft _ hkey
    exact Film.placed_injective (Plan.key_inj ((hheld left).mpr hleft) hkey)
  · exact fun film hfilm => h.film_stored ((hheld film).mpr hfilm)
  · intro k object hobject hitem
    obtain ⟨film, hmem, hkey⟩ := h.exists_film horigin hvalid hobject hitem
    exact ⟨film, (hheld film).mp hmem, hkey⟩

end Films

/-- The URL of the first `res` of an element. -/
def Xml.firstResource (element : Xml) : Option Bytes :=
  (element.childrenNamed "res").head?.map Xml.text

theorem firstResource_objectElement (contentBase : Bytes) {object : MediaObject}
    (hitem : object.IsItem) {ref : ResourceRef} {rest : List ResourceRef}
    (hresources : object.resources = ref :: rest) :
    (objectElement contentBase object).firstResource =
      some (resourceUrl contentBase ref.ref.id) := by
  obtain ⟨item, hdata⟩ := hitem
  have hdates : (dateElement object.dcDate).filter (fun child => child.name = ascii "res") = [] :=
    filter_name_eq_nil fun child hchild => (name_of_mem_dateElement hchild).trans_ne (by decide)
  have hartwork : (object.artworks.flatMap (shownArtwork contentBase)).filter
      (fun child => child.name = ascii "res") = [] := by
    apply filter_name_eq_nil
    intro child hchild
    rcases name_of_mem_shownArtwork contentBase hchild with hname | hname <;> rw [hname] <;> decide
  have htitle : ascii "dc:title" ≠ ascii "res" := by decide
  have hclass : ascii "upnp:class" ≠ ascii "res" := by decide
  have hfirst : (shownResource contentBase ref).name = ascii "res" := rfl
  simp [Xml.firstResource, Xml.childrenNamed, objectElement, hdata, Xml.children, shownFields,
    hdates, hartwork, name_leaf, htitle, hclass, hresources, hfirst]
  rfl

/-- The element shows the film: its first URL brings the video. -/
def Shows (server : Server) (element : Xml) (film : Film) : Prop :=
  ∃ url, element.firstResource = some url ∧ server.Delivers url film.file.2.path

/-- What a client with a server on the database is shown: items that show the
films, one each, and no others, among the containers. -/
def ShowsFilms (fs : FileSystem) (directories : List DirectoryConfig) (db : Db) : Prop :=
  ∀ (server : Server) (counts : Int → Nat → UInt32), server.db = db →
    db.entries.length < 2 ^ 32 →
    ∃ bound, ∀ depth requests, bound ≤ depth → db.entries.length < requests →
      ∃ (shown : List Xml) (films : List Film),
        crawl (fetchAll db server.config.baseUrl counts requests) depth 0 = some shown ∧
        films.Nodup ∧ (∀ film, film ∈ films ↔ film.Held fs directories) ∧
        List.Forall₂ (Shows server) (shown.filter fun element => element.name = ascii "item") films

section Crawl

variable {fs : FileSystem} {directories : List DirectoryConfig} {key : Film → ObjectKey} {db : Db}
  (h : FilmLibrary fs directories key db) {server : Server} (hdb : server.db = db)

include h in
theorem FilmLibrary.isItem {film : Film} (hfilm : film.Held fs directories) {object : MediaObject}
    (hobject : objectAt db (.objectKey (key film)) = some object) : object.IsItem := by
  obtain ⟨stored, hstored, hitem, -⟩ := h.stored film hfilm
  exact Option.some.inj (hstored.symm.trans hobject) ▸ hitem

include h hdb in
theorem FilmLibrary.shows {film : Film} (hfilm : film.Held fs directories) {object : MediaObject}
    (hobject : objectAt db (.objectKey (key film)) = some object) :
    Shows server (objectElement server.config.baseUrl object) film := by
  obtain ⟨stored, hstored, hitem, id, rest, hresources, hresource⟩ := h.stored film hfilm
  obtain rfl := Option.some.inj (hstored.symm.trans hobject)
  subst hdb
  have hleads : UrlLeadsTo server.db id.id film.file.2.path :=
    urlLeadsTo_of_stored (h.library.id_nonneg _ _ hresource) (h.inRange _ _ hresource)
      hfilm.zero_notMem hresource
  exact ⟨_, firstResource_objectElement _ hitem hresources, hleads.delivers⟩

include h hdb in
/-- Among the elements of stored objects, the items show the films that the keys
stand for. -/
theorem FilmLibrary.exists_films (keys : List LibraryKey) (shown : List Xml)
    (hshown : shown.map some = keys.map (entryElement db server.config.baseUrl))
    (hstored : ∀ k ∈ keys, (objectAt db k).isSome) :
    ∃ films : List Film, (films.map fun film => LibraryKey.objectKey (key film)).Sublist keys ∧
      (∀ film : Film, film ∈ films ↔
        film.Held fs directories ∧ .objectKey (key film) ∈ keys) ∧
      List.Forall₂ (Shows server)
        (shown.filter fun element => element.name = ascii "item") films := by
  induction keys generalizing shown with
  | nil =>
      obtain rfl : shown = [] := by simpa using hshown
      exact ⟨[], .slnil, by simp, .nil⟩
  | cons k keys ih =>
      cases shown with
      | nil => simp at hshown
      | cons element shown =>
          simp only [List.map_cons, List.cons.injEq] at hshown
          obtain ⟨helement, hrest⟩ := hshown
          obtain ⟨films, hsublist, hmem, hshows⟩ :=
            ih shown hrest fun k hk => hstored k (List.mem_cons_of_mem _ hk)
          obtain ⟨object, hobject⟩ := Option.isSome_iff_exists.mp (hstored k List.mem_cons_self)
          rw [(h.library.browsable hobject).entryElement_eq hobject] at helement
          obtain rfl := Option.some.inj helement
          rcases h.library.object_type k object hobject with hcontainer | hitem
          · have hname : (objectElement server.config.baseUrl object).name ≠ ascii "item" := by
              rw [name_objectElement_of_isContainer hcontainer]
              decide
            have hother : ∀ film : Film, film.Held fs directories → .objectKey (key film) ≠ k := by
              rintro film hfilm rfl
              exact not_isContainer_of_isItem (h.isItem hfilm hobject) hcontainer
            refine ⟨films, hsublist.cons _, ?_, ?_⟩
            · intro film
              rw [hmem, List.mem_cons]
              apply and_congr_right
              intro hfilm
              simp [hother film hfilm]
            · rw [List.filter_cons_of_neg (by simpa using hname)]
              exact hshows
          · have hname : (objectElement server.config.baseUrl object).name = ascii "item" :=
              name_objectElement_of_isItem hitem
            obtain ⟨film, hfilm, rfl⟩ := h.complete k object hobject hitem
            refine ⟨film :: films, hsublist.cons_cons _, ?_, ?_⟩
            · intro other
              rw [List.mem_cons, List.mem_cons, hmem]
              constructor
              · rintro (rfl | ⟨hother, hkey⟩)
                · exact ⟨hfilm, Or.inl rfl⟩
                · exact ⟨hother, Or.inr hkey⟩
              · rintro ⟨hother, hkey | hkey⟩
                · exact Or.inl (h.key_inj _ _ hother hfilm (LibraryKey.objectKey.inj hkey))
                · exact Or.inr ⟨hother, hkey⟩
            · rw [List.filter_cons_of_pos (by simpa using hname)]
              exact .cons (h.shows hdb hfilm hobject) hshows

/-- The items that a crawl shows are the films, one each, and the first resource
of each can be downloaded as the video. -/
theorem FilmLibrary.showsFilms (h : FilmLibrary fs directories key db) :
    ShowsFilms fs directories db := by
  intro server counts hdb hsize
  obtain ⟨bound, hbound⟩ :=
    h.library.crawl_complete h.inRange hsize server.config.baseUrl counts
  refine ⟨bound, ?_⟩
  intro depth requests hdepth hrequests
  obtain ⟨⟨shown, hcrawl, hshown⟩, hnodup, hmem⟩ := hbound depth requests hdepth hrequests
  obtain ⟨films, hsublist, hheld, hshows⟩ := h.exists_films hdb _ shown hshown
    fun k hk => ((hmem k).mp hk).2
  refine ⟨shown, films, hcrawl, List.Nodup.of_map _ (hnodup.sublist hsublist), ?_, hshows⟩
  intro film
  rw [hheld, and_iff_left_iff_imp]
  intro hfilm
  obtain ⟨object, hobject, hitem, -⟩ := h.stored film hfilm
  rw [hmem]
  refine ⟨?_, by simp [hobject]⟩
  intro hroot
  obtain ⟨root, hrootAt, hcontainer⟩ := h.library.exists_root
  rw [hroot, hrootAt] at hobject
  exact not_isContainer_of_isItem hitem (Option.some.inj hobject ▸ hcontainer)

end Crawl

/-- A first start in which nothing fails: a client that crawls what is then
served is shown one item for each video in the tree of each content directory,
and no other item, and downloads that very video from it. -/
theorem main_shows_films [ArtworkSorter] {directories : List DirectoryConfig} {fs : FileSystem}
    {start : Start} (h : start.Unhindered directories fs) (hserves : start.killed = false) :
    ∃ db, (main directories start none).served = some db ∧ ShowsFilms start.fs directories db := by
  obtain ⟨orders, hwalks⟩ := h.walks
  have hdrop : AllApplied (start.outcomes.drop 3) := fun outcome hmem =>
    h.applied outcome (List.mem_of_mem_drop hmem)
  have htrees : ∀ dir ∈ directories, start.fs.FiniteTree dir.path := fun dir hdir =>
    finiteTree_sameTree h.sameTree (h.readable dir hdir)
  obtain ⟨next, hrun, hlibrary⟩ := scanDirectories_newDb hwalks htrees hdrop
  refine ⟨next.store.db, ?_, ?_⟩
  · rw [main_none_of_allApplied h.applied hrun]
    simp [Start.serve, hserves]
  · rcases hlibrary with ⟨rfl, hnew⟩ | ⟨origin, horigin, hvalid, hnext⟩
    · rw [hnew]
      exact (filmLibrary_newDb fun _ => ⟨0⟩).showsFilms
    · exact (hnext.filmLibrary hwalks htrees horigin hvalid).showsFilms

/-- A content directory within another one. -/
def nestedDirectories : List DirectoryConfig := [⟨ascii "films", {}⟩, ⟨ascii "films/more", {}⟩]

def cube : Bytes × FileInfo :=
  (ascii "Cube.mp4", { path := ascii "films/more/Cube.mp4", mimeType := ascii "video/mp4" })

theorem finiteTree_more : filmFiles.FiniteTree (ascii "films/more") := by
  refine @FileSystem.FiniteTree.intro _ _ [⟨ascii "Cube.mp4", .regular⟩,
    ⟨ascii "Cube.srt", .regular⟩] (by decide) ?_
  intro entry hentry htype
  simp only [List.mem_cons, List.not_mem_nil, or_false] at hentry
  rcases hentry with rfl | rfl <;> simp at htype

theorem walks_nested :
    @Walks insertionSorter filmFilesReversed nestedDirectories 2
      fun i => if i = 0 then [[], [ascii "more"]] else [[]] := by
  have houter : (siteAt filmFilesReversed nestedDirectories 0).Visits [[]]
      [[], [ascii "more"]] := by
    have hrootDirs : ((siteAt filmFilesReversed nestedDirectories 0).subdirs []).reverse ++ [] =
      [[ascii "more"]] := by decide
    have hmoreDirs : ((siteAt filmFilesReversed nestedDirectories 0).subdirs
      [ascii "more"]).reverse ++ [] = [] := by decide
    refine .turn (Option.some_get (by decide)).symm ?_
    rw [hrootDirs]
    refine .turn (Option.some_get (by decide)).symm ?_
    rw [hmoreDirs]
    exact .done
  have hinner : (siteAt filmFilesReversed nestedDirectories 1).Visits [[]] [[]] := by
    have hdirs : ((siteAt filmFilesReversed nestedDirectories 1).subdirs []).reverse ++ [] =
      [] := by decide
    refine .turn (Option.some_get (by decide)).symm ?_
    rw [hdirs]
    exact .done
  refine @Walks.mk insertionSorter _ _ _ _ ?_ ?_ (by decide +kernel) (by decide +kernel)
  · intro i hi
    rcases Nat.le_one_iff_eq_zero_or_eq_one.mp (Nat.le_of_lt_succ hi) with rfl | rfl
    · exact houter
    · exact hinner
  · intro i _
    split <;> decide

theorem held_cube : (⟨0, [ascii "more"], cube⟩ : Film).Held filmFilesReversed nestedDirectories ∧
    (⟨1, [], cube⟩ : Film).Held filmFilesReversed nestedDirectories := by
  have hmore : (siteAt filmFilesReversed nestedDirectories 0).Subdir [] [ascii "more"] :=
    show [ascii "more"] ∈ (siteAt filmFilesReversed nestedDirectories 0).subdirs [] by decide
  refine ⟨⟨by decide, .single hmore, ?_⟩, by decide, .refl, ?_⟩
  · exact ⟨⟨ascii "Cube.mp4", .regular⟩, by decide, rfl, rfl, by decide, by decide, by decide⟩
  · exact ⟨⟨ascii "Cube.mp4", .regular⟩, by decide, rfl, rfl, by decide, by decide, by decide⟩

/-- `Cube` is shown twice. -/
theorem main_shows_cube :
    ∃ db, (@main insertionSorter nestedDirectories ⟨filmFilesReversed, 2, [.applied], false⟩
        none).served = some db ∧
      ShowsFilms filmFilesReversed nestedDirectories db ∧
      (⟨0, [ascii "more"], cube⟩ : Film).Held filmFilesReversed nestedDirectories ∧
      (⟨1, [], cube⟩ : Film).Held filmFilesReversed nestedDirectories := by
  have hreadable : ∀ dir ∈ nestedDirectories, filmFiles.FiniteTree dir.path := by
    simp [nestedDirectories, finiteTree_films, finiteTree_more]
  have hunhindered : @Start.Unhindered insertionSorter nestedDirectories filmFiles
      ⟨filmFilesReversed, 2, [.applied], false⟩ :=
    @Start.Unhindered.mk insertionSorter _ _ _ (by simp [AllApplied]) hreadable sameTree_films
      ⟨_, walks_nested⟩
  obtain ⟨db, hserved, hshows⟩ := @main_shows_films insertionSorter _ _ _ hunhindered rfl
  exact ⟨db, hserved, hshows, held_cube⟩

end Eems

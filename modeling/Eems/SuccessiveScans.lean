/-
The initial scan: the directories of the configuration are scanned one after
another into a new database, and the whole is one plan carried out in order.
-/
import Eems.NextIds
import Eems.PlanFamily
import Eems.ScanOrder

namespace Eems

open Hoare Journal Library

structure DirectoryConfig where
  path : Path
  scannerConfig : MoviesLibraryConfig

/-- The loop of `main` over the content directories. -/
def scanDirectories [ArtworkSorter] (fs : FileSystem) (turns : Nat) :
    List DirectoryConfig → ScanM PUnit
  | [] => pure ⟨⟩
  | dir :: rest => do
      scanAll fs turns dir.path dir.scannerConfig
      scanDirectories fs turns rest

/-- The tree that the scan numbered `i` goes over. -/
def siteAt (fs : FileSystem) (directories : List DirectoryConfig) (i : Nat) : Site :=
  let dir := directories[i]?.getD ⟨[], {}⟩
  ⟨fs, dir.path, dir.scannerConfig⟩

/-- What the first scans file, each in its own order of directories. -/
def logOf (fs : FileSystem) (directories : List DirectoryConfig) (orders : Nat → List Addr) :
    Nat → List (Nat × Placed)
  | 0 => []
  | count + 1 => logOf fs directories orders count ++
      Plan.mark count ((orders count).flatMap (siteAt fs directories count).additions)

/-- The plans of all scans as one. -/
def planOf [ArtworkSorter] (fs : FileSystem) (directories : List DirectoryConfig) :
    Plan (Nat × Placed) :=
  Plan.family fun i => (siteAt fs directories i).plan

section Successive

variable {fs : FileSystem} {directories : List DirectoryConfig} {orders : Nat → List Addr}

theorem fst_lt_of_mem_logOf {count : Nat} {a : Nat × Placed}
    (h : a ∈ logOf fs directories orders count) : a.1 < count := by
  induction count with
  | zero => simp [logOf] at h
  | succ count ih =>
      rcases List.mem_append.mp h with hmem | hmem
      · exact Nat.lt_succ_of_lt (ih hmem)
      · obtain ⟨b, -, rfl⟩ := List.mem_map.mp hmem
        exact Nat.lt_succ_self count

theorem logOf_prefix {count total : Nat} (h : count ≤ total) :
    logOf fs directories orders count <+: logOf fs directories orders total := by
  induction h with
  | refl => exact List.prefix_rfl
  | step _ ih => exact ih.trans (List.prefix_append _ _)

theorem siteAt_eq {count : Nat} {dir : DirectoryConfig} (hdir : directories[count]? = some dir) :
    siteAt fs directories count = ⟨fs, dir.path, dir.scannerConfig⟩ := by
  simp [siteAt, hdir]

theorem originOf_newDb {origin : Origin} (h : OriginOf newDb origin) :
    origin.objectId = 2 ∧ origin.resourceId = 0 := by
  have hobject : getNextId .objectKey newDb = 1 := by decide +kernel
  have hresource : getNextId .resourceKey newDb = 0 := by decide +kernel
  cases h with
  | found stored listed =>
      obtain ⟨-, rfl⟩ := objectAt_newDb.mp stored
      simp at listed
  | created stored empty => simp [hobject, hresource]

theorem finiteTree_siteAt (htrees : ∀ dir ∈ directories, fs.FiniteTree dir.path) {i : Nat}
    (hi : i < directories.length) :
    (siteAt fs directories i).fs.FiniteTree (siteAt fs directories i).root := by
  rw [siteAt_eq (List.getElem?_eq_getElem hi)]
  exact htrees _ (List.getElem_mem hi)

variable [ArtworkSorter]

/-- The state after `count` of the scans. -/
structure Successive (fs : FileSystem) (directories : List DirectoryConfig)
    (orders : Nat → List Addr) (files : FileInfo → Prop) (origin : Origin) (count : Nat)
    (world : World) : Prop where
  scanning : Scanning files newDb world
  outcomes : AllApplied world.store.outcomes
  objectId : world.scanner.nextObjectId =
    origin.objectId + (logOf fs directories orders count).length
  resourceId : world.scanner.nextResourceId = origin.resourceId +
    ((logOf fs directories orders count).flatMap (planOf fs directories).files).length
  cached : world.scanner.moviesFolder = origin.moviesFolder
  listed : ∃ root, objectAt world.store.db rootKey = some root ∧
    root.children = [.objectKey origin.moviesFolder]
  nextObject : NextId .objectKey world.store.db world.scanner.nextObjectId
  nextResource : NextId .resourceKey world.store.db world.scanner.nextResourceId
  wellOrdered : (planOf fs directories).WellOrdered (logOf fs directories orders count)
  represents : (planOf fs directories).Represents origin (logOf fs directories orders count)
    world.store.db

theorem WholeScan.listed {site : Site} {files : FileInfo → Prop} {base : Db}
    {world next : World} {origin : Origin} {order : List Addr}
    (h : WholeScan site files base world origin order next) :
    ∃ root, objectAt next.store.db rootKey = some root ∧
      root.children = [.objectKey origin.moviesFolder] := by
  obtain ⟨root, hroot, hchildren⟩ := h.valid.listed
  have hne : rootKey ≠ .objectKey origin.moviesFolder := by
    simpa [rootKey] using Ne.symm h.valid.movies_ne_root
  have hlog := fun a => Site.mem_flatMap_additions (a := a) h.mem_order
  have hkept := (h.progress.scanPlaced h.valid hlog).kept rootKey (by simp [hroot]) hne
  exact ⟨root, hkept.trans hroot, hchildren⟩

/-- One more scan. -/
theorem Successive.of_wholeScan {files : FileInfo → Prop} {mid : Db} {world next : World}
    {origin origin' : Origin} {count : Nat}
    (hlog : (planOf fs directories).WellOrdered (logOf fs directories orders count))
    (hrep : (planOf fs directories).Represents origin (logOf fs directories orders count) mid)
    (hresumes : Plan.Resumes (fun i => (siteAt fs directories i).plan) origin
      (logOf fs directories orders count) mid origin')
    (hrange : InRange world.store.db)
    (hscan : WholeScan (siteAt fs directories count) files newDb world origin' (orders count)
      next) : Successive fs directories orders files origin (count + 1) next := by
  have hmarks : ∀ a ∈ logOf fs directories orders count, a.1 ≠ count :=
    fun a ha => (fst_lt_of_mem_logOf ha).ne
  have hprogress := hscan.progress
  have hbelow := hprogress.scanning.below
  obtain ⟨hnextObject, hnextResource⟩ := hscan.origin_of.nextIds hrange hscan.valid
  refine ⟨hprogress.scanning, hprogress.outcomes, ?_, ?_,
    hprogress.cached.trans hresumes.moviesFolder, ?_, ?_, ?_,
    Plan.WellOrdered.append_mark hmarks hlog hprogress.wellOrdered,
    Plan.Represents.resumed hmarks hresumes hrep hlog hprogress.represents⟩
  · rw [hprogress.objectId, hresumes.objectId]
    simp only [logOf, Plan.mark, List.length_append, List.length_map, Nat.cast_add]
    omega
  · rw [hprogress.resourceId, hresumes.resourceId, logOf, List.flatMap_append,
      List.length_append, planOf, Plan.files_mark]
    push_cast
    omega
  · obtain ⟨root, hroot, hchildren⟩ := hscan.listed
    exact ⟨root, hroot, by rw [hchildren, hresumes.moviesFolder]⟩
  · rw [hprogress.objectId] at hbelow ⊢
    exact hprogress.represents.nextObjectId hprogress.wellOrdered.nodup hscan.valid.below hbelow
      hnextObject
  · rw [hprogress.resourceId] at hbelow ⊢
    exact hprogress.represents.nextResourceId hscan.valid.below hbelow hnextResource

/-- What the initial scan needs of the files it finds: every tree is walked
within the bound on turns, and the ids drawn stay in their range, in which the
root, `Movies` and everything filed have one each. -/
structure Walks (fs : FileSystem) (directories : List DirectoryConfig) (turns : Nat)
    (orders : Nat → List Addr) : Prop where
  visits : ∀ i < directories.length, (siteAt fs directories i).Visits [[]] (orders i)
  turns : ∀ i < directories.length, (orders i).length ≤ turns
  objects : 2 + ((logOf fs directories orders directories.length).length : Int) ≤ int64Max
  resources : (((logOf fs directories orders directories.length).flatMap
    (planOf fs directories).files).length : Int) ≤ int64Max

variable {files : FileInfo → Prop} {origin : Origin} {count turns : Nat} {world : World}

theorem Walks.inRange (hwalks : Walks fs directories turns orders)
    (horigin : OriginOf newDb origin) (hcount : count ≤ directories.length)
    (h : Successive fs directories orders files origin count world) :
    world.scanner.nextObjectId ≤ int64Max ∧ world.scanner.nextResourceId ≤ int64Max := by
  obtain ⟨hobject, hresource⟩ := originOf_newDb horigin
  have hprefix : logOf fs directories orders count <+:
      logOf fs directories orders directories.length := logOf_prefix hcount
  have hobjects := hwalks.objects
  have hresources := hwalks.resources
  have hlength := hprefix.length_le
  obtain ⟨rest, hrest⟩ := hprefix
  have hfiles : ((logOf fs directories orders count).flatMap
      (planOf fs directories).files).length ≤ ((logOf fs directories orders
        directories.length).flatMap (planOf fs directories).files).length := by
    rw [← hrest, List.flatMap_append, List.length_append]
    omega
  rw [h.objectId, h.resourceId, hobject, hresource]
  constructor <;> omega

theorem Successive.inRange_db (h : Successive fs directories orders files origin count world)
    (hfit : world.scanner.nextObjectId ≤ int64Max ∧ world.scanner.nextResourceId ≤ int64Max) :
    InRange world.store.db := by
  intro key record hkey
  cases key with
  | objectKey key => exact lt_of_lt_of_le (h.scanning.below.1 key record hkey) hfit.1
  | resourceKey key => exact lt_of_lt_of_le (h.scanning.below.2 key record hkey) hfit.2

variable (hwalks : Walks fs directories turns orders)
  (hfiles : ∀ info, fs.HasFile info → files info)
  (htrees : ∀ dir ∈ directories, fs.FiniteTree dir.path)

include hwalks hfiles htrees in
/-- The first directory is scanned into the new database. -/
theorem exists_successive_one {dir : DirectoryConfig} (hdir : directories[0]? = some dir)
    {outcomes : List Outcome} (houtcomes : AllApplied outcomes) :
    ∃ origin next, OriginOf newDb origin ∧ origin.Valid files ∧
      scanAll fs turns dir.path dir.scannerConfig ⟨⟨newDb, [], outcomes⟩, {}, []⟩ = .ok ⟨⟩ next ∧
      Successive fs directories orders files origin 1 next := by
  obtain ⟨hlt, -⟩ := List.getElem?_eq_some_iff.mp hdir
  have hsite : siteAt fs directories 0 = ⟨fs, dir.path, dir.scannerConfig⟩ := siteAt_eq hdir
  have htree : (siteAt fs directories 0).fs.FiniteTree (siteAt fs directories 0).root := by
    rw [hsite]
    exact htrees dir (List.mem_of_getElem? hdir)
  obtain ⟨origin, order, next, hscan⟩ := @exists_wholeScan _ _ files newDb
    ⟨⟨newDb, [], outcomes⟩, {}, []⟩ (recorded_newDb outcomes) inRange_newDb houtcomes
    (Or.inl (by simp)) hfiles htree
  obtain rfl := hscan.visits.unique (hwalks.visits 0 hlt)
  obtain ⟨movies, hmovies, hcontainer, -⟩ := hscan.valid.movies
  have hreturns := hscan.returns turns (hwalks.turns 0 hlt)
  rw [hsite] at hreturns
  exact ⟨origin, next, hscan.origin_of, hscan.valid, hreturns, Successive.of_wholeScan .nil
    (.nil hscan.valid.movies_below hmovies hcontainer) ⟨rfl, by simp [logOf], by simp [logOf], rfl⟩
    inRange_newDb hscan⟩

include hwalks hfiles htrees in
/-- Each further directory is scanned into the database the scans before it left. -/
theorem Successive.scanAll (horigin : OriginOf newDb origin)
    (h : Successive fs directories orders files origin count world) {dir : DirectoryConfig}
    (hdir : directories[count]? = some dir) :
    ∃ next, scanAll fs turns dir.path dir.scannerConfig world = .ok ⟨⟩ next ∧
      Successive fs directories orders files origin (count + 1) next := by
  obtain ⟨hlt, -⟩ := List.getElem?_eq_some_iff.mp hdir
  have hsite : siteAt fs directories count = ⟨fs, dir.path, dir.scannerConfig⟩ := siteAt_eq hdir
  have hfit := hwalks.inRange horigin hlt.le h
  have hrange := h.inRange_db hfit
  obtain ⟨root, hroot, hchildren⟩ := h.listed
  have htree : (siteAt fs directories count).fs.FiniteTree (siteAt fs directories count).root := by
    rw [hsite]
    exact htrees dir (List.mem_of_getElem? hdir)
  obtain ⟨origin', order, next, hscan⟩ := exists_wholeScan h.scanning.toRecorded hrange
    h.outcomes (Or.inr ⟨root, hroot, by simp [hchildren, h.cached]⟩) hfiles htree
  obtain rfl := hscan.visits.unique (hwalks.visits count hlt)
  have hreturns := hscan.returns turns (hwalks.turns count hlt)
  rw [hsite] at hreturns
  have hnonneg := h.scanning.library.id_nonneg
  have horigin' := hscan.origin_of.unique (.found hroot hchildren)
  have hresumes : Plan.Resumes (fun i => (siteAt fs directories i).plan) origin
      (logOf fs directories orders count) world.store.db origin' := by
    rw [horigin']
    refine ⟨rfl, ?_, ?_, rfl⟩
    · exact (h.nextObject.getNextId_eq hnonneg hfit.1).trans h.objectId
    · exact (h.nextResource.getNextId_eq hnonneg hfit.2).trans h.resourceId
  exact ⟨next, hreturns,
    Successive.of_wholeScan h.wellOrdered h.represents hresumes hrange hscan⟩

include hwalks hfiles htrees in
/-- The rest of the directories. -/
theorem Successive.scanDirectories (horigin : OriginOf newDb origin)
    (h : Successive fs directories orders files origin count world)
    (hcount : count ≤ directories.length) :
    ∃ next, scanDirectories fs turns (directories.drop count) world = .ok ⟨⟩ next ∧
      Successive fs directories orders files origin directories.length next := by
  generalize hrest : directories.drop count = rest
  induction rest generalizing count world with
  | nil =>
      have hall : directories.length = count := by
        have := List.drop_eq_nil_iff.mp hrest
        omega
      exact ⟨world, rfl, hall ▸ h⟩
  | cons dir rest ih =>
      have hdir : directories[count]? = some dir := by
        rw [← List.head?_drop, hrest, List.head?_cons]
      obtain ⟨hlt, -⟩ := List.getElem?_eq_some_iff.mp hdir
      obtain ⟨mid, hscan, hmid⟩ := h.scanAll hwalks hfiles htrees horigin hdir
      obtain ⟨next, hrun, hnext⟩ := ih hmid hlt (by
        rw [← List.tail_drop, hrest, List.tail_cons])
      refine ⟨next, ?_, hnext⟩
      simp only [Eems.scanDirectories, bind_apply, hscan]
      exact hrun

include hwalks htrees in
/-- An initial scan of which nothing fails files the whole plan. -/
theorem scanDirectories_newDb {outcomes : List Outcome} (houtcomes : AllApplied outcomes) :
    ∃ next, scanDirectories fs turns directories ⟨⟨newDb, [], outcomes⟩, {}, []⟩ =
        .ok ⟨⟩ next ∧
      ((directories = [] ∧ next.store.db = newDb) ∨ ∃ origin, OriginOf newDb origin ∧
        origin.Valid fs.HasFile ∧
        Successive fs directories orders fs.HasFile origin directories.length next) := by
  cases hdirs : directories with
  | nil => exact ⟨_, rfl, Or.inl ⟨rfl, rfl⟩⟩
  | cons dir rest =>
      have hdir : directories[0]? = some dir := by simp [hdirs]
      obtain ⟨origin, mid, horigin, hvalid, hscan, hmid⟩ :=
        exists_successive_one hwalks (fun _ => id) htrees hdir houtcomes
      obtain ⟨next, hrun, hnext⟩ := hmid.scanDirectories hwalks (fun _ => id) htrees horigin
        (by simp [hdirs])
      rw [hdirs] at hnext
      refine ⟨next, ?_, Or.inr ⟨origin, horigin, hvalid, hnext⟩⟩
      simp only [hdirs, List.drop_succ_cons, List.drop_zero] at hrun
      simp only [scanDirectories, bind_apply, hscan]
      exact hrun

section SameTree

variable {fs' : FileSystem} {orders' : Nat → List Addr} (hsame : fs.SameTree fs')

include hsame in
theorem planOf_sameTree : planOf fs directories = planOf fs' directories := by
  have hplans : (fun i => (siteAt fs directories i).plan) =
      fun i => (siteAt fs' directories i).plan :=
    funext fun i =>
      @plan_sameTree (siteAt fs directories i) (siteAt fs' directories i) rfl rfl hsame _
  rw [planOf, planOf, hplans]

omit [ArtworkSorter] in
include hsame in
theorem logOf_sameTree (hperm : ∀ i < count, (orders i).Perm (orders' i)) :
    (logOf fs directories orders count).Perm (logOf fs' directories orders' count) := by
  induction count with
  | zero => exact .nil
  | succ count ih =>
      have hadditions : (siteAt fs directories count).additions =
          (siteAt fs' directories count).additions :=
        funext fun dir => @additions_sameTree (siteAt fs directories count)
          (siteAt fs' directories count) rfl rfl hsame dir
      rw [logOf, logOf, hadditions]
      exact (ih fun i hi => hperm i (Nat.lt_succ_of_lt hi)).append
        (((hperm count (Nat.lt_succ_self count)).flatMap_right _).map _)

include hsame htrees in
/-- What holds of one order of enumeration holds of every other. -/
theorem Walks.sameTree (h : Walks fs' directories turns orders') :
    ∃ orders, Walks fs directories turns orders ∧
      ∀ i < directories.length, (orders i).Perm (orders' i) := by
  have hexists : ∀ i, ∃ order, i < directories.length →
      (siteAt fs directories i).Visits [[]] order := by
    intro i
    by_cases hi : i < directories.length
    · obtain ⟨order, hvisits, -⟩ := Site.exists_visits (finiteTree_siteAt htrees hi)
      exact ⟨order, fun _ => hvisits⟩
    · exact ⟨[], fun hlt => absurd hlt hi⟩
  choose orders horders using hexists
  have hperm : ∀ i < directories.length, (orders i).Perm (orders' i) := fun i hi =>
    @visits_perm (siteAt fs directories i) (siteAt fs' directories i) rfl hsame _ _
      (finiteTree_siteAt htrees hi) (horders i hi) (h.visits i hi)
  have hlog : (logOf fs directories orders directories.length).Perm
      (logOf fs' directories orders' directories.length) := logOf_sameTree hsame hperm
  refine ⟨orders, ⟨horders, ?_, ?_, ?_⟩, hperm⟩
  · intro i hi
    rw [(hperm i hi).length_eq]
    exact h.turns i hi
  · rw [hlog.length_eq]
    exact h.objects
  · rw [(hlog.flatMap_right _).length_eq, planOf_sameTree hsame]
    exact h.resources

theorem planOf_stable (fs : FileSystem) (directories : List DirectoryConfig) :
    (planOf fs directories).Stable := fun rename a =>
  (siteAt fs directories a.1).plan_stable rename a.2

include hsame in
/-- Two initial scans of the same trees leave isomorphic libraries. -/
theorem Successive.iso {files' : FileInfo → Prop} {world' : World} (hvalid : origin.Valid files)
    (h : Successive fs directories orders files origin count world)
    (h' : Successive fs' directories orders' files' origin count world')
    (hperm : ∀ i < count, (orders i).Perm (orders' i)) :
    ∃ rename, LibraryIso rename world.store.db world'.store.db := by
  have hwell := h'.wellOrdered
  have hrep := h'.represents
  rw [← planOf_sameTree hsame] at hwell hrep
  exact ⟨_, renumbered_iso hvalid h.wellOrdered.nodup (logOf_sameTree hsame hperm)
    (planOf_stable fs directories) h.wellOrdered hwell h.represents hrep h.scanning.library
    h'.scanning.library⟩

end SameTree

end Successive

end Eems

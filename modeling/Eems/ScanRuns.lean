/-
Runs of the scanner over one store: any number of scanner instances, one call
of `scan_all` at a time, each on whatever file system it finds and with
whatever becomes of its writes.
-/
import Eems.Opening
import Eems.Scanning

namespace Eems

open Hoare Journal ListedTree

section Steps

variable {files : FileInfo → Prop} {base : Db}

theorem createContainer_scanning {name : Bytes} {artwork : Option FileInfo × ArtworkType}
    {parent : ObjectKey} (hartwork : ∀ info, artwork.1 = some info → files info)
    (hparent : parent ≠ ⟨0⟩) :
    Triple (Scanning files base) (createContainer name artwork parent)
      (fun key world => Scanning files base world ∧ key ≠ ⟨0⟩)
      (fun _ => Scanning files base) := by
  intro world h
  have hkey : ObjectKey.mk world.scanner.nextObjectId ≠ ⟨0⟩ := by
    simpa using h.nextObjectId_pos.ne'
  have hfiling : Filing files base parent
      [collectionObject name artwork world.scanner.nextObjectId world.scanner.nextResourceId
        parent]
      (collectionResources artwork.1 world.scanner.nextResourceId)
      (world.draw 1 artwork.1.toList.length) := by
    refine ⟨h.draw _ _, ?_, ?_, ?_, fun root hzero => absurd hzero hparent⟩
    · exact collection_freshBatch h.below h.objectId_nonneg h.resourceId_nonneg name _ hartwork
        parent
    · simp [collectionObject, serializeContainer, collectionMeta, World.draw]
    · intro p hp
      obtain ⟨q, hq, rfl⟩ := List.mem_map.mp hp
      exact (Numbering.fst_mem_numberFrom hq).2
  rw [createContainer_apply]
  exact Triple.bind inStore_putItems_scanning
    (fun _ => Triple.pure fun _ hstate => ⟨hstate, hkey⟩) _ hfiling

theorem storeVideos_scanning [ArtworkSorter] {composer : ObjectComposer}
    {videos : List (Bytes × FileInfo)} (hdraws : composer.Draws files)
    (hvideos : ∀ video ∈ videos, files video.2 ∧ isVideoType video.2.mimeType)
    (hparent : composer.parentId ≠ ⟨0⟩) :
    Triple (Scanning files base) (storeVideos composer videos)
      (fun _ => Scanning files base) (fun _ => Scanning files base) := by
  intro world h
  rw [storeVideos_apply]
  by_cases hempty : videos = []
  · rw [if_pos hempty]
    exact h
  · rw [if_neg hempty]
    have hfiling : Filing files base composer.parentId
        (composer.itemRecords videos world.scanner.nextObjectId world.scanner.nextResourceId)
        (ObjectComposer.numberedResources world.scanner.nextResourceId
          (videos.flatMap composer.itemFiles))
        (world.draw videos.length (videos.flatMap composer.itemFiles).length) := by
      refine ⟨h.draw _ _, ?_, ?_, ?_, fun root hzero => absurd hzero hparent⟩
      · exact ObjectComposer.freshBatch h.below h.objectId_nonneg h.resourceId_nonneg hdraws
          _ hvideos
      · intro item hitem
        have hid := List.mem_map_of_mem (f := MediaObject.id) hitem
        rw [ObjectComposer.map_id_itemRecords] at hid
        obtain ⟨q, hq, heq⟩ := List.mem_map.mp hid
        rw [← heq]
        exact (Numbering.fst_mem_numberFrom hq).2
      · intro p hp
        obtain ⟨q, hq, rfl⟩ := List.mem_map.mp hp
        exact (Numbering.fst_mem_numberFrom hq).2
    exact inStore_putItems_scanning _ hfiling

variable {fs : FileSystem} (hfiles : ∀ info, fs.HasFile info → files info)

include hfiles in
/-- The directory's maps hold files of the file system. -/
theorem draws_composerOf {path : Path} {entries : List DirEntry}
    (hentries : fs.entries path = some entries) (config : MoviesLibraryConfig)
    (parent : ObjectKey) :
    (composerOf path config (readContent path entries) parent).Draws files := by
  constructor
  · intro entry hentry
    simp only [composerOf, readContent_eq] at hentry
    exact hfiles _ (FileSystem.hasFile_of_mem_fileMap hentries hentry).1
  · intro entry hentry
    simp only [composerOf, readContent_eq] at hentry
    obtain ⟨hfile, haccept⟩ := FileSystem.hasFile_of_mem_fileMap hentries hentry
    refine ⟨hfiles _ hfile, ?_⟩
    simp only [isSubtitleFile, Bool.and_eq_true] at haccept
    exact haccept.2

include hfiles in
theorem assignParents_scanning {path : Path} {entries : List DirEntry}
    (hentries : fs.entries path = some entries) {config : MoviesLibraryConfig}
    {parent : ObjectKey} (hparent : parent ≠ ⟨0⟩) :
    Triple (Scanning files base)
      (assignParents path config (readContent path entries) parent)
      (fun assigned world => Scanning files base world ∧ assigned.1 ≠ ⟨0⟩ ∧
        ∀ directory ∈ assigned.2, directory.2 ≠ ⟨0⟩)
      (fun _ => Scanning files base) := by
  unfold assignParents
  split
  · refine Triple.bind (createContainer_scanning ?_ hparent) fun key => Triple.pure ?_
    · intro info hinfo
      obtain ⟨entry, hentry, rfl⟩ := ObjectComposer.mem_getFolderArtwork hinfo
      rw [readContent_eq] at hentry
      exact hfiles _ (FileSystem.hasFile_of_mem_fileMap hentries hentry).1
    · rintro world ⟨h, hkey⟩
      refine ⟨h, hkey, ?_⟩
      intro directory hdirectory
      obtain ⟨path, -, rfl⟩ := List.mem_map.mp hdirectory
      change (if _ then key else parent) ≠ ⟨0⟩
      split
      · exact hkey
      · exact hparent
  · refine Triple.pure fun world h => ⟨h, hparent, ?_⟩
    intro directory hdirectory
    obtain ⟨path, -, rfl⟩ := List.mem_map.mp hdirectory
    exact hparent

include hfiles in
/-- Scanning a directory below any container but the root keeps the invariant,
and so do the parents it leaves for the subdirectories. -/
theorem scanDirectory_scanning [ArtworkSorter] {path : Path} {config : MoviesLibraryConfig}
    {parent : ObjectKey} (hparent : parent ≠ ⟨0⟩) :
    Triple (Scanning files base) (scanDirectory fs path config parent)
      (fun directories world => Scanning files base world ∧
        ∀ directory ∈ directories, directory.2 ≠ ⟨0⟩)
      (fun _ => Scanning files base) := by
  have hlog : Triple (Scanning files base)
      (modify fun world => { world with scanned := world.scanned ++ [path] } : ScanM PUnit)
      (fun _ => Scanning files base) (fun _ => Scanning files base) :=
    Triple.modifyState fun world h => h.congr rfl rfl le_rfl le_rfl
  unfold scanDirectory
  refine Triple.bind hlog fun _ => ?_
  intro world h
  cases hentries : fs.entries path with
  | none =>
      simp only [readDirectory, hentries, bind_apply, fromExcept_error_apply]
      exact h
  | some entries =>
      simp only [readDirectory, hentries]
      rw [bind_apply, fromExcept_ok_apply]
      refine Triple.bind (assignParents_scanning hfiles hentries hparent)
        (fun assigned => ?_) world h
      rintro next ⟨hnext, hcomposer, hdirectories⟩
      refine Triple.bind (storeVideos_scanning
        (draws_composerOf hfiles hentries config assigned.1) ?_ hcomposer)
        (fun _ => Triple.pure fun _ hlast => ⟨hlast, hdirectories⟩) next hnext
      intro video hvideo
      rw [readContent_eq] at hvideo
      obtain ⟨hfile, haccept⟩ := FileSystem.hasFile_of_mem_fileMap hentries hvideo
      exact ⟨hfiles _ hfile, haccept⟩

include hfiles in
/-- The pending directories never wait below the root. -/
theorem scanLoop_scanning [ArtworkSorter] (originalConfig : MoviesLibraryConfig) (turns : Nat)
    (config : MoviesLibraryConfig) {directories : List (Path × ObjectKey)}
    (hdirectories : ∀ directory ∈ directories, directory.2 ≠ ⟨0⟩) :
    Triple (Scanning files base) (scanLoop fs originalConfig turns config directories)
      (fun _ => Scanning files base) (fun _ => Scanning files base) := by
  induction turns generalizing config directories with
  | zero =>
      cases directories with
      | nil => exact Triple.pure fun _ h => h
      | cons head rest => exact Triple.throw fun _ h => h
  | succ turns ih =>
      cases directories with
      | nil => exact Triple.pure fun _ h => h
      | cons head rest =>
          obtain ⟨path, parent⟩ := head
          have hhead := hdirectories (path, parent) List.mem_cons_self
          refine Triple.bind (scanDirectory_scanning hfiles hhead) fun new => ?_
          rintro world ⟨h, hnew⟩
          refine ih _ ?_ world h
          intro directory hdirectory
          rcases List.mem_append.mp hdirectory with hmem | hmem
          · exact hnew directory (List.mem_reverse.mp hmem)
          · exact hdirectories directory (List.mem_cons_of_mem _ hmem)

include hfiles in
/-- A call of `scan_all`, cut short or not. -/
theorem scanAll_scanning [ArtworkSorter] (turns : Nat) (root : Path)
    (config : MoviesLibraryConfig) :
    Triple (fun world => Recorded files base world.store ∧ InRange world.store.db)
      (scanAll fs turns root config)
      (fun _ => Scanning files base) (fun _ => Scanning files base) := by
  unfold scanAll
  refine Triple.bind (seedIds_scanning _) fun _ => Triple.bind getMoviesFolderId_scanning
    fun folder => ?_
  rintro world ⟨h, hfolder⟩
  exact scanLoop_scanning hfiles config turns _ (by simpa using hfolder) world h

end Steps

section Recalled

/-- A fact about the journal and the cached key of the `Movies` container. -/
def Recalled (fact : List Batch → ObjectKey → Prop) (world : World) : Prop :=
  fact world.store.journal world.scanner.moviesFolder

variable {fact : List Batch → ObjectKey → Prop}
  (hgrows : ∀ journal batch key, fact journal key → fact (journal ++ [batch]) key)

include hgrows

/-- A call appends to the journal, if anything. -/
theorem inStore_putItems_recalled {parent : ObjectKey} {items : List MediaObject}
    {resources : List (ResourceKey × Resource)} :
    Keeps (Recalled fact) (inStore (putItems parent items resources)) := by
  intro world h
  rcases putItems_cases parent items resources world.store with
    ⟨error, next, hput, -, hjournal⟩ | ⟨next, hput, -, hjournal⟩ |
      ⟨containerData, containerMeta, next, -, -, hput, -, hjournal⟩
  · simp only [inStore, zoom, hput, Recalled, hjournal]
    exact h
  · simp only [inStore, zoom, hput, Recalled, hjournal]
    exact h
  · simp only [inStore, zoom, hput, Recalled, hjournal]
    exact hgrows _ _ _ h

theorem storeVideos_recalled [ArtworkSorter] {composer : ObjectComposer}
    {videos : List (Bytes × FileInfo)} :
    Keeps (Recalled fact) (storeVideos composer videos) :=
  keeps_storeVideos (fun _ _ _ h => h) fun _ _ => inStore_putItems_recalled hgrows

theorem scanLoop_recalled [ArtworkSorter] {fs : FileSystem}
    (originalConfig : MoviesLibraryConfig) (turns : Nat) (config : MoviesLibraryConfig)
    (directories : List (Path × ObjectKey)) :
    Keeps (Recalled fact) (scanLoop fs originalConfig turns config directories) := by
  apply keeps_scanLoop
  intro path config parent
  apply keeps_scanDirectory (fun _ h => h)
  · intro entries _ _
    exact keeps_createContainer (fun _ _ _ h => h) fun _ _ => inStore_putItems_recalled hgrows
  · exact fun entries composerParent _ => storeVideos_recalled hgrows

omit hgrows in
/-- A whole call, which may cache another key, does not shorten the journal. -/
theorem scanAll_recalled [ArtworkSorter] {fs : FileSystem} {turns : Nat} {root : Path}
    {config : MoviesLibraryConfig} {journal : List Batch} :
    Keeps (Recalled fun later _ => journal <+: later) (scanAll fs turns root config) := by
  have hgrows : ∀ later batch (_ : ObjectKey), journal <+: later →
      journal <+: later ++ [batch] :=
    fun later batch _ h => h.trans (List.prefix_append _ _)
  have hfolder : Keeps (Recalled fun later _ => journal <+: later) getMoviesFolderId :=
    keeps_getMoviesFolderId (fun _ _ _ h => h) (fun _ => inStore_putItems_recalled hgrows)
      fun _ _ h => h
  exact Keeps.bind (Keeps.modifyState fun _ h => h) fun _ =>
    Keeps.bind hfolder fun _ => scanLoop_recalled hgrows config turns _ _

end Recalled

/-- A completed opening without a database leaves the new one. -/
theorem openDb_none {outcomes rest : List Outcome} {existed : Bool} {db : Db}
    (h : openDb ⟨none, outcomes⟩ = .ok existed ⟨some db, rest⟩) : db = newDb := by
  rcases openDb_eq_ok h with ⟨-, hsome, -⟩ | ⟨-, -, hnew⟩
  · simp at hsome
  · simpa using hnew

/-- One call of `scan_all`: the instance it is made on, what it finds and is
given, and what becomes of its writes. -/
structure ScanCall where
  scanner : Nat
  fs : FileSystem
  turns : Nat
  root : Path
  config : MoviesLibraryConfig
  outcomes : List Outcome

/-- One database with the scanner instances that work on it, and every batch
written since the database was opened. -/
structure System where
  db : Db
  journal : List Batch
  scanners : Nat → MovieScanner

def System.opened (db : Db) : System := ⟨db, [], fun _ => {}⟩

def System.world (system : System) (call : ScanCall) : World :=
  ⟨⟨system.db, system.journal, call.outcomes⟩, system.scanners call.scanner, []⟩

/-- The world in which a call ends, by return or by exception. -/
def System.after [ArtworkSorter] (system : System) (call : ScanCall) : World :=
  finalState (scanAll call.fs call.turns call.root call.config (system.world call))

def System.scan [ArtworkSorter] (system : System) (call : ScanCall) : System where
  db := (system.after call).store.db
  journal := (system.after call).store.journal
  scanners := Function.update system.scanners call.scanner (system.after call).scanner

/-- Every id the call has drawn fits below `INT64_MAX`. -/
def System.IdsFit [ArtworkSorter] (system : System) (call : ScanCall) : Prop :=
  (system.after call).scanner.nextObjectId ≤ int64Max ∧
    (system.after call).scanner.nextResourceId ≤ int64Max

instance [ArtworkSorter] (system : System) (call : ScanCall) :
    Decidable (system.IdsFit call) := inferInstanceAs (Decidable (_ ∧ _))

/-- The systems that runs of `scan_all` calls lead to, from a new database
whose `open_db` completed. -/
inductive Reachable [ArtworkSorter] : List ScanCall → System → Prop
  | opened {outcomes rest : List Outcome} {existed : Bool} {db : Db}
      (completed : openDb ⟨none, outcomes⟩ = .ok existed ⟨some db, rest⟩) :
      Reachable [] (System.opened db)
  | scan {calls : List ScanCall} {system : System} (before : Reachable calls system)
      (call : ScanCall) (fits : system.IdsFit call) :
      Reachable (calls ++ [call]) (system.scan call)

/-- One call over the film files, into a new database. -/
def filmCall : ScanCall := ⟨0, filmFiles, 2, ascii "films", {}, []⟩

def filmSystem : System := @System.scan insertionSorter (System.opened newDb) filmCall

theorem reachable_films : @Reachable insertionSorter [filmCall] filmSystem :=
  @Reachable.scan insertionSorter _ _ (@Reachable.opened insertionSorter [] [] false newDb rfl)
    filmCall (by decide +kernel)

/-- The files that the calls of a run could read. -/
def HeldByCalls (calls : List ScanCall) (info : FileInfo) : Prop :=
  ∃ call ∈ calls, call.fs.HasFile info

theorem inRange_newDb : InRange newDb := by
  intro key record hkey
  rw [lookup_newDb] at hkey
  split at hkey
  · rename_i heq
    rw [heq]
    decide
  · simp at hkey

theorem recorded_newDb {files : FileInfo → Prop} (outcomes : List Outcome) :
    Recorded files newDb ⟨newDb, [], outcomes⟩ :=
  ⟨library_newDb _, rfl, Fitting.nil⟩

/-- What every run keeps. -/
theorem Reachable.recorded [ArtworkSorter] {calls : List ScanCall} {system : System}
    (h : Reachable calls system) (outcomes : List Outcome) :
    Recorded (HeldByCalls calls) newDb ⟨system.db, system.journal, outcomes⟩ ∧
      InRange system.db := by
  induction h generalizing outcomes with
  | opened completed =>
      obtain rfl := openDb_none completed
      exact ⟨recorded_newDb outcomes, inRange_newDb⟩
  | scan before call fits ih =>
      rename_i calls system
      have hstart := ih call.outcomes
      have hrecorded : Recorded (HeldByCalls (calls ++ [call])) newDb
          (system.world call).store := by
        refine ⟨hstart.1.library.mono ?_, hstart.1.replayed, hstart.1.fitting⟩
        rintro info ⟨other, hother, hfile⟩
        exact ⟨other, List.mem_append_left _ hother, hfile⟩
      have hscan := @scanAll_scanning (HeldByCalls (calls ++ [call])) newDb call.fs
        (fun info hfile => ⟨call, by simp, hfile⟩) _ call.turns call.root call.config
      have hfinal : Scanning (HeldByCalls (calls ++ [call])) newDb (system.after call) := by
        have hrun := hscan (system.world call) ⟨hrecorded, hstart.2⟩
        unfold System.after
        cases hresult : scanAll call.fs call.turns call.root call.config (system.world call) with
        | ok value next => simpa [hresult, finalState] using hrun
        | error error next => simpa [hresult, finalState] using hrun
      refine ⟨⟨hfinal.library, hfinal.replayed, hfinal.fitting⟩, ?_⟩
      intro key record hkey
      cases key with
      | objectKey key => exact lt_of_lt_of_le (hfinal.below.1 key record hkey) fits.1
      | resourceKey key => exact lt_of_lt_of_le (hfinal.below.2 key record hkey) fits.2

theorem Reachable.library [ArtworkSorter] {calls : List ScanCall} {system : System}
    (h : Reachable calls system) : Library (HeldByCalls calls) system.db :=
  (h.recorded []).1.library

end Eems

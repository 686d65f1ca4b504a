/-
The start of the process: the database is opened or created, a new one is
filled from the content directories, and whatever database is there is served.
-/
import Eems.Opening
import Eems.SuccessiveScans

namespace Eems

open Hoare Library

/-- One start of the process: the files its scans would find, the bound on
their turns, what becomes of its database operations, and whether it is killed
after the last of them. -/
structure Start where
  fs : FileSystem
  turns : Nat
  outcomes : List Outcome
  killed : Bool

/-- The database a start leaves on the disk, and the one it serves if it gets
that far. -/
structure StartResult where
  db : Option Db
  served : Option Db

/-- The serving phase, which writes nothing. -/
def Start.serve (start : Start) (db : Option Db) : StartResult :=
  ⟨db, if start.killed then none else db⟩

/-- `main`; the directories are scanned only where no database was found. -/
def main [ArtworkSorter] (directories : List DirectoryConfig) (start : Start)
    (db : Option Db) : StartResult :=
  match openDb ⟨db, start.outcomes⟩ with
  | .error _ disk => ⟨disk.db, none⟩
  | .ok true disk => start.serve disk.db
  | .ok false disk =>
      match disk.db with
      | none => ⟨none, none⟩
      | some db =>
          match scanDirectories start.fs start.turns directories
              ⟨⟨db, [], disk.outcomes⟩, {}, []⟩ with
          | .error _ world => ⟨some world.store.db, none⟩
          | .ok _ world => start.serve (some world.store.db)

/-- The database after a sequence of starts, the latest of them first. -/
def diskAfter [ArtworkSorter] (directories : List DirectoryConfig) : List Start → Option Db
  | [] => none
  | start :: earlier => (main directories start (diskAfter directories earlier)).db

section Recovery

variable {directories : List DirectoryConfig} {fs : FileSystem}

/-- The library of an uninterrupted first start over `fs`, up to ids and the
order of children. -/
structure Recovered [ArtworkSorter] (directories : List DirectoryConfig) (fs : FileSystem)
    (served : Db) : Prop where
  root_stored : ∃ root, objectAt served rootKey = some root ∧ root.IsContainer
  scanned : ∃ turns db rename, (main directories ⟨fs, turns, [], false⟩ none).served = some db ∧
    LibraryIso rename db served

/-- Nothing fails while the start opens the database and scans: its operations
succeed, it can read every directory and sees the files of `fs`, and the ids
stay in their range. -/
structure Start.Unhindered [ArtworkSorter] (directories : List DirectoryConfig)
    (fs : FileSystem) (start : Start) : Prop where
  applied : AllApplied start.outcomes
  readable : ∀ dir ∈ directories, fs.FiniteTree dir.path
  sameTree : fs.SameTree start.fs
  walks : ∃ orders, Walks start.fs directories start.turns orders

/-- A start that finds no database fails before it has created one, or not at
all. -/
def Start.Safe [ArtworkSorter] (directories : List DirectoryConfig) (fs : FileSystem)
    (start : Start) (disk : Option Db) : Prop :=
  disk = none →
    (∃ outcome ∈ start.outcomes.take 2, outcome ≠ .applied) ∨ start.Unhindered directories fs

/-- Every start of the sequence is safe on the disk it finds. -/
def SafeStarts [ArtworkSorter] (directories : List DirectoryConfig) (fs : FileSystem) :
    List Start → Prop
  | [] => True
  | start :: earlier => start.Safe directories fs (diskAfter directories earlier) ∧
      SafeStarts directories fs earlier

theorem openDb_of_allApplied {outcomes : List Outcome} (h : AllApplied outcomes) :
    openDb ⟨none, outcomes⟩ = .ok false ⟨some newDb, outcomes.drop 3⟩ := by
  have hnext : ∀ (db : Option Db) (rest : List Outcome), AllApplied rest →
      Disk.next ⟨db, rest⟩ = (.applied, ⟨db, rest.tail⟩) := by
    intro db rest hrest
    cases rest with
    | nil => rfl
    | cons outcome rest =>
        obtain rfl := hrest outcome List.mem_cons_self
        rfl
  have hdrop : outcomes.tail.tail.tail = outcomes.drop 3 := by
    rw [← List.drop_one, ← List.drop_one, ← List.drop_one, List.drop_drop, List.drop_drop]
  simp only [openDb, bind_apply, openExisting, hnext none outcomes h, createDb,
    hnext none _ h.tail, putRootContainer, hnext _ _ h.tail.tail, pure_apply, hdrop]
  rfl

/-- A start that fails this early leaves no database. -/
theorem openDb_of_early_failure {outcomes : List Outcome}
    (h : ∃ outcome ∈ outcomes.take 2, outcome ≠ .applied) :
    ∃ error disk, openDb ⟨none, outcomes⟩ = .error error disk ∧ disk.db = none := by
  obtain ⟨outcome, hmem, hne⟩ := h
  cases outcomes with
  | nil => simp at hmem
  | cons first rest =>
      cases first with
      | failed => exact ⟨_, _, rfl, rfl⟩
      | interrupted => exact ⟨_, _, rfl, rfl⟩
      | applied =>
          cases rest with
          | nil =>
              obtain rfl : outcome = .applied := by simpa using hmem
              exact absurd rfl hne
          | cons second rest =>
              cases second with
              | failed => exact ⟨_, _, rfl, rfl⟩
              | interrupted => exact ⟨_, _, rfl, rfl⟩
              | applied =>
                  obtain rfl : outcome = .applied := by simpa using hmem
                  exact absurd rfl hne

/-- An existing database is left as it is, and served unless something fails. -/
theorem main_some [ArtworkSorter] (start : Start) (db : Db) :
    (main directories start (some db)).db = some db ∧
      ∀ served, (main directories start (some db)).served = some served → served = db := by
  cases hopen : openDb ⟨some db, start.outcomes⟩ with
  | error error disk =>
      have hdisk : disk.db = some db := by
        have hdb := Disk.next_db ⟨some db, start.outcomes⟩
        rcases hnext : Disk.next ⟨some db, start.outcomes⟩ with ⟨outcome, next⟩
        rw [hnext] at hdb
        cases outcome <;> simp only [openDb, openExisting, hnext, bind_apply] at hopen
        · rw [hdb] at hopen
          simp at hopen
        · obtain ⟨-, rfl⟩ := EStateM.Result.error.inj hopen
          exact hdb
        · obtain ⟨-, rfl⟩ := EStateM.Result.error.inj hopen
          exact hdb
      simp [main, hopen, hdisk]
  | ok existed disk =>
      rcases openDb_eq_ok hopen with ⟨rfl, -, hdisk⟩ | ⟨-, hnone, -⟩
      · refine ⟨by simp [main, hopen, hdisk, Start.serve], fun served hserved => ?_⟩
        simp only [main, hopen, hdisk, Start.serve] at hserved
        split at hserved
        · simp at hserved
        · exact (Option.some.inj hserved).symm
      · simp at hnone

theorem Library.exists_root {files : FileInfo → Prop} {db : Db} (h : Library files db) :
    ∃ root, objectAt db rootKey = some root ∧ root.IsContainer := by
  obtain ⟨node, hnode, hchildren⟩ := h.tree.root_stored
  obtain ⟨root, hroot, rfl⟩ := Option.map_eq_some_iff.mp hnode
  exact ⟨root, hroot, isContainer_of_nodeOf hchildren⟩

variable [ArtworkSorter]

/-- Where nothing fails, the start is the scan of a new database. -/
theorem main_none_of_allApplied {start : Start} {next : World}
    (happlied : AllApplied start.outcomes)
    (hrun : scanDirectories start.fs start.turns directories
      ⟨⟨newDb, [], start.outcomes.drop 3⟩, {}, []⟩ = .ok ⟨⟩ next) :
    main directories start none = start.serve (some next.store.db) := by
  simp only [main, openDb_of_allApplied happlied, hrun]

/-- Where nothing fails, the new database holds a complete library. -/
theorem main_none_of_unhindered {start : Start} (h : start.Unhindered directories fs) :
    ∃ db, Recovered directories fs db ∧ main directories start none = start.serve (some db) := by
  obtain ⟨orders, hwalks⟩ := h.walks
  have hnone : AllApplied [] := by simp [AllApplied]
  have hdrop : AllApplied (start.outcomes.drop 3) := fun outcome hmem =>
    h.applied outcome (List.mem_of_mem_drop hmem)
  have htrees : ∀ dir ∈ directories, start.fs.FiniteTree dir.path := fun dir hdir =>
    finiteTree_sameTree h.sameTree (h.readable dir hdir)
  obtain ⟨firstOrders, hfirst, hperm⟩ := Walks.sameTree h.readable h.sameTree hwalks
  obtain ⟨first, hfirstRun, hfirstLibrary⟩ := scanDirectories_newDb hfirst h.readable hnone
  obtain ⟨next, hrun, hlibrary⟩ := scanDirectories_newDb hwalks htrees hdrop
  have hserved : (main directories ⟨fs, start.turns, [], false⟩ none).served =
      some first.store.db := by
    rw [main_none_of_allApplied hnone hfirstRun]
    rfl
  refine ⟨next.store.db, ?_, main_none_of_allApplied h.applied hrun⟩
  cases hdirs : directories with
  | nil =>
      subst hdirs
      have hdb : next.store.db = newDb := by
        rw [← (EStateM.Result.ok.inj hrun).2]
      have hdbFirst : first.store.db = newDb := by
        rw [← (EStateM.Result.ok.inj hfirstRun).2]
      rw [hdb]
      rw [hdbFirst] at hserved
      exact ⟨(library_newDb fun _ => True).exists_root, _, _, _, hserved, LibraryIso.refl newDb⟩
  | cons dir rest =>
      have hne : directories ≠ [] := by simp [hdirs]
      rw [← hdirs]
      obtain ⟨origin, horigin, -, hnext⟩ := hlibrary.resolve_left fun hnil => hne hnil.1
      obtain ⟨origin', horigin', hvalid, hfirstNext⟩ :=
        hfirstLibrary.resolve_left fun hnil => hne hnil.1
      obtain rfl := horigin.unique horigin'
      obtain ⟨rename, hiso⟩ := hfirstNext.iso h.sameTree hvalid hnext hperm
      exact ⟨hnext.scanning.library.exists_root, _, _, rename, hserved, hiso⟩

/-- What a start keeps: the disk holds no database or a complete library. -/
theorem Start.Safe.main {start : Start} {disk : Option Db}
    (hsafe : start.Safe directories fs disk)
    (hdisk : ∀ db, disk = some db → Recovered directories fs db) :
    (∀ db, (main directories start disk).db = some db → Recovered directories fs db) ∧
      ∀ served, (Eems.main directories start disk).served = some served →
        Recovered directories fs served := by
  cases disk with
  | some db =>
      have hdb := hdisk db rfl
      obtain ⟨hkept, hserved⟩ := @main_some directories _ start db
      refine ⟨fun next hnext => ?_, fun served h => hserved served h ▸ hdb⟩
      rw [hkept] at hnext
      exact Option.some.inj hnext ▸ hdb
  | none =>
      rcases hsafe rfl with hearly | hunhindered
      · obtain ⟨error, next, hopen, hnone⟩ := openDb_of_early_failure hearly
        simp [Eems.main, hopen, hnone]
      · obtain ⟨db, hrecovered, hmain⟩ := main_none_of_unhindered hunhindered
        rw [hmain]
        refine ⟨fun next hnext => ?_, fun served h => ?_⟩
        · exact Option.some.inj hnext ▸ hrecovered
        · simp only [Start.serve] at h
          split at h
          · simp at h
          · exact Option.some.inj h ▸ hrecovered

theorem SafeStarts.diskAfter {starts : List Start} (h : SafeStarts directories fs starts) {db : Db}
    (hdb : diskAfter directories starts = some db) : Recovered directories fs db := by
  induction starts generalizing db with
  | nil => simp [Eems.diskAfter] at hdb
  | cons start earlier ih => exact (h.1.main fun db => ih h.2).1 db hdb

/-- After any sequence of safe starts, a start that serves serves the complete
library. -/
theorem served_recovered {start : Start} {earlier : List Start} {served : Db}
    (hsafe : SafeStarts directories fs (start :: earlier))
    (hserved : (main directories start (diskAfter directories earlier)).served = some served) :
    Recovered directories fs served :=
  (hsafe.1.main fun _ => hsafe.2.diskAfter).2 served hserved

end Recovery

def filmDirectories : List DirectoryConfig := [⟨ascii "films", {}⟩]

theorem walks_films :
    @Walks insertionSorter filmFilesReversed filmDirectories 2 fun _ => [[], [ascii "more"]] := by
  have hroot : (siteAt filmFilesReversed filmDirectories 0).Visits [[]] [[], [ascii "more"]] := by
    have hrootDirs : ((siteAt filmFilesReversed filmDirectories 0).subdirs []).reverse ++ [] =
      [[ascii "more"]] := by decide
    have hmoreDirs : ((siteAt filmFilesReversed filmDirectories 0).subdirs
      [ascii "more"]).reverse ++ [] = [] := by decide
    refine .turn (Option.some_get (by decide)).symm ?_
    rw [hrootDirs]
    refine .turn (Option.some_get (by decide)).symm ?_
    rw [hmoreDirs]
    exact .done
  refine @Walks.mk insertionSorter _ _ _ _ ?_ ?_ (by decide +kernel) (by decide +kernel)
  · intro i hi
    obtain rfl : i = 0 := by simpa [filmDirectories] using hi
    exact hroot
  · exact fun i _ => le_rfl

/-- The first start cannot create the database, the second one is killed after
its scan, the third one serves what the second one left. -/
def filmStarts : List Start :=
  [⟨filmFilesReversed, 2, [.applied], true⟩, ⟨filmFiles, 2, [.applied, .failed], false⟩]

theorem served_recovered_films :
    ∃ served,
      (@main insertionSorter filmDirectories ⟨filmFiles, 2, [], false⟩
        (@diskAfter insertionSorter filmDirectories filmStarts)).served = some served ∧
      @Recovered insertionSorter filmDirectories filmFiles served := by
  have hserved : (@main insertionSorter filmDirectories ⟨filmFiles, 2, [], false⟩
      (@diskAfter insertionSorter filmDirectories filmStarts)).served.isSome := by
    decide +kernel
  have hstored : (@diskAfter insertionSorter filmDirectories filmStarts).isSome := by
    decide +kernel
  have hunhindered : @Start.Unhindered insertionSorter filmDirectories filmFiles
      ⟨filmFilesReversed, 2, [.applied], true⟩ :=
    @Start.Unhindered.mk insertionSorter _ _ _ (by simp [AllApplied])
      (by simpa [filmDirectories] using finiteTree_films) sameTree_films ⟨_, walks_films⟩
  obtain ⟨served, hserved⟩ := Option.isSome_iff_exists.mp hserved
  refine ⟨served, hserved, @served_recovered filmDirectories filmFiles insertionSorter _ filmStarts
    _ ⟨fun hnone => ?_, fun _ => Or.inr hunhindered, fun _ => Or.inl ?_, trivial⟩ hserved⟩
  · rw [hnone] at hstored
    simp at hstored
  · exact ⟨.failed, by decide, by decide⟩

/-- A start killed between the creation of the database and the write of its
root: the next one serves the empty database. -/
theorem served_not_recovered :
    ∃ served,
      (@main insertionSorter filmDirectories ⟨filmFiles, 2, [], false⟩
        (@diskAfter insertionSorter filmDirectories
          [⟨filmFiles, 2, [.applied, .applied, .interrupted], false⟩])).served = some served ∧
      ¬ @Recovered insertionSorter filmDirectories filmFiles served := by
  refine ⟨OrderedMap.empty, rfl, fun h => ?_⟩
  obtain ⟨root, hroot, -⟩ := @Recovered.root_stored insertionSorter _ _ _ h
  simp [objectAt] at hroot

end Eems

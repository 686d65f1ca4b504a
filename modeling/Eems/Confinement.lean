/-
What is served comes from below the roots that were scanned.  Neither the
library nor any reply depends on a directory outside of them, or on a file
that no scan has found.
-/
import Eems.ContentUrls
import Eems.Server

namespace Eems

open Hoare

/-- The directories of the tree with root `root`, readable or not. -/
inductive FileSystem.Below (fs : FileSystem) (root : Path) : Path → Prop
  | root : Below fs root root
  | entry {path : Path} {list : List DirEntry} {entry : DirEntry} (above : Below fs root path)
      (readable : fs.entries path = some list) (held : entry ∈ list)
      (directory : entry.type = .directory) : Below fs root (Path.append path entry.name)

/-- The same directories are found below the root. -/
def FileSystem.AgreeBelow (fs other : FileSystem) (root : Path) : Prop :=
  ∀ path, fs.Below root path → other.entries path = fs.entries path

/-- The file lies in a directory below the root. -/
def FileSystem.HasFileBelow (fs : FileSystem) (root : Path) (info : FileInfo) : Prop :=
  ∃ path entries entry name, fs.Below root path ∧ fs.entries path = some entries ∧
    entry ∈ entries ∧ fileEntry path (fun _ => true) entry = some (name, info)

section Scans

variable {fs other : FileSystem} {root path : Path}

/-- The subdirectories that a directory leaves pending lie below the root. -/
theorem FileSystem.Below.directories (h : fs.Below root path) {content : DirectoryContent}
    (hread : readDirectory fs path = .ok content) :
    ∀ directory ∈ content.directories, fs.Below root directory := by
  unfold readDirectory at hread
  cases hentries : fs.entries path with
  | none => simp [hentries] at hread
  | some entries =>
      obtain rfl : readContent path entries = content := by simpa [hentries] using hread
      rw [readContent_eq]
      intro directory hdirectory
      obtain ⟨entry, hentry, rfl⟩ := List.mem_map.mp hdirectory
      obtain ⟨hheld, htype⟩ := List.mem_filter.mp hentry
      exact .entry h hentries hheld (by simpa using htype)

/-- Whatever the parents are, the pending directories are those of the
directory. -/
theorem assignParents_directories {config : MoviesLibraryConfig} {content : DirectoryContent}
    {parent : ObjectKey} :
    Triple (fun _ => True) (assignParents path config content parent)
      (fun assigned _ => ∀ directory ∈ assigned.2, directory.1 ∈ content.directories)
      (fun _ _ => True) := by
  have hpaths : ∀ key : ObjectKey,
      ∀ directory ∈ content.directories.map fun directory => (directory, key),
        directory.1 ∈ content.directories := by
    intro key directory hdirectory
    obtain ⟨path, hpath, rfl⟩ := List.mem_map.mp hdirectory
    exact hpath
  unfold assignParents
  split
  · apply Triple.bind Triple.keep
    intro key
    exact Triple.pure fun _ _ => hpaths _
  · exact Triple.pure fun _ _ => hpaths _

theorem scanDirectory_below [ArtworkSorter] (hpath : fs.Below root path)
    {config : MoviesLibraryConfig} {parent : ObjectKey} :
    Triple (fun _ => True) (scanDirectory fs path config parent)
      (fun directories _ => ∀ directory ∈ directories, fs.Below root directory.1)
      (fun _ _ => True) := by
  unfold scanDirectory
  apply Triple.bind Triple.keep
  intro _ world _
  cases hread : readDirectory fs path with
  | error failure => exact True.intro
  | ok content =>
      rw [bind_apply, fromExcept_ok_apply]
      have hbelow := hpath.directories hread
      have hrest : Triple (fun _ => True) (do
          let assigned ← assignParents path config content parent
          storeVideos (composerOf path config content assigned.1) content.videos.entries
          pure assigned.2)
          (fun directories _ => ∀ directory ∈ directories, fs.Below root directory.1)
          (fun _ _ => True) := by
        apply Triple.bind assignParents_directories
        intro assigned
        apply Triple.bind Triple.keep
        intro _
        apply Triple.pure
        intro _ hdirectories directory hdirectory
        exact hbelow _ (hdirectories directory hdirectory)
      exact hrest world True.intro

variable (hagree : fs.AgreeBelow other root)

include hagree in
theorem readDirectory_agree (hpath : fs.Below root path) :
    readDirectory other path = readDirectory fs path := by
  simp only [readDirectory, hagree path hpath]

include hagree in
theorem scanDirectory_agree [ArtworkSorter] (hpath : fs.Below root path)
    (config : MoviesLibraryConfig) (parent : ObjectKey) :
    scanDirectory other path config parent = scanDirectory fs path config parent := by
  simp only [scanDirectory, readDirectory_agree hagree hpath]

include hagree in
/-- The pending directories all lie below the root, and so does what a turn
adds to them. -/
theorem scanLoop_agree [ArtworkSorter] (originalConfig : MoviesLibraryConfig) (turns : Nat)
    (config : MoviesLibraryConfig) {directories : List (Path × ObjectKey)}
    (hdirectories : ∀ directory ∈ directories, fs.Below root directory.1) (world : World) :
    scanLoop other originalConfig turns config directories world =
      scanLoop fs originalConfig turns config directories world := by
  induction turns generalizing config directories world with
  | zero => cases directories <;> rfl
  | succ turns ih =>
      cases directories with
      | nil => rfl
      | cons head rest =>
          obtain ⟨path, parent⟩ := head
          have hhead := hdirectories (path, parent) List.mem_cons_self
          simp only [scanLoop, scanDirectory_agree hagree hhead]
          apply Triple.bind_congr (scanDirectory_below hhead) ?_ True.intro
          intro new next hnew
          apply ih
          intro directory hdirectory
          rcases List.mem_append.mp hdirectory with hmem | hmem
          · exact hnew directory (List.mem_reverse.mp hmem)
          · exact hdirectories directory (List.mem_cons_of_mem _ hmem)

include hagree in
theorem scanAll_agree [ArtworkSorter] (turns : Nat) (config : MoviesLibraryConfig) :
    scanAll other turns root config = scanAll fs turns root config := by
  have hloop : ∀ folder : ObjectKey,
      scanLoop other config turns { config with useCollections := false } [(root, folder)] =
        scanLoop fs config turns { config with useCollections := false } [(root, folder)] := by
    intro folder
    funext world
    apply scanLoop_agree hagree
    simpa using FileSystem.Below.root
  simp only [scanAll, hloop]

end Scans

/-- The same call, made where the same is found below its root. -/
structure ScanCall.SameBelow (call other : ScanCall) : Prop where
  scanner : other.scanner = call.scanner
  turns : other.turns = call.turns
  root : other.root = call.root
  config : other.config = call.config
  outcomes : other.outcomes = call.outcomes
  agree : call.fs.AgreeBelow other.fs call.root

/-- The files that the calls of a run could find below their roots. -/
def FoundByCalls (calls : List ScanCall) (info : FileInfo) : Prop :=
  ∃ call ∈ calls, call.fs.HasFileBelow call.root info

theorem forall₂_concat {A B : Type} {R : A → B → Prop} {front : List A} {last : A}
    {list : List B} (h : List.Forall₂ R (front ++ [last]) list) :
    ∃ front' last', List.Forall₂ R front front' ∧ R last last' ∧ list = front' ++ [last'] := by
  induction front generalizing list with
  | nil =>
      obtain ⟨last', rest, hlast, hrest, rfl⟩ := List.forall₂_cons_left_iff.mp h
      obtain rfl := List.forall₂_nil_left_iff.mp hrest
      exact ⟨[], last', .nil, hlast, rfl⟩
  | cons head front ih =>
      obtain ⟨head', rest, hhead, hrest, rfl⟩ := List.forall₂_cons_left_iff.mp h
      obtain ⟨front', last', hfront, hlast, rfl⟩ := ih hrest
      exact ⟨head' :: front', last', .cons hhead hfront, hlast, rfl⟩

section Runs

variable [ArtworkSorter] {calls others : List ScanCall} {system : System}

theorem ScanCall.SameBelow.after {call other : ScanCall} (h : call.SameBelow other)
    (system : System) : system.after other = system.after call := by
  obtain ⟨scanner, fs, turns, root, config, outcomes⟩ := call
  obtain ⟨scanner', fs', turns', root', config', outcomes'⟩ := other
  obtain ⟨rfl, rfl, rfl, rfl, rfl, hagree⟩ := h
  simp only [System.after, System.world, scanAll_agree hagree]

/-- What lies outside of the roots leaves no trace in the library. -/
theorem Reachable.sameBelow (h : Reachable calls system)
    (hsame : List.Forall₂ ScanCall.SameBelow calls others) : Reachable others system := by
  induction h generalizing others with
  | opened completed =>
      cases hsame
      exact .opened completed
  | @scan calls system before call fits ih =>
      obtain ⟨front, last, hfront, hlast, rfl⟩ := forall₂_concat hsame
      have hafter := hlast.after system
      have hscan : system.scan last = system.scan call := by
        simp only [System.scan, hafter, hlast.scanner]
      rw [← hscan]
      exact .scan (ih hfront) last (by simpa [System.IdsFit, hafter] using fits)

end Runs

open Classical in
/-- The file system with nothing but the tree below the root. -/
noncomputable def FileSystem.confine (fs : FileSystem) (root : Path) : FileSystem where
  entries path := if fs.Below root path then fs.entries path else none
  paths_valid path list h := fs.paths_valid path list (by split at h <;> simp_all)
  names_nodup path list h := fs.names_nodup path list (by split at h <;> simp_all)
  names_valid path list h := fs.names_valid path list (by split at h <;> simp_all)

noncomputable def ScanCall.confine (call : ScanCall) : ScanCall :=
  { call with fs := call.fs.confine call.root }

theorem ScanCall.sameBelow_confine (call : ScanCall) : call.SameBelow call.confine :=
  ⟨rfl, rfl, rfl, rfl, rfl, fun _ hpath => if_pos hpath⟩

theorem FileSystem.hasFileBelow_of_confine {fs : FileSystem} {root : Path} {info : FileInfo}
    (h : (fs.confine root).HasFile info) : fs.HasFileBelow root info := by
  obtain ⟨path, entries, entry, name, hentries, hentry, hfile⟩ := h
  unfold FileSystem.confine at hentries
  simp only at hentries
  split at hentries
  · rename_i hbelow
    exact ⟨path, entries, entry, name, hbelow, hentries, hentry, hfile⟩
  · simp at hentries

/-- Every file that the library refers to was found below a root. -/
theorem Reachable.foundLibrary [ArtworkSorter] {calls : List ScanCall} {system : System}
    (h : Reachable calls system) : Library (FoundByCalls calls) system.db := by
  have hconfined : Reachable (calls.map ScanCall.confine) system := by
    apply h.sameBelow
    rw [List.forall₂_map_right_iff]
    exact List.forall₂_same.mpr fun call _ => call.sameBelow_confine
  apply hconfined.library.mono
  rintro info ⟨confined, hmem, hfile⟩
  obtain ⟨call, hcall, rfl⟩ := List.mem_map.mp hmem
  exact ⟨call, hcall, FileSystem.hasFileBelow_of_confine hfile⟩

section Replies

variable {files : FileInfo → Prop} {db : Db} {left right : Files}
  (hlibrary : Library files db) (hfiles : ∀ info, files info → (0 : UInt8) ∉ info.path)
  (hagree : ∀ info, files info → left info.path = right info.path)

include hlibrary hfiles in
/-- The locations that requests lead to are those of the library's files. -/
theorem resourceLocation_file {id : Int} {subPath location : Path}
    (h : resourceLocation db id subPath = .ok location) :
    ∃ info, files info ∧ location = info.path := by
  unfold resourceLocation at h
  split at h
  · simp at h
  · simp at h
  · rename_i resource hresource
    obtain ⟨info, hinfo, rfl⟩ :=
      hlibrary.resource_file _ resource (getResource_eq_some_iff.mp hresource)
    refine ⟨info, hinfo, ?_⟩
    simpa [resourceOf, asCString_putString (hfiles info hinfo), eq_comm] using h

include hlibrary hfiles hagree in
theorem createResponse_agree (subPath : Path) (request : HttpRequest) :
    createResponse db left subPath request = createResponse db right subPath request := by
  unfold createResponse
  split
  · rfl
  · rename_i id _
    cases requestRange request with
    | error error => rfl
    | ok range =>
        cases hlocation : resourceLocation db id subPath with
        | error error => rfl
        | ok location =>
            obtain ⟨info, hinfo, rfl⟩ := resourceLocation_file hlibrary hfiles hlocation
            simp only [openFile, hagree info hinfo, bind, Except.bind]

include hlibrary hfiles hagree in
theorem Server.handle_agree (pugi : PugiXml) (config : ServerConfig) (fuel : Nat)
    (arrival : Arrival) :
    Server.handle ⟨pugi, config, db, left⟩ fuel arrival =
      Server.handle ⟨pugi, config, db, right⟩ fuel arrival := by
  unfold Server.handle
  simp only [createResponse_agree hlibrary hfiles hagree]
  rfl

include hlibrary hfiles hagree in
theorem Server.handleConnections_agree (pugi : PugiXml) (config : ServerConfig) (fuel : Nat)
    (arrivals : List Arrival) :
    Server.handleConnections ⟨pugi, config, db, left⟩ fuel arrivals =
      Server.handleConnections ⟨pugi, config, db, right⟩ fuel arrivals := by
  induction arrivals with
  | nil => rfl
  | cons arrival rest ih =>
      simp only [handleConnections, ih,
        Server.handle_agree hlibrary hfiles hagree pugi config fuel arrival]

end Replies

theorem FoundByCalls.zero_notMem {calls : List ScanCall} {info : FileInfo}
    (h : FoundByCalls calls info) : (0 : UInt8) ∉ info.path := by
  obtain ⟨call, -, path, entries, entry, name, -, hfile⟩ := h
  exact FileSystem.HasFile.zero_notMem ⟨path, entries, entry, name, hfile⟩

/-- Whatever is scanned and however the scans end: what lies outside of the
roots changes nothing in the library, and no sequence of requests can tell
apart two hosts on which the found files are the same. -/
theorem reachable_confined [ArtworkSorter] {calls others : List ScanCall} {system : System}
    (h : Reachable calls system) (hsame : List.Forall₂ ScanCall.SameBelow calls others) :
    Reachable others system ∧
      ∀ left right : Files,
        (∀ info, FoundByCalls calls info → left info.path = right info.path) →
        ∀ pugi config fuel arrivals,
          Server.handleConnections ⟨pugi, config, system.db, left⟩ fuel arrivals =
            Server.handleConnections ⟨pugi, config, system.db, right⟩ fuel arrivals := by
  refine ⟨h.sameBelow hsame, ?_⟩
  intro left right hagree pugi config fuel arrivals
  exact Server.handleConnections_agree h.foundLibrary (fun _ hfound => hfound.zero_notMem)
    hagree pugi config fuel arrivals

/-- The films beside a directory that is nobody's business. -/
def sharedFiles : FileSystem :=
  .ofTable
    [(ascii "films",
        [⟨ascii "Alien.1979.mkv", .regular⟩, ⟨ascii "Brazil.avi", .regular⟩,
          ⟨ascii "poster.jpg", .regular⟩, ⟨ascii "more", .directory⟩]),
      (ascii "films/more",
        [⟨ascii "Cube.mp4", .regular⟩, ⟨ascii "Cube.srt", .regular⟩]),
      (ascii "private", [⟨ascii "Diary.mp4", .regular⟩])]
    (by decide) (by decide) (by decide)

/-- Everything that the two directories hold. -/
theorem held_films {path : Path} (hpath : path = ascii "films" ∨ path = ascii "films/more")
    {list : List DirEntry} (hentries : filmFiles.entries path = some list) {entry : DirEntry}
    (hentry : entry ∈ list) :
    (Path.append path entry.name, entry.type) ∈
      [(ascii "films/Alien.1979.mkv", .regular), (ascii "films/Brazil.avi", .regular),
        (ascii "films/poster.jpg", .regular), (ascii "films/more", .directory),
        (ascii "films/more/Cube.mp4", .regular), (ascii "films/more/Cube.srt", .regular)] := by
  rcases hpath with rfl | rfl
  · obtain rfl : [⟨ascii "Alien.1979.mkv", .regular⟩, ⟨ascii "Brazil.avi", .regular⟩,
      ⟨ascii "poster.jpg", .regular⟩, ⟨ascii "more", .directory⟩] = list :=
        Option.some.inj hentries
    revert entry
    decide
  · obtain rfl : [⟨ascii "Cube.mp4", .regular⟩, ⟨ascii "Cube.srt", .regular⟩] = list :=
      Option.some.inj hentries
    revert entry
    decide

theorem below_films {path : Path} (h : filmFiles.Below (ascii "films") path) :
    path = ascii "films" ∨ path = ascii "films/more" := by
  induction h with
  | root => exact Or.inl rfl
  | entry above readable held directory ih =>
      have hheld := held_films ih readable held
      rw [directory] at hheld
      simp only [List.mem_cons, Prod.mk.injEq, reduceCtorEq, and_false, false_or, and_true,
        List.not_mem_nil, or_false] at hheld
      exact Or.inr hheld

theorem sameBelow_shared : filmCall.SameBelow { filmCall with fs := sharedFiles } := by
  refine ⟨rfl, rfl, rfl, rfl, rfl, ?_⟩
  intro path hpath
  rcases below_films hpath with rfl | rfl
  · rfl
  · rfl

theorem private_not_found {info : FileInfo} (h : FoundByCalls [filmCall] info) :
    info.path ≠ ascii "private/Diary.mp4" := by
  obtain ⟨call, hcall, path, list, entry, name, hbelow, hentries, hentry, hfile⟩ := h
  obtain rfl := List.mem_singleton.mp hcall
  have hheld := held_films (below_films hbelow) hentries hentry
  rw [(fileEntry_eq_some hfile).2.2.1]
  intro heq
  rw [heq] at hheld
  have hpath : ascii "private/Diary.mp4" ∈ List.map Prod.fst _ :=
    List.mem_map_of_mem (f := Prod.fst) hheld
  exact absurd hpath (by decide)

theorem reachable_confined_films :
    @Reachable insertionSorter [{ filmCall with fs := sharedFiles }] filmSystem ∧
      ∀ diary : Opened, ∀ pugi config fuel arrivals,
        Server.handleConnections ⟨pugi, config, filmSystem.db, fun _ => .noSuchFile⟩ fuel
            arrivals =
          Server.handleConnections ⟨pugi, config, filmSystem.db,
            fun path => if path = ascii "private/Diary.mp4" then diary else .noSuchFile⟩ fuel
            arrivals := by
  obtain ⟨hreachable, hserved⟩ := @reachable_confined insertionSorter _ _ _ reachable_films
    (.cons sameBelow_shared .nil)
  refine ⟨hreachable, ?_⟩
  intro diary
  apply hserved
  intro info hfound
  rw [if_neg (private_not_found hfound)]

end Eems

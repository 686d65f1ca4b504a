/-
Where a scan is meant to file what it finds, by recursion over the directory
tree, and the order in which a stack of pending directories visits the tree.
-/
import Eems.MovieScanner

namespace Eems

open Relation

/-- A directory of a tree: the names from it up to, but without, the root. -/
abbrev Addr := List Bytes

/-- What a scan files: the collection made for a directory, or the item of one
of its videos. -/
inductive Placed where
  | collection (dir : Addr)
  | video (dir : Addr) (file : Bytes × FileInfo)
deriving DecidableEq

/-- The directory something is filed for. -/
def Placed.dir : Placed → Addr
  | .collection dir => dir
  | .video dir _ => dir

/-- A directory tree and the configuration it is scanned with. -/
structure Site where
  fs : FileSystem
  root : Path
  config : MoviesLibraryConfig

namespace Site

variable (site : Site)

def path : Addr → Path
  | [] => site.root
  | name :: dir => Path.append (path dir) name

/-- What a directory enumerates. -/
def entries (dir : Addr) : List DirEntry := (site.fs.entries (site.path dir)).getD []

def content (dir : Addr) : DirectoryContent := readContent (site.path dir) (site.entries dir)

def subdirs (dir : Addr) : List Addr :=
  (subdirectories (site.entries dir)).map fun entry => entry.name :: dir

def videos (dir : Addr) : List (Bytes × FileInfo) := (site.content dir).videos.entries

def folderArtwork (dir : Addr) : Option FileInfo × ArtworkType :=
  getFolderArtwork (site.content dir).artwork

/-- A directory gets a collection when it is not the root, collections are
wanted, and it has at least two videos, or none but folder artwork and a
subdirectory. -/
def MakesCollection (dir : Addr) : Prop :=
  dir ≠ [] ∧ site.config.useCollections ∧
    (2 ≤ (site.videos dir).length ∨
      site.videos dir = [] ∧ (site.folderArtwork dir).1.isSome ∧ site.subdirs dir ≠ [])

instance (dir : Addr) : Decidable (site.MakesCollection dir) :=
  inferInstanceAs (Decidable (_ ∧ _ ∧ _))

/-- The container that waits for a directory; `none` is the `Movies` container. -/
def incoming : Addr → Option Placed
  | [] => none
  | _ :: dir =>
      if site.MakesCollection dir ∧ (site.folderArtwork dir).1.isSome then some (.collection dir)
      else incoming dir

/-- The container in which a directory's videos are filed. -/
def own (dir : Addr) : Option Placed :=
  if site.MakesCollection dir then some (.collection dir) else site.incoming dir

/-- The configuration a directory is scanned with. -/
def configAt : Addr → MoviesLibraryConfig
  | [] => { site.config with useCollections := false }
  | _ :: _ => site.config

def composer (dir : Addr) (parent : ObjectKey) : ObjectComposer :=
  composerOf (site.path dir) site.config (site.content dir) parent

/-- `child` is enumerated as a subdirectory of `dir`. -/
def Subdir (dir child : Addr) : Prop := child ∈ site.subdirs dir

/-- The directories below the root, and the root. -/
def InTree (dir : Addr) : Prop := ReflTransGen site.Subdir [] dir

/-- What is filed when a directory is scanned, in the order of filing. -/
def additions (dir : Addr) : List Placed :=
  (if site.MakesCollection dir then [.collection dir] else []) ++
    (site.videos dir).map (.video dir)

/-- The directory of a pending stack is read and gives way to its
subdirectories, the last enumerated first. -/
inductive Visits : List Addr → List Addr → Prop
  | done : Visits [] []
  | turn {dir : Addr} {list : List DirEntry} {pending order : List Addr}
      (readable : site.fs.entries (site.path dir) = some list)
      (rest : Visits ((site.subdirs dir).reverse ++ pending) order) :
      Visits (dir :: pending) (dir :: order)

variable {site}

theorem dir_of_mem_additions {dir : Addr} {placed : Placed}
    (h : placed ∈ site.additions dir) : placed.dir = dir := by
  unfold additions at h
  rcases List.mem_append.mp h with hmem | hmem
  · split at hmem
    · rw [List.mem_singleton.mp hmem]
      rfl
    · simp at hmem
  · obtain ⟨file, -, rfl⟩ := List.mem_map.mp hmem
    rfl

@[simp] theorem collection_mem_additions {dir dir' : Addr} :
    Placed.collection dir ∈ site.additions dir' ↔ dir = dir' ∧ site.MakesCollection dir' := by
  unfold additions
  split <;> simp [*]

@[simp] theorem video_mem_additions {dir dir' : Addr} {file : Bytes × FileInfo} :
    Placed.video dir file ∈ site.additions dir' ↔ dir' = dir ∧ file ∈ site.videos dir' := by
  have hmem : Placed.video dir file ∈ (site.videos dir').map (Placed.video dir') ↔
      dir' = dir ∧ file ∈ site.videos dir' := by
    rw [List.mem_map]
    constructor
    · rintro ⟨found, hfound, heq⟩
      obtain ⟨hdir, rfl⟩ := Placed.video.inj heq
      exact ⟨hdir, hfound⟩
    · rintro ⟨rfl, hfile⟩
      exact ⟨file, hfile, rfl⟩
  unfold additions
  split <;> simpa using hmem

theorem exists_collection_of_incoming {dir : Addr} {a : Placed}
    (h : site.incoming dir = some a) : ∃ dir', a = .collection dir' := by
  induction dir with
  | nil => simp [incoming] at h
  | cons name dir ih =>
      rw [incoming] at h
      split at h
      · exact ⟨dir, (Option.some.inj h).symm⟩
      · exact ih h

theorem exists_collection_of_own {dir : Addr} {a : Placed} (h : site.own dir = some a) :
    ∃ dir', a = .collection dir' := by
  rw [own] at h
  split at h
  · exact ⟨dir, (Option.some.inj h).symm⟩
  · exact exists_collection_of_incoming h

theorem content_eq {dir : Addr} {list : List DirEntry}
    (hlist : site.fs.entries (site.path dir) = some list) :
    site.content dir = readContent (site.path dir) list := by
  simp [content, entries, hlist]

theorem directories_content (dir : Addr) :
    (site.content dir).directories = (site.subdirs dir).map site.path := by
  simp [content, readContent_eq, subdirs, path, Function.comp_def]

/-- The scanner's own test for a collection, below the root. -/
theorem addCollection_content {dir : Addr} (hdir : dir ≠ []) :
    (site.config.useCollections && addCollection (site.content dir)) =
      decide (site.MakesCollection dir) := by
  have hempty : (site.content dir).directories = [] ↔ site.subdirs dir = [] := by
    simp [directories_content]
  have hlength : (site.videos dir).length = 0 ↔ site.videos dir = [] := List.length_eq_zero_iff
  rw [Bool.eq_iff_iff]
  simp only [addCollection, Bool.and_eq_true, MakesCollection]
  split
  · rename_i hone
    have hone' : (site.videos dir).length = 1 := hone
    have hsome : site.videos dir ≠ [] := fun h => by simp [h] at hone'
    simp [hone', hsome]
  · split
    · rename_i hmany
      have hmany' : 2 ≤ (site.videos dir).length := hmany
      simp [hdir, hmany']
    · rename_i hone hmany
      have hnone : site.videos dir = [] := by
        rw [← hlength]
        change ¬ (site.videos dir).length = 1 at hone
        change ¬ (site.videos dir).length > 1 at hmany
        omega
      simp [hdir, hnone, hempty, folderArtwork]

theorem composerOf_configAt (dir : Addr) (parent : ObjectKey) :
    composerOf (site.path dir) (site.configAt dir) (site.content dir) parent =
      site.composer dir parent := by
  cases dir <;> rfl

theorem useCollections_configAt (dir : Addr) :
    ((site.configAt dir).useCollections && addCollection (site.content dir)) =
      decide (site.MakesCollection dir) := by
  cases dir with
  | nil => simp [configAt, MakesCollection]
  | cons name dir => exact addCollection_content (by simp)

theorem names_nodup (dir : Addr) : ((site.entries dir).map DirEntry.name).Nodup := by
  unfold entries
  cases hentries : site.fs.entries (site.path dir) with
  | none => simp
  | some list => exact site.fs.names_nodup _ list hentries

theorem names_valid (dir : Addr) : ∀ entry ∈ site.entries dir, ValidName entry.name := by
  unfold entries
  cases hentries : site.fs.entries (site.path dir) with
  | none => simp
  | some list => exact site.fs.names_valid _ list hentries

theorem subdirs_nodup (dir : Addr) : (site.subdirs dir).Nodup := by
  have hnames : ((subdirectories (site.entries dir)).map DirEntry.name).Nodup :=
    (names_nodup dir).sublist (List.filter_sublist.map _)
  have hcons : Function.Injective fun name : Bytes => name :: dir :=
    fun _ _ h => (List.cons.inj h).1
  simpa [subdirs, Function.comp_def] using hnames.map hcons

theorem exists_of_subdir {dir child : Addr} (h : site.Subdir dir child) :
    ∃ name, child = name :: dir ∧ ValidName name := by
  obtain ⟨entry, hentry, rfl⟩ := List.mem_map.mp h
  exact ⟨entry.name, rfl, names_valid dir entry (List.mem_of_mem_filter hentry)⟩

theorem suffix_of_below {dir below : Addr} (h : ReflTransGen site.Subdir dir below) :
    dir <:+ below := by
  induction h with
  | refl => exact List.suffix_rfl
  | tail _ hstep ih =>
      obtain ⟨name, rfl, -⟩ := exists_of_subdir hstep
      exact ih.trans (List.suffix_cons _ _)

/-- Two directories enumerated together have nothing below them in common. -/
theorem eq_of_common_below {dir left right below : Addr} (hleft : site.Subdir dir left)
    (hright : site.Subdir dir right) (hbelowLeft : ReflTransGen site.Subdir left below)
    (hbelowRight : ReflTransGen site.Subdir right below) : left = right := by
  obtain ⟨name, rfl, -⟩ := exists_of_subdir hleft
  obtain ⟨other, rfl, -⟩ := exists_of_subdir hright
  have hsuffix := List.suffix_of_suffix_length_le (suffix_of_below hbelowLeft)
    (suffix_of_below hbelowRight) (by simp)
  exact hsuffix.eq_of_length (by simp)

section Order

/-- Visiting `dirs` first and whatever else is pending later. -/
structure VisitsFirst (site : Site) (dirs order : List Addr) : Prop where
  visits : ∀ pending rest, site.Visits pending rest → site.Visits (dirs ++ pending) (order ++ rest)
  nodup : order.Nodup
  mem_order : ∀ below, below ∈ order ↔ ∃ dir ∈ dirs, ReflTransGen site.Subdir dir below

/-- A stack of directories with nothing in common is visited one after another. -/
theorem exists_visitsFirst {dirs : List Addr} (hnodup : dirs.Nodup)
    (hapart : ∀ left ∈ dirs, ∀ right ∈ dirs, ∀ below, ReflTransGen site.Subdir left below →
      ReflTransGen site.Subdir right below → left = right)
    (heach : ∀ dir ∈ dirs, ∃ order, VisitsFirst site [dir] order) :
    ∃ order, VisitsFirst site dirs order := by
  induction dirs with
  | nil => exact ⟨[], fun _ _ h => h, List.nodup_nil, by simp⟩
  | cons dir dirs ih =>
      obtain ⟨hnotMem, hrest⟩ := List.nodup_cons.mp hnodup
      obtain ⟨first, hfirst⟩ := heach dir List.mem_cons_self
      obtain ⟨order, horder⟩ := ih hrest
        (fun left hleft right hright => hapart left (List.mem_cons_of_mem _ hleft) right
          (List.mem_cons_of_mem _ hright))
        fun other hother => heach other (List.mem_cons_of_mem _ hother)
      refine ⟨first ++ order, ?_, ?_, ?_⟩
      · intro pending rest hpending
        rw [List.append_assoc]
        exact hfirst.visits _ _ (horder.visits _ _ hpending)
      · refine List.nodup_append.mpr ⟨hfirst.nodup, horder.nodup, ?_⟩
        rintro below hbelow _ hother rfl
        obtain ⟨_, hmem, hleft⟩ := (hfirst.mem_order below).mp hbelow
        obtain rfl := List.mem_singleton.mp hmem
        obtain ⟨right, hright, hbelowRight⟩ := (horder.mem_order below).mp hother
        have hsame := hapart _ List.mem_cons_self right (List.mem_cons_of_mem _ hright) below
          hleft hbelowRight
        exact hnotMem (hsame ▸ hright)
      · intro below
        simp [hfirst.mem_order, horder.mem_order]

/-- A finite tree is visited completely, each directory once. -/
theorem visitsFirst_of_finiteTree {dir : Addr} (h : site.fs.FiniteTree (site.path dir)) :
    ∃ order, VisitsFirst site [dir] order := by
  generalize hpath : site.path dir = path at h
  induction h generalizing dir with
  | @intro path list readable below ih =>
      subst hpath
      have hentries : site.entries dir = list := by simp [entries, readable]
      obtain ⟨order, horder⟩ : ∃ order, VisitsFirst site (site.subdirs dir).reverse order :=
        exists_visitsFirst (List.nodup_reverse.mpr (subdirs_nodup dir))
        (fun left hleft right hright _ => eq_of_common_below (List.mem_reverse.mp hleft)
          (List.mem_reverse.mp hright))
        (by
          intro child hchild
          obtain ⟨entry, hentry, rfl⟩ := List.mem_map.mp (List.mem_reverse.mp hchild)
          obtain ⟨hmem, htype⟩ := List.mem_filter.mp (hentries ▸ hentry)
          exact ih entry hmem (by simpa using htype) rfl)
      refine ⟨dir :: order, ?_, ?_, ?_⟩
      · exact fun pending rest hpending => .turn readable (horder.visits _ _ hpending)
      · refine List.nodup_cons.mpr ⟨?_, horder.nodup⟩
        intro hmem
        obtain ⟨child, hchild, hbelow⟩ := (horder.mem_order dir).mp hmem
        obtain ⟨name, rfl, -⟩ := exists_of_subdir (List.mem_reverse.mp hchild)
        have hlength := (suffix_of_below hbelow).length_le
        simp at hlength
      · intro other
        rw [List.mem_cons, horder.mem_order]
        constructor
        · rintro (rfl | ⟨child, hchild, hbelow⟩)
          · exact ⟨_, List.mem_singleton_self _, .refl⟩
          · exact ⟨dir, List.mem_singleton_self _,
              .head (List.mem_reverse.mp hchild) hbelow⟩
        · rintro ⟨_, hmem, hbelow⟩
          obtain rfl := List.mem_singleton.mp hmem
          rcases ReflTransGen.cases_head hbelow with rfl | ⟨child, hchild, hrest⟩
          · exact Or.inl rfl
          · exact Or.inr ⟨child, List.mem_reverse.mpr hchild, hrest⟩

/-- The order follows from what is pending. -/
theorem Visits.unique {pending order order' : List Addr} (h : site.Visits pending order)
    (h' : site.Visits pending order') : order = order' := by
  induction h generalizing order' with
  | done =>
      cases h'
      rfl
  | turn readable rest ih =>
      cases h' with
      | turn readable' rest' => rw [ih rest']

/-- The order in which the tree is visited from its root. -/
theorem exists_visits (h : site.fs.FiniteTree site.root) :
    ∃ order, site.Visits [[]] order ∧ order.Nodup ∧ ∀ dir, dir ∈ order ↔ site.InTree dir := by
  obtain ⟨order, horder⟩ : ∃ order, VisitsFirst site [[]] order := visitsFirst_of_finiteTree h
  refine ⟨order, ?_, horder.nodup, ?_⟩
  · simpa using horder.visits [] [] .done
  · intro dir
    rw [horder.mem_order]
    simp [InTree]

end Order

section Paths

theorem validName_of_mem {dir : Addr} (h : site.InTree dir) : ∀ name ∈ dir, ValidName name := by
  induction h with
  | refl => simp
  | tail _ hstep ih =>
      obtain ⟨name, rfl, hvalid⟩ := exists_of_subdir hstep
      simpa using ⟨hvalid, ih⟩

variable (site) in
theorem length_path_cons_bounds {name : Bytes} (hname : ValidName name) (dir : Addr) :
    (site.path dir).length < (site.path (name :: dir)).length ∧
      (site.path (name :: dir)).length ≤ (site.path dir).length + 1 + name.length := by
  have hpos := List.length_pos_iff.mpr hname.1
  simp only [path, Path.append]
  split
  · simp_all
  · split
    · simp
      omega
    · simp
      omega

variable (site) in
theorem length_root_le {dir : Addr} (h : ∀ name ∈ dir, ValidName name) :
    site.root.length ≤ (site.path dir).length := by
  induction dir with
  | nil => exact le_rfl
  | cons name dir ih =>
      obtain ⟨hname, hdir⟩ := List.forall_mem_cons.mp h
      exact (ih hdir).trans (site.length_path_cons_bounds hname dir).1.le

/-- Below the root a separator is always added. -/
theorem path_cons_cons {name : Bytes} (hname : ValidName name) (other : Bytes) (dir : Addr) :
    site.path (other :: name :: dir) = site.path (name :: dir) ++ slash :: other := by
  obtain ⟨hne, hslash, -⟩ := hname
  have hlast : ∃ front, site.path (name :: dir) = front ++ name := by
    simp only [path, Path.append]
    split
    · exact ⟨[], rfl⟩
    · split
      · exact ⟨_, rfl⟩
      · exact ⟨site.path dir ++ [slash], by simp⟩
  obtain ⟨front, hfront⟩ := hlast
  rw [path, Path.append, if_neg (by simp [hfront, hne]), if_neg]
  rw [hfront, List.getLast?_append_of_ne_nil _ hne]
  exact fun hsome => hslash (List.mem_of_getLast? hsome)

theorem path_cons_ne_root {name : Bytes} {dir : Addr} (hname : ValidName name)
    (hdir : ∀ name ∈ dir, ValidName name) : site.path (name :: dir) ≠ site.path [] := by
  intro h
  have hlonger := (site.length_path_cons_bounds hname dir).1
  have hroot := site.length_root_le hdir
  rw [h, path] at hlonger
  omega

theorem path_cons_cons_ne {name deep : Bytes} {dir : Addr} (hname : ValidName name)
    (hdeep : ValidName deep) (hdir : ∀ name ∈ dir, ValidName name) :
    site.path (name :: deep :: dir) ≠ site.path [name] := by
  intro h
  have hlength := congrArg List.length h
  have hbound := (site.length_path_cons_bounds hname []).2
  have hlonger := (site.length_path_cons_bounds hdeep dir).1
  have hroot := site.length_root_le hdir
  rw [path_cons_cons hdeep, List.length_append, List.length_cons] at hlength
  rw [path] at hbound
  omega

/-- Different directories of a tree have different paths. -/
theorem path_inj {left right : Addr} (hleft : ∀ name ∈ left, ValidName name)
    (hright : ∀ name ∈ right, ValidName name) (h : site.path left = site.path right) :
    left = right := by
  induction left generalizing right with
  | nil =>
      cases right with
      | nil => rfl
      | cons name dir =>
          obtain ⟨hname, hdir⟩ := List.forall_mem_cons.mp hright
          exact absurd h.symm (path_cons_ne_root hname hdir)
  | cons name left ih =>
      obtain ⟨hname, hleftRest⟩ := List.forall_mem_cons.mp hleft
      cases right with
      | nil => exact absurd h (path_cons_ne_root hname hleftRest)
      | cons other right =>
          obtain ⟨hother, hrightRest⟩ := List.forall_mem_cons.mp hright
          have hfile := congrArg Path.filename h
          rw [path, path, Path.filename_append _ hname.2.1,
            Path.filename_append _ hother.2.1] at hfile
          subst hfile
          cases left with
          | nil =>
              cases right with
              | nil => rfl
              | cons deep right =>
                  obtain ⟨hdeep, hdir⟩ := List.forall_mem_cons.mp hrightRest
                  exact absurd h.symm (path_cons_cons_ne hname hdeep hdir)
          | cons deep left =>
              obtain ⟨hdeep, hdir⟩ := List.forall_mem_cons.mp hleftRest
              cases right with
              | nil => exact absurd h (path_cons_cons_ne hname hdeep hdir)
              | cons deep' right =>
                  have hdeep' := (List.forall_mem_cons.mp hrightRest).1
                  rw [path_cons_cons hdeep, path_cons_cons hdeep'] at h
                  rw [ih hleftRest hrightRest (List.append_cancel_right h)]

/-- No two directories of a tree share a path. -/
theorem map_path_nodup {order : List Addr} (hnodup : order.Nodup)
    (htree : ∀ dir ∈ order, site.InTree dir) : (order.map site.path).Nodup :=
  List.Nodup.map_on (fun left hleft right hright h => path_inj
    (validName_of_mem (htree left hleft)) (validName_of_mem (htree right hright)) h) hnodup

end Paths

end Site

end Eems

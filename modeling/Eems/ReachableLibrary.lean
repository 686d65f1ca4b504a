/-
The library of every reachable store state: one tree below the root, grown by
batches of records that were never stored before.
-/
import Eems.ScanRuns

namespace Eems

open Journal ListedTree

/-- The library as a tree, read off the stored records. -/
structure LibraryTree (db : Db) : Prop where
  object_stored : ∀ key record, db.lookup (.objectKey key) = some record →
    ∃ object, record = .mediaObject object ∧ object.id = key
  child_stored : ∀ key container, objectAt db (.objectKey key) = some container →
    ∀ child ∈ container.children, ∃ object, child = .objectKey object.id ∧
      objectAt db child = some object ∧ object.parentId = container.id
  child_once : ∀ key container, objectAt db (.objectKey key) = some container →
    ∀ child ∈ container.children, container.children.count child = 1 ∧
      ∀ other object, objectAt db (.objectKey other) = some object →
        child ∈ object.children → other = key
  listed : ∀ key object, objectAt db (.objectKey key) = some object → key ≠ ⟨0⟩ →
    ∃ parent, objectAt db (.objectKey object.parentId) = some parent ∧
      parent.IsContainer ∧ .objectKey key ∈ parent.children
  reaches_root : ∀ key object, objectAt db (.objectKey key) = some object →
    ∃ steps, climb (listing db) steps (.objectKey key) = some rootKey
  acyclic : ∀ key object, objectAt db (.objectKey key) = some object → ∀ steps, 0 < steps →
    climb (listing db) steps (.objectKey key) ≠ some (.objectKey key)
  root_stored : ∃ root, objectAt db rootKey = some root ∧ root.IsContainer
  root_children : ∀ root, objectAt db rootKey = some root → root.children = [] ∨
    ∃ key movies, root.children = [key] ∧ objectAt db key = some movies ∧
      movies.IsContainer ∧ asStringView movies.dcTitle = moviesFolderName

theorem Library.libraryTree {files : FileInfo → Prop} {db : Db} (h : Library files db) :
    LibraryTree db := by
  have hid : ∀ key object, objectAt db (.objectKey key) = some object → object.id = key := by
    intro key object hkey
    simpa using (h.object_key _ object (objectAt_eq_some_iff.mp hkey)).symm
  refine ⟨?_, ?_, ?_, ?_, ?_, ?_, ?_, h.root_children⟩
  · intro key record hkey
    cases record with
    | mediaObject object => exact ⟨object, rfl, hid key object (objectAt_eq_some_iff.mpr hkey)⟩
    | resource resource =>
        obtain ⟨id, hresource⟩ := h.resource_key _ resource hkey
        simp at hresource
  · intro key container hkey child hchild
    obtain ⟨node, hnode, hparent⟩ := h.tree.child_stored _ _ (listing_eq_some hkey) child
      (by simpa using hchild)
    obtain ⟨object, hobject, rfl⟩ := Option.map_eq_some_iff.mp hnode
    refine ⟨object, h.object_key child object (objectAt_eq_some_iff.mp hobject), hobject, ?_⟩
    rw [hid key container hkey]
    simpa [nodeOf] using hparent
  · intro key container hkey child hchild
    have hnodup := h.tree.children_nodup _ _ (listing_eq_some hkey)
    rw [childList_nodeOf] at hnodup
    refine ⟨List.count_eq_one_of_mem hnodup hchild, ?_⟩
    intro other object hother hlisted
    simpa using h.tree.lister_unique (listing_eq_some hother) (listing_eq_some hkey)
      (by simpa using hlisted) (by simpa using hchild)
  · intro key object hkey hne
    obtain ⟨node, hnode, hmem⟩ := h.tree.listed _ _ (listing_eq_some hkey)
      (by simpa [rootKey] using hne)
    obtain ⟨parent, hparent, rfl⟩ := Option.map_eq_some_iff.mp hnode
    rw [childList_nodeOf] at hmem
    exact ⟨parent, hparent, isContainer_of_mem_children hmem, hmem⟩
  · exact fun key object hkey => (h.tree.reaches _ _ (listing_eq_some hkey)).climb
  · exact fun key object hkey steps hsteps => h.tree.climb_ne_self (listing_eq_some hkey) hsteps
  · obtain ⟨node, hnode, hchildren⟩ := h.tree.root_stored
    obtain ⟨root, hroot, rfl⟩ := Option.map_eq_some_iff.mp hnode
    exact ⟨root, hroot, isContainer_of_nodeOf hchildren⟩

/-- Whatever is scanned and however the scans end, the stored objects form one
tree below the root. -/
theorem reachable_libraryTree [ArtworkSorter] {calls : List ScanCall} {system : System}
    (h : Reachable calls system) : LibraryTree system.db :=
  h.library.libraryTree

theorem reachable_libraryTree_films :
    filmSystem.db.entries.length = 11 ∧ LibraryTree filmSystem.db :=
  ⟨by decide +kernel, @reachable_libraryTree insertionSorter _ _ reachable_films⟩

/-- The store is the replay of its journal, and every batch in it was made of
records not stored before, besides the container it extends. -/
theorem reachable_writes_fresh [ArtworkSorter] {calls : List ScanCall} {system : System}
    (h : Reachable calls system) :
    system.db = replay OrderedMap.write newDb system.journal ∧
      Fitting OrderedMap.write FreshWrite newDb system.journal := by
  obtain ⟨hrecorded, -⟩ := h.recorded []
  exact ⟨hrecorded.replayed, hrecorded.fitting⟩

theorem reachable_writes_fresh_films : filmSystem.journal.length = 3 ∧
    filmSystem.db = replay OrderedMap.write newDb filmSystem.journal ∧
      Fitting OrderedMap.write FreshWrite newDb filmSystem.journal :=
  ⟨by decide +kernel, @reachable_writes_fresh insertionSorter _ _ reachable_films⟩

end Eems

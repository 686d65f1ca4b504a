/-
A client that starts at the root and goes down into every container it is
shown, reading each page by page.
-/
import Eems.BrowsePaging

namespace Eems

open ListedTree Numeral Paging

/-- The object id that an element carries. -/
def Xml.objectId (element : Xml) : Option Int :=
  (element.attributes.find? fun pair => pair.1 = ascii "id").bind fun pair => parseInt64 pair.2

/-- The elements below an object, at most `depth` levels of them, each before
the elements below it.  `fetch` gets the elements of one container. -/
def crawl (fetch : Int → Option (List Xml)) : Nat → Int → Option (List Xml)
  | 0, _ => some []
  | depth + 1, id =>
      (fetch id).bind fun elements =>
        (elements.mapM fun element =>
          if element.name = ascii "container" then
            (element.objectId.bind (crawl fetch depth)).map (element :: ·)
          else some [element]).map List.flatten

/-- All elements of a container, in pages of the sizes that `counts` gives for
it. -/
def fetchAll (db : Db) (baseUrl : Bytes) (counts : Int → Nat → UInt32) (requests : Nat)
    (id : Int) : Option (List Xml) :=
  collect (fetchChildren db baseUrl id) (fun request => (counts id request).toNat) requests 0 0

section Elements

variable {contentBase : Bytes} {object : MediaObject}

theorem attributes_objectElement :
    (objectElement contentBase object).attributes = commonAttributes object := by
  unfold objectElement
  split <;> rfl

theorem objectId_objectElement (hmin : -2 ^ 63 ≤ object.id.id) (hmax : object.id.id < 2 ^ 63) :
    (objectElement contentBase object).objectId = some object.id.id := by
  simp only [Xml.objectId, attributes_objectElement, commonAttributes, List.find?_cons,
    decide_true, Option.bind_some]
  exact parseInt64_formatInt hmin hmax

theorem name_objectElement_of_isContainer (h : object.IsContainer) :
    (objectElement contentBase object).name = ascii "container" := by
  obtain ⟨container, hdata⟩ := h
  simp only [objectElement, hdata, Xml.name]

theorem name_objectElement_of_isItem (h : object.IsItem) :
    (objectElement contentBase object).name = ascii "item" := by
  obtain ⟨item, hdata⟩ := h
  simp only [objectElement, hdata, Xml.name]

theorem children_of_isItem (h : object.IsItem) : object.children = [] := by
  obtain ⟨item, hdata⟩ := h
  simp only [MediaObject.children, hdata]

end Elements

theorem Browsable.entryElement_eq {db : Db} {key : LibraryKey} {object : MediaObject}
    (h : Browsable db key) (hobject : objectAt db key = some object) (contentBase : Bytes) :
    entryElement db contentBase key = some (objectElement contentBase object) := by
  obtain ⟨stored, hstored, htype, hrefs⟩ := h
  obtain rfl := Option.some.inj (hobject.symm.trans hstored)
  simp [entryElement, hobject, serializeMediaObject_eq [] contentBase htype hrefs]

section Library

variable {files : FileInfo → Prop} {db : Db} (hlibrary : Library files db)

include hlibrary in
/-- A container lists no more objects than are stored. -/
theorem Library.length_children_le {key : LibraryKey} {object : MediaObject}
    (hobject : objectAt db key = some object) :
    object.children.length ≤ db.entries.length := by
  have hnodup := hlibrary.tree.children_nodup _ _ (listing_eq_some hobject)
  rw [childList_nodeOf] at hnodup
  have hsubset : object.children ⊆ db.entries.map Prod.fst := by
    intro child hchild
    obtain ⟨node, hnode, -⟩ := hlibrary.tree.child_stored _ _ (listing_eq_some hobject) child
      (by simpa using hchild)
    obtain ⟨stored, hstored, -⟩ := Option.map_eq_some_iff.mp hnode
    exact List.mem_map_of_mem (f := Prod.fst)
      (db.mem_entries_iff.mpr (objectAt_eq_some_iff.mp hstored))
  simpa using (List.subperm_of_subset hnodup hsubset).length_le

include hlibrary in
theorem Library.browsable_child {key child : LibraryKey} {object : MediaObject}
    (hobject : objectAt db key = some object) (hchild : child ∈ object.children) :
    ∃ stored, objectAt db child = some stored ∧ child = .objectKey stored.id ∧
      Browsable db child := by
  obtain ⟨node, hnode, -⟩ := hlibrary.tree.child_stored _ _ (listing_eq_some hobject) child
    (by simpa using hchild)
  obtain ⟨stored, hstored, -⟩ := Option.map_eq_some_iff.mp hnode
  exact ⟨stored, hstored, hlibrary.object_key child stored (objectAt_eq_some_iff.mp hstored),
    hlibrary.browsable hstored⟩

include hlibrary in
/-- The children of a container, fetched page by page. -/
theorem Library.fetchAll_eq (hrange : InRange db) (hsize : db.entries.length < 2 ^ 32)
    {id : Int} {container : MediaObject} (hstored : objectAt db (.objectKey ⟨id⟩) = some container)
    (hcontainer : container.IsContainer) (baseUrl : Bytes) (counts : Int → Nat → UInt32)
    {requests : Nat} (hrequests : db.entries.length < requests) :
    fetchAll db baseUrl counts requests id =
      some (container.children.filterMap (entryElement db baseUrl)) := by
  have hentries : ∀ key ∈ container.children, Browsable db key := fun key hkey =>
    (hlibrary.browsable_child hstored hkey).choose_spec.2.2
  have hlength := hlibrary.length_children_le hstored
  obtain ⟨elements, helements⟩ := exists_elements hentries baseUrl
  have hshown : container.children.filterMap (entryElement db baseUrl) = elements := by
    have hkept := congrArg (List.filterMap fun shown => shown) helements
    simpa [List.filterMap_map] using hkept.symm
  have hmin : (0 : Int) ≤ id := hlibrary.id_nonneg _ _ (objectAt_eq_some_iff.mp hstored)
  have hmax : id < int64Max := hrange _ _ (objectAt_eq_some_iff.mp hstored)
  have hserves := serves_fetchChildren hstored hcontainer (by omega) hentries (by omega)
    (lt_trans hmax (by decide)) baseUrl helements
  have hcount := congrArg List.length helements
  rw [List.length_map, List.length_map] at hcount
  rw [hshown, fetchAll, hserves.collect (fun request => (counts id request).toNat_lt)
    (Nat.zero_le _) (by omega), List.drop_zero]

theorem map_some_filterMap {A B : Type} {element : A → Option B} {keys : List A}
    (h : ∀ key ∈ keys, ∃ found, element key = some found) :
    (keys.filterMap element).map some = keys.map element := by
  induction keys with
  | nil => rfl
  | cons key rest ih =>
      obtain ⟨found, hfound⟩ := h key List.mem_cons_self
      simp [hfound, ih fun other hother => h other (List.mem_cons_of_mem key hother)]

/-- One block for each key, where every key has an element and every element
its block. -/
theorem mapM_filterMap {A B C : Type} {element : A → Option B} {next : B → Option C}
    {block : A → C} {keys : List A}
    (h : ∀ key ∈ keys, ∃ found, element key = some found ∧ next found = some (block key)) :
    (keys.filterMap element).mapM next = some (keys.map block) := by
  induction keys with
  | nil => rfl
  | cons key rest ih =>
      obtain ⟨found, hfound, hnext⟩ := h key List.mem_cons_self
      have hrest := ih fun other hother => h other (List.mem_cons_of_mem key hother)
      simp [hfound, hnext, hrest]

include hlibrary in
/-- A crawl shows the tree below a container, level by level. -/
theorem Library.crawl_eq (hrange : InRange db) (hsize : db.entries.length < 2 ^ 32)
    (baseUrl : Bytes) (counts : Int → Nat → UInt32) {requests : Nat}
    (hrequests : db.entries.length < requests) (depth : Nat) {id : Int}
    {container : MediaObject} (hstored : objectAt db (.objectKey ⟨id⟩) = some container)
    (hcontainer : container.IsContainer) :
    crawl (fetchAll db baseUrl counts requests) depth id =
      some ((preorder (listing db) depth (.objectKey ⟨id⟩)).filterMap
        (entryElement db baseUrl)) := by
  induction depth generalizing id container with
  | zero => rfl
  | succ depth ih =>
      have hfetch := hlibrary.fetchAll_eq hrange hsize hstored hcontainer baseUrl counts hrequests
      have hblock : ∀ child ∈ container.children, ∃ found,
          entryElement db baseUrl child = some found ∧
          (if found.name = ascii "container" then
            (found.objectId.bind (crawl (fetchAll db baseUrl counts requests) depth)).map
              (found :: ·)
          else some [found]) =
            some ((child :: preorder (listing db) depth child).filterMap
              (entryElement db baseUrl)) := by
        intro child hchild
        obtain ⟨object, hobject, rfl, hbrowsable⟩ := hlibrary.browsable_child hstored hchild
        have helement := hbrowsable.entryElement_eq hobject baseUrl
        refine ⟨_, helement, ?_⟩
        rw [List.filterMap_cons_some helement]
        rcases hlibrary.object_type _ object hobject with hchildContainer | hitem
        · have hmin : (0 : Int) ≤ object.id.id :=
            hlibrary.id_nonneg _ _ (objectAt_eq_some_iff.mp hobject)
          have hmax : object.id.id < int64Max := hrange _ _ (objectAt_eq_some_iff.mp hobject)
          rw [if_pos (name_objectElement_of_isContainer hchildContainer),
            objectId_objectElement (by omega) (lt_trans hmax (by decide)), Option.bind_some,
            ih hobject hchildContainer, Option.map_some]
        · have hname : (objectElement baseUrl object).name ≠ ascii "container" := by
            rw [name_objectElement_of_isItem hitem]
            decide
          have hleaf : (nodeOf object).childList = [] := by
            rw [childList_nodeOf, children_of_isItem hitem]
          rw [if_neg hname, preorder_of_leaf (listing_eq_some hobject) hleaf, List.filterMap_nil]
      rw [crawl, hfetch, Option.bind_some, mapM_filterMap hblock, Option.map_some, preorder,
        listing_eq_some hstored, Option.map_some, Option.getD_some, childList_nodeOf,
        List.filterMap_flatMap, List.flatMap_def]

include hlibrary in
/-- The elements a crawl shows are those of all objects below the root. -/
theorem Library.crawl_complete (hrange : InRange db) (hsize : db.entries.length < 2 ^ 32)
    (baseUrl : Bytes) (counts : Int → Nat → UInt32) :
    ∃ bound, ∀ depth requests, bound ≤ depth → db.entries.length < requests →
      (∃ shown, crawl (fetchAll db baseUrl counts requests) depth 0 = some shown ∧
        shown.map some =
          (preorder (listing db) depth rootKey).map (entryElement db baseUrl)) ∧
      (preorder (listing db) depth rootKey).Nodup ∧
      ∀ key, key ∈ preorder (listing db) depth rootKey ↔
        key ≠ rootKey ∧ (objectAt db key).isSome := by
  obtain ⟨node, hnode, hchildren⟩ := hlibrary.tree.root_stored
  obtain ⟨root, hroot, rfl⟩ := Option.map_eq_some_iff.mp hnode
  have hcontainer := isContainer_of_nodeOf hchildren
  have hstored : ∀ key node, listing db key = some node → key ∈ db.entries.map Prod.fst := by
    intro key node hkey
    obtain ⟨object, hobject, -⟩ := Option.map_eq_some_iff.mp hkey
    exact List.mem_map_of_mem (f := Prod.fst)
      (db.mem_entries_iff.mpr (objectAt_eq_some_iff.mp hobject))
  obtain ⟨bound, hbound⟩ := hlibrary.tree.exists_mem_preorder_root_iff hstored
  refine ⟨bound, ?_⟩
  intro depth requests hdepth hrequests
  have hmem : ∀ key, key ∈ preorder (listing db) depth rootKey ↔
      key ≠ rootKey ∧ (objectAt db key).isSome := by
    intro key
    rw [hbound depth hdepth key, listing, Option.isSome_map]
  refine ⟨⟨_, hlibrary.crawl_eq hrange hsize baseUrl counts hrequests depth hroot hcontainer, ?_⟩,
    hlibrary.tree.preorder_nodup depth hnode, hmem⟩
  apply map_some_filterMap
  intro key hkey
  obtain ⟨object, hobject⟩ := Option.isSome_iff_exists.mp ((hmem key).mp hkey).2
  exact ⟨_, (hlibrary.browsable hobject).entryElement_eq hobject baseUrl⟩

end Library

/-- A client that goes down into every container it is shown, in pages of any
sizes, is shown every stored object but the root, each exactly once. -/
theorem reachable_crawl [ArtworkSorter] {calls : List ScanCall} {system : System}
    (h : Reachable calls system) (hsize : system.db.entries.length < 2 ^ 32) (baseUrl : Bytes)
    (counts : Int → Nat → UInt32) :
    ∃ bound, ∀ depth requests, bound ≤ depth → system.db.entries.length < requests →
      ∃ (shown : List Xml) (keys : List LibraryKey),
        crawl (fetchAll system.db baseUrl counts requests) depth 0 = some shown ∧
        shown.map some = keys.map (entryElement system.db baseUrl) ∧ keys.Nodup ∧
        ∀ key, key ∈ keys ↔ key ≠ rootKey ∧ (objectAt system.db key).isSome := by
  obtain ⟨bound, hbound⟩ := h.library.crawl_complete (h.recorded []).2 hsize baseUrl counts
  refine ⟨bound, fun depth requests hdepth hrequests => ?_⟩
  obtain ⟨⟨shown, hcrawl, hshown⟩, hnodup, hmem⟩ := hbound depth requests hdepth hrequests
  exact ⟨shown, _, hcrawl, hshown, hnodup, hmem⟩

/-- The client of the films asks for two elements at a time. -/
theorem reachable_crawl_films :
    ∃ bound, ∀ depth requests, bound ≤ depth → 11 < requests →
      ∃ (shown : List Xml) (keys : List LibraryKey),
        crawl (fetchAll filmSystem.db (ascii "http://eems") (fun _ _ => 2) requests) depth 0 =
          some shown ∧
        shown.map some = keys.map (entryElement filmSystem.db (ascii "http://eems")) ∧
        keys.Nodup ∧ ∀ key, key ∈ keys ↔ key ≠ rootKey ∧
          (objectAt filmSystem.db key).isSome := by
  have hlength : filmSystem.db.entries.length = 11 := by decide +kernel
  obtain ⟨bound, hbound⟩ := @reachable_crawl insertionSorter _ _ reachable_films
    (by rw [hlength]; decide) (ascii "http://eems") fun _ _ => 2
  rw [hlength] at hbound
  exact ⟨bound, hbound⟩

end Eems

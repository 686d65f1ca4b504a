/-
Browsing a container page by page.
-/
import Eems.ReachableLibrary
import Eems.DidlElements
import Eems.Upnp
import Eems.Basic.Paging

namespace Eems

open Numeral Paging

/-- An entry that can be shown: stored, an item or a container, and referring
to resources by their keys. -/
def Browsable (db : Db) (key : LibraryKey) : Prop :=
  ∃ object, objectAt db key = some object ∧ (object.IsItem ∨ object.IsContainer) ∧
    ∀ ref ∈ object.resourceRefs, ∃ id, ref = .resourceKey id

/-- Every object of a library can be shown. -/
theorem Library.browsable {files : FileInfo → Prop} {db : Db} (h : Library files db)
    {key : LibraryKey} {object : MediaObject} (hobject : objectAt db key = some object) :
    Browsable db key := by
  refine ⟨object, hobject, (h.object_type key object hobject).symm, ?_⟩
  intro ref href
  have hmem : ref ∈ refsAt db key := by simpa [refsAt, hobject] using href
  obtain ⟨resource, hresource⟩ := h.owned.stored_of_mem key ref hmem
  exact h.resource_key ref resource hresource

/-- The DIDL element of a stored object. -/
def entryElement (db : Db) (contentBase : Bytes) (key : LibraryKey) : Option Xml :=
  (objectAt db key).bind fun object =>
    match serializeMediaObject [] contentBase object with
    | .ok (true, [element]) => some element
    | _ => none

theorem Browsable.serialize {db : Db} {key : LibraryKey} (h : Browsable db key)
    (contentBase : Bytes) : ∃ object element, objectAt db key = some object ∧
      entryElement db contentBase key = some element ∧
      ∀ didlRoot, serializeMediaObject didlRoot contentBase object =
        .ok (true, didlRoot ++ [element]) := by
  obtain ⟨object, hobject, htype, hrefs⟩ := h
  have helement := fun didlRoot => serializeMediaObject_eq didlRoot contentBase htype hrefs
  exact ⟨object, objectElement contentBase object, hobject,
    by simp [entryElement, hobject, helement], helement⟩

/-- Counting over a page appends the element of each of its entries, and counts
them all. -/
theorem countSerialized_eq {db : Db} (objects : List LibraryKey) {keys : List LibraryKey}
    (h : ∀ key ∈ keys, Browsable db key) (contentBase : Bytes) (count : Nat)
    (didlRoot : List Xml) :
    ∃ elements, elements.map some = keys.map (entryElement db contentBase) ∧
      countSerialized ⟨db, objects⟩ contentBase keys count didlRoot =
        .ok (count + elements.length, didlRoot ++ elements) := by
  induction keys generalizing count didlRoot with
  | nil => exact ⟨[], rfl, by simp [countSerialized]⟩
  | cons key rest ih =>
      obtain ⟨object, element, hobject, helement, hserialize⟩ :=
        (h key List.mem_cons_self).serialize contentBase
      obtain ⟨elements, helements, hcount⟩ :=
        ih (fun other hother => h other (List.mem_cons_of_mem key hother)) (count + 1)
          (didlRoot ++ [element])
      have hread : ListResultView.read ⟨db, objects⟩ key = .ok object :=
        read_eq_ok_iff.mpr hobject
      refine ⟨element :: elements, by simp [helement, helements], ?_⟩
      simp only [countSerialized, hread, hserialize, bind, Except.bind, ↓reduceIte, hcount,
        List.length_cons, List.append_assoc, List.singleton_append]
      rw [Nat.add_assoc, Nat.add_comm 1]

/-- The parameters ask for children of the container `id`. -/
structure AsksChildren (params : Option Xml) (id : Int) (start count : UInt32) : Prop where
  object_id : parseInt64 (paramValue params "ObjectID") = some id
  browse_flag : paramValue params "BrowseFlag" = ascii "BrowseDirectChildren"
  starting_index : parseUint32 (paramValue params "StartingIndex") = some start
  requested_count : parseUint32 (paramValue params "RequestedCount") = some count

/-- The parameters of a client's request. -/
def browseParams (id : Int) (start count : UInt32) : Option Xml :=
  some (.element (ascii "u:Browse")
    [(ascii "xmlns:u", ascii "urn:schemas-upnp-org:service:ContentDirectory:1")]
    [.leaf "ObjectID" (formatInt id), .leaf "BrowseFlag" (ascii "BrowseDirectChildren"),
      .leaf "Filter" (ascii "*"), .leaf "StartingIndex" (formatNat start.toNat),
      .leaf "RequestedCount" (formatNat count.toNat), .leaf "SortCriteria" []])

theorem parseInt64_formatInt {n : Int} (hmin : -2 ^ 63 ≤ n) (hmax : n < 2 ^ 63) :
    parseInt64 (formatInt n) = some n := by
  exact whole_readInt_formatInt hmin (Int.le_sub_one_of_lt hmax) (by decide) (by decide)

theorem parseUint32_formatNat (n : UInt32) : parseUint32 (formatNat n.toNat) = some n := by
  rw [parseUint32, whole_readNat_formatNat (Nat.le_sub_one_of_lt n.toNat_lt)]
  simp

theorem asksChildren_browseParams {id : Int} (hmin : -2 ^ 63 ≤ id) (hmax : id < 2 ^ 63)
    (start count : UInt32) : AsksChildren (browseParams id start count) id start count := by
  have hid : paramValue (browseParams id start count) "ObjectID" = formatInt id := rfl
  have hflag : paramValue (browseParams id start count) "BrowseFlag" =
      ascii "BrowseDirectChildren" := rfl
  have hstart : paramValue (browseParams id start count) "StartingIndex" =
      formatNat start.toNat := rfl
  have hcount : paramValue (browseParams id start count) "RequestedCount" =
      formatNat count.toNat := rfl
  exact ⟨hid ▸ parseInt64_formatInt hmin hmax, hflag, hstart ▸ parseUint32_formatNat start,
    hcount ▸ parseUint32_formatNat count⟩

/-- What a client fetches with one request. -/
def fetchChildren (db : Db) (baseUrl : Bytes) (id : Int) (start count : Nat) :
    Option (Page Xml) :=
  match browsePage db baseUrl (browseParams id start.toUInt32 count.toUInt32) with
  | .ok result => some ⟨result.didl, result.numberReturned, result.totalMatches⟩
  | .error _ => none

section Container

variable {db : Db} {id : Int} {container : MediaObject}
  (hstored : objectAt db (.objectKey ⟨id⟩) = some container)
  (hcontainer : container.IsContainer) (hsize : container.children.length < 2 ^ 32)
  (hentries : ∀ key ∈ container.children, Browsable db key)

include hstored hcontainer hsize hentries in
/-- One page: the elements of a stretch of the children. -/
theorem browsePage_eq {params : Option Xml} {start count : UInt32}
    (hparams : AsksChildren params id start count) (baseUrl : Bytes) :
    ∃ result, browsePage db baseUrl params = .ok result ∧
      result.didl.map some = ((container.children.drop start.toNat).take
        (if count = 0 then container.children.length else count.toNat)).map
          (entryElement db baseUrl) ∧
      result.numberReturned = result.didl.length ∧
      result.totalMatches = container.children.length := by
  have hlist : StoreService.list db ⟨id⟩ = .ok ⟨db, container.children⟩ :=
    list_eq_ok_iff.mpr ⟨container, hstored, hcontainer, rfl⟩
  have hcount : (if count = 0 then container.children.length.toUInt32 else count).toNat =
      if count = 0 then container.children.length else count.toNat := by
    split
    · simp only [Nat.toUInt32, UInt32.toNat_ofNat']
      exact Nat.mod_eq_of_lt hsize
    · rfl
  have hpage : ∀ key ∈ (container.children.drop start.toNat).take
      (if count = 0 then container.children.length else count.toNat), Browsable db key :=
    fun key hkey => hentries key (List.mem_of_mem_drop (List.mem_of_mem_take hkey))
  obtain ⟨elements, helements, hserialized⟩ :=
    countSerialized_eq container.children hpage baseUrl 0 []
  refine ⟨⟨elements.length, container.children.length, elements⟩, ?_, helements, rfl, rfl⟩
  simp only [browsePage, hparams.object_id, hparams.starting_index, hparams.requested_count,
    hparams.browse_flag, ↓reduceIte, hlist, fromStore, browseResult, hcount, bind, Except.bind,
    hserialized, Nat.zero_add, List.nil_append]

include hstored hcontainer hsize hentries in
theorem serves_fetchChildren (hmin : -2 ^ 63 ≤ id) (hmax : id < 2 ^ 63) (baseUrl : Bytes)
    {elements : List Xml}
    (helements : elements.map some = container.children.map (entryElement db baseUrl)) :
    Serves (fetchChildren db baseUrl id) (· < 2 ^ 32) elements := by
  have hlength : elements.length = container.children.length := by
    simpa using congrArg List.length helements
  intro start count hstart hcount
  have hstartNat : start.toUInt32.toNat = start := by
    simp only [Nat.toUInt32, UInt32.toNat_ofNat']
    omega
  have hcountNat : count.toUInt32.toNat = count := by
    simp only [Nat.toUInt32, UInt32.toNat_ofNat']
    omega
  obtain ⟨result, hresult, hdidl, hreturned, htotal⟩ := browsePage_eq hstored hcontainer hsize
    hentries (asksChildren_browseParams hmin hmax start.toUInt32 count.toUInt32) baseUrl
  rw [hstartNat, List.map_take, List.map_drop, ← helements, ← List.map_drop, ← List.map_take]
    at hdidl
  have hdidl := List.map_injective_iff.mpr (Option.some_injective Xml) hdidl
  refine ⟨⟨result.didl, result.numberReturned, result.totalMatches⟩, ?_, ?_, ?_, hreturned,
    htotal.trans hlength.symm⟩
  · simp [fetchChildren, hresult]
  · rw [hdidl]
    exact List.take_prefix _ _
  · intro hinside
    have hpage : 0 < (if count.toUInt32 = 0 then container.children.length
        else count.toUInt32.toNat) := by
      split
      · omega
      · rename_i hzero
        have hne : count.toUInt32.toNat ≠ 0 := fun h => hzero (UInt32.toNat.inj h)
        omega
    rw [hdidl, ← List.length_pos_iff, List.length_take, List.length_drop]
    omega

end Container

theorem exists_elements {db : Db} {keys : List LibraryKey} (h : ∀ key ∈ keys, Browsable db key)
    (contentBase : Bytes) :
    ∃ elements : List Xml, elements.map some = keys.map (entryElement db contentBase) := by
  obtain ⟨elements, helements, -⟩ := countSerialized_eq keys h contentBase 0 []
  exact ⟨elements, helements⟩

/-- Browsing partitions the children of a container: every page is the stretch
asked for, and a client that goes on from where its last page ended collects
every child once and in order, whatever page sizes it asks for. -/
theorem browse_partitions {db : Db} {id : Int} {container : MediaObject}
    (hid : -2 ^ 63 ≤ id ∧ id < 2 ^ 63)
    (hstored : objectAt db (.objectKey ⟨id⟩) = some container)
    (hcontainer : container.IsContainer) (hsize : container.children.length < 2 ^ 32)
    (hentries : ∀ key ∈ container.children, Browsable db key) (baseUrl : Bytes) :
    (∀ params start count, AsksChildren params id start count → ∃ result,
      browsePage db baseUrl params = .ok result ∧
      (∀ pugi, handleCdsBrowse pugi db baseUrl params =
        .ok (pugi.print (result.document pugi))) ∧
      result.didl.map some = ((container.children.take
        (if count = 0 then container.children.length
          else min (start.toNat + count.toNat) container.children.length)).drop
            start.toNat).map (entryElement db baseUrl) ∧
      result.numberReturned = result.didl.length ∧
      result.totalMatches = container.children.length) ∧
    ∃ elements : List Xml,
      elements.map some = container.children.map (entryElement db baseUrl) ∧
      ∀ counts : Nat → UInt32,
        collect (fetchChildren db baseUrl id) (fun request => (counts request).toNat)
          (container.children.length + 1) 0 0 = some elements := by
  constructor
  · intro params start count hparams
    obtain ⟨result, hresult, hdidl, hreturned, htotal⟩ :=
      browsePage_eq hstored hcontainer hsize hentries hparams baseUrl
    refine ⟨result, hresult, fun pugi => by simp [handleCdsBrowse, hresult, Except.map],
      hdidl.trans (congrArg _ ?_), hreturned, htotal⟩
    split
    · simp
    · rw [List.drop_take, List.take_eq_take_iff, List.length_drop]
      omega
  · obtain ⟨elements, helements⟩ := exists_elements hentries baseUrl
    have hlength : elements.length = container.children.length := by
      simpa using congrArg List.length helements
    refine ⟨elements, helements, fun counts => ?_⟩
    have hserves := serves_fetchChildren hstored hcontainer hsize hentries hid.1 hid.2 baseUrl
      helements
    exact hserves.collect (fun request => (counts request).toNat_lt) (Nat.zero_le _) (by omega)

theorem browse_partitions_films : ∃ container,
    objectAt filmSystem.db (.objectKey ⟨1⟩) = some container ∧ container.children.length = 3 ∧
      ∃ elements : List Xml, elements.map some =
          container.children.map (entryElement filmSystem.db (ascii "http://eems")) ∧
        ∀ counts : Nat → UInt32,
          collect (fetchChildren filmSystem.db (ascii "http://eems") 1)
            (fun request => (counts request).toNat) (container.children.length + 1) 0 0 =
              some elements := by
  have hlibrary := @Reachable.library insertionSorter _ _ reachable_films
  have hlength : (objectAt filmSystem.db (.objectKey ⟨1⟩)).map
      (fun object => object.children.length) = some 3 := by decide +kernel
  obtain ⟨container, hstored, hchildren⟩ := Option.map_eq_some_iff.mp hlength
  have hcontainer : container.IsContainer := by
    obtain ⟨key, hkey⟩ := List.exists_mem_of_length_pos (by omega : 0 < container.children.length)
    exact isContainer_of_mem_children hkey
  have hentries : ∀ key ∈ container.children, Browsable filmSystem.db key := by
    intro key hkey
    obtain ⟨object, -, hobject, -⟩ := hlibrary.libraryTree.child_stored _ _ hstored key hkey
    exact hlibrary.browsable hobject
  exact ⟨container, hstored, hchildren,
    (browse_partitions (by decide) hstored hcontainer (by omega) hentries _).2⟩

end Eems

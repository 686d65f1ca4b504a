/-
Resource references from end to end: every key an object refers to is a stored
resource, and the URL that a browse response makes of it leads back to the file
the scanner stored under that key.
-/
import Eems.BrowsePaging
import Eems.ContentService

namespace Eems

open Numeral Journal

theorem mem_mapM_eq_ok {A B E : Type} {f : A → Except E B} {list : List A} {results : List B}
    (h : list.mapM f = .ok results) {b : B} (hb : b ∈ results) : ∃ a ∈ list, f a = .ok b := by
  induction list generalizing results with
  | nil =>
      obtain rfl : [] = results := Except.ok.inj h
      simp at hb
  | cons head tail ih =>
      cases hhead : f head with
      | error error => simp [hhead, bind, Except.bind] at h
      | ok first =>
          cases htail : tail.mapM f with
          | error error => simp [hhead, htail, bind, Except.bind] at h
          | ok rest =>
              simp only [List.mapM_cons, hhead, htail, bind, Except.bind, pure, Except.pure,
                Except.ok.injEq] at h
              rcases List.mem_cons.mp (h ▸ hb) with rfl | hrest
              · exact ⟨head, List.mem_cons_self, hhead⟩
              · obtain ⟨a, ha, hfa⟩ := ih htail hrest
                exact ⟨a, List.mem_cons_of_mem head ha, hfa⟩

/-- The URLs that an element offers to a client. -/
def Xml.urls (element : Xml) : List Bytes :=
  (element.children.filter fun child =>
    child.name = ascii "res" || child.name = ascii "upnp:albumArtURI" ||
      child.name = ascii "xbmc:artwork").map Xml.text

theorem mem_commonFields {contentBase : Bytes} {object : MediaObject} {fields : List Xml}
    (h : commonFields contentBase object = .ok fields) {child : Xml} (hchild : child ∈ fields)
    (hname : child.name = ascii "res" ∨ child.name = ascii "upnp:albumArtURI" ∨
      child.name = ascii "xbmc:artwork") :
    ∃ artwork ∈ object.artworks, ∃ id, artwork.ref = .resourceKey id ∧
      child.text = resourceUrl contentBase id.id := by
  unfold commonFields at h
  cases hartwork : object.artworks.mapM (artworkElements contentBase) with
  | error error => simp [hartwork, bind, Except.bind] at h
  | ok elements =>
      simp only [hartwork, bind, Except.bind, Except.ok.injEq] at h
      rw [← h, List.mem_append, List.mem_append] at hchild
      rcases hchild with (hhead | hdate) | hchild
      · simp only [List.mem_cons, List.not_mem_nil, or_false] at hhead
        rcases hhead with rfl | rfl <;> simp only [Xml.leaf, Xml.name] at hname <;>
          exact absurd hname (by decide)
      · simp only [dateElement] at hdate
        split at hdate
        · rw [List.mem_singleton.mp hdate] at hname
          simp only [Xml.leaf, Xml.name] at hname
          exact absurd hname (by decide)
        · simp at hdate
      · obtain ⟨nodes, hnodes, hmem⟩ := List.mem_flatten.mp hchild
        obtain ⟨artwork, hartworkMem, hartworkNodes⟩ := mem_mapM_eq_ok hartwork hnodes
        unfold artworkElements at hartworkNodes
        cases href : artwork.ref with
        | objectKey key => simp [href, LibraryKey.asResourceKey] at hartworkNodes
        | resourceKey key =>
            simp only [href, LibraryKey.asResourceKey, Except.ok.injEq] at hartworkNodes
            refine ⟨artwork, hartworkMem, key, href, ?_⟩
            rw [← hartworkNodes] at hmem
            simp only [List.mem_cons, List.not_mem_nil, or_false] at hmem
            rcases hmem with rfl | rfl <;> rfl

/-- Every URL of an object's element is made from one of its references. -/
theorem mem_urls_of_serialize {contentBase : Bytes} {object : MediaObject} {counted : Bool}
    {elements : List Xml}
    (h : serializeMediaObject [] contentBase object = .ok (counted, elements)) {element : Xml}
    (helement : element ∈ elements) {url : Bytes} (hurl : url ∈ element.urls) :
    ∃ id, .resourceKey id ∈ object.resourceRefs ∧ url = resourceUrl contentBase id.id := by
  obtain ⟨child, hchild, rfl⟩ := List.mem_map.mp hurl
  obtain ⟨hmem, hname⟩ := List.mem_filter.mp hchild
  simp only [Bool.or_eq_true, decide_eq_true_eq, or_assoc] at hname
  have hartwork : ∀ fields, commonFields contentBase object = .ok fields → child ∈ fields →
      ∃ id, .resourceKey id ∈ object.resourceRefs ∧
        child.text = resourceUrl contentBase id.id := by
    intro fields hfields hfield
    obtain ⟨artwork, hartwork, id, href, htext⟩ := mem_commonFields hfields hfield hname
    exact ⟨id, List.mem_append_left _ (List.mem_map.mpr ⟨artwork, hartwork, href⟩), htext⟩
  unfold serializeMediaObject at h
  cases hdata : object.data with
  | none =>
      simp only [hdata, Except.ok.injEq, Prod.mk.injEq] at h
      simp [← h.2] at helement
  | mediaContainer container =>
      cases hfields : commonFields contentBase object with
      | error error => simp [hdata, hfields, bind, Except.bind] at h
      | ok fields =>
          simp only [hdata, hfields, bind, Except.bind, List.nil_append, Except.ok.injEq,
            Prod.mk.injEq] at h
          rw [← h.2, List.mem_singleton] at helement
          rw [helement] at hmem
          exact hartwork fields hfields hmem
  | mediaItem item =>
      cases hfields : commonFields contentBase object with
      | error error => simp [hdata, hfields, bind, Except.bind] at h
      | ok fields =>
          cases hresources : (item.resources.getD []).mapM (resourceElement contentBase) with
          | error error => simp [hdata, hfields, hresources, bind, Except.bind] at h
          | ok resources =>
              simp only [hdata, hfields, hresources, bind, Except.bind, List.nil_append,
                Except.ok.injEq, Prod.mk.injEq] at h
              rw [← h.2, List.mem_singleton] at helement
              rw [helement] at hmem
              rcases List.mem_append.mp hmem with hfield | hresource
              · exact hartwork fields hfields hfield
              · obtain ⟨ref, href, hnode⟩ := mem_mapM_eq_ok hresources hresource
                have hrefs : ref ∈ object.resources := by
                  obtain ⟨refs⟩ := item
                  cases refs with
                  | none => simp at href
                  | some refs => simpa [MediaObject.resources, hdata] using href
                unfold resourceElement at hnode
                cases hkey : ref.ref with
                | objectKey key => simp [hkey, LibraryKey.asResourceKey] at hnode
                | resourceKey key =>
                    simp only [hkey, LibraryKey.asResourceKey, Except.ok.injEq] at hnode
                    refine ⟨key, List.mem_append_right _
                      (List.mem_map.mpr ⟨ref, hrefs, hkey⟩), ?_⟩
                    rw [← hnode]
                    rfl

/-- An element is appended to whatever stands before it. -/
theorem serializeMediaObject_append (didlRoot : List Xml) (contentBase : Bytes)
    (object : MediaObject) :
    serializeMediaObject didlRoot contentBase object =
      (serializeMediaObject [] contentBase object).map fun r => (r.1, didlRoot ++ r.2) := by
  unfold serializeMediaObject
  cases object.data with
  | none => simp [Except.map]
  | mediaContainer container =>
      cases commonFields contentBase object <;> simp [bind, Except.bind, Except.map]
  | mediaItem item =>
      cases commonFields contentBase object with
      | error error => simp [bind, Except.bind, Except.map]
      | ok fields =>
          cases hresources : (item.resources.getD []).mapM (resourceElement contentBase) <;>
            simp [hresources, bind, Except.bind, Except.map]

/-- The elements of a page are those of objects it reads. -/
theorem mem_didl_of_countSerialized {view : ListResultView} {contentBase : Bytes}
    {keys : List LibraryKey} {count total : Nat} {didlRoot didl : List Xml}
    (h : countSerialized view contentBase keys count didlRoot = .ok (total, didl))
    {element : Xml} (helement : element ∈ didl) :
    element ∈ didlRoot ∨ ∃ key object counted elements, view.read key = .ok object ∧
      serializeMediaObject [] contentBase object = .ok (counted, elements) ∧
      element ∈ elements := by
  induction keys generalizing count didlRoot with
  | nil =>
      obtain ⟨-, rfl⟩ := Prod.mk.inj (Except.ok.inj h)
      exact Or.inl helement
  | cons key rest ih =>
      cases hread : view.read key with
      | error error => simp [countSerialized, hread, bind, Except.bind] at h
      | ok object =>
          cases hobject : serializeMediaObject [] contentBase object with
          | error error =>
              simp [countSerialized, hread, serializeMediaObject_append didlRoot, hobject,
                bind, Except.bind, Except.map] at h
          | ok result =>
              obtain ⟨counted, elements⟩ := result
              simp only [countSerialized, hread, serializeMediaObject_append didlRoot, hobject,
                bind, Except.bind, Except.map] at h
              rcases ih h with hroot | hlater
              · rcases List.mem_append.mp hroot with hroot | hmem
                · exact Or.inl hroot
                · exact Or.inr ⟨key, object, counted, elements, hread, hobject, hmem⟩
              · exact Or.inr hlater

/-- Every URL on a page is made from a reference of a stored object. -/
theorem mem_urls_of_browsePage {db : Db} {baseUrl : Bytes} {params : Option Xml}
    {result : BrowseResult} (h : browsePage db baseUrl params = .ok result) {element : Xml}
    (helement : element ∈ result.didl) {url : Bytes} (hurl : url ∈ element.urls) :
    ∃ key id, .resourceKey id ∈ refsAt db key ∧ url = resourceUrl baseUrl id.id := by
  have hview : ∃ objects start count,
      browseResult ⟨db, objects⟩ start count baseUrl = .ok result := by
    unfold browsePage at h
    split at h
    · simp at h
    · rename_i objectId hid
      split at h
      · simp at h
      · rename_i start hstart
        split at h
        · simp at h
        · rename_i count hcount
          simp only at h
          split at h
          · cases hlist : StoreService.list db ⟨objectId⟩ with
            | error failure => simp [hlist, fromStore, bind, Except.bind] at h
            | ok view =>
                obtain ⟨object, -, -, rfl⟩ := list_eq_ok_iff.mp hlist
                cases hresult : browseResult ⟨db, object.children⟩ start count baseUrl with
                | error failure => simp [hlist, hresult, fromStore, bind, Except.bind] at h
                | ok found =>
                    obtain rfl : found = result := by
                      simpa [hlist, hresult, fromStore, bind, Except.bind] using h
                    exact ⟨_, _, _, hresult⟩
          · split at h
            · cases hresult : browseResult (StoreService.get db ⟨objectId⟩) start count
                  baseUrl with
              | error failure => simp [hresult, fromStore, bind, Except.bind] at h
              | ok found =>
                  obtain rfl : found = result := by
                    simpa [hresult, fromStore, bind, Except.bind] using h
                  exact ⟨_, _, _, hresult⟩
            · simp [bind, Except.bind] at h
  obtain ⟨objects, start, count, hresult⟩ := hview
  unfold browseResult at hresult
  simp only [bind, Except.bind] at hresult
  split at hresult
  · simp at hresult
  · rename_i counted hcounted
    obtain ⟨total, didl⟩ := counted
    obtain rfl := Except.ok.inj hresult
    rcases mem_didl_of_countSerialized hcounted helement with
      hnone | ⟨key, object, _, elements, hread, hserialize, hmem⟩
    · simp at hnone
    · obtain ⟨id, hid, rfl⟩ := mem_urls_of_serialize hserialize hmem hurl
      exact ⟨key, id, by simpa [refsAt, read_eq_ok_iff.mp hread] using hid, rfl⟩

/-- A record that a replay adds comes from one of its batches. -/
theorem mem_journal_of_lookup {base : Db} {journal : List Batch} {key : LibraryKey}
    {record : Record}
    (h : (replay OrderedMap.write base journal).lookup key = some record)
    (hbase : base.lookup key = none) : ∃ batch ∈ journal, (key, record) ∈ batch := by
  induction journal using List.reverseRecOn with
  | nil => exact absurd (hbase.symm.trans h) (by simp)
  | append_singleton journal batch ih =>
      rw [replay_append] at h
      rcases OrderedMap.mem_or_lookup_of_write _ h with hput | hbefore
      · exact ⟨batch, by simp, hput⟩
      · obtain ⟨other, hother, hmem⟩ := ih hbefore
        exact ⟨other, List.mem_append_left _ hother, hmem⟩

/-- The path of a file that could be read is a C string. -/
theorem FileSystem.HasFile.zero_notMem {fs : FileSystem} {info : FileInfo}
    (h : fs.HasFile info) : (0 : UInt8) ∉ info.path := by
  obtain ⟨path, entries, entry, name, hentries, hentry, hfile⟩ := h
  rw [(fileEntry_eq_some hfile).2.2.1]
  exact Path.zero_notMem_append (fs.paths_valid path entries hentries)
    (fs.names_valid path entries hentries entry hentry).2.2

/-- The request for a resource's URL, path split and parsed, finds this
location. -/
structure UrlLeadsTo (db : Db) (id : Int) (location : Path) : Prop where
  split : splitTarget (ascii "/content/" ++ formatInt id) = some (ascii "content", formatInt id)
  parsed : parseInt64 (cString (formatInt id)) = some id
  found : resourceLocation db id (formatInt id) = .ok location
  served : ∀ files request range, requestRange request = .ok range →
    createResponse db files (formatInt id) request =
      openFile files location (formatInt id) >>= fun file => fileResponse request file range

/-- References from end to end: `files` are the files that scans could read. -/
structure ResourcesResolve (files : FileInfo → Prop) (journal : List Batch) (db : Db) :
    Prop where
  ref_stored : ∀ key object, objectAt db key = some object →
    ∀ ref ∈ object.artworks.map Artwork.ref ++ object.resources.map ResourceRef.ref,
      ∃ id resource, ref = .resourceKey id ∧ db.lookup ref = some (.resource resource)
  referenced_once : ∀ id resource, db.lookup (.resourceKey id) = some (.resource resource) →
    ∃! place : LibraryKey × Nat, (refsAt db place.1)[place.2]? = some (.resourceKey id)
  item_resources : ∀ key object, objectAt db key = some object → object.IsItem →
    RefersTo (fun ref info => files info ∧ db.lookup ref = some (.resource (resourceOf info)))
      object
  url_resolves : ∀ baseUrl params result, browsePage db baseUrl params = .ok result →
    ∀ element ∈ result.didl, ∀ url ∈ element.urls, ∃ id info,
      url = baseUrl ++ ascii "/content/" ++ formatInt id ∧ files info ∧
      (∃ batch ∈ journal, (.resourceKey ⟨id⟩, .resource (resourceOf info)) ∈ batch) ∧
      UrlLeadsTo db id info.path

/-- A decimal numeral is a name that a path can hold. -/
theorem validName_formatInt {n : Int} (hn : 0 ≤ n) :
    ValidName (formatInt n) ∧ 63 ∉ formatInt n := by
  have hformat : formatInt n = formatNat n.natAbs := if_neg (not_lt.mpr hn)
  have hdigit : ∀ b : UInt8, isDigit b = false → b ∉ formatNat n.natAbs := by
    intro b hb hmem
    rw [isDigit_of_mem_formatNat hmem] at hb
    simp at hb
  rw [hformat]
  exact ⟨⟨formatNat_ne_nil _, hdigit _ (by decide), hdigit _ (by decide)⟩,
    hdigit _ (by decide)⟩

theorem urlLeadsTo_of_stored {db : Db} {id : Int} (hmin : 0 ≤ id) (hmax : id < int64Max)
    {info : FileInfo} (hpath : (0 : UInt8) ∉ info.path)
    (hstored : db.lookup (.resourceKey ⟨id⟩) = some (.resource (resourceOf info))) :
    UrlLeadsTo db id info.path := by
  obtain ⟨hname, hquery⟩ := validName_formatInt hmin
  have hparsed : parseInt64 (cString (formatInt id)) = some id := by
    rw [cString_of_notMem hname.2.2]
    apply parseInt64_formatInt (by omega)
    unfold int64Max at hmax
    omega
  have hfound : resourceLocation db id (formatInt id) = .ok info.path := by
    simp [resourceLocation, StoreService.getResource, OrderedMap.seekExact_eq_lookup, hstored,
      resourceOf, asCString_putString hpath]
  refine ⟨?_, hparsed, hfound, ?_⟩
  · have hcontent : ValidName (ascii "content") := by decide
    have htarget : ascii "/content/" ++ formatInt id =
        slash :: (ascii "content" ++ slash :: formatInt id) := rfl
    rw [htarget, splitTarget_two hcontent hname ⟨by decide, hquery⟩]
  · intro files request range hrange
    simp [createResponse, hparsed, hrange, hfound, bind, Except.bind]

/-- Whatever is scanned and however the scans end, every reference resolves. -/
theorem reachable_resourcesResolve [ArtworkSorter] {calls : List ScanCall} {system : System}
    (h : Reachable calls system) :
    ResourcesResolve (HeldByCalls calls) system.journal system.db := by
  obtain ⟨hrecorded, hrange⟩ := h.recorded []
  have hlibrary := hrecorded.library
  refine ⟨?_, ?_, hlibrary.item_refs, ?_⟩
  · intro key object hobject ref href
    have hmem : ref ∈ refsAt system.db key := by
      simpa [refsAt, hobject, MediaObject.resourceRefs] using href
    obtain ⟨resource, hresource⟩ := hlibrary.owned.stored_of_mem key ref hmem
    obtain ⟨id, rfl⟩ := hlibrary.resource_key ref resource hresource
    exact ⟨id, resource, rfl, hresource⟩
  · exact fun id resource hresource => hlibrary.owned.existsUnique ⟨resource, hresource⟩
  · intro baseUrl params result hresult element helement url hurl
    obtain ⟨key, id, href, rfl⟩ := mem_urls_of_browsePage hresult helement hurl
    obtain ⟨resource, hresource⟩ := hlibrary.owned.stored_of_mem key _ href
    obtain ⟨info, ⟨call, hcall, hfile⟩, rfl⟩ := hlibrary.resource_file _ resource hresource
    have hnew : newDb.lookup (.resourceKey id) = none := by simp [rootKey]
    refine ⟨id.id, info, rfl, ⟨call, hcall, hfile⟩, ?_, ?_⟩
    · exact mem_journal_of_lookup (hrecorded.replayed ▸ hresource) hnew
    · exact urlLeadsTo_of_stored (hlibrary.id_nonneg _ _ hresource) (hrange _ _ hresource)
        hfile.zero_notMem hresource

theorem reachable_resourcesResolve_films :
    IsStoredResource filmSystem.db (.resourceKey ⟨5⟩) ∧
      ResourcesResolve (HeldByCalls [filmCall]) filmSystem.journal filmSystem.db := by
  refine ⟨?_, @reachable_resourcesResolve insertionSorter _ _ reachable_films⟩
  have hstored : (filmSystem.db.lookup (.resourceKey ⟨5⟩)).any
      (fun | .resource _ => true | .mediaObject _ => false) = true := by decide +kernel
  unfold IsStoredResource
  cases hlookup : filmSystem.db.lookup (.resourceKey ⟨5⟩) with
  | none => simp [hlookup] at hstored
  | some record =>
      cases record with
      | mediaObject object => simp [hlookup] at hstored
      | resource resource => exact ⟨resource, rfl⟩

end Eems

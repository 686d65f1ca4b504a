/-
A copy of the library at a client: what a crawl shows, read back into the
objects that are stored.
-/
import Eems.ContentUrls
import Eems.Crawl
import Eems.Sidecars
import Eems.StoredTexts

namespace Eems

open ListedTree Numeral

/-- A stored object as a client can know it, its texts without their
terminators. -/
structure Copied where
  isContainer : Bool
  id : Int
  parentId : Int
  title : Bytes
  upnpClass : Bytes
  days : Int
  artwork : List (Int × ArtworkType)
  resources : List (Bytes × Int)
deriving DecidableEq

def MediaObject.copied (object : MediaObject) : Copied where
  isContainer := match object.data with
    | .mediaItem _ => false
    | _ => true
  id := object.id.id
  parentId := object.parentId.id
  title := asStringView object.dcTitle
  upnpClass := asStringView object.upnpClass
  days := object.dcDate
  artwork := object.artworks.map fun artwork => (artwork.ref.id, artwork.type)
  resources := object.resources.map fun ref => (asStringView ref.protocolInfo, ref.ref.id)

section Reader

def Xml.attribute (element : Xml) (name : String) : Option Bytes :=
  (element.attributes.find? fun pair => pair.1 = ascii name).map Prod.snd

/-- The number that a resource's URL ends in. -/
def readUrl (baseUrl url : Bytes) : Option Int :=
  (url.dropPrefix? (baseUrl ++ ascii "/content/")).bind parseInt64

/-- A number and the dash after it. -/
def readDashed (text : Bytes) : Option (Int × Bytes) :=
  match readNat 9999 text with
  | some (n, b :: rest) => if b = minus then some ((n : Int), rest) else none
  | _ => none

/-- Year, month and day as a day count. -/
def readDate (text : Bytes) : Option Int :=
  (readDashed text).bind fun year =>
    (readDashed year.2).bind fun month =>
      (whole (readNat 31 month.2)).map fun day : Nat =>
        Calendar.daysFromCivil year.1 month.1 day

/-- An object without a date has the day count 0. -/
def readDates (dates : List Xml) : Option Int :=
  match dates with
  | [] => some 0
  | date :: _ => readDate date.text

def readArtworkType (text : Bytes) : Option ArtworkType :=
  if text = ascii "poster" then some .poster
  else if text = ascii "thumb" then some .thumbnail
  else none

def readArtwork (baseUrl : Bytes) (element : Xml) : Option (Int × ArtworkType) := do
  let id ← readUrl baseUrl element.text
  let type ← (element.attribute "type").bind readArtworkType
  some (id, type)

def readResource (baseUrl : Bytes) (element : Xml) : Option (Bytes × Int) := do
  let protocolInfo ← element.attribute "protocolInfo"
  let id ← readUrl baseUrl element.text
  some (protocolInfo, id)

/-- An element of a browse result, read by a client. -/
def readElement (baseUrl : Bytes) (element : Xml) : Option Copied := do
  let id ← (element.attribute "id").bind parseInt64
  let parentId ← (element.attribute "parentID").bind parseInt64
  let days ← readDates (element.childrenNamed "dc:date")
  let artwork ← (element.childrenNamed "xbmc:artwork").mapM (readArtwork baseUrl)
  let resources ← (element.childrenNamed "res").mapM (readResource baseUrl)
  some ⟨element.name = ascii "container", id, parentId, element.childValue "dc:title",
    element.childValue "upnp:class", days, artwork, resources⟩

end Reader

section Fields

theorem readUrl_resourceUrl (baseUrl : Bytes) {id : Int} (hmin : -2 ^ 63 ≤ id)
    (hmax : id < 2 ^ 63) : readUrl baseUrl (resourceUrl baseUrl id) = some id := by
  rw [readUrl, resourceUrl, List.dropPrefix?_append_of_beq _ (by simp), Option.bind_some]
  exact parseInt64_formatInt hmin hmax

theorem readDate_newYear {year : Int} (hlow : 0 ≤ year) (hhigh : year ≤ 9999) :
    readDate (formatInt year ++ ascii "-01-01") = some (Calendar.daysFromCivil year 1 1) := by
  have hformat : formatInt year = formatNat year.natAbs := if_neg (by omega)
  have hdash : ascii "-01-01" = minus :: ascii "01-01" := by decide
  have hhead : ∀ b ∈ (ascii "-01-01").head?, isDigit b = false := by
    intro b hb
    rw [hdash] at hb
    rw [← Option.some.inj hb]
    decide
  have hread := @readNat_formatNat 9999 year.natAbs (by omega) (ascii "-01-01") hhead
  have hyear : readDashed (formatInt year ++ ascii "-01-01") = some (year, ascii "01-01") := by
    rw [hformat, readDashed, hread, hdash]
    simp only [↓reduceIte]
    rw [Int.natAbs_of_nonneg hlow]
  have hmonth : readDashed (ascii "01-01") = some (1, ascii "01") := by decide
  have hday : whole (readNat 31 (ascii "01")) = some 1 := by decide
  rw [readDate, hyear, Option.bind_some, hmonth, Option.bind_some, hday, Option.map_some]
  rfl

/-- The date of a stored object reads back, also the one that is not shown. -/
theorem readDates_dateElement {days : Int} (h : IsYearStart days) :
    readDates (dateElement days) = some days := by
  rcases h with rfl | ⟨year, hlow, hhigh, rfl⟩
  · rfl
  · have hshown := (dateElement_newYear (Or.inr hlow)).mpr
    have hzero : year ≠ 0 := by omega
    rw [if_pos hzero, if_neg hzero] at hshown
    by_cases hepoch : year = 1970
    · rw [hepoch]
      rfl
    · cases hdates : dateElement (Calendar.daysFromCivil year 1 1) with
      | nil => simp [hdates] at hshown; exact absurd hshown hepoch
      | cons date rest =>
          have htexts := hshown hepoch
          rw [hdates, List.map_cons] at htexts
          rw [readDates, (List.cons.inj htexts).1]
          exact readDate_newYear (by omega) (by omega)

end Fields

section Elements

variable (baseUrl : Bytes) (object : MediaObject)

theorem children_objectElement : (objectElement baseUrl object).children =
    shownFields baseUrl object ++ object.resources.map (shownResource baseUrl) := by
  cases hdata : object.data with
  | mediaItem item => simp [objectElement, hdata, Xml.children]
  | mediaContainer container =>
      simp [objectElement, hdata, Xml.children, MediaObject.resources]
  | none => simp [objectElement, hdata, Xml.children, MediaObject.resources]

theorem childValue_dcTitle :
    (objectElement baseUrl object).childValue "dc:title" = asCString object.dcTitle := by
  have hname : (Xml.leaf "dc:title" (asCString object.dcTitle)).name = ascii "dc:title" := rfl
  rw [Xml.childValue, children_objectElement, shownFields]
  simp only [List.cons_append, List.find?_cons, hname, decide_true, Option.map_some]
  rfl

theorem childValue_upnpClass :
    (objectElement baseUrl object).childValue "upnp:class" = asCString object.upnpClass := by
  have htitle : decide ((Xml.leaf "dc:title" (asCString object.dcTitle)).name =
      ascii "upnp:class") = false := by
    rw [name_leaf]
    decide
  have hname : (Xml.leaf "upnp:class" (asCString object.upnpClass)).name =
    ascii "upnp:class" := rfl
  rw [Xml.childValue, children_objectElement, shownFields]
  simp only [List.cons_append, List.find?_cons, htitle, hname, decide_true, Option.map_some]
  rfl

/-- The children of a name that neither the two texts nor the date have. -/
theorem childrenNamed_eq (name : String)
    (hname : ascii name ∉ [ascii "dc:title", ascii "upnp:class", ascii "dc:date"]) :
    (objectElement baseUrl object).childrenNamed name =
      (object.artworks.flatMap (shownArtwork baseUrl) ++
        object.resources.map (shownResource baseUrl)).filter
          fun child => child.name = ascii name := by
  simp only [List.mem_cons, List.not_mem_nil, or_false, not_or] at hname
  obtain ⟨htitle, hclass, hdate⟩ := hname
  have hdates : (dateElement object.dcDate).filter (fun child => child.name = ascii name) = [] :=
    filter_name_eq_nil fun child hchild =>
      (name_of_mem_dateElement hchild).trans_ne (Ne.symm hdate)
  simp [Xml.childrenNamed, children_objectElement, shownFields, hdates, name_leaf,
    Ne.symm htitle, Ne.symm hclass]

theorem childrenNamed_artwork : (objectElement baseUrl object).childrenNamed "xbmc:artwork" =
    object.artworks.map fun artwork =>
      .element (ascii "xbmc:artwork") [(ascii "type", artworkTypeName artwork.type)]
        [.pcdata (resourceUrl baseUrl artwork.ref.id)] := by
  have hresources : (object.resources.map (shownResource baseUrl)).filter
      (fun child => child.name = ascii "xbmc:artwork") = [] :=
    filter_name_eq_nil fun child hchild =>
      (name_of_mem_shownResource baseUrl hchild).trans_ne (by decide)
  rw [childrenNamed_eq baseUrl object "xbmc:artwork" (by decide), List.filter_append, hresources,
    List.append_nil]
  exact filter_shownArtwork baseUrl object.artworks _ _ fun _ => rfl

theorem childrenNamed_res : (objectElement baseUrl object).childrenNamed "res" =
    object.resources.map (shownResource baseUrl) := by
  have hartwork : (object.artworks.flatMap (shownArtwork baseUrl)).filter
      (fun child => child.name = ascii "res") = [] := by
    apply filter_name_eq_nil
    intro child hchild
    rcases name_of_mem_shownArtwork baseUrl hchild with hname | hname <;> rw [hname] <;> decide
  have hresources : (object.resources.map (shownResource baseUrl)).filter
      (fun child => child.name = ascii "res") = object.resources.map (shownResource baseUrl) :=
    List.filter_eq_self.mpr fun child hchild => by
      simp [name_of_mem_shownResource baseUrl hchild]
  rw [childrenNamed_eq baseUrl object "res" (by decide), List.filter_append, hartwork,
    hresources, List.nil_append]

theorem attribute_id : (objectElement baseUrl object).attribute "id" =
    some (formatInt object.id.id) := by
  rw [Xml.attribute, attributes_objectElement]
  simp [commonAttributes]

theorem attribute_parentID : (objectElement baseUrl object).attribute "parentID" =
    some (formatInt object.parentId.id) := by
  have hid : ascii "id" ≠ ascii "parentID" := by decide
  rw [Xml.attribute, attributes_objectElement]
  simp [commonAttributes, hid]

theorem readArtworkType_artworkTypeName (type : ArtworkType) :
    readArtworkType (artworkTypeName type) = some type := by
  cases type <;> decide

end Elements

/-- An object that a client reads without loss. -/
structure Readable (object : MediaObject) : Prop where
  legible : Legible object
  type : object.IsItem ∨ object.IsContainer
  id_fits : -2 ^ 63 ≤ object.id.id ∧ object.id.id < 2 ^ 63
  parentId_fits : -2 ^ 63 ≤ object.parentId.id ∧ object.parentId.id < 2 ^ 63
  refs_fit : ∀ ref ∈ object.resourceRefs, -2 ^ 63 ≤ ref.id ∧ ref.id < 2 ^ 63
  protocolInfos : ∀ ref ∈ object.resources, IsText ref.protocolInfo

theorem mapM_map_eq_some {A B C : Type} {shown : A → B} {next : B → Option C} {known : A → C}
    {list : List A} (h : ∀ a ∈ list, next (shown a) = some (known a)) :
    (list.map shown).mapM next = some (list.map known) := by
  rw [← List.filterMap_eq_map]
  exact mapM_filterMap fun a ha => ⟨shown a, rfl, h a ha⟩

namespace Readable

variable {object : MediaObject} (h : Readable object) (baseUrl : Bytes)

include h

theorem readArtworks : ((objectElement baseUrl object).childrenNamed "xbmc:artwork").mapM
    (readArtwork baseUrl) = some object.copied.artwork := by
  rw [childrenNamed_artwork]
  apply mapM_map_eq_some
  intro artwork hartwork
  obtain ⟨hmin, hmax⟩ := h.refs_fit artwork.ref
    (List.mem_append_left _ (List.mem_map_of_mem hartwork))
  have hurl := readUrl_resourceUrl baseUrl hmin hmax
  have htype := readArtworkType_artworkTypeName artwork.type
  simp [readArtwork, Xml.text, Xml.children, Xml.attribute, Xml.attributes, hurl, htype]

theorem readResources : ((objectElement baseUrl object).childrenNamed "res").mapM
    (readResource baseUrl) = some object.copied.resources := by
  rw [childrenNamed_res]
  apply mapM_map_eq_some
  intro ref href
  obtain ⟨hmin, hmax⟩ := h.refs_fit ref.ref (List.mem_append_right _ (List.mem_map_of_mem href))
  have hurl := readUrl_resourceUrl baseUrl hmin hmax
  have htext := (h.protocolInfos ref href).asCString_eq
  simp [readResource, shownResource, Xml.text, Xml.children, Xml.attribute, Xml.attributes, hurl,
    htext]

/-- What a client reads from an object's element is the object. -/
theorem readElement_eq :
    readElement baseUrl (objectElement baseUrl object) = some object.copied := by
  have hcontainer : decide ((objectElement baseUrl object).name = ascii "container") =
      object.copied.isContainer := by
    rcases h.type with hitem | hcontainer
    · rw [name_objectElement_of_isItem hitem]
      obtain ⟨item, hdata⟩ := hitem
      simp only [MediaObject.copied, hdata]
      decide
    · rw [name_objectElement_of_isContainer hcontainer]
      obtain ⟨container, hdata⟩ := hcontainer
      simp only [MediaObject.copied, hdata, decide_true]
  have hid := parseInt64_formatInt h.id_fits.1 h.id_fits.2
  have hparent := parseInt64_formatInt h.parentId_fits.1 h.parentId_fits.2
  have hdate := readDates_dateElement h.legible.date
  have hartwork := h.readArtworks baseUrl
  have hresources := h.readResources baseUrl
  simp only [readElement, attribute_id, attribute_parentID, childrenNamed_dcDate, hid, hparent,
    hdate, hartwork, hresources, hcontainer, childValue_dcTitle, childValue_upnpClass,
    h.legible.title.asCString_eq, h.legible.upnpClass.asCString_eq, Option.bind_some,
    Option.bind_eq_bind]
  rfl

end Readable

/-- The protocol info of a file that a scan could read is a text. -/
theorem isText_protocolInfo {calls : List ScanCall} {key : LibraryKey} {info : FileInfo}
    (h : HeldByCalls calls info) : IsText (createResourceRef key info).protocolInfo := by
  obtain ⟨call, -, path, entries, entry, name, -, -, hfile⟩ := h
  have hzero := zero_notMem_mimeType (fileEntry_eq_some hfile).2.2.2.1
  have hbefore : (0 : UInt8) ∉ ascii "http-get:*:" := by decide
  have hafter : (0 : UInt8) ∉ ascii ":*" := by decide
  apply isText_putString
  simp [hbefore, hzero, hafter]

theorem InRange.fits {files : FileInfo → Prop} {db : Db} (hrange : InRange db)
    (hlibrary : Library files db) {key : LibraryKey} {record : Record}
    (hstored : db.lookup key = some record) : -2 ^ 63 ≤ key.id ∧ key.id < 2 ^ 63 := by
  have hmin := hlibrary.id_nonneg key record hstored
  have hmax : key.id < int64Max := hrange key record hstored
  exact ⟨by omega, lt_trans hmax (by decide)⟩

section Copy

variable [ArtworkSorter] {calls : List ScanCall} {system : System}
  (h : Reachable calls system)

include h

theorem Reachable.readable {key : LibraryKey} {object : MediaObject} (hne : key ≠ rootKey)
    (hobject : objectAt system.db key = some object) : Readable object := by
  have hlibrary := h.library
  have hrange := (h.recorded []).2
  have hstored := objectAt_eq_some_iff.mp hobject
  obtain rfl := hlibrary.object_key key object hstored
  refine ⟨h.legible hobject, (hlibrary.object_type _ object hobject).symm,
    hrange.fits hlibrary hstored, ?_, ?_, ?_⟩
  · have hid : object.id ≠ ⟨0⟩ := by
      rintro hid
      exact hne (congrArg LibraryKey.objectKey hid)
    obtain ⟨parent, hparent, -⟩ := hlibrary.libraryTree.listed object.id object hobject hid
    exact hrange.fits hlibrary (objectAt_eq_some_iff.mp hparent)
  · intro ref href
    obtain ⟨resource, hresource⟩ := hlibrary.owned.stored_of_mem (.objectKey object.id) ref
      (by simpa [refsAt, hobject] using href)
    exact hrange.fits hlibrary hresource
  · intro ref href
    rcases hlibrary.object_type _ object hobject with ⟨container, hdata⟩ | hitem
    · simp [MediaObject.resources, hdata] at href
    · obtain ⟨video, subtitles, hrefs, -, -, hfiles⟩ :=
        hlibrary.item_refs _ object hobject hitem
      rw [hrefs] at href
      obtain ⟨p, hp, rfl⟩ := List.mem_map.mp href
      exact isText_protocolInfo (hfiles p hp).1

end Copy

/-- `copy` has every stored object but the root, each once and in an order that
keeps the order of each container's listing. -/
structure IsCopy (db : Db) (copy : List Copied) : Prop where
  ids_nodup : (copy.map Copied.id).Nodup
  mem_iff : ∀ known, known ∈ copy ↔
    ∃ key object, key ≠ rootKey ∧ objectAt db key = some object ∧ known = object.copied
  children : ∀ key container, objectAt db key = some container →
    (copy.filter fun known => known.parentId = container.id.id).map
      (fun known => LibraryKey.objectKey ⟨known.id⟩) = container.children

/-- The objects under a list of keys that are all stored. -/
theorem exists_objects {db : Db} {keys : List LibraryKey}
    (h : ∀ key ∈ keys, (objectAt db key).isSome) :
    ∃ objects : List MediaObject, keys.map (objectAt db) = objects.map some := by
  induction keys with
  | nil => exact ⟨[], rfl⟩
  | cons key rest ih =>
      obtain ⟨object, hobject⟩ := Option.isSome_iff_exists.mp (h key List.mem_cons_self)
      obtain ⟨objects, hobjects⟩ := ih fun other hother => h other (List.mem_cons_of_mem key hother)
      exact ⟨object :: objects, by simp [hobject, hobjects]⟩

section Objects

variable {files : FileInfo → Prop} {db : Db} (hlibrary : Library files db)
  {keys : List LibraryKey} {objects : List MediaObject}
  (hobjects : keys.map (objectAt db) = objects.map some)

include hobjects in
theorem mem_of_map_objectAt {object : MediaObject} (h : object ∈ objects) :
    ∃ key ∈ keys, objectAt db key = some object := by
  have hmem : some object ∈ keys.map (objectAt db) := by
    rw [hobjects]
    exact List.mem_map_of_mem h
  exact List.mem_map.mp hmem

include hlibrary hobjects in
theorem Library.keys_eq : keys = objects.map fun object => .objectKey object.id := by
  induction keys generalizing objects with
  | nil =>
      cases objects with
      | nil => rfl
      | cons object rest => simp at hobjects
  | cons key rest ih =>
      cases objects with
      | nil => simp at hobjects
      | cons object others =>
          obtain ⟨hobject, hrest⟩ := List.cons.inj hobjects
          rw [List.map_cons, ← ih hrest,
            hlibrary.object_key key object (objectAt_eq_some_iff.mp hobject)]

include hlibrary hobjects in
/-- The tree below the root, as a copy. -/
theorem Library.isCopy {depth : Nat} (hkeys : keys = preorder (listing db) depth rootKey)
    (hnodup : keys.Nodup)
    (hmem : ∀ key, key ∈ keys ↔ key ≠ rootKey ∧ (objectAt db key).isSome) :
    IsCopy db (objects.map MediaObject.copied) := by
  have hids := hlibrary.keys_eq hobjects
  refine ⟨?_, ?_, ?_⟩
  · apply List.Nodup.of_map fun id => LibraryKey.objectKey ⟨id⟩
    rw [List.map_map, List.map_map]
    exact hids ▸ hnodup
  · intro known
    rw [List.mem_map]
    constructor
    · rintro ⟨object, hobject, rfl⟩
      obtain ⟨key, hkey, hstored⟩ := mem_of_map_objectAt hobjects hobject
      exact ⟨key, object, ((hmem key).mp hkey).1, hstored, rfl⟩
    · rintro ⟨key, object, hne, hstored, rfl⟩
      have hkey := (hmem key).mpr ⟨hne, by simp [hstored]⟩
      have hobject : some object ∈ objects.map some := by
        rw [← hobjects, ← hstored]
        exact List.mem_map_of_mem hkey
      exact ⟨object, (List.mem_map_of_injective (Option.some_injective _)).mp hobject, rfl⟩
  · intro key container hcontainer
    obtain rfl := hlibrary.object_key key container (objectAt_eq_some_iff.mp hcontainer)
    have hall : ∀ key, key ∈ preorder (listing db) depth rootKey ↔
        key ≠ rootKey ∧ (listing db key).isSome := by
      intro key
      rw [← hkeys, hmem key, listing, Option.isSome_map]
    have hlisted := hlibrary.tree.filter_preorder hall (listing_eq_some hcontainer)
    rw [childList_nodeOf, ← hkeys, hids, List.filter_map] at hlisted
    rw [List.filter_map, List.map_map, ← hlisted]
    apply congrArg (List.map fun object : MediaObject => LibraryKey.objectKey object.id)
    apply List.filter_congr
    intro object hobject
    obtain ⟨key, -, hstored⟩ := mem_of_map_objectAt hobjects hobject
    obtain rfl := hlibrary.object_key key object (objectAt_eq_some_iff.mp hstored)
    have hparent : (listing db (.objectKey object.id)).map Node.parent =
        some (.objectKey object.parentId) := by
      simp [listing_eq_some hstored, nodeOf]
    apply decide_eq_decide.mpr
    rw [hparent, Option.some_inj, LibraryKey.objectKey.injEq, ObjectKey.ext_iff]
    rfl

end Objects

/-- A client that crawls, in pages of any sizes, and reads every element it is
shown has a copy of the library. -/
theorem reachable_copy [ArtworkSorter] {calls : List ScanCall} {system : System}
    (h : Reachable calls system) (hsize : system.db.entries.length < 2 ^ 32) (baseUrl : Bytes)
    (counts : Int → Nat → UInt32) :
    ∃ bound, ∀ depth requests, bound ≤ depth → system.db.entries.length < requests →
      ∃ copy, (crawl (fetchAll system.db baseUrl counts requests) depth 0).bind
          (List.mapM (readElement baseUrl)) = some copy ∧ IsCopy system.db copy := by
  have hlibrary := h.library
  obtain ⟨bound, hbound⟩ := hlibrary.crawl_complete (h.recorded []).2 hsize baseUrl counts
  refine ⟨bound, fun depth requests hdepth hrequests => ?_⟩
  obtain ⟨⟨shown, hcrawl, hshown⟩, hnodup, hmem⟩ := hbound depth requests hdepth hrequests
  obtain ⟨objects, hobjects⟩ := exists_objects fun key hkey => ((hmem key).mp hkey).2
  refine ⟨objects.map MediaObject.copied, ?_, hlibrary.isCopy hobjects rfl hnodup hmem⟩
  have hids := hlibrary.keys_eq hobjects
  have helements : shown = objects.map (objectElement baseUrl) := by
    apply List.map_injective_iff.mpr (Option.some_injective Xml)
    rw [hshown, hids, List.map_map, List.map_map]
    apply List.map_congr_left
    intro object hobject
    obtain ⟨key, -, hstored⟩ := mem_of_map_objectAt hobjects hobject
    obtain rfl := hlibrary.object_key key object (objectAt_eq_some_iff.mp hstored)
    exact (hlibrary.browsable hstored).entryElement_eq hstored baseUrl
  rw [hcrawl, Option.bind_some, helements]
  apply mapM_map_eq_some
  intro object hobject
  obtain ⟨key, hkey, hstored⟩ := mem_of_map_objectAt hobjects hobject
  exact (h.readable ((hmem key).mp hkey).1 hstored).readElement_eq baseUrl

/-- The copy of the films, fetched two elements at a time. -/
theorem reachable_copy_films :
    ∃ bound, ∀ depth requests, bound ≤ depth → 11 < requests →
      ∃ copy, (crawl (fetchAll filmSystem.db (ascii "http://eems") (fun _ _ => 2) requests)
          depth 0).bind (List.mapM (readElement (ascii "http://eems"))) = some copy ∧
        IsCopy filmSystem.db copy := by
  have hlength : filmSystem.db.entries.length = 11 := by decide +kernel
  obtain ⟨bound, hbound⟩ := @reachable_copy insertionSorter _ _ reachable_films
    (by rw [hlength]; decide) (ascii "http://eems") fun _ _ => 2
  rw [hlength] at hbound
  exact ⟨bound, hbound⟩

end Eems

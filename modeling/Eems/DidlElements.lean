/-
The DIDL element of an object whose references name resources, written out.
-/
import Eems.XmlSerialization

namespace Eems

/-- The value of `xbmc:artwork`'s `type` attribute. -/
def artworkTypeName : ArtworkType → Bytes
  | .poster => ascii "poster"
  | .thumbnail => ascii "thumb"

def shownArtwork (contentBase : Bytes) (artwork : Artwork) : List Xml :=
  [.leaf "upnp:albumArtURI" (resourceUrl contentBase artwork.ref.id),
    .element (ascii "xbmc:artwork") [(ascii "type", artworkTypeName artwork.type)]
      [.pcdata (resourceUrl contentBase artwork.ref.id)]]

def shownResource (contentBase : Bytes) (ref : ResourceRef) : Xml :=
  .element (ascii "res") [(ascii "protocolInfo", asCString ref.protocolInfo)]
    [.pcdata (resourceUrl contentBase ref.ref.id)]

def shownFields (contentBase : Bytes) (object : MediaObject) : List Xml :=
  [.leaf "dc:title" (asCString object.dcTitle), .leaf "upnp:class" (asCString object.upnpClass)] ++
    dateElement object.dcDate ++ object.artworks.flatMap (shownArtwork contentBase)

/-- The element of an item or a container. -/
def objectElement (contentBase : Bytes) (object : MediaObject) : Xml :=
  match object.data with
  | .mediaItem _ => .element (ascii "item") (commonAttributes object)
      (shownFields contentBase object ++ object.resources.map (shownResource contentBase))
  | _ => .element (ascii "container") (commonAttributes object) (shownFields contentBase object)

def Xml.childrenNamed (element : Xml) (name : String) : List Xml :=
  element.children.filter fun child => child.name = ascii name

theorem mapM_eq_ok {A B E : Type} {f : A → Except E B} {g : A → B} {list : List A}
    (h : ∀ a ∈ list, f a = .ok (g a)) : list.mapM f = .ok (list.map g) := by
  induction list with
  | nil => rfl
  | cons head tail ih =>
      have hhead := h head List.mem_cons_self
      have htail := ih fun a ha => h a (List.mem_cons_of_mem head ha)
      simp [hhead, htail, bind, Except.bind, pure, Except.pure]

theorem commonFields_eq (contentBase : Bytes) {object : MediaObject}
    (hrefs : ∀ artwork ∈ object.artworks, ∃ key, artwork.ref = .resourceKey key) :
    commonFields contentBase object = .ok (shownFields contentBase object) := by
  have hartwork : object.artworks.mapM (artworkElements contentBase) =
      .ok (object.artworks.map (shownArtwork contentBase)) := by
    apply mapM_eq_ok
    intro artwork hmem
    obtain ⟨key, hkey⟩ := hrefs artwork hmem
    cases htype : artwork.type <;>
      simp [artworkElements, shownArtwork, artworkTypeName, hkey, htype,
        LibraryKey.asResourceKey, LibraryKey.id]
  simp [commonFields, hartwork, shownFields, List.flatMap, bind, Except.bind]

/-- An object with sound references is one element, whatever stands before
it. -/
theorem serializeMediaObject_eq (didlRoot : List Xml) (contentBase : Bytes)
    {object : MediaObject} (htype : object.IsItem ∨ object.IsContainer)
    (hrefs : ∀ ref ∈ object.resourceRefs, ∃ key, ref = .resourceKey key) :
    serializeMediaObject didlRoot contentBase object =
      .ok (true, didlRoot ++ [objectElement contentBase object]) := by
  have hfields := commonFields_eq contentBase fun artwork hmem =>
    hrefs artwork.ref (List.mem_append_left _ (List.mem_map_of_mem hmem))
  rcases htype with ⟨item, hdata⟩ | ⟨container, hdata⟩
  · have hresourcesOf : item.resources.getD [] = object.resources := by
      obtain ⟨_ | refs⟩ := item <;> simp [MediaObject.resources, hdata]
    have hresources : object.resources.mapM (resourceElement contentBase) =
        .ok (object.resources.map (shownResource contentBase)) := by
      apply mapM_eq_ok
      intro ref hmem
      obtain ⟨key, hkey⟩ := hrefs ref.ref (List.mem_append_right _ (List.mem_map_of_mem hmem))
      simp [resourceElement, shownResource, hkey, LibraryKey.asResourceKey, LibraryKey.id]
    simp only [serializeMediaObject, objectElement, hdata, hfields, hresourcesOf, hresources, bind,
      Except.bind]
  · simp only [serializeMediaObject, objectElement, hdata, hfields, bind, Except.bind]

section Children

variable (contentBase : Bytes)

theorem name_leaf (name : String) (text : Bytes) : (Xml.leaf name text).name = ascii name := rfl

theorem name_of_mem_dateElement {days : Int} {child : Xml} (h : child ∈ dateElement days) :
    child.name = ascii "dc:date" := by
  unfold dateElement at h
  split at h
  · rw [List.mem_singleton.mp h]
    rfl
  · simp at h

theorem name_of_mem_shownArtwork {artworks : List Artwork} {child : Xml}
    (h : child ∈ artworks.flatMap (shownArtwork contentBase)) :
    child.name = ascii "upnp:albumArtURI" ∨ child.name = ascii "xbmc:artwork" := by
  obtain ⟨artwork, -, hchild⟩ := List.mem_flatMap.mp h
  simp only [shownArtwork, List.mem_cons, List.not_mem_nil, or_false] at hchild
  rcases hchild with rfl | rfl
  · exact Or.inl rfl
  · exact Or.inr rfl

theorem name_of_mem_shownResource {resources : List ResourceRef} {child : Xml}
    (h : child ∈ resources.map (shownResource contentBase)) : child.name = ascii "res" := by
  obtain ⟨ref, -, rfl⟩ := List.mem_map.mp h
  rfl

theorem filter_name_eq_nil {list : List Xml} {name : String}
    (h : ∀ child ∈ list, child.name ≠ ascii name) :
    list.filter (fun child => child.name = ascii name) = [] :=
  List.filter_eq_nil_iff.mpr fun child hchild => by simpa using h child hchild

/-- The artwork elements among the children of an item. -/
theorem childrenNamed_objectElement {object : MediaObject} (hitem : object.IsItem) (name : String)
    (hname : ascii name ∉ [ascii "dc:title", ascii "upnp:class", ascii "dc:date", ascii "res"]) :
    (objectElement contentBase object).childrenNamed name =
      (object.artworks.flatMap (shownArtwork contentBase)).filter
        fun child => child.name = ascii name := by
  obtain ⟨item, hdata⟩ := hitem
  simp only [List.mem_cons, List.not_mem_nil, or_false, not_or] at hname
  obtain ⟨htitle, hclass, hdate, hres⟩ := hname
  have hdates : (dateElement object.dcDate).filter (fun child => child.name = ascii name) = [] :=
    filter_name_eq_nil fun child hchild =>
      (name_of_mem_dateElement hchild).trans_ne (Ne.symm hdate)
  have hresources : (object.resources.map (shownResource contentBase)).filter
      (fun child => child.name = ascii name) = [] :=
    filter_name_eq_nil fun child hchild =>
      (name_of_mem_shownResource contentBase hchild).trans_ne (Ne.symm hres)
  simp [Xml.childrenNamed, objectElement, hdata, Xml.children, shownFields, hdates, hresources,
    name_leaf, Ne.symm htitle, Ne.symm hclass]

/-- The date is the only child of its name. -/
theorem childrenNamed_dcDate (object : MediaObject) :
    (objectElement contentBase object).childrenNamed "dc:date" = dateElement object.dcDate := by
  have hdates : (dateElement object.dcDate).filter (fun child => child.name = ascii "dc:date") =
      dateElement object.dcDate :=
    List.filter_eq_self.mpr fun child hchild => by simp [name_of_mem_dateElement hchild]
  have hartwork : (object.artworks.flatMap (shownArtwork contentBase)).filter
      (fun child => child.name = ascii "dc:date") = [] := by
    apply filter_name_eq_nil
    intro child hchild
    rcases name_of_mem_shownArtwork contentBase hchild with hname | hname <;> rw [hname] <;> decide
  have hresources : (object.resources.map (shownResource contentBase)).filter
      (fun child => child.name = ascii "dc:date") = [] :=
    filter_name_eq_nil fun child hchild =>
      (name_of_mem_shownResource contentBase hchild).trans_ne (by decide)
  have htitle : ascii "dc:title" ≠ ascii "dc:date" := by decide
  have hclass : ascii "upnp:class" ≠ ascii "dc:date" := by decide
  unfold objectElement
  split <;> simp [Xml.childrenNamed, Xml.children, shownFields, hdates, hartwork, hresources,
    name_leaf, htitle, hclass]

end Children

end Eems

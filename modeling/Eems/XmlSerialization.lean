/-
The XML that answers a browse request: one DIDL element for each entry of the
page, and the SOAP envelope around the printed document.
-/
import Eems.StoreService
import Eems.Basic.Calendar
import Eems.Basic.Numeral

namespace Eems

open Numeral

inductive Xml where
  | element (name : Bytes) (attributes : List (Bytes × Bytes)) (children : List Xml)
  | pcdata (text : Bytes)

structure XmlDocument where
  declaration : List (Bytes × Bytes)
  root : Xml

/-- The XML library: how it reads a document's root element, or describes what
is wrong with the text, and how it prints a document. -/
structure PugiXml where
  load : Bytes → Except Bytes Xml
  print : XmlDocument → Bytes

/-- `append_child(name).text().set(text)` -/
def Xml.leaf (name : String) (text : Bytes) : Xml := .element (ascii name) [] [.pcdata text]

def Xml.name : Xml → Bytes
  | .element name _ _ => name
  | .pcdata _ => []

def Xml.attributes : Xml → List (Bytes × Bytes)
  | .element _ attributes _ => attributes
  | .pcdata _ => []

def Xml.children : Xml → List Xml
  | .element _ _ children => children
  | .pcdata _ => []

/-- The text of the first text child, empty without one. -/
def Xml.text (node : Xml) : Bytes :=
  (node.children.findSome? fun
    | .pcdata text => some text
    | .element .. => none).getD []

/-- `child_value(name)` -/
def Xml.childValue (node : Xml) (name : String) : Bytes :=
  ((node.children.find? fun child => child.name = ascii name).map Xml.text).getD []

def generatePreamble (rootElement rootNs : String) (attributes : List (Bytes × Bytes))
    (children : List Xml) : XmlDocument where
  declaration := [(ascii "version", ascii "1.0"), (ascii "encoding", ascii "UTF-8")]
  root := .element (ascii rootElement) ((ascii "xmlns", ascii rootNs) :: attributes) children

def resourceUrl (contentBase : Bytes) (id : Int) : Bytes :=
  contentBase ++ ascii "/content/" ++ formatInt id

def dateElement (days : Int) : List Xml :=
  if days ≠ 0 then
    let (year, month, day) := Calendar.civilFromDays days
    [.leaf "dc:date" (formatPadded 4 year ++ ascii "-" ++ formatPadded 2 month ++ ascii "-" ++
      formatPadded 2 day)]
  else []

/-- `key_as_ResourceKey()`, null for a key of the other type. -/
def LibraryKey.asResourceKey : LibraryKey → Option ResourceKey
  | .resourceKey key => some key
  | .objectKey _ => none

def artworkElements (contentBase : Bytes) (artwork : Artwork) : Except Failure (List Xml) :=
  match artwork.ref.asResourceKey with
  | none => .error (.nullResourceKey artwork.ref)
  | some key =>
      let url := resourceUrl contentBase key.id
      let type := match artwork.type with
        | .poster => ascii "poster"
        | .thumbnail => ascii "thumb"
      .ok [.leaf "upnp:albumArtURI" url,
        .element (ascii "xbmc:artwork") [(ascii "type", type)] [.pcdata url]]

def resourceElement (contentBase : Bytes) (ref : ResourceRef) : Except Failure Xml :=
  match ref.ref.asResourceKey with
  | none => .error .invalidResourceRef
  | some key =>
      .ok (.element (ascii "res") [(ascii "protocolInfo", asCString ref.protocolInfo)]
        [.pcdata (resourceUrl contentBase key.id)])

def commonAttributes (object : MediaObject) : List (Bytes × Bytes) :=
  [(ascii "id", formatInt object.id.id), (ascii "parentID", formatInt object.parentId.id),
    (ascii "restricted", ascii "1")]

/-- `serialize_common_fields` -/
def commonFields (contentBase : Bytes) (object : MediaObject) : Except Failure (List Xml) := do
  let artwork ← object.artworks.mapM (artworkElements contentBase)
  .ok ([.leaf "dc:title" (asCString object.dcTitle),
    .leaf "upnp:class" (asCString object.upnpClass)] ++ dateElement object.dcDate ++
    artwork.flatten)

/-- Append the element of an object; whether there was one to append. -/
def serializeMediaObject (didlRoot : List Xml) (contentBase : Bytes) (object : MediaObject) :
    Except Failure (Bool × List Xml) :=
  match object.data with
  | .mediaItem item => do
      let fields ← commonFields contentBase object
      let resources ← (item.resources.getD []).mapM (resourceElement contentBase)
      .ok (true, didlRoot ++
        [.element (ascii "item") (commonAttributes object) (fields ++ resources)])
  | .mediaContainer _ => do
      let fields ← commonFields contentBase object
      .ok (true, didlRoot ++ [.element (ascii "container") (commonAttributes object) fields])
  | .none => .ok (false, didlRoot)

/-- `ranges::count_if` over a page, serializing every entry on the way. -/
def countSerialized (view : ListResultView) (contentBase : Bytes) :
    List LibraryKey → Nat → List Xml → Except Failure (Nat × List Xml)
  | [], count, didlRoot => .ok (count, didlRoot)
  | key :: rest, count, didlRoot => do
      let object ← view.read key
      let (counted, didlRoot) ← serializeMediaObject didlRoot contentBase object
      countSerialized view contentBase rest (if counted then count + 1 else count) didlRoot

/-- What a browse response says. -/
structure BrowseResult where
  numberReturned : Nat
  totalMatches : Nat
  didl : List Xml

/-- The first half of `browse_response`.  A requested count of 0 becomes the
size, as far as 32 bits hold it. -/
def browseResult (view : ListResultView) (startIndex requestedCount : UInt32)
    (baseUrl : Bytes) : Except Failure BrowseResult := do
  let size := view.objects.length
  let requestedCount := if requestedCount = 0 then size.toUInt32 else requestedCount
  let page := (view.objects.drop startIndex.toNat).take requestedCount.toNat
  let (count, didl) ← countSerialized view baseUrl page 0 []
  .ok ⟨count, size, didl⟩

def didlDocument (didl : List Xml) : XmlDocument :=
  generatePreamble "DIDL-Lite" "urn:schemas-upnp-org:metadata-1-0/DIDL-Lite/"
    [(ascii "xmlns:upnp", ascii "urn:schemas-upnp-org:metadata-1-0/upnp/"),
      (ascii "xmlns:dc", ascii "http://purl.org/dc/elements/1.1/"),
      (ascii "xmlns:xbmc", ascii "urn:schemas-xbmc-org:metadata-1-0/")] didl

def addSoapEnvelope (body : List Xml) : XmlDocument where
  declaration := []
  root := .element (ascii "s:Envelope")
    [(ascii "xmlns:s", ascii "http://schemas.xmlsoap.org/soap/envelope/"),
      (ascii "s:encodingStyle", ascii "http://schemas.xmlsoap.org/soap/encoding/")]
    [.element (ascii "s:Body") [] body]

/-- The second half of `browse_response`: the printed DIDL document becomes the
text of the result. -/
def BrowseResult.document (pugi : PugiXml) (result : BrowseResult) : XmlDocument :=
  addSoapEnvelope [.element (ascii "u:BrowseResponse")
    [(ascii "xmlns:u", ascii "urn:schemas-upnp-org:service:ContentDirectory:1")]
    [.leaf "NumberReturned" (formatNat result.numberReturned),
      .leaf "TotalMatches" (formatNat result.totalMatches),
      .leaf "UpdateID" (ascii "0"),
      .leaf "Result" (cString (pugi.print (didlDocument result.didl) ++ [0]))]]

def browseResponse (pugi : PugiXml) (view : ListResultView)
    (startIndex requestedCount : UInt32) (baseUrl : Bytes) : Except Failure Bytes := do
  let result ← browseResult view startIndex requestedCount baseUrl
  .ok (pugi.print (result.document pugi))

/-- `error_response` -/
def errorResponse (pugi : PugiXml) (code : Int) (description : Bytes) : Bytes :=
  pugi.print (addSoapEnvelope [.element (ascii "s:Fault") []
    [.leaf "faultcode" (ascii "s:Client"), .leaf "faultstring" (ascii "UPnPError"),
      .element (ascii "detail") []
        [.element (ascii "UPnPError") [(ascii "xmlns", ascii "urn:schemas-upnp-org:control-1-0")]
          [.leaf "errorCode" (formatInt code), .leaf "errorDescription" description]]]])

end Eems

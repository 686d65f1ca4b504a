/-
The UPnP service: the device and service descriptions, and the SOAP action
that browses the library.
-/
import Eems.Http
import Eems.XmlSerialization

namespace Eems

open Numeral

/-- What the descriptions are made from: the server's configuration, and the
texts of the two service descriptions. -/
structure ServerConfig where
  uuid : Bytes
  name : Bytes
  baseUrl : Bytes
  cdsXml : Bytes
  cmXml : Bytes
deriving DecidableEq, Repr

def serviceElement (service : String) (path : String) : Xml :=
  .element (ascii "service") []
    [.leaf "serviceType" (ascii "urn:schemas-upnp-org:service:" ++ ascii service ++ ascii ":1"),
      .leaf "serviceId" (ascii "urn:upnp-org:serviceId:" ++ ascii service),
      .leaf "SCPDURL" (ascii "upnp/" ++ ascii path ++ ascii ".xml"),
      .leaf "controlURL" (ascii "upnp/" ++ ascii path),
      .leaf "eventSubURL" (ascii "upnp/event/" ++ ascii path)]

def rootDeviceDescription (pugi : PugiXml) (config : ServerConfig) : Bytes :=
  pugi.print (generatePreamble "root" "urn:schemas-upnp-org:device-1-0" []
    [.element (ascii "specVersion") []
      [.leaf "major" (ascii "1"), .leaf "minor" (ascii "0")],
    .leaf "URLBase" (cString config.baseUrl),
    .element (ascii "device") []
      [.leaf "deviceType" (ascii "urn:schemas-upnp-org:device:MediaServer:1"),
        .leaf "friendlyName" (cString config.name),
        .leaf "UDN" (ascii "uuid:" ++ config.uuid),
        .element (ascii "dlna:X_DLNADOC")
          [(ascii "xmlns:dlna", ascii "urn:schemas-dlna-org:device-1-0")]
          [.pcdata (ascii "DMS-1.50")],
        .element (ascii "serviceList") []
          [serviceElement "ContentDirectory" "cds", serviceElement "ConnectionManager" "cm"]]])

/-- `soap_action_info`; the parameters are null when the document has none. -/
structure SoapActionInfo where
  serviceId : Bytes
  action : Bytes
  params : Option Xml

/-- The name of a node without its namespace prefix. -/
def localName (node : Option Xml) : Bytes :=
  let name := (node.map Xml.name).getD []
  if name.contains 58 then (name.dropWhile (· ≠ 58)).drop 1 else name

def quote : UInt8 := 34
def hash : UInt8 := 35

/-- `'"' >> +(char_ - '#') >> '#' >> +(char_ - '"') >> '"'` -/
def parseSoapAction (text : Bytes) : Option (Bytes × Bytes) :=
  match text with
  | [] => none
  | b :: text =>
      let serviceId := text.takeWhile (· ≠ hash)
      let rest := (text.dropWhile (· ≠ hash)).drop 1
      let action := rest.takeWhile (· ≠ quote)
      if b ≠ quote || serviceId.isEmpty || action.isEmpty ||
          rest.dropWhile (· ≠ quote) ≠ [quote] then none
      else some (serviceId, action)

def parseSoapRequest (pugi : PugiXml) (request : HttpRequest) :
    Except ServerError SoapActionInfo :=
  if request.method ≠ .post then
    .error (.http Status.badRequest (ascii "Unsupported HTTP-method"))
  else if !(ascii "text/xml").isPrefixOf (request.field "content-type") then
    .error (.http Status.unsupportedMediaType (ascii "Must be an XML"))
  else match parseSoapAction (request.field "soapaction") with
    | none => .error (.http Status.badRequest (ascii "Invalid SOAPACTION header"))
    | some (serviceId, action) =>
        match pugi.load request.body with
        | .error description => .error (.http Status.badRequest description)
        | .ok root =>
            let params := root.children.head?.bind fun body => body.children.head?
            if localName params ≠ action then
              .error (.http Status.badRequest (ascii "Invalid action element"))
            else .ok ⟨serviceId, action, params⟩

/-- `child_value` of a node that may be null. -/
def paramValue (params : Option Xml) (name : String) : Bytes :=
  (params.map fun node => node.childValue name).getD []

/-- The page that the parameters ask for. -/
def browsePage (db : Db) (baseUrl : Bytes) (params : Option Xml) :
    Except ServerError BrowseResult :=
  match parseInt64 (paramValue params "ObjectID") with
  | none => .error (.upnp .noSuchObject (ascii "Invalid ID"))
  | some objectId =>
      match parseUint32 (paramValue params "StartingIndex") with
      | none => .error (.upnp .invalidArgs (ascii "Invalid StartingIndex"))
      | some startIndex =>
          match parseUint32 (paramValue params "RequestedCount") with
          | none => .error (.upnp .invalidArgs (ascii "Invalid RequestedCount"))
          | some requestedCount => do
              let flag := paramValue params "BrowseFlag"
              let contents ←
                if flag = ascii "BrowseDirectChildren" then
                  fromStore (StoreService.list db ⟨objectId⟩)
                else if flag = ascii "BrowseMetadata" then
                  .ok (StoreService.get db ⟨objectId⟩)
                else .error (.upnp .argumentValueOutOfRange (ascii "Invalid BrowseFlag"))
              fromStore (browseResult contents startIndex requestedCount baseUrl)

/-- `handle_cds_browse`, up to the body that it sends. -/
def handleCdsBrowse (pugi : PugiXml) (db : Db) (baseUrl : Bytes) (params : Option Xml) :
    Except ServerError Bytes :=
  (browsePage db baseUrl params).map fun result => pugi.print (result.document pugi)

/-- `handle_upnp_request`, up to the body that it sends. -/
def handleUpnpRequest (pugi : PugiXml) (db : Db) (config : ServerConfig)
    (request : HttpRequest) (subPath : Path) : Except ServerError Bytes :=
  if subPath = ascii "device" then .ok (rootDeviceDescription pugi config)
  else if subPath = ascii "cds.xml" then .ok (cString config.cdsXml)
  else if subPath = ascii "cm.xml" then .ok (cString config.cmXml)
  else do
    let soapInfo ← parseSoapRequest pugi request
    if subPath = ascii "cds" then
      if soapInfo.action ≠ ascii "Browse" then
        .error (.http Status.badRequest (ascii "Invalid action"))
      else handleCdsBrowse pugi db config.baseUrl soapInfo.params
    else .error (.http Status.notFound (ascii "Not found"))

end Eems

/-
From a search to the library: a control point that follows what the answer to
its search and the description of the device tell it, and what it finds there.
-/
import Eems.BrowseAnswers
import Eems.DiscoveryService
import Eems.ServerFraming

namespace Eems

open Numeral

/-- What the description of a device says of one of its services. -/
structure ServiceInfo where
  serviceType : Bytes
  scpdUrl : Bytes
  controlUrl : Bytes
  eventSubUrl : Bytes
deriving DecidableEq, Repr

structure DeviceInfo where
  urlBase : Bytes
  udn : Bytes
  services : List ServiceInfo
deriving DecidableEq, Repr

/-- `child(name)`, an empty element where there is none. -/
def Xml.childElement (node : Xml) (name : String) : Xml :=
  (node.children.find? fun child => child.name = ascii name).getD (.element [] [] [])

def serviceInfo (service : Xml) : ServiceInfo where
  serviceType := service.childValue "serviceType"
  scpdUrl := service.childValue "SCPDURL"
  controlUrl := service.childValue "controlURL"
  eventSubUrl := service.childValue "eventSubURL"

/-- The parts of a description that a control point goes by. -/
def deviceInfo (root : Xml) : DeviceInfo :=
  let device := root.childElement "device"
  { urlBase := root.childValue "URLBase"
    udn := device.childValue "UDN"
    services := (device.childElement "serviceList").children.map serviceInfo }

/-- A URL of the description, which is relative to its base. -/
def DeviceInfo.resolve (info : DeviceInfo) (url : Bytes) : Bytes :=
  info.urlBase ++ ascii "/" ++ url

def contentDirectory : Bytes := ascii "urn:schemas-upnp-org:service:ContentDirectory:1"

/-- The document that `root_device_description` prints. -/
def descriptionDocument (config : ServerConfig) : XmlDocument :=
  generatePreamble "root" "urn:schemas-upnp-org:device-1-0" []
    [.element (ascii "specVersion") []
      [.leaf "major" (ascii "1"), .leaf "minor" (ascii "0")],
    .leaf "URLBase" (cString config.baseUrl),
    .element (ascii "device") []
      [.leaf "deviceType" (ascii "urn:schemas-upnp-org:device:MediaServer:1"),
        .leaf "friendlyName" (cString config.name),
        .leaf "UDN" (ascii "uuid:" ++ config.uuid),
        .element (ascii "dlna:X_DLNADOC")
          [(ascii "xmlns:dlna", ascii "urn:schemas-dlna-org:device-1-0")]
          [.pcdata (ascii "DMS-1.50")],
        .element (ascii "serviceList") []
          [serviceElement "ContentDirectory" "cds", serviceElement "ConnectionManager" "cm"]]]

theorem print_descriptionDocument (pugi : PugiXml) (config : ServerConfig) :
    pugi.print (descriptionDocument config) = rootDeviceDescription pugi config := rfl

/-- One service of the server. -/
def serverService (service path : String) : ServiceInfo where
  serviceType := ascii "urn:schemas-upnp-org:service:" ++ ascii service ++ ascii ":1"
  scpdUrl := ascii "upnp/" ++ ascii path ++ ascii ".xml"
  controlUrl := ascii "upnp/" ++ ascii path
  eventSubUrl := ascii "upnp/event/" ++ ascii path

theorem deviceInfo_description {config : ServerConfig} (hbase : 0 ∉ config.baseUrl) :
    deviceInfo (descriptionDocument config).root =
      ⟨config.baseUrl, ascii "uuid:" ++ config.uuid,
        [serverService "ContentDirectory" "cds", serverService "ConnectionManager" "cm"]⟩ := by
  rw [← cString_of_notMem hbase]
  rfl

section Routes

variable {server : Server} {fuel : Nat} {arrival : Arrival}

theorem handle_device
    (h : splitTarget arrival.request.target = some (ascii "upnp", ascii "device")) :
    server.handle fuel arrival = createBufferResponse arrival.request
      (rootDeviceDescription server.pugi server.config) "text/xml" := by
  simp only [Server.handle, h, ↓reduceIte, handleUpnpRequest]

theorem handle_cdsXml
    (h : splitTarget arrival.request.target = some (ascii "upnp", ascii "cds.xml")) :
    server.handle fuel arrival =
      createBufferResponse arrival.request (cString server.config.cdsXml) "text/xml" := by
  have hne : ascii "cds.xml" ≠ ascii "device" := by decide
  simp only [Server.handle, h, ↓reduceIte, handleUpnpRequest, if_neg hne]

theorem handle_cmXml
    (h : splitTarget arrival.request.target = some (ascii "upnp", ascii "cm.xml")) :
    server.handle fuel arrival =
      createBufferResponse arrival.request (cString server.config.cmXml) "text/xml" := by
  have hne : ascii "cm.xml" ≠ ascii "device" ∧ ascii "cm.xml" ≠ ascii "cds.xml" := by decide
  simp only [Server.handle, h, ↓reduceIte, handleUpnpRequest, if_neg hne.1, if_neg hne.2]

/-- The reply is an error response. -/
def Refused (server : Server) (fuel : Nat) (arrival : Arrival) : Prop :=
  ∃ status what, status ≠ Status.ok ∧
    server.handle fuel arrival = makeErrorResponse status what arrival.request

theorem parseSoapRequest_error {pugi : PugiXml} {request : HttpRequest} {error : ServerError}
    (h : parseSoapRequest pugi request = .error error) :
    ∃ status what, error = .http status what ∧ status ≠ Status.ok := by
  unfold parseSoapRequest at h
  split at h
  · exact ⟨_, _, (Except.error.inj h).symm, by decide⟩
  · split at h
    · exact ⟨_, _, (Except.error.inj h).symm, by decide⟩
    · split at h
      · exact ⟨_, _, (Except.error.inj h).symm, by decide⟩
      · split at h
        · exact ⟨_, _, (Except.error.inj h).symm, by decide⟩
        · simp only at h
          split at h
          · exact ⟨_, _, (Except.error.inj h).symm, by decide⟩
          · simp at h

/-- Below `/upnp` only the descriptions and the control of the library are
there. -/
theorem handle_refused {subPath : Path}
    (h : splitTarget arrival.request.target = some (ascii "upnp", subPath))
    (hsub : subPath ∉ [ascii "device", ascii "cds.xml", ascii "cm.xml", ascii "cds"]) :
    Refused server fuel arrival := by
  simp only [List.mem_cons, List.not_mem_nil, or_false, not_or] at hsub
  obtain ⟨hdevice, hcdsXml, hcmXml, hcds⟩ := hsub
  cases hparse : parseSoapRequest server.pugi arrival.request with
  | error error =>
      obtain ⟨status, what, rfl, hstatus⟩ := parseSoapRequest_error hparse
      refine ⟨status, what, hstatus, ?_⟩
      simp only [Server.handle, h, ↓reduceIte, handleUpnpRequest, if_neg hdevice, if_neg hcdsXml,
        if_neg hcmXml, hparse, bind, Except.bind, Server.recover]
  | ok soapInfo =>
      refine ⟨Status.notFound, ascii "Not found", by decide, ?_⟩
      simp only [Server.handle, h, ↓reduceIte, handleUpnpRequest, if_neg hdevice, if_neg hcdsXml,
        if_neg hcmXml, if_neg hcds, hparse, bind, Except.bind, Server.recover]

/-- A page that can be made is sent. -/
theorem BrowseRequest.handle_of_ok {flag : BrowseFlag} {id : Int} {start count : UInt32}
    (h : BrowseRequest server.pugi arrival.request flag id start count) {result : BrowseResult}
    (hpage : flag.page server.db id start count server.config.baseUrl = .ok result) :
    server.handle fuel arrival = createBufferResponse arrival.request
      (server.pugi.print (result.document server.pugi)) "text/xml" := by
  have hone : server.handleConnections fuel [arrival] = [server.handle fuel arrival] := by
    simp only [Server.handleConnections]
    split <;> rfl
  rw [h.handleConnections_of_ok hpage] at hone
  exact (List.cons.inj hone).1.symm

end Routes

/-- What the server has behind the URLs of a service: its description, nothing
to subscribe to, and control of the library, or of nothing. -/
structure Offered (server : Server) (info : DeviceInfo) (service : ServiceInfo) : Prop where
  described : ∃ target text, info.resolve service.scpdUrl = server.config.baseUrl ++ target ∧
    ∀ fuel arrival, arrival.request.target = target →
      server.handle fuel arrival = createBufferResponse arrival.request text "text/xml"
  events : ∃ target, info.resolve service.eventSubUrl = server.config.baseUrl ++ target ∧
    ∀ fuel arrival, arrival.request.target = target → Refused server fuel arrival
  control : ∃ target, info.resolve service.controlUrl = server.config.baseUrl ++ target ∧
    (service.serviceType = contentDirectory →
      splitTarget target = some (ascii "upnp", ascii "cds")) ∧
    (service.serviceType ≠ contentDirectory →
      ∀ fuel arrival, arrival.request.target = target → Refused server fuel arrival)

theorem offered_services {server : Server} (hbase : 0 ∉ server.config.baseUrl) :
    ∀ service ∈ (deviceInfo (descriptionDocument server.config).root).services,
      Offered server (deviceInfo (descriptionDocument server.config).root) service := by
  rw [deviceInfo_description hbase]
  have hresolve : ∀ (url : Bytes) (services : List ServiceInfo),
      DeviceInfo.resolve ⟨server.config.baseUrl, ascii "uuid:" ++ server.config.uuid, services⟩
        url = server.config.baseUrl ++ (ascii "/" ++ url) := by
    intro url services
    rw [DeviceInfo.resolve, List.append_assoc]
  intro service hservice
  simp only [List.mem_cons, List.not_mem_nil, or_false] at hservice
  rcases hservice with rfl | rfl
  · refine ⟨⟨_, cString server.config.cdsXml, hresolve _ _, ?_⟩, ⟨_, hresolve _ _, ?_⟩,
      ⟨_, hresolve _ _, ?_, ?_⟩⟩
    · intro fuel arrival htarget
      exact handle_cdsXml (by rw [htarget]; decide)
    · intro fuel arrival htarget
      exact @handle_refused _ _ _ (ascii "event/cds") (by rw [htarget]; decide) (by decide)
    · exact fun _ => by decide
    · exact fun hother => absurd (by decide) hother
  · refine ⟨⟨_, cString server.config.cmXml, hresolve _ _, ?_⟩, ⟨_, hresolve _ _, ?_⟩,
      ⟨_, hresolve _ _, ?_, ?_⟩⟩
    · intro fuel arrival htarget
      exact handle_cmXml (by rw [htarget]; decide)
    · intro fuel arrival htarget
      exact @handle_refused _ _ _ (ascii "event/cm") (by rw [htarget]; decide) (by decide)
    · exact fun hother => absurd hother (by decide)
    · intro _ fuel arrival htarget
      exact @handle_refused _ _ _ (ascii "cm") (by rw [htarget]; decide) (by decide)

/-- Every answer of the discovery service is one to a request. -/
theorem DiscoveryService.exists_handleRequest {parser : RequestParser} {config : DiscoveryConfig}
    {datagrams : List Bytes} {response : DiscoveryResponse}
    (h : some response ∈ runService parser config datagrams) :
    ∃ request, handleRequest config request = some response := by
  induction datagrams with
  | nil => simp [runService] at h
  | cons datagram rest ih =>
      rw [runService] at h
      cases hparse : parser.parse (received datagram) with
      | none => simp [hparse] at h
      | some request =>
          simp only [hparse, List.mem_cons] at h
          rcases h with hfirst | hrest
          · exact ⟨request, hfirst.symm⟩
          · exact ih hrest

/-- The answer names what was searched for, the device and its description. -/
theorem DiscoveryService.fields_of_handleRequest {config : DiscoveryConfig} {request : HttpRequest}
    {response : DiscoveryResponse} (h : handleRequest config request = some response) :
    ∃ st, (ascii "st", st) ∈ response.fields ∧
      (ascii "location", config.baseUrl ++ ascii "/upnp/device") ∈ response.fields ∧
      (ascii "usn", ascii "uuid:" ++ config.uuid ++ ascii "::" ++ st) ∈ response.fields := by
  have hsearch : ∃ st, IsSearch request st := by
    by_contra hnone
    rw [handleRequest_of_not_isSearch (not_exists.mp hnone)] at h
    simp at h
  obtain ⟨st, hst⟩ := hsearch
  have hknown : ¬ (st ≠ rootDevice ∧ st ≠ mediaServer) := by
    rcases hst.known with hroot | hserver
    · simp [hroot]
    · simp [hserver]
  simp only [handleRequest, hst.method, hst.target, hst.man, hst.named, ne_eq, not_true_eq_false,
    if_false, if_neg hknown, Option.some.injEq] at h
  subst h
  exact ⟨st, by simp, by simp, by simp⟩

/-- The way from a search to the library: the answer to the search leads to a
description of the device it names, the description to a content directory, and
that to the pages of all objects that can be browsed; whatever else the
description offers is a description, or refused. -/
theorem search_leads_to_library [ArtworkSorter] {calls : List ScanCall} {system : System}
    (h : Reachable calls system) {server : Server} (hdb : server.db = system.db)
    (hbase : 0 ∉ server.config.baseUrl)
    (hread : server.pugi.load (server.pugi.print (descriptionDocument server.config)) =
      .ok (descriptionDocument server.config).root)
    {parser : RequestParser} {datagrams : List Bytes} {response : DiscoveryResponse}
    (hsent : some response ∈ DiscoveryService.runService parser
      ⟨server.config.baseUrl, server.config.uuid⟩ datagrams) :
    ∃ st target info, (ascii "st", st) ∈ response.fields ∧
      (ascii "location", server.config.baseUrl ++ target) ∈ response.fields ∧
      (ascii "usn", info.udn ++ ascii "::" ++ st) ∈ response.fields ∧
      (∀ fuel arrival, arrival.request.target = target → ∃ body root,
        server.handle fuel arrival = createBufferResponse arrival.request body "text/xml" ∧
        server.pugi.load body = .ok root ∧ deviceInfo root = info) ∧
      (∃ service ∈ info.services, service.serviceType = contentDirectory) ∧
      (∀ service ∈ info.services, Offered server info service) ∧
      ∀ fuel arrival flag id start count,
        BrowseRequest server.pugi arrival.request flag id start count →
        CanBrowse system.db flag id → ∃ result,
          flag.page system.db id start count server.config.baseUrl = .ok result ∧
          server.handle fuel arrival = createBufferResponse arrival.request
            (server.pugi.print (result.document server.pugi)) "text/xml" := by
  obtain ⟨request, hrequest⟩ := DiscoveryService.exists_handleRequest hsent
  obtain ⟨st, hst, hlocation, husn⟩ := DiscoveryService.fields_of_handleRequest hrequest
  refine ⟨st, ascii "/upnp/device", deviceInfo (descriptionDocument server.config).root, hst,
    hlocation, ?_, ?_, ?_, offered_services hbase, ?_⟩
  · rw [deviceInfo_description hbase]
    exact husn
  · intro fuel arrival htarget
    refine ⟨server.pugi.print (descriptionDocument server.config), _, ?_, hread, rfl⟩
    rw [print_descriptionDocument]
    exact handle_device (by rw [htarget]; decide)
  · rw [deviceInfo_description hbase]
    exact ⟨_, List.mem_cons_self, by decide⟩
  · intro fuel arrival flag id start count hbrowse hcan
    obtain ⟨result, hresult⟩ := exists_browseResult h.library hcan start count
      server.config.baseUrl
    rw [← hdb] at hresult
    exact ⟨result, hdb ▸ hresult, hbrowse.handle_of_ok hresult⟩

/-- The films, with an XML library that reads its own description. -/
def describedServer (db : Db) : Server where
  pugi := pugiReading (descriptionDocument filmServer.config)
  config := filmServer.config
  db := db
  files := filmServer.files

theorem db_describedServer (db : Db) : (describedServer db).db = db := rfl

theorem load_pugiReading (document : XmlDocument) :
    (pugiReading document).load ((pugiReading document).print document) = .ok document.root :=
  if_pos rfl

theorem load_describedServer (db : Db) :
    (describedServer db).pugi.load ((describedServer db).pugi.print
      (descriptionDocument (describedServer db).config)) =
        .ok (descriptionDocument (describedServer db).config).root :=
  load_pugiReading (descriptionDocument filmServer.config)

theorem search_leads_to_films :
    ∃ response, some response ∈ DiscoveryService.runService DiscoveryService.searchParser
        ⟨filmServer.config.baseUrl, filmServer.config.uuid⟩ [DiscoveryService.searchDatagram] ∧
      ∃ st target info, (ascii "st", st) ∈ response.fields ∧
        (ascii "location", filmServer.config.baseUrl ++ target) ∈ response.fields ∧
        ∀ service ∈ DeviceInfo.services info,
          Offered (describedServer filmSystem.db) info service := by
  have hanswered : ((DiscoveryService.runService DiscoveryService.searchParser
      ⟨filmServer.config.baseUrl, filmServer.config.uuid⟩
        [DiscoveryService.searchDatagram]).head?.bind id).isSome = true := by decide +kernel
  obtain ⟨response, hresponse⟩ := Option.isSome_iff_exists.mp hanswered
  obtain ⟨sent, hsent, rfl⟩ := Option.bind_eq_some_iff.mp hresponse
  have hmem := List.mem_of_head? hsent
  obtain ⟨st, target, info, hst, hlocation, -, -, -, hoffered, -⟩ :=
    @search_leads_to_library insertionSorter _ _ reachable_films (describedServer filmSystem.db)
      (db_describedServer _) (by decide) (load_describedServer _) _ _ _ hmem
  exact ⟨response, hmem, st, target, info, hst, hlocation, hoffered⟩

end Eems

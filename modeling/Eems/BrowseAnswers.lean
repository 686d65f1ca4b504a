/-
What a client gets back for a well-formed `Browse` request: a page of the
library, or nothing at all.
-/
import Eems.BrowsePaging
import Eems.Server

namespace Eems

inductive BrowseFlag where
  | metadata
  | directChildren
deriving DecidableEq, Repr

def BrowseFlag.text : BrowseFlag → Bytes
  | .metadata => ascii "BrowseMetadata"
  | .directChildren => ascii "BrowseDirectChildren"

/-- A request that `handle_cds_browse` is reached by, with arguments of the
types they are declared with. -/
structure BrowseRequest (pugi : PugiXml) (request : HttpRequest) (flag : BrowseFlag) (id : Int)
    (start count : UInt32) : Prop where
  method : request.method = .post
  target : splitTarget request.target = some (ascii "upnp", ascii "cds")
  content_type : (ascii "text/xml").isPrefixOf (request.field "content-type") = true
  soap_action : ∃ serviceId,
    parseSoapAction (request.field "soapaction") = some (serviceId, ascii "Browse")
  params : ∃ root params, pugi.load request.body = .ok root ∧
    root.children.head?.bind (fun body => body.children.head?) = some params ∧
    localName (some params) = ascii "Browse" ∧
    parseInt64 (paramValue (some params) "ObjectID") = some id ∧
    paramValue (some params) "BrowseFlag" = flag.text ∧
    parseUint32 (paramValue (some params) "StartingIndex") = some start ∧
    parseUint32 (paramValue (some params) "RequestedCount") = some count

/-- The object is there, and for its children a container. -/
def CanBrowse (db : Db) (flag : BrowseFlag) (id : Int) : Prop :=
  ∃ object, objectAt db (.objectKey ⟨id⟩) = some object ∧
    (flag = .directChildren → object.IsContainer)

/-- One response: a `BrowseResponse` where the object can be browsed, a UPnP
error where it cannot, and `no_such_object` where it is not stored. -/
def BrowseAnswered (server : Server) (request : HttpRequest) (flag : BrowseFlag) (id : Int)
    (replies : List Reply) : Prop :=
  (CanBrowse server.db flag id → ∃ result : BrowseResult, replies =
    [createBufferResponse request (server.pugi.print (result.document server.pugi)) "text/xml"]) ∧
  (¬ CanBrowse server.db flag id → ∃ code what,
    replies = [makeUpnpErrorResponse server.pugi code what request] ∧
      (objectAt server.db (.objectKey ⟨id⟩) = none → code = .noSuchObject))

section Browse

variable {flag : BrowseFlag} {id : Int} {start count : UInt32}

/-- The entries that a flag asks for. -/
def BrowseFlag.contents (db : Db) (id : Int) : BrowseFlag → Except Failure ListResultView
  | .metadata => .ok (StoreService.get db ⟨id⟩)
  | .directChildren => StoreService.list db ⟨id⟩

/-- The page that a flag asks for. -/
def BrowseFlag.page (flag : BrowseFlag) (db : Db) (id : Int) (start count : UInt32)
    (baseUrl : Bytes) : Except Failure BrowseResult := do
  let contents ← flag.contents db id
  browseResult contents start count baseUrl

theorem BrowseFlag.page_print (pugi : PugiXml) (db : Db) (baseUrl : Bytes) :
    (flag.page db id start count baseUrl).map (fun result => pugi.print (result.document pugi)) =
      flag.contents db id >>= fun contents => browseResponse pugi contents start count baseUrl := by
  cases hcontents : flag.contents db id with
  | error failure => simp [page, hcontents, bind, Except.bind, Except.map]
  | ok contents =>
      cases hresult : browseResult contents start count baseUrl <;>
        simp [page, browseResponse, hcontents, hresult, bind, Except.bind, Except.map]

/-- A well-formed request comes down to the page of its entries. -/
theorem BrowseRequest.browsePage_eq {pugi : PugiXml} {request : HttpRequest}
    (h : BrowseRequest pugi request flag id start count) :
    ∃ soapInfo, parseSoapRequest pugi request = .ok soapInfo ∧
      soapInfo.action = ascii "Browse" ∧
      ∀ db baseUrl, browsePage db baseUrl soapInfo.params =
        fromStore (flag.page db id start count baseUrl) := by
  obtain ⟨serviceId, haction⟩ := h.soap_action
  obtain ⟨root, params, hload, hparams, hname, hid, hflag, hstart, hcount⟩ := h.params
  refine ⟨⟨serviceId, ascii "Browse", some params⟩, ?_, rfl, fun db baseUrl => ?_⟩
  · simp [parseSoapRequest, h.method, h.content_type, haction, hload, hparams, hname]
  · have hne : ascii "BrowseMetadata" ≠ ascii "BrowseDirectChildren" := by decide
    cases flag with
    | metadata =>
        simp [browsePage, hid, hstart, hcount, hflag, BrowseFlag.text, hne, BrowseFlag.page,
          BrowseFlag.contents, bind, Except.bind]
    | directChildren =>
        cases hlist : StoreService.list db ⟨id⟩ <;>
          simp [browsePage, hid, hstart, hcount, hflag, BrowseFlag.text, BrowseFlag.page,
            BrowseFlag.contents, hlist, fromStore, bind, Except.bind]

section Reply

variable {server : Server} {fuel : Nat} {arrival : Arrival}
  (h : BrowseRequest server.pugi arrival.request flag id start count)

include h

/-- What is sent is the `browse_response` for the entries asked for. -/
theorem BrowseRequest.handleUpnpRequest_eq :
    handleUpnpRequest server.pugi server.db server.config arrival.request (ascii "cds") =
      fromStore (flag.contents server.db id >>= fun contents =>
        browseResponse server.pugi contents start count server.config.baseUrl) := by
  obtain ⟨soapInfo, hparse, haction, hpage⟩ := h.browsePage_eq
  have hdevice : ascii "cds" ≠ ascii "device" ∧ ascii "cds" ≠ ascii "cds.xml" ∧
    ascii "cds" ≠ ascii "cm.xml" := by decide
  rw [← BrowseFlag.page_print]
  cases hresult : flag.page server.db id start count server.config.baseUrl <;>
    simp [handleUpnpRequest, hdevice, hparse, haction, handleCdsBrowse, hpage, hresult, fromStore,
      bind, Except.bind, Except.map]

/-- A page is sent, -/
theorem BrowseRequest.handleConnections_of_ok {result : BrowseResult}
    (hpage : flag.page server.db id start count server.config.baseUrl = .ok result) :
    server.handleConnections fuel [arrival] =
      [createBufferResponse arrival.request (server.pugi.print (result.document server.pugi))
        "text/xml"] := by
  have hbody := h.handleUpnpRequest_eq
  rw [← BrowseFlag.page_print, hpage] at hbody
  have hreply : server.handle fuel arrival = createBufferResponse arrival.request
      (server.pugi.print (result.document server.pugi)) "text/xml" := by
    simp only [Server.handle, h.target, ↓reduceIte, hbody, fromStore, Except.map]
  simp only [Server.handleConnections, hreply, createBufferResponse, writeResponse]

/-- and for a failure the connection is dropped. -/
theorem BrowseRequest.handleConnections_of_error {failure : Failure}
    (hpage : flag.page server.db id start count server.config.baseUrl = .error failure) :
    server.handleConnections fuel [arrival] = [dropConnection] := by
  have hbody := h.handleUpnpRequest_eq
  rw [← BrowseFlag.page_print, hpage] at hbody
  have hreply : server.handle fuel arrival = dropConnection := by
    simp only [Server.handle, h.target, ↓reduceIte, hbody, fromStore, Except.map, Server.recover]
  simp only [Server.handleConnections, hreply, dropConnection]

end Reply

/-- Where there is no such container the client gets nothing. -/
theorem BrowseRequest.dropped_of_missing {server : Server} {fuel : Nat} {arrival : Arrival}
    (h : BrowseRequest server.pugi arrival.request .directChildren id start count)
    (hmissing : objectAt server.db (.objectKey ⟨id⟩) = none) :
    server.handleConnections fuel [arrival] = [dropConnection] := by
  cases hlist : StoreService.list server.db ⟨id⟩ with
  | error failure =>
      have hpage : BrowseFlag.directChildren.page server.db id start count
          server.config.baseUrl = .error failure := by
        simp [BrowseFlag.page, BrowseFlag.contents, hlist, bind, Except.bind]
      exact h.handleConnections_of_error hpage
  | ok view =>
      obtain ⟨container, hcontainer, -⟩ := list_eq_ok_iff.mp hlist
      exact absurd (hcontainer.symm.trans hmissing) (Option.some_ne_none container)

/-- What can be browsed is shown. -/
theorem exists_browseResult {files : FileInfo → Prop} {db : Db} (hlibrary : Library files db)
    (h : CanBrowse db flag id) (start count : UInt32) (baseUrl : Bytes) :
    ∃ result, flag.page db id start count baseUrl = .ok result := by
  obtain ⟨object, hobject, hcontainer⟩ := h
  have hpage : ∀ objects : List LibraryKey, (∀ key ∈ objects, Browsable db key) →
      ∃ result, browseResult ⟨db, objects⟩ start count baseUrl = .ok result := by
    intro objects hbrowsable
    unfold browseResult
    generalize hpage : (objects.drop start.toNat).take
      (if count = 0 then objects.length.toUInt32 else count).toNat = page
    have hentries : ∀ key ∈ page, Browsable db key := fun key hkey =>
      hbrowsable key (List.mem_of_mem_drop (List.mem_of_mem_take (hpage ▸ hkey)))
    obtain ⟨elements, -, hcount⟩ := countSerialized_eq objects hentries baseUrl 0 []
    simp only [hpage, hcount, bind, Except.bind]
    exact ⟨_, rfl⟩
  cases flag with
  | metadata =>
      exact hpage [.objectKey ⟨id⟩] fun key hkey =>
        List.mem_singleton.mp hkey ▸ hlibrary.browsable hobject
  | directChildren =>
      obtain ⟨result, hresult⟩ := hpage object.children fun key hkey => by
        obtain ⟨child, -, hchild, -⟩ := hlibrary.libraryTree.child_stored _ _ hobject key hkey
        exact hlibrary.browsable hchild
      refine ⟨result, ?_⟩
      simp only [BrowseFlag.page, BrowseFlag.contents,
        list_eq_ok_iff.mpr ⟨object, hobject, hcontainer rfl, rfl⟩, bind, Except.bind]
      exact hresult

/-- A well-formed `Browse` is answered as it should be exactly when the object
can be browsed: the lookup errors of the store are never turned into a
response. -/
theorem browseAnswered_iff [ArtworkSorter] {calls : List ScanCall} {system : System}
    (hreachable : Reachable calls system) {server : Server} (hdb : server.db = system.db)
    {arrival : Arrival}
    (h : BrowseRequest server.pugi arrival.request flag id start count) (fuel : Nat) :
    BrowseAnswered server arrival.request flag id (server.handleConnections fuel [arrival]) ↔
      CanBrowse system.db flag id := by
  constructor
  · intro hanswered
    rw [← hdb]
    by_contra hmissing
    obtain ⟨code, what, hreply, -⟩ := hanswered.2 hmissing
    cases hpage : flag.page server.db id start count server.config.baseUrl with
    | ok result =>
        rw [h.handleConnections_of_ok hpage] at hreply
        have hstatus := congrArg (fun replies : List Reply =>
          replies.map fun reply => reply.header.map ResponseHeader.status) hreply
        simp [createBufferResponse, makeUpnpErrorResponse, writeResponse, Status.ok,
          Status.internalServerError] at hstatus
    | error failure =>
        rw [h.handleConnections_of_error hpage] at hreply
        simp [dropConnection, makeUpnpErrorResponse, writeResponse] at hreply
  · intro hbrowse
    obtain ⟨result, hresult⟩ := exists_browseResult (hdb ▸ hreachable.library) (hdb ▸ hbrowse)
      start count server.config.baseUrl
    rw [h.handleConnections_of_ok hresult]
    exact ⟨fun _ => ⟨result, rfl⟩, fun hmissing => absurd (hdb ▸ hbrowse) hmissing⟩

end Browse

/-- Text with the characters of the markup replaced. -/
def escapeXml (text : Bytes) : Bytes :=
  text.flatMap fun b =>
    if b = 38 then ascii "&amp;" else if b = 60 then ascii "&lt;"
    else if b = 62 then ascii "&gt;" else if b = 34 then ascii "&quot;" else [b]

mutual

/-- A node in the indented format of the XML library. -/
def printNode (indent : Bytes) : Xml → Bytes
  | .pcdata text => escapeXml text
  | .element name attributes children =>
      let head := indent ++ ascii "<" ++ name ++ attributes.flatMap fun pair =>
        ascii " " ++ pair.1 ++ ascii "=\"" ++ escapeXml pair.2 ++ ascii "\""
      match children with
      | [] => head ++ ascii " />\n"
      | [.pcdata text] => head ++ ascii ">" ++ escapeXml text ++ ascii "</" ++ name ++ ascii ">\n"
      | child :: rest =>
          head ++ ascii ">\n" ++ printNode (indent ++ ascii "\t") child ++
            printNodes (indent ++ ascii "\t") rest ++ indent ++ ascii "</" ++ name ++
              ascii ">\n"

def printNodes (indent : Bytes) : List Xml → Bytes
  | [] => []
  | node :: rest => printNode indent node ++ printNodes indent rest

end

def printDocument (document : XmlDocument) : Bytes :=
  (if document.declaration.isEmpty then []
    else ascii "<?xml" ++ (document.declaration.flatMap fun pair =>
      ascii " " ++ pair.1 ++ ascii "=\"" ++ pair.2 ++ ascii "\"") ++ ascii "?>\n") ++
    printNode [] document.root

/-- The XML library at work on one document. -/
def pugiReading (document : XmlDocument) : PugiXml where
  load text :=
    if text = printDocument document then .ok document.root
    else .error (ascii "Error parsing document declaration/processing instruction")
  print := printDocument

/-- A client's request for all children of a container. -/
def browseDocument (id : Int) : XmlDocument := addSoapEnvelope (browseParams id 0 0).toList

def postRequest (body : Bytes) : HttpRequest where
  method := .post
  target := ascii "/upnp/cds"
  version := 11
  keepAlive := true
  fields := [(ascii "Content-Type", ascii "text/xml; charset=utf-8"),
    (ascii "SOAPAction", ascii "\"urn:schemas-upnp-org:service:ContentDirectory:1#Browse\"")]
  body := body

def browseArrival (id : Int) : Arrival where
  request := postRequest (printDocument (browseDocument id))
  write _ := none

def browseServer (db : Db) (id : Int) : Server where
  pugi := pugiReading (browseDocument id)
  config := ⟨[], ascii "EEMS", ascii "http://eems:8200", [], []⟩
  db := db
  files := fun _ => .noSuchFile

theorem field_postRequest (body : Bytes) :
    (postRequest body).field "content-type" = ascii "text/xml; charset=utf-8" ∧
      (postRequest body).field "soapaction" =
        ascii "\"urn:schemas-upnp-org:service:ContentDirectory:1#Browse\"" := by
  have htype : (ascii "Content-Type").map lowerByte = ascii "content-type" := by decide
  have hsoap : (ascii "SOAPAction").map lowerByte = ascii "soapaction" := by decide
  have hne : ascii "content-type" ≠ ascii "soapaction" := by decide
  simp [HttpRequest.field, postRequest, htype, hsoap, hne]

theorem browseRequest_films (db : Db) {id : Int} (hmin : -2 ^ 63 ≤ id) (hmax : id < 2 ^ 63) :
    BrowseRequest (browseServer db id).pugi (browseArrival id).request .directChildren id 0 0 := by
  obtain ⟨hid, hflag, hstart, hcount⟩ := asksChildren_browseParams hmin hmax 0 0
  obtain ⟨htype, hsoap⟩ := field_postRequest (printDocument (browseDocument id))
  have htarget : splitTarget (ascii "/upnp/cds") = some (ascii "upnp", ascii "cds") := by decide
  have hprefix : (ascii "text/xml").isPrefixOf
      ((postRequest (printDocument (browseDocument id))).field "content-type") = true := by
    rw [htype]
    decide
  have haction : parseSoapAction
      ((postRequest (printDocument (browseDocument id))).field "soapaction") =
        some (ascii "urn:schemas-upnp-org:service:ContentDirectory:1", ascii "Browse") := by
    rw [hsoap]
    decide +kernel
  have hload : (browseServer db id).pugi.load (browseArrival id).request.body =
      .ok (browseDocument id).root := by
    simp [browseServer, pugiReading, browseArrival, postRequest]
  refine ⟨rfl, htarget, hprefix, ⟨_, haction⟩, _, _, hload, rfl, ?_, hid,
    hflag, hstart, hcount⟩
  have hname : (ascii "u:Browse").contains 58 = true ∧
      ((ascii "u:Browse").dropWhile (· ≠ 58)).drop 1 = ascii "Browse" := by decide
  simp only [localName, Option.map_some, Option.getD_some, Xml.name, hname, ↓reduceIte]

theorem db_browseServer (db : Db) (id : Int) : (browseServer db id).db = db := rfl

theorem unanswered_of_missing {db : Db} {id : Int}
    (hmissing : objectAt db (.objectKey ⟨id⟩) = none) (hmin : -2 ^ 63 ≤ id) (hmax : id < 2 ^ 63) :
    BrowseRequest (browseServer db id).pugi (browseArrival id).request .directChildren id 0 0 ∧
      (browseServer db id).handleConnections 1 [browseArrival id] = [dropConnection] ∧
      ¬ BrowseAnswered (browseServer db id) (browseArrival id).request .directChildren id
        ((browseServer db id).handleConnections 1 [browseArrival id]) := by
  have hrequest := browseRequest_films db hmin hmax
  have hdropped : (browseServer db id).handleConnections 1 [browseArrival id] =
      [dropConnection] := hrequest.dropped_of_missing hmissing
  refine ⟨hrequest, hdropped, fun hanswered => ?_⟩
  rw [hdropped] at hanswered
  have hbrowse : ¬ CanBrowse (browseServer db id).db .directChildren id := by
    rintro ⟨object, hobject, -⟩
    exact Option.some_ne_none object (hobject.symm.trans hmissing)
  obtain ⟨code, what, hreply, -⟩ := hanswered.2 hbrowse
  simp [dropConnection, makeUpnpErrorResponse, writeResponse] at hreply

theorem browseAnswered_films :
    BrowseAnswered (browseServer filmSystem.db 1) (browseArrival 1).request .directChildren 1
      ((browseServer filmSystem.db 1).handleConnections 1 [browseArrival 1]) := by
  have hstored : (objectAt filmSystem.db (.objectKey ⟨1⟩)).any
      (fun object => object.data.underlying = 1) = true := by decide +kernel
  have hbrowse : CanBrowse filmSystem.db .directChildren 1 := by
    cases hobject : objectAt filmSystem.db (.objectKey ⟨1⟩) with
    | none => simp [hobject] at hstored
    | some object =>
        refine ⟨object, hobject, fun _ => ?_⟩
        rw [hobject] at hstored
        cases hdata : object.data with
        | mediaContainer container => exact ⟨container, hdata⟩
        | none => simp [hdata, ObjectUnion.underlying] at hstored
        | mediaItem item => simp [hdata, ObjectUnion.underlying] at hstored
  exact (@browseAnswered_iff .directChildren 1 0 0 insertionSorter [filmCall] filmSystem
    reachable_films (browseServer filmSystem.db 1) (db_browseServer _ _) (browseArrival 1)
    (browseRequest_films _ (by decide) (by decide)) 1).mpr hbrowse

/-- There is no object 99: the client waits for an answer until the connection
is closed. -/
theorem browse_unanswered :
    BrowseRequest (browseServer filmSystem.db 99).pugi (browseArrival 99).request
        .directChildren 99 0 0 ∧
      (browseServer filmSystem.db 99).handleConnections 1 [browseArrival 99] =
        [dropConnection] ∧
      ¬ BrowseAnswered (browseServer filmSystem.db 99) (browseArrival 99).request
        .directChildren 99
        ((browseServer filmSystem.db 99).handleConnections 1 [browseArrival 99]) := by
  have hmissing : objectAt filmSystem.db (.objectKey ⟨99⟩) = none := by decide +kernel
  exact unanswered_of_missing hmissing (by decide) (by decide)

end Eems

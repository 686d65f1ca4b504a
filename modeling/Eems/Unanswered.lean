/-
The requests that get no response at all: over every connection and every
library that scans lead to, only those that browse what is not there.
-/
import Eems.BrowseAnswers

namespace Eems

section Replies

variable {server : Server} {fuel : Nat} {arrival : Arrival}

theorem header_sendContent (response : ContentResponse) :
    (sendContent fuel arrival response).header = some response.header := by
  unfold sendContent
  split <;> rfl

theorem header_recover_eq_none_iff {request : HttpRequest} {error : ServerError} :
    (server.recover request error).header = none ↔ ∃ failure, error = .store failure := by
  cases error <;> simp [Server.recover, makeErrorResponse, makeUpnpErrorResponse, writeResponse,
    dropConnection]

/-- A service that a request is dispatched to fails in the store. -/
inductive Server.StoreFails (server : Server) (request : HttpRequest) : Prop
  | upnp {subPath : Path} {failure : Failure}
      (target : splitTarget request.target = some (ascii "upnp", subPath))
      (failed : handleUpnpRequest server.pugi server.db server.config request subPath =
        .error (.store failure)) : StoreFails server request
  | content {subPath : Path} {failure : Failure}
      (target : splitTarget request.target = some (ascii "content", subPath))
      (failed : createResponse server.db server.files subPath request =
        .error (.store failure)) : StoreFails server request

/-- Nothing is written exactly where the store fails. -/
theorem header_handle_eq_none_iff :
    (server.handle fuel arrival).header = none ↔ server.StoreFails arrival.request := by
  constructor
  · intro h
    simp only [Server.handle] at h
    split at h
    · simp [makeErrorResponse, writeResponse] at h
    · rename_i first subPath htarget
      split at h
      · rename_i hupnp
        subst hupnp
        split at h
        · simp [createBufferResponse, writeResponse] at h
        · rename_i error herror
          obtain ⟨failure, rfl⟩ := header_recover_eq_none_iff.mp h
          exact .upnp htarget herror
      · split at h
        · rename_i hcontent
          subst hcontent
          split at h
          · simp [header_sendContent] at h
          · rename_i error herror
            obtain ⟨failure, rfl⟩ := header_recover_eq_none_iff.mp h
            exact .content htarget herror
        · simp [makeErrorResponse, writeResponse] at h
  · have hne : ascii "content" ≠ ascii "upnp" := by decide
    rintro (⟨htarget, hfailed⟩ | ⟨htarget, hfailed⟩)
    · simp only [Server.handle, htarget, hfailed, ↓reduceIte, Server.recover, dropConnection]
    · simp only [Server.handle, htarget, hfailed, hne, ↓reduceIte, Server.recover,
        dropConnection]

theorem handleConnections_cons (arrivals : List Arrival) :
    server.handleConnections fuel (arrival :: arrivals) = server.handle fuel arrival ::
      if (server.handle fuel arrival).ending = .keptOpen then
        server.handleConnections fuel arrivals
      else [] := by
  cases hending : (server.handle fuel arrival).ending <;>
    simp [Server.handleConnections, hending]

/-- A reply on a connection is that to some request, all requests before it
having kept the connection open. -/
theorem mem_handleConnections_iff {arrivals : List Arrival} {reply : Reply} :
    reply ∈ server.handleConnections fuel arrivals ↔
      ∃ front arrival rest, arrivals = front ++ arrival :: rest ∧
        (∀ before ∈ front, (server.handle fuel before).ending = .keptOpen) ∧
        reply = server.handle fuel arrival := by
  induction arrivals with
  | nil => simp [Server.handleConnections]
  | cons head tail ih =>
      rw [handleConnections_cons, List.mem_cons]
      constructor
      · rintro (rfl | hreply)
        · exact ⟨[], head, tail, rfl, by simp, rfl⟩
        · split at hreply
          · rename_i hopen
            obtain ⟨front, arrival, rest, rfl, hfront, rfl⟩ := ih.mp hreply
            exact ⟨head :: front, arrival, rest, rfl, List.forall_mem_cons.mpr ⟨hopen, hfront⟩,
              rfl⟩
          · simp at hreply
      · rintro ⟨front, arrival, rest, heq, hfront, rfl⟩
        cases front with
        | nil =>
            obtain ⟨rfl, rfl⟩ := List.cons.inj heq
            exact Or.inl rfl
        | cons first front =>
            obtain ⟨rfl, rfl⟩ := List.cons.inj heq
            obtain ⟨hopen, hfront⟩ := List.forall_mem_cons.mp hfront
            rw [if_pos hopen]
            exact Or.inr (ih.mpr ⟨front, arrival, rest, rfl, hfront, rfl⟩)

end Replies

/-- What a well-formed `Browse` must ask for to meet a record that is not
there. -/
def BrowsesMissing (db : Db) (flag : BrowseFlag) (id : Int) (start : UInt32) : Prop :=
  ¬ CanBrowse db flag id ∧ (flag = .metadata → start = 0)

section Browse

variable {server : Server} {request : HttpRequest} {subPath : Path}

theorem parseSoapRequest_eq_ok {pugi : PugiXml} {soapInfo : SoapActionInfo}
    (h : parseSoapRequest pugi request = .ok soapInfo) :
    request.method = .post ∧ (ascii "text/xml").isPrefixOf (request.field "content-type") = true ∧
      parseSoapAction (request.field "soapaction") = some (soapInfo.serviceId, soapInfo.action) ∧
      localName soapInfo.params = soapInfo.action ∧
      ∃ root, pugi.load request.body = .ok root ∧
        root.children.head?.bind (fun body => body.children.head?) = soapInfo.params := by
  unfold parseSoapRequest at h
  split at h
  · simp at h
  · rename_i hmethod
    split at h
    · simp at h
    · rename_i htype
      split at h
      · simp at h
      · rename_i serviceId action haction
        split at h
        · simp at h
        · rename_i root hload
          simp only at h
          split at h
          · simp at h
          · rename_i hname
            obtain rfl := Except.ok.inj h
            exact ⟨by simpa using hmethod, by simpa using htype, haction, by simpa using hname,
              root, hload, rfl⟩

theorem parseSoapRequest_ne_store {pugi : PugiXml} {failure : Failure} :
    parseSoapRequest pugi request ≠ .error (.store failure) := by
  intro h
  unfold parseSoapRequest at h
  split at h
  · simp at h
  · split at h
    · simp at h
    · split at h
      · simp at h
      · split at h
        · simp at h
        · simp only at h
          split at h <;> simp at h

theorem browsePage_eq_store {db : Db} {baseUrl : Bytes} {params : Option Xml} {failure : Failure}
    (h : browsePage db baseUrl params = .error (.store failure)) :
    ∃ flag : BrowseFlag, ∃ id start count, parseInt64 (paramValue params "ObjectID") = some id ∧
      paramValue params "BrowseFlag" = flag.text ∧
      parseUint32 (paramValue params "StartingIndex") = some start ∧
      parseUint32 (paramValue params "RequestedCount") = some count := by
  unfold browsePage at h
  split at h
  · simp at h
  · rename_i id hid
    split at h
    · simp at h
    · rename_i start hstart
      split at h
      · simp at h
      · rename_i count hcount
        by_cases hchildren : paramValue params "BrowseFlag" = ascii "BrowseDirectChildren"
        · exact ⟨.directChildren, id, start, count, hid, hchildren, hstart, hcount⟩
        · by_cases hmetadata : paramValue params "BrowseFlag" = ascii "BrowseMetadata"
          · exact ⟨.metadata, id, start, count, hid, hmetadata, hstart, hcount⟩
          · simp [hchildren, hmetadata, bind, Except.bind] at h

/-- The store is asked only by a well-formed `Browse`. -/
theorem exists_browseRequest {failure : Failure}
    (htarget : splitTarget request.target = some (ascii "upnp", subPath))
    (hfailed : handleUpnpRequest server.pugi server.db server.config request subPath =
      .error (.store failure)) :
    ∃ flag id start count, BrowseRequest server.pugi request flag id start count ∧
      flag.page server.db id start count server.config.baseUrl = .error failure := by
  unfold handleUpnpRequest at hfailed
  split at hfailed
  · simp at hfailed
  split at hfailed
  · simp at hfailed
  split at hfailed
  · simp at hfailed
  cases hparse : parseSoapRequest server.pugi request with
  | error error =>
      simp only [hparse, bind, Except.bind, Except.error.injEq] at hfailed
      exact absurd (hfailed ▸ hparse) parseSoapRequest_ne_store
  | ok soapInfo =>
      simp only [hparse, bind, Except.bind] at hfailed
      split at hfailed
      · rename_i hsubPath
        subst hsubPath
        split at hfailed
        · simp at hfailed
        · rename_i haction
          have hbrowse : soapInfo.action = ascii "Browse" := by simpa using haction
          cases hpage : browsePage server.db server.config.baseUrl soapInfo.params with
          | ok result => simp [handleCdsBrowse, hpage, Except.map] at hfailed
          | error error =>
              obtain rfl : error = .store failure := by
                simpa [handleCdsBrowse, hpage, Except.map] using hfailed
              obtain ⟨flag, id, start, count, hid, hflag, hstart, hcount⟩ :=
                browsePage_eq_store hpage
              obtain ⟨hmethod, htype, hsoap, hname, root, hload, hparams⟩ :=
                parseSoapRequest_eq_ok hparse
              rw [hbrowse] at hsoap hname
              obtain ⟨params, hsome⟩ : ∃ params, soapInfo.params = some params := by
                cases hcase : soapInfo.params with
                | some params => exact ⟨params, rfl⟩
                | none =>
                    rw [hcase] at hname
                    exact absurd hname (by decide)
              rw [hsome] at hparams hname hid hflag hstart hcount
              have hrequest : BrowseRequest server.pugi request flag id start count :=
                ⟨hmethod, htarget, htype, ⟨_, hsoap⟩, root, params, hload, hparams, hname, hid,
                  hflag, hstart, hcount⟩
              obtain ⟨found, hfound, -, hequal⟩ := hrequest.browsePage_eq
              obtain rfl := Except.ok.inj (hparse.symm.trans hfound)
              rw [hequal] at hpage
              refine ⟨flag, id, start, count, hrequest, ?_⟩
              cases hresult : flag.page server.db id start count server.config.baseUrl with
              | ok result => simp [hresult, fromStore] at hpage
              | error other =>
                  obtain rfl : other = failure := by simpa [hresult, fromStore] using hpage
                  rfl
      · simp at hfailed

variable {flag : BrowseFlag} {id : Int} {start count : UInt32} {baseUrl : Bytes}

/-- On a library a page fails exactly where the object is missing. -/
theorem page_error_iff {files : FileInfo → Prop} {db : Db} (hlibrary : Library files db) :
    (∃ failure, flag.page db id start count baseUrl = .error failure) ↔
      BrowsesMissing db flag id start := by
  constructor
  · rintro ⟨failure, hpage⟩
    constructor
    · intro hbrowse
      obtain ⟨result, hresult⟩ := exists_browseResult hlibrary hbrowse start count baseUrl
      rw [hresult] at hpage
      simp at hpage
    · rintro rfl
      -- a page that starts past the object reads nothing
      by_contra hstart
      have hpos : 1 ≤ start.toNat := by
        have hne : start.toNat ≠ 0 := fun h => hstart (UInt32.toNat.inj h)
        omega
      simp [BrowseFlag.page, BrowseFlag.contents, browseResult, StoreService.get,
        List.drop_eq_nil_of_le, hpos, countSerialized, bind, Except.bind] at hpage
  · rintro ⟨hbrowse, hstart⟩
    cases flag with
    | directChildren =>
        cases hlist : StoreService.list db ⟨id⟩ with
        | error failure =>
            exact ⟨failure, by
              simp [BrowseFlag.page, BrowseFlag.contents, hlist, bind, Except.bind]⟩
        | ok view =>
            obtain ⟨object, hobject, hcontainer, -⟩ := list_eq_ok_iff.mp hlist
            exact absurd ⟨object, hobject, fun _ => hcontainer⟩ hbrowse
    | metadata =>
        obtain rfl := hstart rfl
        have hpage : [LibraryKey.objectKey ⟨id⟩].take
            (if count = 0 then (1 : UInt32) else count).toNat = [.objectKey ⟨id⟩] := by
          apply List.take_of_length_le
          rw [List.length_singleton]
          split
          · decide
          · rename_i hcount
            have hne : count.toNat ≠ 0 := fun h => hcount (UInt32.toNat.inj h)
            omega
        cases hread : ListResultView.read ⟨db, [.objectKey ⟨id⟩]⟩ (.objectKey ⟨id⟩) with
        | error failure =>
            refine ⟨failure, ?_⟩
            simp [BrowseFlag.page, BrowseFlag.contents, browseResult, StoreService.get, hpage,
              countSerialized, hread, bind, Except.bind]
        | ok object =>
            exact absurd ⟨object, read_eq_ok_iff.mp hread, fun h => by simp at h⟩ hbrowse

theorem requestRange_ne_store {failure : Failure} :
    requestRange request ≠ .error (.store failure) := by
  intro h
  simp only [requestRange] at h
  split at h
  · simp at h
  · split at h <;> simp [rangeNotSatisfiable] at h

/-- The record under a resource key is a resource. -/
theorem resourceLocation_ne_store {files : FileInfo → Prop} {db : Db}
    (hlibrary : Library files db) {id : Int} {failure : Failure} :
    resourceLocation db id subPath ≠ .error (.store failure) := by
  intro h
  cases hlookup : db.lookup (.resourceKey ⟨id⟩) with
  | none =>
      rw [resourceLocation, getResource_eq_none_iff.mpr hlookup] at h
      simp at h
  | some record =>
      cases record with
      | mediaObject object => simpa using hlibrary.object_key _ object hlookup
      | resource resource =>
          rw [resourceLocation, getResource_eq_some_iff.mpr hlookup] at h
          cases hstored : resource.location <;> simp [hstored] at h

theorem openFile_ne_store {content : Files} {location : Path} {failure : Failure} :
    openFile content location subPath ≠ .error (.store failure) := by
  unfold openFile
  split <;> simp

theorem fileResponse_ne_store {file : File} {range : Option UInt64 × Option UInt64}
    {failure : Failure} : fileResponse request file range ≠ .error (.store failure) := by
  intro h
  unfold fileResponse at h
  split at h
  · simp at h
  · split at h
    · split at h
      · simp [rangeNotSatisfiable] at h
      · split at h <;> simp at h
    · simp at h

theorem createResponse_ne_store {files : FileInfo → Prop} {db : Db}
    (hlibrary : Library files db) {content : Files} {failure : Failure} :
    createResponse db content subPath request ≠ .error (.store failure) := by
  intro h
  unfold createResponse at h
  split at h
  · simp at h
  · rename_i id _
    cases hrange : requestRange request with
    | error error =>
        simp only [hrange, bind, Except.bind, Except.error.injEq] at h
        subst h
        exact requestRange_ne_store hrange
    | ok range =>
        cases hlocation : resourceLocation db id subPath with
        | error error =>
            simp only [hrange, hlocation, bind, Except.bind, Except.error.injEq] at h
            subst h
            exact resourceLocation_ne_store hlibrary hlocation
        | ok location =>
            cases hopen : openFile content location subPath with
            | error error =>
                simp only [hrange, hlocation, hopen, bind, Except.bind, Except.error.injEq] at h
                subst h
                exact openFile_ne_store hopen
            | ok file =>
                simp only [hrange, hlocation, hopen, bind, Except.bind] at h
                exact fileResponse_ne_store h

end Browse

/-- On every connection to every library that scans lead to, some request gets
no response exactly when the first that closes the connection is a well-formed
`Browse` of what is not there. -/
theorem reachable_unanswered_iff [ArtworkSorter] {calls : List ScanCall} {system : System}
    (h : Reachable calls system) {server : Server} (hdb : server.db = system.db) (fuel : Nat)
    (arrivals : List Arrival) :
    (∃ reply ∈ server.handleConnections fuel arrivals, reply.header = none) ↔
      ∃ front arrival rest, arrivals = front ++ arrival :: rest ∧
        (∀ before ∈ front, (server.handle fuel before).ending = .keptOpen) ∧
        ∃ flag id start count,
          BrowseRequest server.pugi arrival.request flag id start count ∧
            BrowsesMissing system.db flag id start := by
  have hrequest : ∀ arrival, (server.handle fuel arrival).header = none ↔
      ∃ flag id start count, BrowseRequest server.pugi arrival.request flag id start count ∧
        BrowsesMissing system.db flag id start := by
    intro arrival
    rw [header_handle_eq_none_iff]
    constructor
    · rintro (⟨htarget, hfailed⟩ | ⟨htarget, hfailed⟩)
      · obtain ⟨flag, id, start, count, hbrowse, hpage⟩ := exists_browseRequest htarget hfailed
        rw [hdb] at hpage
        exact ⟨flag, id, start, count, hbrowse, (page_error_iff h.library).mp ⟨_, hpage⟩⟩
      · rw [hdb] at hfailed
        exact absurd hfailed (createResponse_ne_store h.library)
    · rintro ⟨flag, id, start, count, hbrowse, hmissing⟩
      obtain ⟨failure, hpage⟩ := (page_error_iff h.library).mpr hmissing
      have hfailed : handleUpnpRequest server.pugi server.db server.config arrival.request
          (ascii "cds") = .error (.store failure) := by
        rw [hbrowse.handleUpnpRequest_eq, ← BrowseFlag.page_print, hdb, hpage]
        rfl
      exact .upnp hbrowse.target hfailed
  constructor
  · rintro ⟨reply, hreply, hnone⟩
    obtain ⟨front, arrival, rest, rfl, hfront, rfl⟩ := mem_handleConnections_iff.mp hreply
    exact ⟨front, arrival, rest, rfl, hfront, (hrequest arrival).mp hnone⟩
  · rintro ⟨front, arrival, rest, rfl, hfront, hmissing⟩
    exact ⟨_, mem_handleConnections_iff.mpr ⟨front, arrival, rest, rfl, hfront, rfl⟩,
      (hrequest arrival).mpr hmissing⟩

/-- No object 99 is stored. -/
theorem reachable_unanswered_films :
    BrowsesMissing filmSystem.db .directChildren 99 0 ∧
      ∃ reply ∈ (browseServer filmSystem.db 99).handleConnections 1 [browseArrival 99],
        reply.header = none := by
  have hmissing : BrowsesMissing filmSystem.db .directChildren 99 0 := by
    have hnone : objectAt filmSystem.db (.objectKey ⟨99⟩) = none := by decide +kernel
    refine ⟨?_, fun h => by simp at h⟩
    rintro ⟨object, hobject, -⟩
    exact Option.some_ne_none object (hobject.symm.trans hnone)
  refine ⟨hmissing, ?_⟩
  apply (@reachable_unanswered_iff insertionSorter _ _ reachable_films
    (browseServer filmSystem.db 99) (db_browseServer _ _) 1 [browseArrival 99]).mpr
  exact ⟨[], browseArrival 99, [], rfl, by simp, .directChildren, 99, 0, 0,
    browseRequest_films _ (by decide) (by decide), hmissing⟩

end Eems

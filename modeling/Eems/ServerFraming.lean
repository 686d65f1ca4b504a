/-
The framing of responses on a connection: which requests are answered by a
header and exactly the body bytes it announces.
-/
import Eems.BodyLoop
import Eems.Server

namespace Eems

open Framing

/-- The body bytes that follow a header in the response to a request. -/
def announcedBody (request : HttpRequest) (header : ResponseHeader) : Nat :=
  if request.method = .head then 0 else header.contentLength

/-- One header and as many body bytes as it announces, none for `HEAD`; fewer
only where the connection ends. -/
def Framed (arrival : Arrival) (reply : Reply) : Prop :=
  match reply.ending with
  | .keptOpen => ∃ header, reply.header = some header ∧
      reply.body.length = announcedBody arrival.request header
  | .closed => (reply.header = none ∧ reply.body = []) ∨ ∃ header,
      reply.header = some header ∧ reply.body.length ≤ announcedBody arrival.request header
  | .running => False

/-- The ranges for which no more bytes are announced than the file holds from
their start on; where the count wraps around to 0, none are. -/
def RangeInFile (size : Nat) : Option UInt64 → Option UInt64 → Prop
  | some first, some last =>
      last.toNat < first.toNat ∨ size ≤ first.toNat ∨ last.toNat < size ∨
        first.toNat = 0 ∧ last.toNat = 2 ^ 64 - 1
  | some _, none => True
  | none, some suffix =>
      suffix.toNat < size ∧ size ≤ 2 * suffix.toNat + 1 ∨
        size ≤ suffix.toNat ∧ size = 2 ^ 64 - 1
  | none, none => True

/-- The file that a content request is about. -/
def Server.requestedFile (server : Server) (subPath : Path) : Except ServerError File :=
  match parseInt64 (cString subPath) with
  | none => .error (.http Status.notFound (cString subPath))
  | some id => do
      let location ← resourceLocation server.db id subPath
      openFile server.files location subPath

/-- The ranges that a file of this size holds no byte of. -/
def RangeRefused (size : Nat) : Option UInt64 → Option UInt64 → Prop
  | some first, some last => last.toNat < first.toNat ∨ size ≤ first.toNat
  | some first, none => size ≤ first.toNat
  | none, _ => False

/-- Nothing is told of opening a file and moving to a range in it: all goes well,
the range is refused, or a failure has no text. -/
def Opened.Silent (range : Option UInt64 × Option UInt64) : Opened → Prop
  | .file found => found.sizeError = some [] ∨ found.sizeError = none ∧
      (range = (none, none) ∨ RangeRefused found.content.length range.1 range.2 ∨
        found.seekError.getD [] = [])
  | .noSuchFile => False
  | .failed message => message = []

/-- What is behind a content path, where nothing is told of it: no id and no
text, or, for a range that can be read, a record that is no resource (the
connection is dropped) or a resource with a file that is there. -/
structure SilentPath (server : Server) (request : HttpRequest) (subPath : Path) : Prop where
  unnamed : parseInt64 (cString subPath) = none → cString subPath = []
  stored : ∀ id range, parseInt64 (cString subPath) = some id →
    requestRange request = .ok range → server.db.lookup (.resourceKey ⟨id⟩) ≠ none
  located : ∀ id range resource, parseInt64 (cString subPath) = some id →
    requestRange request = .ok range →
    server.db.lookup (.resourceKey ⟨id⟩) = some (.resource resource) →
    ∃ location, resource.location = some location ∧
      (server.files (asCString location)).Silent range

/-- A `HEAD` request is served as it should be for a file, and where there is
no text to send. -/
def HeadServed (server : Server) (request : HttpRequest) : Prop :=
  ∃ subPath, splitTarget request.target = some (ascii "content", subPath) ∧
    SilentPath server request subPath

/-- The requests whose responses are framed: not `HEAD`, unless nothing is sent
anyway, and for a range only one that announces what the file holds. -/
structure KeepsFraming (server : Server) (request : HttpRequest) : Prop where
  head : request.method = .head → HeadServed server request
  range : request.method ≠ .head → ∀ subPath file range,
    splitTarget request.target = some (ascii "content", subPath) →
    requestRange request = .ok range → server.requestedFile subPath = .ok file →
    RangeInFile file.content.length range.1 range.2

section Silence

/-- An error whose answer has no body. -/
def ServerError.Textless : ServerError → Prop
  | .http _ what => what = []
  | .upnp _ _ => False
  | .store _ => True

variable {server : Server} {request : HttpRequest} {subPath : Path}
  {range : Option UInt64 × Option UInt64}

theorem resolveRange_eq_none_iff {file : File} {first last : Option UInt64} :
    resolveRange file.size first last = none ↔
      RangeRefused file.content.length first last := by
  cases first with
  | none => simp [resolveRange, RangeRefused]
  | some first =>
      cases last with
      | none => simp [resolveRange_first, RangeRefused]
      | some last =>
          rw [resolveRange_first_last, file.toNat_size, RangeRefused]
          split
          · simp_all
          · simp_all

theorem textless_fileResponse_iff {file : File} :
    (∀ error, fileResponse request file range = .error error → error.Textless) ↔
      (Opened.file file).Silent range := by
  obtain ⟨first, last⟩ := range
  simp only [fileResponse, Opened.Silent]
  cases hsize : file.sizeError with
  | some message => simp [ServerError.Textless]
  | none =>
      by_cases hgiven : (first.isSome || last.isSome) = true
      · have hrange : (first, last) ≠ ((none, none) : Option UInt64 × Option UInt64) := by
          rintro hnone
          simp_all
        simp only [hgiven, ↓reduceIte, ← resolveRange_eq_none_iff, hrange, false_or]
        cases resolveRange file.size first last with
        | none => simp [rangeNotSatisfiable, ServerError.Textless]
        | some bounds =>
            cases file.seekError with
            | some message => simp [ServerError.Textless]
            | none => simp
      · have hrange : (first, last) = ((none, none) : Option UInt64 × Option UInt64) := by
          simpa using hgiven
        simp [hgiven, hrange]

theorem textless_openFile_iff {files : Files} {location : Path} (hpath : cString subPath ≠ []) :
    (∀ error, (openFile files location subPath >>= fun file =>
      fileResponse request file range) = .error error → error.Textless) ↔
      (files location).Silent range := by
  unfold openFile
  cases files location with
  | file file => exact textless_fileResponse_iff
  | noSuchFile => simp [bind, Except.bind, ServerError.Textless, Opened.Silent, hpath]
  | failed message => simp [bind, Except.bind, ServerError.Textless, Opened.Silent]

theorem textless_resourceLocation_iff {id : Int} (hpath : cString subPath ≠ []) :
    (∀ error, (resourceLocation server.db id subPath >>= fun location =>
      openFile server.files location subPath >>= fun file =>
        fileResponse request file range) = .error error → error.Textless) ↔
      server.db.lookup (.resourceKey ⟨id⟩) ≠ none ∧
        ∀ resource, server.db.lookup (.resourceKey ⟨id⟩) = some (.resource resource) →
          ∃ location, resource.location = some location ∧
            (server.files (asCString location)).Silent range := by
  have hseek := OrderedMap.seekExact_eq_lookup server.db (.resourceKey ⟨id⟩)
  cases hlookup : server.db.lookup (.resourceKey ⟨id⟩) with
  | none =>
      simp [resourceLocation, StoreService.getResource, hseek, hlookup, bind, Except.bind,
        ServerError.Textless, hpath]
  | some record =>
      cases record with
      | mediaObject object =>
          simp [resourceLocation, StoreService.getResource, hseek, hlookup, bind, Except.bind,
            ServerError.Textless]
      | resource resource =>
          cases hlocation : resource.location with
          | none =>
              simp [resourceLocation, StoreService.getResource, hseek, hlookup, hlocation, bind,
                Except.bind, ServerError.Textless, hpath]
          | some location =>
              have hfound : resourceLocation server.db id subPath = .ok (asCString location) := by
                simp [resourceLocation, StoreService.getResource, hseek, hlookup, hlocation]
              rw [hfound]
              refine (textless_openFile_iff hpath).trans ?_
              simp [hlocation]

theorem error_of_requestRange {error : ServerError} (h : requestRange request = .error error) :
    error = rangeNotSatisfiable := by
  unfold requestRange at h
  simp only at h
  split at h
  · simp at h
  · split at h
    · simp at h
    · exact (Except.error.inj h).symm

theorem silentPath_iff {id : Int} (hid : parseInt64 (cString subPath) = some id)
    (hrequest : requestRange request = .ok range) :
    SilentPath server request subPath ↔ server.db.lookup (.resourceKey ⟨id⟩) ≠ none ∧
      ∀ resource, server.db.lookup (.resourceKey ⟨id⟩) = some (.resource resource) →
        ∃ location, resource.location = some location ∧
          (server.files (asCString location)).Silent range := by
  constructor
  · intro hsilent
    exact ⟨hsilent.stored id range hid hrequest,
      fun resource => hsilent.located id range resource hid hrequest⟩
  · rintro ⟨hstored, hlocated⟩
    refine ⟨by simp [hid], ?_, ?_⟩
    · intro other _ hother _
      obtain rfl := Option.some.inj (hid.symm.trans hother)
      exact hstored
    · intro other given resource hother hgiven
      obtain rfl := Option.some.inj (hid.symm.trans hother)
      obtain rfl := Except.ok.inj (hrequest.symm.trans hgiven)
      exact hlocated resource

/-- The errors of a content request tell nothing just where its path, its range
and what is stored and on disk say so. -/
theorem textless_createResponse_iff :
    (∀ error, createResponse server.db server.files subPath request = .error error →
      error.Textless) ↔ SilentPath server request subPath := by
  unfold createResponse
  cases hid : parseInt64 (cString subPath) with
  | none =>
      simp only [Except.error.injEq, forall_eq', ServerError.Textless]
      refine ⟨fun htext => ⟨fun _ => htext, ?_, ?_⟩, fun hsilent => hsilent.unnamed hid⟩
      · simp [hid]
      · simp [hid]
  | some id =>
      have hpath : cString subPath ≠ [] := by
        intro hempty
        have hnone : parseInt64 [] = none := by decide
        simp [hempty, hnone] at hid
      cases hrequest : requestRange request with
      | error error =>
          obtain rfl := error_of_requestRange hrequest
          refine iff_of_true (fun _ hfailed => ?_) ⟨?_, ?_, ?_⟩
          · obtain rfl := Except.error.inj hfailed
            rfl
          · simp [hid]
          · simp [hrequest]
          · simp [hrequest]
      | ok range =>
          rw [silentPath_iff hid hrequest]
          exact textless_resourceLocation_iff hpath

end Silence

/-- The announced bytes are in the file. -/
def ContentResponse.Available (response : ContentResponse) : Prop :=
  response.header.contentLength = response.size.toNat ∧
    response.position.toNat + response.size.toNat ≤ response.file.content.length

theorem resolveRange_available {file : File} {first last : Option UInt64}
    {bounds : UInt64 × UInt64} (hgiven : first.isSome ∨ last.isSome)
    (hrange : RangeInFile file.content.length first last)
    (h : resolveRange file.size first last = some bounds) :
    bounds.1.toNat + (bounds.2 - bounds.1 + 1).toNat ≤ file.content.length := by
  have hfits := file.fits
  have hsize := file.toNat_size
  have hcount : ∀ a b : UInt64, a.toNat ≤ b.toNat + 1 → a.toNat ≤ file.content.length →
      b.toNat < file.content.length ∨ a.toNat = 0 ∧ b.toNat = 2 ^ 64 - 1 →
      a.toNat + (b - a + 1).toNat ≤ file.content.length := by
    intro a b hab hinside hb
    have ha := a.toNat_lt
    have hb' := b.toNat_lt
    simp only [UInt64.toNat_add, UInt64.toNat_sub, UInt64.toNat_one]
    omega
  rcases first with - | first <;> rcases last with - | last
  · simp at hgiven
  · rw [resolveRange_suffix] at h
    obtain rfl := Option.some.inj h
    have hmin := toNat_min file.size last
    rw [hsize] at hmin
    have hsub : (file.size - min file.size last).toNat =
        file.content.length - min file.content.length last.toNat := by
      rw [UInt64.toNat_sub, hsize, hmin]
      omega
    simp only [RangeInFile] at hrange
    exact hcount (file.size - min file.size last) (min file.size last) (by omega) (by omega)
      (by omega)
  · rw [resolveRange_first, hsize] at h
    split at h
    · simp at h
    · rename_i hinside
      obtain rfl := Option.some.inj h
      have hlast : (file.size - 1).toNat = file.content.length - 1 := by
        rw [UInt64.toNat_sub, hsize, UInt64.toNat_one]
        omega
      exact hcount first (file.size - 1) (by omega) (by omega) (by omega)
  · rw [resolveRange_first_last, hsize] at h
    split at h
    · simp at h
    · rename_i hinside
      obtain rfl := Option.some.inj h
      simp only [RangeInFile] at hrange
      exact hcount first last (by omega) (by omega) (by omega)

theorem fileResponse_available {request : HttpRequest} {file : File}
    {range : Option UInt64 × Option UInt64} {response : ContentResponse}
    (hrange : RangeInFile file.content.length range.1 range.2)
    (h : fileResponse request file range = .ok response) : response.Available := by
  unfold fileResponse at h
  split at h
  · simp at h
  split at h
  · rename_i hgiven
    rw [Bool.or_eq_true] at hgiven
    split at h
    · simp at h
    · rename_i first last hresolved
      split at h
      · simp at h
      · obtain rfl := Except.ok.inj h
        exact ⟨rfl, resolveRange_available hgiven hrange hresolved⟩
  · obtain rfl := Except.ok.inj h
    refine ⟨rfl, ?_⟩
    simp

theorem createResponse_available {server : Server} {subPath : Path} {request : HttpRequest}
    {response : ContentResponse}
    (hrange : ∀ file range, requestRange request = .ok range →
      server.requestedFile subPath = .ok file →
      RangeInFile file.content.length range.1 range.2)
    (h : createResponse server.db server.files subPath request = .ok response) :
    response.Available := by
  unfold createResponse at h
  unfold Server.requestedFile at hrange
  cases hid : parseInt64 (cString subPath) with
  | none => simp [hid] at h
  | some id =>
      cases hrequest : requestRange request with
      | error error => simp [hid, hrequest, bind, Except.bind] at h
      | ok range =>
          cases hlocation : resourceLocation server.db id subPath with
          | error error => simp [hid, hrequest, hlocation, bind, Except.bind] at h
          | ok location =>
              cases hopen : openFile server.files location subPath with
              | error error => simp [hid, hrequest, hlocation, hopen, bind, Except.bind] at h
              | ok file =>
                  simp only [hid, hrequest, hlocation, hopen, bind, Except.bind] at h hrange
                  exact fileResponse_available (hrange file range rfl rfl) h

/-- The loop over a file that holds the announced bytes sends them, unless a
write fails. -/
theorem bodyLoop_available {file : File} {write : Nat → Option Nat} {fuel turn position : Nat}
    {size : UInt64} {sent : Bytes} (hinside : position + size.toNat ≤ file.content.length)
    (hfuel : size.toNat < fuel) :
    let result := bodyLoop (file.transfer write) fuel turn position size sent
    (result.2 = .keptOpen ∧
        result.1 = sent ++ (file.content.drop position).take size.toNat) ∨
      (result.2 = .closed ∧ result.1.length ≤ sent.length + size.toNat) := by
  have hloop := @bodyLoop_sends (file.transfer write) _ _ (reads_transfer file write) fuel turn
    position size sent (fun _ _ _ => by rwa [List.take_length]) hfuel
  apply hloop.imp id
  rintro ⟨hclosed, part, hpart, hsent⟩
  refine ⟨hclosed, ?_⟩
  rw [hsent, List.length_append]
  omega

section Step

variable {server : Server} {fuel : Nat} {arrival : Arrival}

theorem framed_writeResponse {header : ResponseHeader} {body : Bytes}
    (hlength : header.contentLength = body.length)
    (hhead : arrival.request.method = .head → body = []) :
    Framed arrival (writeResponse header body) := by
  refine ⟨header, rfl, ?_⟩
  unfold announcedBody
  split
  · rename_i hmethod
    rw [hhead hmethod]
    rfl
  · exact hlength.symm

theorem framed_makeErrorResponse {code : Nat} {reason : Bytes}
    (hhead : arrival.request.method = .head → reason = []) :
    Framed arrival (makeErrorResponse code reason arrival.request) :=
  framed_writeResponse rfl hhead

/-- An error is answered with its text, which a `HEAD` request must not have. -/
theorem framed_recover {error : ServerError}
    (hhead : arrival.request.method = .head → error.Textless) :
    Framed arrival (server.recover arrival.request error) := by
  cases error with
  | http status what => exact framed_makeErrorResponse hhead
  | upnp code what => exact framed_writeResponse rfl fun hmethod => (hhead hmethod).elim
  | store failure => exact Or.inl ⟨rfl, rfl⟩

theorem framed_sendContent {response : ContentResponse} (hfuel : 2 ^ 64 ≤ fuel)
    (havailable : arrival.request.method ≠ .head → response.Available) :
    Framed arrival (sendContent fuel arrival response) := by
  unfold sendContent
  by_cases hhead : arrival.request.method = .head
  · rw [if_pos hhead]
    exact ⟨response.header, rfl, by simp [announcedBody, hhead, writeResponse]⟩
  · rw [if_neg hhead]
    obtain ⟨hlength, hinside⟩ := havailable hhead
    have hsize := response.size.toNat_lt
    have hloop := @bodyLoop_available response.file arrival.write fuel 0 _ _ [] hinside
      (by omega)
    simp only at hloop ⊢
    generalize bodyLoop (response.file.transfer arrival.write) fuel 0
      response.position.toNat response.size [] = result at hloop ⊢
    obtain ⟨body, ending⟩ := result
    rcases hloop with ⟨rfl, rfl⟩ | ⟨rfl, hbody⟩
    · refine ⟨response.header, rfl, ?_⟩
      simp only [announcedBody, if_neg hhead, hlength, List.nil_append, List.length_take,
        List.length_drop]
      omega
    · refine Or.inr ⟨response.header, rfl, ?_⟩
      simpa [announcedBody, hhead, hlength] using hbody

/-- One request that keeps the framing gets a framed reply. -/
theorem handle_framed (hfuel : 2 ^ 64 ≤ fuel) (h : KeepsFraming server arrival.request) :
    Framed arrival (server.handle fuel arrival) := by
  unfold Server.handle
  -- a `HEAD` request that keeps the framing is one for content
  have hhead : arrival.request.method = .head → ∃ subPath,
      splitTarget arrival.request.target = some (ascii "content", subPath) :=
    fun hmethod => (h.head hmethod).imp fun _ hserved => hserved.1
  cases hsplit : splitTarget arrival.request.target with
  | none =>
      simp only [hsplit]
      apply framed_makeErrorResponse
      intro hmethod
      obtain ⟨subPath, hcontent⟩ := hhead hmethod
      simp [hsplit] at hcontent
  | some target =>
      obtain ⟨first, subPath⟩ := target
      have hother : first ≠ ascii "content" → arrival.request.method ≠ .head := by
        intro hne hmethod
        obtain ⟨other, hcontent⟩ := hhead hmethod
        rw [hsplit, Option.some.injEq, Prod.mk.injEq] at hcontent
        exact hne hcontent.1
      simp only [hsplit]
      by_cases hupnp : first = ascii "upnp"
      · have hmethod := hother (by rw [hupnp]; decide)
        rw [if_pos hupnp]
        cases handleUpnpRequest server.pugi server.db server.config arrival.request subPath with
        | ok body => exact framed_writeResponse rfl fun hmethod' => absurd hmethod' hmethod
        | error error => exact framed_recover fun hmethod' => absurd hmethod' hmethod
      · rw [if_neg hupnp]
        by_cases hcontent : first = ascii "content"
        · rw [if_pos hcontent]
          subst hcontent
          cases hcreate : createResponse server.db server.files subPath arrival.request with
          | ok response =>
              apply framed_sendContent hfuel
              intro hmethod
              exact createResponse_available
                (fun file range => h.range hmethod subPath file range hsplit) hcreate
          | error error =>
              apply framed_recover
              intro hmethod
              obtain ⟨other, hother, hserved⟩ := h.head hmethod
              rw [hsplit, Option.some.injEq, Prod.mk.injEq] at hother
              rw [← hother.2] at hserved
              exact textless_createResponse_iff.mpr hserved error hcreate
        · rw [if_neg hcontent]
          exact framed_makeErrorResponse fun hmethod => absurd hmethod (hother hcontent)

end Step

/-- On a connection whose requests all keep the framing, every reply is framed,
and a client that goes by the announced lengths finds one response for each
request, in order, up to where the connection is closed. -/
theorem handleConnections_framed (server : Server) {fuel : Nat} (hfuel : 2 ^ 64 ≤ fuel)
    {arrivals : List Arrival}
    (hkeeps : ∀ arrival ∈ arrivals, KeepsFraming server arrival.request) :
    List.Forall₂ Framed (arrivals.take (server.handleConnections fuel arrivals).length)
        (server.handleConnections fuel arrivals) ∧
      ∃ (messages : List (Message ResponseHeader UInt8)) (last : List Reply),
        server.handleConnections fuel arrivals =
          messages.map (fun message => writeResponse message.header message.body) ++ last ∧
        (last = [] ∧ messages.length = arrivals.length ∨
          ∃ reply, last = [reply] ∧ reply.ending = .closed) ∧
        readMessages ((arrivals.take messages.length).map fun arrival =>
            announcedBody arrival.request)
          ((server.handleConnections fuel arrivals).flatMap Reply.tokens) =
            some (messages, last.flatMap Reply.tokens) := by
  induction arrivals with
  | nil => exact ⟨List.Forall₂.nil, [], [], rfl, Or.inl ⟨rfl, rfl⟩, rfl⟩
  | cons arrival rest ih =>
      have hframed := handle_framed hfuel (hkeeps arrival List.mem_cons_self)
      obtain ⟨hrest, messages, last, hreplies, hlast, hread⟩ :=
        ih fun other hother => hkeeps other (List.mem_cons_of_mem arrival hother)
      generalize hreply : server.handle fuel arrival = reply at hframed
      obtain ⟨header?, body, ending⟩ := reply
      cases ending with
      | running => exact hframed.elim
      | closed =>
          rw [Server.handleConnections_of_closed hreply]
          exact ⟨by simpa using hframed, [], [⟨header?, body, .closed⟩], rfl,
            Or.inr ⟨_, rfl, rfl⟩, rfl⟩
      | keptOpen =>
          obtain ⟨header, rfl, hbody⟩ := hframed
          rw [Server.handleConnections_of_keptOpen hreply]
          refine ⟨?_, ⟨header, body⟩ :: messages, last, ?_, ?_, ?_⟩
          · exact List.Forall₂.cons ⟨header, rfl, hbody⟩ hrest
          · simp [hreplies, writeResponse]
          · exact hlast.imp (fun h => ⟨h.1, by simp [h.2]⟩) id
          · have hmessage : ∀ tokens, readMessage (announcedBody arrival.request)
                (Message.tokens ⟨header, body⟩ ++ tokens) = some (⟨header, body⟩, tokens) :=
              readMessage_tokens hbody
            rw [List.map_take] at hread
            simp [Reply.tokens, readMessages, hmessage, hread]

/-- A server with one film, and requests to it. -/
def filmServer : Server where
  pugi := ⟨fun _ => .error (ascii "No document element found"), fun _ => []⟩
  config := ⟨[], ascii "EEMS", ascii "http://eems:8200", [], []⟩
  db := filmDb
  files := filmOnDisk

def plainArrival (method : Verb) (target : String) : Arrival where
  request :=
    { method, target := ascii target, version := 11, keepAlive := true, fields := [], body := [] }
  write _ := none

def rangeArrival : Arrival := ⟨rangeOfFilm "bytes=10-19", fun _ => none⟩

theorem keepsFraming_get_index : KeepsFraming filmServer (plainArrival .get "/").request := by
  refine ⟨fun hmethod => by simp [plainArrival] at hmethod, ?_⟩
  intro _ subPath file range hsplit
  have hnone : splitTarget (plainArrival .get "/").request.target = none := by decide
  simp [hnone] at hsplit

theorem keepsFraming_head_film :
    KeepsFraming filmServer (plainArrival .head "/content/5").request := by
  refine ⟨fun _ => ⟨ascii "5", by decide, textless_createResponse_iff.mp ?_⟩,
    fun hmethod => absurd rfl hmethod⟩
  intro error herror
  have hok : (createResponse filmServer.db filmServer.files (ascii "5")
      (plainArrival .head "/content/5").request).isOk = true := by decide +kernel
  rw [herror] at hok
  simp [Except.isOk, Except.toBool] at hok

theorem keepsFraming_range_film : KeepsFraming filmServer rangeArrival.request := by
  refine ⟨fun hmethod => by simp [rangeArrival, rangeOfFilm] at hmethod, ?_⟩
  intro _ subPath file range hsplit hrange hfile
  have hsplit' : splitTarget rangeArrival.request.target =
      some (ascii "content", ascii "5") := by decide
  have hrange' : requestRange rangeArrival.request = .ok (some 10, some 19) := by decide +kernel
  have hfile' : filmServer.requestedFile (ascii "5") = .ok hundredBytes := by decide +kernel
  obtain rfl : ascii "5" = subPath := by simpa [hsplit'] using hsplit
  obtain rfl : (some 10, some 19) = range := by simpa [hrange'] using hrange
  obtain rfl : hundredBytes = file := by simpa [hfile'] using hfile
  exact Or.inr (Or.inr (Or.inl (by decide)))

theorem handleConnections_framed_films :
    List.Forall₂ Framed
      ([plainArrival .get "/", plainArrival .head "/content/5", rangeArrival].take
        (filmServer.handleConnections (2 ^ 64)
          [plainArrival .get "/", plainArrival .head "/content/5", rangeArrival]).length)
      (filmServer.handleConnections (2 ^ 64)
        [plainArrival .get "/", plainArrival .head "/content/5", rangeArrival]) := by
  refine (handleConnections_framed filmServer le_rfl ?_).1
  intro arrival harrival
  simp only [List.mem_cons, List.not_mem_nil, or_false] at harrival
  rcases harrival with rfl | rfl | rfl
  · exact keepsFraming_get_index
  · exact keepsFraming_head_film
  · exact keepsFraming_range_film

/-- The index page is sent for a `HEAD` request too, and the client takes it
for the next response. -/
theorem handleConnections_head_index :
    ¬ List.Forall₂ Framed [plainArrival .head "/", plainArrival .get "/"]
        (filmServer.handleConnections 1 [plainArrival .head "/", plainArrival .get "/"]) ∧
      readMessages
        ([plainArrival .head "/", plainArrival .get "/"].map fun arrival =>
          announcedBody arrival.request)
        ((filmServer.handleConnections 1
          [plainArrival .head "/", plainArrival .get "/"]).flatMap Reply.tokens) = none := by
  have hreplies : filmServer.handleConnections 1
      [plainArrival .head "/", plainArrival .get "/"] =
        [makeErrorResponse Status.ok Server.indexPage (plainArrival .head "/").request,
          makeErrorResponse Status.ok Server.indexPage (plainArrival .get "/").request] := rfl
  rw [hreplies]
  refine ⟨fun hframed => ?_, by decide⟩
  cases hframed with
  | cons hfirst _ =>
      obtain ⟨header, hheader, hbody⟩ := hfirst
      simp [announcedBody, plainArrival, makeErrorResponse, writeResponse] at hbody
      exact absurd hbody (by decide)

end Eems

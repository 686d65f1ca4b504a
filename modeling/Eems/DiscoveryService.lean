/-
The discovery service: one coroutine that receives datagrams, and answers those
that search for what the server is.
-/
import Eems.Http

namespace Eems

/-- The HTTP parser, fed with one datagram: the request that the bytes start
with, `none` where it reports an error.  What follows a complete request does
not change it. -/
structure RequestParser where
  parse : Bytes → Option HttpRequest
  parse_append : ∀ bytes rest request, parse bytes = some request →
    parse (bytes ++ rest) = some request

structure DiscoveryConfig where
  baseUrl : Bytes
  uuid : Bytes
deriving DecidableEq, Repr

structure DiscoveryResponse where
  status : Nat
  version : Nat
  fields : List (Bytes × Bytes)
deriving DecidableEq, Repr

def rootDevice : Bytes := ascii "upnp:rootdevice"
def mediaServer : Bytes := ascii "urn:schemas-upnp-org:device:MediaServer:1"

namespace DiscoveryService

def handleRequest (config : DiscoveryConfig) (request : HttpRequest) :
    Option DiscoveryResponse :=
  if request.method ≠ .msearch then none
  else if request.target ≠ ascii "*" then none
  else if request.field "man" ≠ ascii "\"ssdp:discover\"" then none
  else
    let st := request.field "st"
    if st ≠ rootDevice ∧ st ≠ mediaServer then none
    else some
      { status := Status.ok
        version := request.version
        fields :=
          [(ascii "cache-control", ascii "max-age=1800"),
            (ascii "location", config.baseUrl ++ ascii "/upnp/device"),
            (ascii "st", st),
            (ascii "usn", ascii "uuid:" ++ config.uuid ++ ascii "::" ++ st),
            (ascii "ext", [])] }

/-- What a datagram leaves in the receive buffer. -/
def received (datagram : Bytes) : Bytes := datagram.take 1500

/-- `run_service`: what is sent for each datagram.  A datagram that is no
request throws out of the loop, and the detached coroutine is not started
again. -/
def runService (parser : RequestParser) (config : DiscoveryConfig) :
    List Bytes → List (Option DiscoveryResponse)
  | [] => []
  | datagram :: rest =>
      match parser.parse (received datagram) with
      | none => none :: rest.map fun _ => none
      | some request => handleRequest config request :: runService parser config rest

end DiscoveryService

/-- A search for something the server is, naming it. -/
structure IsSearch (request : HttpRequest) (st : Bytes) : Prop where
  method : request.method = .msearch
  target : request.target = ascii "*"
  man : request.field "man" = ascii "\"ssdp:discover\""
  named : request.field "st" = st
  known : st = rootDevice ∨ st = mediaServer

/-- The datagram is a complete request that searches for `st`. -/
def Searches (parser : RequestParser) (datagram st : Bytes) : Prop :=
  ∃ request, parser.parse datagram = some request ∧ IsSearch request st

/-- What should become of a datagram: a search is answered with what it is for
and where the server is, anything else is not answered. -/
structure Answers (parser : RequestParser) (config : DiscoveryConfig) (datagram : Bytes)
    (sent : Option DiscoveryResponse) : Prop where
  search : ∀ st, Searches parser datagram st → ∃ response, sent = some response ∧
    (ascii "st", st) ∈ response.fields ∧
    (ascii "location", config.baseUrl ++ ascii "/upnp/device") ∈ response.fields
  silent : (∀ st, ¬ Searches parser datagram st) → sent = none

namespace DiscoveryService

variable {parser : RequestParser} {config : DiscoveryConfig}

theorem handleRequest_of_isSearch {request : HttpRequest} {st : Bytes}
    (h : IsSearch request st) : ∃ response, handleRequest config request = some response ∧
      (ascii "st", st) ∈ response.fields ∧
      (ascii "location", config.baseUrl ++ ascii "/upnp/device") ∈ response.fields := by
  have hknown : ¬ (st ≠ rootDevice ∧ st ≠ mediaServer) := by
    rcases h.known with hst | hst <;> simp [hst]
  simp [handleRequest, h.method, h.target, h.man, h.named, hknown]

theorem handleRequest_of_not_isSearch {request : HttpRequest}
    (h : ∀ st, ¬ IsSearch request st) : handleRequest config request = none := by
  unfold handleRequest
  split
  · rfl
  split
  · rfl
  split
  · rfl
  rename_i hmethod htarget hman
  simp only
  split
  · rfl
  · rename_i hst
    refine absurd ?_ (h (request.field "st"))
    rw [not_and_or, not_not, not_not] at hst
    exact ⟨not_not.mp hmethod, not_not.mp htarget, not_not.mp hman, rfl, hst⟩

/-- What was received says as much as the whole datagram, if it is a request. -/
theorem parse_of_received {datagram : Bytes} {request : HttpRequest}
    (h : parser.parse (received datagram) = some request) :
    parser.parse datagram = some request := by
  have hwhole := parser.parse_append _ (datagram.drop 1500) _ h
  rwa [received, List.take_append_drop] at hwhole

/-- A request is answered as it should be. -/
theorem handleRequest_answers {datagram : Bytes} {request : HttpRequest}
    (h : parser.parse (received datagram) = some request) :
    Answers parser config datagram (handleRequest config request) := by
  have hparse := parse_of_received h
  constructor
  · rintro st ⟨other, hother, hsearch⟩
    obtain rfl := Option.some.inj (hparse.symm.trans hother)
    exact handleRequest_of_isSearch hsearch
  · intro hnone
    exact handleRequest_of_not_isSearch fun st hsearch => hnone st ⟨request, hparse, hsearch⟩

/-- A datagram that is not answered is one that searches for nothing. -/
theorem none_answers_iff {datagram : Bytes} :
    Answers parser config datagram none ↔ ∀ st, ¬ Searches parser datagram st := by
  constructor
  · intro h st hsearch
    obtain ⟨response, hnone, -⟩ := h.search st hsearch
    simp at hnone
  · exact fun h => ⟨fun st hsearch => absurd hsearch (h st), fun _ => rfl⟩

/-- The service is alive after these datagrams. -/
def Survives (parser : RequestParser) (datagrams : List Bytes) : Prop :=
  ∀ datagram ∈ datagrams, (parser.parse (received datagram)).isSome

/-- While every datagram was a request, the next one is answered as it should
be. -/
theorem getElem?_runService {datagrams : List Bytes} {i : Nat} {datagram : Bytes}
    (hget : datagrams[i]? = some datagram) :
    (Survives parser (datagrams.take (i + 1)) → ∃ sent,
      (runService parser config datagrams)[i]? = some sent ∧
        Answers parser config datagram sent) ∧
    (¬ Survives parser (datagrams.take (i + 1)) →
      (runService parser config datagrams)[i]? = some none) := by
  induction datagrams generalizing i with
  | nil => simp at hget
  | cons first rest ih =>
      cases hfirst : parser.parse (received first) with
      | none =>
          have hdead : ¬ Survives parser ((first :: rest).take (i + 1)) := fun h => by
            simpa [hfirst] using h first (by simp)
          refine ⟨fun h => absurd h hdead, fun _ => ?_⟩
          have hlength : i < (first :: rest).length := (List.getElem?_eq_some_iff.mp hget).1
          simp only [runService, hfirst]
          cases i with
          | zero => rfl
          | succ i =>
              have hrest : i < rest.length := by simpa using hlength
              simp [hrest]
      | some request =>
          simp only [runService, hfirst]
          cases i with
          | zero =>
              obtain rfl : first = datagram := by simpa using hget
              refine ⟨fun _ => ⟨_, rfl, handleRequest_answers hfirst⟩, fun h => ?_⟩
              exact absurd (fun d hd => by simp_all) h
          | succ i =>
              have hsurvives : Survives parser ((first :: rest).take (i + 1 + 1)) ↔
                  Survives parser (rest.take (i + 1)) := by
                simp [Survives, hfirst]
              rw [hsurvives]
              exact ih (by simpa using hget)

/-- Every datagram of a run is answered as it should be exactly when no search
comes after, or is itself, a datagram that is not received as a request. -/
theorem runService_answers_iff (parser : RequestParser) (config : DiscoveryConfig)
    (datagrams : List Bytes) :
    (∀ (i : Nat) datagram, datagrams[i]? = some datagram → ∃ sent,
      (runService parser config datagrams)[i]? = some sent ∧
        Answers parser config datagram sent) ↔
      ∀ (i : Nat) datagram st, datagrams[i]? = some datagram → Searches parser datagram st →
        Survives parser (datagrams.take (i + 1)) := by
  constructor
  · intro h i datagram st hget hsearch
    by_contra hdead
    obtain ⟨sent, hsent, hanswers⟩ := h i datagram hget
    rw [(getElem?_runService hget).2 hdead] at hsent
    obtain rfl := Option.some.inj hsent
    exact none_answers_iff.mp hanswers st hsearch
  · intro h i datagram hget
    by_cases hsurvives : Survives parser (datagrams.take (i + 1))
    · exact (getElem?_runService hget).1 hsurvives
    · refine ⟨none, (getElem?_runService hget).2 hsurvives, none_answers_iff.mpr ?_⟩
      exact fun st hsearch => hsurvives (h i datagram st hget hsearch)

/-- A search for root devices, and a parser that knows no other request. -/
def searchDatagram : Bytes :=
  ascii ("M-SEARCH * HTTP/1.1\r\nMAN: \"ssdp:discover\"\r\nMX: 1\r\n" ++
    "ST: upnp:rootdevice\r\n\r\n")

def searchRequest : HttpRequest where
  method := .msearch
  target := ascii "*"
  version := 11
  keepAlive := true
  fields := [(ascii "MAN", ascii "\"ssdp:discover\""), (ascii "MX", ascii "1"),
    (ascii "ST", ascii "upnp:rootdevice")]
  body := []

def searchParser : RequestParser where
  parse bytes := if searchDatagram.isPrefixOf bytes then some searchRequest else none
  parse_append bytes rest request h := by
    split at h
    · rename_i hprefix
      have happend := (List.isPrefixOf_iff_prefix.mp hprefix).trans (List.prefix_append bytes rest)
      rw [if_pos (List.isPrefixOf_iff_prefix.mpr happend), h]
    · simp at h

theorem searches_searchDatagram : Searches searchParser searchDatagram rootDevice :=
  ⟨searchRequest, by decide, by decide, by decide, by decide, by decide, by decide⟩

/-- A datagram that is no request silences the service for good. -/
theorem runService_garbage (config : DiscoveryConfig) :
    runService searchParser config [ascii "garbage", searchDatagram] = [none, none] := by
  have hgarbage : searchParser.parse (received (ascii "garbage")) = none := by decide
  simp [runService, hgarbage]

/-- The search after a datagram that is no request gets no answer. -/
theorem runService_search_unanswered :
    ¬ ∀ (i : Nat) datagram, [ascii "garbage", searchDatagram][i]? = some datagram →
      ∃ sent, (runService searchParser ⟨ascii "http://eems:8200", ascii "1"⟩
          [ascii "garbage", searchDatagram])[i]? = some sent ∧
        Answers searchParser ⟨ascii "http://eems:8200", ascii "1"⟩ datagram sent := by
  intro h
  obtain ⟨sent, hsent, hanswers⟩ := h 1 searchDatagram rfl
  rw [runService_garbage] at hsent
  obtain rfl : none = sent := by simpa using hsent
  exact none_answers_iff.mp hanswers rootDevice searches_searchDatagram

end DiscoveryService

end Eems

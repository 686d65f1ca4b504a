/-
The HTTP server: it dispatches the requests of one connection to the services
and writes their responses.
-/
import Eems.ContentService
import Eems.Upnp
import Eems.Basic.Framing

namespace Eems

open Framing

/-- What the services work on. -/
structure Server where
  pugi : PugiXml
  config : ServerConfig
  db : Db
  files : Files

/-- A request, and how many bytes of a file each write that fails still sends
while the request is handled. -/
structure Arrival where
  request : HttpRequest
  write : Nat → Option Nat

/-- What is written for a request, and what becomes of the connection. -/
structure Reply where
  header : Option ResponseHeader
  body : Bytes
  ending : Ending

/-- `async_write` of a response object: its header and its whole body. -/
def writeResponse (header : ResponseHeader) (body : Bytes) : Reply :=
  ⟨some header, body, .keptOpen⟩

def makeErrorResponse (code : Nat) (reason : Bytes) (request : HttpRequest) : Reply :=
  writeResponse
    { status := code
      version := request.version
      keepAlive := request.keepAlive
      fields := [(ascii "content-type", ascii "text/html")]
      contentLength := reason.length } reason

def makeUpnpErrorResponse (pugi : PugiXml) (code : UpnpCode) (what : Bytes)
    (request : HttpRequest) : Reply :=
  let body := errorResponse pugi code.underlying what
  writeResponse
    { status := Status.internalServerError
      version := request.version
      keepAlive := request.keepAlive
      fields := [(ascii "content-type", ascii "text/xml")]
      contentLength := body.length } body

def createBufferResponse (request : HttpRequest) (body : Bytes) (mimeType : String) : Reply :=
  writeResponse
    { status := Status.ok
      version := request.version
      keepAlive := request.keepAlive
      fields := (ascii "content-type", ascii mimeType) ::
        if request.method = .post then [(ascii "ext", [])] else []
      contentLength := body.length } body

/-- The connection is dropped with nothing written. -/
def dropConnection : Reply := ⟨none, [], .closed⟩

/-- `content_service::handle_request`, once the response is created. -/
def sendContent (fuel : Nat) (arrival : Arrival) (response : ContentResponse) : Reply :=
  if arrival.request.method = .head then writeResponse response.header []
  else
    let (body, ending) :=
      bodyLoop (response.file.transfer arrival.write) fuel 0 response.position.toNat
        response.size []
    ⟨some response.header, body, ending⟩

namespace Server

variable (server : Server)

/-- What the exceptions of the services are answered with. -/
def recover (request : HttpRequest) : ServerError → Reply
  | .http status what => makeErrorResponse status what request
  | .upnp code what => makeUpnpErrorResponse server.pugi code what request
  | .store _ => dropConnection

def indexPage : Bytes := ascii "<html><body>Welcome!</body></html>"

/-- One turn of `handle_connections`.  `fuel` bounds the turns of the body
loop. -/
def handle (fuel : Nat) (arrival : Arrival) : Reply :=
  let request := arrival.request
  match splitTarget request.target with
  | none => makeErrorResponse Status.ok indexPage request
  | some (first, subPath) =>
      if first = ascii "upnp" then
        match handleUpnpRequest server.pugi server.db server.config request subPath with
        | .ok body => createBufferResponse request body "text/xml"
        | .error error => server.recover request error
      else if first = ascii "content" then
        match createResponse server.db server.files subPath request with
        | .ok response => sendContent fuel arrival response
        | .error error => server.recover request error
      else makeErrorResponse Status.notFound (ascii "Not found") request

/-- The replies of one connection, up to the one that ends it. -/
def handleConnections (fuel : Nat) : List Arrival → List Reply
  | [] => []
  | arrival :: rest =>
      let reply := server.handle fuel arrival
      match reply.ending with
      | .keptOpen => reply :: handleConnections fuel rest
      | _ => [reply]

variable {server} {fuel : Nat} {arrival : Arrival} {rest : List Arrival}
  {header? : Option ResponseHeader} {body : Bytes}

theorem handleConnections_of_keptOpen
    (h : server.handle fuel arrival = ⟨header?, body, .keptOpen⟩) :
    server.handleConnections fuel (arrival :: rest) =
      ⟨header?, body, .keptOpen⟩ :: server.handleConnections fuel rest := by
  simp only [handleConnections, h]

theorem handleConnections_of_closed (h : server.handle fuel arrival = ⟨header?, body, .closed⟩) :
    server.handleConnections fuel (arrival :: rest) = [⟨header?, body, .closed⟩] := by
  simp only [handleConnections, h]

end Server

/-- What a reply puts on the stream. -/
def Reply.tokens (reply : Reply) : List (Token ResponseHeader UInt8) :=
  match reply.header with
  | some header => Message.tokens ⟨header, reply.body⟩
  | none => reply.body.map .byte

end Eems

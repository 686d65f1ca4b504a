/-
The content service: it finds the file behind a resource id, works out which of
its bytes are asked for, and sends them.
-/
import Eems.Http

namespace Eems

open Numeral

/-- `beast::file`, opened for reading.  Asking for its size or moving in it may
fail, with the text of the error. -/
structure File where
  content : Bytes
  fits : content.length < 2 ^ 64
  sizeError : Option Bytes := none
  seekError : Option Bytes := none
deriving DecidableEq, Repr

def File.size (file : File) : UInt64 := file.content.length.toUInt64

/-- What `file.open` comes to. -/
inductive Opened where
  | file (file : File)
  | noSuchFile
  | failed (message : Bytes)
deriving DecidableEq, Repr

abbrev Files := Path → Opened

/-- The response header, the file with its position, and how many bytes are to
be sent. -/
structure ContentResponse where
  header : ResponseHeader
  file : File
  position : UInt64
  size : UInt64
deriving DecidableEq, Repr

/-- `-uint_max` -/
def optionalUint (text : Bytes) : Option UInt64 × Bytes :=
  match readNat (2 ^ 64 - 1) text with
  | some (n, rest) => (some n.toUInt64, rest)
  | none => (none, text)

/-- `"bytes=" >> -uint_max >> '-' >> -uint_max` -/
def parseRange (text : Bytes) : Option (Option UInt64 × Option UInt64) :=
  if !(ascii "bytes=").isPrefixOf text then none
  else
    let (first, text) := optionalUint (text.drop 6)
    match text with
    | [] => none
    | b :: text =>
        if b ≠ minus then none
        else
          let (last, text) := optionalUint text
          if text.isEmpty then some (first, last) else none

def rangeNotSatisfiable : ServerError := .http Status.rangeNotSatisfiable []

def requestRange (request : HttpRequest) :
    Except ServerError (Option UInt64 × Option UInt64) :=
  let header := request.field "range"
  if header.isEmpty then .ok (none, none)
  else match parseRange header with
    | some range => .ok range
    | none => .error rangeNotSatisfiable

/-- The location stored under a resource id. -/
def resourceLocation (db : Db) (id : Int) (subPath : Path) : Except ServerError Path :=
  match StoreService.getResource db ⟨id⟩ with
  | .error failure => .error (.store failure)
  | .ok none => .error (.http Status.notFound (cString subPath))
  | .ok (some resource) =>
      match resource.location with
      | none => .error (.http Status.notFound (cString subPath))
      | some location => .ok (asCString location)

def openFile (files : Files) (location subPath : Path) : Except ServerError File :=
  match files location with
  | .file file => .ok file
  | .noSuchFile => .error (.http Status.notFound (cString subPath))
  | .failed message => .error (.http Status.internalServerError message)

/-- The first and the last byte of a range, re-interpreted in place; `none` if
it is not satisfiable. -/
def resolveRange (size : UInt64) (first last : Option UInt64) : Option (UInt64 × UInt64) :=
  if first.any fun first => last.any fun last => first > last then none
  else if first.any fun first => first ≥ size then none
  else
    let last := last.getD (size - 1)
    match first with
    | some first => some (first, last)
    | none =>
        let last := min size last
        some (size - last, last)

def contentHeader (request : HttpRequest) (status : Nat) (fields : List (Bytes × Bytes))
    (size : UInt64) : ResponseHeader where
  status := status
  version := request.version
  keepAlive := request.keepAlive
  fields := (ascii "accept-ranges", ascii "bytes") :: fields
  contentLength := size.toNat

def contentRange (first last size : UInt64) : Bytes :=
  ascii "bytes " ++ formatNat first.toNat ++ ascii "-" ++ formatNat last.toNat ++ ascii "/" ++
    formatNat size.toNat

/-- The rest of `create_response`, once the file is open. -/
def fileResponse (request : HttpRequest) (file : File)
    (range : Option UInt64 × Option UInt64) : Except ServerError ContentResponse :=
  match file.sizeError with
  | some message => .error (.http Status.internalServerError message)
  | none =>
      if range.1.isSome || range.2.isSome then
        match resolveRange file.size range.1 range.2 with
        | none => .error rangeNotSatisfiable
        | some (first, last) =>
            match file.seekError with
            | some message => .error (.http Status.internalServerError message)
            | none =>
                let size := last - first + 1
                .ok ⟨contentHeader request Status.partialContent
                  [(ascii "content-range", contentRange first last file.size)] size,
                  file, first, size⟩
      else .ok ⟨contentHeader request Status.ok [] file.size, file, 0, file.size⟩

def createResponse (db : Db) (files : Files) (subPath : Path) (request : HttpRequest) :
    Except ServerError ContentResponse :=
  match parseInt64 (cString subPath) with
  | none => .error (.http Status.notFound (cString subPath))
  | some id => do
      let range ← requestRange request
      let location ← resourceLocation db id subPath
      let file ← openFile files location subPath
      fileResponse request file range

/-- What the turns of the body loop meet: the bytes read at a position, `none`
for a read error, and how many bytes a failing write still sends. -/
structure Transfer where
  read : Nat → Nat → Nat → Option Bytes
  write : Nat → Option Nat

/-- A file that stays as it is while it is sent. -/
def File.transfer (file : File) (write : Nat → Option Nat) : Transfer where
  read _ position wanted := some ((file.content.drop position).take wanted)
  write := write

/-- How the handling of a request leaves the connection. -/
inductive Ending where
  | keptOpen
  | closed
  | running
deriving DecidableEq, Repr

/-- The loop of `handle_request`: what has been sent and how it ends, still
running if `fuel` turns are not enough. -/
def bodyLoop (transfer : Transfer) :
    Nat → Nat → Nat → UInt64 → Bytes → Bytes × Ending
  | 0, _, _, _, sent => (sent, .running)
  | fuel + 1, turn, position, size, sent =>
      let wanted := min size.toNat 4096
      if wanted = 0 then (sent, .keptOpen)
      else match transfer.read turn position wanted with
        | none => (sent, .closed)
        | some bytes =>
            match transfer.write turn with
            | some part => (sent ++ bytes.take part, .closed)
            | none =>
                bodyLoop transfer fuel (turn + 1) (position + bytes.length)
                  (size - bytes.length.toUInt64) (sent ++ bytes)

example : parseRange (ascii "bytes=10-") = some (some 10, none) := by decide

example : parseRange (ascii "bytes=-18446744073709551616") = none := by decide +kernel

end Eems

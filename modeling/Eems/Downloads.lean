/-
Downloads that break off and are taken up again: whatever URL a browse response
offers, the pieces that a client gets make up a file that a scan found.
-/
import Eems.Confinement
import Eems.Connections
import Eems.ServerFraming
import Eems.Basic.Resume

namespace Eems

open Numeral Resume

/-- `Range: bytes=n-` -/
def rangeFrom (n : Nat) : Bytes := ascii "bytes=" ++ formatNat n ++ ascii "-"

def resumeRequest (target : Bytes) (n : Nat) : HttpRequest where
  method := .get
  target := target
  version := 11
  keepAlive := true
  fields := [(ascii "Range", rangeFrom n)]
  body := []

/-- What a client that has `n` bytes gets with one more request, and whether
that is everything.  It takes the body of a partial response only, and a refused
range for the end of the file. -/
def fetchFrom (server : Server) (fuel : Nat) (target : Bytes) (n : Nat)
    (write : Nat → Option Nat) : Bytes × Bool :=
  let reply := server.handle fuel ⟨resumeRequest target n, write⟩
  match reply.header with
  | none => ([], false)
  | some header =>
      if header.status = Status.partialContent then (reply.body, reply.ending = .keptOpen)
      else ([], header.status = Status.rangeNotSatisfiable)

/-- A client that asks for the rest of a file as often as there are `attempts`;
each is how the writes of its response come out. -/
def download (server : Server) (fuel : Nat) (target : Bytes)
    (attempts : List (Nat → Option Nat)) : Bytes × Bool :=
  assemble (fetchFrom server fuel target) attempts []

theorem parseRange_rangeFrom (n : UInt64) :
    parseRange (rangeFrom n.toNat) = some (some n, none) := by
  have hprefix : (ascii "bytes=").isPrefixOf (rangeFrom n.toNat) = true := by
    rw [List.isPrefixOf_iff_prefix, rangeFrom, List.append_assoc]
    exact List.prefix_append _ _
  have hdrop : (rangeFrom n.toNat).drop 6 = formatNat n.toNat ++ [minus] := by
    rw [rangeFrom, List.append_assoc]
    rfl
  have hread : optionalUint (formatNat n.toNat ++ [minus]) = (some n, [minus]) := by
    have hmax : n.toNat ≤ 2 ^ 64 - 1 := Nat.le_sub_one_of_lt n.toNat_lt
    have hminus : ∀ b ∈ [minus].head?, isDigit b = false := by simp [isDigit, minus]
    rw [optionalUint, readNat_formatNat hmax hminus]
    simp
  have hnone : optionalUint [] = (none, []) := by decide
  simp [parseRange, hprefix, hdrop, hread, hnone]

/-- However the writes come out, what is sent of a file is what comes next in
it. -/
theorem bodyLoop_reads_from (file : File) (write : Nat → Option Nat) (fuel turn position : Nat)
    (size : UInt64) :
    (bodyLoop (file.transfer write) fuel turn position size []).1 <+:
      file.content.drop position := by
  induction fuel generalizing turn position size with
  | zero => exact List.nil_prefix
  | succ fuel ih =>
      simp only [bodyLoop, File.read_transfer, File.write_transfer, List.nil_append]
      split
      · exact List.nil_prefix
      · generalize hbytes : (file.content.drop position).take (min size.toNat 4096) = bytes
        have hprefix : bytes <+: file.content.drop position := hbytes ▸ List.take_prefix _ _
        cases write turn with
        | some part => exact (List.take_prefix part bytes).trans hprefix
        | none =>
            simp only
            rw [bodyLoop_sent]
            have hrest := ih (turn + 1) (position + bytes.length) (size - bytes.length.toUInt64)
            obtain ⟨rest, hrest'⟩ := hprefix
            rw [← List.drop_drop, ← hrest', List.drop_left] at hrest
            rw [← hrest', List.prefix_append_right_inj]
            exact hrest

/-- Nothing but a failing write closes the connection. -/
theorem bodyLoop_ne_closed (file : File) (fuel turn position : Nat) (size : UInt64)
    (sent : Bytes) :
    (bodyLoop (file.transfer fun _ => none) fuel turn position size sent).2 ≠ .closed := by
  induction fuel generalizing turn position size sent with
  | zero => simp [bodyLoop]
  | succ fuel ih =>
      simp only [bodyLoop, File.read_transfer, File.write_transfer]
      split
      · simp
      · exact ih _ _ _ _

/-- The target leads to a file that can be opened and read. -/
structure Hosted (server : Server) (target : Bytes) (file : File) : Prop where
  served : ∃ subPath, splitTarget target = some (ascii "content", subPath) ∧
    ∀ request range, requestRange request = .ok range →
      createResponse server.db server.files subPath request = fileResponse request file range
  size_ok : file.sizeError = none
  seek_ok : file.seekError = none

section Attempts

variable {server : Server} {fuel : Nat} {target : Bytes} {file : File}

theorem requestRange_resumeRequest (n : UInt64) :
    requestRange (resumeRequest target n.toNat) = .ok (some n, none) := by
  have hfield : (resumeRequest target n.toNat).field "range" = rangeFrom n.toNat := by
    have hname : (ascii "Range").map lowerByte = ascii "range" := by decide
    simp [HttpRequest.field, resumeRequest, hname]
  have hne : (rangeFrom n.toNat).isEmpty = false := rfl
  simp [requestRange, hfield, hne, parseRange_rangeFrom]

/-- The reply to a request for the rest of the file, from its end on, -/
theorem Hosted.handle_end (h : Hosted server target file) (write : Nat → Option Nat) :
    server.handle fuel ⟨resumeRequest target file.content.length, write⟩ =
      makeErrorResponse Status.rangeNotSatisfiable []
        (resumeRequest target file.content.length) := by
  obtain ⟨subPath, hsplit, hserved⟩ := h.served
  have hne : ascii "content" ≠ ascii "upnp" := by decide
  have hresolve := resolveRange_first file.size file.size
  rw [if_pos le_rfl] at hresolve
  have hrange := @requestRange_resumeRequest target file.size
  rw [file.toNat_size] at hrange
  have hresponse := hserved _ _ hrange
  rw [fileResponse_of_refused h.size_ok (by simp) hresolve] at hresponse
  have htarget : (resumeRequest target file.content.length).target = target := rfl
  simp only [Server.handle, htarget, hsplit, hne, ↓reduceIte, hresponse, rangeNotSatisfiable,
    Server.recover]

/-- and from before its end. -/
theorem Hosted.handle_from (h : Hosted server target file) {n : Nat}
    (hn : n < file.content.length) (write : Nat → Option Nat) :
    ∃ header, header.status = Status.partialContent ∧ ∃ size : UInt64,
      n + size.toNat = file.content.length ∧
      server.handle fuel ⟨resumeRequest target n, write⟩ =
        ⟨some header, (bodyLoop (file.transfer write) fuel 0 n size []).1,
          (bodyLoop (file.transfer write) fuel 0 n size []).2⟩ := by
  obtain ⟨subPath, hsplit, hserved⟩ := h.served
  have hne : ascii "content" ≠ ascii "upnp" := by decide
  have hfits := file.fits
  have hsize := file.toNat_size
  obtain ⟨first, rfl⟩ : ∃ first : UInt64, first.toNat = n := ⟨n.toUInt64, by
    simp only [Nat.toUInt64, UInt64.toNat_ofNat']
    omega⟩
  have hresolve := resolveRange_first file.size first
  rw [if_neg (by omega)] at hresolve
  have hresponse := hserved _ _ (@requestRange_resumeRequest target first)
  rw [fileResponse_of_resolved h.size_ok h.seek_ok (by simp) hresolve] at hresponse
  have htarget : (resumeRequest target first.toNat).target = target := rfl
  have hmethod : (resumeRequest target first.toNat).method ≠ .head := by
    simp [resumeRequest]
  refine ⟨contentHeader (resumeRequest target first.toNat) Status.partialContent
    [(ascii "content-range", contentRange first (file.size - 1) file.size)]
    (file.size - 1 - first + 1), rfl, file.size - 1 - first + 1, ?_, ?_⟩
  · simp only [UInt64.toNat_add, UInt64.toNat_sub, UInt64.toNat_one]
    omega
  · simp only [Server.handle, htarget, hsplit, hne, ↓reduceIte, hresponse, sendContent,
      if_neg hmethod]

/-- Every attempt gets a stretch of the file, the whole rest if it says so. -/
theorem Hosted.serves (h : Hosted server target file) (hfuel : 2 ^ 64 ≤ fuel) :
    Serves (fetchFrom server fuel target) file.content := by
  have hfetch : ∀ n write, n ≤ file.content.length →
      (fetchFrom server fuel target n write).1 <+: file.content.drop n ∧
        ((fetchFrom server fuel target n write).2 = true →
          (fetchFrom server fuel target n write).1 = file.content.drop n) := by
    intro n write hn
    rcases Nat.lt_or_eq_of_le hn with hinside | rfl
    · obtain ⟨header, hstatus, size, hsize, hreply⟩ :=
        @Hosted.handle_from server fuel target file h n hinside write
      simp only [fetchFrom, hreply, if_pos hstatus, decide_eq_true_eq]
      refine ⟨bodyLoop_reads_from file write fuel 0 n size, ?_⟩
      intro hopen
      have hbound := size.toNat_lt
      rcases @bodyLoop_available file write fuel 0 n size [] (by omega) (by omega) with
        ⟨-, hbody⟩ | ⟨hclosed, -⟩
      · rw [hbody, List.nil_append, List.take_of_length_le]
        simp only [List.length_drop]
        omega
      · rw [hclosed] at hopen
        simp at hopen
    · have hreply := @Hosted.handle_end server fuel target file h write
      have hne : Status.rangeNotSatisfiable ≠ Status.partialContent := by decide
      simp [fetchFrom, hreply, makeErrorResponse, writeResponse, hne]
  exact ⟨fun n write hn => (hfetch n write hn).1, fun n write hn => (hfetch n write hn).2⟩

/-- An attempt whose writes all succeed gets everything. -/
theorem Hosted.fetchFrom_done (h : Hosted server target file) (hfuel : 2 ^ 64 ≤ fuel) {n : Nat}
    (hn : n ≤ file.content.length) :
    (fetchFrom server fuel target n fun _ => none).2 = true := by
  rcases Nat.lt_or_eq_of_le hn with hinside | rfl
  · obtain ⟨header, hstatus, size, hsize, hreply⟩ :=
      @Hosted.handle_from server fuel target file h n hinside fun _ => none
    have hbound := size.toNat_lt
    simp only [fetchFrom, hreply, if_pos hstatus, decide_eq_true_eq]
    rcases @bodyLoop_available file (fun _ => none) fuel 0 n size [] (by omega) (by omega) with
      ⟨hopen, -⟩ | ⟨hclosed, -⟩
    · exact hopen
    · exact absurd hclosed (bodyLoop_ne_closed file fuel 0 n size [])
  · have hreply := @Hosted.handle_end server fuel target file h fun _ => none
    have hne : Status.rangeNotSatisfiable ≠ Status.partialContent := by decide
    simp [fetchFrom, hreply, makeErrorResponse, writeResponse, hne]

end Attempts

/-- The URL leads to the file that the server finds at the path: however often a
download breaks off and is taken up again, the client has the beginning of that
file, and all of it once an attempt is not cut short. -/
def Server.Delivers (server : Server) (url : Bytes) (path : Path) : Prop :=
  ∃ target, url = server.config.baseUrl ++ target ∧
    ∀ file fuel attempts, server.files path = .file file → file.sizeError = none →
      file.seekError = none → 2 ^ 64 ≤ fuel →
      (download server fuel target attempts).1 <+: file.content ∧
      ((download server fuel target attempts).2 = true →
        (download server fuel target attempts).1 = file.content) ∧
      ((fun _ => none) ∈ attempts → (download server fuel target attempts).2 = true)

theorem UrlLeadsTo.delivers {server : Server} {id : Int} {path : Path}
    (h : UrlLeadsTo server.db id path) :
    server.Delivers (resourceUrl server.config.baseUrl id) path := by
  refine ⟨ascii "/content/" ++ formatInt id, List.append_assoc _ _ _, ?_⟩
  intro file fuel attempts hfile hsize hseek hfuel
  have hhosted : Hosted server (ascii "/content/" ++ formatInt id) file := by
    refine ⟨⟨formatInt id, h.split, ?_⟩, hsize, hseek⟩
    intro request range hrange
    rw [h.served server.files request range hrange, openFile, hfile]
    rfl
  have hserves := hhosted.serves hfuel
  obtain ⟨-, hbegun, hwhole⟩ := hserves.assemble attempts List.nil_prefix
  refine ⟨hbegun, hwhole, ?_⟩
  intro hgood
  exact hserves.assemble_done List.nil_prefix
    ⟨_, hgood, fun n hn => hhosted.fetchFrom_done hfuel hn⟩

/-- What a browse response offers can be downloaded: each URL leads to a file
that a scan found below its root. -/
theorem reachable_downloads [ArtworkSorter] {calls : List ScanCall} {system : System}
    (h : Reachable calls system) {server : Server} (hdb : server.db = system.db)
    {params : Option Xml} {result : BrowseResult}
    (hresult : browsePage system.db server.config.baseUrl params = .ok result) {element : Xml}
    (helement : element ∈ result.didl) {url : Bytes} (hurl : url ∈ element.urls) :
    ∃ info, FoundByCalls calls info ∧ server.Delivers url info.path := by
  have hlibrary := h.foundLibrary
  obtain ⟨key, id, href, rfl⟩ := mem_urls_of_browsePage hresult helement hurl
  obtain ⟨resource, hresource⟩ := hlibrary.owned.stored_of_mem key _ href
  obtain ⟨info, hfound, rfl⟩ := hlibrary.resource_file _ resource hresource
  have hleads : UrlLeadsTo system.db id.id info.path :=
    urlLeadsTo_of_stored (hlibrary.id_nonneg _ _ hresource)
      ((h.recorded []).2 _ _ hresource) hfound.zero_notMem hresource
  rw [← hdb] at hleads
  exact ⟨info, hfound, hleads.delivers⟩

/-- The films on a host where every file holds the same hundred bytes. -/
def hundredServer (db : Db) : Server where
  pugi := filmServer.pugi
  config := filmServer.config
  db := db
  files _ := .file hundredBytes

theorem db_hundredServer (db : Db) : (hundredServer db).db = db := rfl

/-- The first attempt is cut after three bytes. -/
theorem reachable_downloads_films :
    ∃ result element url target, browsePage filmSystem.db filmServer.config.baseUrl
        (browseParams 1 0 0) = .ok result ∧ element ∈ result.didl ∧ url ∈ element.urls ∧
      url = filmServer.config.baseUrl ++ target ∧
      (download (hundredServer filmSystem.db) (2 ^ 64) target [fun _ => some 3, fun _ => none]).1 =
        hundredBytes.content := by
  have hshown : ((browsePage filmSystem.db filmServer.config.baseUrl
      (browseParams 1 0 0)).toOption.bind fun result => result.didl.head?.bind fun element =>
        element.urls.head?).isSome = true := by decide +kernel
  obtain ⟨url, hurl⟩ := Option.isSome_iff_exists.mp hshown
  obtain ⟨result, hresult, hfirst⟩ := Option.bind_eq_some_iff.mp hurl
  obtain ⟨element, helement, hhead⟩ := Option.bind_eq_some_iff.mp hfirst
  have hpage : browsePage filmSystem.db filmServer.config.baseUrl (browseParams 1 0 0) =
      .ok result := by
    cases hcase : browsePage filmSystem.db filmServer.config.baseUrl (browseParams 1 0 0) with
    | error error => simp [hcase, Except.toOption] at hresult
    | ok found =>
        rw [hcase] at hresult
        exact congrArg Except.ok (Option.some.inj hresult)
  have hmem := List.mem_of_head? helement
  have hmemUrl := List.mem_of_head? hhead
  obtain ⟨info, -, target, htarget, hdownload⟩ := @reachable_downloads insertionSorter _ _
    reachable_films (hundredServer filmSystem.db) (db_hundredServer _) _ _ hpage _ hmem _ hmemUrl
  obtain ⟨-, hwhole, hdone⟩ := hdownload hundredBytes (2 ^ 64)
    [fun _ => some 3, fun _ => none] rfl rfl rfl le_rfl
  exact ⟨result, element, url, target, hpage, hmem, hmemUrl, htarget,
    hwhole (hdone (by simp))⟩

end Eems

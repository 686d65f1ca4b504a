/-
The byte ranges that the content service serves, against the intervals that a
range header stands for.
-/
import Eems.ContentService

namespace Eems

open Numeral

/-- The interval a range stands for in a file of `size` bytes, `none` if it is
unsatisfiable. -/
def rangeInterval (size : Nat) : Option Nat → Option Nat → Option (Nat × Nat)
  | some first, some last =>
      if size ≤ first ∨ last < first then none else some (first, min last (size - 1))
  | some first, none => if size ≤ first then none else some (first, size - 1)
  | none, some suffix =>
      if suffix = 0 ∨ size = 0 then none else some (size - min suffix size, size - 1)
  | none, none => none

theorem rangeInterval_bounds {size : Nat} {first last : Option Nat} {a b : Nat}
    (h : rangeInterval size first last = some (a, b)) : a ≤ b ∧ b < size := by
  cases first <;> cases last <;> simp only [rangeInterval] at h
  · simp at h
  all_goals
    split at h
    · simp at h
    · simp only [Option.some.injEq, Prod.mk.injEq] at h
      omega

/-- The response announces, positions and counts exactly the interval. -/
structure ServesInterval (file : File) (a b : Nat) (response : ContentResponse) : Prop where
  status : response.header.status = Status.partialContent
  content_range : (ascii "content-range", ascii "bytes " ++ formatNat a ++ ascii "-" ++
    formatNat b ++ ascii "/" ++ formatNat file.content.length) ∈ response.header.fields
  same_file : response.file = file
  position : response.position.toNat = a
  content_length : response.header.contentLength = b - a + 1
  size : response.size.toNat = b - a + 1

/-- What a range request for a file should be answered with. -/
def AnswersRange (file : File) (first last : Option UInt64)
    (result : Except ServerError ContentResponse) : Prop :=
  match rangeInterval file.content.length (first.map UInt64.toNat) (last.map UInt64.toNat) with
  | none => result = .error rangeNotSatisfiable
  | some (a, b) => ∃ response, result = .ok response ∧ ServesInterval file a b response

/-- The ranges that are served as they should be: those that end inside the
file or are recognised as unsatisfiable, those without an end, and of the
suffixes only the one that leaves out a single byte. -/
def RangeServed (size : Nat) : Option UInt64 → Option UInt64 → Prop
  | some first, some last =>
      last.toNat < first.toNat ∨ size ≤ first.toNat ∨ last.toNat < size
  | some _, none => True
  | none, some suffix => 0 < suffix.toNat ∧ suffix.toNat + 1 = size
  | none, none => True

@[simp] theorem File.toNat_size (file : File) : file.size.toNat = file.content.length := by
  simp only [File.size, Nat.toUInt64, UInt64.toNat_ofNat']
  exact Nat.mod_eq_of_lt file.fits

/-- A request that reaches the range arithmetic of an open file. -/
structure RangeRequest (db : Db) (files : Files) (subPath : Path) (request : HttpRequest)
    (file : File) (first last : Option UInt64) : Prop where
  found : ∃ id location mimeType, parseInt64 (cString subPath) = some id ∧
    db.lookup (.resourceKey ⟨id⟩) = some (.resource ⟨some location, mimeType⟩) ∧
    files (asCString location) = .file file
  header : request.field "range" ≠ []
  parsed : parseRange (request.field "range") = some (first, last)
  given : first.isSome ∨ last.isSome
  size_ok : file.sizeError = none
  seek_ok : file.seekError = none

theorem RangeRequest.createResponse_eq {db : Db} {files : Files} {subPath : Path}
    {request : HttpRequest} {file : File} {first last : Option UInt64}
    (h : RangeRequest db files subPath request file first last) :
    createResponse db files subPath request = fileResponse request file (first, last) := by
  obtain ⟨id, location, mimeType, hid, hlookup, hfile⟩ := h.found
  have hrange : requestRange request = .ok (first, last) := by
    simp [requestRange, h.header, h.parsed]
  have hlocation : resourceLocation db id subPath = .ok (asCString location) := by
    simp [resourceLocation, StoreService.getResource, OrderedMap.seekExact_eq_lookup, hlookup]
  simp [createResponse, hid, hrange, hlocation, openFile, hfile, bind, Except.bind]

/-- The response for resolved bounds serves an interval only if they are its
bounds. -/
theorem servesInterval_iff {file : File} {request : HttpRequest} {first last : UInt64}
    {a b : Nat} (hab : a ≤ b) (hb : b < file.content.length) :
    ServesInterval file a b
        ⟨contentHeader request Status.partialContent
          [(ascii "content-range", contentRange first last file.size)] (last - first + 1),
          file, first, last - first + 1⟩ ↔
      first.toNat = a ∧ last.toNat = b := by
  have hfits := file.fits
  have hfirst := first.toNat_lt
  have hlast := last.toNat_lt
  have hsize : (last - first + 1).toNat =
      (((2 ^ 64 - first.toNat + last.toNat) % 2 ^ 64) + 1) % 2 ^ 64 := by
    simp [UInt64.toNat_add, UInt64.toNat_sub]
  constructor
  · rintro ⟨-, -, -, hposition, -, hcount⟩
    simp only at hposition hcount
    rw [hsize] at hcount
    omega
  · rintro ⟨rfl, rfl⟩
    have hcount : (last - first + 1).toNat = last.toNat - first.toNat + 1 := by
      rw [hsize]
      omega
    refine ⟨rfl, ?_, rfl, rfl, hcount, hcount⟩
    simp [contentHeader, contentRange]

theorem resolveRange_first_last (size first last : UInt64) :
    resolveRange size (some first) (some last) =
      if last.toNat < first.toNat ∨ size.toNat ≤ first.toNat then none
      else some (first, last) := by
  by_cases hless : last.toNat < first.toNat <;> by_cases hpast : size.toNat ≤ first.toNat <;>
    simp [resolveRange, UInt64.lt_iff_toNat_lt, UInt64.le_iff_toNat_le, hless, hpast]

theorem resolveRange_first (size first : UInt64) :
    resolveRange size (some first) none =
      if size.toNat ≤ first.toNat then none else some (first, size - 1) := by
  by_cases hpast : size.toNat ≤ first.toNat <;>
    simp [resolveRange, UInt64.le_iff_toNat_le, hpast]

theorem resolveRange_suffix (size suffix : UInt64) :
    resolveRange size none (some suffix) =
      some (size - min size suffix, min size suffix) := by
  simp [resolveRange]

theorem toNat_min (left right : UInt64) :
    (min left right).toNat = min left.toNat right.toNat := by
  change (if left ≤ right then left else right).toNat = _
  simp only [UInt64.le_iff_toNat_le]
  split <;> omega

section Answer

variable {file : File} {request : HttpRequest} (hsize : file.sizeError = none)
  (hseek : file.seekError = none)

include hsize hseek in
theorem fileResponse_of_resolved {first last : Option UInt64} {bounds : UInt64 × UInt64}
    (hgiven : first.isSome ∨ last.isSome)
    (h : resolveRange file.size first last = some bounds) :
    fileResponse request file (first, last) =
      .ok ⟨contentHeader request Status.partialContent
        [(ascii "content-range", contentRange bounds.1 bounds.2 file.size)]
        (bounds.2 - bounds.1 + 1), file, bounds.1, bounds.2 - bounds.1 + 1⟩ := by
  simp [fileResponse, hsize, hseek, hgiven, h]

include hsize in
theorem fileResponse_of_refused {first last : Option UInt64}
    (hgiven : first.isSome ∨ last.isSome)
    (h : resolveRange file.size first last = none) :
    fileResponse request file (first, last) = .error rangeNotSatisfiable := by
  simp [fileResponse, hsize, hgiven, h]

include hsize hseek in
/-- Resolved bounds answer a range when they are the ends of its interval. -/
theorem answersRange_resolved_iff {first last : Option UInt64} {bounds : UInt64 × UInt64}
    (hgiven : first.isSome ∨ last.isSome)
    (h : resolveRange file.size first last = some bounds) :
    AnswersRange file first last (fileResponse request file (first, last)) ↔
      rangeInterval file.content.length (first.map UInt64.toNat) (last.map UInt64.toNat) =
        some (bounds.1.toNat, bounds.2.toNat) := by
  rw [fileResponse_of_resolved hsize hseek hgiven h, AnswersRange]
  cases hinterval : rangeInterval file.content.length (first.map UInt64.toNat)
      (last.map UInt64.toNat) with
  | none => simp
  | some interval =>
      obtain ⟨a, b⟩ := interval
      obtain ⟨hab, hb⟩ := rangeInterval_bounds hinterval
      simp only [Except.ok.injEq, exists_eq_left', servesInterval_iff hab hb, Option.some.injEq,
        Prod.mk.injEq]
      exact and_congr eq_comm eq_comm

include hsize in
/-- A refused range is answered when it has no interval. -/
theorem answersRange_refused_iff {first last : Option UInt64}
    (hgiven : first.isSome ∨ last.isSome)
    (h : resolveRange file.size first last = none) :
    AnswersRange file first last (fileResponse request file (first, last)) ↔
      rangeInterval file.content.length (first.map UInt64.toNat) (last.map UInt64.toNat) =
        none := by
  rw [fileResponse_of_refused hsize hgiven h, AnswersRange]
  cases rangeInterval file.content.length (first.map UInt64.toNat) (last.map UInt64.toNat) with
  | none => simp
  | some interval => simp

include hsize hseek in
/-- Both ends given: an end past the file is not clamped. -/
theorem answersRange_first_last_iff (first last : UInt64) :
    AnswersRange file (some first) (some last)
        (fileResponse request file (some first, some last)) ↔
      RangeServed file.content.length (some first) (some last) := by
  have hresolve := resolveRange_first_last file.size first last
  rw [file.toNat_size] at hresolve
  split at hresolve
  · rw [answersRange_refused_iff hsize (by simp) hresolve]
    simp only [rangeInterval, Option.map_some, RangeServed]
    split <;> simp <;> omega
  · rw [answersRange_resolved_iff hsize hseek (by simp) hresolve]
    simp only [rangeInterval, Option.map_some, RangeServed]
    split <;> simp <;> omega

include hsize hseek in
/-- No end given: the range goes on to the end of the file. -/
theorem answersRange_first_iff (first : UInt64) :
    AnswersRange file (some first) none (fileResponse request file (some first, none)) ↔
      RangeServed file.content.length (some first) none := by
  have hresolve := resolveRange_first file.size first
  have hsub : (file.size - 1).toNat = (2 ^ 64 - 1 + file.content.length) % 2 ^ 64 := by
    simp [UInt64.toNat_sub]
  have hfits := file.fits
  rw [file.toNat_size] at hresolve
  split at hresolve
  · rw [answersRange_refused_iff hsize (by simp) hresolve]
    simp only [rangeInterval, Option.map_some, Option.map_none, RangeServed]
    split <;> simp
  · rw [answersRange_resolved_iff hsize hseek (by simp) hresolve]
    simp only [rangeInterval, Option.map_some, Option.map_none, RangeServed, hsub]
    split <;> simp <;> omega

include hsize hseek in
/-- A suffix: its length is taken for its last position, and it is never
refused. -/
theorem answersRange_suffix_iff (suffix : UInt64) :
    AnswersRange file none (some suffix) (fileResponse request file (none, some suffix)) ↔
      RangeServed file.content.length none (some suffix) := by
  have hsub : (file.size - min file.size suffix).toNat =
      file.content.length - min file.content.length suffix.toNat := by
    have hmin := toNat_min file.size suffix
    have hfits := file.fits
    rw [UInt64.toNat_sub, hmin, file.toNat_size]
    omega
  rw [answersRange_resolved_iff hsize hseek (by simp) (resolveRange_suffix file.size suffix)]
  simp only [rangeInterval, Option.map_some, Option.map_none, RangeServed, hsub, toNat_min,
    file.toNat_size]
  split <;> simp <;> omega

end Answer

/-- A range is answered as it should be exactly when it is one of those the
arithmetic is right for. -/
theorem createResponse_answersRange_iff {db : Db} {files : Files} {subPath : Path}
    {request : HttpRequest} {file : File} {first last : Option UInt64}
    (h : RangeRequest db files subPath request file first last) :
    AnswersRange file first last (createResponse db files subPath request) ↔
      RangeServed file.content.length first last := by
  rw [h.createResponse_eq]
  rcases first with - | first <;> rcases last with - | last
  · simpa using h.given
  · exact answersRange_suffix_iff h.size_ok h.seek_ok last
  · exact answersRange_first_iff h.size_ok h.seek_ok first
  · exact answersRange_first_last_iff h.size_ok h.seek_ok first last

/-- One stored film and its file of a hundred bytes. -/
def filmDb : Db :=
  OrderedMap.empty.insert (.resourceKey ⟨5⟩)
    (.resource ⟨some (putString (ascii "films/Brazil.avi")),
      some (putString (ascii "video/x-msvideo"))⟩)

def hundredBytes : File := { content := List.replicate 100 7, fits := by decide }

def filmOnDisk : Files := fun path =>
  if path = ascii "films/Brazil.avi" then .file hundredBytes else .noSuchFile

def rangeOfFilm (range : String) : HttpRequest where
  method := .get
  target := ascii "/content/5"
  version := 11
  keepAlive := true
  fields := [(ascii "Range", ascii range)]
  body := []

theorem rangeRequest_film {range : String} {first last : Option UInt64}
    (hrange : ascii range ≠ []) (hparsed : parseRange (ascii range) = some (first, last))
    (hgiven : first.isSome ∨ last.isSome) :
    RangeRequest filmDb filmOnDisk (ascii "5") (rangeOfFilm range) hundredBytes first last := by
  have hfield : (rangeOfFilm range).field "range" = ascii range := by
    have hname : (ascii "Range").map lowerByte = ascii "range" := by decide
    simp [HttpRequest.field, rangeOfFilm, hname]
  refine ⟨⟨5, putString (ascii "films/Brazil.avi"), some (putString (ascii "video/x-msvideo")),
    by decide, ?_, ?_⟩, ?_, ?_, hgiven, rfl, rfl⟩
  · exact OrderedMap.lookup_insert_self _ _ _
  · decide
  · rwa [hfield]
  · rwa [hfield]

theorem createResponse_answersRange_film :
    AnswersRange hundredBytes (some 10) (some 19)
      (createResponse filmDb filmOnDisk (ascii "5") (rangeOfFilm "bytes=10-19")) :=
  (createResponse_answersRange_iff
    (rangeRequest_film (by decide) (by decide) (by decide))).mpr (Or.inr (Or.inr (by decide)))

/-- The last ten of a hundred bytes are announced as bytes 90 to 10, and more
than 2^63 of them. -/
theorem createResponse_suffix_not_answered :
    RangeRequest filmDb filmOnDisk (ascii "5") (rangeOfFilm "bytes=-10") hundredBytes none
        (some 10) ∧
      (createResponse filmDb filmOnDisk (ascii "5") (rangeOfFilm "bytes=-10")).map
        (fun response => (response.position, response.header.contentLength)) =
          .ok (90, 18446744073709551537) ∧
      ¬ AnswersRange hundredBytes none (some 10)
        (createResponse filmDb filmOnDisk (ascii "5") (rangeOfFilm "bytes=-10")) := by
  have hrequest : RangeRequest filmDb filmOnDisk (ascii "5") (rangeOfFilm "bytes=-10")
      hundredBytes none (some 10) := rangeRequest_film (by decide) (by decide) (by decide)
  refine ⟨hrequest, by decide +kernel, ?_⟩
  rw [hrequest.createResponse_eq, answersRange_suffix_iff rfl rfl]
  rintro ⟨-, hlength⟩
  revert hlength
  decide

end Eems

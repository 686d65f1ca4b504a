/-
What a scan reads from one directory: its subdirectories and, by MIME type,
its videos, artwork and subtitles in the order of their names.
-/
import Eems.Composer

namespace Eems

structure DirectoryContent where
  directories : List Path
  videos : OrderedMap Bytes FileInfo
  artwork : OrderedMap Bytes FileInfo
  subtitles : OrderedMap Bytes FileInfo

def DirectoryContent.empty : DirectoryContent :=
  ⟨[], OrderedMap.empty, OrderedMap.empty, OrderedMap.empty⟩

/-- One turn of the `directory_iterator` loop. -/
def DirectoryContent.add (path : Path) (content : DirectoryContent) (entry : DirEntry) :
    DirectoryContent :=
  let item := Path.append path entry.name
  match entry.type with
  | .directory => { content with directories := content.directories ++ [item] }
  | .other => content
  | .regular =>
      match getMimeType item with
      | none => content
      | some mimeType =>
          let info : FileInfo := ⟨mimeType, item⟩
          if isVideoType mimeType then
            { content with videos := content.videos.emplace (Path.filename item) info }
          else if isImageType mimeType then
            { content with artwork := content.artwork.emplace (Path.filename item) info }
          else if isTextType mimeType then
            { content with subtitles := content.subtitles.emplace (Path.filename item) info }
          else content

def readContent (path : Path) (entries : List DirEntry) : DirectoryContent :=
  entries.foldl (DirectoryContent.add path) DirectoryContent.empty

/-- The three uses of a regular file. -/
def isVideoFile (mimeType : Bytes) : Bool := isVideoType mimeType

def isArtworkFile (mimeType : Bytes) : Bool := !isVideoType mimeType && isImageType mimeType

def isSubtitleFile (mimeType : Bytes) : Bool :=
  !isVideoType mimeType && !isImageType mimeType && isTextType mimeType

/-- The map entry of a regular file of an accepted MIME type. -/
def fileEntry (path : Path) (accept : Bytes → Bool) (entry : DirEntry) :
    Option (Bytes × FileInfo) :=
  if entry.type = .regular then
    (getMimeType (Path.append path entry.name)).bind fun mimeType =>
      if accept mimeType then
        some (Path.filename (Path.append path entry.name),
          ⟨mimeType, Path.append path entry.name⟩)
      else none
  else none

/-- The map of the accepted files among `entries`. -/
def fileMap (path : Path) (accept : Bytes → Bool) (entries : List DirEntry) :
    OrderedMap Bytes FileInfo :=
  (entries.filterMap (fileEntry path accept)).foldl
    (fun acc file => acc.emplace file.1 file.2) OrderedMap.empty

def subdirectories (entries : List DirEntry) : List DirEntry :=
  entries.filter fun entry => entry.type = .directory

theorem foldl_filterMap_cons {S A B : Type} (f : S → B → S) (g : A → Option B) (a : A)
    (list : List A) (start : S) :
    ((a :: list).filterMap g).foldl f start =
      (list.filterMap g).foldl f (match g a with | none => start | some b => f start b) := by
  cases h : g a <;> simp [h]

theorem readContent_aux (path : Path) (entries : List DirEntry) (content : DirectoryContent) :
    entries.foldl (DirectoryContent.add path) content =
      { directories := content.directories ++
          (subdirectories entries).map fun entry => Path.append path entry.name
        videos := (entries.filterMap (fileEntry path isVideoFile)).foldl
          (fun acc file => acc.emplace file.1 file.2) content.videos
        artwork := (entries.filterMap (fileEntry path isArtworkFile)).foldl
          (fun acc file => acc.emplace file.1 file.2) content.artwork
        subtitles := (entries.filterMap (fileEntry path isSubtitleFile)).foldl
          (fun acc file => acc.emplace file.1 file.2) content.subtitles } := by
  induction entries generalizing content with
  | nil => simp [subdirectories]
  | cons entry rest ih =>
      rw [List.foldl_cons, ih, foldl_filterMap_cons, foldl_filterMap_cons, foldl_filterMap_cons]
      obtain ⟨name, type⟩ := entry
      cases type with
      | directory => simp [DirectoryContent.add, fileEntry, subdirectories]
      | other => simp [DirectoryContent.add, fileEntry, subdirectories]
      | regular =>
          cases hmime : getMimeType (Path.append path name) with
          | none => simp [DirectoryContent.add, fileEntry, subdirectories, hmime]
          | some mimeType =>
              by_cases hvideo : isVideoType mimeType <;>
                by_cases himage : isImageType mimeType <;>
                  by_cases htext : isTextType mimeType <;>
                    simp [DirectoryContent.add, fileEntry, subdirectories, hmime, hvideo,
                      himage, htext, isVideoFile, isArtworkFile, isSubtitleFile]

theorem readContent_eq (path : Path) (entries : List DirEntry) :
    readContent path entries =
      { directories := (subdirectories entries).map fun entry => Path.append path entry.name
        videos := fileMap path isVideoFile entries
        artwork := fileMap path isArtworkFile entries
        subtitles := fileMap path isSubtitleFile entries } := by
  rw [readContent, readContent_aux]
  simp [DirectoryContent.empty, fileMap]

theorem fileEntry_eq_some {path : Path} {accept : Bytes → Bool} {entry : DirEntry}
    {file : Bytes × FileInfo} (h : fileEntry path accept entry = some file) :
    entry.type = .regular ∧ file.1 = Path.filename (Path.append path entry.name) ∧
      file.2.path = Path.append path entry.name ∧
      getMimeType file.2.path = some file.2.mimeType ∧ accept file.2.mimeType = true := by
  unfold fileEntry at h
  split at h
  · rename_i htype
    obtain ⟨mimeType, hmime, hfile⟩ := Option.bind_eq_some_iff.mp h
    split at hfile
    · rename_i haccept
      obtain rfl := Option.some.inj hfile
      exact ⟨htype, rfl, rfl, hmime, haccept⟩
    · simp at hfile
  · simp at h

section Names

variable {path : Path} {accept : Bytes → Bool} {entries : List DirEntry}

/-- Distinct entries of a directory are filed under distinct names. -/
theorem fileNames_nodup (hnodup : (entries.map DirEntry.name).Nodup)
    (hvalid : ∀ entry ∈ entries, ValidName entry.name) :
    ((entries.filterMap (fileEntry path accept)).map Prod.fst).Nodup := by
  induction entries with
  | nil => simp
  | cons entry rest ih =>
      simp only [List.map_cons, List.nodup_cons] at hnodup
      have hrest := ih hnodup.2 fun other hother =>
        hvalid other (List.mem_cons_of_mem entry hother)
      cases hfile : fileEntry path accept entry with
      | none => simpa [hfile] using hrest
      | some file =>
          simp only [List.filterMap_cons, hfile, List.map_cons, List.nodup_cons]
          refine ⟨?_, hrest⟩
          intro hmem
          obtain ⟨other, hother, hname⟩ := List.mem_map.mp hmem
          obtain ⟨source, hsource, hsome⟩ := List.mem_filterMap.mp hother
          have hsourceName := (hvalid source (List.mem_cons_of_mem entry hsource)).2.1
          have hentryName := (hvalid entry List.mem_cons_self).2.1
          rw [(fileEntry_eq_some hsome).2.1, (fileEntry_eq_some hfile).2.1,
            Path.filename_append _ hsourceName, Path.filename_append _ hentryName] at hname
          exact hnodup.1 (hname ▸ List.mem_map_of_mem hsource)

/-- The map of the accepted files has one entry for each of them. -/
theorem lookup_fileMap_eq_some (hnodup : (entries.map DirEntry.name).Nodup)
    (hvalid : ∀ entry ∈ entries, ValidName entry.name) {name : Bytes} {info : FileInfo} :
    (fileMap path accept entries).lookup name = some info ↔
      ∃ entry ∈ entries, fileEntry path accept entry = some (name, info) := by
  have hnames : ((entries.filterMap (fileEntry path accept)).map Prod.fst).Nodup :=
    fileNames_nodup hnodup hvalid
  have hlookup := OrderedMap.lookup_foldl_emplace _ OrderedMap.empty hnames (by simp) name
  rw [fileMap, hlookup, OrderedMap.lookup_empty, Option.or_none, ← List.mem_filterMap]
  constructor
  · exact OrderedMap.mem_of_lookupEntries
  · exact OrderedMap.lookupEntries_of_mem_nodup hnames

theorem mem_fileMap_entries (hnodup : (entries.map DirEntry.name).Nodup)
    (hvalid : ∀ entry ∈ entries, ValidName entry.name) {file : Bytes × FileInfo} :
    file ∈ (fileMap path accept entries).entries ↔
      ∃ entry ∈ entries, fileEntry path accept entry = some file := by
  obtain ⟨name, info⟩ := file
  rw [OrderedMap.mem_entries_iff, lookup_fileMap_eq_some hnodup hvalid]

/-- The order of enumeration does not show in the map. -/
theorem fileMap_perm {other : List DirEntry} (hperm : entries.Perm other)
    (hnodup : (entries.map DirEntry.name).Nodup)
    (hvalid : ∀ entry ∈ entries, ValidName entry.name) :
    fileMap path accept entries = fileMap path accept other := by
  have hnodup' : (other.map DirEntry.name).Nodup :=
    (hperm.map DirEntry.name).nodup_iff.mp hnodup
  have hvalid' : ∀ entry ∈ other, ValidName entry.name :=
    fun entry hentry => hvalid entry (hperm.symm.subset hentry)
  ext name info
  rw [lookup_fileMap_eq_some hnodup hvalid,
    lookup_fileMap_eq_some hnodup' hvalid']
  simp only [hperm.mem_iff]

end Names

end Eems

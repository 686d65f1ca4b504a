/-
The texts and dates of stored objects: whatever is scanned, C string functions
read the texts whole, and a date is the first day of a year.
-/
import Eems.ReleaseDates
import Eems.ScanRuns

namespace Eems

open Hoare

/-- A text with its terminator, and no other NUL. -/
def IsText (vector : Bytes) : Prop := ∃ text, (0 : UInt8) ∉ text ∧ vector = putString text

/-- No date, or New Year's Day of a year of four digits. -/
def IsYearStart (days : Int) : Prop :=
  days = 0 ∨ ∃ year, 1000 ≤ year ∧ year ≤ 2999 ∧ days = Calendar.daysFromCivil year 1 1

/-- The fields of an object that are shown as texts. -/
structure Legible (object : MediaObject) : Prop where
  title : IsText object.dcTitle
  upnpClass : IsText object.upnpClass
  date : IsYearStart object.dcDate

theorem isText_putString {text : Bytes} (h : (0 : UInt8) ∉ text) : IsText (putString text) :=
  ⟨text, h, rfl⟩

namespace IsText

variable {vector : Bytes}

theorem asCString_eq (h : IsText vector) : asCString vector = asStringView vector := by
  obtain ⟨text, hzero, rfl⟩ := h
  rw [asCString_putString hzero, asStringView_putString]

end IsText

section Names

theorem Path.zero_notMem_stem {path : Path} (h : (0 : UInt8) ∉ path) :
    (0 : UInt8) ∉ Path.stem path := by
  intro hmem
  have hname : (0 : UInt8) ∈ Path.filename path := List.mem_of_mem_take hmem
  apply h
  rw [Path.filename, List.mem_reverse] at hname
  exact List.mem_reverse.mp ((List.takeWhile_sublist _).subset hname)

theorem zero_notMem_normalizeTitle {name : Bytes} (h : (0 : UInt8) ∉ name) :
    (0 : UInt8) ∉ (normalizeTitle name).1 := by
  intro hmem
  exact zero_notMem_replaceWordSeparators h ((normalizeTitle_isInfix h).1.subset hmem)

theorem toNat_le_of_isDigitChar {c : UInt8} (h : isDigitChar c = true) : c.toNat ≤ 57 := by
  simp only [isDigitChar, Bool.and_eq_true, decide_eq_true_eq] at h
  exact UInt8.le_iff_toNat_le.mp h.2

theorem yearDigits_le {text : Bytes} {year : Int} (h : yearDigits text = some year) :
    year ≤ 2999 := by
  unfold yearDigits at h
  split at h
  · split at h
    · rename_i a b c d rest hdigits
      obtain ⟨ha, hb, hc, hd⟩ := hdigits
      have hb := toNat_le_of_isDigitChar hb
      have hc := toNat_le_of_isDigitChar hc
      have hd := toNat_le_of_isDigitChar hd
      have hyear := Option.some.inj h
      rcases ha with rfl | rfl <;> simp at hyear <;> omega
    · simp at h
  · simp at h

theorem isYearStart_normalizeTitle (name : Bytes) :
    IsYearStart (if (normalizeTitle name).2 ≠ 0 then
      Calendar.daysFromCivil (normalizeTitle name).2 1 1 else 0) := by
  split
  · rename_i hyear
    have hlow := (normalizeTitle_year name).resolve_left hyear
    refine Or.inr ⟨(normalizeTitle name).2, hlow, ?_, rfl⟩
    unfold normalizeTitle at hyear ⊢
    dsimp only at hyear ⊢
    split
    · rename_i hsearch
      obtain ⟨head, rest, hfirst, -⟩ := searchYear_eq_some hsearch
      exact yearDigits_le hfirst.digits
    · simp
  · exact Or.inl rfl

theorem zero_notMem_mimeType {path : Path} {mimeType : Bytes}
    (h : getMimeType path = some mimeType) :
    (0 : UInt8) ∉ mimeType := by
  obtain ⟨entry, hentry, rfl⟩ := Option.map_eq_some_iff.mp h
  have hall : ∀ entry ∈ extensions, (0 : UInt8) ∉ entry.2 := by decide
  exact hall entry (List.mem_of_find?_eq_some hentry)

end Names

/-- Every stored object is legible. -/
def AllLegible (world : World) : Prop :=
  ∀ key object, objectAt world.store.db key = some object → Legible object

theorem legible_serializeContainer (contents : List LibraryKey) {containerMeta : ContainerMeta}
    (htitle : (0 : UInt8) ∉ containerMeta.dcTitle)
    (hclass : (0 : UInt8) ∉ containerMeta.upnpClass) :
    Legible (serializeContainer contents containerMeta) where
  title := isText_putString htitle
  upnpClass := isText_putString hclass
  date := Or.inl rfl

theorem IsText.zero_notMem {vector : Bytes} (h : IsText vector) :
    (0 : UInt8) ∉ asStringView vector := by
  obtain ⟨text, hzero, rfl⟩ := h
  rwa [asStringView_putString]

section Steps

/-- A call whose own items are legible keeps all of them so. -/
theorem inStore_putItems_legible {parent : ObjectKey} {items : List MediaObject}
    {resources : List (ResourceKey × Resource)} (hitems : ∀ item ∈ items, Legible item) :
    Keeps AllLegible (inStore (putItems parent items resources)) := by
  intro world h
  rcases putItems_cases parent items resources world.store with
    ⟨error, next, hput, hdb, -⟩ | ⟨next, hput, hdb, -⟩ |
      ⟨containerData, containerMeta, next, hdecode, -, hput, hdb, -⟩
  · simp only [inStore, zoom, hput, AllLegible, hdb]
    exact h
  · simp only [inStore, zoom, hput, AllLegible, hdb]
    exact h
  · simp only [inStore, zoom, hput]
    obtain ⟨old, hold, -, rfl, rfl⟩ := deserializeContainer_eq_ok_iff.mp hdecode
    have hheader := h _ old (objectAt_eq_some_iff.mpr hold)
    intro key object hobject
    rw [objectAt_eq_some_iff, hdb] at hobject
    rcases OrderedMap.mem_or_lookup_of_write _ hobject with hmem | hkept
    · simp only [putBatch, List.mem_append, List.mem_map, List.mem_singleton, Prod.mk.injEq,
        Record.mediaObject.injEq] at hmem
      rcases hmem with (⟨p, -, -, hrecord⟩ | ⟨item, hitem, -, rfl⟩) | ⟨-, rfl⟩
      · simp at hrecord
      · exact hitems item hitem
      · exact legible_serializeContainer _ hheader.title.zero_notMem hheader.upnpClass.zero_notMem
    · exact h key object (objectAt_eq_some_iff.mpr hkept)

theorem getMoviesFolderId_legible : Keeps AllLegible getMoviesFolderId := by
  refine keeps_getMoviesFolderId (fun _ _ _ h => h) (fun id => ?_) fun _ _ h => h
  apply inStore_putItems_legible
  intro item hitem
  rw [List.mem_singleton.mp hitem]
  exact ⟨isText_putString (by decide), isText_putString (by decide), Or.inl rfl⟩

theorem createContainer_legible {name : Bytes} (hname : (0 : UInt8) ∉ name)
    {artwork : Option FileInfo × ArtworkType} {parent : ObjectKey} :
    Keeps AllLegible (createContainer name artwork parent) := by
  refine keeps_createContainer (fun _ _ _ h => h) fun id start => ?_
  apply inStore_putItems_legible
  intro item hitem
  rw [List.mem_singleton.mp hitem]
  have hclass : (0 : UInt8) ∉ upnpContainerClass := by decide
  exact legible_serializeContainer _ hname hclass

variable [ArtworkSorter]

theorem storeVideos_legible {composer : ObjectComposer} {videos : List (Bytes × FileInfo)}
    (hfolder : (0 : UInt8) ∉ composer.folderName)
    (hvideos : ∀ video ∈ videos, (0 : UInt8) ∉ video.1) :
    Keeps AllLegible (storeVideos composer videos) := by
  refine keeps_storeVideos (fun _ _ _ h => h) fun id start => ?_
  apply inStore_putItems_legible
  intro item hitem
  obtain ⟨video, hvideo, id, start, rfl, -⟩ := ObjectComposer.mem_itemRecords hitem
  have hname : (0 : UInt8) ∉ composer.titleName video := by
    by_cases hempty : composer.folderName.isEmpty
    · simpa [ObjectComposer.titleName, ObjectComposer.resourcePrefix, hempty] using
        Path.zero_notMem_stem (hvideos video hvideo)
    · simpa [ObjectComposer.titleName, hempty] using hfolder
  exact ⟨isText_putString (zero_notMem_normalizeTitle hname), isText_putString (by decide),
    isYearStart_normalizeTitle _⟩

theorem scanDirectory_legible {fs : FileSystem} {path : Path} {config : MoviesLibraryConfig}
    {parent : ObjectKey} : Keeps AllLegible (scanDirectory fs path config parent) := by
  apply keeps_scanDirectory (fun _ h => h)
  · intro entries hentries _
    exact createContainer_legible (Path.zero_notMem_stem (fs.paths_valid path entries hentries))
  · intro entries composerParent hentries
    apply storeVideos_legible
    · unfold composerOf
      dsimp only
      split
      · exact Path.zero_notMem_stem (fs.paths_valid path entries hentries)
      · exact List.not_mem_nil
    · intro video hvideo
      rw [readContent_eq] at hvideo
      obtain ⟨entry, hentry, hfile⟩ := (mem_fileMap_entries (fs.names_nodup path entries hentries)
        (fs.names_valid path entries hentries)).mp hvideo
      have hvalid := fs.names_valid path entries hentries entry hentry
      rw [(fileEntry_eq_some hfile).2.1, Path.filename_append path hvalid.2.1]
      exact hvalid.2.2

theorem scanAll_legible {fs : FileSystem} {turns : Nat} {root : Path}
    {config : MoviesLibraryConfig} : Keeps AllLegible (scanAll fs turns root config) :=
  Keeps.bind (Keeps.modifyState fun _ h => h) fun _ =>
    Keeps.bind getMoviesFolderId_legible fun _ =>
      keeps_scanLoop (fun _ _ _ => scanDirectory_legible) config turns _ _

end Steps

theorem legible_newDb {key : LibraryKey} {object : MediaObject}
    (h : objectAt newDb key = some object) : Legible object := by
  obtain ⟨-, rfl⟩ := objectAt_newDb.mp h
  exact legible_serializeContainer [] List.not_mem_nil (by decide)

/-- Every object of a reachable library is legible. -/
theorem Reachable.legible [ArtworkSorter] {calls : List ScanCall} {system : System}
    (h : Reachable calls system) {key : LibraryKey} {object : MediaObject}
    (hobject : objectAt system.db key = some object) : Legible object := by
  induction h generalizing key object with
  | opened completed =>
      obtain rfl := openDb_none completed
      exact legible_newDb hobject
  | @scan calls system before call fits ih =>
      have hstart : AllLegible (system.world call) := fun key object => ih
      exact Keeps.finalState scanAll_legible hstart key object hobject

end Eems

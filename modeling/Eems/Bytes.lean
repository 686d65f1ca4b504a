/-
Byte strings, the file names and paths built from them, and the file system
that a scan reads.
-/
import Mathlib.Data.List.Lex
import Mathlib.Data.List.Sort
import Mathlib.Data.List.TakeWhile
import Mathlib.Tactic

namespace Eems

abbrev Bytes := List UInt8

/-- The unsigned order in which `std::map` keeps its `char8_t` keys. -/
instance byteOrder : LinearOrder UInt8 where
  le_refl := UInt8.le_refl
  le_trans _ _ _ := UInt8.le_trans
  le_antisymm _ _ := UInt8.le_antisymm
  le_total := UInt8.le_total
  lt_iff_le_not_ge left right := by
    rw [UInt8.lt_iff_toNat_lt, UInt8.le_iff_toNat_le, UInt8.le_iff_toNat_le]
    omega
  toDecidableLE := inferInstance

/-- The bytes of an ASCII literal. -/
def ascii (text : String) : Bytes := text.toList.map fun c => c.toNat.toUInt8

def slash : UInt8 := 47
def dot : UInt8 := 46
def underscore : UInt8 := 95
def space : UInt8 := 32

/-- What a C string function sees of a buffer: everything before the first NUL. -/
def cString (bytes : Bytes) : Bytes := bytes.takeWhile (· ≠ 0)

theorem cString_of_notMem {bytes : Bytes} (h : (0 : UInt8) ∉ bytes) :
    cString bytes = bytes := by
  have hkeep : ∀ b ∈ bytes, decide (b ≠ 0) = true := by
    intro b hb
    simpa using fun hzero : b = 0 => h (hzero ▸ hb)
  exact List.takeWhile_eq_self_iff.mpr hkeep

theorem cString_append_zero {bytes : Bytes} (h : (0 : UInt8) ∉ bytes) (rest : Bytes) :
    cString (bytes ++ 0 :: rest) = bytes := by
  unfold cString
  rw [List.takeWhile_append_of_pos]
  · simp
  · intro b hb
    simpa using fun hzero : b = 0 => h (hzero ▸ hb)

abbrev Path := Bytes

namespace Path

/-- `path / name` -/
def append (path : Path) (name : Bytes) : Path :=
  if path = [] then name
  else if path.getLast? = some slash then path ++ name
  else path ++ slash :: name

/-- `path.filename()`: what follows the last separator. -/
def filename (path : Path) : Bytes :=
  (path.reverse.takeWhile (· ≠ slash)).reverse

/-- `path.extension()`, the dot included.  A leading dot starts no extension,
and neither does a dot of the entry `..`. -/
def extension (path : Path) : Bytes :=
  let name := filename path
  let tail := (name.reverse.takeWhile (· ≠ dot)).reverse
  if name = [dot, dot] ∨ name.length ≤ tail.length + 1 then [] else dot :: tail

/-- `path.stem()`: the file name without its extension. -/
def stem (path : Path) : Bytes :=
  (filename path).take ((filename path).length - (extension path).length)

end Path

/-- A name that a directory can hold. -/
def ValidName (name : Bytes) : Prop := name ≠ [] ∧ slash ∉ name ∧ 0 ∉ name

theorem Path.filename_append (path : Path) {name : Bytes} (hname : slash ∉ name) :
    filename (append path name) = name := by
  have hkeep : ∀ b ∈ name.reverse, decide (b ≠ slash) = true := by
    intro b hb
    simpa using fun heq : b = slash => hname (heq ▸ List.mem_reverse.mp hb)
  have hafter : ∀ front : Path, filename (front ++ slash :: name) = name := by
    intro front
    have hrev : (front ++ slash :: name).reverse =
        name.reverse ++ slash :: front.reverse := by simp
    rw [filename, hrev, List.takeWhile_append_of_pos hkeep]
    simp
  unfold append
  split
  · have hall := List.takeWhile_eq_self_iff.mpr hkeep
    rw [filename, hall, List.reverse_reverse]
  · split
    · rename_i hlast
      obtain ⟨front, rfl⟩ := List.getLast?_eq_some_iff.mp hlast
      simpa using hafter front
    · exact hafter path

theorem Path.append_injective (path : Path) {left right : Bytes}
    (h : append path left = append path right) : left = right := by
  unfold append at h
  split at h
  · exact h
  · split at h
    · exact List.append_cancel_left h
    · exact (List.cons.inj (List.append_cancel_left h)).2

/-- Neither the separator nor the name brings in a NUL. -/
theorem Path.zero_notMem_append {path : Path} {name : Bytes}
    (hpath : (0 : UInt8) ∉ path) (hname : (0 : UInt8) ∉ name) :
    (0 : UInt8) ∉ append path name := by
  have hslash : (0 : UInt8) ≠ slash := by decide
  unfold append
  split
  · exact hname
  · split <;> simp [hpath, hname, hslash]

/-- `fs::file_type`, as far as the scanner tells files apart. -/
inductive FileType where
  | directory
  | regular
  | other
deriving DecidableEq, Repr

structure DirEntry where
  name : Bytes
  type : FileType
deriving DecidableEq, Repr

/-- What `fs::directory_iterator` enumerates for each path, in its order;
`none` where the directory cannot be read.  Paths that can be read are C
strings. -/
structure FileSystem where
  entries : Path → Option (List DirEntry)
  paths_valid : ∀ path list, entries path = some list → 0 ∉ path
  names_nodup : ∀ path list, entries path = some list → (list.map DirEntry.name).Nodup
  names_valid : ∀ path list, entries path = some list →
    ∀ entry ∈ list, ValidName entry.name

instance (name : Bytes) : Decidable (ValidName name) :=
  inferInstanceAs (Decidable (_ ∧ _ ∧ _))

/-- The file system with the directories of a table. -/
def FileSystem.ofTable (table : List (Path × List DirEntry))
    (hpath : ∀ row ∈ table, 0 ∉ row.1)
    (hnodup : ∀ row ∈ table, (row.2.map DirEntry.name).Nodup)
    (hvalid : ∀ row ∈ table, ∀ entry ∈ row.2, ValidName entry.name) : FileSystem where
  entries path := (table.find? fun row => row.1 = path).map Prod.snd
  paths_valid path list h := by
    obtain ⟨row, hrow, rfl⟩ := Option.map_eq_some_iff.mp h
    have hkey : row.1 = path := by simpa using List.find?_some hrow
    exact hkey ▸ hpath row (List.mem_of_find?_eq_some hrow)
  names_nodup path list h := by
    obtain ⟨row, hrow, rfl⟩ := Option.map_eq_some_iff.mp h
    exact hnodup row (List.mem_of_find?_eq_some hrow)
  names_valid path list h := by
    obtain ⟨row, hrow, rfl⟩ := Option.map_eq_some_iff.mp h
    exact hvalid row (List.mem_of_find?_eq_some hrow)

/-- A readable, finite directory tree with root `path`. -/
inductive FileSystem.FiniteTree (fs : FileSystem) : Path → Prop
  | intro {path : Path} {list : List DirEntry} (readable : fs.entries path = some list)
      (below : ∀ entry ∈ list, entry.type = .directory →
        FiniteTree fs (Path.append path entry.name)) : FiniteTree fs path

/-- The same tree, each directory enumerated in some other order. -/
def FileSystem.SameTree (left right : FileSystem) : Prop :=
  ∀ path, Option.Rel List.Perm (left.entries path) (right.entries path)

example : Path.extension (ascii "films/Alien.1979.mkv") = ascii ".mkv" := by decide

example : Path.stem (ascii "films/Dr. Strangelove (1964)") = ascii "Dr" := by decide

end Eems

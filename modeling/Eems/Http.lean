/-
HTTP messages as the services see them, the errors they throw, and the path of
a request target.
-/
import Eems.StoreService
import Eems.Basic.Numeral

namespace Eems

open Numeral

/-- `http::verb`, as far as the services tell methods apart. -/
inductive Verb where
  | get
  | head
  | post
  | msearch
  | other (name : Bytes)
deriving DecidableEq, Repr

structure HttpRequest where
  method : Verb
  target : Bytes
  version : Nat
  keepAlive : Bool
  fields : List (Bytes × Bytes)
  body : Bytes
deriving DecidableEq, Repr

def lowerByte (b : UInt8) : UInt8 := if 65 ≤ b && b ≤ 90 then b + 32 else b

/-- `req[name]`: field names do not depend on case, an absent field is empty. -/
def HttpRequest.field (request : HttpRequest) (name : String) : Bytes :=
  ((request.fields.find? fun field => field.1.map lowerByte = ascii name).map Prod.snd).getD []

/-- The header of a response.  `keep_alive` and `content_length` are kept apart
from the other fields. -/
structure ResponseHeader where
  status : Nat
  version : Nat
  keepAlive : Bool
  fields : List (Bytes × Bytes)
  contentLength : Nat
deriving DecidableEq, Repr

namespace Status

def ok : Nat := 200
def partialContent : Nat := 206
def badRequest : Nat := 400
def notFound : Nat := 404
def unsupportedMediaType : Nat := 415
def rangeNotSatisfiable : Nat := 416
def internalServerError : Nat := 500

end Status

/-- `upnp_error::code` -/
inductive UpnpCode where
  | invalidAction
  | invalidArgs
  | argumentValueInvalid
  | argumentValueOutOfRange
  | noSuchObject
deriving DecidableEq, Repr

def UpnpCode.underlying : UpnpCode → Int
  | .invalidAction => 401
  | .invalidArgs => 402
  | .argumentValueInvalid => 600
  | .argumentValueOutOfRange => 601
  | .noSuchObject => 701

/-- What handling a request may throw. -/
inductive ServerError where
  | http (status : Nat) (what : Bytes)
  | upnp (code : UpnpCode) (what : Bytes)
  | store (failure : Failure)
deriving DecidableEq, Repr

/-- The exceptions of the store pass through the services. -/
def fromStore {A : Type} : Except Failure A → Except ServerError A
  | .ok a => .ok a
  | .error failure => .error (.store failure)

/-- `parse(text, x3::int64, value)` -/
def parseInt64 (text : Bytes) : Option Int := whole (readInt (-2 ^ 63) (2 ^ 63 - 1) text)

/-- `parse(text, x3::uint32, value)` -/
def parseUint32 (text : Bytes) : Option UInt32 :=
  (whole (readNat (2 ^ 32 - 1) text)).map UInt32.ofNat

/-- The pieces between separators. -/
def Path.splitSlash : Bytes → List Bytes
  | [] => [[]]
  | b :: rest =>
      if b = slash then [] :: splitSlash rest
      else match splitSlash rest with
        | [] => [[b]]
        | piece :: pieces => (b :: piece) :: pieces

/-- What iterating over an `fs::path` yields: the root directory, the names,
and an empty element after a trailing separator. -/
def Path.elements (path : Path) : List Path :=
  let root : List Path := if path.head? = some slash then [[slash]] else []
  let names := (splitSlash path).filter (· ≠ [])
  let trailing : List Path :=
    if names ≠ [] ∧ path.getLast? = some slash then [[]] else []
  root ++ names ++ trailing

def Path.hasRootDirectory (path : Path) : Bool := path.head? = some slash

/-- `parse_target`: the path of a target and its query. -/
def parseTarget (target : Bytes) : Path × Bytes :=
  (target.takeWhile (· ≠ 63), target.dropWhile (· ≠ 63))

/-- The first element of the target's path and the path below it. -/
def splitTarget (target : Bytes) : Option (Path × Path) :=
  match (Path.elements (parseTarget target).1).dropWhile Path.hasRootDirectory with
  | [] => none
  | first :: rest => some (first, rest.foldl Path.append [])

theorem Path.splitSlash_of_notMem {name : Bytes} (h : slash ∉ name) :
    splitSlash name = [name] := by
  induction name with
  | nil => rfl
  | cons b rest ih =>
      have hne : b ≠ slash := fun heq => h (heq ▸ List.mem_cons_self)
      simp [splitSlash, hne, ih fun hmem => h (List.mem_cons_of_mem b hmem)]

theorem Path.splitSlash_append {name : Bytes} (h : slash ∉ name) (rest : Bytes) :
    splitSlash (name ++ slash :: rest) = name :: splitSlash rest := by
  induction name with
  | nil => simp [splitSlash]
  | cons b name ih =>
      have hne : b ≠ slash := fun heq => h (heq ▸ List.mem_cons_self)
      simp [splitSlash, hne, ih fun hmem => h (List.mem_cons_of_mem b hmem)]

/-- A target of two names is split into the two. -/
theorem splitTarget_two {first second : Bytes} (hfirst : ValidName first)
    (hsecond : ValidName second) (hquery : 63 ∉ first ∧ 63 ∉ second) :
    splitTarget (slash :: (first ++ slash :: second)) = some (first, second) := by
  obtain ⟨hfirstNil, hfirstSlash, -⟩ := hfirst
  obtain ⟨hsecondNil, hsecondSlash, -⟩ := hsecond
  have hpath : (parseTarget (slash :: (first ++ slash :: second))).1 =
      slash :: (first ++ slash :: second) := by
    have hkeep : ∀ b ∈ slash :: (first ++ slash :: second), decide (b ≠ 63) = true := by
      intro b hb
      have hslash : slash ≠ 63 := by decide
      simp only [List.mem_cons, List.mem_append] at hb
      rw [decide_eq_true_eq]
      rcases hb with rfl | hb | rfl | hb
      · exact hslash
      · exact fun heq => hquery.1 (heq ▸ hb)
      · exact hslash
      · exact fun heq => hquery.2 (heq ▸ hb)
    exact List.takeWhile_eq_self_iff.mpr hkeep
  have hsplit : Path.splitSlash (slash :: (first ++ slash :: second)) = [[], first, second] := by
    have hempty := @Path.splitSlash_append [] (by simp) (first ++ slash :: second)
    rw [List.nil_append] at hempty
    rw [hempty, Path.splitSlash_append hfirstSlash, Path.splitSlash_of_notMem hsecondSlash]
  have hlast : (slash :: (first ++ slash :: second)).getLast? ≠ some slash := by
    intro hslash
    have hmem : (slash :: (first ++ slash :: second)).getLast? = second.getLast? := by
      rw [← List.cons_append, List.getLast?_append, List.getLast?_cons]
      cases hlast : second.getLast? with
      | none => exact absurd (List.getLast?_eq_none_iff.mp hlast) hsecondNil
      | some b => simp
    exact hsecondSlash (List.mem_of_getLast? (hmem ▸ hslash))
  have hroot : Path.hasRootDirectory first = false := by
    cases first with
    | nil => rfl
    | cons b rest =>
        have hne : b ≠ slash := fun heq => hfirstSlash (heq ▸ List.mem_cons_self)
        simp [Path.hasRootDirectory, hne]
  have helements : Path.elements (slash :: (first ++ slash :: second)) =
      [[slash], first, second] := by
    simp [Path.elements, hsplit, hfirstNil, hsecondNil, hlast]
  have hslash : Path.hasRootDirectory [slash] = true := rfl
  rw [splitTarget, hpath, helements]
  simp [hslash, hroot, Path.append]

example : splitTarget (ascii "/content/12?x=1") = some (ascii "content", ascii "12") := by decide

example : splitTarget (ascii "//") = none := by decide

end Eems

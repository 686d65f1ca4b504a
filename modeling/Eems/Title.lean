/-
Titles and release years read from file and folder names.
-/
import Eems.Bytes

namespace Eems

def isDigitChar (c : UInt8) : Bool := 48 ≤ c && c ≤ 57

/-- `\w` in the C locale. -/
def isWordChar (c : UInt8) : Bool :=
  isDigitChar c || (65 ≤ c && c ≤ 90) || (97 ≤ c && c ≤ 122) || c == underscore

/-- `std::isspace` in the C locale. -/
def isSpaceChar (c : UInt8) : Bool := c == space || (9 ≤ c && c ≤ 13)

/-- `regex_replace` of `[\._](?=\w)` by a space; the lookahead reads the
original text. -/
def replaceWordSeparators : Bytes → Bytes
  | [] => []
  | c :: rest =>
      (if (c = dot ∨ c = underscore) ∧ rest.head?.any isWordChar then space else c) ::
        replaceWordSeparators rest

/-- The group `([12]\d{3})` at the head of a text, as a number. -/
def yearDigits : Bytes → Option Int
  | a :: b :: c :: d :: _ =>
      if (a = 49 ∨ a = 50) ∧ isDigitChar b ∧ isDigitChar c ∧ isDigitChar d then
        some ((a.toNat - 48) * 1000 + (b.toNat - 48) * 100 + (c.toNat - 48) * 10 +
          (d.toNat - 48) : Nat)
      else none
  | _ => none

/-- `\(?([12]\d{3})\)?` at the head of a text: the opening parenthesis is taken
if that leads to a match. -/
def matchYear : Bytes → Option Int
  | [] => none
  | c :: rest => if c = 40 then yearDigits rest else yearDigits (c :: rest)

/-- The leftmost match: the text before it and the year. -/
def searchYear : Bytes → Option (Bytes × Int)
  | [] => none
  | c :: rest =>
      match matchYear (c :: rest) with
      | some year => some ([], year)
      | none => (searchYear rest).map fun found => (c :: found.1, found.2)

def trim (text : Bytes) : Bytes :=
  ((text.dropWhile isSpaceChar).reverse.dropWhile isSpaceChar).reverse

/-- The title and the year, 0 when there is none. -/
def normalizeTitle (title : Bytes) : Bytes × Int :=
  let ntitle := replaceWordSeparators (cString title)
  match searchYear ntitle with
  | some (before, year) => (trim before, year)
  | none => (trim ntitle, 0)

example : normalizeTitle (ascii "The.Matrix (1999).1080p") = (ascii "The Matrix", 1999) := by
  decide

/-- A year is read from four digits, the first of them 1 or 2. -/
theorem le_yearDigits {text : Bytes} {year : Int} (h : yearDigits text = some year) :
    1000 ≤ year := by
  unfold yearDigits at h
  split at h
  · split at h
    · rename_i a b c d rest hdigits
      obtain ⟨ha, -⟩ := hdigits
      have hyear := Option.some.inj h
      rcases ha with rfl | rfl <;> simp at hyear <;> omega
    · simp at h
  · simp at h

end Eems

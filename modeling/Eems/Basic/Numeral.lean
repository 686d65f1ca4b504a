/-
Numerals as bytes: decimal formatting, the numeric parsers that read the longest
run of digits and fail when its value leaves the range, and binary scalars.
-/
import Mathlib.Tactic

namespace Numeral

def isDigit (b : UInt8) : Bool := 48 ≤ b && b ≤ 57

def value (digits : List UInt8) : Nat :=
  digits.foldl (fun sofar b => 10 * sofar + (b.toNat - 48)) 0

def formatNat (n : Nat) : List UInt8 := (Nat.toDigits 10 n).map fun c => c.toNat.toUInt8

def minus : UInt8 := 45
def plus : UInt8 := 43

def formatInt (n : Int) : List UInt8 :=
  if n < 0 then minus :: formatNat n.natAbs else formatNat n.natAbs

/-- Zeros between the sign and the digits, up to a width. -/
def formatPadded (width : Nat) (n : Int) : List UInt8 :=
  let sign := if n < 0 then [minus] else []
  let digits := formatNat n.natAbs
  sign ++ List.replicate (width - sign.length - digits.length) 48 ++ digits

/-- The value of the digits a text starts with, and what follows them. -/
def readNat (max : Nat) (text : List UInt8) : Option (Nat × List UInt8) :=
  let digits := text.takeWhile isDigit
  if digits.isEmpty || value digits > max then none
  else some (value digits, text.dropWhile isDigit)

/-- The same after an optional sign. -/
def readInt (min max : Int) (text : List UInt8) : Option (Int × List UInt8) :=
  match text with
  | [] => none
  | b :: rest =>
      if b = minus then (readNat min.natAbs rest).map fun p => (-(p.1 : Int), p.2)
      else if b = plus then (readNat max.natAbs rest).map fun p => ((p.1 : Int), p.2)
      else (readNat max.natAbs text).map fun p => ((p.1 : Int), p.2)

/-- A parse that must use up the whole text. -/
def whole {A : Type} (parsed : Option (A × List UInt8)) : Option A :=
  match parsed with
  | some (a, []) => some a
  | _ => none

theorem toNat_of_mem_toDigits {n : Nat} {c : Char} (hc : c ∈ Nat.toDigits 10 n) :
    48 ≤ c.toNat ∧ c.toNat ≤ 57 := by
  have hdigit := Nat.isDigit_of_mem_toDigits (by decide) (by decide) hc
  simp only [Char.isDigit, Bool.and_eq_true, decide_eq_true_eq] at hdigit
  exact ⟨hdigit.1, hdigit.2⟩

theorem toNat_toUInt8_of_mem_toDigits {n : Nat} {c : Char} (hc : c ∈ Nat.toDigits 10 n) :
    c.toNat.toUInt8.toNat = c.toNat := by
  have := (toNat_of_mem_toDigits hc).2
  simp only [Nat.toUInt8, UInt8.toNat_ofNat']
  omega

theorem isDigit_of_mem_formatNat {n : Nat} {b : UInt8} (hb : b ∈ formatNat n) :
    isDigit b = true := by
  obtain ⟨c, hc, rfl⟩ := List.mem_map.mp hb
  have hrange := toNat_of_mem_toDigits hc
  have hnat := toNat_toUInt8_of_mem_toDigits hc
  simp only [isDigit, Bool.and_eq_true, decide_eq_true_eq, UInt8.le_iff_toNat_le, hnat]
  exact hrange

theorem formatNat_ne_nil (n : Nat) : formatNat n ≠ [] := by
  simp [formatNat, Nat.toDigits_ne_nil]

theorem foldl_map_toUInt8 (digits : List Char)
    (h : ∀ c ∈ digits, c.toNat.toUInt8.toNat = c.toNat) (start : Nat) :
    (digits.map fun c => c.toNat.toUInt8).foldl
        (fun sofar b => 10 * sofar + (b.toNat - 48)) start =
      Nat.ofDigitChars 10 digits start := by
  induction digits generalizing start with
  | nil => simp
  | cons c rest ih =>
      rw [List.map_cons, List.foldl_cons, Nat.ofDigitChars_cons, h c List.mem_cons_self,
        ih fun c hc => h c (List.mem_cons_of_mem _ hc)]
      rfl

@[simp] theorem value_formatNat (n : Nat) : value (formatNat n) = n := by
  rw [value, formatNat, foldl_map_toUInt8 _ (fun c hc => toNat_toUInt8_of_mem_toDigits hc)]
  exact Nat.ofDigitChars_ten_toDigits

/-- Reading back a formatted number, up to the first byte that is no digit. -/
theorem readNat_formatNat {max n : Nat} (hn : n ≤ max) {rest : List UInt8}
    (hrest : ∀ b ∈ rest.head?, isDigit b = false) :
    readNat max (formatNat n ++ rest) = some (n, rest) := by
  have hdigits : ∀ b ∈ formatNat n, isDigit b = true := fun b => isDigit_of_mem_formatNat
  have htake : rest.takeWhile isDigit = [] := by
    cases rest with
    | nil => rfl
    | cons b rest => simp [hrest b (by simp)]
  have hdrop : rest.dropWhile isDigit = rest := by
    cases rest with
    | nil => rfl
    | cons b rest => simp [hrest b (by simp)]
  simp only [readNat, List.takeWhile_append_of_pos hdigits, List.dropWhile_append_of_pos hdigits,
    htake, hdrop, List.append_nil, value_formatNat]
  rw [if_neg]
  simp [formatNat_ne_nil, hn]

theorem readInt_formatInt {min max n : Int} (hmin : min ≤ n) (hmax : n ≤ max)
    (hneg : min < 0) (hpos : 0 ≤ max) {rest : List UInt8}
    (hrest : ∀ b ∈ rest.head?, isDigit b = false) :
    readInt min max (formatInt n ++ rest) = some (n, rest) := by
  by_cases hsign : n < 0
  · have hread : readNat min.natAbs (formatNat n.natAbs ++ rest) = some (n.natAbs, rest) :=
      readNat_formatNat (by omega) hrest
    simp only [formatInt, if_pos hsign, List.cons_append, readInt, ↓reduceIte, hread,
      Option.map_some, Option.some.injEq, Prod.mk.injEq, and_true]
    omega
  · have hread : readNat max.natAbs (formatNat n.natAbs ++ rest) = some (n.natAbs, rest) :=
      readNat_formatNat (by omega) hrest
    obtain ⟨b, digits, hformat⟩ := List.exists_cons_of_ne_nil (formatNat_ne_nil n.natAbs)
    have hdigit : isDigit b = true := isDigit_of_mem_formatNat (hformat ▸ List.mem_cons_self)
    have hminus : b ≠ minus := by
      rintro rfl
      simp [isDigit, minus] at hdigit
    have hplus : b ≠ plus := by
      rintro rfl
      simp [isDigit, plus] at hdigit
    rw [formatInt, if_neg hsign]
    rw [hformat, List.cons_append] at hread ⊢
    simp only [readInt, if_neg hminus, if_neg hplus, hread, Option.map_some, Option.some.injEq,
      Prod.mk.injEq, and_true]
    omega

/-- Reading back a formatted number as a whole text. -/
theorem whole_readNat_formatNat {max n : Nat} (hn : n ≤ max) :
    whole (readNat max (formatNat n)) = some n := by
  have hread := readNat_formatNat hn (show ∀ b ∈ ([] : List UInt8).head?, isDigit b = false by simp)
  rw [List.append_nil] at hread
  rw [hread]
  rfl

theorem whole_readInt_formatInt {min max n : Int} (hmin : min ≤ n) (hmax : n ≤ max)
    (hneg : min < 0) (hpos : 0 ≤ max) : whole (readInt min max (formatInt n)) = some n := by
  have hread := readInt_formatInt hmin hmax hneg hpos
    (show ∀ b ∈ ([] : List UInt8).head?, isDigit b = false by simp)
  rw [List.append_nil] at hread
  rw [hread]
  rfl

/-- A number that is wide enough is not padded. -/
theorem formatPadded_eq_formatInt {width : Nat} {n : Int} (hwidth : 0 < width)
    (hn : 10 ^ (width - 1) ≤ n) : formatPadded width n = formatInt n := by
  have hpos : 0 < n := lt_of_lt_of_le (by positivity) hn
  have hlength : width ≤ (formatNat n.natAbs).length := by
    rw [formatNat, List.length_map]
    by_contra hshort
    rcases Nat.eq_or_lt_of_le hwidth with hone | hmore
    · have : 0 < (Nat.toDigits 10 n.natAbs).length := Nat.length_toDigits_pos
      omega
    · have := (@Nat.length_toDigits_le_iff 10 n.natAbs (width - 1) (by decide) (by omega)).mp
        (by omega)
      have : (n.natAbs : Int) < 10 ^ (width - 1) := by exact_mod_cast this
      omega
  have hsign : ¬ n < 0 := by omega
  simp [formatPadded, formatInt, hsign, Nat.sub_eq_zero_of_le hlength]

example : readInt (-128) 127 (formatInt (-42) ++ [47]) = some (-42, [47]) := by decide

/-- The bytes of a scalar, least significant first. -/
def littleEndian : Nat → Nat → List UInt8
  | 0, _ => []
  | width + 1, n => n.toUInt8 :: littleEndian width (n / 256)

def readLittleEndian : List UInt8 → Nat
  | [] => 0
  | b :: rest => b.toNat + 256 * readLittleEndian rest

/-- Reading back what was written, as far as the width goes. -/
theorem readLittleEndian_littleEndian (width n : Nat) :
    readLittleEndian (littleEndian width n) = n % 256 ^ width := by
  induction width generalizing n with
  | zero => simp [littleEndian, readLittleEndian, Nat.mod_one]
  | succ width ih =>
      rw [littleEndian, readLittleEndian, ih, pow_succ', Nat.mod_mul]
      simp

end Numeral

/-
When the year found in a name leaves its title intact.
-/
import Eems.TitleForm

namespace Eems

/-- The bytes that count as letters and digits; all of them show in a title. -/
structure LetterBytes where
  mem : UInt8 → Bool
  visible : ∀ c, mem c = true → isSpaceChar c = false ∧ c ≠ dot ∧ c ≠ underscore

def asciiLetters : LetterBytes where
  mem c := isWordChar c && c != underscore
  visible c hc := by
    simp only [isWordChar, isDigitChar, isSpaceChar, dot, underscore, space, Bool.and_eq_true,
      Bool.or_eq_true, Bool.or_eq_false_iff, Bool.and_eq_false_iff, decide_eq_true_eq,
      decide_eq_false_iff_not, bne_iff_ne, beq_iff_eq, beq_eq_false_iff_ne, ne_eq,
      UInt8.le_iff_toNat_le, ← UInt8.toNat_inj, UInt8.reduceToNat] at hc ⊢
    omega

/-- Neither a letter nor a digit stands next to the four digits at the head of
`rest`. -/
def StandsAlone (letters : LetterBytes) (head rest : Bytes) : Prop :=
  head.getLast?.any letters.mem = false ∧ rest[4]?.any letters.mem = false

/-- A name with a letter or a digit keeps a title, and a year stands alone
behind one. -/
def KeepsTitle (letters : LetterBytes) (name : Bytes) : Prop :=
  ((∃ c ∈ name, letters.mem c = true) → (normalizeTitle name).1 ≠ []) ∧
    ((normalizeTitle name).2 ≠ 0 → (normalizeTitle name).1 ≠ [] ∧
      ∃ head rest, FirstYear (replaceWordSeparators name) head rest (normalizeTitle name).2 ∧
        StandsAlone letters head rest)

/-- The byte at `i` is neither blank nor a separator in front of a word
character. -/
def ShowsAt (name : Bytes) (i : Nat) : Prop :=
  ∃ c, name[i]? = some c ∧ isSpaceChar c = false ∧
    ¬ ((c = dot ∨ c = underscore) ∧ name[i + 1]?.any isWordChar = true)

/-- The first group of the name, if any, stands alone, and something shows
before it and an opening parenthesis in front of it. -/
def YearInPlace (letters : LetterBytes) (name : Bytes) : Prop :=
  ∀ head rest year, FirstYear name head rest year →
    StandsAlone letters head rest ∧ ∃ i < (beforeParenthesis head).length, ShowsAt name i

theorem getElem?_replaceWordSeparators (text : Bytes) (i : Nat) :
    (replaceWordSeparators text)[i]? = text[i]?.map fun c =>
      if (c = dot ∨ c = underscore) ∧ text[i + 1]?.any isWordChar = true then space else c := by
  induction text generalizing i with
  | nil => simp [replaceWordSeparators]
  | cons c rest ih =>
      cases i with
      | zero => simp [replaceWordSeparators, List.head?_eq_getElem?]
      | succ i => simp [replaceWordSeparators, ih]

@[simp] theorem length_replaceWordSeparators (text : Bytes) :
    (replaceWordSeparators text).length = text.length := by
  induction text with
  | nil => rfl
  | cons c rest ih => simp [replaceWordSeparators, ih]

theorem drop_replaceWordSeparators (text : Bytes) (i : Nat) :
    (replaceWordSeparators text).drop i = replaceWordSeparators (text.drop i) := by
  induction text generalizing i with
  | nil => simp [replaceWordSeparators]
  | cons c rest ih =>
      cases i with
      | zero => rfl
      | succ i => simp [replaceWordSeparators, ih]

section Blind

variable {p : UInt8 → Bool} (hspace : p space = false) (hdot : p dot = false)
  (hunderscore : p underscore = false)

include hspace hdot hunderscore

/-- A test that separators and blanks fail has the same result everywhere. -/
theorem any_getElem?_replaceWordSeparators (text : Bytes) (i : Nat) :
    (replaceWordSeparators text)[i]?.any p = text[i]?.any p := by
  rw [getElem?_replaceWordSeparators]
  cases text[i]? with
  | none => rfl
  | some c =>
      simp only [Option.map_some, Option.any_some]
      split
      · rename_i hreplaced
        rcases hreplaced.1 with rfl | rfl
        · rw [hspace, hdot]
        · rw [hspace, hunderscore]
      · rfl

theorem any_getLast?_take_replaceWordSeparators (text : Bytes) (i : Nat) :
    ((replaceWordSeparators text).take i).getLast?.any p = (text.take i).getLast?.any p := by
  simp only [List.getLast?_eq_getElem?, List.getElem?_take, List.length_take,
    length_replaceWordSeparators]
  split
  · exact any_getElem?_replaceWordSeparators hspace hdot hunderscore text _
  · rfl

end Blind

theorem LetterBytes.blind (letters : LetterBytes) :
    letters.mem space = false ∧ letters.mem dot = false ∧ letters.mem underscore = false := by
  refine ⟨?_, ?_, ?_⟩ <;> by_contra hmem <;>
    have hvisible := letters.visible _ (Bool.eq_true_of_not_eq_false hmem)
  · exact absurd hvisible.1 (by decide)
  · exact hvisible.2.1 rfl
  · exact hvisible.2.2 rfl

/-- The same byte, unless neither is a digit. -/
def SameDigit (old new : UInt8) : Prop :=
  isDigitChar new = isDigitChar old ∧ (isDigitChar old = true → new = old)

theorem sameDigit_replaced (c : UInt8) (p : Prop) [Decidable p] :
    SameDigit c (if (c = dot ∨ c = underscore) ∧ p then space else c) := by
  split
  · rename_i hreplaced
    rcases hreplaced.1 with rfl | rfl <;> exact ⟨by decide, by decide⟩
  · exact ⟨rfl, fun _ => rfl⟩

theorem yearDigits_congr {a b c d a' b' c' d' : UInt8} (ha : SameDigit a a')
    (hb : SameDigit b b') (hc : SameDigit c c') (hd : SameDigit d d') (rest rest' : Bytes) :
    yearDigits (a' :: b' :: c' :: d' :: rest') = yearDigits (a :: b :: c :: d :: rest) := by
  have hdigit : ∀ x : UInt8, x = 49 ∨ x = 50 → isDigitChar x = true := by
    rintro x (rfl | rfl) <;> decide
  have hfirst : (a' = 49 ∨ a' = 50) ↔ (a = 49 ∨ a = 50) := by
    constructor <;> intro h
    · rwa [← ha.2 (ha.1 ▸ hdigit a' h)]
    · rwa [ha.2 (hdigit a h)]
  simp only [yearDigits]
  by_cases hdigits : (a = 49 ∨ a = 50) ∧ isDigitChar b ∧ isDigitChar c ∧ isDigitChar d
  · rw [ha.2 (hdigit a hdigits.1), hb.2 hdigits.2.1, hc.2 hdigits.2.2.1, hd.2 hdigits.2.2.2]
  · rw [if_neg hdigits, if_neg (by rwa [hfirst, hb.1, hc.1, hd.1])]

/-- Separators are no digits. -/
theorem yearDigits_replaceWordSeparators (text : Bytes) :
    yearDigits (replaceWordSeparators text) = yearDigits text := by
  match text with
  | [] | [_] | [_, _] | [_, _, _] => simp [replaceWordSeparators, yearDigits]
  | a :: b :: c :: d :: rest =>
      exact yearDigits_congr (sameDigit_replaced a _) (sameDigit_replaced b _)
        (sameDigit_replaced c _) (sameDigit_replaced d _) rest _

theorem FirstYear.replaceWordSeparators {name head rest : Bytes} {year : Int}
    (h : FirstYear name head rest year) :
    FirstYear (replaceWordSeparators name) ((replaceWordSeparators name).take head.length)
      (replaceWordSeparators rest) year := by
  have hdrop : (Eems.replaceWordSeparators name).drop head.length =
      Eems.replaceWordSeparators rest := by
    rw [drop_replaceWordSeparators, h.split, List.drop_left]
  refine ⟨?_, ?_, ?_⟩
  · rw [← hdrop, List.take_append_drop]
  · rw [yearDigits_replaceWordSeparators, h.digits]
  · intro tail hsuffix hlonger
    rw [List.suffix_iff_eq_drop.mp hsuffix, drop_replaceWordSeparators,
      yearDigits_replaceWordSeparators]
    apply h.first _ (List.drop_suffix _ _)
    have := hsuffix.length_le
    simp only [List.length_drop, length_replaceWordSeparators] at this hlonger ⊢
    omega

theorem YearFree.replaceWordSeparators {name : Bytes} (h : YearFree name) :
    YearFree (replaceWordSeparators name) := by
  intro tail hsuffix
  rw [List.suffix_iff_eq_drop.mp hsuffix, drop_replaceWordSeparators,
    yearDigits_replaceWordSeparators]
  exact h _ (List.drop_suffix _ _)

/-- What shows in a name is not blank once its separators are replaced. -/
theorem showsAt_iff {name : Bytes} {i : Nat} :
    ShowsAt name i ↔ ∃ c, (replaceWordSeparators name)[i]? = some c ∧ isSpaceChar c = false := by
  rw [getElem?_replaceWordSeparators]
  constructor
  · rintro ⟨c, hc, hvisible, hkept⟩
    exact ⟨c, by rw [hc, Option.map_some, if_neg hkept], hvisible⟩
  · rintro ⟨c, hc, hvisible⟩
    obtain ⟨old, hold, rfl⟩ := Option.map_eq_some_iff.mp hc
    split at hvisible
    · exact absurd hvisible (by decide)
    · rename_i hkept
      exact ⟨old, hold, hvisible, hkept⟩

theorem trim_take_ne_nil_iff {name : Bytes} {k : Nat} :
    trim ((replaceWordSeparators name).take k) ≠ [] ↔ ∃ i < k, ShowsAt name i := by
  rw [ne_eq, trim_eq_nil_iff]
  push Not
  constructor
  · rintro ⟨c, hmem, hvisible⟩
    obtain ⟨i, hi⟩ := List.mem_iff_getElem?.mp hmem
    rw [List.getElem?_take] at hi
    split at hi
    · exact ⟨i, ‹_›, showsAt_iff.mpr ⟨c, hi, by simpa using hvisible⟩⟩
    · simp at hi
  · rintro ⟨i, hi, hshows⟩
    obtain ⟨c, hc, hvisible⟩ := showsAt_iff.mp hshows
    refine ⟨c, List.mem_iff_getElem?.mpr ⟨i, ?_⟩, by simp [hvisible]⟩
    rw [List.getElem?_take, if_pos hi, hc]

section Years

variable {name head rest : Bytes} {year : Int}

/-- A parenthesis stays where it is. -/
theorem beforeParenthesis_take_replaceWordSeparators (h : name = head ++ rest) :
    beforeParenthesis ((replaceWordSeparators name).take head.length) =
      (replaceWordSeparators name).take (beforeParenthesis head).length := by
  have hany : ∀ text : Bytes, text.getLast? = some 40 ↔ text.getLast?.any (· == 40) = true := by
    intro text
    cases text.getLast? <;> simp
  have htake : name.take head.length = head := by rw [h, List.take_left]
  have hlast : ((replaceWordSeparators name).take head.length).getLast? = some 40 ↔
      head.getLast? = some 40 := by
    rw [hany, hany, any_getLast?_take_replaceWordSeparators (by decide) (by decide) (by decide),
      htake]
  have hlength : head.length ≤ (replaceWordSeparators name).length := by
    rw [length_replaceWordSeparators, h, List.length_append]
    omega
  unfold beforeParenthesis
  by_cases hparen : head.getLast? = some 40
  · rw [if_pos hparen, if_pos (hlast.mpr hparen), List.dropLast_eq_take, List.length_take,
      min_eq_left hlength, List.take_take, List.length_dropLast]
    congr 1
    omega
  · rw [if_neg hparen, if_neg (hlast.not.mpr hparen)]

/-- Neighbours that are letters or digits are no separators. -/
theorem standsAlone_replaceWordSeparators (letters : LetterBytes) (h : name = head ++ rest) :
    StandsAlone letters ((replaceWordSeparators name).take head.length)
      (replaceWordSeparators rest) ↔ StandsAlone letters head rest := by
  obtain ⟨hspace, hdot, hunderscore⟩ := letters.blind
  have htake : name.take head.length = head := by rw [h, List.take_left]
  rw [StandsAlone, StandsAlone,
    any_getLast?_take_replaceWordSeparators hspace hdot hunderscore, htake,
    any_getElem?_replaceWordSeparators hspace hdot hunderscore]

/-- Without a year every letter and digit shows in the title. -/
theorem keepsTitle_of_yearFree (letters : LetterBytes) (hzero : (0 : UInt8) ∉ name)
    (h : YearFree name) : KeepsTitle letters name := by
  rw [KeepsTitle, normalizeTitle_of_yearFree hzero h.replaceWordSeparators]
  refine ⟨?_, fun hyear => absurd rfl hyear⟩
  rintro ⟨c, hc, hmem⟩
  obtain ⟨hvisible, hdot, hunderscore⟩ := letters.visible c hmem
  obtain ⟨i, hi⟩ := List.mem_iff_getElem?.mp hc
  have htrim := @trim_take_ne_nil_iff name name.length
  rw [← length_replaceWordSeparators, List.take_length, length_replaceWordSeparators] at htrim
  refine htrim.mpr ⟨i, ?_, c, hi, hvisible, ?_⟩
  · exact (List.getElem?_eq_some_iff.mp hi).1
  · simp [hdot, hunderscore]

theorem keepsTitle_iff_of_firstYear (letters : LetterBytes) (hzero : (0 : UInt8) ∉ name)
    (h : FirstYear name head rest year) :
    KeepsTitle letters name ↔ StandsAlone letters head rest ∧
      ∃ i < (beforeParenthesis head).length, ShowsAt name i := by
  have hfirst := h.replaceWordSeparators
  have hyear : year ≠ 0 := by
    have := le_yearDigits h.digits
    omega
  rw [KeepsTitle, normalizeTitle_of_firstYear hzero hfirst,
    beforeParenthesis_take_replaceWordSeparators h.split, trim_take_ne_nil_iff,
    ← standsAlone_replaceWordSeparators letters h.split]
  constructor
  · rintro ⟨-, hkeeps⟩
    obtain ⟨hshows, head', rest', hfirst', halone⟩ := hkeeps hyear
    obtain ⟨rfl, rfl, -⟩ := hfirst.unique hfirst'
    exact ⟨halone, hshows⟩
  · rintro ⟨halone, hshows⟩
    exact ⟨fun _ => hshows, fun _ => ⟨hshows, _, _, hfirst, halone⟩⟩

end Years

/-- A name keeps its title exactly if its first group of four digits stands
alone behind something that shows. -/
theorem keepsTitle_iff (letters : LetterBytes) (name : Bytes) (hzero : (0 : UInt8) ∉ name) :
    KeepsTitle letters name ↔ YearInPlace letters name := by
  rcases yearFree_or_firstYear name with hfree | ⟨head, rest, year, hfirst⟩
  · apply iff_of_true (keepsTitle_of_yearFree letters hzero hfree)
    intro head rest year hfirst
    exact absurd hfree hfirst.not_yearFree
  · rw [keepsTitle_iff_of_firstYear letters hzero hfirst]
    constructor
    · intro h head' rest' year' hfirst'
      obtain ⟨rfl, rfl, rfl⟩ := hfirst.unique hfirst'
      exact h
    · intro h
      exact h head rest year hfirst

theorem keepsTitle_iff_matrix :
    KeepsTitle asciiLetters (ascii "The.Matrix (1999).1080p") := by
  apply (keepsTitle_iff asciiLetters _ (by decide)).mpr
  have hyear : FirstYear (ascii "The.Matrix (1999).1080p") (ascii "The.Matrix (")
      (ascii "1999).1080p") 1999 := by
    have hfirst : ∀ tail ∈ (ascii "The.Matrix (1999).1080p").tails,
        (ascii "1999).1080p").length < tail.length → yearDigits tail = none := by
      decide
    exact ⟨by decide, by decide, fun tail htail => hfirst tail ((List.mem_tails _ _).mpr htail)⟩
  intro head rest year hfirst
  obtain ⟨rfl, rfl, rfl⟩ := hyear.unique hfirst
  exact ⟨⟨by decide, by decide⟩, 0, by decide, 84, by decide, by decide, by decide⟩

/-- A film named after a year is left without a title. -/
theorem not_keepsTitle_2012 : ¬ KeepsTitle asciiLetters (ascii "2012") := by
  have hname : normalizeTitle (ascii "2012") = ([], 2012) := by decide
  rintro ⟨hletters, -⟩
  rw [hname] at hletters
  exact hletters ⟨50, by decide, by decide⟩ rfl

end Eems

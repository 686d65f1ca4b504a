/-
The normal form that titles are brought to: trimmed, without separators in
front of a word character and without a year.
-/
import Eems.Title
import Mathlib.Data.List.DropRight

namespace Eems

def Trimmed (text : Bytes) : Prop :=
  (∀ c ∈ text.head?, isSpaceChar c = false) ∧ ∀ c ∈ text.getLast?, isSpaceChar c = false

/-- No `.` or `_` stands directly before a word character. -/
def SeparatorFree (text : Bytes) : Prop :=
  ∀ a b tail, a :: b :: tail <:+ text → a = dot ∨ a = underscore → isWordChar b = false

/-- No position starts a group `[12]\d{3}`. -/
def YearFree (text : Bytes) : Prop := ∀ tail, tail <:+ text → yearDigits tail = none

/-- `rest` starts with the first group of `text`, which reads as `year`. -/
structure FirstYear (text head rest : Bytes) (year : Int) : Prop where
  split : text = head ++ rest
  digits : yearDigits rest = some year
  first : ∀ tail, tail <:+ text → rest.length < tail.length → yearDigits tail = none

/-- What is left of the text before a year: an opening parenthesis right before
it goes with it. -/
def beforeParenthesis (text : Bytes) : Bytes :=
  if text.getLast? = some 40 then text.dropLast else text

section Trimming

theorem trim_eq (text : Bytes) :
    trim text = (text.dropWhile isSpaceChar).rdropWhile isSpaceChar := rfl

theorem trim_isInfix (text : Bytes) : trim text <:+: text :=
  (List.rdropWhile_prefix _ _).isInfix.trans (List.dropWhile_suffix _).isInfix

theorem trimmed_trim (text : Bytes) : Trimmed (trim text) := by
  constructor
  · intro c hc
    obtain ⟨rest, hrest⟩ : trim text <+: text.dropWhile isSpaceChar := List.rdropWhile_prefix _ _
    have hfirst : (text.dropWhile isSpaceChar).head? = some c := by
      rw [← hrest, List.head?_append_of_ne_nil _ (List.ne_nil_of_mem (List.mem_of_mem_head? hc))]
      exact hc
    have hnot := List.head?_dropWhile_not isSpaceChar text
    rw [hfirst] at hnot
    exact hnot
  · intro c hc
    have hne : trim text ≠ [] := List.ne_nil_of_mem (List.mem_of_mem_getLast? hc)
    rw [List.getLast?_eq_getLast_of_ne_nil hne, Option.mem_some_iff] at hc
    rw [← hc]
    exact Bool.eq_false_iff.mpr
      (List.rdropWhile_last_not isSpaceChar (text.dropWhile isSpaceChar) hne)

theorem Trimmed.trim_eq_self {text : Bytes} (h : Trimmed text) : trim text = text := by
  obtain ⟨hhead, hlast⟩ := h
  have hdrop : text.dropWhile isSpaceChar = text := by
    cases text with
    | nil => rfl
    | cons c rest => simp [hhead c rfl]
  rw [trim_eq, hdrop, List.rdropWhile_eq_self_iff]
  intro hne
  simpa using hlast _ (List.getLast?_eq_getLast_of_ne_nil hne)

/-- Trimming leaves nothing of a blank text only. -/
theorem trim_eq_nil_iff {text : Bytes} : trim text = [] ↔ ∀ c ∈ text, isSpaceChar c = true := by
  rw [trim_eq, List.rdropWhile_eq_nil_iff]
  constructor
  · intro h
    have hdrop : text.dropWhile isSpaceChar = [] := by
      by_contra hne
      have hnot := List.head?_dropWhile_not isSpaceChar text
      obtain ⟨c, rest, hrest⟩ := List.exists_cons_of_ne_nil hne
      rw [hrest] at hnot
      simp [h c (hrest ▸ List.mem_cons_self)] at hnot
    exact List.dropWhile_eq_nil_iff.mp hdrop
  · intro h c hc
    exact h c ((List.dropWhile_suffix _).subset hc)

end Trimming

section Separators

theorem head?_replaceWordSeparators (text : Bytes) :
    (replaceWordSeparators text).head? = text.head? ∨
      (replaceWordSeparators text).head? = some space := by
  cases text with
  | nil => exact Or.inl rfl
  | cons c rest =>
      rw [replaceWordSeparators]
      split
      · exact Or.inr rfl
      · exact Or.inl rfl

theorem separatorFree_replaceWordSeparators (text : Bytes) :
    SeparatorFree (replaceWordSeparators text) := by
  intro a b tail hsuffix hseparator
  induction text with
  | nil => simp [replaceWordSeparators] at hsuffix
  | cons c rest ih =>
      rw [replaceWordSeparators, List.suffix_cons_iff] at hsuffix
      rcases hsuffix with heq | hsuffix
      · obtain ⟨rfl, hrest⟩ := List.cons.inj heq
        have hnext : (replaceWordSeparators rest).head? = some b := by rw [← hrest]; rfl
        by_cases hreplaced : (c = dot ∨ c = underscore) ∧ rest.head?.any isWordChar = true
        · rw [if_pos hreplaced] at hseparator
          exact absurd hseparator (by decide)
        · rw [if_neg hreplaced] at hseparator
          rcases head?_replaceWordSeparators rest with hkept | hspace
          · rw [hnext] at hkept
            simpa [hseparator, ← hkept] using hreplaced
          · rw [hnext] at hspace
            obtain rfl := Option.some.inj hspace
            decide
      · exact ih hsuffix

theorem SeparatorFree.replaceWordSeparators_eq_self {text : Bytes} (h : SeparatorFree text) :
    replaceWordSeparators text = text := by
  induction text with
  | nil => rfl
  | cons c rest ih =>
      have hrest : SeparatorFree rest := fun a b tail hsuffix =>
        h a b tail (hsuffix.trans (List.suffix_cons c rest))
      rw [replaceWordSeparators, ih hrest, if_neg]
      rintro ⟨hseparator, hword⟩
      cases rest with
      | nil => simp at hword
      | cons b tail =>
          have hnot := h c b tail List.suffix_rfl hseparator
          simp [hnot] at hword

theorem zero_notMem_replaceWordSeparators {text : Bytes} (h : (0 : UInt8) ∉ text) :
    (0 : UInt8) ∉ replaceWordSeparators text := by
  induction text with
  | nil => simp [replaceWordSeparators]
  | cons c rest ih =>
      rw [List.mem_cons, not_or] at h
      rw [replaceWordSeparators, List.mem_cons, not_or]
      refine ⟨?_, ih h.2⟩
      split
      · decide
      · exact h.1

/-- A suffix of a part of a text starts a suffix of the text. -/
theorem suffix_of_isInfix {part text tail : Bytes} (h : part <:+: text) (htail : tail <:+ part) :
    ∃ more, tail ++ more <:+ text := by
  obtain ⟨before, after, rfl⟩ := h
  obtain ⟨front, rfl⟩ := htail
  exact ⟨after, before ++ front, by simp⟩

theorem SeparatorFree.of_isInfix {part text : Bytes} (h : SeparatorFree text)
    (hpart : part <:+: text) : SeparatorFree part := by
  intro a b tail hsuffix
  obtain ⟨more, hmore⟩ := suffix_of_isInfix hpart hsuffix
  exact h a b (tail ++ more) hmore

end Separators

section Years

theorem yearDigits_append {text : Bytes} {year : Int} (h : yearDigits text = some year)
    (more : Bytes) : yearDigits (text ++ more) = some year := by
  unfold yearDigits at h
  split at h
  · simpa [yearDigits] using h
  · simp at h

theorem YearFree.of_isInfix {part text : Bytes} (h : YearFree text) (hpart : part <:+: text) :
    YearFree part := by
  intro tail hsuffix
  obtain ⟨more, hmore⟩ := suffix_of_isInfix hpart hsuffix
  by_contra hsome
  obtain ⟨year, hyear⟩ := Option.ne_none_iff_exists'.mp hsome
  have := h _ hmore
  rw [yearDigits_append hyear] at this
  simp at this

theorem yearDigits_cons_parenthesis (rest : Bytes) : yearDigits (40 :: rest) = none := by
  unfold yearDigits
  split
  · rename_i heq
    obtain ⟨rfl, -⟩ := List.cons.inj heq
    simp
  · rfl

/-- A text in which no match starts at the head has no group there. -/
theorem yearDigits_of_matchYear {c : UInt8} {rest : Bytes} (h : matchYear (c :: rest) = none) :
    yearDigits (c :: rest) = none := by
  by_cases hparen : c = 40
  · rw [hparen]
    exact yearDigits_cons_parenthesis rest
  · simpa [matchYear, hparen] using h

theorem searchYear_eq_none {text : Bytes} (h : searchYear text = none) : YearFree text := by
  induction text with
  | nil =>
      intro tail hsuffix
      rw [List.suffix_nil.mp hsuffix]
      rfl
  | cons c rest ih =>
      rw [searchYear] at h
      split at h
      · simp at h
      · rename_i hmatch
        intro tail hsuffix
        rcases List.suffix_cons_iff.mp hsuffix with rfl | hsuffix
        · exact yearDigits_of_matchYear hmatch
        · exact ih (by simpa using h) tail hsuffix

/-- A search finds the first group. -/
theorem searchYear_eq_some {text before : Bytes} {year : Int}
    (h : searchYear text = some (before, year)) :
    ∃ head rest, FirstYear text head rest year ∧ before = beforeParenthesis head := by
  induction text generalizing before with
  | nil => simp [searchYear] at h
  | cons c rest ih =>
      rw [searchYear] at h
      split at h
      · rename_i found hmatch
        obtain ⟨rfl, rfl⟩ := Prod.mk.inj (Option.some.inj h)
        by_cases hparen : c = 40
        · subst hparen
          refine ⟨[40], rest, ⟨rfl, by simpa [matchYear] using hmatch, ?_⟩, rfl⟩
          intro tail hsuffix hlonger
          rcases List.suffix_cons_iff.mp hsuffix with rfl | hsuffix
          · exact yearDigits_cons_parenthesis rest
          · exact absurd hlonger (not_lt.mpr hsuffix.length_le)
        · refine ⟨[], c :: rest, ⟨rfl, by simpa [matchYear, hparen] using hmatch, ?_⟩, rfl⟩
          intro tail hsuffix hlonger
          exact absurd hlonger (not_lt.mpr hsuffix.length_le)
      · rename_i hmatch
        obtain ⟨⟨sofar, found⟩, hsearch, heq⟩ := Option.map_eq_some_iff.mp h
        obtain ⟨rfl, rfl⟩ := Prod.mk.inj heq
        obtain ⟨head, tail, ⟨hsplit, hdigits, hfirst⟩, rfl⟩ := ih hsearch
        refine ⟨c :: head, tail, ⟨by rw [hsplit]; rfl, hdigits, ?_⟩, ?_⟩
        · intro other hsuffix hlonger
          rcases List.suffix_cons_iff.mp hsuffix with rfl | hsuffix
          · exact yearDigits_of_matchYear hmatch
          · exact hfirst other hsuffix hlonger
        · cases head with
          | nil =>
              have hparen : c ≠ 40 := by
                rintro rfl
                rw [List.nil_append] at hsplit
                simp [matchYear, hsplit, hdigits] at hmatch
              simp [beforeParenthesis, hparen]
          | cons d head =>
              simp only [beforeParenthesis, List.getLast?_cons_cons]
              split <;> simp

theorem FirstYear.unique {text head rest head' rest' : Bytes} {year year' : Int}
    (h : FirstYear text head rest year) (h' : FirstYear text head' rest' year') :
    head = head' ∧ rest = rest' ∧ year = year' := by
  have hsuffix : rest <:+ text := ⟨head, h.split.symm⟩
  have hsuffix' : rest' <:+ text := ⟨head', h'.split.symm⟩
  have hle : rest.length ≤ rest'.length := by
    by_contra hless
    have := h'.first rest hsuffix (not_le.mp hless)
    simp [h.digits] at this
  have hge : rest'.length ≤ rest.length := by
    by_contra hless
    have := h.first rest' hsuffix' (not_le.mp hless)
    simp [h'.digits] at this
  have hlength := le_antisymm hle hge
  obtain ⟨hhead, hrest⟩ := List.append_inj' (h.split.symm.trans h'.split) hlength
  have hyear := h.digits
  rw [hrest, h'.digits] at hyear
  exact ⟨hhead, hrest, (Option.some.inj hyear).symm⟩

/-- A text with a first group is searched up to it. -/
theorem FirstYear.searchYear_eq {text head rest : Bytes} {year : Int}
    (h : FirstYear text head rest year) :
    searchYear text = some (beforeParenthesis head, year) := by
  cases hsearch : searchYear text with
  | none =>
      have := searchYear_eq_none hsearch rest ⟨head, h.split.symm⟩
      simp [h.digits] at this
  | some found =>
      obtain ⟨head', rest', hfirst, hbefore⟩ := searchYear_eq_some hsearch
      obtain ⟨rfl, rfl, rfl⟩ := h.unique hfirst
      rw [← hbefore]

theorem FirstYear.not_yearFree {text head rest : Bytes} {year : Int}
    (h : FirstYear text head rest year) : ¬ YearFree text := by
  intro hfree
  have := hfree rest ⟨head, h.split.symm⟩
  simp [h.digits] at this

theorem YearFree.searchYear_eq {text : Bytes} (h : YearFree text) : searchYear text = none := by
  by_contra hsome
  obtain ⟨⟨before, year⟩, hsearch⟩ := Option.ne_none_iff_exists'.mp hsome
  obtain ⟨head, rest, hfirst, -⟩ := searchYear_eq_some hsearch
  exact hfirst.not_yearFree h

/-- A text has a first group or none at all. -/
theorem yearFree_or_firstYear (text : Bytes) :
    YearFree text ∨ ∃ head rest year, FirstYear text head rest year := by
  cases hsearch : searchYear text with
  | none => exact Or.inl (searchYear_eq_none hsearch)
  | some found =>
      obtain ⟨head, rest, hfirst, -⟩ := searchYear_eq_some hsearch
      exact Or.inr ⟨head, rest, found.2, hfirst⟩

theorem beforeParenthesis_isPrefix (text : Bytes) : beforeParenthesis text <+: text := by
  unfold beforeParenthesis
  split
  · exact List.dropLast_prefix text
  · exact List.prefix_rfl

/-- No group starts before the first one. -/
theorem FirstYear.yearFree {text head rest : Bytes} {year : Int}
    (h : FirstYear text head rest year) : YearFree head := by
  intro tail hsuffix
  obtain ⟨front, rfl⟩ := hsuffix
  by_contra hsome
  obtain ⟨other, hother⟩ := Option.ne_none_iff_exists'.mp hsome
  have htail : tail ≠ [] := by
    rintro rfl
    simp [yearDigits] at hother
  have hnone := h.first (tail ++ rest) ⟨front, by rw [h.split, List.append_assoc]⟩
    (by simpa using List.length_pos_iff.mpr htail)
  rw [yearDigits_append hother] at hnone
  simp at hnone

end Years

section Normal

variable {title : Bytes}

theorem normalizeTitle_of_yearFree (hzero : (0 : UInt8) ∉ title)
    (h : YearFree (replaceWordSeparators title)) :
    normalizeTitle title = (trim (replaceWordSeparators title), 0) := by
  simp [normalizeTitle, cString_of_notMem hzero, h.searchYear_eq]

theorem normalizeTitle_of_firstYear (hzero : (0 : UInt8) ∉ title) {head rest : Bytes} {year : Int}
    (h : FirstYear (replaceWordSeparators title) head rest year) :
    normalizeTitle title = (trim (beforeParenthesis head), year) := by
  simp [normalizeTitle, cString_of_notMem hzero, h.searchYear_eq]

end Normal

/-- The value and the place of the year that a title was cut at. -/
structure CutAtYear (normalised title : Bytes) (year : Int) : Prop where
  zero_iff : year = 0 ↔ YearFree normalised
  whole : YearFree normalised → title = trim normalised
  cut : ¬ YearFree normalised →
    ∃ head rest, FirstYear normalised head rest year ∧ title = trim (beforeParenthesis head)

theorem cutAtYear_normalizeTitle {title : Bytes} (hzero : (0 : UInt8) ∉ title) :
    CutAtYear (replaceWordSeparators title) (normalizeTitle title).1 (normalizeTitle title).2 := by
  rcases yearFree_or_firstYear (replaceWordSeparators title) with hfree | ⟨head, rest, year, hfirst⟩
  · rw [normalizeTitle_of_yearFree hzero hfree]
    exact ⟨by simp [hfree], fun _ => rfl, fun hnot => absurd hfree hnot⟩
  · have hnot := hfirst.not_yearFree
    rw [normalizeTitle_of_firstYear hzero hfirst]
    refine ⟨⟨fun hyear => ?_, fun hfree => absurd hfree hnot⟩, fun hfree => absurd hfree hnot,
      fun _ => ⟨head, rest, hfirst, rfl⟩⟩
    have hle := le_yearDigits hfirst.digits
    have hyear : year = 0 := hyear
    omega

/-- The title is a part of the separator-normalised name without a year. -/
theorem normalizeTitle_isInfix {title : Bytes} (hzero : (0 : UInt8) ∉ title) :
    (normalizeTitle title).1 <:+: replaceWordSeparators title ∧
      YearFree (normalizeTitle title).1 := by
  rcases yearFree_or_firstYear (replaceWordSeparators title) with hfree | ⟨head, rest, year, hfirst⟩
  · rw [normalizeTitle_of_yearFree hzero hfree]
    exact ⟨trim_isInfix _, hfree.of_isInfix (trim_isInfix _)⟩
  · rw [normalizeTitle_of_firstYear hzero hfirst]
    have hpart : trim (beforeParenthesis head) <:+: head :=
      (trim_isInfix _).trans (beforeParenthesis_isPrefix head).isInfix
    have hhead : head <+: replaceWordSeparators title := ⟨rest, hfirst.split.symm⟩
    exact ⟨hpart.trans hhead.isInfix, hfirst.yearFree.of_isInfix hpart⟩

/-- What `normalize_title` returns is in normal form, and it is returned
unchanged when it is normalised again. -/
theorem normalizeTitle_normal (title : Bytes) (hzero : (0 : UInt8) ∉ title) :
    Trimmed (normalizeTitle title).1 ∧ SeparatorFree (normalizeTitle title).1 ∧
      YearFree (normalizeTitle title).1 ∧
      CutAtYear (replaceWordSeparators title) (normalizeTitle title).1 (normalizeTitle title).2 ∧
      normalizeTitle (normalizeTitle title).1 = ((normalizeTitle title).1, 0) := by
  obtain ⟨hwithin, hfree⟩ := normalizeTitle_isInfix hzero
  have htrimmed : Trimmed (normalizeTitle title).1 := by
    unfold normalizeTitle
    dsimp only
    split <;> exact trimmed_trim _
  have hseparators := (separatorFree_replaceWordSeparators title).of_isInfix hwithin
  have hzero' : (0 : UInt8) ∉ (normalizeTitle title).1 := fun hmem =>
    zero_notMem_replaceWordSeparators hzero (hwithin.subset hmem)
  refine ⟨htrimmed, hseparators, hfree, cutAtYear_normalizeTitle hzero, ?_⟩
  have hself := hseparators.replaceWordSeparators_eq_self
  rw [normalizeTitle_of_yearFree hzero' (by rwa [hself]), hself, htrimmed.trim_eq_self]

theorem normalizeTitle_normal_matrix :
    Trimmed (ascii "The Matrix") ∧
      normalizeTitle (ascii "The.Matrix (1999).1080p") = (ascii "The Matrix", 1999) ∧
      normalizeTitle (ascii "The Matrix") = (ascii "The Matrix", 0) := by
  have hname : normalizeTitle (ascii "The.Matrix (1999).1080p") = (ascii "The Matrix", 1999) := by
    decide
  obtain ⟨htrimmed, -, -, -, hagain⟩ :=
    normalizeTitle_normal (ascii "The.Matrix (1999).1080p") (by decide)
  rw [hname] at htrimmed hagain
  exact ⟨htrimmed, hname, hagain⟩

end Eems

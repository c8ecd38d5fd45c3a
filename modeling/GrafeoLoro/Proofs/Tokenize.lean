import GrafeoLoro.Fts.InvertedIndex
import GrafeoLoro.Lib.Words
import Mathlib

/-!
# `GrafeoLoro.Proofs.Tokenize`: the tokens of a text

The tokens are the lower-cased words of the text, where whitespace, ASCII punctuation and ASCII
control characters separate. Lower-casing neither makes a separator nor hides one, so it can come
before the split or after it.

* `tokenize_stable`: what a token looks like, that the tokens of joined tokens are the tokens, and
  that a query in another ASCII case has the same tokens.
-/

set_option autoImplicit false

namespace GrafeoLoro.Proofs

open GrafeoLoro GrafeoLoro.Lib

/-! ### Characters -/

/-- `char::is_ascii_punctuation`. -/
def isAsciiPunctuation (c : Char) : Bool :=
  let n := c.toNat
  (0x21 ≤ n && n ≤ 0x2F) || (0x3A ≤ n && n ≤ 0x40) || (0x5B ≤ n && n ≤ 0x60) ||
    (0x7B ≤ n && n ≤ 0x7E)

/-- `char::to_ascii_lowercase`. -/
def toAsciiLowercase (c : Char) : Char := if isAscii c then c.toLower else c

/-- `str::to_ascii_lowercase`. -/
def asciiLowercase (text : String) : String := String.ofList (text.toList.map toAsciiLowercase)

/-- The numbers of the letters and digits. -/
theorem isAlphanum_iff (c : Char) :
    c.isAlphanum = true ↔
      (65 ≤ c.toNat ∧ c.toNat ≤ 90) ∨ (97 ≤ c.toNat ∧ c.toNat ≤ 122) ∨
        (48 ≤ c.toNat ∧ c.toNat ≤ 57) := by
  simp only [Char.isAlphanum, Char.isAlpha, Char.isUpper, Char.isLower, Char.isDigit,
    Bool.or_eq_true, decide_eq_true_eq, Bool.and_eq_true, UInt32.le_iff_toNat_le, ge_iff_le]
  -- the bounds are the numbers of 'A', 'Z', 'a', 'z', '0' and '9'
  exact or_assoc

/-- A letter or a digit does not separate. -/
theorem isDelimiter_of_isAlphanum {c : Char} (h : c.isAlphanum = true) : isDelimiter c = false := by
  have hnum := (isAlphanum_iff c).mp h
  have hspace : isWhitespace c = false := by
    simp only [isWhitespace, List.contains_eq_mem, List.mem_cons, List.not_mem_nil, or_false,
      Bool.decide_or, Bool.or_eq_false_iff, Bool.and_eq_false_imp, decide_eq_true_eq,
      decide_eq_false_iff_not, not_le]
    omega
  rw [isDelimiter, hspace, h]
  simp

/-- ASCII punctuation separates. -/
theorem isDelimiter_of_isAsciiPunctuation {c : Char} (h : isAsciiPunctuation c = true) :
    isDelimiter c = true := by
  simp only [isAsciiPunctuation, Bool.or_eq_true, Bool.and_eq_true, decide_eq_true_eq] at h
  have hnum : c.isAlphanum = false := by
    rw [Bool.eq_false_iff]
    intro halnum
    have := (isAlphanum_iff c).mp halnum
    omega
  have hascii : isAscii c = true := by
    simp only [isAscii, decide_eq_true_eq]
    omega
  rw [isDelimiter, hascii, hnum]
  simp

/-- A lower-cased character is a separator exactly when the character is. -/
theorem isDelimiter_toAsciiLowercase (c : Char) :
    isDelimiter (toAsciiLowercase c) = isDelimiter c := by
  unfold toAsciiLowercase
  split
  · cases halpha : c.isAlpha with
    | false =>
      -- only letters change
      have hupper : ¬ c.isUpper := by
        intro h
        rw [Char.isAlpha, h] at halpha
        cases halpha
      rw [Char.toLower_eq_of_not_isUpper hupper]
    | true =>
      have hlower : c.toLower.isAlpha = true := by rw [Char.isAlpha_toLower_eq_isAlpha, halpha]
      rw [isDelimiter_of_isAlphanum (by rw [Char.isAlphanum, hlower]; rfl),
        isDelimiter_of_isAlphanum (by rw [Char.isAlphanum, halpha]; rfl)]
  · rfl

/-- A lower-cased character is not an upper-case letter. -/
theorem isUpper_toAsciiLowercase (c : Char) : (toAsciiLowercase c).isUpper = false := by
  unfold toAsciiLowercase
  split
  · exact Char.isUpper_toLower_eq_false c
  · rename_i hascii
    -- the upper-case letters are ASCII
    rw [Bool.eq_false_iff]
    intro hupper
    apply hascii
    have hnum := (isAlphanum_iff c).mp (by rw [Char.isAlphanum, Char.isAlpha, hupper]; rfl)
    simp only [isAscii, decide_eq_true_eq]
    omega

/-- Lower-casing twice is lower-casing once. -/
theorem toAsciiLowercase_idem (c : Char) :
    toAsciiLowercase (toAsciiLowercase c) = toAsciiLowercase c := by
  have hupper := isUpper_toAsciiLowercase c
  generalize toAsciiLowercase c = d at hupper
  unfold toAsciiLowercase
  split
  · exact Char.toLower_eq_of_not_isUpper (by rw [hupper]; simp)
  · rfl

/-! ### Tokens -/

/-- The tokens are the lower-cased words. -/
theorem toList_tokenize (text : String) :
    (tokenize text).map String.toList
      = (words isDelimiter text.toList).map (List.map toAsciiLowercase) := by
  unfold tokenize
  rw [List.map_map]
  apply List.map_congr_left
  intro word _
  exact String.toList_ofList

/-- Two texts with the same lower-cased words have the same tokens. -/
theorem tokenize_congr {text text' : String}
    (h : (tokenize text).map String.toList = (tokenize text').map String.toList) :
    tokenize text = tokenize text' :=
  List.map_injective_iff.mpr (fun _ _ => String.toList_inj.mp) h

/-- A token is the lower-cased form of a word. -/
theorem word_of_mem_tokenize {text token : String} (h : token ∈ tokenize text) :
    ∃ word ∈ words isDelimiter text.toList, token.toList = word.map toAsciiLowercase := by
  have hmem : token.toList ∈ (tokenize text).map String.toList := List.mem_map_of_mem h
  rw [toList_tokenize] at hmem
  obtain ⟨word, hword, heq⟩ := List.mem_map.mp hmem
  exact ⟨word, hword, heq.symm⟩

/-- A token is not empty, and no character of it separates or is an upper-case letter. -/
theorem token_clean {text token : String} (h : token ∈ tokenize text) :
    token.toList ≠ [] ∧
      ∀ c ∈ token.toList,
        isDelimiter c = false ∧ c.isUpper = false ∧ toAsciiLowercase c = c := by
  obtain ⟨word, hword, htoken⟩ := word_of_mem_tokenize h
  rw [htoken]
  constructor
  · intro hempty
    exact ne_nil_of_mem_words hword (List.map_eq_nil_iff.mp hempty)
  · intro c hc
    obtain ⟨d, hd, rfl⟩ := List.mem_map.mp hc
    refine ⟨?_, isUpper_toAsciiLowercase d, toAsciiLowercase_idem d⟩
    rw [isDelimiter_toAsciiLowercase]
    exact notSep_of_mem_words hword d hd

/-- The tokens of the tokens joined by spaces are the tokens. -/
theorem tokenize_intercalate (text : String) :
    tokenize (" ".intercalate (tokenize text)) = tokenize text := by
  apply tokenize_congr
  have hwords : words isDelimiter (" ".intercalate (tokenize text)).toList
      = (tokenize text).map String.toList := by
    rw [String.toList_intercalate]
    apply words_intercalate (by decide)
    intro word hword
    obtain ⟨token, htoken, rfl⟩ := List.mem_map.mp hword
    obtain ⟨hne, hclean⟩ := token_clean htoken
    exact ⟨hne, fun c hc => (hclean c hc).1⟩
  rw [toList_tokenize, hwords, List.map_map]
  -- the tokens are in lower case already
  apply List.map_congr_left
  intro token htoken
  have hlower : ∀ c ∈ token.toList, toAsciiLowercase c = id c :=
    fun c hc => ((token_clean htoken).2 c hc).2.2
  exact (List.map_congr_left hlower).trans (List.map_id _)

/-- The tokens of a lower-cased text are the tokens of the text. -/
theorem tokenize_asciiLowercase (text : String) :
    tokenize (asciiLowercase text) = tokenize text := by
  apply tokenize_congr
  rw [toList_tokenize, toList_tokenize, asciiLowercase, String.toList_ofList,
    words_map isDelimiter_toAsciiLowercase, List.map_map]
  apply List.map_congr_left
  intro word _
  rw [Function.comp_apply, List.map_map]
  apply List.map_congr_left
  intro c _
  exact toAsciiLowercase_idem c

/-- A token is not empty and holds no whitespace, no ASCII punctuation and no ASCII upper-case
letter. The tokens joined by single spaces have the same tokens, and so has the lower-cased
text. -/
theorem tokenize_stable (text : String) :
    (∀ token ∈ tokenize text, token ≠ "" ∧
      ∀ c ∈ token.toList,
        isWhitespace c = false ∧ isAsciiPunctuation c = false ∧ c.isUpper = false) ∧
    tokenize (" ".intercalate (tokenize text)) = tokenize text ∧
    tokenize (asciiLowercase text) = tokenize text := by
  refine ⟨?_, tokenize_intercalate text, tokenize_asciiLowercase text⟩
  intro token htoken
  obtain ⟨hne, hclean⟩ := token_clean htoken
  refine ⟨fun hempty => hne (by rw [hempty]; rfl), ?_⟩
  intro c hc
  obtain ⟨hsep, hupper, _⟩ := hclean c hc
  refine ⟨?_, ?_, hupper⟩
  · rw [isDelimiter, Bool.or_eq_false_iff] at hsep
    exact hsep.1
  · rw [Bool.eq_false_iff]
    intro hpunct
    rw [isDelimiter_of_isAsciiPunctuation hpunct] at hsep
    cases hsep

end GrafeoLoro.Proofs

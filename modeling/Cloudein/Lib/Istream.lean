import Cloudein.Lib.Stoi

/-!
# Reading an `int` from a stream

`operator>>` of `std::istream` does nothing but fail when the stream is not good.  Otherwise it skips white space,
fails when that was all, and reads a sign and digits as `strtol` does: without a digit it stores zero and fails,
beyond the range of `int` it stores the nearest limit and fails.  A stream that has failed stays failed.
-/

namespace Iostream

open Stoi

def intMin : Int := -2147483648
def intMax : Int := 2147483647

structure Istream where
  /-- The characters not read yet. -/
  text : List Char
  eof : Bool
  fail : Bool

def afterSign : List Char → List Char
  | '-' :: r => r
  | '+' :: r => r
  | r => r

/-- What stands behind the white space, the sign and the digits. -/
def afterNumber (text : List Char) : List Char := (afterSign (text.dropWhile isSpace)).dropWhile Char.isDigit

/-- `stream >> num`, with the variable as it is before, `none` when it was never written. -/
def extractInt (s : Istream) (num : Option Int) : Istream × Option Int :=
  if s.eof ∨ s.fail then ({ s with fail := true }, num)
  else if s.text.dropWhile isSpace = [] then (⟨[], true, true⟩, num)
  else
    let rest := afterNumber s.text
    match strtol s.text with
    | none => (⟨rest, rest.isEmpty, true⟩, some 0)
    | some v =>
      if v < intMin then (⟨rest, rest.isEmpty, true⟩, some intMin)
      else if intMax < v then (⟨rest, rest.isEmpty, true⟩, some intMax)
      else (⟨rest, rest.isEmpty, false⟩, some v)

example : (extractInt ⟨" 7\n".toList, false, false⟩ none).2 = some 7 := by decide
example : (extractInt ⟨"stop".toList, false, false⟩ (some 7)).2 = some 0 := by decide
example : (extractInt ⟨"\n".toList, false, false⟩ (some 7)).2 = some 7 := by decide

/-- The stream has not failed, and it is at its end only when everything was read. -/
structure Istream.Readable (s : Istream) : Prop where
  ok : s.fail = false
  atEnd : s.eof = true → s.text = []

private theorem dropWhile_digits_lt {l : List Char} (h : leadingDigits l ≠ none) :
    (l.dropWhile Char.isDigit).length < l.length := by
  have hsplit := congrArg List.length (List.takeWhile_append_dropWhile (p := Char.isDigit) (l := l))
  have hne : l.takeWhile Char.isDigit ≠ [] := by
    intro hnil
    simp [leadingDigits, hnil] at h
  have hpos := List.length_pos_iff.2 hne
  rw [List.length_append] at hsplit
  omega

private theorem length_afterSign_le (l : List Char) : (afterSign l).length ≤ l.length := by
  unfold afterSign
  split <;> simp

private theorem afterSign_of_unsigned {l : List Char} (hminus : ∀ r, l ≠ '-' :: r) (hplus : ∀ r, l ≠ '+' :: r) :
    afterSign l = l := by
  unfold afterSign
  split
  · exact absurd rfl (hminus _)
  · exact absurd rfl (hplus _)
  · rfl

/-- A number that `strtol` reads has a digit behind its sign. -/
theorem leadingDigits_of_strtol {text : List Char} {v : Int} (h : strtol text = some v) :
    leadingDigits (afterSign (text.dropWhile isSpace)) ≠ none := by
  intro hnone
  unfold strtol at h
  split at h
  · rename_i r hr
    rw [hr] at hnone
    have hdigits : leadingDigits r = none := hnone
    simp [hdigits] at h
  · rename_i r hr
    rw [hr] at hnone
    have hdigits : leadingDigits r = none := hnone
    simp [hdigits] at h
  · rename_i hminus hplus
    rw [afterSign_of_unsigned hminus hplus] at hnone
    simp [hnone] at h

/-- A number takes at least one character. -/
theorem afterNumber_lt {text : List Char} {v : Int} (h : strtol text = some v) :
    (afterNumber text).length < text.length :=
  calc (afterNumber text).length
    _ < (afterSign (text.dropWhile isSpace)).length := dropWhile_digits_lt (leadingDigits_of_strtol h)
    _ ≤ (text.dropWhile isSpace).length := length_afterSign_le _
    _ ≤ text.length := (List.dropWhile_sublist _).length_le

section

variable {s : Istream} (num : Option Int)

theorem extractInt_failed (h : s.fail = true) : extractInt s num = (s, num) := by
  obtain ⟨text, eof, fail⟩ := s
  obtain rfl : fail = true := h
  simp [extractInt]

private theorem extractInt_blank (h : s.text.dropWhile isSpace = []) :
    (extractInt s num).2 = num ∧ (extractInt s num).1.fail = true := by
  unfold extractInt
  split
  · exact ⟨rfl, rfl⟩
  · exact ⟨rfl, rfl⟩

private theorem Istream.Readable.not_ended (h : s.Readable) (hblank : s.text.dropWhile isSpace ≠ []) :
    ¬ (s.eof = true ∨ s.fail = true) := by
  rintro (heof | hfail)
  · exact hblank (by rw [h.atEnd heof]; rfl)
  · rw [h.ok] at hfail
    cases hfail

private theorem Istream.Readable.extractInt_unreadable (h : s.Readable) (hblank : s.text.dropWhile isSpace ≠ [])
    (hnone : strtol s.text = none) : (extractInt s num).2 = some 0 := by
  simp only [extractInt, if_neg (h.not_ended hblank), if_neg hblank, hnone]

private theorem Istream.Readable.extractInt_inRange (h : s.Readable) (hblank : s.text.dropWhile isSpace ≠ [])
    {v : Int} (hv : strtol s.text = some v) (hlow : intMin ≤ v) (hhigh : v ≤ intMax) :
    extractInt s num = (⟨afterNumber s.text, (afterNumber s.text).isEmpty, false⟩, some v) := by
  simp only [extractInt, if_neg (h.not_ended hblank), if_neg hblank, hv, if_neg (Int.not_lt.2 hlow),
    if_neg (Int.not_lt.2 hhigh)]

private theorem Istream.Readable.extractInt_outOfRange (h : s.Readable) (hblank : s.text.dropWhile isSpace ≠ [])
    {v : Int} (hv : strtol s.text = some v) (hout : v < intMin ∨ intMax < v) :
    ((extractInt s num).2 = some intMin ∨ (extractInt s num).2 = some intMax) ∧ (extractInt s num).1.fail = true := by
  simp only [extractInt, if_neg (h.not_ended hblank), if_neg hblank, hv]
  by_cases hlow : v < intMin
  · rw [if_pos hlow]
    exact ⟨Or.inl rfl, rfl⟩
  · rw [if_neg hlow, if_pos (hout.resolve_left hlow)]
    exact ⟨Or.inr rfl, rfl⟩

end

/-! ### What can be read from a text -/

/-- What ends the reading of integers from a text. -/
inductive Ending where
  | zero
  | unreadable
  | outOfRange
  | endOfText
deriving DecidableEq, Repr

/-- The integers read before the first zero, the first token that is no `int` or the end, at most `n`, and which of
them comes. -/
def scan : Nat → List Char → List Int × Ending
  | 0, _ => ([], .endOfText)
  | n + 1, text =>
    if text.dropWhile isSpace = [] then ([], .endOfText)
    else match strtol text with
      | none => ([], .unreadable)
      | some v =>
        if v = 0 then ([], .zero)
        else if v < intMin ∨ intMax < v then ([], .outOfRange)
        else
          let r := scan n (afterNumber text)
          (v :: r.1, r.2)

/-- A zero comes, which is what an unreadable token is stored as. -/
def Ending.stops : Ending → Bool
  | .zero | .unreadable => true
  | .outOfRange | .endOfText => false

/-- What one extraction from a readable stream does, and what it means for the integers in the text: the stream fails
and nothing is read or a limit is stored; or zero is stored; or an integer is read and the stream can be read on. -/
theorem Istream.Readable.scan_cases {s : Istream} (h : s.Readable) (num : Option Int) (n : Nat) :
    ((scan (n + 1) s.text).1 = [] ∧ (scan (n + 1) s.text).2.stops = false ∧ (extractInt s num).1.fail = true ∧
        ((extractInt s num).2 = num ∨ (extractInt s num).2 = some intMin ∨ (extractInt s num).2 = some intMax)) ∨
      ((scan (n + 1) s.text).1 = [] ∧ (scan (n + 1) s.text).2.stops = true ∧ (extractInt s num).2 = some 0) ∨
      ∃ s' v, v ≠ 0 ∧ extractInt s num = (s', some v) ∧ s'.Readable ∧ s'.text.length < s.text.length ∧
        scan (n + 1) s.text = (v :: (scan n s'.text).1, (scan n s'.text).2) := by
  by_cases hblank : s.text.dropWhile isSpace = []
  · have hscan : scan (n + 1) s.text = ([], .endOfText) := by simp only [scan, if_pos hblank]
    obtain ⟨hnum, hfail⟩ := extractInt_blank num hblank
    rw [hscan]
    exact Or.inl ⟨rfl, rfl, hfail, Or.inl hnum⟩
  -- The text has more than spaces, so the stream has not met its end before the token.
  cases hv : strtol s.text with
  | none =>
    have hscan : scan (n + 1) s.text = ([], .unreadable) := by simp only [scan, if_neg hblank, hv]
    rw [hscan]
    exact Or.inr (Or.inl ⟨rfl, rfl, h.extractInt_unreadable num hblank hv⟩)
  | some v =>
    by_cases hzero : v = 0
    · subst hzero
      have hscan : scan (n + 1) s.text = ([], .zero) := by simp only [scan, if_neg hblank, hv, if_true]
      rw [hscan, h.extractInt_inRange num hblank hv (by decide) (by decide)]
      exact Or.inr (Or.inl ⟨rfl, rfl, rfl⟩)
    by_cases hout : v < intMin ∨ intMax < v
    · have hscan : scan (n + 1) s.text = ([], .outOfRange) := by
        simp only [scan, if_neg hblank, hv, if_neg hzero, if_pos hout]
      obtain ⟨hnum, hfail⟩ := h.extractInt_outOfRange num hblank hv hout
      rw [hscan]
      exact Or.inl ⟨rfl, rfl, hfail, Or.inr hnum⟩
    · obtain ⟨hlow, hhigh⟩ := not_or.1 hout
      have hread := h.extractInt_inRange num hblank hv (Int.not_lt.1 hlow) (Int.not_lt.1 hhigh)
      refine Or.inr (Or.inr ⟨_, v, hzero, hread, ⟨rfl, fun heof => List.isEmpty_iff.1 heof⟩, afterNumber_lt hv, ?_⟩)
      simp only [scan, if_neg hblank, hv, if_neg hzero, if_neg hout]

/-- There are no more integers in a text than characters. -/
def integers (text : List Char) : List Int × Ending := scan (text.length + 1) text

example : integers "1 2\n3x".toList = ([1, 2, 3], .unreadable) := by decide
example : integers "10\n0\n5".toList = ([10], .zero) := by decide

end Iostream

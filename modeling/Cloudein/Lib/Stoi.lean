import Mathlib.Data.List.TakeWhile

/-!
# Reading a decimal integer as the C library does

`strtol` skips white space, takes a sign and then digits, and ignores what follows; `stoi` and `stol` of the C++
library fail when there is no digit and when the value does not fit in an `int` or a `long`.  `decimal` reads a whole
text and accepts nothing else: on what it accepts `strtol` agrees with it (`strtol_of_decimal`), and it reads back
every integer that was printed (`decimal_toString`).
-/

namespace Stoi

inductive ConvError where
  | invalidArgument
  | outOfRange
deriving DecidableEq, Repr

/-- `isspace` in the C locale. -/
def isSpace (c : Char) : Bool := c.toNat = 32 || 9 ≤ c.toNat && c.toNat ≤ 13

def digitsVal (ds : List Char) : Nat := ds.foldl (fun n c => 10 * n + (c.toNat - 48)) 0

/-- The value of the leading digits, `none` when there is none. -/
def leadingDigits (s : List Char) : Option Nat :=
  match s.takeWhile Char.isDigit with
  | [] => none
  | ds => some (digitsVal ds)

/-- The integer `strtol(s, .., 10)` reads before it is cut to the range of `long`. -/
def strtol (s : List Char) : Option Int :=
  match s.dropWhile isSpace with
  | '-' :: r => (leadingDigits r).map fun n => -(n : Int)
  | '+' :: r => (leadingDigits r).map fun n => (n : Int)
  | r => (leadingDigits r).map fun n => (n : Int)

/-- `std::stoi(s)`. -/
def stoi (s : List Char) : Except ConvError Int :=
  match strtol s with
  | none => .error .invalidArgument
  | some v => if -2147483648 ≤ v ∧ v ≤ 2147483647 then .ok v else .error .outOfRange

example : stoi " 8080/tcp".toList = .ok 8080 := by decide
example : stoi "0x1F90".toList = .ok 0 := by decide
example : stoi "99999999999".toList = .error .outOfRange := by decide

/-- `std::stol(s)`, with a `long` of 64 bits. -/
def stol (s : List Char) : Except ConvError Int :=
  match strtol s with
  | none => .error .invalidArgument
  | some v => if -9223372036854775808 ≤ v ∧ v ≤ 9223372036854775807 then .ok v else .error .outOfRange

/-! ### Texts that are one integer -/

def wholeDigits (s : List Char) : Option Nat :=
  if s ≠ [] ∧ s.all Char.isDigit then some (digitsVal s) else none

/-- The integer that the whole text denotes: digits, with a sign before them or none. -/
def decimal : List Char → Option Int
  | '-' :: r => (wholeDigits r).map fun n : Nat => -(n : Int)
  | '+' :: r => (wholeDigits r).map fun n : Nat => (n : Int)
  | r => (wholeDigits r).map fun n : Nat => (n : Int)

private theorem of_wholeDigits {s : List Char} {n : Nat} (h : wholeDigits s = some n) :
    s ≠ [] ∧ (∀ c ∈ s, c.isDigit) ∧ digitsVal s = n := by
  unfold wholeDigits at h
  split at h
  · rename_i hs
    exact ⟨hs.1, List.all_eq_true.1 hs.2, Option.some.inj h⟩
  · cases h

private theorem leadingDigits_of_wholeDigits {s : List Char} {n : Nat} (h : wholeDigits s = some n) :
    leadingDigits s = some n := by
  obtain ⟨hne, hall, rfl⟩ := of_wholeDigits h
  have htake : s.takeWhile Char.isDigit = s := List.takeWhile_eq_self_iff.2 hall
  unfold leadingDigits
  rw [htake]
  cases s with
  | nil => exact absurd rfl hne
  | cons c r => rfl

theorem not_isSpace_of_isDigit {c : Char} (h : c.isDigit) : isSpace c = false := by
  have hlow : 48 ≤ c.toNat := by
    simp only [Char.isDigit, ge_iff_le, Bool.and_eq_true, decide_eq_true_eq, UInt32.le_iff_toNat_le] at h
    exact h.1
  have hspace : c.toNat ≠ 32 := by omega
  have htab : ¬ c.toNat ≤ 13 := by omega
  simp [isSpace, hspace, htab]

/-- A digit or a sign is not white space, so `strtol` starts there. -/
theorem strtol_of_decimal {s : List Char} {v : Int} (h : decimal s = some v) : strtol s = some v := by
  unfold decimal at h
  split at h
  · rename_i r
    obtain ⟨n, hn, rfl⟩ := Option.map_eq_some_iff.1 h
    have hdrop : ('-' :: r).dropWhile isSpace = '-' :: r := List.dropWhile_cons_of_neg (by decide)
    simp [strtol, hdrop, leadingDigits_of_wholeDigits hn]
  · rename_i r
    obtain ⟨n, hn, rfl⟩ := Option.map_eq_some_iff.1 h
    have hdrop : ('+' :: r).dropWhile isSpace = '+' :: r := List.dropWhile_cons_of_neg (by decide)
    simp [strtol, hdrop, leadingDigits_of_wholeDigits hn]
  · rename_i hminus hplus
    obtain ⟨n, hn, rfl⟩ := Option.map_eq_some_iff.1 h
    have hdrop : s.dropWhile isSpace = s := by
      obtain ⟨hne, hall, -⟩ := of_wholeDigits hn
      cases s with
      | nil => rfl
      | cons c r =>
        have hc : isSpace c = false := not_isSpace_of_isDigit (hall c List.mem_cons_self)
        exact List.dropWhile_cons_of_neg (by rw [hc]; decide)
    unfold strtol
    rw [hdrop]
    split
    · exact absurd rfl (hminus _)
    · exact absurd rfl (hplus _)
    · simp [leadingDigits_of_wholeDigits hn]

theorem stol_of_decimal {s : List Char} {v : Int} (h : decimal s = some v) (hlow : -9223372036854775808 ≤ v)
    (hhigh : v ≤ 9223372036854775807) : stol s = .ok v := by
  simp only [stol, strtol_of_decimal h]
  rw [if_pos ⟨hlow, hhigh⟩]

private theorem wholeDigits_toDigits (n : Nat) : wholeDigits (Nat.toDigits 10 n) = some n := by
  have hall : (Nat.toDigits 10 n).all Char.isDigit := by
    rw [List.all_eq_true]
    exact fun c hc => Nat.isDigit_of_mem_toDigits (by decide) (by decide) hc
  have hval : digitsVal (Nat.toDigits 10 n) = Nat.ofDigitChars 10 (Nat.toDigits 10 n) 0 := by
    rw [Nat.ofDigitChars_eq_foldl]
    rfl
  unfold wholeDigits
  rw [if_pos ⟨Nat.toDigits_ne_nil, hall⟩, hval, Nat.ofDigitChars_ten_toDigits]

private theorem decimal_of_wholeDigits {s : List Char} {n : Nat} (h : wholeDigits s = some n) :
    decimal s = some (n : Int) := by
  obtain ⟨-, hall, -⟩ := of_wholeDigits h
  unfold decimal
  split
  · exact absurd (hall '-' List.mem_cons_self) (by decide)
  · exact absurd (hall '+' List.mem_cons_self) (by decide)
  · rw [h, Option.map_some]

/-- A printed integer is read back. -/
theorem decimal_toString (v : Int) : decimal (toString v).toList = some v := by
  rw [Int.toString_eq_repr, Int.repr_eq_if]
  split
  · rename_i hpos
    rw [Nat.toList_repr, decimal_of_wholeDigits (wholeDigits_toDigits _), Int.toNat_of_nonneg hpos]
  · rename_i hneg
    have htext : ("-" ++ (-v).toNat.repr).toList = '-' :: Nat.toDigits 10 (-v).toNat := by
      rw [String.toList_append, Nat.toList_repr]
      rfl
    rw [htext, decimal, wholeDigits_toDigits, Option.map_some, Int.toNat_of_nonneg (by omega), Int.neg_neg]

end Stoi

import Mathlib.Data.List.TakeWhile

/-!
# Strings in character arrays

A `Char` stands for one `char`, which is a byte.  A `CharArray n` is a C array of `n` characters, `cstr` the string
that begins at its first character and ends before the first NUL, and `strncpy` the bounded copy of the C library: it
stops at the NUL of the source, fills the rest of the array with NULs, and writes no NUL when the source has `n`
characters or more.
-/

namespace CString

def nul : Char := Char.ofNat 0

def cstr (l : List Char) : List Char := l.takeWhile fun c => c ≠ nul

abbrev CharArray (n : Nat) := { l : List Char // l.length = n }

/-- `strncpy(dst, src, n)` into an array of `n` characters. -/
def strncpy (n : Nat) (src : List Char) : CharArray n :=
  ⟨(cstr src).take n ++ List.replicate (n - (cstr src).length) nul, by simp; omega⟩

private theorem nul_not_mem_cstr (l : List Char) : nul ∉ cstr l := by
  intro h
  simpa using List.mem_takeWhile_imp h

/-- A string ends at the first NUL behind it, whatever follows. -/
theorem cstr_append_nul {l : List Char} (h : nul ∉ l) (r : List Char) : cstr (l ++ nul :: r) = l := by
  have hl : ∀ c ∈ l, (decide (c ≠ nul)) = true := by
    intro c hc
    have hne : c ≠ nul := by
      rintro rfl
      exact h hc
    simpa using hne
  rw [cstr, List.takeWhile_append_of_pos hl]
  simp

/-- A source shorter than the array is read back from it, whatever stands behind the array. -/
theorem cstr_strncpy_append {n : Nat} {s : List Char} (h : (cstr s).length < n) (r : List Char) :
    cstr ((strncpy n s).val ++ r) = cstr s := by
  obtain ⟨k, hk⟩ : ∃ k, n - (cstr s).length = k + 1 := ⟨n - (cstr s).length - 1, by omega⟩
  have hval : (strncpy n s).val ++ r = cstr s ++ nul :: (List.replicate k nul ++ r) := by
    have htake : (cstr s).take n = cstr s := List.take_of_length_le (by omega)
    simp only [strncpy, htake, hk, List.replicate_succ, List.append_assoc, List.cons_append]
  rw [hval, cstr_append_nul (nul_not_mem_cstr s)]

theorem cstr_strncpy {n : Nat} {s : List Char} (h : (cstr s).length < n) : cstr (strncpy n s).val = cstr s := by
  have happend := cstr_strncpy_append h []
  rwa [List.append_nil] at happend

/-- The array holds a string: a NUL stands within its bounds. -/
def HoldsString {n : Nat} (a : CharArray n) : Prop := nul ∈ a.val

instance {n : Nat} (a : CharArray n) : Decidable (HoldsString a) := inferInstanceAs (Decidable (nul ∈ a.val))

/-- The copy is a string exactly when the source leaves room for the NUL. -/
theorem holdsString_strncpy {n : Nat} {s : List Char} : HoldsString (strncpy n s) ↔ (cstr s).length < n := by
  have hnot : nul ∉ (cstr s).take n := fun h => nul_not_mem_cstr s (List.mem_of_mem_take h)
  have hpad : nul ∈ List.replicate (n - (cstr s).length) nul ↔ (cstr s).length < n := by
    rw [List.mem_replicate, and_iff_left rfl]
    omega
  show nul ∈ (cstr s).take n ++ _ ↔ _
  rw [List.mem_append, or_iff_right hnot, hpad]

/-- The string of an array that holds one does not depend on what stands behind the array. -/
theorem HoldsString.cstr_append {n : Nat} {a : CharArray n} (h : HoldsString a) (r : List Char) :
    cstr (a.val ++ r) = cstr a.val := by
  obtain ⟨l, m, hsplit, hl⟩ := List.eq_append_cons_of_mem h
  rw [hsplit, List.append_assoc, List.cons_append, cstr_append_nul hl, cstr_append_nul hl]

example : (strncpy 3 "80".toList).val = ['8', '0', nul] := by decide

end CString

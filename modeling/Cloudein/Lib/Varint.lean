import Mathlib.Data.Nat.Log
import Mathlib.Tactic.Ring

/-!
# Numbers in base 128, the lowest digit first

A varint is a number as bytes of seven bits each, every byte but the last with its high bit set.  `read` takes one off
the front of a text, of at most so many bytes.  It reads back what was written and leaves the bytes behind it
(`read_write`), what it has read does not depend on the bytes behind (`read_append`), and no bytes that `read` takes
for a number are fewer than those `write` needs (`length_write_le_of_read`).  `writeFixed` and `readFixed` are the
same for a number of a fixed number of bytes, which has all eight bits of each.
-/

namespace Varint

def write (n : Nat) : List UInt8 :=
  if n < 128 then [UInt8.ofNat n] else UInt8.ofNat (n % 128 + 128) :: write (n / 128)
termination_by n
decreasing_by omega

/-- The number at the front of a text, in at most so many bytes, and the bytes behind it. -/
def read : Nat → List UInt8 → Option (Nat × List UInt8)
  | 0, _ => none
  | _ + 1, [] => none
  | k + 1, b :: p =>
    if b.toNat < 128 then some (b.toNat, p)
    else (read k p).map fun r => (b.toNat - 128 + 128 * r.1, r.2)

theorem toNat_ofNat {n : Nat} (h : n < 256) : (UInt8.ofNat n).toNat = n := by
  rw [UInt8.toNat_ofNat']
  exact Nat.mod_eq_of_lt h

theorem write_of_lt {n : Nat} (h : n < 128) : write n = [UInt8.ofNat n] := by
  rw [write, if_pos h]

private theorem write_of_le {n : Nat} (h : 128 ≤ n) : write n = UInt8.ofNat (n % 128 + 128) :: write (n / 128) := by
  rw [write, if_neg (by omega)]

theorem read_last {b : UInt8} (h : b.toNat < 128) (k : Nat) (p : List UInt8) :
    read (k + 1) (b :: p) = some (b.toNat, p) := by
  rw [read, if_pos h]

theorem read_more {b : UInt8} (h : 128 ≤ b.toNat) (k : Nat) (p : List UInt8) :
    read (k + 1) (b :: p) = (read k p).map fun r => (b.toNat - 128 + 128 * r.1, r.2) := by
  rw [read, if_neg (by omega)]

private theorem div_lt_pow {n k : Nat} (h : n < 128 ^ (k + 1)) : n / 128 < 128 ^ k := by
  rw [Nat.div_lt_iff_lt_mul (by omega), ← Nat.pow_succ]
  exact h

theorem read_write {k n : Nat} (h : n < 128 ^ (k + 1)) (p : List UInt8) :
    read (k + 1) (write n ++ p) = some (n, p) := by
  induction k generalizing n with
  | zero =>
    have hn : n < 128 := by simpa using h
    have hbyte : (UInt8.ofNat n).toNat = n := toNat_ofNat (by omega)
    rw [write_of_lt hn, List.singleton_append, read_last (by omega), hbyte]
  | succ k ih =>
    by_cases hn : n < 128
    · have hbyte : (UInt8.ofNat n).toNat = n := toNat_ofNat (by omega)
      rw [write_of_lt hn, List.singleton_append, read_last (by omega), hbyte]
    · have hbyte : (UInt8.ofNat (n % 128 + 128)).toNat = n % 128 + 128 := toNat_ofNat (by omega)
      rw [write_of_le (by omega), List.cons_append, read_more (by omega), ih (div_lt_pow h), Option.map_some, hbyte]
      have hsplit : n % 128 + 128 - 128 + 128 * (n / 128) = n := by omega
      rw [hsplit]

/-! ### What `read` has read -/

/-- `read` takes at least one byte, and the number is below the power of its bytes. -/
theorem of_read {k v : Nat} {p q : List UInt8} (h : read k p = some (v, q)) :
    ∃ bs, p = bs ++ q ∧ 0 < bs.length ∧ bs.length ≤ k ∧ v < 128 ^ bs.length := by
  induction k generalizing p v with
  | zero => cases h
  | succ k ih =>
    cases p with
    | nil => cases h
    | cons b p =>
      by_cases hb : b.toNat < 128
      · rw [read_last hb, Option.some.injEq, Prod.mk.injEq] at h
        obtain ⟨rfl, rfl⟩ := h
        exact ⟨[b], rfl, by simp, by simp, by simpa using hb⟩
      · rw [read_more (by omega), Option.map_eq_some_iff] at h
        obtain ⟨⟨v', q'⟩, hr, hv⟩ := h
        simp only [Prod.mk.injEq] at hv
        obtain ⟨rfl, rfl⟩ := hv
        obtain ⟨bs, rfl, hpos, hle, hlt⟩ := ih hr
        refine ⟨b :: bs, rfl, by simp, by simpa using hle, ?_⟩
        have hbyte : b.toNat < 256 := b.toNat_lt
        rw [List.length_cons, Nat.pow_succ]
        omega

theorem length_of_read {k v : Nat} {p q : List UInt8} (h : read k p = some (v, q)) : q.length < p.length := by
  obtain ⟨bs, rfl, hpos, -, -⟩ := of_read h
  rw [List.length_append]
  omega

/-- The bytes behind the number do not matter. -/
theorem read_append {k v : Nat} {p q : List UInt8} (h : read k p = some (v, q)) (r : List UInt8) :
    read k (p ++ r) = some (v, q ++ r) := by
  induction k generalizing p v with
  | zero => cases h
  | succ k ih =>
    cases p with
    | nil => cases h
    | cons b p =>
      by_cases hb : b.toNat < 128
      · rw [read_last hb, Option.some.injEq, Prod.mk.injEq] at h
        obtain ⟨rfl, rfl⟩ := h
        rw [List.cons_append, read_last hb]
      · rw [read_more (by omega), Option.map_eq_some_iff] at h
        obtain ⟨⟨v', q'⟩, hr, hv⟩ := h
        simp only [Prod.mk.injEq] at hv
        obtain ⟨rfl, rfl⟩ := hv
        rw [List.cons_append, read_more (by omega), ih hr, Option.map_some]

/-! ### How long a number is -/

theorem length_write_le {k n : Nat} (h : n < 128 ^ (k + 1)) : (write n).length ≤ k + 1 := by
  induction k generalizing n with
  | zero =>
    have hn : n < 128 := by simpa using h
    rw [write_of_lt hn]
    simp
  | succ k ih =>
    by_cases hn : n < 128
    · rw [write_of_lt hn]
      simp
    · have hle := ih (div_lt_pow h)
      rw [write_of_le (by omega), List.length_cons]
      omega

/-- `write` needs no more bytes than the number was read from. -/
theorem length_write_le_of_read {k v : Nat} {p q : List UInt8} (h : read k p = some (v, q)) :
    (write v).length + q.length ≤ p.length := by
  obtain ⟨bs, rfl, hpos, -, hlt⟩ := of_read h
  obtain ⟨j, hj⟩ : ∃ j, bs.length = j + 1 := ⟨bs.length - 1, by omega⟩
  rw [hj] at hlt
  have hle := length_write_le hlt
  rw [List.length_append]
  omega

theorem length_write (n : Nat) : (write n).length = if n = 0 then 1 else Nat.log 2 n / 7 + 1 := by
  induction n using Nat.strongRecOn with
  | ind n ih =>
    by_cases h0 : n = 0
    · subst h0
      rw [write_of_lt (by omega)]
      rfl
    · rw [if_neg h0]
      by_cases hn : n < 128
      · have hlog : Nat.log 2 n < 7 := Nat.log_lt_of_lt_pow h0 (by omega)
        rw [write_of_lt hn, List.length_singleton]
        omega
      · have hdiv : n / 128 ≠ 0 := by omega
        -- Seven divisions by two take seven off the logarithm.
        have hlog : Nat.log 2 (n / 128) = Nat.log 2 n - 7 := by
          have h := Nat.log_div_base_pow 2 n 7
          simpa using h
        have hlarge : 7 ≤ Nat.log 2 n := Nat.le_log_of_pow_le (by omega) (by omega)
        rw [write_of_le (by omega), List.length_cons, ih (n / 128) (by omega), if_neg hdiv, hlog]
        omega

/-! ### Numbers of a fixed length -/

def writeFixed : Nat → Nat → List UInt8
  | 0, _ => []
  | k + 1, n => UInt8.ofNat (n % 256) :: writeFixed k (n / 256)

def readFixed : Nat → List UInt8 → Option (Nat × List UInt8)
  | 0, p => some (0, p)
  | _ + 1, [] => none
  | k + 1, b :: p => (readFixed k p).map fun r => (b.toNat + 256 * r.1, r.2)

@[simp] theorem length_writeFixed (k n : Nat) : (writeFixed k n).length = k := by
  induction k generalizing n with
  | zero => rfl
  | succ k ih => simp [writeFixed, ih]

theorem readFixed_writeFixed {k n : Nat} (h : n < 256 ^ k) (p : List UInt8) :
    readFixed k (writeFixed k n ++ p) = some (n, p) := by
  induction k generalizing n with
  | zero =>
    obtain rfl : n = 0 := by simpa using h
    rfl
  | succ k ih =>
    have hdiv : n / 256 < 256 ^ k := by
      rw [Nat.div_lt_iff_lt_mul (by omega), ← Nat.pow_succ]
      exact h
    have hbyte : (UInt8.ofNat (n % 256)).toNat = n % 256 := toNat_ofNat (by omega)
    have hsplit : n % 256 + 256 * (n / 256) = n := by omega
    rw [writeFixed, List.cons_append, readFixed, ih hdiv, Option.map_some, hbyte, hsplit]

theorem of_readFixed {k v : Nat} {p q : List UInt8} (h : readFixed k p = some (v, q)) :
    ∃ bs, p = bs ++ q ∧ bs.length = k ∧ v < 256 ^ k := by
  induction k generalizing p v with
  | zero =>
    simp only [readFixed, Option.some.injEq, Prod.mk.injEq] at h
    obtain ⟨rfl, rfl⟩ := h
    exact ⟨[], rfl, rfl, by simp⟩
  | succ k ih =>
    cases p with
    | nil => cases h
    | cons b p =>
      rw [readFixed, Option.map_eq_some_iff] at h
      obtain ⟨⟨v', q'⟩, hr, hv⟩ := h
      simp only [Prod.mk.injEq] at hv
      obtain ⟨rfl, rfl⟩ := hv
      obtain ⟨bs, rfl, hlen, hlt⟩ := ih hr
      refine ⟨b :: bs, rfl, by simp [hlen], ?_⟩
      have hbyte : b.toNat < 256 := b.toNat_lt
      rw [Nat.pow_succ]
      omega

theorem readFixed_append {k v : Nat} {p q : List UInt8} (h : readFixed k p = some (v, q)) (r : List UInt8) :
    readFixed k (p ++ r) = some (v, q ++ r) := by
  induction k generalizing p v with
  | zero =>
    simp only [readFixed, Option.some.injEq, Prod.mk.injEq] at h
    obtain ⟨rfl, rfl⟩ := h
    rfl
  | succ k ih =>
    cases p with
    | nil => cases h
    | cons b p =>
      rw [readFixed, Option.map_eq_some_iff] at h
      obtain ⟨⟨v', q'⟩, hr, hv⟩ := h
      simp only [Prod.mk.injEq] at hv
      obtain ⟨rfl, rfl⟩ := hv
      rw [List.cons_append, readFixed, ih hr, Option.map_some]

end Varint
